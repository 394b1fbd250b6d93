import BpmnEngine.OperationMoves

/-!
# What a step of the machine leads to

A step of a batch makes the batch return, go on or wait for another batch; the end of a
batch hands over to conditional events or to the caller; the next part of an operation
shortens the list the operation works on. In each case something gets smaller, except
where a token steps at an element that starts a batch inside its step.
-/
namespace BpmnEngine

/-! ## Steps that start a batch -/

def StepOutcome.Plain : StepOutcome → Prop
  | .action a => a.isCall = false
  | _ => False

namespace Eng

open Program

variable {env : Env} {i : Uuid} {token : Token} {d : ProcessDefinition} {node : String}
  {e t : Engine} {out : StepOutcome} {element : BpmnElement}

/-- What a step leads to suits the element at which it is made. -/
theorem dispatch_suits :
    Yields (dispatch env i token d node element) (StepOutcome.Suits element) := by
  intro e t out hx
  have hworks := Obeys.works (p := Config.stepPowers) (dispatch_obeys
    (Effects.working_governs trivial) (Effects.working_files trivial le_rfl)) Works.refl hx
  exact (hworks.2 out rfl).2

theorem dispatch_plain (h : element.startsBatch = false) :
    Yields (dispatch env i token d node element) StepOutcome.Plain := by
  intro e t out hx
  have hsuits := dispatch_suits e t out hx
  cases out with
  | action => exact hsuits.1 h
  | throwSignal | compensate => cases h.symm.trans hsuits

section

variable (hx : exec (executeStep env i token) e = (.ok out, t))

include hx

theorem executeStep_eq_ok :
    ∃ x d element, e.instances.find? i = some x ∧ e.definitions.find? x.definitionKey = some d ∧
      d.getNode token.currentNode = some element ∧
      exec (executeNode env i token d token.currentNode element) e = (.ok out, t) := by
  obtain ⟨d, u, hd, hrest⟩ := exec_bind_eq_ok hx
  obtain ⟨x, hfound, hkey, rfl⟩ := exec_definitionOf_eq_ok hd
  cases hnode : d.getNode token.currentNode with
  | none =>
    rw [hnode] at hrest
    cases hrest
  | some element =>
    rw [hnode] at hrest
    exact ⟨x, d, element, hfound, hkey, hnode, hrest⟩

/-- A step that starts a batch is made at an element that may do so. -/
theorem executeStep_plain : out.Plain ∨ ∃ x d element, e.instances.find? i = some x ∧
      e.definitions.find? x.definitionKey = some d ∧
      d.getNode token.currentNode = some element ∧ element.startsBatch = true := by
  obtain ⟨x, d, element, hfound, hkey, hnode, hx⟩ := executeStep_eq_ok hx
  cases hstarts : element.startsBatch with
  | true => exact .inr ⟨x, d, element, hfound, hkey, hnode, hstarts⟩
  | false =>
    have hyields : Yields (executeNode env i token d token.currentNode element)
        StepOutcome.Plain := by
      refine .after fun _ => .after fun _ => ?_
      split
      · exact .after fun _ => dispatch_plain hstarts
      · exact dispatch_plain hstarts
    exact .inl (hyields _ _ _ hx)

end

theorem deliverSignal_yields (vars : Variables) (catchId : Uuid) :
    Yields (deliverSignal env vars catchId) fun next =>
      match next with
      | .done => True
      | .run _ tokens => tokens ≠ [] := by
  refine .after fun e => ?_
  split
  · exact .pure trivial
  case h_2 c _ =>
    refine .after fun _ => .after fun subscribed => ?_
    split
    · refine .after fun activation => ?_
      unfold runActivation
      split
      · exact .pure (List.cons_ne_nil _ _)
      · exact .pure (List.cons_ne_nil _ _)
      · exact .pure trivial
    · refine .after fun d => ?_
      dsimp only
      split
      · exact .after fun _ => .after fun _ => .after fun _ => .after fun _ => .after fun _ =>
          .after fun _ => .pure (List.cons_ne_nil _ _)
      · exact .after fun _ => .after fun _ => .after fun _ => .after fun _ =>
          .pure (List.cons_ne_nil _ _)

end Eng

/-- How often an interrupted step still goes on by itself. -/
def Suspension.left : Suspension → Nat
  | .signalThrow _ _ _ remaining => remaining.length + 1
  | .compensation _ _ _ _ _ remaining => remaining.length + 1
  | .call .. => 0

def Driver.phase : Driver → Nat
  | .messageCatches .. | .signalCatches .. => 1
  | _ => 0

/-- How much of its own list an operation has still to serve. -/
def Driver.left : Driver → Nat
  | .finish => 0
  | .timers rest => 2 * rest.length
  | .timer _ _ rest => 2 * rest.length + 1
  | .messageCatches _ rest => rest.length
  | .messageStarts _ _ rest => rest.length
  | .signalCatches _ _ rest => rest.length
  | .signalStarts _ rest => rest.length

namespace Config

/-- The next step is one of a token at an element that may start a batch. -/
def StartsBatch (c : Config) : Prop :=
  ∃ b token queue x d element, c.control = .running b ∧ b.queue = token :: queue ∧
    c.engine.instances.find? b.instanceId = some x ∧
    c.engine.definitions.find? x.definitionKey = some d ∧
    d.getNode token.currentNode = some element ∧ element.startsBatch = true

/-- What a step of a batch leads to: the batch returns, it goes on, or it is interrupted. -/
inductive Outcome (b : Batch) (stack : List Suspension) (driver : Driver) (n : Nat)
    (c : Config) : Prop where
  | returns (result : EngineResult Unit) (hcontrol : c.control = .returning result)
      (hstack : c.stack = stack) (hdriver : c.driver = driver)
  | goesOn (queue : List Token) (hcontrol : c.control = .running { b with queue := queue })
      (hstack : c.stack = stack) (hdriver : c.driver = driver)
  | nests (s : Suspension) (queue : List Token) (hbatch : s.batch = { b with queue := queue })
      (hleft : s.left < n) (hstack : c.stack = s :: stack) (hdriver : c.driver = driver)
      (hcontrol : (∃ result, c.control = .returning result) ∨
        ∃ i tokens, tokens ≠ [] ∧ c.control = .running ⟨i, tokens, 0⟩)

/-- What the end of a batch leads to: it returns, conditional events go on with it, or the caller
of its instance takes its place. -/
inductive Drained (b : Batch) (stack : List Suspension) (driver : Driver) (c : Config) :
    Prop where
  | returns (result : EngineResult Unit) (hcontrol : c.control = .returning result)
      (hstack : c.stack = stack) (hdriver : c.driver = driver)
  | fires (queue : List Token) (hqueue : queue ≠ [])
      (hcontrol : c.control = .running { b with queue := queue })
      (hstack : c.stack = stack) (hdriver : c.driver = driver)
  | resumes (caller : Uuid) (tokens : List Token) (hcaller : caller < b.instanceId)
      (hcontrol : c.control = .running ⟨caller, tokens, 0⟩)
      (hstack : c.stack = stack) (hdriver : c.driver = driver)

/-- What the next part of an operation leads to: its answer, a shorter list, or its failure. -/
inductive Driven (driver : Driver) (result : EngineResult Unit) (c : Config) : Prop where
  | answers (hcontrol : c.control = .idle) (hstack : c.stack = [])
  | proceeds (hleft : c.driver.phase < driver.phase ∨
        c.driver.phase = driver.phase ∧ c.driver.left < driver.left) (hstack : c.stack = [])
      (hcontrol : (∃ result, c.control = .returning result) ∨
        ∃ i tokens, c.control = .running ⟨i, tokens, 0⟩)
  | fails (hresult : result = .ok ()) (error : EngineError)
      (hcontrol : c.control = .returning (.error error)) (hstack : c.stack = [])
      (hdriver : c.driver = driver)

section Outcomes

variable {env : Env} {c : Config} {b : Batch} {n : Nat}

theorem failIn_outcome (error : EngineError) : Outcome b c.stack c.driver n (failIn b error c) :=
  exec_rule (fun _ _ _ => .returns _ rfl rfl rfl) fun _ _ _ => .returns _ rfl rfl rfl

theorem follow_control (next : Next) (c : Config) :
    (∃ result, (follow next c).control = .returning result) ∨
      ∃ i tokens, (follow next c).control = .running ⟨i, tokens, 0⟩ := by
  cases next with
  | done => exact .inl ⟨_, rfl⟩
  | run i tokens => exact .inr ⟨i, tokens, rfl⟩

@[simp] theorem follow_stack (next : Next) (c : Config) : (follow next c).stack = c.stack := by
  cases next <;> rfl

@[simp] theorem follow_driver (next : Next) (c : Config) : (follow next c).driver = c.driver := by
  cases next <;> rfl

theorem act_outcome (hn : 0 < n) (tokenId : Uuid) (node : String) (action : NextAction) :
    Outcome b c.stack c.driver n (act env b tokenId node action c) := by
  refine exec_rule (fun _ _ _ => .returns _ rfl rfl rfl) fun out e _ => ?_
  cases out with
  | proceed queue => exact .goesOn queue rfl rfl rfl
  | call queue childId =>
    exact .nests (.call { b with queue := queue } childId) queue rfl hn rfl rfl
      (.inr ⟨_, _, List.cons_ne_nil _ _, rfl⟩)

theorem stepToken_outcome (token : Token) :
    ∃ n, Outcome b c.stack c.driver n (stepToken env b token c) := by
  refine exec_rule (P := fun c' => ∃ n, Outcome b c.stack c.driver n c')
    (fun error e _ => ⟨0, failIn_outcome (c := { c with engine := e }) error⟩) fun out e _ => ?_
  cases out with
  | action action =>
    exact ⟨1, act_outcome (c := { c with engine := e }) Nat.one_pos token.id _ action⟩
  | throwSignal thrown name isEnd =>
    refine exec_rule (P := fun c' => ∃ n, Outcome b c.stack c.driver n c')
      (fun error t _ => ⟨0, failIn_outcome (c := { c with engine := t }) error⟩)
      fun catches t _ => ⟨catches.length + 2, ?_⟩
    exact .nests (.signalThrow b thrown isEnd catches) b.queue rfl (Nat.lt_succ_self _) rfl rfl
      (.inl ⟨_, rfl⟩)
  | compensate thrown ref isEnd handlers =>
    exact ⟨_, .nests (.compensation b thrown ref isEnd false handlers) b.queue rfl
      (Nat.lt_succ_self _) rfl rfl (.inl ⟨_, rfl⟩)⟩

theorem resumeStep_outcome (hn : 0 < n) (token : Token)
    (finish : ProcessDefinition → Eng NextAction) :
    Outcome b c.stack c.driver n (resumeStep env b token finish c) :=
  exec_rule (fun error e _ => failIn_outcome (c := { c with engine := e }) error)
    fun action e _ => act_outcome (c := { c with engine := e }) hn _ _ action

theorem resumeSignal_outcome (token : Token) (isEnd : Bool) (remaining : List Uuid) :
    Outcome b c.stack c.driver (remaining.length + 1)
      (resumeSignal env b token isEnd remaining c) := by
  unfold resumeSignal
  split
  · exact resumeStep_outcome (Nat.succ_pos _) _ _
  case h_2 id rest =>
    refine exec_rule (fun error e _ => failIn_outcome (c := { c with engine := e }) error)
      fun next e hx => ?_
    refine .nests (.signalThrow b token isEnd rest) b.queue rfl (Nat.lt_succ_self _)
      (follow_stack _ _) (follow_driver _ _) ?_
    cases next with
    | done => exact .inl ⟨_, rfl⟩
    | run i tokens => exact .inr ⟨i, tokens, Eng.deliverSignal_yields token.vars id _ _ _ hx, rfl⟩

theorem resumeCompensation_outcome (token : Token) (ref : Option String) (isEnd ran : Bool)
    (remaining : List CompensationRecord) :
    Outcome b c.stack c.driver (remaining.length + 1)
      (resumeCompensation env b token ref isEnd ran remaining c) := by
  unfold resumeCompensation
  dsimp only
  split
  · exact resumeStep_outcome (Nat.succ_pos _) _ _
  case h_2 record rest =>
    refine exec_rule (fun error e _ => failIn_outcome (c := { c with engine := e }) error)
      fun d e _ => ?_
    split
    · refine exec_rule (fun error t _ => failIn_outcome (c := { c with engine := t }) error)
        fun start t _ => ?_
      exact .nests (.compensation b _ ref isEnd true rest) b.queue rfl (Nat.lt_succ_self _) rfl rfl
        (.inr ⟨_, _, List.cons_ne_nil _ _, rfl⟩)
    · exact .nests (.compensation b _ ref isEnd false rest) b.queue rfl (Nat.lt_succ_self _) rfl
        rfl (.inl ⟨_, rfl⟩)

theorem unwind_outcome (s : Suspension) (result : EngineResult Unit) :
    Outcome s.batch c.stack c.driver s.left (unwind env s result c) := by
  unfold unwind
  split
  · exact resumeSignal_outcome _ _ _
  · exact resumeCompensation_outcome _ _ _ _ _
  case h_3 b _ _ => exact .goesOn b.queue rfl rfl rfl
  · exact failIn_outcome _
  · exact failIn_outcome _
  · exact exec_rule (fun _ _ _ => .returns _ rfl rfl rfl) fun _ _ _ => .goesOn [] rfl rfl rfl

theorem drain_drained (hok : c.Ok) (hranked : c.engine.Ranked) :
    Drained b c.stack c.driver (drain env b c) := by
  refine exec_rule (fun _ _ _ => .returns _ rfl rfl rfl) fun fired e hx => ?_
  cases fired with
  | cons token rest => exact .fires (token :: rest) (List.cons_ne_nil _ _) rfl rfl rfl
  | nil =>
    have hw := (fireConditionalCatches_works hok.sound.drawn hx).1
    have hmoves : Moves (fun _ => True) c.engine e := hw.moves hok.sound trivial
    refine exec_rule (fun _ _ _ => .returns _ rfl rfl rfl) fun next t ht => ?_
    cases next with
    | done => exact .returns _ rfl rfl rfl
    | run i tokens =>
      rcases finishBatch_works ht with ⟨_, hdone⟩ | ⟨q, ⟨x, _, hx, _, hparent, _⟩, _, hruns⟩
      · cases hdone _ rfl
      · obtain rfl : i = q := hruns _ rfl
        exact .resumes i tokens (hmoves.ranked hranked _ x i hx hparent) rfl rfl rfl

/-! ## The parts of an operation -/

section Drive

variable {driver d : Driver} {result : EngineResult Unit} {rest : List Uuid} {message : Correlation}
  {vars : Variables}

section

variable (hstack : c.stack = [])

include hstack

theorem follow_driven (next : Next) (e : Engine)
    (hleft : d.phase < driver.phase ∨ d.phase = driver.phase ∧ d.left < driver.left) :
    Driven driver result (follow next { c with engine := e, driver := d }) :=
  .proceeds (by simpa using hleft) (by simpa using hstack) (follow_control _ _)

theorem resumeWith_driven
    (hleft : d.phase < driver.phase ∨ d.phase = driver.phase ∧ d.left < driver.left) :
    Driven driver result (c.resumeWith d) :=
  .proceeds hleft hstack (.inl ⟨_, rfl⟩)

theorem fail_driven (hdriver : c.driver = driver) (error : EngineError) (e : Engine) :
    Driven driver (.ok ()) (fail error { c with engine := e }) :=
  .fails rfl error rfl hstack hdriver

theorem settleTimer_driven {timer : PendingTimer} {rearm : Bool}
    (hdriver : c.driver = .timer timer rearm rest) :
    Driven (.timer timer rearm rest) result (settleTimer env timer rearm rest result c) := by
  have hleft : (Driver.timers rest).phase < (Driver.timer timer rearm rest).phase ∨
      (Driver.timers rest).phase = (Driver.timer timer rearm rest).phase ∧
        (Driver.timers rest).left < (Driver.timer timer rearm rest).left :=
    .inr ⟨rfl, Nat.lt_succ_self _⟩
  cases result with
  | error error =>
    obtain ⟨e, hx⟩ : ∃ e, Program.exec (Eng.rescheduleFailedTimer timer error) c.engine =
      (.ok (), e) := ⟨_, rfl⟩
    rw [settleTimer, exec_of_ok hx]
    exact resumeWith_driven hstack hleft
  | ok =>
    unfold settleTimer
    dsimp only
    split
    · exact exec_rule (fun error e _ => fail_driven hstack hdriver error e)
        fun _ e _ => resumeWith_driven hstack hleft
    · exact resumeWith_driven hstack hleft

theorem nextTimer_driven (rest : List Uuid) :
    Driven (.timers rest) (.ok ()) (nextTimer env rest c) := by
  unfold nextTimer
  split
  · exact .answers rfl hstack
  case h_2 id rest =>
    have hlength : 2 * rest.length + 1 < 2 * (id :: rest).length := by
      rw [List.length_cons]
      omega
    split
    · exact resumeWith_driven hstack (.inr ⟨rfl, Nat.lt_of_succ_lt hlength⟩)
    · refine exec_rule (fun error e _ => ?_) fun a e _ => ?_
      · exact .proceeds (.inr ⟨rfl, hlength⟩) hstack (.inl ⟨_, rfl⟩)
      · exact follow_driven hstack _ e (.inr ⟨rfl, hlength⟩)

theorem nextMessageCatch_driven (hdriver : c.driver = .messageCatches message rest) :
    Driven (.messageCatches message rest) (.ok ()) (nextMessageCatch env message rest c) := by
  unfold nextMessageCatch
  split
  · exact exec_rule (fun error e _ => fail_driven hstack hdriver error e)
      fun _ e _ => resumeWith_driven hstack (.inl Nat.one_pos)
  · exact exec_rule (fun error e _ => fail_driven hstack hdriver error e)
      fun _ e _ => follow_driven hstack _ e (.inr ⟨rfl, Nat.lt_succ_self _⟩)

theorem nextMessageStart_driven {started : Option Uuid}
    (hdriver : c.driver = .messageStarts message started rest) :
    Driven (.messageStarts message started rest) (.ok ())
      (nextMessageStart env message started rest c) := by
  refine exec_rule (fun error e _ => fail_driven hstack hdriver error e) fun _ e _ => ?_
  split
  · exact .answers rfl hstack
  · exact exec_rule (fun error t _ => fail_driven hstack hdriver error t)
      fun _ t _ => follow_driven hstack _ t (.inr ⟨rfl, Nat.lt_succ_self _⟩)

theorem nextSignalCatch_driven {name : String}
    (hdriver : c.driver = .signalCatches name vars rest) :
    Driven (.signalCatches name vars rest) (.ok ()) (nextSignalCatch env name vars rest c) := by
  unfold nextSignalCatch
  split
  · exact exec_rule (fun error e _ => fail_driven hstack hdriver error e)
      fun _ e _ => resumeWith_driven hstack (.inl Nat.one_pos)
  · exact exec_rule (fun error e _ => fail_driven hstack hdriver error e)
      fun _ e _ => follow_driven hstack _ e (.inr ⟨rfl, Nat.lt_succ_self _⟩)

theorem nextSignalStart_driven (hdriver : c.driver = .signalStarts vars rest) :
    Driven (.signalStarts vars rest) (.ok ()) (nextSignalStart env vars rest c) := by
  unfold nextSignalStart
  split
  · exact .answers rfl hstack
  · exact exec_rule (fun error t _ => fail_driven hstack hdriver error t)
      fun _ t _ => follow_driven hstack _ t (.inr ⟨rfl, Nat.lt_succ_self _⟩)

/-- Every part of an operation brings it closer to its answer. -/
theorem drive_driven : Driven c.driver result (drive env result c) := by
  unfold drive
  split
  case h_1 hdriver => exact hdriver ▸ settleTimer_driven hstack hdriver
  · exact .answers rfl hstack
  · exact .answers rfl hstack
  case h_4 hdriver => exact hdriver ▸ nextTimer_driven hstack _
  case h_5 hdriver => exact hdriver ▸ nextMessageCatch_driven hstack hdriver
  case h_6 hdriver => exact hdriver ▸ nextMessageStart_driven hstack hdriver
  case h_7 hdriver => exact hdriver ▸ nextSignalCatch_driven hstack hdriver
  case h_8 hdriver => exact hdriver ▸ nextSignalStart_driven hstack hdriver

end

end Drive

end Outcomes

/-! ## One internal step -/

def Returned (stack : List Suspension) (driver : Driver) (c : Config) : Prop :=
  (∃ result, c.control = .returning result) ∧ c.stack = stack ∧ c.driver = driver

section InternalStep

variable {env : Env} {c c' : Config} {b : Batch} {stack : List Suspension}
  {result : EngineResult Unit}

theorem Ok.internalStep (h : c.Ok) (hstep : c.internalStep env = some c') : c'.Ok :=
  have hsteps := internalStep_steps h hstep
  ⟨hsteps.moves.sound, hsteps.driver⟩

theorem internalStep_running (h : c.control = .running b) :
    c.internalStep env = some (stepBatch env b c) := by
  rw [Config.internalStep, h]

theorem internalStep_returning {s : Suspension} (h : c.control = .returning result)
    (hstack : c.stack = s :: stack) :
    c.internalStep env = some (unwind env s result { c with stack := stack }) := by
  rw [Config.internalStep, h, hstack]

theorem internalStep_driving (h : c.control = .returning result) (hstack : c.stack = []) :
    c.internalStep env = some (drive env result c) := by
  rw [Config.internalStep, h, hstack]

theorem stepBatch_cons {token : Token} {queue : List Token} (hqueue : b.queue = token :: queue) :
    Returned c.stack c.driver (stepBatch env b c) ∨
      b.stepCount < maxExecutionSteps ∧
        ∃ n, Outcome ⟨b.instanceId, queue, b.stepCount + 1⟩ c.stack c.driver n
          (stepBatch env b c) := by
  unfold stepBatch
  rw [hqueue]
  dsimp only
  split
  · exact .inl (exec_rule (fun error e _ => ⟨⟨_, rfl⟩, rfl, rfl⟩) fun _ e hx => by cases hx)
  case isFalse hlimit => exact .inr ⟨by omega, stepToken_outcome token⟩

theorem stepBatch_nil (hqueue : b.queue = []) : stepBatch env b c = drain env b c := by
  unfold stepBatch
  rw [hqueue]

end InternalStep

/-! ## Every reachable state -/

/-- No batch has made more steps than it may. -/
structure Counted (c : Config) : Prop where
  running : ∀ b, c.control = .running b → b.stepCount ≤ maxExecutionSteps
  interrupted : ∀ s ∈ c.stack, s.batch.stepCount ≤ maxExecutionSteps

/-- What holds in every reachable state: callers are older than what they called and are the only
ones to have called it, no batch is interrupted between two operations, and none has made too many
steps. -/
structure InOrder (c : Config) : Prop where
  ok : c.Ok
  ranked : c.engine.Ranked
  lineage : c.engine.Lineage
  idle : c.control = .idle → c.stack = []
  counted : c.Counted

def Begun (stack : List Suspension) (c : Config) : Prop :=
  c.stack = stack ∧ (c.control = .idle ∨ (∃ result, c.control = .returning result) ∨
    ∃ i tokens, c.control = .running ⟨i, tokens, 0⟩)

section Invariant

variable {env : Env} {c c' : Config} {b : Batch} {stack : List Suspension} {driver : Driver}
  {n : Nat}

theorem Returned.not_idle (h : Returned stack driver c) : c.control ≠ .idle := by
  obtain ⟨⟨result, hresult⟩, _⟩ := h
  simp [hresult]

theorem Returned.counted (h : Returned stack driver c)
    (hs : ∀ s ∈ stack, s.batch.stepCount ≤ maxExecutionSteps) : c.Counted := by
  obtain ⟨⟨result, hresult⟩, hstack, _⟩ := h
  exact ⟨fun b hb => by simp [hresult] at hb, hstack ▸ hs⟩

theorem Outcome.not_idle (h : Outcome b stack driver n c) : c.control ≠ .idle := by
  cases h with
  | returns result hcontrol => simp [hcontrol]
  | goesOn queue hcontrol => simp [hcontrol]
  | nests s queue hbatch hleft hstack hdriver hcontrol =>
    rcases hcontrol with ⟨_, h⟩ | ⟨_, _, _, h⟩ <;> simp [h]

theorem counted_of_begun (h : Begun stack c)
    (hs : ∀ s ∈ stack, s.batch.stepCount ≤ maxExecutionSteps) : c.Counted := by
  refine ⟨fun b hb => ?_, h.1 ▸ hs⟩
  rcases h.2 with h | ⟨_, h⟩ | ⟨_, _, h⟩ <;> rw [hb] at h <;> cases h
  exact Nat.zero_le _

theorem Outcome.counted (h : Outcome b stack driver n c) (hb : b.stepCount ≤ maxExecutionSteps)
    (hs : ∀ s ∈ stack, s.batch.stepCount ≤ maxExecutionSteps) : c.Counted := by
  cases h with
  | returns result hcontrol hstack =>
    exact counted_of_begun ⟨hstack, .inr (.inl ⟨result, hcontrol⟩)⟩ hs
  | goesOn queue hcontrol hstack =>
    refine ⟨fun b' hb' => ?_, hstack ▸ hs⟩
    rw [hcontrol] at hb'
    cases hb'
    exact hb
  | nests s queue hbatch hleft hstack hdriver hcontrol =>
    have hbegun : Begun (s :: stack) c :=
      ⟨hstack, .inr (hcontrol.imp_right fun ⟨i, tokens, _, h⟩ => ⟨i, tokens, h⟩)⟩
    refine counted_of_begun hbegun fun s' hs' => ?_
    rcases List.mem_cons.mp hs' with rfl | hs'
    · rw [hbatch]
      exact hb
    · exact hs s' hs'

theorem stepBatch_counted (h : c.InOrder) (hb : c.control = .running b) :
    (stepBatch env b c).Counted ∧ (stepBatch env b c).control ≠ .idle := by
  have hcount := h.counted.running b hb
  have hs := h.counted.interrupted
  cases hqueue : b.queue with
  | nil =>
    rw [stepBatch_nil hqueue]
    have hdrained : Drained b c.stack c.driver (drain env b c) := drain_drained h.ok h.ranked
    cases hdrained with
    | returns result hcontrol hstack =>
      exact ⟨counted_of_begun ⟨hstack, .inr (.inl ⟨result, hcontrol⟩)⟩ hs, by simp [hcontrol]⟩
    | fires queue hne hcontrol hstack hdriver =>
      have hout : Outcome b c.stack c.driver 0 (drain env b c) :=
        .goesOn queue hcontrol hstack hdriver
      exact ⟨hout.counted hcount hs, hout.not_idle⟩
    | resumes caller tokens hlt hcontrol hstack =>
      exact ⟨counted_of_begun ⟨hstack, .inr (.inr ⟨caller, tokens, hcontrol⟩)⟩ hs,
        by simp [hcontrol]⟩
  | cons =>
    rcases stepBatch_cons hqueue with hback | ⟨hlimit, n, hout⟩
    · exact ⟨hback.counted hs, hback.not_idle⟩
    · exact ⟨hout.counted hlimit hs, hout.not_idle⟩

theorem InOrder.internalStep (h : c.InOrder) (hstep : c.internalStep env = some c') :
    c'.InOrder := by
  have hmoves := (internalStep_steps h.ok hstep).moves
  have hok := h.ok.internalStep hstep
  suffices hrest : (c'.control = .idle → c'.stack = []) ∧ c'.Counted from
    ⟨hok, hmoves.ranked h.ranked, hmoves.lineage h.lineage, hrest.1, hrest.2⟩
  clear hmoves hok
  unfold Config.internalStep at hstep
  split at hstep
  · cases hstep
  case h_2 b hcontrol =>
    cases hstep
    obtain ⟨hcounted, hidle⟩ : (stepBatch env b c).Counted ∧ _ := stepBatch_counted h hcontrol
    exact ⟨fun h => absurd h hidle, hcounted⟩
  case h_3 result s rest hcontrol hstack =>
    cases hstep
    have hs := h.counted.interrupted
    rw [hstack] at hs
    have hout : Outcome s.batch rest c.driver s.left (unwind env s result { c with stack := rest })
      :=
      unwind_outcome (c := { c with stack := rest }) s result
    exact ⟨fun h => absurd h hout.not_idle,
      hout.counted (hs s List.mem_cons_self) fun s' hs' => hs s' (List.mem_cons_of_mem s hs')⟩
  case h_4 result hcontrol hstack =>
    cases hstep
    have hdriven : Driven c.driver result (drive env result c) := drive_driven hstack
    have hnone : ∀ s ∈ ([] : List Suspension), s.batch.stepCount ≤ maxExecutionSteps :=
      fun _ hs => absurd hs List.not_mem_nil
    cases hdriven with
    | answers hidle hempty => exact ⟨fun _ => hempty, counted_of_begun ⟨hempty, .inl hidle⟩ hnone⟩
    | proceeds hleft hempty hcontrol =>
      exact ⟨fun _ => hempty, counted_of_begun ⟨hempty, .inr hcontrol⟩ hnone⟩
    | fails hresult error hcontrol hempty =>
      exact ⟨fun _ => hempty, counted_of_begun ⟨hempty, .inr (.inl ⟨_, hcontrol⟩)⟩ hnone⟩

theorem operate_begun (m : Eng Next) : Begun c.stack (c.operate m) :=
  exec_rule (fun _ _ _ => ⟨rfl, .inr (.inl ⟨_, rfl⟩)⟩)
    fun _ _ _ => ⟨follow_stack _ _, .inr (follow_control _ _)⟩

theorem operateUnit_begun (m : Eng Unit) : Begun c.stack (c.operateUnit m) :=
  exec_rule (fun _ _ _ => ⟨rfl, .inr (.inl ⟨_, rfl⟩)⟩) fun _ _ _ => ⟨rfl, .inr (.inl ⟨_, rfl⟩)⟩

theorem begin_begun (op : Op) : Begun c.stack (c.begin env op) := by
  have hreturns : ∀ {α : Type} (m : Eng α) (k : α → Config → Config),
      (∀ a e, Begun c.stack (k a { c with engine := e })) → Begun c.stack (c.exec m fail k) :=
    fun m k hk => exec_rule (fun _ _ _ => ⟨rfl, .inr (.inl ⟨_, rfl⟩)⟩) fun a e _ => hk a e
  cases op with
  | fetchAndLock | dispatchHandlers => exact hreturns _ _ fun _ _ => ⟨rfl, .inl rfl⟩
  | processTimers | correlateMessage | correlateSignal =>
    exact hreturns _ _ fun _ _ => ⟨rfl, .inr (.inl ⟨_, rfl⟩)⟩
  | startHandlerInvocation permitted =>
    change Begun c.stack (c.passDispatched permitted)
    unfold passDispatched
    split
    · exact ⟨rfl, .inr (.inl ⟨_, rfl⟩)⟩
    case h_2 rest _ => exact operateUnit_begun (c := { c with dispatched := rest }) _
  | applyTaskOutcome =>
    unfold begin
    dsimp only
    split
    · exact operate_begun _
    · exact ⟨rfl, .inr (.inl ⟨_, rfl⟩)⟩
  | deployDefinition | deleteDefinition | failServiceTask | extendLock | retryIncident
  | endHandlerInvocation | registerTaskHandler | unregisterTaskHandler | suspendInstance
  | resumeInstance | migrateInstance | resolveInstanceIncident | deleteInstance | tick =>
    exact operateUnit_begun _
  | _ => exact operate_begun _

theorem InOrder.begin (h : c.InOrder) (hidle : c.control = .idle) (op : Op) :
    (c.begin env op).InOrder := by
  have hbegun : Begun c.stack (c.begin env op) := begin_begun op
  have hstack := h.idle hidle
  suffices hengine : (c.begin env op).Ok ∧ (c.begin env op).engine.Ranked ∧
      (c.begin env op).engine.Lineage from
    ⟨hengine.1, hengine.2.1, hengine.2.2, fun _ => hbegun.1.trans hstack,
      counted_of_begun hbegun h.counted.interrupted⟩
  cases hdel : op.deletes with
  | true =>
    obtain ⟨e, r, hbegin, hremoves⟩ := begin_removes env h.ok hdel
    have hdriver : DriverOk (returnWith r { c with engine := e }) := fun t rearm rest ht =>
      (h.ok.driver t rearm rest ht).filedFrom hremoves.filed
    rw [hbegin]
    exact ⟨⟨hremoves.sound, hdriver⟩, hremoves.ranked h.ranked, hremoves.lineage h.lineage⟩
  | false =>
    have hsteps : Steps _ c (c.begin env op) := begin_steps h.ok hdel
    exact ⟨⟨hsteps.moves.sound, hsteps.driver⟩, hsteps.moves.ranked h.ranked,
      hsteps.moves.lineage h.lineage⟩

theorem InOrder.step (h : c.InOrder) {m : Move} (hstep : c.step env m = some c') : c'.InOrder := by
  cases m with
  | internal => exact h.internalStep hstep
  | op op =>
    rw [Config.step] at hstep
    split at hstep
    case isTrue hidle =>
      cases hstep
      exact h.begin hidle op
    · cases hstep

theorem initial_inOrder (clock : Time) : (initial clock).InOrder := by
  have hwaits : (Engine.new clock).waits = [] := rfl
  have hfind : ∀ x, (Engine.new clock).instances.find? x = none := fun _ => rfl
  refine ⟨⟨⟨⟨?_, ?_, ?_⟩, ?_⟩, ?_⟩, ?_, ⟨?_, ?_⟩, fun _ => rfl, ?_, ?_⟩
  · simp [initial, Config.idle, hwaits]
  · simp [initial, Config.idle, hfind]
  · rintro i id ⟨x, hx, _⟩
    cases hx
  · simp [initial, Config.idle, hwaits, Engine.Subscriptions]
  · intro t rearm rest h
    cases h
  · intro x y q hy
    cases hy
  · rintro i id ⟨y, call, hy, _⟩
    cases hy
  · rintro i id z q ⟨y, call, hy, _⟩
    cases hy
  · intro b hb
    cases hb
  · intro s hs
    cases hs

theorem stepToken_stack (token : Token)
    (hplain : ∀ x d element, c.engine.instances.find? b.instanceId = some x →
      c.engine.definitions.find? x.definitionKey = some d →
      d.getNode token.currentNode = some element → element.startsBatch = false) :
    (stepToken env b token c).stack = c.stack := by
  have hfail : ∀ error e, (failIn b error { c with engine := e }).stack = c.stack :=
    fun _ _ => exec_rule (P := fun c' => c'.stack = c.stack) (fun _ _ _ => rfl) fun _ _ _ => rfl
  refine exec_rule (P := fun c' => c'.stack = c.stack) (fun error e _ => hfail error e)
    fun out e hx => ?_
  obtain ⟨hw, hfits⟩ := executeStep_works hx
  rcases Eng.executeStep_plain hx with hout | ⟨x, d, element, hx, hd, hnode, hstarts⟩
  · cases out with
    | action =>
      refine exec_rule (P := fun c' => c'.stack = c.stack) (fun _ _ _ => rfl) fun out t ht => ?_
      cases out with
      | proceed => rfl
      | call => exact ((handleNextAction_works hw (hfits _ rfl) hout ht).2 _ rfl).elim
    | throwSignal => exact hout.elim
    | compensate => exact hout.elim
  · simp [hplain x d element hx hd hnode] at hstarts

theorem Outcome.stack_le (h : Outcome b stack driver n c) : c.stack.length ≤ stack.length + 1 := by
  cases h with
  | returns _ _ hstack => simp [hstack]
  | goesOn _ _ hstack => simp [hstack]
  | nests _ _ _ _ hstack => simp [hstack]

/-- Only a step at an element that may start a batch makes the stack grow, and by one. -/
theorem stack_internalStep (h : c.InOrder) (hstep : c.internalStep env = some c') :
    c'.stack.length ≤ c.stack.length ∨ c.StartsBatch ∧ c'.stack.length ≤ c.stack.length + 1 := by
  unfold Config.internalStep at hstep
  split at hstep
  · cases hstep
  case h_2 b hcontrol =>
    cases hstep
    cases hqueue : b.queue with
    | nil =>
      rw [stepBatch_nil hqueue]
      have hdrained : Drained b c.stack c.driver (drain env b c) := drain_drained h.ok h.ranked
      left
      cases hdrained with
      | returns _ _ hstack => rw [hstack]
      | fires _ _ _ hstack => rw [hstack]
      | resumes _ _ _ _ hstack => rw [hstack]
    | cons token queue =>
      by_cases hstarts : c.StartsBatch
      · right
        refine ⟨hstarts, ?_⟩
        rcases stepBatch_cons hqueue with hback | ⟨_, n, hout⟩
        · rw [hback.2.1]
          exact Nat.le_succ _
        · exact hout.stack_le
      · left
        unfold stepBatch
        rw [hqueue]
        dsimp only
        split
        · exact exec_rule (P := fun c' => c'.stack.length ≤ c.stack.length) (fun _ _ _ => le_rfl)
            fun _ _ _ => le_rfl
        · rw [stepToken_stack token fun x d element hx hd hnode => ?_]
          cases hkind : element.startsBatch with
          | false => rfl
          | true =>
            exact (hstarts ⟨b, token, queue, x, d, element, hcontrol, hqueue, hx, hd, hnode,
              hkind⟩).elim
  case h_3 result s rest hcontrol hstack =>
    cases hstep
    have hout : Outcome s.batch rest c.driver s.left (unwind env s result { c with stack := rest })
      :=
      unwind_outcome (c := { c with stack := rest }) s result
    left
    rw [hstack]
    exact hout.stack_le
  case h_4 result hcontrol hstack =>
    cases hstep
    have hdriven : Driven c.driver result (drive env result c) := drive_driven hstack
    left
    cases hdriven with
    | answers _ hempty => simp [hempty]
    | proceeds _ hempty => simp [hempty]
    | fails _ _ _ hempty => simp [hempty]

theorem inOrder_of_reaches {clock : Time}
    (h : Reaches (step env) (fun _ _ => True) (initial clock) c) : c.InOrder :=
  h.invariant (initial_inOrder clock) fun _ _ _ hs _ hstep => hs.step hstep

end Invariant

end Config

end BpmnEngine
