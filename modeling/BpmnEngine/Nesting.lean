import BpmnEngine.StepOutcomes

/-!
# How deep the batches of an operation nest

A batch stops after a fixed number of steps, but a step may start another batch, and
that one counts from zero again. The batches that are interrupted at one time form the
stack of the machine. An operation comes to its end exactly if that stack stays bounded:
every other part of the machine runs out of work, the batches by their step counter, the
throws by the list of what they still have to serve, the callers because a caller is
older than the instances it has called, and the operation by its own list.
-/
namespace BpmnEngine

open Program Eng Config

namespace Config

def NestsWithin (env : Env) (N : Nat) (c : Config) : Prop :=
  ∀ c', Passes (internalStep env) c c' → c'.stack.length ≤ N

/-- The machine is in order and nests at most `N` batches. -/
structure Bounded (env : Env) (N : Nat) (c : Config) : Prop where
  ok : c.Ok
  ranked : c.engine.Ranked
  nests : c.NestsWithin env N

def Resumed (b : Batch) (stack : List Suspension) (driver : Driver) (c : Config) : Prop :=
  Returned stack driver c ∨ (∃ queue, c.control = .running { b with queue := queue }) ∧
    c.stack = stack ∧ c.driver = driver

section Ends

variable {env : Env} {N n : Nat} {c c' : Config} {b : Batch} {stack : List Suspension}
  {driver : Driver}

theorem Bounded.step (h : c.Bounded env N) (hstep : c.internalStep env = some c') :
    c'.Bounded env N where
  ok := h.ok.internalStep hstep
  ranked := (internalStep_steps h.ok hstep).moves.ranked h.ranked
  nests d hd := h.nests d (hd.step hstep)

theorem Bounded.depth (h : c.Bounded env N) : c.stack.length ≤ N := h.nests c .refl

theorem Comes.bounded {P Q : Config → Prop} (h : Comes (internalStep env) P c)
    (hc : c.Bounded env N)
    (hQ : ∀ d, d.Bounded env N → P d → Comes (internalStep env) Q d) :
    Comes (internalStep env) Q c :=
  h.bind hc (fun _ _ hs ht => hs.step ht) hQ

section

variable (hdeeper : ∀ d b, d.Bounded env N → stack.length < d.stack.length →
    d.control = .running b → Comes (internalStep env) (Returned d.stack d.driver) d)

include hdeeper

/-- If the batches on a higher stack return, an interrupted batch is resumed. -/
theorem Outcome.resumed (h : Outcome b stack driver n c) (hc : c.Bounded env N) :
    Comes (internalStep env) (Resumed b stack driver) c := by
  induction n using Nat.strong_induction_on generalizing b c with
  | _ n ih =>
    cases h with
    | returns result hcontrol hstack hdriver =>
      exact .now (.inl ⟨⟨result, hcontrol⟩, hstack, hdriver⟩)
    | goesOn queue hcontrol hstack hdriver => exact .now (.inr ⟨⟨queue, hcontrol⟩, hstack, hdriver⟩)
    | nests s queue hbatch hleft hstack hdriver hcontrol =>
      have hunwind : ∀ d : Config, d.Bounded env N → Returned (s :: stack) driver d →
          Comes (internalStep env) (Resumed b stack driver) d := by
        rintro d hd ⟨⟨result, hresult⟩, hdstack, rfl⟩
        have hstep : d.internalStep env = some (unwind env s result { d with stack := stack }) :=
          internalStep_returning hresult hdstack
        have hout : Outcome s.batch stack d.driver s.left
            (unwind env s result { d with stack := stack }) :=
          unwind_outcome (c := { d with stack := stack }) s result
        rw [hbatch] at hout
        have hresumed := ih s.left hleft hout (hd.step hstep)
        exact .later hstep hresumed
      rcases hcontrol with ⟨result, hresult⟩ | ⟨i, tokens, _, hrunning⟩
      · exact hunwind c hc ⟨⟨result, hresult⟩, hstack, hdriver⟩
      · have hlt : stack.length < c.stack.length := by simp [hstack]
        refine Comes.bounded (hdeeper c _ hc hlt hrunning) hc fun d hd hback => ?_
        exact hunwind d hd (hstack ▸ hdriver ▸ hback)

/-- If the batches on a higher stack return, so does the running one. -/
theorem running_returns_of_deeper (hc : c.Bounded env N) (hrunning : c.control = .running b)
    (hstack : c.stack = stack) (hdriver : c.driver = driver) :
    Comes (internalStep env) (Returned stack driver) c := by
  -- A batch is replaced by one of an older instance, or its counter grows, or its queue is filled.
  induction hi : b.instanceId using Nat.strong_induction_on generalizing b c with
  | _ i ihCaller =>
    induction hm : 2 * (maxExecutionSteps - b.stepCount) + (if b.queue = [] then 1 else 0)
      using Nat.strong_induction_on generalizing b c with
    | _ m ih =>
      have hstep : c.internalStep env = some (stepBatch env b c) := internalStep_running hrunning
      refine .later hstep ?_
      have hnext := hc.step hstep
      subst hstack hdriver hi
      cases hqueue : b.queue with
      | nil =>
        rw [stepBatch_nil hqueue] at hnext ⊢
        have hdrained : Drained b c.stack c.driver (drain env b c) := drain_drained hc.ok hc.ranked
        cases hdrained with
        | returns result hcontrol hstack hdriver => exact .now ⟨⟨result, hcontrol⟩, hstack, hdriver⟩
        | fires queue hne hcontrol hstack hdriver =>
          refine ih _ ?_ hnext hcontrol hstack hdriver rfl rfl
          simp only [hqueue, if_pos, if_neg hne] at hm ⊢
          omega
        | resumes caller tokens hlt hcontrol hstack hdriver =>
          exact ihCaller caller hlt hnext hcontrol hstack hdriver rfl
      | cons =>
        rcases stepBatch_cons hqueue with hback | ⟨hlimit, n, hout⟩
        · exact .now hback
        refine Comes.bounded (hout.resumed hdeeper hnext) hnext fun d hd hresumed => ?_
        rcases hresumed with hback | ⟨⟨queue', hcontrol⟩, hstack, hdriver⟩
        · exact .now hback
        · refine ih _ ?_ hd hcontrol hstack hdriver rfl rfl
          simp only [hqueue] at hm ⊢
          split <;> omega

end

theorem running_returns (hc : c.Bounded env N) (hrunning : c.control = .running b) :
    Comes (internalStep env) (Returned c.stack c.driver) c := by
  induction hd : N - c.stack.length using Nat.strong_induction_on generalizing b c with
  | _ d ih =>
    refine running_returns_of_deeper (fun c' b' hc' hlt hrunning' => ?_) hc hrunning rfl rfl
    have hdepth := hc'.depth
    exact ih (N - c'.stack.length) (by omega) hc' hrunning' rfl

theorem driving_ends {result : EngineResult Unit} (hc : c.Bounded env N)
    (hcontrol : c.control = .returning result) (hstack : c.stack = []) :
    Comes (internalStep env) (fun d => d.control = .idle) c := by
  induction hp : c.driver.phase using Nat.strong_induction_on generalizing c result with
  | _ p ihPhase =>
    -- A failure of a part is followed by a return with the same list, once.
    induction hl : 2 * c.driver.left + (if result = .ok () then 1 else 0)
      using Nat.strong_induction_on generalizing c result with
    | _ l ih =>
      have hstep : c.internalStep env = some (drive env result c) :=
        internalStep_driving hcontrol hstack
      refine .later hstep ?_
      have hnext := hc.step hstep
      have hdriven : Driven c.driver result (drive env result c) := drive_driven hstack
      subst hp hl
      generalize drive env result c = c₁ at hdriven hnext
      cases hdriven with
      | answers hidle => exact .now hidle
      | fails hresult error hcontrol hstack hdriver =>
        refine ih _ ?_ hnext hcontrol hstack (by rw [hdriver]) rfl
        rw [hdriver, if_pos hresult]
        simp
      | proceeds hleft hstack hcontrol =>
        have hreturned : ∀ d : Config, d.Bounded env N → Returned [] c₁.driver d →
            Comes (internalStep env) (fun d => d.control = .idle) d := by
          rintro d hd ⟨⟨result', hresult⟩, hdstack, hddriver⟩
          rcases hleft with hlt | ⟨heq, hlt⟩
          · exact ihPhase _ (hddriver ▸ hlt) hd hresult hdstack rfl
          · refine ih _ ?_ hd hresult hdstack (hddriver ▸ heq) rfl
            rw [hddriver]
            split <;> omega
        rcases hcontrol with ⟨result', hresult⟩ | ⟨i, tokens, hrunning⟩
        · exact hreturned c₁ hnext ⟨⟨result', hresult⟩, hstack, rfl⟩
        · refine Comes.bounded (running_returns hnext hrunning) hnext fun d hd hback => ?_
          exact hreturned d hd (hstack ▸ hback)

theorem Bounded.ends (hc : c.Bounded env N) (hstack : c.stack = []) :
    Comes (internalStep env) (fun d => d.control = .idle) c := by
  cases hcontrol : c.control with
  | idle => exact .now hcontrol
  | returning => exact driving_ends hc hcontrol hstack
  | running =>
    refine Comes.bounded (running_returns hc hcontrol) hc fun d hd hback => ?_
    obtain ⟨⟨result, hresult⟩, hdstack, _⟩ := hback
    exact driving_ends hd hresult (hdstack.trans hstack)

theorem settle_of_comes (h : Comes (internalStep env) (fun d => d.control = .idle) c) :
    ∃ fuel c', settle env fuel c = some c' := by
  induction h with
  | now hidle => exact ⟨0, _, if_pos hidle⟩
  | later hstep _ ih =>
    obtain ⟨fuel, c', h⟩ := ih
    exact ⟨fuel + 1, c', by rw [settle, hstep]; exact h⟩

theorem nestsWithin_of_idle (h : c.internalStep env = none) : c.NestsWithin env c.stack.length := by
  intro d hd
  rcases Relation.ReflTransGen.cases_head hd with rfl | ⟨e, he, _⟩
  · exact le_rfl
  · rw [h] at he
    cases he

/-- What comes to an end has passed through finitely many stacks. -/
theorem nestsWithin_of_settle {fuel : Nat} (h : settle env fuel c = some c') :
    ∃ N, c.NestsWithin env N := by
  cases hstep : c.internalStep env with
  | none => exact ⟨_, nestsWithin_of_idle hstep⟩
  | some d =>
    induction fuel generalizing c d with
    | zero =>
      rw [settle] at h
      split at h
      case isTrue hcontrol => simp [internalStep_eq_none_iff.mpr hcontrol] at hstep
      · cases h
    | succ fuel ih =>
      rw [settle, hstep] at h
      obtain ⟨N, hN⟩ : ∃ N, d.NestsWithin env N := by
        cases hnext : d.internalStep env with
        | none => exact ⟨_, nestsWithin_of_idle hnext⟩
        | some e => exact ih h e hnext
      refine ⟨max c.stack.length N, fun e he => ?_⟩
      rcases he.cases_next hstep with rfl | hpass
      · exact le_max_left _ _
      · exact (hN e hpass).trans (le_max_right _ _)

end Ends

/-! ## When an operation ends -/

/-- The next step of a batch that has made all its steps ends its instance with an error. -/
def LimitReached (env : Env) (c : Config) (b : Batch) : Prop :=
  ∃ c' message, c.internalStep env = some c' ∧
    c'.control = .returning (.error (.executionLimitExceeded message)) ∧ c'.stack = c.stack ∧
    ∀ x, c.engine.instances.find? b.instanceId = some x →
      ∃ y, c'.engine.instances.find? b.instanceId = some y ∧
        y.state = .completedWithError "EXECUTION_LIMIT_EXCEEDED"

section Limit

variable {env : Env} {c : Config} {b : Batch}

theorem limitReached (hrunning : c.control = .running b) (hqueue : b.queue ≠ [])
    (hcount : b.stepCount = maxExecutionSteps) : c.LimitReached env b := by
  obtain ⟨token, queue, hq⟩ := List.exists_cons_of_ne_nil hqueue
  have hlimit : maxExecutionSteps < b.stepCount + 1 := by omega
  obtain ⟨e, message, hx, hinst⟩ : ∃ e message, Program.exec (exceedLimit b.instanceId)
      c.engine = (.error (.executionLimitExceeded message), e) ∧
      e.instances.find? b.instanceId = (c.engine.instances.find? b.instanceId).map fun x =>
        { x with state := .completedWithError "EXECUTION_LIMIT_EXCEEDED",
                 completedAt := some c.engine.clock } :=
    ⟨_, _, rfl, Engine.find?_modifyInstance_self ..⟩
  have hstep : stepBatch env b c =
      fail (.executionLimitExceeded message) { c with engine := e } := by
    rw [stepBatch, hq]
    dsimp only
    rw [if_pos hlimit, exec, hx]
  refine ⟨_, message, internalStep_running hrunning, ?_⟩
  rw [hstep]
  exact ⟨rfl, rfl, fun x hx => ⟨_, hinst.trans (congrArg _ hx), rfl⟩⟩

end Limit

/-- Whenever a token steps at an element that may start a batch, fewer than `N` batches are
interrupted. -/
def StartsBelow (env : Env) (N : Nat) (c : Config) : Prop :=
  ∀ c', Passes (internalStep env) c c' → c'.StartsBatch → c'.stack.length < N

theorem StartsBelow.nestsWithin {env : Env} {N : Nat} {c : Config} (h : c.StartsBelow env N)
    (horder : c.InOrder) (hstack : c.stack = []) : c.NestsWithin env N := by
  intro c' hpass
  have hinv : c'.InOrder ∧ c'.stack.length ≤ N := by
    induction hpass with
    | refl => exact ⟨horder, by simp [hstack]⟩
    | @tail d d' hpass hstep ih =>
      refine ⟨ih.1.internalStep hstep, ?_⟩
      rcases stack_internalStep ih.1 hstep with hle | ⟨hstarts, hle⟩
      · exact hle.trans ih.2
      · have hlt := h d hpass hstarts
        omega
  exact hinv.2

/-- An operation comes to its end exactly if some number bounds how many batches are interrupted
when a token steps at a call activity, a signal throw or a compensation throw. Each batch makes at
most the permitted number of steps; the next one ends the instance with the error of the step
limit. -/
theorem operation_ends_iff_nesting_bounded {env : Env} {clock : Time} {c : Config}
    (h : Reaches (step env) (fun _ _ => True) (initial clock) c) (hidle : c.control = .idle)
    (op : Op) :
    ((∃ fuel c', settle env fuel (c.begin env op) = some c') ↔
      ∃ N, (c.begin env op).StartsBelow env N) ∧
    ∀ c' b, Passes (internalStep env) (c.begin env op) c' → c'.control = .running b →
      b.stepCount ≤ maxExecutionSteps ∧
      (b.queue ≠ [] → b.stepCount = maxExecutionSteps → c'.LimitReached env b) := by
  have hbegin : (c.begin env op).InOrder := (inOrder_of_reaches h).begin hidle op
  have hstack : (c.begin env op).stack = [] :=
    (begin_begun op).1.trans ((inOrder_of_reaches h).idle hidle)
  refine ⟨⟨fun ⟨fuel, c', hsettle⟩ => ?_, fun ⟨N, hN⟩ => ?_⟩, fun c' b hpass hrunning => ?_⟩
  · obtain ⟨N, hN⟩ := nestsWithin_of_settle hsettle
    exact ⟨N + 1, fun d hd _ => Nat.lt_succ_of_le (hN d hd)⟩
  · have hbounded : (c.begin env op).Bounded env N :=
      ⟨hbegin.ok, hbegin.ranked, hN.nestsWithin hbegin hstack⟩
    exact settle_of_comes (hbounded.ends hstack)
  · have horder := hpass.invariant hbegin fun _ _ hs ht => hs.internalStep ht
    exact ⟨horder.counted.running b hrunning, limitReached hrunning⟩

end Config

def straight : ProcessDefinition := .ofGraph "straight"
  [("start", .startEvent), ("end", .endEvent)] [("start", [.simple "end"])]

def straightDeployed : Config :=
  (Config.performAll .plain 10 (Config.initial 0) [.deployDefinition straight]).getD
    (Config.initial 0)

theorem straight_nesting_bounded :
    ∃ N, (straightDeployed.begin .plain (.startInstance 1 ∅)).StartsBelow .plain N := by
  have hperform : Config.performAll .plain 10 (Config.initial 0) [.deployDefinition straight] =
      some straightDeployed := rfl
  obtain ⟨hreach, hidle⟩ := performAll_reaches rfl hperform
  obtain ⟨c, hc⟩ : ∃ c, Config.settle .plain 10
      (straightDeployed.begin .plain (.startInstance 1 ∅)) = some c := ⟨_, rfl⟩
  exact (operation_ends_iff_nesting_bounded hreach hidle (.startInstance 1 ∅)).1.mp ⟨10, c, hc⟩

/-! ## A compensation handler that is a compensation throw -/

/-- A script task whose compensation handler is the compensation throw behind it. -/
def undoLoop : ProcessDefinition :=
  { ProcessDefinition.ofGraph "undo-loop"
      [("start", .startEvent), ("book", .scriptTask "" none), ("undo", .compensationEndEvent none),
        ("booked", .boundaryCompensationEvent "book")]
      [("start", [.simple "book"]), ("book", [.simple "undo"]), ("booked", [.simple "undo"])] with
    key := 1 }

/-- The instance of `undoLoop` has its task to compensate. -/
def Undoing (e : Engine) : Prop :=
  e.definitions.find? 1 = some undoLoop ∧
    ∃ x, e.instances.find? 2 = some x ∧ x.definitionKey = 1 ∧ x.compensationLog = [⟨"book", "undo"⟩]

section Undoing

variable {e : Engine} {c : Config}

theorem Undoing.definitionOf (h : Undoing e) : exec (Eng.definitionOf 2) e = (.ok undoLoop, e) := by
  obtain ⟨hd, x, hx, hkey, _⟩ := h
  rw [Eng.definitionOf, exec_bind_ok (exec_getInstance hx), hkey]
  exact exec_getDefinition hd

theorem Undoing.modify (h : Undoing e) {f : ProcessInstance → ProcessInstance}
    (hf : ∀ x, (f x).definitionKey = x.definitionKey ∧
      (f x).compensationLog = x.compensationLog) : Undoing (e.modifyInstance 2 f) := by
  obtain ⟨hd, x, hx, hkey, hlog⟩ := h
  refine ⟨hd, { f x with id := x.id }, ?_, (hf x).1.trans hkey, (hf x).2.trans hlog⟩
  rw [Engine.find?_modifyInstance_self, hx]
  rfl

/-- The handler throws the compensation again, since the task is still to be compensated. -/
theorem Undoing.executeStep (h : Undoing e) (id : Uuid) (vars : Variables) :
    ∃ e' thrown, Undoing e' ∧
      exec (Eng.executeStep .plain 2 (Token.withVariables id "undo" vars)) e =
        (.ok (.compensate thrown none true [⟨"book", "undo"⟩]), e') := by
  obtain ⟨token, htoken⟩ : ∃ token, token = Token.withVariables id "undo" vars := ⟨_, rfl⟩
  have hvars : Undoing (e.modifyInstance 2 fun i => { i with vars := token.processVariables }) :=
    h.modify fun _ => ⟨rfl, rfl⟩
  have hend : exec (Eng.runEndScripts .plain 2 token undoLoop "undo") e =
      (.ok token, e.modifyInstance 2 fun i => { i with vars := token.processVariables }) := by
    obtain ⟨_, x, hx, _⟩ := h
    rw [Eng.runEndScripts, exec_bind_ok (exec_getInstance hx), htoken]
    rfl
  have hnode : exec (Eng.executeStep .plain 2 token) e = exec
      (handleCompensationThrowEvent .plain 2 token undoLoop "undo" none true) e := by
    rw [Eng.executeStep, exec_bind_ok h.definitionOf, htoken]
    rfl
  have ⟨_, y, hy, _, hlog⟩ := hvars
  have hagain : Undoing ((e.modifyInstance 2 fun i =>
      { i with vars := token.processVariables }).modifyInstance 2 fun i =>
        { i with currentNode := "undo" }) := hvars.modify fun _ => ⟨rfl, rfl⟩
  refine ⟨_, token, hagain, ?_⟩
  rw [← htoken, hnode, handleCompensationThrowEvent, exec_bind_ok hend,
    exec_bind_ok (exec_getInstance hy)]
  dsimp only
  rw [setCurrentNode, exec_bind_ok (exec_updateInstance hy _), compensationHandlers, hlog]
  rfl

/-- At least `n` handlers of `undoLoop` are interrupted, and one more is to be run. -/
def UndoingAt (n : Nat) (c : Config) : Prop :=
  c.control = .returning (.ok ()) ∧ Undoing c.engine ∧
    ∃ queue count token ran rest, c.stack =
      .compensation ⟨2, queue, count⟩ token none true ran [⟨"book", "undo"⟩] :: rest ∧
      n ≤ rest.length

theorem UndoingAt.next {n : Nat} (h : UndoingAt n c) :
    ∃ c', Passes (Config.internalStep .plain) c c' ∧ UndoingAt (n + 1) c' := by
  obtain ⟨hcontrol, hundo, queue, count, token, ran, rest, hstack, hn⟩ := h
  obtain ⟨token', htoken⟩ : ∃ token', token' =
      Config.afterHandler ⟨2, queue, count⟩ token ran c.engine := ⟨_, rfl⟩
  obtain ⟨start, hstart⟩ : ∃ start, start =
      Token.withVariables c.engine.nextUuid "undo" token'.vars := ⟨_, rfl⟩
  obtain ⟨c₁, hc₁⟩ : ∃ c₁ : Config, c₁ =
      { c with
        engine := { c.engine with nextUuid := c.engine.nextUuid + 1 }
        stack := .compensation ⟨2, queue, count⟩ token' none true true [] :: rest
        control := .running ⟨2, [start], 0⟩ } := ⟨_, rfl⟩
  have hstep₁ : c.internalStep .plain = some c₁ := by
    rw [internalStep_returning hcontrol hstack]
    unfold Config.unwind Config.resumeCompensation
    dsimp only
    rw [exec_of_ok (c := { c with stack := rest }) hundo.definitionOf, if_pos (by decide),
      ← htoken, hc₁, hstart]
    rfl
  have hundo₁ : Undoing c₁.engine := by
    rw [hc₁]
    exact hundo
  obtain ⟨e, thrown, hundo₂, hexec⟩ := hundo₁.executeStep c.engine.nextUuid token'.vars
  rw [← hstart] at hexec
  have hstep₂ : c₁.internalStep .plain = some
      { c₁ with
        engine := e
        stack := .compensation ⟨2, [], 1⟩ thrown none true false [⟨"book", "undo"⟩] :: c₁.stack
        control := .returning (.ok ()) } := by
    rw [internalStep_running (b := ⟨2, [start], 0⟩) (by rw [hc₁]), Config.stepBatch]
    dsimp only
    rw [if_neg (by decide), Config.stepToken, exec_of_ok hexec]
    rfl
  refine ⟨_, Passes.step hstep₁ (Passes.step hstep₂ .refl), rfl, hundo₂, _, _, _, _, _, rfl, ?_⟩
  rw [hc₁]
  simpa using hn

theorem UndoingAt.passes (h : UndoingAt 0 c) (n : Nat) :
    ∃ c', Passes (Config.internalStep .plain) c c' ∧ UndoingAt n c' := by
  induction n with
  | zero => exact ⟨c, .refl, h⟩
  | succ n ih =>
    obtain ⟨c₁, hpass, h₁⟩ := ih
    obtain ⟨c₂, hpass', h₂⟩ := h₁.next
    exact ⟨c₂, hpass.trans hpass', h₂⟩

end Undoing

def undoDeployed : Config :=
  (Config.performAll .plain 10 (Config.initial 0) [.deployDefinition undoLoop]).getD
    (Config.initial 0)

/-- An instance of `undoLoop` runs for ever. -/
theorem undoLoop_never_ends :
    Reaches (Config.step .plain) (fun _ _ => True) (Config.initial 0) undoDeployed ∧
      undoDeployed.control = .idle ∧
      ¬∃ fuel c', Config.settle .plain fuel (undoDeployed.begin .plain (.startInstance 1 ∅)) =
        some c' := by
  have hperform : Config.performAll .plain 10 (Config.initial 0) [.deployDefinition undoLoop] =
      some undoDeployed := rfl
  obtain ⟨hreach, hidle⟩ := performAll_reaches rfl hperform
  refine ⟨hreach, hidle, fun ⟨fuel, c', hsettle⟩ => ?_⟩
  obtain ⟨c₁, h₁⟩ : ∃ c₁, (undoDeployed.begin .plain (.startInstance 1 ∅)).internalStep .plain =
    some c₁ := ⟨_, rfl⟩
  obtain ⟨c₂, h₂⟩ : ∃ c₂, c₁.internalStep .plain = some c₂ := by
    cases h₁
    exact ⟨_, rfl⟩
  obtain ⟨c₃, h₃, hundoing⟩ : ∃ c₃, c₂.internalStep .plain = some c₃ ∧ UndoingAt 0 c₃ := by
    cases h₁
    cases h₂
    exact ⟨_, rfl, rfl, ⟨rfl, _, rfl, rfl, rfl⟩, _, _, _, _, _, rfl, Nat.zero_le _⟩
  have hpass : Passes (Config.internalStep .plain) _ c₃ :=
    Passes.step h₁ (Passes.step h₂ (Passes.step h₃ .refl))
  obtain ⟨N, hN⟩ := nestsWithin_of_settle hsettle
  obtain ⟨c₄, hpass', _, _, _, _, _, _, rest, hstack, hlong⟩ := hundoing.passes N
  have hlength := hN c₄ (hpass.trans hpass')
  rw [hstack, List.length_cons] at hlength
  omega

end BpmnEngine
