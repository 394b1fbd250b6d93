import BpmnEngine.CallReturns
import BpmnEngine.EndedInstances
import BpmnEngine.StepOutcomes

/-!
# The locks of the instances

Every instance has a read-write lock, and no lock is reentrant. Nearly all guards live in
a block that asks for no other lock. Two do not. The end of a called instance is handed to
its caller under a read guard of the ended instance, which is kept until the batch of the
caller has returned. An error that the caller does not catch is reported under a write
guard of the caller, which is kept while the caller is saved, and saving asks for the
caller's lock again.
-/
namespace BpmnEngine

open Program Eng Config

namespace Eng

variable {env : Env} {e e' : Engine} {i parentId childId : Uuid} {parent y : ProcessInstance}
  {d : ProcessDefinition} {call : OutstandingCall} {childVars vars : Variables} {code : String}
  {exclude errorCode : Option String} {next : Next} {c : Bool × EventSubscription × EventSubProcess}
  {escalation : Bool}

/-! ## Errors that a caller does not catch -/

theorem bestCandidate_mem {candidates : List (Bool × EventSubscription × EventSubProcess)}
    (h : bestCandidate candidates = some c) : c ∈ candidates := by
  suffices hfold : c ∈ candidates ∨ none = some c by
    exact hfold.resolve_right (Option.some_ne_none c).symm
  unfold bestCandidate at h
  generalize none = best at h ⊢
  induction candidates generalizing best with
  | nil => exact .inr h
  | cons a rest ih =>
    rw [List.foldl_cons] at h
    rcases ih _ h with hmem | hbest
    · exact .inl (List.mem_cons_of_mem a hmem)
    · split at hbest
      · cases hbest
        exact .inl List.mem_cons_self
      · split at hbest <;> cases hbest
        · exact .inl List.mem_cons_self
        · exact .inr rfl

theorem subscription_mem_of_candidate {subscriptions : List EventSubscription}
    (h : c ∈ codeCandidates d subscriptions code escalation exclude) : c.2.1 ∈ subscriptions := by
  obtain ⟨s, hs, hc⟩ := List.mem_filterMap.mp h
  dsimp only at hc
  split at hc
  · cases hc
  · obtain ⟨handler, _, hc⟩ := Option.bind_eq_some_iff.mp hc
    obtain ⟨expected, _, hc⟩ := Option.bind_eq_some_iff.mp hc
    split at hc
    · cases hc
      exact hs
    · cases hc

theorem activateHandler_starts {handler : EventSubProcess} {subscription : EventSubscription}
    {consumption : EventConsumption} {activation : Option ScopeActivation}
    (hi : e.instances.find? i = some y)
    (hactive : (y.state.isSuspended || y.state.isTerminal) = false)
    (hopen : subscription ∈ y.eventSubscriptions)
    (hx : exec (activateHandler env i handler subscription vars consumption) e =
      (.ok activation, e')) : activation ≠ none := by
  obtain ⟨hsuspended, hlive⟩ := Bool.or_eq_false_iff.mp hactive
  obtain ⟨token, hactivate⟩ := exec_activateHandler_open env handler vars consumption hi hsuspended
    hlive hopen
  refine (?_ : Yields _ fun a => a ≠ none) _ _ _ (hactivate.symm.trans hx)
  split
  · exact .after fun _ => .after fun _ => .after fun _ => .pure nofun
  · exact .after fun _ => .pure nofun

/-- In an active instance only an error without a handler starts none. -/
theorem tryActivateEventCode_none (hi : e.instances.find? i = some y)
    (hactive : (y.state.isSuspended || y.state.isTerminal) = false)
    (hd : e.definitions.find? y.definitionKey = some d)
    (hx : exec (tryActivateEventCode env i code escalation vars exclude) e = (.ok none, e')) :
    bestCandidate (codeCandidates d y.eventSubscriptions code escalation exclude) = none ∧
      e' = e := by
  rw [tryActivateEventCode, exec_bind_ok (exec_getInstance hi), hactive] at hx
  replace hx := (exec_bind_ok (exec_getDefinition hd)).symm.trans hx
  cases hbest : bestCandidate (codeCandidates d y.eventSubscriptions code escalation exclude) with
  | none =>
    rw [hbest] at hx
    cases hx
    exact ⟨rfl, rfl⟩
  | some c =>
    obtain ⟨general, subscription, handler⟩ := c
    have hopen : subscription ∈ y.eventSubscriptions :=
      subscription_mem_of_candidate (bestCandidate_mem hbest)
    rw [hbest] at hx
    exact (activateHandler_starts hi hactive hopen hx rfl).elim

/-- Nothing of the caller catches the error: neither a boundary event of the call activity nor an
open event subprocess other than the one that the token in the call belongs to. -/
def Uncaught (d : ProcessDefinition) (parent : ProcessInstance) (call : OutstandingCall)
    (code : String) : Prop :=
  d.findBoundaryErrorEvent call.nodeId code = none ∧
    bestCandidate (codeCandidates d parent.eventSubscriptions code false
      (parent.eventHandlerTokens.get?
        ((registryToken call.nodeId parent.activeTokens).getD call.token).id)) = none

theorem stateAfterCall_active (state : InstanceState) (remaining : Nat) :
    ((stateAfterCall state remaining).isSuspended ||
      (stateAfterCall state remaining).isTerminal) = false := by
  unfold stateAfterCall
  split
  · rfl
  · split
    · cases state <;> simp_all [InstanceState.isParallel, InstanceState.isSuspended,
        InstanceState.isTerminal]
    · rfl

section

variable (hparent : e.instances.find? parentId = some parent)

include hparent

/-- How an error that no boundary event catches is taken up: a handler runs, or it is reported. -/
theorem exec_resumeCaller_error (hd : e.definitions.find? parent.definitionKey = some d)
    (hcall : endedCall parent childId = some call)
    (hnone : d.findBoundaryErrorEvent call.nodeId code = none)
    (hx : exec (resumeCaller env parentId childId childVars (some code)) e = (.ok next, e')) :
    ∃ left e₁ active vars, e₁.instances.find? parentId =
        some { callTaken childId parent with activeTokens := active, vars := vars } ∧
      ((∃ handler exclude activation, next = .run parentId [handler] ∧
          exec (tryActivateEventCode env parentId code false left.processVariables exclude)
            e₁ = (.ok activation, e')) ∨
        Uncaught d parent call code ∧
          exec (reportCallError parentId childId call.nodeId code left) e₁ = (.ok next, e')) := by
  rw [resumeCaller, exec_bind_ok (exec_getInstance hparent), hcall] at hx
  obtain ⟨token, e₁, hx₁, hx⟩ := exec_bind_eq_ok hx
  obtain ⟨results, _, htoken, _, hdefs₁, active, hp₁⟩ := exec_takeUpCall hparent hx₁
  rw [exec_bind_ok (exec_getDefinition (hdefs₁ ▸ hd))] at hx
  obtain ⟨left, e₂, hx₂, hx⟩ := exec_bind_eq_ok hx
  obtain ⟨hleft, _, hdefs₂, vars, hp₂⟩ := exec_leaveCall hp₁ hx₂
  refine ⟨left, e₂, active, vars, hp₂, ?_⟩
  have hid : left.id = ((registryToken call.nodeId parent.activeTokens).getD call.token).id := by
    rw [id_of_leftToken hleft, htoken]
    rfl
  have hhandler : exec (eventHandlerForToken parentId left.id) e₂ =
      (.ok (parent.eventHandlerTokens.get? left.id), e₂) := by
    rw [eventHandlerForToken, exec_bind_ok (exec_findInstance e₂ parentId), hp₂]
    rfl
  simp only [hnone] at hx
  rw [exec_bind_ok hhandler] at hx
  obtain ⟨activation, e₃, hx₃, hx₄⟩ := exec_bind_eq_ok hx
  cases activation with
  | some activation =>
    left
    cases activation with
    | interrupting handler | parallel handler =>
      cases hx₄
      exact ⟨handler, _, _, rfl, hx₃⟩
  | none =>
    have hd₂ : e₂.definitions.find? parent.definitionKey = some d := by rw [hdefs₂, hdefs₁, hd]
    obtain ⟨hbest, rfl⟩ := tryActivateEventCode_none hp₂ (stateAfterCall_active _ _) hd₂ hx₃
    exact .inr ⟨⟨hnone, hid ▸ hbest⟩, hx₄⟩

theorem definition_of_resumeCaller (hcall : endedCall parent childId = some call)
    (hx : exec (resumeCaller env parentId childId childVars errorCode) e = (.ok next, e')) :
    ∃ d, e.definitions.find? parent.definitionKey = some d := by
  rw [resumeCaller, exec_bind_ok (exec_getInstance hparent), hcall] at hx
  obtain ⟨token, e₁, hx₁, hx₂⟩ := exec_bind_eq_ok hx
  obtain ⟨_, _, _, _, hdefs, _⟩ := exec_takeUpCall hparent hx₁
  obtain ⟨d, e₂, hx₃, _⟩ := exec_bind_eq_ok hx₂
  cases hd : e.definitions.find? parent.definitionKey with
  | some d => exact ⟨d, rfl⟩
  | none =>
    rw [exec_getDefinition_none (hdefs ▸ hd)] at hx₃
    cases hx₃

theorem not_calls_of_resumeCaller {j : Uuid} {tokens : List Token}
    (hcall : endedCall parent childId = some call)
    (hx : exec (resumeCaller env parentId childId childVars errorCode) e =
      (.ok (.run j tokens), e')) :
    ¬e'.Calls parentId childId := by
  obtain ⟨d, hd⟩ := definition_of_resumeCaller hparent hcall hx
  have herased : ∀ {t : Engine} {p : ProcessInstance}, t.instances.find? parentId = some p →
      p.outstandingCalls = parent.outstandingCalls.erase childId → ¬t.Calls parentId childId := by
    rintro t p hp hcalls ⟨p', call', hp', hcall'⟩
    obtain rfl : p = p' := Option.some.inj (hp.symm.trans hp')
    rw [hcalls, Map.get?_erase_self] at hcall'
    cases hcall'
  by_cases hcaught : ∀ code, errorCode = some code →
      (d.findBoundaryErrorEvent call.nodeId code).isSome
  · obtain ⟨_, _, _, _, _, _, _, _, _, _, p, hp, hcalls⟩ :=
      exec_resumeCaller hparent hd hcall hcaught hx
    exact herased hp hcalls
  · obtain ⟨code, hcaught⟩ := not_forall.mp hcaught
    obtain ⟨rfl, hnone⟩ := Classical.not_imp.mp hcaught
    obtain ⟨left, e₁, _, _, hp, ⟨_, exclude, _, _, hx₁⟩ | ⟨_, hreport⟩⟩ :=
      exec_resumeCaller_error hparent hd hcall (Option.not_isSome_iff_eq_none.mp hnone) hx
    · -- Starting the handler interrupts calls and makes none.
      have hworks : Works ⟨False, False, True, True⟩ parentId e₁ e' :=
        (Obeys.works (tryActivateEventCode_stays (Effects.working_governs trivial)) Works.refl
          hx₁).1
      intro hcalls
      rcases calls_of_touches hworks.touches hcalls with hcalls | hnew
      · exact herased hp rfl hcalls
      · exact hnew.1.2.elim
    · obtain ⟨_, _, _, hx₁⟩ := exec_bind_eq_ok hreport
      obtain ⟨_, _, _, hx₂⟩ := exec_bind_eq_ok hx₁
      obtain ⟨_, _, _, hx₃⟩ := exec_bind_eq_ok hx₂
      cases hx₃

end

end Eng

/-! ## Guards -/

inductive LockMode where
  | read
  | write
  deriving DecidableEq

/-- A guard of the lock of an instance. -/
structure LockGuard where
  instanceId : Uuid
  mode : LockMode
  deriving DecidableEq

namespace Config

/-- The batch has nothing left to run, its instance has ended, and the caller takes up the call. -/
structure HandsOver (c : Config) (b : Batch) (q : Uuid) : Prop where
  running : c.control = .running b
  queue : b.queue = []
  resumes : c.engine.Resumes b.instanceId q

def Reports (env : Env) (c : Config) (b : Batch) (q : Uuid) : Prop :=
  c.HandsOver b q ∧ ∃ e, Program.exec (finishBatch env b.instanceId) c.engine = (.ok .done, e)

/-- Whenever the end of a called instance is handed to its caller, nothing of the ended instance is
left, and if it ended with an error, the caller catches it. -/
def HandsOverSafely (c : Config) : Prop :=
  ∀ b q, c.HandsOver b q → c.Quiet b.instanceId ∧
    ∀ x y d call code, c.engine.instances.find? b.instanceId = some x →
      x.state = .completedWithError code → c.engine.instances.find? q = some y →
      endedCall y b.instanceId = some call →
      c.engine.definitions.find? y.definitionKey = some d → ¬Eng.Uncaught d y call code

end Config

/-- A machine with the read guards of ended instances whose callers have not returned, one list
for each batch on the stack and the running one on top. -/
structure Locked where
  config : Config
  guards : List (List Uuid)

namespace Locked

def held (l : Locked) : List LockGuard := l.guards.flatten.map (⟨·, .read⟩)

/-- The guards behind a step of a batch that runs on top of a stack of the given depth. A new
batch holds nothing yet, and a batch that returns drops what it holds. -/
def settled (depth : Nat) (c' : Config) (guards : List (List Uuid)) : List (List Uuid) :=
  if depth < c'.stack.length then [] :: guards
  else
    match c'.control with
    | .running _ => guards
    | _ => [] :: guards.tail

def replaced (b : Batch) (c' : Config) : Bool :=
  match b.queue, c'.control with
  | [], .running b' => b'.instanceId != b.instanceId
  | _, _ => false

def hold (x : Uuid) : List (List Uuid) → List (List Uuid)
  | [] => [[x]]
  | level :: outer => (x :: level) :: outer

def guardsAfter (c c' : Config) (guards : List (List Uuid)) : List (List Uuid) :=
  match c.control, c.stack with
  | .running b, stack =>
    settled stack.length c' (if replaced b c' then hold b.instanceId guards else guards)
  | .returning _, _ :: rest => settled rest.length c' guards.tail
  | _, _ => [[]]

def step (env : Env) (l : Locked) (m : Move) : Option Locked :=
  (l.config.step env m).map fun c' =>
    ⟨c', match m with
      | .internal => guardsAfter l.config c' l.guards
      | .op _ => [[]]⟩

def initial (clock : Time) : Locked := ⟨.initial clock, [[]]⟩

/-- The instance of an interrupted batch is not held by the batches below it. -/
def Apart : List (List Uuid) → List Suspension → Prop
  | _ :: outer, s :: rest => s.batch.instanceId ∉ outer.flatten ∧ Apart outer rest
  | [_], [] => True
  | _, _ => False

/-- Held instances are over and on nobody's list of calls, and no batch runs for them. -/
structure Safe (l : Locked) : Prop where
  inOrder : l.config.InOrder
  ended : ∀ x ∈ l.guards.flatten, l.config.Over x ∧ ∀ i, ¬l.config.engine.Calls i x
  running : ∀ b, l.config.control = .running b → b.instanceId ∉ l.guards.flatten
  apart : Apart l.guards l.config.stack
  returned : (∀ b, l.config.control ≠ .running b) → ∃ outer, l.guards = [] :: outer

section Safe

variable {env : Env} {l : Locked} {c c' : Config} {b : Batch} {q x y : Uuid}
  {guards : List (List Uuid)} {stack : List Suspension}

theorem Apart.outer (h : Apart guards stack) (level : List Uuid) :
    Apart (level :: guards.tail) stack := by
  cases guards with
  | nil => cases stack <;> exact h.elim
  | cons _ outer =>
    cases stack with
    | cons => exact h
    | nil =>
      cases outer with
      | nil => trivial
      | cons => exact h.elim

theorem Apart.hold (h : Apart guards stack) (x : Uuid) : Apart (hold x guards) stack := by
  cases guards with
  | nil => cases stack <;> exact h.elim
  | cons level => exact h.outer (x :: level)

theorem mem_flatten_hold : y ∈ (hold x guards).flatten ↔ y = x ∨ y ∈ guards.flatten := by
  cases guards <;> simp [hold]

theorem mem_flatten_of_tail (h : y ∈ ([] :: guards.tail).flatten) : y ∈ guards.flatten := by
  cases guards with
  | nil => simp at h
  | cons => simpa using Or.inr h

theorem Safe.driving (h : l.Safe) (hstack : l.config.stack = [])
    (hcontrol : ∀ b, l.config.control ≠ .running b) : l.guards = [[]] := by
  obtain ⟨outer, houter⟩ := h.returned hcontrol
  have hapart := h.apart
  rw [houter, hstack] at hapart
  cases outer with
  | nil => exact houter
  | cons => exact hapart.elim

theorem Safe.returning (h : l.Safe) {result : EngineResult Unit} {s : Suspension}
    {rest : List Suspension} (hcontrol : l.config.control = .returning result)
    (hstack : l.config.stack = s :: rest) :
    s.batch.instanceId ∉ l.guards.flatten ∧ Apart l.guards.tail rest := by
  obtain ⟨outer, houter⟩ := h.returned fun b hb => by simp [hcontrol] at hb
  have hapart := h.apart
  rw [houter, hstack] at hapart
  rw [houter]
  exact ⟨by simpa using hapart.1, hapart.2⟩

theorem drawn_of_handsOver (h : c.InOrder) (hb : c.HandsOver b q) :
    b.instanceId < c.engine.nextUuid := by
  obtain ⟨x, _, hx, _⟩ := hb.resumes
  exact h.ok.sound.drawn.instances _ x hx

/-- The end of a batch hands the end of its instance to the caller that takes it up. -/
theorem exec_finishBatch (env : Env) {e : Engine} (h : e.Resumes x q) :
    ∃ z y call errorCode, e.instances.find? x = some z ∧ e.instances.find? q = some y ∧
      endedCall y x = some call ∧
      (z.state = .completed ∧ errorCode = none ∨
        ∃ code, z.state = .completedWithError code ∧ errorCode = some code) ∧
      exec (finishBatch env x) e = exec (resumeCaller env q x z.vars errorCode) e := by
  obtain ⟨z, y, hz, hend, hparent, hy, hcall⟩ := h
  obtain ⟨call, hcall⟩ := Option.isSome_iff_exists.mp hcall
  have hresume : ∀ errorCode, exec (resumeParentIfNeeded env x errorCode) e =
      exec (resumeCaller env q x z.vars errorCode) e := fun errorCode => by
    rw [resumeParentIfNeeded, exec_bind_ok (exec_getInstance hz), hparent]
  rw [finishBatch, exec_bind_ok (exec_findInstance e x), hz, Option.map_some]
  cases hstate : z.state with
  | completed =>
    exact ⟨z, y, call, none, rfl, hy, hcall, .inl ⟨hstate, rfl⟩, hresume none⟩
  | completedWithError code =>
    exact ⟨z, y, call, some code, rfl, hy, hcall, .inr ⟨code, hstate, rfl⟩, hresume (some code)⟩
  | _ => simp [hstate, InstanceState.isTerminal] at hend

/-- What is held stays over and off every list. -/
theorem Safe.over_internalStep (h : l.Safe) (hstep : l.config.internalStep env = some c')
    (hx : x ∈ l.guards.flatten) : c'.Over x ∧ ∀ i, ¬c'.engine.Calls i x := by
  obtain ⟨hover, hcalls⟩ := h.ended x hx
  have hback : ¬l.config.PutsBack x := by
    rintro ⟨result, _, _, _, hcontrol, hstack, _⟩
    rw [h.driving hstack fun b hb => by simp [hcontrol] at hb] at hx
    simp at hx
  refine ⟨hover.internalStep h.inOrder.ok hback hstep, fun i hi => ?_⟩
  rcases (internalStep_steps h.inOrder.ok hstep).moves.called i x hi with hi | hnew
  · exact hcalls i hi
  · exact absurd hover.drawn (not_lt_of_ge hnew.1.1)

theorem safe_of_nothing_held (hin : c.InOrder) (hstack : c.stack = []) : Safe ⟨c, [[]]⟩ where
  inOrder := hin
  ended x hx := by simp at hx
  running b _ hmem := by simp at hmem
  apart := by
    rw [hstack]
    trivial
  returned _ := ⟨[], rfl⟩

/-- A step of a batch that is not held, with the guards that were held when it began. -/
theorem safe_of_outcome {driver : Driver} {n : Nat} (hin : c'.InOrder)
    (hout : Config.Outcome b stack driver n c') (hb : b.instanceId ∉ guards.flatten)
    (hover : ∀ x ∈ guards.flatten, c'.Over x ∧ ∀ i, ¬c'.engine.Calls i x)
    (hapart : Apart guards stack) : Safe ⟨c', settled stack.length c' guards⟩ := by
  cases hout with
  | returns result hcontrol hstack =>
    have hsettled : settled stack.length c' guards = [] :: guards.tail := by
      simp [settled, hstack, hcontrol]
    rw [hsettled]
    refine ⟨hin, fun x hx => hover x (mem_flatten_of_tail hx), fun b hb => ?_, ?_,
      fun _ => ⟨_, rfl⟩⟩
    · simp [hcontrol] at hb
    · rw [hstack]
      exact hapart.outer []
  | goesOn queue hcontrol hstack =>
    have hsettled : settled stack.length c' guards = guards := by
      simp [settled, hstack, hcontrol]
    rw [hsettled]
    refine ⟨hin, hover, fun b' hb' => ?_, hstack ▸ hapart, fun h => (h _ hcontrol).elim⟩
    rw [hcontrol] at hb'
    cases hb'
    exact hb
  | nests s queue hbatch hleft hstack hdriver hcontrol =>
    have hsettled : settled stack.length c' guards = [] :: guards := by
      simp [settled, hstack]
    rw [hsettled]
    refine ⟨hin, fun x hx => hover x (by simpa using hx), fun b' hb' hmem => ?_, ?_,
      fun _ => ⟨_, rfl⟩⟩
    · -- The new batch has a token to run, and what is held has none.
      have hmem' : b'.instanceId ∈ guards.flatten := by simpa using hmem
      rcases hcontrol with ⟨_, hreturning⟩ | ⟨i, tokens, hne, hrunning⟩
      · simp [hreturning] at hb'
      · rw [hrunning] at hb'
        cases hb'
        exact (hover i hmem').1.quiet.carries (.inl ⟨_, hrunning, rfl, hne⟩)
    · rw [hstack]
      exact ⟨by rw [hbatch]; exact hb, hapart⟩

/-- A batch whose place is taken by another one has handed its instance to the caller, and the
ended instance is on no list any more. -/
theorem drain_handsOver {b' : Batch} (h : c.InOrder) (hb : c.control = .running b)
    (hqueue : b.queue = []) (hcontrol : (Config.drain env b c).control = .running b')
    (hne : b'.instanceId ≠ b.instanceId) :
    c.HandsOver b b'.instanceId ∧ ∀ i, ¬(Config.drain env b c).engine.Calls i b.instanceId := by
  refine exec_rule (P := fun c' => c'.control = .running b' → c.HandsOver b b'.instanceId ∧
    ∀ i, ¬c'.engine.Calls i b.instanceId) (fun _ _ _ hc => by cases hc) (fun fired e hx => ?_)
      hcontrol
  cases fired with
  | cons =>
    intro hc
    cases hc
    exact (hne rfl).elim
  | nil =>
    have hw := (fireConditionalCatches_works h.ok.sound.drawn hx).1
    have hmoves : Moves (fun _ => True) c.engine e := hw.moves h.ok.sound trivial
    refine exec_rule (P := fun c' => c'.control = .running b' →
      c.HandsOver b b'.instanceId ∧ ∀ i, ¬c'.engine.Calls i b.instanceId)
      (fun _ _ _ hc => by cases hc) fun next t ht hc => ?_
    cases next with
    | done => cases hc
    | run j =>
      cases hc
      rcases finishBatch_works ht with ⟨_, hdone⟩ | ⟨q, hresumes, hworks, hruns⟩
      · cases hdone _ rfl
      obtain rfl : j = q := hruns _ rfl
      have hfound := hresumes
      obtain ⟨x, _, hx, _, hparent, _⟩ := hfound
      have hhands : c.HandsOver b j := by
        refine ⟨hb, hqueue, ?_⟩
        exact (resumes_of_works hw h.ok.sound (fun h => h) (fun h => h) hresumes).resolve_left hne
      refine ⟨hhands, fun i hi => ?_⟩
      have hold : e.Calls i b.instanceId :=
        (calls_of_touches hworks.touches hi).resolve_right fun hnew => hnew.1.2.elim
      obtain rfl : j = i := (hmoves.lineage h.lineage).caller i _ x j hold hx hparent
      obtain ⟨z, y, call, errorCode, _, hy, hcall, _, hfinish⟩ := exec_finishBatch env hresumes
      rw [hfinish] at ht
      exact not_calls_of_resumeCaller hy hcall ht hi

/-- The batch of a caller takes the place of a batch whose instance is over. -/
theorem Safe.replace (h : l.Safe) (hsafe : l.config.HandsOverSafely)
    (hb : l.config.control = .running b) (hqueue : b.queue = [])
    (hstep : l.config.internalStep env = some (Config.drain env b l.config))
    {caller : Uuid} {tokens : List Token} (hne : caller ≠ b.instanceId)
    (hcontrol : (Config.drain env b l.config).control = .running ⟨caller, tokens, 0⟩)
    (hstack : (Config.drain env b l.config).stack = l.config.stack) :
    Safe ⟨Config.drain env b l.config, hold b.instanceId l.guards⟩ := by
  obtain ⟨hhands, hcalls⟩ := drain_handsOver h.inOrder hb hqueue hcontrol hne
  have hover : l.config.Over b.instanceId := by
    obtain ⟨x, _, hx, hend, _⟩ := hhands.resumes
    refine ⟨drawn_of_handsOver h.inOrder hhands, ?_, (hsafe b caller hhands).1⟩
    rintro ⟨x', hx', hlive⟩
    obtain rfl : x = x' := Option.some.inj (hx.symm.trans hx')
    simp [hend] at hlive
  have hback : ¬l.config.PutsBack b.instanceId := by
    rintro ⟨result, _, _, _, hreturning, _⟩
    simp [hb] at hreturning
  refine ⟨h.inOrder.internalStep hstep, fun x hx => ?_, fun b' hb' hmem => ?_, ?_,
    fun hno => (hno _ hcontrol).elim⟩
  · rcases mem_flatten_hold.mp hx with rfl | hx
    · exact ⟨hover.internalStep h.inOrder.ok hback hstep, hcalls⟩
    · exact h.over_internalStep hstep hx
  · rw [hcontrol] at hb'
    cases hb'
    rcases mem_flatten_hold.mp hmem with heq | hmem
    · exact hne heq
    · exact (h.ended caller hmem).1.not_resumes _ hhands.resumes
  · rw [hstack]
    exact h.apart.hold _

theorem Safe.stepBatch (h : l.Safe) (hsafe : l.config.HandsOverSafely)
    (hb : l.config.control = .running b) (hc' : Config.stepBatch env b l.config = c')
    (hstep : l.config.internalStep env = some c') :
    Safe ⟨c', guardsAfter l.config c' l.guards⟩ := by
  have hin := h.inOrder.internalStep hstep
  -- Unless the caller takes its place, the batch itself goes on, returns or is interrupted.
  have hplain : ∀ (b₁ : Batch) (n : Nat), b₁.instanceId = b.instanceId →
      replaced b c' = false → Config.Outcome b₁ l.config.stack l.config.driver n c' →
      Safe ⟨c', guardsAfter l.config c' l.guards⟩ := by
    intro b₁ n hsame hplace hout
    have hguards : guardsAfter l.config c' l.guards =
        settled l.config.stack.length c' l.guards := by
      simp [guardsAfter, hb, hplace]
    rw [hguards]
    exact safe_of_outcome hin hout (hsame ▸ h.running b hb)
      (fun x hx => h.over_internalStep hstep hx) h.apart
  cases hqueue : b.queue with
  | cons token queue =>
    have hplace : replaced b c' = false := by
      simp [replaced, hqueue]
    rcases hc' ▸ @Config.stepBatch_cons env l.config b token queue hqueue with
      ⟨⟨result, hresult⟩, hstack, hdriver⟩ | ⟨_, n, hout⟩
    · exact hplain b 0 rfl hplace (.returns result hresult hstack hdriver)
    · exact hplain ⟨b.instanceId, queue, b.stepCount + 1⟩ n rfl hplace hout
  | nil =>
    rw [stepBatch_nil hqueue] at hc'
    have hdrained : Config.Drained b l.config.stack l.config.driver c' :=
      hc' ▸ drain_drained h.inOrder.ok h.inOrder.ranked
    cases hdrained with
    | returns result hcontrol hstack hdriver =>
      refine hplain b 0 rfl ?_ (.returns result hcontrol hstack hdriver)
      simp [replaced, hcontrol]
    | fires queue hne hcontrol hstack hdriver =>
      refine hplain b 0 rfl ?_ (.goesOn queue hcontrol hstack hdriver)
      simp [replaced, hqueue, hcontrol]
    | resumes caller tokens hlt hcontrol hstack =>
      have hne : caller ≠ b.instanceId := ne_of_lt hlt
      have hguards : guardsAfter l.config c' l.guards = hold b.instanceId l.guards := by
        simp [guardsAfter, settled, replaced, hb, hqueue, hcontrol, hstack, hne]
      rw [hguards]
      subst hc'
      exact h.replace hsafe hb hqueue hstep hne hcontrol hstack

theorem Safe.internalStep (h : l.Safe) (hsafe : l.config.HandsOverSafely)
    (hstep : l.config.internalStep env = some c') :
    Safe ⟨c', guardsAfter l.config c' l.guards⟩ := by
  have hin := h.inOrder.internalStep hstep
  cases hcontrol : l.config.control with
  | idle =>
    rw [Config.internalStep, hcontrol] at hstep
    cases hstep
  | running =>
    have hb := hstep
    rw [internalStep_running hcontrol] at hb
    cases hb
    exact h.stepBatch hsafe hcontrol rfl hstep
  | returning result =>
    cases hstack : l.config.stack with
    | cons s rest =>
      obtain ⟨hs, hapart⟩ := h.returning hcontrol hstack
      have hguards : guardsAfter l.config c' l.guards = settled rest.length c' l.guards.tail := by
        simp [guardsAfter, hcontrol, hstack]
      have hunwind := hstep
      rw [internalStep_returning hcontrol hstack] at hunwind
      cases hunwind
      have htail : ∀ x ∈ l.guards.tail.flatten, x ∈ l.guards.flatten :=
        fun x hx => mem_flatten_of_tail (by simpa using hx)
      have hout : Config.Outcome s.batch rest l.config.driver s.left
          (Config.unwind env s result { l.config with stack := rest }) :=
        unwind_outcome (c := { l.config with stack := rest }) s result
      rw [hguards]
      exact safe_of_outcome hin hout (fun hx => hs (htail _ hx))
        (fun x hx => h.over_internalStep hstep (htail x hx)) hapart
    | nil =>
      have hguards : guardsAfter l.config c' l.guards = [[]] := by
        simp [guardsAfter, hcontrol, hstack]
      have hdrive := hstep
      rw [internalStep_driving hcontrol hstack] at hdrive
      cases hdrive
      have hempty : (Config.drive env result l.config).stack = [] := by
        have hdriven : Config.Driven l.config.driver result (Config.drive env result l.config) :=
          drive_driven hstack
        cases hdriven with
        | answers _ h => exact h
        | proceeds _ h => exact h
        | fails _ _ _ h => exact h
      rw [hguards]
      exact safe_of_nothing_held hin hempty

theorem Safe.step (h : l.Safe) (hsafe : l.config.HandsOverSafely) {m : Move} {l' : Locked}
    (hstep : l.step env m = some l') : l'.Safe := by
  obtain ⟨c', hc', rfl⟩ := Option.map_eq_some_iff.mp hstep
  cases m with
  | internal => exact h.internalStep hsafe hc'
  | op op =>
    have hin := h.inOrder.step hc'
    rw [Config.step] at hc'
    split at hc'
    case isTrue hidle =>
      cases hc'
      have hbegun : Config.Begun l.config.stack (l.config.begin env op) := begin_begun op
      exact safe_of_nothing_held hin (hbegun.1.trans (h.inOrder.idle hidle))
    · cases hc'

end Safe

end Locked

def check (last : BpmnElement) : ProcessDefinition := .ofGraph "check"
  [("start", .startEvent), ("last", last)] [("start", [.simple "last"])]

def checked : ProcessDefinition := .ofGraph "checked"
  [("start", .startEvent), ("call", .callActivity "check"), ("end", .endEvent)]
  [("start", [.simple "call"]), ("call", [.simple "end"])]

end BpmnEngine
