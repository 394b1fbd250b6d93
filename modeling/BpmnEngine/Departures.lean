import BpmnEngine.CompensationRecords
import BpmnEngine.FailedCompletions
import BpmnEngine.Subprocesses

/-!
# Leaving a node

A start event, a task, a catch event, a call activity and an embedded subprocess are left in
many places of the engine: in the step of a token, when a task is completed, when an event
is delivered, when a called instance returns. All of them ask for the first outgoing flow
whose condition is absent or true and send one token over it. The compiler has another way
for the start event inside a subprocess: if several flows leave it, it becomes a parallel
gateway. So a node with several such flows is left over all of them only if it is a gateway
of this kind.
-/
namespace BpmnEngine

open Program Eng Engine

def ProcessDefinition.enabledFlows (env : Env) (d : ProcessDefinition) (node : String)
    (vars : Variables) : List SequenceFlow :=
  (d.nextNodes node).filter (flowMatches env vars)

def NextAction.sent : NextAction → List Token
  | .continue token | .interruptScope token | .multiInstanceNext _ token => [token]
  | .continueMultiple tokens | .multiInstanceFork _ tokens => tokens
  | .spawnAndContinue main spawned => main :: spawned
  | _ => []

def Next.sent : Next → List Token
  | .done => []
  | .run _ tokens => tokens

/-- Start events, and boundary events that a token is moved to. -/
def BpmnElement.isPassed : BpmnElement → Bool
  | .startEvent | .timerStartEvent _ | .messageStartEvent _ | .signalStartEvent _
  | .boundaryTimerEvent .. | .boundaryMessageEvent .. | .boundarySignalEvent ..
  | .boundaryConditionalEvent .. | .boundaryErrorEvent .. | .boundaryEscalationEvent .. => true
  | _ => false

def BpmnElement.isCaught : BpmnElement → Bool
  | .timerCatchEvent _ | .messageCatchEvent _ | .signalCatchEvent _ | .conditionalCatchEvent _
  | .boundaryTimerEvent .. | .boundaryMessageEvent .. | .boundarySignalEvent ..
  | .boundaryConditionalEvent .. => true
  | _ => false

def Engine.Runs (i : Uuid) (d : ProcessDefinition) (e : Engine) : Prop :=
  ∃ x, e.instances.find? i = some x ∧ e.definitions.find? x.definitionKey = some d

/-- Some tokens go on, and these are their variables. -/
structure GoOn (vars : Variables) (tokens : List Token) : Prop where
  some : tokens ≠ []
  vars : ∀ t ∈ tokens, t.vars = vars

/-- In some state of the engine a token of an instance of `d` leaves a node. The conditions are
evaluated over `vars`, and `tokens` go on. -/
inductive Departs (env : Env) (e : Engine) (d : ProcessDefinition) :
    String → Variables → List Token → Prop
  /-- The flow behind a start event is chosen before its end listeners run. -/
  | passed {i token t element action e'} (hrun : e.Runs i d)
      (hnode : d.getNode token.currentNode = some element) (hkind : element.isPassed = true)
      (ht : token.entered env d = .ok t)
      (h : exec (Eng.executeStep env i token) e = (.ok (.action action), e')) :
      Departs env e d token.currentNode t.vars action.sent
  /-- A script task, a send task or a multi-instance service task without items. -/
  | stepActivity {i token element action vars e'} (hrun : e.Runs i d)
      (hnode : d.getNode token.currentNode = some element) (hkind : element.isStepActivity = true)
      (h : exec (Eng.executeStep env i token) e = (.ok (.action action), e'))
      (hgo : GoOn vars action.sent) : Departs env e d token.currentNode vars action.sent
  /-- A token at an end event of a subprocess leaves the subprocess. -/
  | subProcess {i token s start action vars e'} (hrun : e.Runs i d)
      (hnode : d.getNode token.currentNode = some (.subProcessEndEvent s))
      (hsub : d.getNode s = some (.embeddedSubProcess start))
      (h : exec (Eng.executeStep env i token) e = (.ok (.action action), e'))
      (hgo : GoOn vars action.sent) : Departs env e d s vars action.sent
  /-- What the compiler makes of a start event inside a subprocess with several flows. -/
  | implicitSplit {i token action vars e'} (hrun : e.Runs i d)
      (hnode : d.getNode token.currentNode = some .parallelGateway)
      (hsplit : d.incomingFlowCount token.currentNode < 2)
      (h : exec (Eng.executeStep env i token) e = (.ok (.action action), e'))
      (hgo : GoOn vars action.sent) : Departs env e d token.currentNode vars action.sent
  | userTask {taskId task assignee additional next vars e'}
      (htask : e.pendingUserTasks.find? taskId = some task) (hrun : e.Runs task.instanceId d)
      (hnode : d.getNode task.nodeId = some (.userTask assignee))
      (h : exec (Eng.completeUserTask env taskId additional) e = (.ok next, e'))
      (hgo : GoOn vars next.sent) : Departs env e d task.nodeId vars next.sent
  | serviceTask {taskId task workerId topic mi results next vars e'}
      (htask : e.pendingServiceTasks.find? taskId = some task) (hrun : e.Runs task.instanceId d)
      (hnode : d.getNode task.nodeId = some (.serviceTask topic mi))
      (h : exec (Eng.completeServiceTask env taskId workerId results) e = (.ok next, e'))
      (hgo : GoOn vars next.sent) : Departs env e d task.nodeId vars next.sent
  /-- A service task that is resolved by hand. -/
  | incident {taskId task topic mi results next vars e'}
      (htask : e.pendingServiceTasks.find? taskId = some task) (hrun : e.Runs task.instanceId d)
      (hnode : d.getNode task.nodeId = some (.serviceTask topic mi))
      (h : exec (Eng.resolveIncident env taskId results) e = (.ok next, e'))
      (hgo : GoOn vars next.sent) : Departs env e d task.nodeId vars next.sent
  | timer {timer element next rearm vars e'} (hrun : e.Runs timer.instanceId d)
      (hnode : d.getNode timer.nodeId = some element) (hkind : element.isCaught = true)
      (h : exec (resumeTimer env timer) e = (.ok (next, rearm), e'))
      (hgo : GoOn vars next.sent) : Departs env e d timer.nodeId vars next.sent
  | message {c element payload next vars e'} (hrun : e.Runs c.instanceId d)
      (hnode : d.getNode c.nodeId = some element) (hkind : element.isCaught = true)
      (h : exec (resumeMessageCatch env c payload) e = (.ok next, e'))
      (hgo : GoOn vars next.sent) : Departs env e d c.nodeId vars next.sent
  | signal {c element payload next vars e'} (hrun : e.Runs c.instanceId d)
      (hnode : d.getNode c.nodeId = some element) (hkind : element.isCaught = true)
      (h : exec (resumeSignalCatch env c payload) e = (.ok next, e'))
      (hgo : GoOn vars next.sent) : Departs env e d c.nodeId vars next.sent
  | condition {c i element values tokens vars e'} (hrun : e.Runs i d)
      (hnode : d.getNode c.nodeId = some element) (hkind : element.isCaught = true)
      (h : exec (fireCatch env d i values c) e = (.ok tokens, e'))
      (hgo : GoOn vars tokens) : Departs env e d c.nodeId vars tokens
  /-- A called instance has ended without an error. -/
  | call {parentId childId parent call called results next vars e'}
      (hparent : e.instances.find? parentId = some parent)
      (hdef : e.definitions.find? parent.definitionKey = some d)
      (hcall : endedCall parent childId = some call)
      (hnode : d.getNode call.nodeId = some (.callActivity called))
      (h : exec (resumeCaller env parentId childId results none) e = (.ok next, e'))
      (hgo : GoOn vars next.sent) : Departs env e d call.nodeId vars next.sent

/-! ## One token, over the first flow that matches -/

def OverFirstFlow (env : Env) (d : ProcessDefinition) (node : String) (tokens : List Token) :
    Prop :=
  ∀ t ∈ tokens, tokens = [t] ∧ d.resolveNextTarget env node t.vars = .ok t.currentNode

theorem Engine.runs_property (i : Uuid) (d : ProcessDefinition) : LogProperty (Engine.Runs i d)
    where
  write := by
    rintro e j f hf ⟨x, hx, hd⟩
    obtain ⟨y, hy, hd, -⟩ := (logged_property i d x.compensationLog).write hf ⟨x, hx, hd, rfl⟩
    exact ⟨y, hy, hd⟩
  other := by
    rintro e e' hinstances hdefinitions ⟨x, hx, hd⟩
    exact ⟨x, hinstances ▸ hx, hdefinitions ▸ hd⟩

namespace Eng

variable {env : Env} {i tokenId taskId : Uuid} {d : ProcessDefinition} {node : String}
  {token : Token} {vars : Variables} {e e' s s' : Engine} {next : Next} {element : BpmnElement}
  {items : List (Option Value)} {task : PendingServiceTask} {action : NextAction}

theorem overFirstFlow_nil : OverFirstFlow env d node [] := nofun

theorem yields_resolveNextTarget {α : Type} {f : String → Eng α} {Q : α → Prop}
    (hf : ∀ next, d.resolveNextTarget env node vars = .ok next → Yields (f next) Q) :
    Yields (resolveNextTarget env d node vars >>= f) Q := by
  refine .bind (P := fun next => d.resolveNextTarget env node vars = .ok next) ?_ hf
  intro s t next h
  rw [resolveNextTarget, exec_ofResult] at h
  exact congrArg Prod.fst h

theorem overFirstFlow_moved (token : Token) {next : String}
    (h : d.resolveNextTarget env node token.vars = .ok next) :
    OverFirstFlow env d node [{ token with currentNode := next }] := by
  intro t ht
  cases List.mem_singleton.mp ht
  exact ⟨rfl, h⟩

theorem passThrow_first :
    Yields (passThrow env i token d node) fun t => OverFirstFlow env d node [t] :=
  yields_resolveNextTarget fun _ h => .after fun _ => .pure (overFirstFlow_moved _ h)

theorem continueBehind_first :
    Yields (continueBehind env d i node token) fun next => OverFirstFlow env d node next.sent :=
  yields_resolveNextTarget fun _ h => .after fun _ => .pure (overFirstFlow_moved _ h)

/-! ## The steps of a token -/

theorem handleStartEvent_first (t : Token) :
    Yields (handleStartEvent env i t d node) fun action =>
      ∃ t', action.sent = [t'] ∧ d.resolveNextTarget env node t.vars = .ok t'.currentNode :=
  yields_resolveNextTarget fun _ h => .after fun _ => .after fun _ => .pure ⟨_, rfl, h⟩

theorem handleScriptTask_first (script : String) :
    Yields (handleScriptTask env i token d node script) fun action =>
      OverFirstFlow env d node action.sent :=
  .after fun _ => .after fun _ => .after fun _ => yields_resolveNextTarget fun _ h =>
    .after fun _ => .pure (overFirstFlow_moved _ h)

theorem handleSendTask_first :
    Yields (handleSendTask env i token d node) fun action => OverFirstFlow env d node action.sent :=
  .after fun _ => .bind passThrow_first fun _ h => .pure h

theorem itemTasks_ne_nil (x : ProcessInstance) (topic : String) (elementVariable : Option String)
    (index : Nat) (hitems : items ≠ []) :
    Yields (itemTasks x d node topic elementVariable token index items) fun tasks => tasks ≠ [] :=
      by
  cases items with
  | nil => exact absurd rfl hitems
  | cons => exact .after fun _ => .after fun _ => .after fun _ => .pure nofun

theorem startMultiInstance_sends (topic : String) (mi : MultiInstanceDef) (hitems : items ≠ []) :
    Yields (startMultiInstance i token d node topic mi items) fun action => action.sent = [] := by
  refine .after fun _ => ?_
  split
  · exact .after fun _ => .after fun _ => .after fun _ => .pure rfl
  · refine .bind (itemTasks_ne_nil _ _ _ _ hitems) fun tasks htasks => .after fun _ => ?_
    split
    · exact absurd rfl htasks
    · exact .after fun _ => .pure rfl

theorem handleServiceTask_first (topic : String) (mi : Option MultiInstanceDef) :
    Yields (handleServiceTask env i token d node topic mi) fun action =>
      OverFirstFlow env d node action.sent := by
  unfold handleServiceTask
  split
  · refine .after fun items => ?_
    show Yields (if _ then _ else _) _
    split
    · exact .bind passThrow_first fun _ h => .pure h
    next hitems =>
      refine .after fun _ s t action h => ?_
      rw [startMultiInstance_sends topic _ (fun hnil => hitems (by rw [hnil]; rfl)) s t action h]
      exact overFirstFlow_nil
  · exact .after fun _ => .after fun _ => .after fun _ => .after fun _ => .pure overFirstFlow_nil

theorem handleSubProcessEndEvent_first (s : String) :
    Yields (handleSubProcessEndEvent env token d s) fun action =>
      OverFirstFlow env d s action.sent :=
  yields_resolveNextTarget fun _ h => .pure (overFirstFlow_moved _ h)

/-! ## Completions and events -/

/-- In an instance of `d`, what a program returns sends at most one token, over the first flow of
the node that matches. -/
def Goes {α : Type} (env : Env) (i : Uuid) (d : ProcessDefinition) (node : String)
    (sent : α → List Token) (m : Eng α) : Prop :=
  Triple (Engine.Runs i d) m (fun a _ => OverFirstFlow env d node (sent a)) fun _ _ => True

section Goes

variable {α β : Type} {sent : β → List Token}

theorem Goes.of_yields {m : Eng β} (h : Yields m fun b => OverFirstFlow env d node (sent b)) :
    Goes env i d node sent m := by
  intro s _
  rcases hx : exec m s with ⟨error | b, t⟩
  · trivial
  · exact h s t b hx

theorem Goes.after {m : Eng α} {f : α → Eng β} (hm : Keeps (Engine.Runs i d) m)
    (hf : ∀ a, Goes env i d node sent (f a)) : Goes env i d node sent (m >>= f) :=
  .bind (hm.triple.mono (fun _ h => h) (fun _ _ h => h) fun _ _ _ => trivial) hf

theorem Goes.definitionOf {f : ProcessDefinition → Eng β} (hf : Goes env i d node sent (f d)) :
    Goes env i d node sent (definitionOf i >>= f) := by
  rintro e ⟨x, hx, hd⟩
  rw [exec_bind_ok (exec_definitionOf hx hd)]
  exact hf e ⟨x, hx, hd⟩

theorem Goes.throw {error : EngineError} : Goes env i d node sent (throw error : Eng β) :=
  fun _ _ => trivial

end Goes

theorem leaveTask_goes {scripts : Token → ProcessDefinition → Eng Token} :
    Goes env i d node Next.sent (leaveTask env i tokenId node vars scripts) := by
  have hP := runs_property i d
  refine .after (takeToken_keeps hP.calm) fun _ => .after (cancelBoundary_keeps hP.shrinks _ _)
    fun _ => .after (cancelBoundaryWaits_keeps hP.shrinks) fun _ =>
      .after (updateInstance_calm hP.calm fun _ => ⟨rfl, rfl⟩) fun _ => .definitionOf ?_
  exact .of_yields (.after fun _ => .after fun _ => yields_resolveNextTarget fun _ h =>
    .after fun _ => .pure (overFirstFlow_moved _ h))

theorem completeUserTask_goes {task : PendingUserTask}
    (htask : e.pendingUserTasks.find? taskId = some task) (hrun : e.Runs task.instanceId d)
    (h : exec (completeUserTask env taskId vars) e = (.ok next, e')) :
    OverFirstFlow env d task.nodeId next.sent := by
  have hP := runs_property task.instanceId d
  rw [completeUserTask_eq, exec_bind_ok (exec_get e), htask] at h
  refine Triple.ok (Goes.after (i := task.instanceId) (removePending_keeps hP.shrinks _ _) fun _ =>
    .after findInstance_keeps fun _ => ?_) hrun h
  show Goes _ _ _ _ _ (if _ then _ else _)
  split
  · exact .after (LogProperty.insertPending hP _) fun _ => .throw
  · exact leaveTask_goes

theorem resolveIncident_goes (htask : e.pendingServiceTasks.find? taskId = some task)
    (hrun : e.Runs task.instanceId d)
    (h : exec (resolveIncident env taskId vars) e = (.ok next, e')) :
    OverFirstFlow env d task.nodeId next.sent := by
  have hP := runs_property task.instanceId d
  rw [resolveIncident_eq, exec_bind_ok (exec_getServiceTask htask)] at h
  refine Triple.ok (Q := fun a _ => OverFirstFlow env d task.nodeId (Next.sent a))
    (E := fun _ _ => True) ?_ hrun h
  show Goes _ _ _ _ _ (if _ then _ else _)
  split
  · exact .throw
  · exact .after (removePending_keeps hP.shrinks _ _) fun _ => leaveTask_goes

theorem leaveServiceTask_first (task : PendingServiceTask) (isMulti : Bool) (rollback : Token)
    (previous : Option ProcessInstance) :
    Yields (leaveServiceTask env d task isMulti rollback token previous) fun next =>
      OverFirstFlow env d task.nodeId next.sent :=
  .after fun _ => .after fun _ => .after fun _ => .after fun _ =>
    yields_resolveNextTarget fun _ h => .after fun _ => .pure (overFirstFlow_moved _ h)

theorem settleItem_first (task : PendingServiceTask) (progress : Option MultiInstanceProgress)
    (elementVariable : Option String) (sequential : Bool) (rollback : Token)
    (previous : Option ProcessInstance) :
    Yields (settleItem env d task progress elementVariable sequential rollback token previous)
      fun next => OverFirstFlow env d task.nodeId next.sent := by
  unfold settleItem
  split
  · split
    · exact .after fun _ => .after fun _ => .after fun _ => .pure overFirstFlow_nil
    · exact .after fun _ => .after fun _ => .pure overFirstFlow_nil
  · exact leaveServiceTask_first _ _ _ _

theorem completeServiceTask_goes {workerId : String}
    (htask : e.pendingServiceTasks.find? taskId = some task) (hrun : e.Runs task.instanceId d)
    (h : exec (completeServiceTask env taskId workerId vars) e = (.ok next, e')) :
    OverFirstFlow env d task.nodeId next.sent := by
  have hP := runs_property task.instanceId d
  have hclaimed := LogProperty.claimTask hP taskId workerId
  rcases exec_claimTask_cases taskId workerId e with
    ⟨claimed, hfound, -, hclaim⟩ | ⟨-, error, hclaim⟩
  · obtain rfl : task = claimed := Option.some.inj (htask.symm.trans hfound)
    rw [completeServiceTask, exec_bind_ok hclaim] at h
    refine Triple.ok (Goes.after (i := task.instanceId) (LogProperty.rejectSuspended hP _) fun _ =>
      .after findInstance_keeps fun _ => .definitionOf (.of_yields ?_))
      (hclaimed.of_exec hrun hclaim) h
    exact .after fun _ => .after fun _ => .after fun _ => settleItem_first _ _ _ _ _ _
  · rw [completeServiceTask, exec_bind_error hclaim] at h
    cases h

theorem resumeTimer_goes (timer : PendingTimer) :
    Goes env timer.instanceId d timer.nodeId (fun a => a.1.sent) (resumeTimer env timer) := by
  refine .definitionOf (.of_yields (.after fun token => ?_))
  have hgo : Yields (do
      let next ← continueBehind env d timer.instanceId timer.nodeId token
      return (next, true)) fun a => OverFirstFlow env d timer.nodeId a.1.sent :=
    .bind continueBehind_first fun _ h => .pure h
  split
  · exact .after fun _ => .after fun _ => hgo
  · exact hgo

theorem resumeMessageCatch_goes (c : PendingMessageCatch) (vars : Variables) :
    Goes env c.instanceId d c.nodeId Next.sent (resumeMessageCatch env c vars) := by
  refine .definitionOf (.of_yields (.after fun token => ?_))
  split
  · exact .after fun _ => .after fun _ => .after fun _ => continueBehind_first
  · exact .after fun _ => continueBehind_first

theorem resumeSignalCatch_goes (c : PendingSignalCatch) (vars : Variables) :
    Goes env c.instanceId d c.nodeId Next.sent (resumeSignalCatch env c vars) := by
  refine .definitionOf (.of_yields ?_)
  show Yields (if _ then _ else _) _
  split
  · exact .after fun _ => .after fun _ => .after fun _ => .after fun _ => continueBehind_first
  · exact .after fun _ => .after fun _ => continueBehind_first

theorem yields_conditionalTarget {α : Type} {f : String → Eng α} {Q : α → Prop} {label : String}
    (hf : ∀ next, d.resolveNextTarget env node vars = .ok next → Yields (f next) Q) :
    Yields (conditionalTarget env d label node vars >>= f) Q := by
  refine .bind (P := fun next => d.resolveNextTarget env node vars = .ok next) ?_ hf
  unfold conditionalTarget
  split
  next target htarget => exact .pure htarget
  · exact .throw _

theorem releaseCaught_first {target : String} (h : d.resolveNextTarget env node vars = .ok target) :
    Yields (releaseCaught i tokenId target vars) fun t => OverFirstFlow env d node [t] :=
  .after fun token => .after fun _ => .pure (overFirstFlow_moved { token with vars := vars } h)

theorem cloneToken_yields {change : Token → Token} {forkId : Token → String} :
    Yields (cloneToken i tokenId change forkId) fun t =>
      ∃ original id, t = { change original with id := id } := by
  refine .after fun _ => ?_
  split
  · exact .throw _
  next original _ => exact .after fun id => .after fun _ => .pure ⟨original, id, rfl⟩

theorem fireCatch_first (values : Variables) (c : PendingConditionalCatch) :
    Yields (fireCatch env d i values c) fun tokens => OverFirstFlow env d c.nodeId tokens := by
  refine .after fun _ => ?_
  split
  · exact yields_conditionalTarget fun _ h => .bind (releaseCaught_first h) fun _ ht => .pure ht
  · exact .after fun _ => .after fun _ => yields_conditionalTarget fun _ h =>
      .bind (releaseCaught_first h) fun _ ht => .pure ht
  · refine yields_conditionalTarget fun target h => .bind cloneToken_yields fun t ht =>
      .after fun _ => .pure ?_
    obtain ⟨original, id, rfl⟩ := ht
    exact overFirstFlow_moved { original with vars := values, id := id } h
  · exact .pure overFirstFlow_nil

theorem resumeCaller_goes {parentId childId : Uuid} {parent : ProcessInstance}
    {call : OutstandingCall} {results : Variables}
    (hparent : e.instances.find? parentId = some parent)
    (hdef : e.definitions.find? parent.definitionKey = some d)
    (hcall : endedCall parent childId = some call)
    (h : exec (resumeCaller env parentId childId results none) e = (.ok next, e')) :
    OverFirstFlow env d call.nodeId next.sent := by
  have hP : LogProperty fun e => e.definitions.find? parent.definitionKey = some d :=
    ⟨fun _ h => h, fun _ hdefinitions h => hdefinitions ▸ h⟩
  rw [resumeCaller, exec_bind_ok (exec_getInstance hparent), hcall] at h
  obtain ⟨token, s, htake, h⟩ := exec_bind_eq_ok h
  have hs := (takeUpCall_keeps hP.calm childId call _ results).of_exec hdef htake
  rw [exec_bind_ok (exec_getDefinition hs)] at h
  have hgo (t : Token) : Yields (do
      let target ← resolveNextTarget env d call.nodeId t.vars
      continueCaller parentId t target) fun next => OverFirstFlow env d call.nodeId next.sent :=
    yields_resolveNextTarget fun _ h => .after fun _ => .pure (overFirstFlow_moved _ h)
  exact Yields.after hgo s e' next h

/-! ## Implicit splits -/

theorem forkTokens_targets (targets : List String) (vars : Variables) :
    Yields (forkTokens targets vars) fun tokens => tokens.map (·.currentNode) = targets := by
  induction targets with
  | nil => exact .pure rfl
  | cons target rest ih =>
    rw [forkTokens, List.mapM_cons]
    have hnew : Yields (newToken target vars) fun t => t.currentNode = target :=
      .after fun _ => .pure rfl
    refine .bind hnew fun t ht => .bind ih fun tokens htokens => .pure ?_
    rw [List.map_cons, ht, htokens]

theorem handleParallelGateway_targets (hsplit : d.incomingFlowCount node < 2) :
    Yields (handleParallelGateway env i token d node) fun action =>
      action.sent.map (·.currentNode) = (d.nextNodes node).map (·.target) := by
  have hnote (action : NextAction) : Yields (noteFork i node action) fun a => a = action := by
    unfold noteFork
    split
    · exact .after fun _ => .pure rfl
    · exact .pure rfl
  have hgate (t : Token) : Yields (executeParallelGateway d node t) fun action =>
      action.sent.map (·.currentNode) = (d.nextNodes node).map (·.target) := by
    unfold executeParallelGateway
    rw [if_neg (by omega)]
    split
    next flow hflow => exact .pure (by rw [hflow]; rfl)
    · exact .bind (forkTokens_targets _ _) fun tokens htokens => .pure htokens
  refine .after fun t => .bind (hgate t) fun action haction => ?_
  intro s u a ha
  rw [hnote action s u a ha]
  exact haction

/-! ## Dispatch -/

theorem dispatch_passed (h : element.isPassed = true) :
    dispatch env i token d node element =
      StepOutcome.action <$> handleStartEvent env i token d node := by
  cases element <;> first | rfl | cases h

theorem yields_action {m : Eng NextAction} {Q : NextAction → Prop} (hm : Yields m Q)
    (h : exec (StepOutcome.action <$> m) s = (.ok (.action action), s')) : Q action := by
  have hall : Yields (StepOutcome.action <$> m) fun o => ∀ a, o = .action a → Q a :=
    .map fun s t a ha a' heq => by
      cases heq
      exact hm s t a ha
  exact hall s s' _ h action rfl

theorem dispatch_stepActivity (hkind : element.isStepActivity = true)
    (h : exec (dispatch env i token d node element) s = (.ok (.action action), s')) :
    OverFirstFlow env d node action.sent := by
  cases element with
  | scriptTask script => exact yields_action (handleScriptTask_first script) h
  | sendTask => exact yields_action handleSendTask_first h
  | serviceTask topic mi => exact yields_action (handleServiceTask_first topic mi) h
  | _ => cases hkind

theorem exec_executeStep_ok {outcome : StepOutcome} (hrun : e.Runs i d)
    (hnode : d.getNode token.currentNode = some element)
    (h : exec (executeStep env i token) e = (.ok outcome, e')) :
    ∃ t s, token.entered env d = .ok t ∧
      exec (dispatch env i t d token.currentNode element) s = (.ok outcome, e') := by
  obtain ⟨x, hx, hd⟩ := hrun
  rw [executeStep, exec_bind_ok (exec_definitionOf hx hd), hnode] at h
  change exec (executeNode env i token d token.currentNode element) e = _ at h
  cases ht : token.entered env d with
  | error =>
    rw [Config.exec_executeNode_error ht] at h
    cases h
  | ok t =>
    rw [Config.exec_executeNode ht] at h
    exact ⟨t, _, rfl, h⟩

end Eng

/-! ## Which flows are taken -/

section Departures

variable {env : Env} {e : Engine} {d : ProcessDefinition} {node : String} {vars : Variables}
  {tokens : List Token}

theorem OverFirstFlow.resolves (h : OverFirstFlow env d node tokens) (hgo : GoOn vars tokens) :
    ∃ t, tokens = [t] ∧ d.resolveNextTarget env node vars = .ok t.currentNode := by
  obtain ⟨t, ht⟩ := List.exists_mem_of_ne_nil tokens hgo.some
  refine ⟨t, (h t ht).1, ?_⟩
  rw [← hgo.vars t ht]
  exact (h t ht).2

/-- An implicit split sends a token over every flow; any other node sends one token over the
first flow that matches. -/
theorem Departs.sends (h : Departs env e d node vars tokens) :
    (d.getNode node = some .parallelGateway ∧
      tokens.map (·.currentNode) = (d.nextNodes node).map (·.target)) ∨
    (d.getNode node ≠ some .parallelGateway ∧
      ∃ t, tokens = [t] ∧ d.resolveNextTarget env node vars = .ok t.currentNode) := by
  have hother {element : BpmnElement} (hnode : d.getNode node = some element)
      (hne : element ≠ .parallelGateway) : d.getNode node ≠ some .parallelGateway := fun heq =>
    hne (Option.some.inj (hnode.symm.trans heq))
  cases h with
  | passed hrun hnode hkind ht h =>
    refine .inr ⟨hother hnode (by rintro rfl; cases hkind), ?_⟩
    obtain ⟨u, s, hu, h⟩ := exec_executeStep_ok hrun hnode h
    obtain rfl := Except.ok.inj (ht.symm.trans hu)
    rw [dispatch_passed hkind] at h
    exact yields_action (handleStartEvent_first _) h
  | stepActivity hrun hnode hkind h hgo =>
    refine .inr ⟨hother hnode (by rintro rfl; cases hkind), ?_⟩
    obtain ⟨u, s, -, h⟩ := exec_executeStep_ok hrun hnode h
    exact (dispatch_stepActivity hkind h).resolves hgo
  | subProcess hrun hnode hsub h hgo =>
    refine .inr ⟨hother hsub nofun, ?_⟩
    obtain ⟨u, s, -, h⟩ := exec_executeStep_ok hrun hnode h
    have hfirst : OverFirstFlow env d node _ :=
      yields_action (handleSubProcessEndEvent_first node) h
    exact hfirst.resolves hgo
  | implicitSplit hrun hnode hsplit h =>
    obtain ⟨u, s, -, h⟩ := exec_executeStep_ok hrun hnode h
    exact .inl ⟨hnode, yields_action (handleParallelGateway_targets hsplit) h⟩
  | userTask htask hrun hnode h hgo =>
    exact .inr ⟨hother hnode nofun, (completeUserTask_goes htask hrun h).resolves hgo⟩
  | serviceTask htask hrun hnode h hgo =>
    exact .inr ⟨hother hnode nofun, (completeServiceTask_goes htask hrun h).resolves hgo⟩
  | incident htask hrun hnode h hgo =>
    exact .inr ⟨hother hnode nofun, (resolveIncident_goes htask hrun h).resolves hgo⟩
  | timer hrun hnode hkind h hgo =>
    refine .inr ⟨hother hnode (by rintro rfl; cases hkind), ?_⟩
    exact OverFirstFlow.resolves (Triple.ok (resumeTimer_goes _) hrun h) hgo
  | message hrun hnode hkind h hgo =>
    refine .inr ⟨hother hnode (by rintro rfl; cases hkind), ?_⟩
    exact OverFirstFlow.resolves (Triple.ok (resumeMessageCatch_goes _ _) hrun h) hgo
  | signal hrun hnode hkind h hgo =>
    refine .inr ⟨hother hnode (by rintro rfl; cases hkind), ?_⟩
    exact OverFirstFlow.resolves (Triple.ok (resumeSignalCatch_goes _ _) hrun h) hgo
  | condition hrun hnode hkind h hgo =>
    refine .inr ⟨hother hnode (by rintro rfl; cases hkind), ?_⟩
    exact OverFirstFlow.resolves (fireCatch_first _ _ _ _ _ h) hgo
  | call hparent hdef hcall hnode h hgo =>
    exact .inr ⟨hother hnode nofun, (resumeCaller_goes hparent hdef hcall h).resolves hgo⟩

theorem ProcessDefinition.enabledFlows_of_resolve {target : String}
    (h : d.resolveNextTarget env node vars = .ok target) :
    ∃ flow rest, d.enabledFlows env node vars = flow :: rest ∧ flow.target = target := by
  unfold resolveNextTarget at h
  split at h
  next flow hflow =>
    cases h
    obtain ⟨-, before, after, hsplit, hbefore⟩ := List.find?_eq_some_iff_append.mp hflow
    refine ⟨flow, after.filter (flowMatches env vars), ?_, rfl⟩
    have hnone : before.filter (flowMatches env vars) = [] :=
      List.filter_eq_nil_iff.mpr fun x hx hmatch => by simpa [hmatch] using hbefore x hx
    rw [enabledFlows, hsplit, List.filter_append, hnone, List.nil_append,
      List.filter_cons_of_pos (List.find?_some hflow)]
  · cases h

/-- Each outgoing flow whose condition is absent or true gets a token if and only if there is at
most one of them or the node is an implicit split that the compiler has built. -/
theorem every_flow_taken_iff (h : Departs env e d node vars tokens) :
    ((d.enabledFlows env node vars).map (·.target)).Subperm (tokens.map (·.currentNode)) ↔
      d.getNode node = some .parallelGateway ∨ (d.enabledFlows env node vars).length ≤ 1 := by
  rcases h.sends with ⟨hgate, htargets⟩ | ⟨hgate, t, rfl, hresolve⟩
  · refine iff_of_true ?_ (.inl hgate)
    rw [htargets]
    exact (List.filter_sublist.map _).subperm
  · obtain ⟨flow, rest, hflows, htarget⟩ := ProcessDefinition.enabledFlows_of_resolve hresolve
    constructor
    · intro hsub
      have hlength := hsub.length_le
      rw [List.length_map] at hlength
      exact .inr hlength
    · rintro (heq | hlength)
      · exact absurd heq hgate
      · rw [hflows] at hlength ⊢
        obtain rfl : rest = [] := List.eq_nil_of_length_eq_zero (by simpa using hlength)
        rw [List.map_cons, htarget]
        exact List.Subperm.refl _

end Departures

/-! ## An order -/

def order (tasks : List String) : Bpmn.Definitions where
  processes := [{
    id := "order"
    scope :=
      { startEvents := [{ id := "start" }]
        endEvents := [{ id := "end" }]
        userTasks := tasks.map fun task => { id := task }
        sequenceFlows := tasks.flatMap fun task =>
          [⟨"to " ++ task, "start", task, none⟩, ⟨"from " ++ task, task, "end", none⟩] } }]

def orderAtStart (d : ProcessDefinition) : Engine :=
  { Engine.new 0 with
    definitions := (∅ : Table ProcessDefinition.key).insert d
    instances := (∅ : Table ProcessInstance.id).insert
      (ProcessInstance.initial 2 d.key "" none "start" ∅)
    nextUuid := 3 }

def stepTargets (outcome : EngineResult StepOutcome) : List String :=
  match outcome with
  | .ok (.action action) => action.sent.map (·.currentNode)
  | _ => []

def orderLeaves (tasks : List String) : Option (Bool × List String × Nat) :=
  match Parser.parseDefinitions .plain (order tasks) with
  | .error _ => none
  | .ok d => some
      (decide (d.getNode "start" = some .startEvent ∧
          (Token.mk 2 "start" ∅ false none).entered .plain d = .ok ⟨2, "start", ∅, false, none⟩),
        stepTargets (exec (Eng.executeStep .plain 2 ⟨2, "start", ∅, false, none⟩)
          (orderAtStart d)).1,
        (d.enabledFlows .plain "start" ∅).length)

theorem orderLeaves_departs (tasks : List String) {targets : List String} {n : Nat}
    (hne : targets ≠ []) (h : orderLeaves tasks = some (true, targets, n)) :
    ∃ d tokens, Parser.parseDefinitions .plain (order tasks) = .ok d ∧
      Departs .plain (orderAtStart d) d "start" ∅ tokens ∧ tokens.map (·.currentNode) = targets ∧
      (d.enabledFlows .plain "start" ∅).length = n := by
  unfold orderLeaves at h
  cases hd : Parser.parseDefinitions .plain (order tasks) with
  | error =>
    rw [hd] at h
    cases h
  | ok d =>
    rw [hd] at h
    obtain ⟨hentered, htargets, hn⟩ : _ ∧ _ ∧ _ := by simpa using h
    rcases hx : exec (Eng.executeStep .plain 2 ⟨2, "start", ∅, false, none⟩)
      (orderAtStart d) with ⟨error | action | _ | _, e'⟩ <;> rw [hx] at htargets
    case ok.action =>
      refine ⟨d, action.sent, rfl, ?_, htargets, hn⟩
      exact .passed ⟨_, rfl, Table.find?_insert_self _ _⟩ hentered.1 rfl hentered.2 hx
    all_goals exact absurd htargets.symm hne

theorem packing_taken :
    ∃ d tokens, Parser.parseDefinitions .plain (order ["pack"]) = .ok d ∧
      Departs .plain (orderAtStart d) d "start" ∅ tokens ∧
      ((d.enabledFlows .plain "start" ∅).map (·.target)).Subperm (tokens.map (·.currentNode)) := by
  obtain ⟨d, tokens, hd, h, -, hflows⟩ := orderLeaves_departs ["pack"] (n := 1)
    (List.cons_ne_nil "pack" []) (by decide +kernel)
  exact ⟨d, tokens, hd, h, (every_flow_taken_iff h).mpr (.inr (by omega))⟩

/-- With a task for packing and one for billing, only the packing begins. -/
theorem billing_ignored :
    ∃ d tokens, Parser.parseDefinitions .plain (order ["pack", "bill"]) = .ok d ∧
      Departs .plain (orderAtStart d) d "start" ∅ tokens ∧ tokens.map (·.currentNode) = ["pack"] ∧
      (d.enabledFlows .plain "start" ∅).length = 2 ∧
      ¬ ((d.enabledFlows .plain "start" ∅).map (·.target)).Subperm (tokens.map (·.currentNode)) :=
        by
  obtain ⟨d, tokens, hd, h, htokens, hflows⟩ := orderLeaves_departs ["pack", "bill"] (n := 2)
    (List.cons_ne_nil "pack" []) (by decide +kernel)
  refine ⟨d, tokens, hd, h, htokens, hflows, fun hsub => ?_⟩
  have hlength := hsub.length_le
  rw [List.length_map, hflows, htokens] at hlength
  exact absurd hlength (by decide)

end BpmnEngine
