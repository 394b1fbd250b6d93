import BpmnEngine.Footprints
import BpmnEngine.Machine
import BpmnEngine.StablePrograms

/-!
# Registering compensation handlers

An activity with a compensation boundary event is meant to leave a record of its handler
when it is completed. A user task, a script task and a service task that is resolved by
hand do. A send task, a service task that a worker completes, a multi-instance service
task without items and a call activity go on without one.
-/
namespace BpmnEngine

open Program Engine

def ProcessDefinition.compensationRecords (d : ProcessDefinition) (activity : String) :
    List CompensationRecord :=
  (d.findCompensationHandler activity).toList.map fun handler => ⟨activity, handler⟩

/-- A property of definitions and compensation logs. -/
structure LogProperty (P : Engine → Prop) : Prop where
  write : ∀ {e j f}, (∀ x, ProcessInstance.SameLog x (f x)) → P e → P (e.modifyInstance j f)
  other : ∀ {e e' : Engine}, e'.instances = e.instances → e'.definitions = e.definitions → P e → P
    e'

variable {P : Engine → Prop}

theorem LogProperty.shrinks (h : LogProperty P) : Shrinks P where
  draw e he := h.other (e := e) rfl rfl he
  write _ _ _ hf he := h.write hf he
  retain e kind q he :=
    have hcore := Eng.sameCore_retainPending e kind q
    h.other hcore.instances hcore.definitions he
  forget e _ he := h.other (e := e) rfl rfl he

theorem LogProperty.calm (h : LogProperty P) : Calm P := h.shrinks.toCalm

def Engine.Logged (i : Uuid) (d : ProcessDefinition) (log : List CompensationRecord)
    (e : Engine) : Prop :=
  ∃ x, e.instances.find? i = some x ∧ e.definitions.find? x.definitionKey = some d ∧
    x.compensationLog = log

theorem Engine.logged_property (i : Uuid) (d : ProcessDefinition) (log : List CompensationRecord) :
    LogProperty (Engine.Logged i d log) where
  write := by
    rintro e j f hf ⟨x, hx, hd, rfl⟩
    by_cases hij : i = j
    · subst hij
      refine ⟨{ f x with id := x.id }, ?_, ?_, (hf x).compensationLog⟩
      · rw [find?_modifyInstance_self, hx]
        rfl
      · exact (congrArg e.definitions.find? (hf x).definitionKey).trans hd
    · exact ⟨x, (find?_modifyInstance_of_ne hij).trans hx, hd, rfl⟩
  other := by
    rintro e e' hinstances hdefinitions ⟨x, hx, hd, rfl⟩
    exact ⟨x, hinstances ▸ hx, hdefinitions ▸ hd, rfl⟩

namespace Eng

/-! ## Programs that register nothing -/

section Property

variable {env : Env} {P : Engine → Prop} {i tokenId : Uuid} {d : ProcessDefinition} {node : String}
  {token : Token}

variable (hP : LogProperty P)

include hP

namespace LogProperty

theorem insertPending (p : Pending) : Keeps P (insertPending p) :=
  .modify fun e h => hP.other (e.instances_insertPending p) (e.definitions_insertPending p) h

theorem setupBoundaryEvents : Keeps P (setupBoundaryEvents env d node i token) := by
  refine .forM fun _ _ => .ite (fun _ => ?_) fun _ => .pure _
  exact .bind (newUuid_keeps hP.calm) fun _ => .bind now_keeps fun _ => .forM fun _ _ =>
    insertPending hP _

/-! ## Service tasks -/

theorem newServiceTask (x : ProcessInstance) (topic : String) (vars : Variables) :
    Keeps P (newServiceTask x d node topic tokenId vars) :=
  .bind (newUuid_keeps hP.calm) fun _ => .bind now_keeps fun _ => .pure _

theorem itemTasks (x : ProcessInstance) (topic : String) (elementVariable : Option String)
    (index : Nat) (items : List (Option Value)) :
    Keeps P (itemTasks x d node topic elementVariable token index items) := by
  induction items generalizing index with
  | nil => exact .pure _
  | cons item rest ih =>
    exact .bind (ofResult_keeps _) fun _ => .bind (newServiceTask hP _ _ _) fun _ =>
      .bind (ih _) fun _ => .pure _

theorem startMultiInstance (topic : String) (mi : MultiInstanceDef) (items : List (Option Value)) :
    Keeps P (startMultiInstance i token d node topic mi items) := by
  have hprogress (progress : MultiInstanceProgress) : Keeps P (startProgress i node token progress)
    :=
    modifyInstance_calm hP.calm fun _ => ⟨rfl, rfl⟩
  refine .bind getInstance_keeps fun _ => .ite (fun _ => ?_) fun _ => ?_
  · exact .bind (ofResult_keeps _) fun _ => .bind (newServiceTask hP _ _ _) fun _ =>
      .bind (hprogress _) fun _ => .pure _
  · refine .bind (itemTasks hP _ _ _ _ _) fun _ => .bind (hprogress _) fun _ => ?_
    split
    · exact .pure _
    · exact .bind (.forM fun _ _ => insertPending hP _) fun _ => .pure _

theorem handleServiceTask (topic : String) (mi : Option MultiInstanceDef) :
    Keeps P (handleServiceTask env i token d node topic mi) := by
  unfold Eng.handleServiceTask
  split
  · exact .bind (ofResult_keeps _) fun _ => .ite
      (fun _ => .bind (passThrow_keeps hP.calm) fun _ => .pure _)
      fun _ => .bind (setupBoundaryEvents hP) fun _ => startMultiInstance hP _ _ _
  · exact .bind (setupBoundaryEvents hP) fun _ => .bind getInstance_keeps fun _ =>
      .bind (newServiceTask hP _ _ _) fun _ => .bind (parkToken_keeps hP.calm) fun _ => .pure _

theorem claimTask (taskId : Uuid) (workerId : String) : Keeps P (claimTask taskId workerId) := by
  refine .bind .get fun _ => ?_
  split
  · exact .throw _
  · split
    · exact .throw _
    · exact .ite (fun _ => .bind (.throw _) fun _ => .bind (removePending_keeps hP.shrinks _ _)
        fun _ => .pure _)
        fun _ => .bind (removePending_keeps hP.shrinks _ _) fun _ => .pure _

section

variable (task : PendingServiceTask)

include task

theorem rejectSuspended : Keeps P (rejectSuspended task) :=
  .bind findInstance_keeps fun _ => .ite
    (fun _ => .bind (insertPending hP _) fun _ => .throw _) fun _ => .pure _

theorem restoring {α : Type} (rollback : Token) (previous : Option ProcessInstance) {m : Eng α}
    (hm : Keeps P m) : Keeps P (restoring task rollback previous m) :=
  .orElse hm fun _ => .bind (.bind (modifyInstance_calm hP.calm fun _ => ⟨rfl, rfl⟩) fun _ =>
    insertPending hP _) fun _ => .throw _

theorem nextItemTask (progress : MultiInstanceProgress) (elementVariable : Option String)
    (previous : Option ProcessInstance) :
    Keeps P (nextItemTask d task token progress elementVariable previous) :=
  .bind (ofResult_keeps _) fun _ => .bind (newUuid_keeps hP.calm) fun _ => .bind now_keeps fun _ =>
    .pure _

theorem countItem (waitingFor : Uuid) : Keeps P (countItem task token waitingFor) :=
  updateInstance_calm hP.calm fun _ => ⟨rfl, rfl⟩

theorem leaveServiceTask (isMulti : Bool) (rollback : Token) (previous : Option ProcessInstance) :
    Keeps P (leaveServiceTask env d task isMulti rollback token previous) :=
  .bind (cancelBoundary_keeps hP.shrinks _ _) fun _ => .bind (cancelBoundaryWaits_keeps hP.shrinks)
    fun _ =>
    .bind (updateInstance_calm hP.calm fun _ => ⟨rfl, rfl⟩) fun _ =>
      .bind (restoring hP _ _ _ (runEndScripts_keeps hP.calm)) fun _ => .bind
        (resolveNextTarget_keeps _ _)
        fun _ => .bind (setCurrentNode_keeps hP.calm) fun _ => .pure _

theorem settleItem (progress : Option MultiInstanceProgress) (elementVariable : Option String)
    (sequential : Bool) (rollback : Token) (previous : Option ProcessInstance) :
    Keeps P (settleItem env d task progress elementVariable sequential rollback token previous) :=
      by
  unfold Eng.settleItem
  split
  · refine .ite (fun _ => ?_) fun _ => ?_
    · exact .bind (restoring hP _ _ _ (nextItemTask hP _ _ _ _)) fun _ => .bind (countItem hP _ _)
        fun _ => .bind (insertPending hP _) fun _ => .pure _
    · exact .bind (.bind .get fun _ => .pure _) fun _ => .bind (countItem hP _ _) fun _ => .pure _
  · exact leaveServiceTask hP _ _ _ _

end

theorem completeServiceTask (taskId : Uuid) (workerId : String) (vars : Variables) :
    Keeps P (completeServiceTask env taskId workerId vars) :=
  .bind (claimTask hP _ _) fun _ => .bind (rejectSuspended hP _) fun _ =>
    .bind findInstance_keeps fun _ => .bind definitionOf_keeps fun _ =>
      .bind (.bind getInstance_keeps fun _ => .pure _) fun _ => .bind (acquireToken_keeps hP.calm _ _ _)
        fun _ => .bind (restoring hP _ _ _ (ofResult_keeps _)) fun _ => settleItem hP _ _ _ _ _ _

/-! ## Called instances -/

theorem resumeParentIfNeeded : Keeps P (resumeParentIfNeeded env i none) := by
  refine .bind getInstance_keeps fun _ => ?_
  split
  · exact .pure _
  · refine .bind getInstance_keeps fun _ => ?_
    split
    · exact .pure _
    · exact .bind (takeUpCall_keeps hP.calm _ _ _ _) fun _ => .bind (getDefinition_keeps _) fun _ =>
        .bind (leaveCall_keeps hP.calm _) fun _ => .bind (resolveNextTarget_keeps _ _) fun _ =>
          .bind (modifyInstance_calm hP.calm fun _ => ⟨rfl, rfl⟩) fun _ => .pure _

end LogProperty

end Property

/-! ## Programs that register a handler -/

def Records {α : Type} (i : Uuid) (d : ProcessDefinition) (log log' : List CompensationRecord)
    (m : Eng α) : Prop :=
  Triple (Engine.Logged i d log) m (fun _ => Engine.Logged i d log') fun _ _ => True

section Records

variable {env : Env} {i tokenId taskId : Uuid} {d : ProcessDefinition} {node : String}
  {token : Token} {log log' : List CompensationRecord} {α β : Type} {vars : Variables} {m : Eng α}
  {e e' : Engine} {next : Next}

theorem Records.of_keeps (hm : Keeps (Engine.Logged i d log) m) : Records i d log log m :=
  hm.triple.mono (fun _ h => h) (fun _ _ h => h) fun _ _ _ => trivial

theorem Records.after {f : α → Eng β} (hm : Keeps (Engine.Logged i d log) m)
    (hf : ∀ a, Records i d log log' (f a)) : Records i d log log' (m >>= f) :=
  .bind (Records.of_keeps hm) hf

theorem Records.definitionOf {f : ProcessDefinition → Eng β} (hf : Records i d log log' (f d)) :
    Records i d log log' (definitionOf i >>= f) := by
  rintro e ⟨x, hx, hd, hlog⟩
  rw [exec_bind_ok (exec_definitionOf hx hd)]
  exact hf e ⟨x, hx, hd, hlog⟩

theorem Records.throw (error : EngineError) : Records i d log log' (throw error : Eng α) :=
  Triple.throw fun _ _ => trivial

theorem registerCompensationHandler_records (i : Uuid) (node : String) :
    Records i d log (log ++ d.compensationRecords node) (registerCompensationHandler i node d) := by
  unfold registerCompensationHandler ProcessDefinition.compensationRecords
  cases hhandler : d.findCompensationHandler node with
  | none => exact .pure fun e he => by simpa using he
  | some handler =>
    rintro e ⟨x, hx, hd, rfl⟩
    refine ⟨{ x with compensationLog := x.compensationLog ++ [⟨node, handler⟩] }, ?_, hd, rfl⟩
    show (e.modifyInstance i _).instances.find? i = _
    rw [find?_modifyInstance_self, hx]
    rfl

theorem Records.registering {f : PUnit → Eng β}
    (hf : ∀ u, Keeps (Engine.Logged i d (log ++ d.compensationRecords node)) (f u)) :
    Records i d log (log ++ d.compensationRecords node)
      (registerCompensationHandler i node d >>= f) :=
  .bind (registerCompensationHandler_records i node) fun u => Records.of_keeps (hf u)

theorem handleScriptTask_records (script : String) :
    Records i d log (log ++ d.compensationRecords node)
      (handleScriptTask env i token d node script) := by
  have hP := logged_property i d
  exact .after (ofResult_keeps _) fun _ => .after (runEndScripts_keeps (hP _).calm) fun _ =>
    .registering fun _ => .bind (resolveNextTarget_keeps _ _) fun _ =>
      .bind (updateInstance_calm (hP _).calm fun _ => ⟨rfl, rfl⟩) fun _ => .pure _

/-- A token's step at an activity that has no wait. -/
theorem executeStep_records
    (hdispatch : ∀ token element, d.getNode node = some element →
      Records i d log log' (dispatch env i token d node element))
    (htoken : token.currentNode = node) : Records i d log log' (executeStep env i token) := by
  have hP := logged_property i d log
  refine .definitionOf ?_
  subst htoken
  split
  · exact .throw _
  case h_2 element helement =>
    refine .after (ofResult_keeps _) fun _ => .after (ofResult_keeps _) fun entered => ?_
    show Records i d log log' (if _ then _ else _)
    split
    · exact .after (modifyInstance_calm hP.calm fun _ => ⟨rfl, rfl⟩) fun _ =>
        hdispatch _ _ helement
    · exact hdispatch _ _ helement

theorem leaveTask_records {scripts : Token → ProcessDefinition → Eng Token}
    (h : ∀ t d', Keeps (Engine.Logged i d log) (scripts t d')) :
    Records i d log (log ++ d.compensationRecords node)
      (leaveTask env i tokenId node vars scripts) := by
  have hP := logged_property i d
  refine .after (takeToken_keeps (hP _).calm) fun _ => .after
    (cancelBoundary_keeps (hP _).shrinks _ _)
    fun _ => .after (cancelBoundaryWaits_keeps (hP _).shrinks) fun _ =>
      .after (updateInstance_calm (hP _).calm fun _ => ⟨rfl, rfl⟩) fun _ =>
        .definitionOf (.after (h _ _) fun _ => ?_)
  exact .registering fun _ => .bind (resolveNextTarget_keeps _ _) fun _ =>
    .bind (setCurrentNode_keeps (hP _).calm) fun _ => .pure _

theorem completeUserTask_records {task : PendingUserTask}
    (htask : e.pendingUserTasks.find? taskId = some task) (hlog : e.Logged task.instanceId d log)
    (h : exec (completeUserTask env taskId vars) e = (.ok next, e')) :
    e'.Logged task.instanceId d (log ++ d.compensationRecords task.nodeId) := by
  have hP := logged_property task.instanceId d
  rw [completeUserTask_eq, exec_bind_ok (exec_get e), htask] at h
  refine Triple.ok (Records.after (removePending_keeps (hP _).shrinks _ _) fun _ =>
    .after findInstance_keeps fun found => ?_) hlog h
  show Records task.instanceId d log _ (if _ then _ else _)
  split
  · exact .after (LogProperty.insertPending (hP _) _) fun _ => .throw _
  · exact leaveTask_records fun _ _ => .orElse (runEndScripts_keeps (hP _).calm) fun _ =>
      .bind (modifyInstance_calm (hP _).calm fun _ => ⟨rfl, rfl⟩) fun _ =>
        .bind (LogProperty.insertPending (hP _) _) fun _ => .throw _

theorem resolveIncident_records {task : PendingServiceTask}
    (htask : e.pendingServiceTasks.find? taskId = some task)
    (hlog : e.Logged task.instanceId d log)
    (h : exec (resolveIncident env taskId vars) e = (.ok next, e')) :
    e'.Logged task.instanceId d (log ++ d.compensationRecords task.nodeId) := by
  have hP := logged_property task.instanceId d
  rw [resolveIncident_eq, exec_bind_ok (exec_getServiceTask htask)] at h
  by_cases hretries : 0 < task.retries
  · rw [if_pos hretries] at h
    cases h
  · rw [if_neg hretries] at h
    exact Triple.ok (Records.after (removePending_keeps (hP _).shrinks _ _) fun _ =>
      leaveTask_records fun _ _ => runEndScripts_keeps (hP _).calm) hlog h

end Records

end Eng

/-! ## All ways to complete an activity -/

/-- A way to complete an activity. An activity without a wait is completed in the step of its
token. -/
inductive ActivityCompletion where
  | userTask (taskId : Uuid) (vars : Variables)
  | step (instanceId : Uuid) (token : Token)
  | serviceTask (taskId : Uuid) (workerId : String) (vars : Variables)
  | incident (taskId : Uuid) (vars : Variables)
  | call (childId : Uuid)

def Next.goesOn : Next → Bool
  | .done => false
  | .run .. => true

def StepOutcome.goesOn : StepOutcome → Bool
  | .action (.continue _) => true
  | _ => false

def BpmnElement.isStepActivity : BpmnElement → Bool
  | .scriptTask .. | .sendTask .. | .serviceTask .. => true
  | _ => false

def BpmnElement.isScriptTask : BpmnElement → Bool
  | .scriptTask .. => true
  | _ => false

def Engine.elementAt (e : Engine) (i : Uuid) (node : String) : Option BpmnElement := do
  let x ← e.instances.find? i
  let d ← e.definitions.find? x.definitionKey
  d.getNode node

namespace ActivityCompletion

variable {completion : ActivityCompletion} {left : Bool}

/-- The instance and the activity that is completed. -/
def activity (e : Engine) : ActivityCompletion → Option (Uuid × String)
  | .userTask taskId _ =>
    (e.pendingUserTasks.find? taskId).map fun task => (task.instanceId, task.nodeId)
  | .step instanceId token =>
    if (e.elementAt instanceId token.currentNode).any BpmnElement.isStepActivity then
      some (instanceId, token.currentNode)
    else none
  | .serviceTask taskId _ _ | .incident taskId _ =>
    (e.pendingServiceTasks.find? taskId).map fun task => (task.instanceId, task.nodeId)
  | .call childId => do
    let child ← e.instances.find? childId
    let parentId ← child.parentInstanceId
    let parent ← e.instances.find? parentId
    let call ← Eng.endedCall parent childId
    return (parentId, call.nodeId)

/-- Completes the activity; the value says whether its token went on. -/
def run (env : Env) : ActivityCompletion → Eng Bool
  | .userTask taskId vars => return (← Eng.completeUserTask env taskId vars).goesOn
  | .step instanceId token => return (← Eng.executeStep env instanceId token).goesOn
  | .serviceTask taskId workerId vars =>
    return (← Eng.completeServiceTask env taskId workerId vars).goesOn
  | .incident taskId vars => return (← Eng.resolveIncident env taskId vars).goesOn
  | .call childId => return (← Eng.resumeParentIfNeeded env childId none).goesOn

/-- The ways that leave a record: user tasks, script tasks and tasks resolved by hand. -/
def registers (e : Engine) : ActivityCompletion → Bool
  | .userTask .. | .incident .. => true
  | .step instanceId token => (e.elementAt instanceId token.currentNode).any
    BpmnElement.isScriptTask
  | .serviceTask .. | .call _ => false

variable {env : Env} {e e' : Engine} {i : Uuid} {node : String} {d : ProcessDefinition}
  {log : List CompensationRecord}

theorem elementAt_of_logged (h : e.Logged i d log) : e.elementAt i node = d.getNode node := by
  obtain ⟨x, hx, hd, _⟩ := h
  simp [Engine.elementAt, hx, hd]

/-- A step at a script task leaves a record, a step at another activity does not. -/
theorem step_records {token : Token} {outcome : StepOutcome} (hlog : e.Logged i d log)
    (hactivity : (d.getNode token.currentNode).any BpmnElement.isStepActivity = true)
    (h : exec (Eng.executeStep env i token) e = (.ok outcome, e')) :
    e'.Logged i d (if (d.getNode token.currentNode).any BpmnElement.isScriptTask then
      log ++ d.compensationRecords token.currentNode else log) := by
  have hP := logged_property i d
  refine Triple.ok (Eng.executeStep_records (fun token element helement => ?_) rfl) hlog h
  rw [helement] at hactivity ⊢
  have hmap {m : Eng NextAction} {log'} (hm : Eng.Records i d log log' m) :
      Eng.Records i d log log' (StepOutcome.action <$> m) := by
    rw [map_eq_pure_bind]
    exact .bind hm fun _ => .pure fun _ h => h
  cases element with
  | scriptTask script => exact hmap (Eng.handleScriptTask_records script)
  | sendTask =>
    exact hmap (.of_keeps (.bind (Eng.runEndScripts_keeps (hP _).calm) fun _ =>
      .bind (Eng.passThrow_keeps (hP _).calm) fun _ => .pure _))
  | serviceTask => exact hmap (.of_keeps (Eng.LogProperty.handleServiceTask (hP _) _ _))
  | _ => cases hactivity

/-- What a completion adds to the log of the instance. -/
theorem logged_run (hactivity : completion.activity e = some (i, node)) (hlog : e.Logged i d log)
    (h : exec (completion.run env) e = (.ok left, e')) :
    e'.Logged i d (if completion.registers e then log ++ d.compensationRecords node else log) := by
  have hP := logged_property i d log
  cases completion <;> obtain ⟨next, _, hrun, hreturn⟩ := exec_bind_eq_ok h <;> cases hreturn
  case userTask =>
    obtain ⟨task, htask, heq⟩ := Option.map_eq_some_iff.mp hactivity
    obtain ⟨rfl, rfl⟩ := Prod.mk.inj heq
    exact Eng.completeUserTask_records htask hlog hrun
  case step =>
    obtain ⟨hstep, heq⟩ := Option.ite_none_right_eq_some.mp hactivity
    obtain ⟨rfl, rfl⟩ := Prod.mk.inj (Option.some.inj heq)
    simp only [registers, elementAt_of_logged hlog] at hstep ⊢
    exact step_records hlog hstep hrun
  case serviceTask => exact (Eng.LogProperty.completeServiceTask hP _ _ _).of_exec hlog hrun
  case incident =>
    obtain ⟨task, htask, heq⟩ := Option.map_eq_some_iff.mp hactivity
    obtain ⟨rfl, rfl⟩ := Prod.mk.inj heq
    exact Eng.resolveIncident_records htask hlog hrun
  case call => exact (Eng.LogProperty.resumeParentIfNeeded hP).of_exec hlog hrun

/-- A completed activity with a compensation handler has left one record of it exactly if it was
completed in a way that registers. -/
theorem registered_iff {completion : ActivityCompletion} {handler : String} {x : ProcessInstance}
    (hactivity : completion.activity e = some (i, node)) (hx : e.instances.find? i = some x)
    (hd : e.definitions.find? x.definitionKey = some d)
    (hhandler : d.findCompensationHandler node = some handler)
    (h : exec (completion.run env) e = (.ok true, e')) :
    (∃ x', e'.instances.find? i = some x' ∧
      x'.compensationLog = x.compensationLog ++ [⟨node, handler⟩]) ↔
        completion.registers e = true := by
  obtain ⟨x', hx', _, hlog⟩ := logged_run hactivity ⟨x, hx, hd, rfl⟩ h
  have hrecords : d.compensationRecords node = [⟨node, handler⟩] := by
    rw [ProcessDefinition.compensationRecords, hhandler]
    rfl
  rw [hrecords] at hlog
  constructor
  · rintro ⟨_, hfound, happended⟩
    cases hx'.symm.trans hfound
    by_contra hnot
    rw [if_neg hnot, happended] at hlog
    simpa using congrArg List.length hlog
  · intro hregisters
    rw [if_pos hregisters] at hlog
    exact ⟨x', hx', hlog⟩

/-! ## A booking that can be cancelled -/

/-- An activity whose compensation boundary event leads to its handler. -/
def booking (element : BpmnElement) : ProcessDefinition := .ofGraph "booking"
  [("start", .startEvent), ("book", element), ("end", .endEvent),
    ("undo", .boundaryCompensationEvent "book"), ("cancel", .endEvent)]
  [("start", [.simple "book"]), ("book", [.simple "end"]), ("undo", [.simple "cancel"])]

def bookingRun (element : BpmnElement) (rest : List Op) : Option Config :=
  Config.performAll .plain 100 (Config.initial 0)
    ([.deployDefinition (booking element), .startInstance 1 ∅] ++ rest)

/-- The activity of a completion, its handler, whether its token goes on, and the compensation
log before and after. -/
structure Effect where
  instanceId : Uuid
  node : String
  handler : Option String
  left : Option Bool
  before : List CompensationRecord
  after : List CompensationRecord
  deriving DecidableEq

def effect (completion : ActivityCompletion) (e : Engine) : Option Effect := do
  let (i, node) ← completion.activity e
  let x ← e.instances.find? i
  let d ← e.definitions.find? x.definitionKey
  let (result, e') := exec (completion.run .plain) e
  let x' ← e'.instances.find? i
  return ⟨i, node, d.findCompensationHandler node, result.toOption, x.compensationLog,
    x'.compensationLog⟩

theorem exists_of_effect {handler : Option String} {log' : List CompensationRecord}
    (h : completion.effect e = some ⟨i, node, handler, some left, log, log'⟩) :
    ∃ x d x' e', completion.activity e = some (i, node) ∧ e.instances.find? i = some x ∧
      e.definitions.find? x.definitionKey = some d ∧ d.findCompensationHandler node = handler ∧
      exec (completion.run .plain) e = (.ok left, e') ∧
      e'.instances.find? i = some x' ∧ x.compensationLog = log ∧ x'.compensationLog = log' := by
  simp only [effect, Option.bind_eq_bind, Option.bind_eq_some_iff, Option.pure_def,
    Option.some.injEq, Effect.mk.injEq] at h
  obtain ⟨⟨_, _⟩, hactivity, x, hx, d, hd, x', hx', rfl, rfl, hhandler, hleft, hlog, hlog'⟩ := h
  rcases hrun : exec (completion.run .plain) e with ⟨_ | _, e'⟩ <;>
    rw [hrun] at hleft hx' <;> cases hleft
  exact ⟨x, d, x', e', hactivity, hx, hd, hhandler, rfl, hx', hlog, hlog'⟩

/-- A worker completes its service task: the token goes on and there is no record. -/
theorem worker_leaves_no_record :
    ∃ c, Reaches (Config.step .plain) (fun _ _ => True) (Config.initial 0) c ∧ c.control = .idle ∧
      ∃ (completion : ActivityCompletion) (i : Uuid) (node : String) (x : ProcessInstance)
        (d : ProcessDefinition) (handler : String) (e' : Engine),
        completion.activity c.engine = some (i, node) ∧ c.engine.instances.find? i = some x ∧
        c.engine.definitions.find? x.definitionKey = some d ∧
        d.findCompensationHandler node = some handler ∧
        exec (completion.run .plain) c.engine = (.ok true, e') ∧
        ¬∃ x', e'.instances.find? i = some x' ∧
          x'.compensationLog = x.compensationLog ++ [⟨node, handler⟩] := by
  have hrun : (bookingRun (.serviceTask "booking" none)
      [.fetchAndLock "worker" 1 [("booking", 30)]]).map
        (fun c => (serviceTask 6 "worker" ∅).effect c.engine) =
      some (some ⟨2, "book", some "cancel", some true, [], []⟩) := by
    decide +kernel
  obtain ⟨c, hreach, hidle, heffect⟩ := Config.exists_of_performAll hrun
  obtain ⟨x, d, x', e', hactivity, hx, hd, hhandler, hexec, hx', hlog, hlog'⟩ :=
    exists_of_effect heffect
  refine ⟨c, hreach, hidle, _, 2, "book", x, d, "cancel", e', hactivity, hx, hd, hhandler,
    hexec, ?_⟩
  rintro ⟨_, hfound, happended⟩
  cases hx'.symm.trans hfound
  rw [hlog, hlog'] at happended
  cases happended

/-- A user completes the same activity as a user task: the record is there. -/
theorem user_leaves_record :
    ∃ c x e', bookingRun (.userTask "clerk") [] = some c ∧ c.engine.instances.find? 2 = some x ∧
      exec ((userTask 6 ∅).run .plain) c.engine = (.ok true, e') ∧
      ((∃ x', e'.instances.find? 2 = some x' ∧
        x'.compensationLog = x.compensationLog ++ [⟨"book", "cancel"⟩]) ↔
          (userTask 6 ∅).registers c.engine = true) := by
  have hrun : (bookingRun (.userTask "clerk") []).map (fun c => (userTask 6 ∅).effect c.engine) =
      some (some ⟨2, "book", some "cancel", some true, [], [⟨"book", "cancel"⟩]⟩) := by
    decide +kernel
  obtain ⟨c, hc, heffect⟩ := Option.map_eq_some_iff.mp hrun
  obtain ⟨x, d, x', e', hactivity, hx, hd, hhandler, hexec, -⟩ := exists_of_effect heffect
  exact ⟨c, x, e', hc, hx, hexec, registered_iff hactivity hx hd hhandler hexec⟩

end ActivityCompletion

end BpmnEngine
