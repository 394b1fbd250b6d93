import BpmnEngine.Administration

/-!
# Properties that hardly any program can break

Some properties of the engine are about its tables of service tasks and timers and the two
indexes beside them, and not about instances and definitions. Whatever a program does to an
instance keeps such a property, and so does filing any wait but a service task, and
dropping waits. A property that these changes keep is called stable here. Every program
keeps it that does not open a service task or put one back.
-/
namespace BpmnEngine

open Program

attribute [grind =] Pending.wait PendingUserTask.wait PendingTimer.wait PendingMessageCatch.wait
  PendingSignalCatch.wait PendingConditionalCatch.wait

/-- A property of the tables of service tasks and timers and of their indexes. -/
structure Stable (P : Engine → Prop) : Prop where
  draw : ∀ e, P e → P { e with nextUuid := e.nextUuid + 1 }
  instances : ∀ e table, P e → P { e with instances := table }
  definitions : ∀ e table, P e → P { e with definitions := table }
  clock : ∀ e time, P e → P { e with clock := time }
  taskHandlers : ∀ e topics, P e → P { e with taskHandlers := topics }
  inProcessInflight : ∀ e ids, P e → P { e with inProcessInflight := ids }
  file : ∀ e p, p.wait.kind ≠ .serviceTask → P e → P (e.insertPending p)
  retain : ∀ e kind q, P e → P (e.retainPending kind q)
  forget : ∀ e q, P e → P { e with pendingServiceTasks := e.pendingServiceTasks.retain q }
  rewrite : ∀ e id f, (∀ t, (f t).id = t.id ∧ (f t).topic = t.topic) → P e →
    P { e with pendingServiceTasks := e.pendingServiceTasks.modify id f }
  unlist : ∀ e topic id, e.pendingServiceTasks.find? id = none → P e →
    P { e with serviceTaskTopicIndex :=
      e.serviceTaskTopicIndex.filter fun x => !decide (x = (topic, id)) }
  migrate : ∀ e mapping target i, P e → P (Eng.migrateWaits mapping target i e)

/-- A write that neither moves an instance to another definition nor changes its compensation
log. -/
structure ProcessInstance.SameLog (x y : ProcessInstance) : Prop where
  definitionKey : y.definitionKey = x.definitionKey
  compensationLog : y.compensationLog = x.compensationLog

attribute [grind ←] ProcessInstance.SameLog.mk

/-- A property that drawing an identifier and such writes keep. -/
structure Calm (P : Engine → Prop) : Prop where
  draw : ∀ e, P e → P { e with nextUuid := e.nextUuid + 1 }
  write : ∀ e j f, (∀ x, ProcessInstance.SameLog x (f x)) → P e → P (e.modifyInstance j f)

/-- A property that dropping waits keeps as well. -/
structure Shrinks (P : Engine → Prop) : Prop extends Calm P where
  retain : ∀ e kind q, P e → P (e.retainPending kind q)
  forget : ∀ e q, P e → P { e with pendingServiceTasks := e.pendingServiceTasks.retain q }

/-- A property of the waits alone. -/
structure Loose (P : Engine → Prop) : Prop extends Shrinks P where
  rewrite : ∀ e j f, P e → P (e.modifyInstance j f)

attribute [grind →] Loose.toShrinks Shrinks.toCalm

@[grind →]
theorem Stable.loose {P : Engine → Prop} (h : Stable P) : Loose P where
  draw := h.draw
  write e j f _ he := h.instances e _ he
  retain := h.retain
  forget := h.forget
  rewrite e j f he := h.instances e _ he

theorem Stable.shrinks {P : Engine → Prop} (h : Stable P) : Shrinks P := h.loose.toShrinks

theorem Stable.calm {P : Engine → Prop} (h : Stable P) : Calm P := h.shrinks.toCalm

namespace Eng

variable {env : Env} {P : Engine → Prop} {i tokenId : Uuid} {d : ProcessDefinition} {node : String}
  {token : Token} {queue : List Token}

/-! ## Programs that only read -/

@[grind ←]
theorem findInstance_keeps : Keeps P (findInstance i) := fun _ h => h

@[grind ←]
theorem findDefinition_keeps (key : Uuid) : Keeps P (findDefinition key) := fun _ h => h

@[grind ←]
theorem now_keeps : Keeps P now := fun _ h => h

@[grind ←]
theorem getInstance_keeps : Keeps P (getInstance i) := by
  grind [getInstance]

@[grind ←]
theorem getDefinition_keeps (key : Uuid) : Keeps P (getDefinition key) := by
  grind [getDefinition]

@[grind ←]
theorem definitionOf_keeps : Keeps P (definitionOf i) := by
  grind [definitionOf]

@[grind ←]
theorem ofResult_keeps {α : Type} (r : EngineResult α) : Keeps P (ofResult r) := fun _ h => h

@[grind ←]
theorem allDefinitions_keeps : Keeps P (allDefinitions env) := fun _ h => h

@[grind ←]
theorem findLatestByBpmnId_keeps (bpmnId : String) : Keeps P (findLatestByBpmnId env bpmnId) :=
  fun _ h => h

@[grind ←]
theorem resolveNextTarget_keeps (source : String) (vars : Variables) :
    Keeps P (resolveNextTarget env d source vars) := by
  grind [resolveNextTarget]

@[grind ←]
theorem allTokensCompleted_keeps : Keeps P (allTokensCompleted i) := by
  grind [allTokensCompleted]

@[grind ←]
theorem eventHandlerForToken_keeps : Keeps P (eventHandlerForToken i tokenId) := by
  grind [eventHandlerForToken]

@[grind ←]
theorem isEventSubscription_keeps (id : Uuid) : Keeps P (isEventSubscription i id) := by
  grind [isEventSubscription]

@[grind ←]
theorem nodeIsInclusiveSplit_keeps : Keeps P (nodeIsInclusiveSplit i node) := by
  grind [nodeIsInclusiveSplit]

@[grind ←]
theorem tokenEventContext_keeps : Keeps P (tokenEventContext i tokenId) := by
  grind [tokenEventContext]

@[grind ←]
theorem executeExclusiveGateway_keeps (default : Option String) :
    Keeps P (executeExclusiveGateway env d node token default) := by
  grind [executeExclusiveGateway]

@[grind ←]
theorem startNodeOfTimer_keeps : Keeps P (startNodeOfTimer d) := by
  grind [startNodeOfTimer]

@[grind ←]
theorem validateStartRequest_keeps (key : Uuid) (allow : Bool) :
    Keeps P (validateStartRequest key allow) := by
  grind [validateStartRequest]

@[grind ←]
theorem conditionalTarget_keeps (label : String) (vars : Variables) :
    Keeps P (conditionalTarget env d label node vars) := by
  grind [conditionalTarget]

@[grind ←]
theorem getServiceTask_keeps (taskId : Uuid) : Keeps P (getServiceTask taskId) := by
  grind [getServiceTask]

@[grind ←]
theorem verifyLockOwnership_keeps (taskId : Uuid) (owner : Option String) (workerId : String) :
    Keeps P (verifyLockOwnership taskId owner workerId) := by
  unfold verifyLockOwnership
  grind

@[grind ←]
theorem requireActive_keeps (x : ProcessInstance) : Keeps P (requireActive x) := by
  grind [requireActive]

@[grind ←]
theorem checkNodes_keeps (mapping : Map String String) (nodes : List String) :
    Keeps P (checkNodes d mapping nodes) := by
  grind [checkNodes]

@[grind ←]
theorem checkMigration_keeps (target : Uuid) (mapping : Map String String) :
    Keeps P (checkMigration i target mapping) := by
  grind [checkMigration]

theorem subscriptionFor_kind {clock : Time} {handler : EventSubProcess} {id : Uuid}
    {opened : EventSubscription × Option Pending}
    (h : subscriptionFor env i clock handler id = some opened) {p : Pending}
    (hp : opened.2 = some p) : p.wait.kind ≠ .serviceTask := by
  unfold subscriptionFor at h
  split at h
  · obtain ⟨_, _, rfl⟩ := Option.map_eq_some_iff.mp h
    cases hp
    exact nofun
  · cases h
    cases hp
    exact nofun
  · cases h
    cases hp
    exact nofun
  · cases h
    cases hp
  · cases h
    cases hp

section Calm

variable (hP : Calm P)

include hP

/-! ## Programs that draw and write -/

@[grind ←]
theorem newUuid_keeps : Keeps P newUuid := fun e h => hP.draw e h

@[grind ←]
theorem modifyInstance_calm {f : ProcessInstance → ProcessInstance}
    (hf : ∀ x, ProcessInstance.SameLog x (f x)) : Keeps P (modifyInstance i f) :=
  .modify fun e h => hP.write e i f hf h

@[grind ←]
theorem updateInstance_calm {f : ProcessInstance → ProcessInstance}
    (hf : ∀ x, ProcessInstance.SameLog x (f x)) : Keeps P (updateInstance i f) :=
  .bind getInstance_keeps fun _ => modifyInstance_calm hP hf

@[grind ←]
theorem setCurrentNode_keeps : Keeps P (setCurrentNode i node) := by
  grind [setCurrentNode]

@[grind ←]
theorem parkToken_keeps : Keeps P (parkToken i node token) := by
  grind [parkToken]

@[grind ←]
theorem removeToken_keeps : Keeps P (removeToken i tokenId) := by
  grind [removeToken]

@[grind ←]
theorem runEndScripts_keeps : Keeps P (runEndScripts env i token d node) := by
  grind [runEndScripts]

@[grind ←]
theorem newToken_keeps (vars : Variables) : Keeps P (newToken node vars) := by
  grind [newToken]

@[grind ←]
theorem takeToken_keeps : Keeps P (takeToken i tokenId) := by
  grind [takeToken]

theorem acquireToken_keeps (task : PendingServiceTask) (progress : Option MultiInstanceProgress)
    (elementVariable : Option String) :
    Keeps P (acquireToken task progress elementVariable) := by
  refine .ite (fun _ => .bind getInstance_keeps fun _ => ?_) fun _ =>
    .bind (takeToken_keeps hP) fun _ => .pure _
  split
  · exact .throw _
  · exact .pure _

@[grind ←]
theorem cloneToken_keeps (change : Token → Token) (forkId : Token → String) :
    Keeps P (cloneToken i tokenId change forkId) := by
  refine .bind getInstance_keeps fun _ => ?_
  split
  · exact .throw _
  · exact .bind (newUuid_keeps hP) fun _ =>
      .bind (modifyInstance_calm hP fun _ => ⟨rfl, rfl⟩) fun _ => .pure _

@[grind ←]
theorem eventToken_keeps (interrupting : Bool) : Keeps P (eventToken interrupting i tokenId) := by
  grind [eventToken]

@[grind ←]
theorem passThrow_keeps : Keeps P (passThrow env i token d node) := by
  grind [passThrow]

@[grind ←]
theorem continueBehind_keeps : Keeps P (continueBehind env d i node token) := by
  grind [continueBehind]

@[grind ←]
theorem registerJoinBarrierIfNeeded_keeps (count : Nat) :
    Keeps P (registerJoinBarrierIfNeeded i node count) := by
  grind [registerJoinBarrierIfNeeded]

@[grind ←]
theorem markEnded_keeps (state : InstanceState) : Keeps P (markEnded i state) := by
  grind [markEnded]

@[grind ←]
theorem failStep_keeps (error : EngineError) : Keeps P (failStep i error) := by
  unfold failStep
  grind

@[grind ←]
theorem takeUpCall_keeps (childId : Uuid) (call : OutstandingCall) (failed : Bool)
    (vars : Variables) : Keeps P (takeUpCall i childId call failed vars) := by
  refine .bind getInstance_keeps fun _ => .bind (modifyInstance_calm hP fun _ => ⟨rfl, rfl⟩)
    fun _ => .bind (findDefinition_keeps _) fun _ => .bind (ofResult_keeps _) fun _ => ?_
  split
  · exact .bind (modifyInstance_calm hP fun _ => ⟨rfl, rfl⟩) fun _ => .pure _
  · exact .pure _

@[grind ←]
theorem leaveCall_keeps (failed : Bool) : Keeps P (leaveCall env i d node failed token) := by
  grind [leaveCall]

end Calm

section Shrinks

variable (hP : Shrinks P)

include hP

/-! ## Programs that drop waits -/

@[grind ←]
theorem retainPending_keeps (kind : WaitKind) (q : Wait → Bool) : Keeps P (retainPending kind q) :=
  .modify fun e h => hP.retain e kind q h

@[grind ←]
theorem removePending_keeps (kind : WaitKind) (id : Uuid) : Keeps P (removePending kind id) :=
  .modify fun e h => hP.retain e kind _ h

@[grind ←]
theorem cancelBoundary_keeps (kind : WaitKind) (sort : BpmnElement → Bool) :
    Keeps P (cancelBoundary kind sort i node) := by
  grind [cancelBoundary]

@[grind ←]
theorem cancelBoundaryTimers_keeps : Keeps P (cancelBoundaryTimers i node) := by
  grind [cancelBoundaryTimers]

@[grind ←]
theorem cancelBoundaryWaits_keeps : Keeps P (cancelBoundaryWaits i node) := by
  grind [cancelBoundaryWaits]

@[grind ←]
theorem clearWaitStatesForToken_keeps : Keeps P (clearWaitStatesForToken i tokenId) := by
  grind [clearWaitStatesForToken]

@[grind ←]
theorem cancelScopeWaits_keeps : Keeps P (cancelScopeWaits i) := by
  grind [cancelScopeWaits]

@[grind ←]
theorem cancelPendingActivity_keeps : Keeps P (cancelPendingActivity i tokenId) := by
  grind [cancelPendingActivity]

@[grind ←]
theorem closeEventScope_keeps : Keeps P (closeEventScope i) := by
  unfold closeEventScope
  grind

@[grind ←]
theorem cancelTasksAt_keeps (kind : WaitKind) : Keeps P (cancelTasksAt i tokenId node kind) := by
  grind [cancelTasksAt]

@[grind ←]
theorem dropServiceTasksAt_keeps : Keeps P (dropServiceTasksAt i tokenId node) :=
  .modify fun e h => hP.forget e _ h

@[grind ←]
theorem resumeSignalCatch_keeps (c : PendingSignalCatch) (vars : Variables) :
    Keeps P (resumeSignalCatch env c vars) := by
  refine .bind definitionOf_keeps fun d => ?_
  have hgo : Keeps P (do
      let token ← eventToken (!isNonInterrupting d c.nodeId isBoundarySignal) c.instanceId c.tokenId
      updateInstance c.instanceId fun i => { i with state := runningUnlessParallel i.state }
      continueBehind env d c.instanceId c.nodeId { token with vars := token.vars.extend vars }) :=
    .bind (eventToken_keeps hP.toCalm _) fun _ =>
      .bind (updateInstance_calm hP.toCalm fun _ => ⟨rfl, rfl⟩) fun _ =>
        continueBehind_keeps hP.toCalm
  exact .ite (fun _ => .bind (clearWaitStatesForToken_keeps hP) fun _ =>
    .bind (cancelPendingActivity_keeps hP) fun _ => hgo) fun _ => hgo

@[grind ←]
theorem resumeMessageCatch_keeps (c : PendingMessageCatch) (vars : Variables) :
    Keeps P (resumeMessageCatch env c vars) := by
  refine .bind definitionOf_keeps fun d => .bind (eventToken_keeps hP.toCalm _) fun token => ?_
  have hgo : Keeps P (do
      updateInstance c.instanceId fun i => { i with state := runningUnlessParallel i.state }
      continueBehind env d c.instanceId c.nodeId { token with vars := token.vars.extend vars }) :=
    .bind (updateInstance_calm hP.toCalm fun _ => ⟨rfl, rfl⟩) fun _ =>
      continueBehind_keeps hP.toCalm
  exact .ite (fun _ => .bind (cancelTasksAt_keeps hP _) fun _ =>
    .bind (cancelTasksAt_keeps hP _) fun _ => hgo) fun _ => hgo

@[grind ←]
theorem resumeTimer_keeps (timer : PendingTimer) : Keeps P (resumeTimer env timer) := by
  grind [resumeTimer]

end Shrinks

section Loose

variable (hP : Loose P)

include hP

/-! ## Programs that write anything -/

@[grind ←]
theorem modifyInstance_keeps (f : ProcessInstance → ProcessInstance) :
    Keeps P (modifyInstance i f) :=
  .modify fun e h => hP.rewrite e i f h

@[grind ←]
theorem updateInstance_keeps (f : ProcessInstance → ProcessInstance) :
    Keeps P (updateInstance i f) := by
  grind [updateInstance]

@[grind ←]
theorem abortInterruptedInstance_keeps (fuel : Nat) (x : Uuid) :
    Keeps P (abortInterruptedInstance fuel x) := by
  induction fuel generalizing x with
  | zero => exact .pure _
  | succ fuel ih =>
    refine .bind findInstance_keeps fun _ => ?_
    split
    · exact .pure _
    · exact .ite (fun _ => .pure _) fun _ => .bind now_keeps fun _ =>
        .bind (modifyInstance_keeps hP _) fun _ =>
          .bind (cancelScopeWaits_keeps hP.toShrinks) fun _ => .forM fun y _ => ih y

@[grind ←]
theorem activateHandler_keeps (handler : EventSubProcess) (subscription : EventSubscription)
    (vars : Variables) {consumption : EventConsumption}
    (hretain : ∀ reschedule, Keeps P (retainConsumption consumption subscription reschedule)) :
    Keeps P (activateHandler env i handler subscription vars consumption) := by
  refine .bind now_keeps fun _ => .bind getInstance_keeps fun _ => .ite (fun _ => .pure _)
    fun _ => .ite (fun _ => .pure _) fun _ => .bind (newToken_keeps hP.toCalm _) fun _ =>
      .bind (modifyInstance_keeps hP _) fun _ => .ite (fun _ => ?_) fun _ => ?_
  · exact .bind (cancelScopeWaits_keeps hP.toShrinks) fun _ => .bind .get fun _ =>
      .bind (.forM fun y _ => abortInterruptedInstance_keeps hP _ y) fun _ => .pure _
  · exact .bind (hretain _) fun _ => .pure _

end Loose

section Stable

variable (hP : Stable P)

include hP

/-! ## Primitive programs -/

@[grind ←]
theorem insertInstance_keeps (x : ProcessInstance) : Keeps P (insertInstance x) :=
  .modify fun e h => hP.instances e _ h

@[grind ←]
theorem insertPending_keeps {p : Pending} (h : p.wait.kind ≠ .serviceTask) :
    Keeps P (insertPending p) :=
  .modify fun e he => hP.file e p h he

/-! ## Gateways -/

@[grind ←]
theorem forkTokens_keeps (targets : List String) (vars : Variables) :
    Keeps P (forkTokens targets vars) := by
  grind [forkTokens]

@[grind ←]
theorem forkOrContinue_keeps (targets : List String) : Keeps P (forkOrContinue token targets) := by
  unfold forkOrContinue
  grind

@[grind ←]
theorem executeParallelGateway_keeps : Keeps P (executeParallelGateway d node token) := by
  grind [executeParallelGateway]

@[grind ←]
theorem executeInclusiveGateway_keeps : Keeps P (executeInclusiveGateway env d node token) := by
  grind [executeInclusiveGateway]

@[grind ←]
theorem executeComplexGateway_keeps (default : Option String) :
    Keeps P (executeComplexGateway env d node token default) := by
  grind [executeComplexGateway]

@[grind ←]
theorem registerForked_keeps (forkId : String) (index : Nat) (tokens : List Token) :
    Keeps P (registerForked i forkId index tokens) := by
  induction tokens generalizing index with
  | nil => exact .pure _
  | cons t rest ih => exact .bind (updateInstance_keeps hP.loose _) fun _ => ih (index + 1)

@[grind ←]
theorem arriveAtJoin_keeps : Keeps P (arriveAtJoin env i node token) := by
  grind [arriveAtJoin]

@[grind ←]
theorem completeBranchToken_keeps : Keeps P (completeBranchToken i tokenId) := by
  grind [completeBranchToken]

/-! ## Event subprocesses -/

@[grind ←]
theorem openEventScope_keeps : Keeps P (openEventScope env i) := by
  refine .bind getInstance_keeps fun _ => .ite (fun _ => .pure _) fun _ =>
    .bind (getDefinition_keeps _) fun d => .ite (fun _ => .pure _) fun _ =>
      .bind now_keeps fun clock => ?_
  refine .bind_yields (Q := fun opened => ∀ o ∈ opened, ∀ r, o = some r → ∀ p, r.2 = some p →
      p.wait.kind ≠ .serviceTask) (.mapM fun _ _ => .bind (newUuid_keeps hP.calm) fun _ => .pure _)
    (.mapM fun _ _ => .after fun _ => .pure fun _ h _ hp => subscriptionFor_kind h hp)
    fun opened hopened => ?_
  refine .bind (modifyInstance_keeps hP.loose _) fun _ => .forM fun p hp => ?_
  obtain ⟨r, hr, hp⟩ := List.mem_filterMap.mp hp
  obtain ⟨o, ho, rfl⟩ := List.mem_filterMap.mp hr
  exact insertPending_keeps hP (hopened _ ho r rfl p hp)

@[grind ←]
theorem retainConsumption_keeps (consumption : EventConsumption)
    (subscription : EventSubscription) (reschedule : Option TimerReschedule) :
    Keeps P (retainConsumption consumption subscription reschedule) := by
  unfold retainConsumption
  grind

@[grind ←]
theorem activateEventSubscription_keeps (consumption : EventConsumption) (vars : Variables) :
    Keeps P (activateEventSubscription env i consumption vars) := by
  refine .bind getInstance_keeps fun _ => .ite (fun _ => ?_) fun _ => .ite (fun _ => .pure _)
    fun _ => ?_
  · refine .bind (.forM fun p hp => insertPending_keeps hP ?_) fun _ => .pure _
    cases consumption <;> cases Option.mem_toList.mp hp <;> exact nofun
  · split
    · exact .pure _
    · refine .bind (getDefinition_keeps _) fun _ => ?_
      split
      · exact .throw _
      · exact activateHandler_keeps hP.loose _ _ _ fun _ => retainConsumption_keeps hP _ _ _

@[grind ←]
theorem tryActivateEventCode_keeps (code : String) (escalation : Bool) (vars : Variables)
    (exclude : Option String) :
    Keeps P (tryActivateEventCode env i code escalation vars exclude) := by
  grind [tryActivateEventCode]

/-! ## Handlers -/

@[grind ←]
theorem setupBoundaryEvents_keeps : Keeps P (setupBoundaryEvents env d node i token) := by
  refine .forM fun entry _ => .ite (fun _ => ?_) fun _ => .pure _
  refine .bind (newUuid_keeps hP.calm) fun _ => .bind now_keeps fun _ => .forM fun p hp =>
    insertPending_keeps hP ?_
  have hwait := Option.mem_toList.mp hp
  unfold boundaryWait at hwait
  split at hwait <;> cases hwait <;> exact nofun

@[grind ←]
theorem handleStartEvent_keeps : Keeps P (handleStartEvent env i token d node) := by
  grind [handleStartEvent]

@[grind ←]
theorem handleEnd_keeps (action : NextAction) : Keeps P (handleEnd env i token d node action) := by
  grind [handleEnd]

@[grind ←]
theorem handleEscalationThrowEvent_keeps (code : String) :
    Keeps P (handleEscalationThrowEvent env i token d node code) := by
  unfold handleEscalationThrowEvent
  grind

@[grind ←]
theorem finishSignalThrow_keeps (isEnd : Bool) :
    Keeps P (finishSignalThrow env i token d node isEnd) := by
  grind [finishSignalThrow]

@[grind ←]
theorem finishCompensation_keeps (activityRef : Option String) (isEnd : Bool) :
    Keeps P (finishCompensation env i token d node activityRef isEnd) := by
  grind [finishCompensation]

@[grind ←]
theorem registerCompensationHandler_keeps (activity : String) :
    Keeps P (registerCompensationHandler i activity d) := by
  grind [registerCompensationHandler]

@[grind ←]
theorem handleUserTask_keeps (assignee : String) :
    Keeps P (handleUserTask env i token d node assignee) := by
  grind [handleUserTask]

@[grind ←]
theorem handleScriptTask_keeps (script : String) :
    Keeps P (handleScriptTask env i token d node script) := by
  grind [handleScriptTask]

@[grind ←]
theorem noteFork_keeps (action : NextAction) : Keeps P (noteFork i node action) := by
  unfold noteFork
  grind

@[grind ←]
theorem handleComplexGateway_keeps (default : Option String) :
    Keeps P (handleComplexGateway env i token d node default) := by
  grind [handleComplexGateway]

@[grind ←]
theorem eventAlternative_keeps (target : String) :
    Keeps P (eventAlternative env d i token target) := by
  grind [eventAlternative]

@[grind ←]
theorem handleEventBasedGateway_keeps : Keeps P (handleEventBasedGateway env i token d node) := by
  grind [handleEventBasedGateway]

@[grind ←]
theorem dispatch_keeps {element : BpmnElement} (h : ∀ topic mi, element ≠ .serviceTask topic mi) :
    Keeps P (dispatch env i token d node element) := by
  cases element with
  | serviceTask topic mi => exact absurd rfl (h topic mi)
  | _ =>
    grind [dispatch, handleEndEvent, handleTerminateEndEvent, handleErrorEndEvent,
      handleEscalationEndEvent, handleSendTask, handleParallelGateway, handleExclusiveGateway,
      handleInclusiveGateway, handleTimerCatchEvent, handleMessageCatchEvent,
      handleSignalCatchEvent, handleConditionalCatchEvent, handleSignalThrowEvent,
      handleCallActivity, handleSubProcessEndEvent, handleCompensationThrowEvent,
      handleLinkThrowEvent, handleBoundaryEvent]

/-! ## Acting on the outcome of a step -/

@[grind ←]
theorem failCallActivity_keeps (code : String) : Keeps P (failCallActivity i code) := by
  grind [failCallActivity]

@[grind ←]
theorem completeWithError_keeps (code : String) : Keeps P (completeWithError i code) := by
  grind [completeWithError]

@[grind ←]
theorem takeBusinessKey_keeps (vars : Variables) : Keeps P (takeBusinessKey vars) := by
  grind [takeBusinessKey]

@[grind ←]
theorem setUpInstance_keeps (key : Uuid) (start : String) (vars : Variables)
    (parent : Option Uuid) : Keeps P (setUpInstance env d key start vars parent i) := by
  refine .bind (takeBusinessKey_keeps hP _) fun _ => .bind (insertInstance_keeps hP _) fun _ =>
    .bind (newToken_keeps hP.calm _) fun _ => .bind (.forM fun listener _ => ?_) fun _ =>
      .bind (openEventScope_keeps hP) fun _ => .pure _
  refine .bind (newUuid_keeps hP.calm) fun _ => .bind now_keeps fun _ => .forM fun p hp =>
    insertPending_keeps hP ?_
  cases listener <;> cases Option.mem_toList.mp hp <;> exact nofun

@[grind ←]
theorem startInstance_keeps (key : Uuid) (vars : Variables) (parent predetermined : Option Uuid)
    (allow : Bool) : Keeps P (startInstance env key vars parent predetermined allow) := by
  grind [startInstance]

@[grind ←]
theorem startInstanceWithVariables_keeps (key : Uuid) (vars : Variables) :
    Keeps P (startInstanceWithVariables env key vars) := by
  grind [startInstanceWithVariables]

@[grind ←]
theorem startInstanceLatest_keeps (bpmnId : String) (vars : Variables) :
    Keeps P (startInstanceLatest env bpmnId vars) := by
  grind [startInstanceLatest]

@[grind ←]
theorem createTimerInstance_keeps (key : Uuid) (start businessKey : String) (vars : Variables) :
    Keeps P (createTimerInstance env key start businessKey vars) := by
  grind [createTimerInstance]

@[grind ←]
theorem triggerTimerStart_keeps (key : Uuid) (provided : Nat) :
    Keeps P (triggerTimerStart env key provided) := by
  grind [triggerTimerStart]

@[grind ←]
theorem startTimerInstance_keeps (key : Uuid) (vars : Variables) (iteration : Nat) :
    Keeps P (startTimerInstance env key vars iteration) :=
  .bind (getDefinition_keeps _) fun _ => .bind startNodeOfTimer_keeps fun _ =>
    .bind (getDefinition_keeps _) fun _ => .bind (takeBusinessKey_keeps hP _) fun _ =>
      createTimerInstance_keeps hP _ _ _ _

@[grind ←]
theorem spawnCallActivityForParent_keeps (key : Uuid) :
    Keeps P (spawnCallActivityForParent env key i token) := by
  have hstart (vars : Variables) (child : Uuid) : Keeps P (orElse
      (startInstance env key vars (some i) (some child) false) fun e => do
        modifyInstance i fun parent =>
          { parent with outstandingCalls := parent.outstandingCalls.erase child }
        throw e) :=
    .orElse (startInstance_keeps hP _ _ _ _ _) fun _ =>
      .bind (modifyInstance_keeps hP.loose _) fun _ => .throw _
  refine .bind (newUuid_keeps hP.calm) fun child => .bind definitionOf_keeps fun _ => ?_
  split
  · exact .bind (ofResult_keeps _) fun _ => .bind (modifyInstance_keeps hP.loose _) fun _ => hstart
      _ _
  · exact .bind (.pure _) fun _ => .bind (modifyInstance_keeps hP.loose _) fun _ => hstart _ _

@[grind ←]
theorem onWait_keeps (state : InstanceState) {p : Pending} (h : p.wait.kind ≠ .serviceTask) :
    Keeps P (onWait i state p queue) :=
  .bind (modifyInstance_keeps hP.loose _) fun _ => .bind (insertPending_keeps hP h) fun _ => .pure _

@[grind ←]
theorem onWaitForCallActivity_keeps (called : String) :
    Keeps P (onWaitForCallActivity env i called token queue) := by
  grind [onWaitForCallActivity]

@[grind ←]
theorem onCodeEnd_keeps (code : String) (escalation : Bool) {finish : Eng Unit}
    (h : Keeps P finish) : Keeps P (onCodeEnd env i tokenId code escalation finish queue) := by
  refine .bind (completeBranchToken_keeps hP) fun _ => .bind tokenEventContext_keeps fun _ =>
    .bind (removeToken_keeps hP.calm) fun _ => .bind (tryActivateEventCode_keeps hP _ _ _ _)
      fun _ => ?_
  split
  · exact .pure _
  · refine .bind allTokensCompleted_keeps fun _ => .ite (fun _ => ?_) fun _ => .pure _
    exact .bind h fun _ => .bind (closeEventScope_keeps hP.shrinks) fun _ => .pure _

@[grind ←]
theorem handleNextAction_keeps {action : NextAction}
    (h : ∀ task, action ≠ .waitForServiceTask task) :
    Keeps P (handleNextAction env i tokenId node queue action) := by
  cases action with
  | waitForServiceTask task => exact absurd rfl (h task)
  | waitForUser | waitForTimer | waitForMessage | waitForSignal | waitForCondition =>
    exact onWait_keeps hP _ nofun
  | waitForEventGroup =>
    refine .bind (modifyInstance_keeps hP.loose _) fun _ => .bind (.forM fun a _ =>
      insertPending_keeps hP ?_) fun _ => .pure _
    cases a <;> exact nofun
  | _ =>
    grind [handleNextAction, onContinueMultiple, onWaitForJoin, onComplete, onErrorEnd,
      onEscalationEnd, onTerminate, onMultiInstanceFork]

/-! ## Conditional events and the end of a batch -/

@[grind ←]
theorem releaseCaught_keeps (target : String) (vars : Variables) :
    Keeps P (releaseCaught i tokenId target vars) := by
  grind [releaseCaught]

@[grind ←]
theorem fireCatch_keeps (vars : Variables) (c : PendingConditionalCatch) :
    Keeps P (fireCatch env d i vars c) := by
  refine .bind (removePending_keeps hP.shrinks _ _) fun _ => ?_
  split
  · exact .bind (conditionalTarget_keeps _ _) fun _ => .bind (releaseCaught_keeps hP _ _) fun _ =>
      .pure _
  · exact .bind (clearWaitStatesForToken_keeps hP.shrinks) fun _ => .bind
      (cancelPendingActivity_keeps hP.shrinks)
      fun _ => .bind (conditionalTarget_keeps _ _) fun _ => .bind (releaseCaught_keeps hP _ _)
        fun _ => .pure _
  · exact .bind (conditionalTarget_keeps _ _) fun _ => .bind (cloneToken_keeps hP.calm _ _) fun _ =>
      .bind (insertPending_keeps hP nofun) fun _ => .pure _
  · exact .pure _

@[grind ←]
theorem evaluateCatch_keeps (vars : Variables) (c : PendingConditionalCatch) :
    Keeps P (evaluateCatch env d i vars c) := by
  grind [evaluateCatch]

@[grind ←]
theorem evaluateCatches_keeps (vars : Variables) (catches : List PendingConditionalCatch) :
    Keeps P (evaluateCatches env d i vars catches) := by
  induction catches with
  | nil => exact .pure _
  | cons c rest ih => exact .bind (evaluateCatch_keeps hP _ _) fun _ => .bind ih fun _ => .pure _

@[grind ←]
theorem fireConditionalCatches_keeps : Keeps P (fireConditionalCatches env i) := by
  grind [fireConditionalCatches]

@[grind ←]
theorem continueCaller_keeps : Keeps P (continueCaller i token node) := by
  grind [continueCaller]

@[grind ←]
theorem reportCallError_keeps (childId : Uuid) (code : String) :
    Keeps P (reportCallError i childId node code token) := by
  grind [reportCallError]

@[grind ←]
theorem resumeCaller_keeps (childId : Uuid) (vars : Variables) (errorCode : Option String) :
    Keeps P (resumeCaller env i childId vars errorCode) := by
  refine .bind getInstance_keeps fun _ => ?_
  split
  · exact .pure _
  · refine .bind (takeUpCall_keeps hP.calm _ _ _ _) fun _ => .bind (getDefinition_keeps _) fun _ =>
      .bind (leaveCall_keeps hP.calm _) fun _ => ?_
    split
    · exact .bind (resolveNextTarget_keeps _ _) fun _ => continueCaller_keeps hP
    · split
      · exact continueCaller_keeps hP
      · refine .bind eventHandlerForToken_keeps fun _ =>
          .bind (tryActivateEventCode_keeps hP _ _ _ _) fun _ => ?_
        split
        · exact .pure _
        · exact .pure _
        · exact reportCallError_keeps hP _ _

@[grind ←]
theorem resumeParentIfNeeded_keeps (errorCode : Option String) :
    Keeps P (resumeParentIfNeeded env i errorCode) := by
  grind [resumeParentIfNeeded]

@[grind ←]
theorem finishBatch_keeps : Keeps P (finishBatch env i) := by
  grind [finishBatch]

@[grind ←]
theorem exceedLimit_keeps : Keeps P (exceedLimit i) := by
  grind [exceedLimit]

/-! ## Timers, messages and signals -/

@[grind ←]
theorem startScopeListener_keeps (bpmnId : String) (vars : Variables) :
    Keeps P (startScopeListener env i bpmnId vars) := by
  grind [startScopeListener]

@[grind ←]
theorem deliverSignal_keeps (vars : Variables) (catchId : Uuid) :
    Keeps P (deliverSignal env vars catchId) := by
  grind [deliverSignal]

@[grind ←]
theorem deliverMessage_keeps (vars : Variables) (catchId : Uuid) :
    Keeps P (deliverMessage env vars catchId) := by
  unfold deliverMessage
  grind

@[grind ←]
theorem setBusinessKey_keeps (businessKey : Option String) :
    Keeps P (setBusinessKey i businessKey) := by
  unfold setBusinessKey
  grind

@[grind ←]
theorem processExpiredTimer_keeps (timer : PendingTimer) :
    Keeps P (processExpiredTimer env timer) := by
  grind [processExpiredTimer]

@[grind ←]
theorem rearmTimer_keeps (timer : PendingTimer) : Keeps P (rearmTimer env timer) := by
  unfold rearmTimer
  split
  · exact .pure _
  · refine .ite (fun _ => .bind now_keeps fun _ => ?_) fun _ => .pure _
    split
    · exact .pure _
    · exact .bind (newUuid_keeps hP.calm) fun _ => insertPending_keeps hP nofun

@[grind ←]
theorem rescheduleFailedTimer_keeps (timer : PendingTimer) (error : EngineError) :
    Keeps P (rescheduleFailedTimer timer error) :=
  .bind (.bind (newUuid_keeps hP.calm) fun _ => .bind now_keeps fun _ => modifyInstance_keeps
    hP.loose _)
    fun _ => .bind now_keeps fun _ => insertPending_keeps hP nofun

/-! ## User tasks and service tasks -/

@[grind ←]
theorem leaveTask_keeps (vars : Variables) {scripts : Token → ProcessDefinition → Eng Token}
    (h : ∀ t d, Keeps P (scripts t d)) : Keeps P (leaveTask env i tokenId node vars scripts) :=
  .bind (takeToken_keeps hP.calm) fun _ => .bind (cancelBoundaryTimers_keeps hP.shrinks) fun _ =>
    .bind (cancelBoundaryWaits_keeps hP.shrinks) fun _ => .bind (updateInstance_keeps hP.loose _)
      fun _ =>
      .bind definitionOf_keeps fun _ => .bind (h _ _) fun _ =>
        .bind (registerCompensationHandler_keeps hP _) fun _ =>
          .bind (resolveNextTarget_keeps _ _) fun _ => .bind (setCurrentNode_keeps hP.calm) fun _ =>
            .pure _

@[grind ←]
theorem userTaskScripts_keeps (taskId : Uuid) (task : PendingUserTask) :
    Keeps P (userTaskScripts env taskId task token d) := by
  grind [userTaskScripts]

@[grind ←]
theorem completeUserTask_keeps (taskId : Uuid) (additional : Variables) :
    Keeps P (completeUserTask env taskId additional) := by
  rw [completeUserTask_eq]
  refine .bind .get fun _ => ?_
  grind

@[grind ←]
theorem modifyServiceTask_keeps (taskId : Uuid) {f : PendingServiceTask → PendingServiceTask}
    (h : ∀ t, (f t).id = t.id ∧ (f t).topic = t.topic) : Keeps P (modifyServiceTask taskId f) :=
  .modify fun e he => hP.rewrite e taskId f h he

@[grind ←]
theorem lockCandidates_keeps (workerId : String) (topics : List (String × Int))
    (audience : FetchAudience) (room : Nat) (candidates : List (String × Uuid)) :
    Keeps P (lockCandidates workerId topics audience room candidates) := by
  induction candidates generalizing room with
  | nil => cases room <;> exact .pure _
  | cons candidate rest ih =>
    cases room with
    | zero => exact .pure _
    | succ room =>
      refine fun e he => ?_
      have hread : exec (get : Eng Engine) e = (.ok e, e) := rfl
      rw [after, lockCandidates, exec_bind_ok hread]
      split
      case h_1 hnone =>
        rw [exec_bind_ok (exec_modify _ e)]
        exact ih (room + 1) _ (hP.unlist e _ _ hnone he)
      case h_2 =>
        refine Keeps.ite (fun _ => ?_) (fun _ => ih (room + 1)) e he
        exact .bind (modifyServiceTask_keeps hP _ fun _ => ⟨rfl, rfl⟩) fun _ =>
          .bind (ih room) fun _ => .pure _

@[grind ←]
theorem fetchAndLock_keeps (workerId : String) (maxTasks : Nat) (topics : List (String × Int))
    (audience : FetchAudience) : Keeps P (fetchAndLock env workerId maxTasks topics audience) := by
  grind [fetchAndLock]

@[grind ←]
theorem fetchAndLockInProcess_keeps (maxTasks : Nat) :
    Keeps P (fetchAndLockInProcess env maxTasks) := by
  grind [fetchAndLockInProcess]

@[grind ←]
theorem failServiceTask_keeps (taskId : Uuid) (workerId : String) (retries : Option Int)
    (errorMessage errorDetails : Option String) (retryAfter : Nat) :
    Keeps P (failServiceTask taskId workerId retries errorMessage errorDetails retryAfter) := by
  refine .bind (getServiceTask_keeps _) fun _ => .bind (verifyLockOwnership_keeps _ _ _) fun _ =>
    .bind now_keeps fun _ => .bind (modifyServiceTask_keeps hP _ fun _ => ⟨rfl, rfl⟩) fun _ =>
      .ite (fun _ => ?_) fun _ => .pure _
  exact .bind (newUuid_keeps hP.calm) fun _ => modifyInstance_keeps hP.loose _

@[grind ←]
theorem extendLock_keeps (taskId : Uuid) (workerId : String) (additional : Int) :
    Keeps P (extendLock taskId workerId additional) := by
  grind [extendLock]

@[grind ←]
theorem retryIncident_keeps (taskId : Uuid) (retries : Option Int) :
    Keeps P (retryIncident taskId retries) := by
  grind [retryIncident]

@[grind ←]
theorem resolveIncident_keeps (taskId : Uuid) (vars : Variables) :
    Keeps P (resolveIncident env taskId vars) := by
  grind [resolveIncident_eq]

@[grind ←]
theorem catchAtBoundary_keeps (task : PendingServiceTask) (boundary : String) (vars : Variables) :
    Keeps P (catchAtBoundary env task boundary vars) := by
  grind [catchAtBoundary]

@[grind ←]
theorem releaseInProcessLock_keeps (taskId : Uuid) : Keeps P (releaseInProcessLock taskId) := by
  grind [releaseInProcessLock]

@[grind ←]
theorem startHandlerInvocation_keeps (task : PendingServiceTask) (permitted : Bool) :
    Keeps P (startHandlerInvocation task permitted) :=
  .bind .get fun _ => .ite (fun _ => .modify fun e h => hP.inProcessInflight e _ h) fun _ =>
    releaseInProcessLock_keeps hP _

@[grind ←]
theorem endHandlerInvocation_keeps (taskId : Uuid) : Keeps P (endHandlerInvocation taskId) :=
  .modify fun e h => hP.inProcessInflight e _ h

/-! ## Operations on definitions and instances -/

@[grind ←]
theorem deployDefinition_keeps : Keeps P (deployDefinition d) :=
  .bind (newUuid_keeps hP.calm) fun _ => .modify fun e h => hP.definitions e _ h

@[grind ←]
theorem deleteInstance_keeps : Keeps P (deleteInstance i) :=
  .bind getInstance_keeps fun _ => .bind (.modify fun e h => hP.instances e _ h) fun _ =>
    cancelScopeWaits_keeps hP.shrinks

@[grind ←]
theorem deleteDefinition_keeps (key : Uuid) (cascade : Bool) :
    Keeps P (deleteDefinition env key cascade) := by
  have hgo (associated : List Uuid) : Keeps P (do
      associated.forM deleteInstance
      modify fun e : Engine => { e with definitions := e.definitions.erase key }) :=
    .bind (.forM fun _ _ => deleteInstance_keeps hP) fun _ =>
      .modify fun e h => hP.definitions e _ h
  exact .bind (getDefinition_keeps _) fun _ => .bind .get fun _ =>
    .ite (fun _ => .bind (.throw _) fun _ => hgo _) fun _ => hgo _

@[grind ←]
theorem updateInstanceVariables_keeps (updates : Variables) :
    Keeps P (updateInstanceVariables env i updates) := by
  grind [updateInstanceVariables]

@[grind ←]
theorem suspendInstance_keeps : Keeps P (suspendInstance i) := by
  grind [suspendInstance]

@[grind ←]
theorem resumeInstance_keeps : Keeps P (resumeInstance i) := by
  grind [resumeInstance]

@[grind ←]
theorem moveToken_keeps (target : String) (vars : Variables) (cancelCurrent : Bool) :
    Keeps P (moveToken i target vars cancelCurrent) := by
  grind [moveToken]

@[grind ←]
theorem migrateInstance_keeps (target : Uuid) (mapping : Map String String) :
    Keeps P (migrateInstance env i target mapping) :=
  .bind (checkMigration_keeps _ _) fun _ => .bind .get fun _ => .bind
    (modifyInstance_keeps hP.loose _)
    fun _ => .modify fun e h => hP.migrate e _ _ _ h

@[grind ←]
theorem resolveInstanceIncident_keeps (incidentId : Uuid) (resolvedBy : Option String) :
    Keeps P (resolveInstanceIncident i incidentId resolvedBy) := by
  grind [resolveInstanceIncident]

@[grind ←]
theorem registerTaskHandler_keeps (topic : String) : Keeps P (registerTaskHandler topic) :=
  .modify fun e h => by
    split
    · exact h
    · exact hP.taskHandlers e _ h

@[grind ←]
theorem unregisterTaskHandler_keeps (topic : String) : Keeps P (unregisterTaskHandler topic) :=
  .modify fun e h => hP.taskHandlers e _ h

end Stable

end Eng

end BpmnEngine
