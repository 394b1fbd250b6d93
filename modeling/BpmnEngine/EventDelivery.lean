import BpmnEngine.ServiceTasks

/-!
# Timers, messages and signals

Each of the three collects its waits first and then serves them one after another; a
batch may run between two of them, and it may remove a wait that was collected. Only
the timers look at the suspension of an instance before they take a wait out of its
table. The functions here serve one wait each, up to the batch that follows.
-/
namespace BpmnEngine

namespace Eng

variable (env : Env)

def runActivation (instanceId : Uuid) : Option ScopeActivation → Next
  | some (.interrupting token) | some (.parallel token) => .run instanceId [token]
  | none => .done

/-- A scope listener starts a loosely coupled instance of the definition it names. -/
def startScopeListener (instanceId : Uuid) (bpmnId : String) (vars : Variables) : Eng Next := do
  match ← findLatestByBpmnId env bpmnId with
  | none => throw (.invalidDefinition s!"Event Subprocess '{bpmnId}' not found")
  | some d =>
    let i ← getInstance instanceId
    let (childId, token) ← startInstance env d.key (i.vars.extend vars) (some instanceId) none false
    return .run childId [token]

/-- The token that an event moves: the waiting token itself when the event ends its activity, a
copy of it otherwise. -/
def eventToken (interrupting : Bool) (instanceId tokenId : Uuid) : Eng Token :=
  if interrupting then takeToken instanceId tokenId
  else cloneToken instanceId tokenId (fun t => t) fun t => t.currentNode

def continueBehind (d : ProcessDefinition) (instanceId : Uuid) (node : String) (token : Token) :
    Eng Next := do
  let next ← resolveNextTarget env d node token.vars
  setCurrentNode instanceId next
  return .run instanceId [{ token with currentNode := next }]

def isNonInterrupting (d : ProcessDefinition) (node : String) (sort : BpmnElement → Bool) : Bool :=
  match d.getNode node with
  | some element => sort element && !element.cancelsActivity
  | none => false

/-- Drops the user and service tasks that a token has at its own node. -/
def cancelTasksAt (instanceId tokenId : Uuid) (node : String) (kind : WaitKind) : Eng Unit :=
  retainPending kind fun w =>
    !(w.instanceId == instanceId && w.nodeId == node && w.tokenId == tokenId)

/-! ## Signals -/

/-- The catches a broadcast reaches, as they are when it begins. -/
def signalCatches (signalName : String) : Eng (List Uuid) := do
  let e ← get
  return ((env.visit e.nextUuid e.pendingSignalCatches.entries).filter fun c =>
    c.signalName == signalName).map (·.id)

def resumeSignalCatch (c : PendingSignalCatch) (vars : Variables) : Eng Next := do
  let d ← definitionOf c.instanceId
  let interrupting := !isNonInterrupting d c.nodeId isBoundarySignal
  if interrupting then
    clearWaitStatesForToken c.instanceId c.tokenId
    cancelPendingActivity c.instanceId c.tokenId
  let token ← eventToken interrupting c.instanceId c.tokenId
  updateInstance c.instanceId fun i => { i with state := runningUnlessParallel i.state }
  continueBehind env d c.instanceId c.nodeId { token with vars := token.vars.extend vars }

/-- Serves one catch of a broadcast. It may be gone already. -/
def deliverSignal (vars : Variables) (catchId : Uuid) : Eng Next := do
  match (← get).pendingSignalCatches.find? catchId with
  | none => return .done
  | some c =>
    removePending .signal catchId
    if ← isEventSubscription c.instanceId c.id then
      return runActivation c.instanceId
        (← activateEventSubscription env c.instanceId (.signal c) vars)
    else
      resumeSignalCatch env c vars

def signalStarts (signalName : String) : Eng (List Uuid) := do
  return ((← allDefinitions env).filter fun d =>
    match d.startEvent with
    | some (_, .signalStartEvent name) => name == signalName
    | _ => false).map (·.key)

/-! ## Messages -/

/-- The catches a message reaches, as they are when its correlation begins. -/
def messageCatches (messageName : String) (businessKey : Option String) : Eng (List Uuid) := do
  let e ← get
  return ((env.visit e.nextUuid e.pendingMessageCatches.entries).filter fun c =>
    c.messageName == messageName && match e.instances.find? c.instanceId with
      | some i => businessKey.all fun key => i.businessKey == key
      | none => false).map (·.id)

def resumeMessageCatch (c : PendingMessageCatch) (vars : Variables) : Eng Next := do
  let d ← definitionOf c.instanceId
  let interrupting := !isNonInterrupting d c.nodeId isBoundaryMessage
  let token ← eventToken interrupting c.instanceId c.tokenId
  if interrupting then
    cancelTasksAt c.instanceId c.tokenId token.currentNode .userTask
    cancelTasksAt c.instanceId c.tokenId token.currentNode .serviceTask
  updateInstance c.instanceId fun i => { i with state := runningUnlessParallel i.state }
  continueBehind env d c.instanceId c.nodeId { token with vars := token.vars.extend vars }

/-- Serves one catch of a correlation. One that is gone already fails the correlation; all other
event waits of its token go in any case. -/
def deliverMessage (vars : Variables) (catchId : Uuid) : Eng Next := do
  match (← get).pendingMessageCatches.find? catchId with
  | none => throw (.invalidDefinition s!"Message catch {catchId} disappeared")
  | some c =>
    removePending .message catchId
    clearWaitStatesForToken c.instanceId c.tokenId
    if ← isEventSubscription c.instanceId c.id then
      return runActivation c.instanceId
        (← activateEventSubscription env c.instanceId (.message c) vars)
    else if c.tokenId = 0 then
      startScopeListener env c.instanceId c.nodeId vars
    else
      resumeMessageCatch env c vars

def messageStarts (messageName : String) : Eng (List Uuid) := do
  return ((← allDefinitions env).filter fun d =>
    match d.startEvent with
    | some (_, .messageStartEvent name) => name == messageName
    | _ => false).map (·.key)

def setBusinessKey (instanceId : Uuid) (businessKey : Option String) : Eng Unit :=
  match businessKey with
  | some key => modifyInstance instanceId fun i => { i with businessKey := key }
  | none => pure ()

/-! ## Timers -/

/-- The timers that are due and whose instance is not suspended. -/
def dueTimers : Eng (List Uuid) := do
  let e ← get
  let ids := (e.timerDueIndex.filter fun x => decide (x.1 ≤ e.clock)).map Prod.snd
  return ids.filter fun id =>
    match e.pendingTimers.find? id with
    | none => false
    | some timer => decide (timer.expiresAt ≤ e.clock) &&
        !((e.instances.find? timer.instanceId).any fun i => i.state.isSuspended)

/-- Removes service tasks of a token at its node from the table but not from the topic index. -/
def dropServiceTasksAt (instanceId tokenId : Uuid) (node : String) : Eng Unit :=
  modify fun e => { e with pendingServiceTasks := e.pendingServiceTasks.retain fun t =>
    !(t.instanceId == instanceId && t.nodeId == node && t.tokenId == tokenId) }

def resumeTimer (timer : PendingTimer) : Eng (Next × Bool) := do
  let instanceId := timer.instanceId
  let d ← definitionOf instanceId
  let interrupting := !isNonInterrupting d timer.nodeId isBoundaryTimer
  let token ← eventToken interrupting instanceId timer.tokenId
  if interrupting then
    cancelTasksAt instanceId timer.tokenId token.currentNode .userTask
    dropServiceTasksAt instanceId timer.tokenId token.currentNode
  return (← continueBehind env d instanceId timer.nodeId token, true)

/-- Serves a timer that was taken out of its table. The flag says whether a recurring timer is
armed again after the batch that follows. -/
def processExpiredTimer (timer : PendingTimer) : Eng (Next × Bool) := do
  let instanceId := timer.instanceId
  clearWaitStatesForToken instanceId timer.tokenId
  if ← isEventSubscription instanceId timer.id then
    let activation ← activateEventSubscription env instanceId (.timer timer) ∅
    return (runActivation instanceId activation, false)
  updateInstance instanceId fun i => { i with state := .running }
  if timer.tokenId = 0 then
    return (← startScopeListener env instanceId timer.nodeId ∅, false)
  resumeTimer env timer

/-- Arms a recurring timer again under a new identifier, for the token it had. -/
def rearmTimer (timer : PendingTimer) : Eng Unit := do
  match timer.timerDef with
  | none => pure ()
  | some definition =>
    if definition.isRecurring &&
        !(timer.remainingRepetitions == some 0 || timer.remainingRepetitions == some 1) then
      match definition.nextExpiry env (← now) with
      | none => pure ()
      | some expiresAt =>
        insertPending (.timer ⟨← newUuid, timer.instanceId, timer.nodeId, expiresAt,
          timer.tokenId, some definition, timer.remainingRepetitions.map (· - 1)⟩)

def failedTimerRetryDelay : Time := 2000 * 1000000

def reportFailedTimer (timer : PendingTimer) (error : EngineError) : Eng Unit := do
  let id ← newUuid
  let clock ← now
  let text := error.text
  modifyInstance timer.instanceId fun i =>
    i.pushOrTouchIncident clock id .timer (some timer.nodeId) none
      s!"Timer processing failed: {text}" none

/-- A timer whose processing failed leaves an incident and is tried again later. -/
def rescheduleFailedTimer (timer : PendingTimer) (error : EngineError) : Eng Unit := do
  reportFailedTimer timer error
  insertPending (.timer { timer with expiresAt := (← now) + failedTimerRetryDelay })

end Eng

end BpmnEngine
