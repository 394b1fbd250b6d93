import BpmnEngine.Executor

/-!
# User tasks and service tasks

A user task is completed by anyone who knows its identifier. A service task is fetched
and locked by a worker first. Completing one consists of sections that each hold a lock
of their own: the task is claimed, the progress of a multi-instance activity is read,
the token is taken or copied, and the result is written back. The sections are separate
functions here, so that they can also be interleaved.
-/
namespace BpmnEngine

open Program

namespace Eng

variable (env : Env) {taskId : Uuid} {vars : Variables}

/-! ## User tasks -/

def completeUserTask (taskId : Uuid) (additional : Variables) : Eng Next := do
  match (← get).pendingUserTasks.find? taskId with
  | none => throw (.taskNotPending taskId "not found in pending tasks")
  | some pending =>
    removePending .userTask taskId
    let instanceId := pending.instanceId
    if ((← findInstance instanceId).map fun i => i.state.isSuspended) = some true then
      insertPending (.userTask pending)
      throw (.instanceSuspended instanceId)
    let token ← takeToken instanceId pending.tokenId
    let token := { token with vars := token.vars.extend additional }
    cancelBoundaryTimers instanceId pending.nodeId
    cancelBoundaryWaits instanceId pending.nodeId
    updateInstance instanceId fun i =>
      { i with state := runningUnlessParallel i.state, currentNode := pending.nodeId }
    let d ← definitionOf instanceId
    let token ← orElse (runEndScripts env instanceId token d pending.nodeId) fun e => do
      modifyInstance instanceId fun i =>
        { i with state := .waitingOnUserTask taskId, tokens := i.tokens.insert token }
      insertPending (.userTask pending)
      throw e
    registerCompensationHandler instanceId pending.nodeId d
    let next ← resolveNextTarget env d pending.nodeId token.vars
    setCurrentNode instanceId next
    return .run instanceId [{ token with currentNode := next }]

/-! ## Fetching and locking -/

/-- Who is allowed to lock a topic in a fetch. -/
inductive FetchAudience where
  | externalWorker
  | inProcessDispatcher
  deriving DecidableEq, Repr

def inProcessWorkerId : String := "bpmninja-in-process"

def inProcessLockSeconds : Int := 60

/-- A requested lock duration in seconds, clamped to at most an hour. -/
def lockTimeDelta (seconds : Int) : Time := (max 1 (min seconds 3600)) * 1000000000

/-- The duration requested for a topic; the last of several wins. -/
def lockSeconds (topics : List (String × Int)) (topic : String) : Int :=
  ((topics.reverse.find? fun t => t.1 == topic).map Prod.snd).getD 30

/-- The indexed tasks of the requested topics, each once, under the first topic they are filed. -/
def candidateIds (visit : List Uuid → List Uuid) (index : List (String × Uuid)) :
    List String → List Uuid → List (String × Uuid)
  | [], _ => []
  | topic :: rest, seen =>
    let ids := visit ((index.filter fun x => x.1 == topic).map Prod.snd)
    let new := ids.filter fun id => !seen.contains id
    new.map (fun id => (topic, id)) ++ candidateIds visit index rest (seen ++ new)

/-- Whether a task may be handed to a worker of the audience. -/
def claimable (e : Engine) (audience : FetchAudience) (task : PendingServiceTask) : Bool :=
  decide (0 < task.retries) && !e.inProcessInflight.contains task.id &&
    (match audience with
      | .externalWorker => !e.taskHandlers.contains task.topic
      | .inProcessDispatcher => e.taskHandlers.contains task.topic) &&
    task.lockExpiration.all fun expiration => decide (expiration ≤ e.clock)

def lockedBy (task : PendingServiceTask) (workerId : String) (expiration : Time) :
    PendingServiceTask :=
  { task with workerId := some workerId, lockExpiration := some expiration }

def modifyServiceTask (id : Uuid) (f : PendingServiceTask → PendingServiceTask) : Eng Unit :=
  modify fun e => { e with pendingServiceTasks := e.pendingServiceTasks.modify id f }

/-- Visits the candidates until enough tasks are locked. An indexed task that is no longer pending
leaves the index. -/
def lockCandidates (workerId : String) (topics : List (String × Int)) (audience : FetchAudience) :
    Nat → List (String × Uuid) → Eng (List PendingServiceTask)
  | 0, _ => return []
  | _ + 1, [] => return []
  | room + 1, (topic, id) :: rest => do
    let e ← get
    match e.pendingServiceTasks.find? id with
    | none =>
      modify fun e => { e with serviceTaskTopicIndex :=
        e.serviceTaskTopicIndex.filter fun x => !decide (x = (topic, id)) }
      lockCandidates workerId topics audience (room + 1) rest
    | some task =>
      if claimable e audience task then
        let expiration := e.clock + lockTimeDelta (lockSeconds topics topic)
        modifyServiceTask id fun t => lockedBy t workerId expiration
        return lockedBy task workerId expiration ::
          (← lockCandidates workerId topics audience room rest)
      else
        lockCandidates workerId topics audience (room + 1) rest

def fetchAndLock (workerId : String) (maxTasks : Nat) (topics : List (String × Int))
    (audience : FetchAudience) : Eng (List PendingServiceTask) := do
  let e ← get
  lockCandidates workerId topics audience maxTasks
    (candidateIds (env.visit e.nextUuid) e.serviceTaskTopicIndex (topics.map Prod.fst) [])

def fetchAndLockInProcess (maxTasks : Nat) : Eng (List PendingServiceTask) := do
  let e ← get
  let topics := (env.visit e.nextUuid e.taskHandlers).map fun topic => (topic, inProcessLockSeconds)
  if topics.isEmpty then return []
  fetchAndLock env inProcessWorkerId maxTasks topics .inProcessDispatcher

/-! ## The sections of a completion -/

/-- Removes a task that the worker holds; the owner is checked under the same lock. -/
def claimTask (taskId : Uuid) (workerId : String) : Eng PendingServiceTask := do
  match (← get).pendingServiceTasks.find? taskId with
  | none => throw (.serviceTaskNotFound taskId)
  | some task =>
    match task.workerId with
    | none => throw (.serviceTaskNotLocked taskId)
    | some owner =>
      if owner ≠ workerId then throw (.serviceTaskLocked taskId owner)
      removePending .serviceTask taskId
      return task

/-- A task of a suspended instance is put back. -/
def rejectSuspended (task : PendingServiceTask) : Eng Unit := do
  if ((← findInstance task.instanceId).map fun i => i.state.isSuspended) = some true then
    insertPending (.serviceTask task)
    throw (.instanceSuspended task.instanceId)

def readProgress (instanceId : Uuid) (node : String) : Eng (Option MultiInstanceProgress) := do
  let i ← getInstance instanceId
  return i.multiInstanceState.get? node

def isLastItem (progress : Option MultiInstanceProgress) : Bool :=
  progress.any fun p => decide (p.total ≤ p.completed + 1)

def miDefinition (d : ProcessDefinition) (node : String) : Option MultiInstanceDef :=
  match d.getNode node with
  | some (.serviceTask _ mi) => mi
  | _ => none

def mergeItem (elementVariable : Option String) (snapshot : Variables) (token : Token) : Token :=
  let vars := match snapshot.get? "loopCounter" with
    | some counter => token.vars.set "loopCounter" counter
    | none => token.vars
  let vars := match elementVariable with
    | some name =>
      match snapshot.get? name with
      | some value => vars.set name value
      | none => vars
    | none => vars
  { token with vars := vars }

/-- Takes the token of a task, or copies it when further items share it. -/
def acquireToken (task : PendingServiceTask) (progress : Option MultiInstanceProgress)
    (elementVariable : Option String) : Eng Token := do
  if progress.isSome && !isLastItem progress then
    let i ← getInstance task.instanceId
    match i.tokens.find? task.tokenId with
    | none => throw (tokenNotFound task.tokenId)
    | some token => return mergeItem elementVariable task.variablesSnapshot token
  else
    let token ← takeToken task.instanceId task.tokenId
    return if progress.isSome then mergeItem elementVariable task.variablesSnapshot token else token

/-- Puts task and token back after a completion that failed. -/
def restoreMappedServiceTask (task : PendingServiceTask) (token : Token)
    (previous : Option ProcessInstance) : Eng Unit := do
  modifyInstance task.instanceId fun i =>
    { i with
      vars := (previous.map (·.vars)).getD i.vars
      state := (previous.map (·.state)).getD i.state
      tokens := i.tokens.insert token }
  insertPending (.serviceTask task)

/-- Runs a part of a completion; a failure puts task and token back. -/
def restoring {α : Type} (task : PendingServiceTask) (token : Token)
    (previous : Option ProcessInstance) (m : Eng α) : Eng α :=
  orElse m fun e => do
    restoreMappedServiceTask task token previous
    throw e

def publishOutputs (d : ProcessDefinition) (task : PendingServiceTask)
    (progress : Option MultiInstanceProgress) (vars : Variables) (token : Token) :
    EngineResult Token :=
  if progress.isSome then
    DataMappings.publishMultiInstanceOutputs token d task.nodeId task.variablesSnapshot vars
  else .ok { token with vars := token.vars.extend vars }

/-- Writes the shared token back and counts an item. -/
def countItem (task : PendingServiceTask) (token : Token) (waitingFor : Uuid) : Eng Unit :=
  updateInstance task.instanceId fun i =>
    { i with
      vars := token.processVariables
      tokens := i.tokens.insert token
      multiInstanceState := match i.multiInstanceState.get? task.nodeId with
        | some p => i.multiInstanceState.set task.nodeId { p with completed := p.completed + 1 }
        | none => i.multiInstanceState
      state := .waitingOnServiceTask waitingFor }

def nextItemTask (d : ProcessDefinition) (task : PendingServiceTask) (token : Token)
    (progress : MultiInstanceProgress) (elementVariable : Option String)
    (previous : Option ProcessInstance) : Eng PendingServiceTask := do
  let completed := progress.completed + 1
  let vars ← ofResult (itemVariables d task.nodeId elementVariable token.vars (completed + 1)
    (progress.items[completed]?).join)
  return ⟨← newUuid, task.instanceId, d.key, task.nodeId, task.topic, token.id,
    previous.bind (·.businessKey?), vars, ← now, none, none, 3, none, none⟩

/-- Another open task of the same activation, in the order the table is visited. -/
def nextOpenTask (task : PendingServiceTask) : Eng (Option Uuid) := do
  let e ← get
  return ((env.visit e.nextUuid e.pendingServiceTasks.entries).find? fun t =>
    t.instanceId == task.instanceId && t.nodeId == task.nodeId && t.tokenId == task.tokenId &&
      !(t.id == task.id)).map PendingServiceTask.id

/-- The activity is left: its boundary events are cancelled and the token goes on. -/
def leaveServiceTask (d : ProcessDefinition) (task : PendingServiceTask) (isMulti : Bool)
    (rollback token : Token) (previous : Option ProcessInstance) : Eng Next := do
  cancelBoundaryTimers task.instanceId task.nodeId
  cancelBoundaryWaits task.instanceId task.nodeId
  updateInstance task.instanceId fun i =>
    { i with
      multiInstanceState := if isMulti then i.multiInstanceState.erase task.nodeId
        else i.multiInstanceState
      state := runningUnlessParallel i.state
      vars := token.processVariables }
  let token ← restoring task rollback previous
    (runEndScripts env task.instanceId token d task.nodeId)
  let next ← resolveNextTarget env d task.nodeId token.vars
  setCurrentNode task.instanceId next
  return .run task.instanceId [{ token with currentNode := next }]

/-- Writes back the result of an item, or leaves the activity with the last one. -/
def settleItem (d : ProcessDefinition) (task : PendingServiceTask)
    (progress : Option MultiInstanceProgress) (elementVariable : Option String)
    (sequential : Bool) (rollback token : Token) (previous : Option ProcessInstance) :
    Eng Next := do
  match progress, isLastItem progress with
  | some p, false =>
    if sequential then
      let next ← restoring task rollback previous
        (nextItemTask d task token p elementVariable previous)
      countItem task token next.id
      insertPending (.serviceTask next)
      return .done
    else
      let next ← nextOpenTask env task
      countItem task token (next.getD task.id)
      return .done
  | _, _ => leaveServiceTask env d task progress.isSome rollback token previous

def completeServiceTask (taskId : Uuid) (workerId : String) (vars : Variables) : Eng Next := do
  let task ← claimTask taskId workerId
  rejectSuspended task
  let previous ← findInstance task.instanceId
  let d ← definitionOf task.instanceId
  let progress ← readProgress task.instanceId task.nodeId
  let mi := miDefinition d task.nodeId
  let sequential := progress.isSome && mi.any (·.isSequential)
  let elementVariable := mi.bind (·.elementVariable)
  let rollback ← acquireToken task progress elementVariable
  let token ← restoring task rollback previous
    (ofResult (publishOutputs d task progress vars rollback))
  settleItem env d task progress elementVariable sequential rollback token previous

/-! ## Failing, extending and retrying -/

def verifyLockOwnership (taskId : Uuid) (owner : Option String) (workerId : String) : Eng Unit :=
  match owner with
  | none => throw (.serviceTaskNotLocked taskId)
  | some owner => if owner ≠ workerId then throw (.serviceTaskLocked taskId owner) else pure ()

def getServiceTask (taskId : Uuid) : Eng PendingServiceTask := do
  match (← get).pendingServiceTasks.find? taskId with
  | none => throw (.serviceTaskNotFound taskId)
  | some task => return task

/-- The instant before which a failed task stays hidden; a day at most, in whole milliseconds. -/
def retryLockExpiration (now : Time) (retryAfter : Nat) : Option Time :=
  if retryAfter = 0 then none
  else some (now + ((min retryAfter (24 * 60 * 60 * 1000000000)) / 1000000 * 1000000 : Nat))

/-- A worker reports a failure. Without retries left the task becomes an incident. -/
def failServiceTask (taskId : Uuid) (workerId : String) (retries : Option Int)
    (errorMessage errorDetails : Option String) (retryAfter : Nat) : Eng Unit := do
  let task ← getServiceTask taskId
  verifyLockOwnership taskId task.workerId workerId
  let clock ← now
  let newRetries := retries.getD (task.retries - 1)
  modifyServiceTask taskId fun t =>
    { t with
      retries := newRetries
      errorMessage := errorMessage
      errorDetails := errorDetails
      workerId := none
      lockExpiration := if newRetries ≤ 0 then none else retryLockExpiration clock retryAfter }
  if newRetries ≤ 0 then
    let id ← newUuid
    modifyInstance task.instanceId fun i =>
      i.pushOrTouchIncident clock id .serviceTask (some task.nodeId) (some taskId)
        (errorMessage.getD "Unknown error") errorDetails

def extendLock (taskId : Uuid) (workerId : String) (additional : Int) : Eng Unit := do
  let task ← getServiceTask taskId
  verifyLockOwnership taskId task.workerId workerId
  let clock ← now
  modifyServiceTask taskId fun t =>
    { t with lockExpiration := some (clock + lockTimeDelta additional) }

def notAnIncident : EngineError := .invalidDefinition "Task is not an incident (retries > 0)"

def retryIncident (taskId : Uuid) (newRetries : Option Int) : Eng Unit := do
  let task ← getServiceTask taskId
  if 0 < task.retries then throw notAnIncident
  modifyServiceTask taskId fun t =>
    { t with
      retries := newRetries.getD 3
      errorMessage := none
      errorDetails := none
      workerId := none
      lockExpiration := none }

/-- Completes a task without retries by hand. It needs no lock, and it neither looks at the
suspension of the instance nor at the other items of a multi-instance activity. -/
def resolveIncident (taskId : Uuid) (vars : Variables) : Eng Next := do
  let task ← getServiceTask taskId
  if 0 < task.retries then throw notAnIncident
  removePending .serviceTask taskId
  let instanceId := task.instanceId
  let token ← takeToken instanceId task.tokenId
  let token := { token with vars := token.vars.extend vars }
  cancelBoundaryTimers instanceId task.nodeId
  cancelBoundaryWaits instanceId task.nodeId
  updateInstance instanceId fun i =>
    { i with state := runningUnlessParallel i.state, currentNode := task.nodeId }
  let d ← definitionOf instanceId
  let token ← runEndScripts env instanceId token d task.nodeId
  registerCompensationHandler instanceId task.nodeId d
  let next ← resolveNextTarget env d task.nodeId token.vars
  setCurrentNode instanceId next
  return .run instanceId [{ token with currentNode := next }]

/-- The token of a task that was taken takes the variables along, runs the end scripts, leaves
the activity and goes on. -/
def leaveTask (instanceId tokenId : Uuid) (node : String) (vars : Variables)
    (scripts : Token → ProcessDefinition → Eng Token) : Eng Next := do
  let token ← takeToken instanceId tokenId
  cancelBoundaryTimers instanceId node
  cancelBoundaryWaits instanceId node
  updateInstance instanceId fun i =>
    { i with state := runningUnlessParallel i.state, currentNode := node }
  let d ← definitionOf instanceId
  let token ← scripts { token with vars := token.vars.extend vars } d
  registerCompensationHandler instanceId node d
  let next ← resolveNextTarget env d node token.vars
  setCurrentNode instanceId next
  return .run instanceId [{ token with currentNode := next }]

/-- The end scripts of a user task. If they fail, the task is put back. -/
def userTaskScripts (taskId : Uuid) (task : PendingUserTask) (token : Token)
    (d : ProcessDefinition) : Eng Token :=
  orElse (runEndScripts env task.instanceId token d task.nodeId) fun e => do
    modifyInstance task.instanceId fun i =>
      { i with state := .waitingOnUserTask taskId, tokens := i.tokens.insert token }
    insertPending (.userTask task)
    throw e

theorem completeUserTask_eq {env : Env} :
    completeUserTask env taskId vars = (do
      match (← get).pendingUserTasks.find? taskId with
      | none => throw (.taskNotPending taskId "not found in pending tasks")
      | some task =>
        removePending .userTask taskId
        if ((← findInstance task.instanceId).map fun i => i.state.isSuspended) = some true then
          insertPending (.userTask task)
          throw (.instanceSuspended task.instanceId)
        else
          leaveTask env task.instanceId task.tokenId task.nodeId vars
            (userTaskScripts env taskId task)) :=
  rfl

theorem resolveIncident_eq {env : Env} :
    resolveIncident env taskId vars = (do
      let task ← getServiceTask taskId
      if 0 < task.retries then
        throw notAnIncident
      else
        removePending .serviceTask taskId
        leaveTask env task.instanceId task.tokenId task.nodeId vars fun token d =>
          runEndScripts env task.instanceId token d task.nodeId) :=
  rfl

theorem exec_getServiceTask {task : PendingServiceTask} {e : Engine}
    (h : e.pendingServiceTasks.find? taskId = some task) :
    exec (getServiceTask taskId) e = (.ok task, e) := by
  rw [getServiceTask, exec_bind_ok (exec_get e), h]
  rfl

/-! ## BPMN errors -/

/-- The worker's variables reach the token and the instance before the error is handled. -/
def recordErrorVariables (task : PendingServiceTask) (vars : Variables) : Eng Unit :=
  modifyInstance task.instanceId fun i =>
    { i with
      tokens := i.tokens.modify task.tokenId fun t =>
        { t with vars := t.vars.extend vars, id := t.id }
      vars := i.vars.extend vars }

/-- A boundary error event catches the error; the other tasks of the activity stay. -/
def catchAtBoundary (task : PendingServiceTask) (boundary : String) (vars : Variables) :
    Eng Next := do
  let instanceId := task.instanceId
  updateInstance instanceId fun i => { i with state := .running }
  let token ← takeToken instanceId task.tokenId
  let token := token.discardDataScope
  let token := { token with vars := token.vars.extend vars }
  let d ← definitionOf instanceId
  let next ← resolveNextTarget env d boundary token.vars
  let token := { token with currentNode := next }
  updateInstance instanceId fun i => { i with currentNode := next, vars := token.processVariables }
  return .run instanceId [token]

/-- An error nobody catches makes the task an incident again. -/
def errorIncident (task : PendingServiceTask) (errorCode : String)
    (errorMessage : Option String) : Eng Unit := do
  let id ← newUuid
  let clock ← now
  modifyInstance task.instanceId fun i =>
    i.pushOrTouchIncident clock id .serviceTask (some task.nodeId) (some task.id)
      s!"Unhandled BPMN error '{errorCode}'" errorMessage
  insertPending (.serviceTask
    { task with
      retries := 0
      workerId := none
      lockExpiration := none
      errorMessage := some s!"Unhandled BPMN error '{errorCode}'"
      errorDetails := errorMessage.or task.errorDetails })

def handleBpmnError (taskId : Uuid) (workerId errorCode : String) (vars : Variables)
    (errorMessage : Option String) : Eng Next := do
  let task ← claimTask taskId workerId
  let instanceId := task.instanceId
  recordErrorVariables task vars
  let i ← getInstance instanceId
  cancelBoundaryTimers instanceId task.nodeId
  cancelBoundaryWaits instanceId task.nodeId
  let d ← findDefinition i.definitionKey
  match d.bind fun d => d.findBoundaryErrorEvent task.nodeId errorCode with
  | some boundary => catchAtBoundary env task boundary vars
  | none =>
    let (exclude, handlerVars) ← tokenEventContext instanceId task.tokenId
    match ← tryActivateEventCode env instanceId errorCode false handlerVars exclude with
    | some (.interrupting token) | some (.parallel token) => return .run instanceId [token]
    | none =>
      errorIncident task errorCode errorMessage
      return .done

/-! ## In-process handlers -/

/-- What an in-process handler made of its task. -/
inductive TaskOutcome where
  | complete (vars : Variables)
  | failure (message : String) (details : Option String) (retries : Option Int) (retryAfter : Nat)
  | bpmnError (code : String) (message : Option String) (vars : Variables)

def applyTaskOutcome (taskId : Uuid) : TaskOutcome → Eng Next
  | .complete vars => completeServiceTask env taskId inProcessWorkerId vars
  | .failure message details retries retryAfter => do
    failServiceTask taskId inProcessWorkerId retries (some message) details retryAfter
    return .done
  | .bpmnError code message vars => handleBpmnError env taskId inProcessWorkerId code vars message

/-- Gives back a task the dispatcher fetched but does not run. -/
def releaseInProcessLock (taskId : Uuid) : Eng Unit := do
  match (← get).pendingServiceTasks.find? taskId with
  | none => pure ()
  | some task =>
    if task.workerId = some inProcessWorkerId then
      modifyServiceTask taskId fun t => { t with workerId := none, lockExpiration := none }

/-- Starts the handler of a fetched task, or gives the task back when its topic has no handler or
no more handlers may run. -/
def startHandlerInvocation (task : PendingServiceTask) (permitted : Bool) : Eng Unit := do
  let e ← get
  if e.taskHandlers.contains task.topic && permitted then
    modify fun e => { e with inProcessInflight :=
      if e.inProcessInflight.contains task.id then e.inProcessInflight
      else e.inProcessInflight ++ [task.id] }
  else
    releaseInProcessLock task.id

def endHandlerInvocation (taskId : Uuid) : Eng Unit :=
  modify fun e =>
    { e with inProcessInflight := e.inProcessInflight.filter fun id => !(id == taskId) }

end Eng

end BpmnEngine
