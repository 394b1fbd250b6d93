import BpmnEngine.Starting

/-!
# Acting on the outcome of a step

A batch runs the tokens of one instance from a queue. Each step of a token ends in an
action: the token goes back to the queue, forks, joins, waits, calls another instance
or ends. When the queue is empty the conditional events of the instance are evaluated
and may fill it again.

An instance ends normally when a path ends, no token waits and every token of the fork
registry is completed. The registry only knows tokens that were forked, cloned or
started by an event; the tokens in the queue are not consulted.
-/
namespace BpmnEngine

open Program

def maxExecutionSteps : Nat := 10000

/-- The queue after an action, and the instance that was called if there is one. -/
inductive ActionOutcome where
  | proceed (queue : List Token)
  | call (queue : List Token) (childId : Uuid) (token : Token)

namespace Eng

variable (env : Env)

def nodeIsInclusiveSplit (instanceId : Uuid) (node : String) : Eng Bool := do
  let d ← definitionOf instanceId
  return d.getNode node == some .inclusiveGateway && d.isSplitGateway node

/-- A waiting path shows in the state of the instance unless several paths run. -/
def setWaiting (instanceId : Uuid) (state : InstanceState) : Eng Unit :=
  modifyInstance instanceId fun i =>
    { i with state := if i.state.isParallel then i.state else state }

/-- The tokens of a fork enter the registry and the queue. -/
def registerForked (instanceId : Uuid) (forkId : String) : Nat → List Token → Eng Unit
  | _, [] => pure ()
  | index, token :: rest => do
    registerActiveToken instanceId forkId index token
    registerForked instanceId forkId (index + 1) rest

def failCallActivity (instanceId : Uuid) (errorCode : String) : Eng Unit := do
  let clock ← now
  modifyInstance instanceId fun i =>
    { i with state := .completedWithError errorCode, completedAt := some clock }

/-- The event subprocess a token belongs to and the variables its end hands to a handler. -/
def tokenEventContext (instanceId tokenId : Uuid) : Eng (Option String × Variables) := do
  match ← findInstance instanceId with
  | none => return (none, ∅)
  | some i =>
    match i.tokens.find? tokenId with
    | some token => return (i.eventHandlerTokens.get? tokenId, token.processVariables)
    | none => return (i.eventHandlerTokens.get? tokenId, i.vars)

theorem exec_tokenEventContext {e : Engine} {x : Uuid} {i : ProcessInstance}
    (hi : e.instances.find? x = some i) (token : Uuid) :
    ∃ vars, exec (tokenEventContext x token) e =
      (.ok (i.eventHandlerTokens.get? token, vars), e) := by
  rw [tokenEventContext, exec_bind_ok (exec_findInstance e x), hi]
  dsimp only
  split <;> exact ⟨_, rfl⟩

def queueScopeActivation (queue : List Token) : ScopeActivation → List Token
  | .interrupting token => [token]
  | .parallel token => queue ++ [token]

def removeToken (instanceId tokenId : Uuid) : Eng Unit :=
  modifyInstance instanceId fun i => { i with tokens := i.tokens.erase tokenId }

def markEnded (instanceId : Uuid) (state : InstanceState) : Eng Unit := do
  let clock ← now
  modifyInstance instanceId fun i => { i with state := state, completedAt := some clock }

/-! ## The actions -/

def onContinueMultiple (instanceId tokenId : Uuid) (gateway : String) (queue tokens : List Token) :
    Eng ActionOutcome := do
  registerJoinBarrierIfNeeded instanceId gateway tokens.length
  modifyInstance instanceId fun i =>
    { i.completeActive tokenId with
      state := .parallelExecution (i.activeTokens.length + tokens.length)
      currentNode := gateway }
  registerForked instanceId gateway 0 tokens
  return .proceed (queue ++ tokens)

def onWaitForJoin (instanceId : Uuid) (gateway : String) (token : Token) (queue : List Token) :
    Eng ActionOutcome := do
  match ← arriveAtJoin env instanceId gateway token with
  | none => return .proceed queue
  | some merged =>
    modifyInstance instanceId fun i => { i with state := .running, currentNode := gateway }
    return .proceed (queue ++ [merged])

def onWait (instanceId : Uuid) (state : InstanceState) (pending : Pending) (queue : List Token) :
    Eng ActionOutcome := do
  setWaiting instanceId state
  insertPending pending
  return .proceed queue

def onWaitForEventGroup (instanceId : Uuid) (alternatives : List EventAlternative)
    (queue : List Token) : Eng ActionOutcome := do
  setWaiting instanceId .waitingOnEventBasedGateway
  alternatives.forM fun alternative => insertPending alternative.pending
  return .proceed queue

/-- The called element is looked up by its BPMN identifier; any of its versions may be found. A
call that cannot start ends the caller and drops the rest of the batch. -/
def onWaitForCallActivity (instanceId : Uuid) (calledElement : String) (token : Token)
    (queue : List Token) : Eng ActionOutcome := do
  match (← allDefinitions env).find? fun d => d.id == calledElement with
  | some d =>
    orElse
      (do
        let (childId, start) ← spawnCallActivityForParent env d.key instanceId token
        return .call queue childId start)
      fun _ => do
        failCallActivity instanceId "CALL_ACTIVITY_SPAWN_FAILED"
        return .proceed []
  | none =>
    failCallActivity instanceId "CALL_ACTIVITY_TARGET_NOT_FOUND"
    return .proceed []

def onComplete (instanceId tokenId : Uuid) (queue : List Token) : Eng ActionOutcome := do
  completeBranchToken instanceId tokenId
  removeToken instanceId tokenId
  if ← allTokensCompleted instanceId then
    closeEventScope instanceId
    markEnded instanceId .completed
  return .proceed queue

/-- Completes the instance with an error and leaves an incident at the node it ended at. -/
def completeWithError (instanceId : Uuid) (errorCode : String) : Eng Unit := do
  let id ← newUuid
  let clock ← now
  modifyInstance instanceId fun i =>
    let ended := { i with state := .completedWithError errorCode, completedAt := some clock }
    ended.pushOrTouchIncident clock id .bpmnError (some i.currentNode) none
      s!"Unhandled BPMN error '{errorCode}'" none

/-- A path ends with a code that an event subprocess may catch; `finish` runs if nothing catches
it and no token is left. -/
def onCodeEnd (instanceId tokenId : Uuid) (code : String) (escalation : Bool) (finish : Eng Unit)
    (queue : List Token) : Eng ActionOutcome := do
  completeBranchToken instanceId tokenId
  let (exclude, vars) ← tokenEventContext instanceId tokenId
  removeToken instanceId tokenId
  match ← tryActivateEventCode env instanceId code escalation vars exclude with
  | some activation => return .proceed (queueScopeActivation queue activation)
  | none =>
    if ← allTokensCompleted instanceId then
      finish
      closeEventScope instanceId
    return .proceed queue

def onErrorEnd (instanceId tokenId : Uuid) (errorCode : String) (queue : List Token) :
    Eng ActionOutcome :=
  onCodeEnd env instanceId tokenId errorCode false (completeWithError instanceId errorCode) queue

def onEscalationEnd (instanceId tokenId : Uuid) (escalationCode : String) (queue : List Token) :
    Eng ActionOutcome :=
  onCodeEnd env instanceId tokenId escalationCode true (markEnded instanceId .completed) queue

/-- Ends the instance at once. Its waits go; its tokens, barriers and calls stay recorded. -/
def onTerminate (instanceId : Uuid) : Eng ActionOutcome := do
  closeEventScope instanceId
  cancelScopeWaits instanceId
  modifyInstance instanceId fun i =>
    { i with activeTokens := i.activeTokens.map fun a => { a with completed := true } }
  markEnded instanceId .completed
  return .proceed []

def onMultiInstanceFork (instanceId tokenId : Uuid) (node : String) (queue tokens : List Token) :
    Eng ActionOutcome := do
  let join := s!"MI_JOIN_{node}"
  updateInstance instanceId fun i =>
    { i.completeActive tokenId with
      joinBarriers := i.joinBarriers.set join ⟨join, tokens.length, []⟩
      state := .parallelExecution (i.activeTokens.length + tokens.length) }
  registerForked instanceId node 0 tokens
  return .proceed (queue ++ tokens)

/-- Acts on the outcome of a token's step at a node. -/
def handleNextAction (instanceId tokenId : Uuid) (node : String) (queue : List Token) :
    NextAction → Eng ActionOutcome
  | .continue token => do
    -- One branch of an inclusive split still has to be announced at its join.
    if ← nodeIsInclusiveSplit instanceId node then
      registerJoinBarrierIfNeeded instanceId node 1
    return .proceed (queue ++ [token])
  | .continueMultiple tokens => onContinueMultiple instanceId tokenId node queue tokens
  | .waitForJoin gateway token => onWaitForJoin env instanceId gateway token queue
  | .waitForUser p => onWait instanceId (.waitingOnUserTask p.taskId) (.userTask p) queue
  | .waitForServiceTask p => onWait instanceId (.waitingOnServiceTask p.id) (.serviceTask p) queue
  | .waitForTimer p => onWait instanceId (.waitingOnTimer p.id) (.timer p) queue
  | .waitForMessage p => onWait instanceId (.waitingOnMessage p.id) (.message p) queue
  | .waitForSignal p => onWait instanceId (.waitingOnSignal p.id) (.signal p) queue
  | .waitForCondition p => onWait instanceId (.waitingOnCondition p.id) (.conditional p) queue
  | .waitForEventGroup alternatives => onWaitForEventGroup instanceId alternatives queue
  | .waitForCallActivity called token => onWaitForCallActivity env instanceId called token queue
  | .complete => onComplete instanceId tokenId queue
  | .errorEnd code => onErrorEnd env instanceId tokenId code queue
  | .escalationEnd code => onEscalationEnd env instanceId tokenId code queue
  | .spawnAndContinue main spawned => return .proceed (queue ++ main :: spawned)
  | .interruptScope token => return .proceed [token]
  | .terminate => onTerminate instanceId
  | .multiInstanceFork node tokens => onMultiInstanceFork instanceId tokenId node queue tokens
  | .multiInstanceNext _ token => return .proceed (queue ++ [token])

/-! ## Conditional events -/

def cancelPendingActivity (instanceId tokenId : Uuid) : Eng Unit :=
  [WaitKind.userTask, .serviceTask].forM fun kind =>
    retainPending kind fun w => !(w.instanceId == instanceId && w.tokenId == tokenId)

def tokenNotFound (tokenId : Uuid) : EngineError :=
  .invalidDefinition s!"Token {tokenId} not found in instance"

def takeToken (instanceId tokenId : Uuid) : Eng Token := do
  let i ← getInstance instanceId
  match i.tokens.find? tokenId with
  | none => throw (tokenNotFound tokenId)
  | some token =>
    removeToken instanceId tokenId
    return token

def runningUnlessParallel (state : InstanceState) : InstanceState :=
  if state.isParallel then state else .running

/-- Copies a waiting token beside the original one. The copy is registered and stored in the
token table although it runs. -/
def cloneToken (instanceId tokenId : Uuid) (change : Token → Token)
    (forkId : Token → String) : Eng Token := do
  let i ← getInstance instanceId
  match i.tokens.find? tokenId with
  | none => throw (tokenNotFound tokenId)
  | some original =>
    let clone := { change original with id := ← newUuid }
    modifyInstance instanceId fun i =>
      let tokens := i.tokens.insert clone
      { i with
        tokens := tokens
        activeTokens := i.activeTokens ++
          [⟨clone, some (forkId clone), i.activeTokens.length, false⟩]
        state := if i.state.isParallel then i.state else .parallelExecution tokens.entries.length }
    return clone

/-- The node behind a conditional event. -/
def conditionalTarget (d : ProcessDefinition) (label node : String) (vars : Variables) :
    Eng String :=
  match d.resolveNextTarget env node vars with
  | .ok target => return target
  | .error error =>
    let text := error.text
    throw (.invalidDefinition s!"{label} '{node}' has no valid successor: {text}")

/-- The token of a fired catch goes on with the variables of the instance. -/
def releaseCaught (instanceId tokenId : Uuid) (target : String) (vars : Variables) : Eng Token := do
  let token ← takeToken instanceId tokenId
  modifyInstance instanceId fun i =>
    { i with currentNode := target, state := runningUnlessParallel i.state }
  return { token with vars := vars, currentNode := target }

/-- Fires one catch whose condition has become true. -/
def fireCatch (d : ProcessDefinition) (instanceId : Uuid) (vars : Variables)
    (c : PendingConditionalCatch) : Eng (List Token) := do
  removePending .conditional c.id
  match d.getNode c.nodeId with
  | some (.conditionalCatchEvent _) =>
    let target ← conditionalTarget env d "Conditional catch" c.nodeId vars
    return [← releaseCaught instanceId c.tokenId target vars]
  | some (.boundaryConditionalEvent _ _ true) =>
    clearWaitStatesForToken instanceId c.tokenId
    cancelPendingActivity instanceId c.tokenId
    let target ← conditionalTarget env d "Boundary conditional event" c.nodeId vars
    return [← releaseCaught instanceId c.tokenId target vars]
  | some (.boundaryConditionalEvent _ _ false) =>
    let target ← conditionalTarget env d "Boundary conditional event" c.nodeId vars
    let spawned ← cloneToken instanceId c.tokenId
      (fun t => { t with vars := vars, currentNode := target }) fun _ => c.nodeId
    insertPending (.conditional { c with lastResult := true })
    return [spawned]
  | _ => return []

/-- Only the change from false to true fires a catch. An earlier catch of the same round may have
removed a later one. -/
def evaluateCatch (d : ProcessDefinition) (instanceId : Uuid) (vars : Variables)
    (c : PendingConditionalCatch) : Eng (List Token) := do
  let current := (← get).pendingConditionalCatches.find? c.id
  if env.evaluateCondition c.condition vars then
    match c.lastResult, current with
    | false, some c => fireCatch env d instanceId vars c
    | _, _ => return []
  else
    match c.lastResult, current with
    | true, some c =>
      insertPending (.conditional { c with lastResult := false })
      return []
    | _, _ => return []

def evaluateCatches (d : ProcessDefinition) (instanceId : Uuid) (vars : Variables) :
    List PendingConditionalCatch → Eng (List Token)
  | [] => return []
  | c :: rest => do
    let fired ← evaluateCatch env d instanceId vars c
    return fired ++ (← evaluateCatches d instanceId vars rest)

/-- Evaluates the conditional events of an instance; returns the tokens they set free. -/
def fireConditionalCatches (instanceId : Uuid) : Eng (List Token) := do
  let e ← get
  let catches := env.visit e.nextUuid
    (e.pendingConditionalCatches.retain fun c => c.instanceId == instanceId).entries
  match catches, e.instances.find? instanceId with
  | [], _ | _, none => return []
  | catches, some i =>
    if i.state.isSuspended || i.state.isTerminal then
      return []
    match e.definitions.find? i.definitionKey with
    | none => return []
    | some d => evaluateCatches env d instanceId i.vars catches

/-! ## The end of a batch -/

/-- An instance that has ended when its batch is over resumes its caller. -/
def finishBatch (instanceId : Uuid) : Eng Next := do
  let state := (← findInstance instanceId).map ProcessInstance.state
  match state with
  | some .completed => resumeParentIfNeeded env instanceId none
  | some (.completedWithError code) => resumeParentIfNeeded env instanceId (some code)
  | _ => return .done

def failStep (instanceId : Uuid) : EngineError → Eng Unit
  | .dataMappingError _ => markEnded instanceId (.completedWithError "DATA_MAPPING_ERROR")
  | _ => pure ()

def exceedLimit (instanceId : Uuid) : Eng Unit := do
  markEnded instanceId (.completedWithError "EXECUTION_LIMIT_EXCEEDED")
  throw (.executionLimitExceeded
    s!"Instance {instanceId} exceeded execution step limit ({maxExecutionSteps})")

end Eng

end BpmnEngine
