import BpmnEngine.EventScopes

/-!
# What an element does with a token

Executing a node opens its data scope, runs its start listeners and dispatches on its
element. Most elements answer with the next action at once. A signal throw and a
compensation throw first run other batches inside the step; for them the step stops
where the first of these batches would start, and the part after the last of them is
a function of its own.
-/
namespace BpmnEngine

/-- How far a step got on its own. -/
inductive StepOutcome where
  | action (action : NextAction)
  | throwSignal (token : Token) (signalName : String) (isEnd : Bool)
  | compensate (token : Token) (activityRef : Option String) (isEnd : Bool)
      (handlers : List CompensationRecord)

namespace Eng

variable (env : Env)

def setCurrentNode (instanceId : Uuid) (node : String) : Eng Unit :=
  updateInstance instanceId fun i => { i with currentNode := node }

def parkToken (instanceId : Uuid) (node : String) (token : Token) : Eng Unit :=
  updateInstance instanceId fun i =>
    { i with currentNode := node, tokens := i.tokens.insert token }

def resolveNextTarget (d : ProcessDefinition) (source : String) (vars : Variables) : Eng String :=
  ofResult (d.resolveNextTarget env source vars)

/-- A timer that waits for a token; one without a next expiry is due at once. -/
def timerFor (now : Time) (id instanceId : Uuid) (node : String) (tokenId : Uuid)
    (timer : TimerDefinition) : PendingTimer :=
  ⟨id, instanceId, node, (timer.nextExpiry env now).getD now, tokenId, some timer,
    timer.initialRemainingRepetitions⟩

/-! ## Boundary events -/

/-- The wait of a boundary event; error, escalation and compensation events do not wait. -/
def boundaryWait (now : Time) (instanceId tokenId : Uuid) (node : String) (element : BpmnElement)
    (id : Uuid) : Option Pending :=
  match element with
  | .boundaryTimerEvent _ timer _ =>
    some (.timer (timerFor env now id instanceId node tokenId timer))
  | .boundaryMessageEvent _ name _ => some (.message ⟨id, instanceId, node, name, tokenId⟩)
  | .boundarySignalEvent _ name _ => some (.signal ⟨id, instanceId, node, name, tokenId⟩)
  | .boundaryConditionalEvent _ condition _ =>
    some (.conditional ⟨id, instanceId, node, condition, tokenId, false⟩)
  | _ => none

/-- Arms every boundary event of an activity for the token that enters it. -/
def setupBoundaryEvents (d : ProcessDefinition) (activity : String) (instanceId : Uuid)
    (token : Token) : Eng Unit :=
  d.nodes.entries.forM fun (node, element) => do
    if element.attachedTo? == some activity then
      let id ← newUuid
      (boundaryWait env (← now) instanceId token.id node element id).toList.forM insertPending

/-! ## Events -/

variable (instanceId : Uuid) (token : Token) (d : ProcessDefinition) (node : String)

def handleStartEvent : Eng NextAction := do
  let next ← resolveNextTarget env d node token.vars
  let token ← runEndScripts env instanceId token d node
  setCurrentNode instanceId next
  return .continue { token with currentNode := next }

/-- Boundary events are passed like start events. -/
def handleBoundaryEvent : Eng NextAction :=
  handleStartEvent env instanceId token d node

def handleEnd (action : NextAction) : Eng NextAction := do
  let _ ← runEndScripts env instanceId token d node
  setCurrentNode instanceId node
  return action

def handleEndEvent : Eng NextAction :=
  handleEnd env instanceId token d node .complete

def handleTerminateEndEvent : Eng NextAction :=
  handleEnd env instanceId token d node .terminate

def handleErrorEndEvent (errorCode : String) : Eng NextAction :=
  handleEnd env instanceId token d node (.errorEnd errorCode)

def handleEscalationEndEvent (escalationCode : String) : Eng NextAction :=
  handleEnd env instanceId token d node (.escalationEnd escalationCode)

def handleTimerCatchEvent (timer : TimerDefinition) : Eng NextAction := do
  let pending := timerFor env (← now) (← newUuid) instanceId node token.id timer
  parkToken instanceId node token
  return .waitForTimer pending

def handleMessageCatchEvent (messageName : String) : Eng NextAction := do
  let id ← newUuid
  parkToken instanceId node token
  return .waitForMessage ⟨id, instanceId, node, messageName, token.id⟩

def handleSignalCatchEvent (signalName : String) : Eng NextAction := do
  let id ← newUuid
  parkToken instanceId node token
  return .waitForSignal ⟨id, instanceId, node, signalName, token.id⟩

def handleConditionalCatchEvent (condition : String) : Eng NextAction := do
  let id ← newUuid
  parkToken instanceId node token
  return .waitForCondition ⟨id, instanceId, node, condition, token.id, false⟩

def handleLinkThrowEvent (target : String) : Eng NextAction := do
  let token ← runEndScripts env instanceId token d node
  setCurrentNode instanceId target
  return .continue { token with currentNode := target }

def passThrow : Eng Token := do
  let next ← resolveNextTarget env d node token.vars
  setCurrentNode instanceId next
  return { token with currentNode := next }

/-- A boundary event anywhere in the process catches an escalation before an event subprocess
does. Nobody has to catch it. -/
def handleEscalationThrowEvent (escalationCode : String) : Eng NextAction := do
  let token ← runEndScripts env instanceId token d node
  match d.findAnyBoundaryEscalationEvent escalationCode with
  | some (boundary, _, cancelActivity) =>
    let target ← resolveNextTarget env d boundary token.vars
    if cancelActivity then
      setCurrentNode instanceId target
      return .continue { token with currentNode := target }
    else
      let handler ← newToken target token.vars
      let main ← passThrow env instanceId token d node
      return .spawnAndContinue main [handler]
  | none =>
    let exclude ← eventHandlerForToken instanceId token.id
    match ← tryActivateEventCode env instanceId escalationCode true token.processVariables
        exclude with
    | some (.interrupting handler) => return .interruptScope handler
    | some (.parallel handler) =>
      let main ← passThrow env instanceId token d node
      return .spawnAndContinue main [handler]
    | none => return .continue (← passThrow env instanceId token d node)

/-! ## Signal and compensation throws -/

def handleSignalThrowEvent (signalName : String) (isEnd : Bool) : Eng StepOutcome := do
  let token ← runEndScripts env instanceId token d node
  return .throwSignal token signalName isEnd

def finishSignalThrow (isEnd : Bool) : Eng NextAction := do
  if isEnd then
    setCurrentNode instanceId node
    return .complete
  else
    return .continue (← passThrow env instanceId token d node)

/-- The handlers of one activity in the order of its completions, or all of them in reverse. -/
def compensationHandlers (i : ProcessInstance) : Option String → List CompensationRecord
  | some activity => i.compensationLog.filter fun record => record.activityId == activity
  | none => i.compensationLog.reverse

def handleCompensationThrowEvent (activityRef : Option String) (isEnd : Bool) : Eng StepOutcome :=
    do
  let token ← runEndScripts env instanceId token d node
  let i ← getInstance instanceId
  let handlers := compensationHandlers i activityRef
  setCurrentNode instanceId node
  return .compensate token activityRef isEnd handlers

def finishCompensation (activityRef : Option String) (isEnd : Bool) : Eng NextAction := do
  updateInstance instanceId fun i =>
    { i with compensationLog := match activityRef with
        | some activity => i.compensationLog.filter fun record => !(record.activityId == activity)
        | none => [] }
  if isEnd then
    return .complete
  else
    return .continue (← passThrow env instanceId token d node)

def registerCompensationHandler (instanceId : Uuid) (activity : String)
    (d : ProcessDefinition) : Eng Unit :=
  match d.findCompensationHandler activity with
  | some handler =>
    modifyInstance instanceId fun i =>
      { i with compensationLog := i.compensationLog ++ [⟨activity, handler⟩] }
  | none => pure ()

/-! ## Tasks -/

def handleUserTask (assignee : String) : Eng NextAction := do
  setupBoundaryEvents env d node instanceId token
  let i ← getInstance instanceId
  let id ← newUuid
  parkToken instanceId node token
  return .waitForUser ⟨id, instanceId, node, assignee, token.id, ← now, i.businessKey?⟩

def handleScriptTask (script : String) : Eng NextAction := do
  let vars ← ofResult (env.executeScript script token.vars)
  let token ← runEndScripts env instanceId { token with vars := vars } d node
  registerCompensationHandler instanceId node d
  let next ← resolveNextTarget env d node token.vars
  updateInstance instanceId fun i => { i with currentNode := next, vars := token.vars }
  return .continue { token with currentNode := next }

def handleSendTask : Eng NextAction := do
  let token ← runEndScripts env instanceId token d node
  return .continue (← passThrow env instanceId token d node)

/-- The items of a multi-instance activity: the elements of a collection, or a number of empty
items. -/
def resolveMultiInstanceItems (mi : MultiInstanceDef) (vars : Variables) (node : String) :
    EngineResult (List (Option Value)) :=
  match mi.collection, mi.loopCardinality with
  | some collection, _ =>
    match vars.get? collection with
    | none => .error (.invalidDefinition (s!"Multi-instance collection variable '{collection}' " ++
        s!"not found for service task '{node}'"))
    | some (.array items) => .ok (items.map some)
    | some other =>
      let typeName := other.jsonTypeName
      .error (.invalidDefinition (s!"Multi-instance collection variable '{collection}' of " ++
        s!"service task '{node}' must be an array, got {typeName}"))
  | none, none => .error (.invalidDefinition
    (s!"Multi-instance service task '{node}' has neither " ++ "collection nor loopCardinality"))
  | none, some cardinality =>
    match parseUsize (trimmed cardinality) with
    | some (total + 1) => .ok (List.replicate (total + 1) none)
    | _ => .error (.invalidDefinition
      (s!"Multi-instance loopCardinality of service task '{node}' " ++
        s!"must be a positive integer, got '{cardinality}'"))

/-- What the worker of the k-th item sees, counted from one: the token's variables, the loop
counter, the element, and then the inputs of the activity over all of these. -/
def itemVariables (d : ProcessDefinition) (node : String) (elementVariable : Option String)
    (vars : Variables) (loopCounter : Nat) (item : Option Value) : EngineResult Variables :=
  let vars := vars.set "loopCounter" (.number (.int loopCounter))
  let vars := match elementVariable, item with
    | some name, some value => vars.set name value
    | _, _ => vars
  DataMappings.applyInputs d node vars

/-- An unlocked service task with three retries. -/
def newServiceTask (i : ProcessInstance) (d : ProcessDefinition) (node topic : String)
    (tokenId : Uuid) (vars : Variables) : Eng PendingServiceTask := do
  return ⟨← newUuid, i.id, d.key, node, topic, tokenId, i.businessKey?, vars, ← now, none, none, 3,
    none, none⟩

/-- The tasks of a parallel multi-instance activity, in item order. -/
def itemTasks (i : ProcessInstance) (d : ProcessDefinition) (node topic : String)
    (elementVariable : Option String) (token : Token) :
    Nat → List (Option Value) → Eng (List PendingServiceTask)
  | _, [] => return []
  | index, item :: rest => do
    let vars ← ofResult (itemVariables d node elementVariable token.vars (index + 1) item)
    let task ← newServiceTask i d node topic token.id vars
    return task :: (← itemTasks i d node topic elementVariable token (index + 1) rest)

def startProgress (instanceId : Uuid) (node : String) (token : Token)
    (progress : MultiInstanceProgress) : Eng Unit :=
  modifyInstance instanceId fun i =>
    { i with
      currentNode := node
      tokens := i.tokens.insert token
      multiInstanceState := i.multiInstanceState.set node progress }

/-- Sequential items have one open task at a time; parallel items are all opened at once, the
first of them by the executor. -/
def startMultiInstance (topic : String) (mi : MultiInstanceDef) (items : List (Option Value)) :
    Eng NextAction := do
  let i ← getInstance instanceId
  if mi.isSequential then
    let vars ← ofResult (itemVariables d node mi.elementVariable token.vars 1 items.head?.join)
    let first ← newServiceTask i d node topic token.id vars
    startProgress instanceId node token ⟨node, items.length, 0, some token, items⟩
    return .waitForServiceTask first
  else
    let tasks ← itemTasks i d node topic mi.elementVariable token 0 items
    startProgress instanceId node token ⟨node, items.length, 0, none, []⟩
    match tasks with
    | [] => return .continue token
    | first :: rest =>
      rest.forM fun task => insertPending (.serviceTask task)
      return .waitForServiceTask first

def handleServiceTask (topic : String) (multiInstance : Option MultiInstanceDef) : Eng NextAction
    := do
  match multiInstance with
  | some mi =>
    let items ← ofResult (resolveMultiInstanceItems mi token.vars node)
    if items.isEmpty then
      return .continue (← passThrow env instanceId token d node)
    setupBoundaryEvents env d node instanceId token
    startMultiInstance instanceId token d node topic mi items
  | none =>
    setupBoundaryEvents env d node instanceId token
    let i ← getInstance instanceId
    let task ← newServiceTask i d node topic token.id token.vars
    parkToken instanceId node token
    return .waitForServiceTask task

def handleCallActivity (calledElement : String) : Eng NextAction := do
  setupBoundaryEvents env d node instanceId token
  setCurrentNode instanceId node
  return .waitForCallActivity calledElement token

def handleSubProcessEndEvent (token : Token) (d : ProcessDefinition) (subProcess : String) :
    Eng NextAction := do
  let next ← resolveNextTarget env d subProcess token.vars
  return .continue { token with currentNode := next }

/-! ## Gateways -/

def noteFork (instanceId : Uuid) (node : String) (action : NextAction) : Eng NextAction := do
  match action with
  | .continueMultiple _ => setCurrentNode instanceId node
  | _ => pure ()
  return action

def handleParallelGateway : Eng NextAction := do
  let token ← runEndScripts env instanceId token d node
  noteFork instanceId node (← executeParallelGateway d node token)

def handleExclusiveGateway (default : Option String) : Eng NextAction := do
  let token ← runEndScripts env instanceId token d node
  let token ← executeExclusiveGateway env d node token default
  setCurrentNode instanceId token.currentNode
  return .continue token

def handleInclusiveGateway : Eng NextAction := do
  let token ← runEndScripts env instanceId token d node
  noteFork instanceId node (← executeInclusiveGateway env d node token)

def handleComplexGateway (default : Option String) : Eng NextAction := do
  let token ← runEndScripts env instanceId token d node
  let action ← executeComplexGateway env d node token default
  match action with
  | .continueMultiple _ => setCurrentNode instanceId node
  | .continue next => setCurrentNode instanceId next.currentNode
  | _ => pure ()
  return action

/-- The wait for one outgoing flow of an event-based gateway. -/
def eventAlternative (d : ProcessDefinition) (instanceId : Uuid) (token : Token)
    (target : String) : Eng (List EventAlternative) := do
  match d.getNode target with
  | none => return []
  | some (.timerCatchEvent timer) =>
    return [.timer (timerFor env (← now) (← newUuid) instanceId target token.id timer)]
  | some (.messageCatchEvent name) =>
    return [.message ⟨← newUuid, instanceId, target, name, token.id⟩]
  | some (.signalCatchEvent name) =>
    return [.signal ⟨← newUuid, instanceId, target, name, token.id⟩]
  | some _ =>
    throw (.invalidDefinition s!"EventBasedGateway target '{target}' is not a catch event")

def handleEventBasedGateway : Eng NextAction := do
  let token ← runEndScripts env instanceId token d node
  let alternatives ← (d.nextNodes node).mapM fun flow =>
    eventAlternative env d instanceId token flow.target
  parkToken instanceId node token
  return .waitForEventGroup alternatives.flatten

/-! ## Dispatch -/

/-- What an element does once its data scope is open and its start listeners have run. -/
def dispatch : BpmnElement → Eng StepOutcome
  | .startEvent | .timerStartEvent _ | .messageStartEvent _ | .signalStartEvent _ =>
    .action <$> handleStartEvent env instanceId token d node
  | .endEvent => .action <$> handleEndEvent env instanceId token d node
  | .terminateEndEvent => .action <$> handleTerminateEndEvent env instanceId token d node
  | .errorEndEvent code => .action <$> handleErrorEndEvent env instanceId token d node code
  | .userTask assignee => .action <$> handleUserTask env instanceId token d node assignee
  | .scriptTask script _ => .action <$> handleScriptTask env instanceId token d node script
  | .sendTask _ _ => .action <$> handleSendTask env instanceId token d node
  | .serviceTask topic mi => .action <$> handleServiceTask env instanceId token d node topic mi
  | .parallelGateway => .action <$> handleParallelGateway env instanceId token d node
  | .exclusiveGateway default =>
    .action <$> handleExclusiveGateway env instanceId token d node default
  | .inclusiveGateway => .action <$> handleInclusiveGateway env instanceId token d node
  | .complexGateway _ default =>
    .action <$> handleComplexGateway env instanceId token d node default
  | .eventBasedGateway => .action <$> handleEventBasedGateway env instanceId token d node
  | .timerCatchEvent timer => .action <$> handleTimerCatchEvent env instanceId token node timer
  | .messageCatchEvent name => .action <$> handleMessageCatchEvent instanceId token node name
  | .signalCatchEvent name => .action <$> handleSignalCatchEvent instanceId token node name
  | .conditionalCatchEvent condition =>
    .action <$> handleConditionalCatchEvent instanceId token node condition
  | .signalThrowEvent name => handleSignalThrowEvent env instanceId token d node name false
  | .signalEndEvent name => handleSignalThrowEvent env instanceId token d node name true
  | .callActivity called => .action <$> handleCallActivity env instanceId token d node called
  | .embeddedSubProcess start => return .action (.continue { token with currentNode := start })
  | .subProcessEndEvent subProcess =>
    .action <$> handleSubProcessEndEvent env token d subProcess
  | .escalationEndEvent code =>
    .action <$> handleEscalationEndEvent env instanceId token d node code
  | .escalationThrowEvent code =>
    .action <$> handleEscalationThrowEvent env instanceId token d node code
  | .compensationThrowEvent activityRef =>
    handleCompensationThrowEvent env instanceId token d node activityRef false
  | .compensationEndEvent activityRef =>
    handleCompensationThrowEvent env instanceId token d node activityRef true
  | .linkThrowEvent target =>
    .action <$> handleLinkThrowEvent env instanceId token d node target
  | .boundaryTimerEvent .. | .boundaryMessageEvent .. | .boundarySignalEvent ..
  | .boundaryConditionalEvent .. | .boundaryErrorEvent .. | .boundaryEscalationEvent .. =>
    .action <$> handleBoundaryEvent env instanceId token d node
  | .boundaryCompensationEvent _ => return .action .complete

/-- Opens the data scope of a node, runs its start listeners and dispatches on its element. -/
def executeNode (element : BpmnElement) : Eng StepOutcome := do
  let token ← ofResult (DataMappings.enter token d node)
  let token ← ofResult (Scripting.runNodeScripts env token d node .start)
  if d.listeners.contains node then
    modifyInstance instanceId fun i => { i with vars := token.processVariables }
  dispatch env instanceId token d node element

def executeStep (instanceId : Uuid) (token : Token) : Eng StepOutcome := do
  let d ← definitionOf instanceId
  match d.getNode token.currentNode with
  | none => throw (.noSuchNode token.currentNode)
  | some element => executeNode env instanceId token d token.currentNode element

end Eng

end BpmnEngine
