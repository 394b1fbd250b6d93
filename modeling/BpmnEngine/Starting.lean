import BpmnEngine.Handlers

/-!
# Starting instances and returning from called ones

An instance is created, its scope listeners and event subscriptions are opened, and a
batch with one token at the start event begins. A call activity creates its instance
in the same way and parks the caller's token under the new identifier. When a called
instance ends, the caller takes the parked token up again. Each function here does
everything up to the batch that follows; the batch itself is run by its caller.
-/
namespace BpmnEngine

/-- What follows an operation: nothing, or a batch. -/
inductive Next where
  | done
  | run (instanceId : Uuid) (tokens : List Token)
deriving DecidableEq

namespace ProcessInstance

def initial (id definitionKey : Uuid) (businessKey : String) (parent : Option Uuid)
    (start : String) (vars : Variables) : ProcessInstance where
  id := id
  definitionKey := definitionKey
  businessKey := businessKey
  parentInstanceId := parent
  state := .running
  currentNode := start
  vars := vars
  tokens := ∅
  activeTokens := []
  joinBarriers := ∅
  multiInstanceState := ∅
  compensationLog := []
  outstandingCalls := ∅
  completedAt := none
  incidents := []
  eventSubscriptions := []
  eventHandlerTokens := ∅
  eventScope := false

end ProcessInstance

namespace Eng

variable (env : Env)

/-! ## Definitions by name -/

/-- All definitions, in the order in which the registry visits them. -/
def allDefinitions : Eng (List ProcessDefinition) := do
  let e ← get
  return env.visit e.nextUuid e.definitions.entries

/-- The definition with the highest version; the last one visited among equals. -/
def findLatestByBpmnId (bpmnId : String) : Eng (Option ProcessDefinition) := do
  return ((← allDefinitions env).filter fun d => d.id == bpmnId).foldl
    (fun best d =>
      match best with
      | none => some d
      | some b => if b.version ≤ d.version then some d else some b)
    none

/-! ## Starting -/

def validateStartRequest (definitionKey : Uuid) (allowSignalStart : Bool) :
    Eng (ProcessDefinition × String) := do
  let d ← getDefinition definitionKey
  match d.startEvent with
  | none => throw (.invalidDefinition "No start event")
  | some (_, .timerStartEvent _) =>
    throw (.invalidDefinition "Use trigger_timer_start() for timer start events")
  | some (start, .signalStartEvent _) =>
    if allowSignalStart then return (d, start)
    else throw (.invalidDefinition
      "Definition has a signal start event; use correlate_signal() to start it")
  | some (start, _) => return (d, start)

/-- The business key the caller gave, or a fresh one; it does not stay a variable. -/
def takeBusinessKey (vars : Variables) : Eng (String × Variables) := do
  match vars.get? "business_key" with
  | some (.string key) => return (key, vars.erase "business_key")
  | _ => return (toString (← newUuid), vars.erase "business_key")

/-- The wait of a scope listener, under the nil token. -/
def scopeListenerWait (now : Time) (instanceId id : Uuid) : ScopeEventListener → Option Pending
  | .timer timer _ target => some (.timer (timerFor env now id instanceId target 0 timer))
  | .message name _ target => some (.message ⟨id, instanceId, target, name, 0⟩)
  | .error _ _ => none

/-- Stores a new instance, opens its listeners and subscriptions and draws its first token. -/
def setUpInstance (d : ProcessDefinition) (definitionKey : Uuid) (start : String)
    (vars : Variables) (parent : Option Uuid) (instanceId : Uuid) : Eng Token := do
  let (businessKey, vars) ← takeBusinessKey vars
  insertInstance (.initial instanceId definitionKey businessKey parent start vars)
  let token ← newToken start vars
  d.eventListeners.forM fun listener => do
    let id ← newUuid
    (scopeListenerWait env (← now) instanceId id listener).toList.forM insertPending
  openEventScope env instanceId
  return token

/-- Creates an instance up to its first batch; returns its identifier and its first token. -/
def startInstance (definitionKey : Uuid) (vars : Variables) (parent predeterminedId : Option Uuid)
    (allowSignalStart : Bool) : Eng (Uuid × Token) := do
  let (d, start) ← validateStartRequest definitionKey allowSignalStart
  let vars := d.variableDefaults.extend vars
  let instanceId ← match predeterminedId with
    | some id => pure id
    | none => newUuid
  let token ← setUpInstance env d definitionKey start vars parent instanceId
  return (instanceId, token)

def startInstanceWithVariables (definitionKey : Uuid) (vars : Variables) : Eng Next := do
  let (instanceId, token) ← startInstance env definitionKey vars none none false
  return .run instanceId [token]

def startInstanceLatest (bpmnId : String) (vars : Variables) : Eng Next := do
  match ← findLatestByBpmnId env bpmnId with
  | none => throw (.invalidDefinition s!"No definition found with BPMN ID '{bpmnId}'")
  | some d => startInstanceWithVariables env d.key vars

/-! ## Timer starts -/

def startNodeOfTimer (d : ProcessDefinition) : Eng (String × TimerDefinition) :=
  match d.startEvent with
  | none => throw (.invalidDefinition "No start event")
  | some (start, .timerStartEvent timer) => return (start, timer)
  | some _ => throw (.invalidDefinition "Start event is not a timer start event")

/-- Creates an instance for a timer start. Its first token carries no variables. -/
def createTimerInstance (definitionKey : Uuid) (start businessKey : String) (vars : Variables) :
    Eng Next := do
  let instanceId ← newUuid
  insertInstance (.initial instanceId definitionKey businessKey none start vars)
  let token ← newToken start ∅
  openEventScope env instanceId
  return .run instanceId [token]

def wholeSeconds (duration : Nat) : Nat := duration / 1000000000

def triggerTimerStart (definitionKey : Uuid) (provided : Nat) : Eng Next := do
  let d ← getDefinition definitionKey
  let (start, timer) ← startNodeOfTimer d
  match timer with
  | .duration expected =>
    if expected ≠ provided then
      throw (.timerMismatch (wholeSeconds expected) (wholeSeconds provided))
  | _ => throw (.timerMismatch 0 (wholeSeconds provided))
  createTimerInstance env definitionKey start (toString (← newUuid)) ∅

/-- One instance of a timer start cycle. -/
def spawnTimerInstance (definitionKey : Uuid) (start : String) (vars : Variables)
    (iteration total : Nat) (intervalSeconds : Option Nat) : Eng Next := do
  let _ ← getDefinition definitionKey
  let (businessKey, vars) ← takeBusinessKey vars
  let vars := vars.set "_timer_iteration" (.number (.int iteration))
  let vars := vars.set "_timer_total" (.number (.int total))
  let vars := vars.set "_timer_start_node" (.string start)
  let vars := match intervalSeconds with
    | some seconds => vars.set "_timer_interval_secs" (.number (.int seconds))
    | none => vars
  createTimerInstance env definitionKey start businessKey vars

/-- The instance of a timer start in one of its iterations; each repetition is an operation of its
own. -/
def startTimerInstance (definitionKey : Uuid) (vars : Variables) (iteration : Nat) : Eng Next := do
  let d ← getDefinition definitionKey
  let (start, timer) ← startNodeOfTimer d
  let (total, interval) := match timer with
    | .repeatingInterval repetitions interval =>
      (repetitions.getD 1, some (wholeSeconds interval))
    | _ => (1, none)
  spawnTimerInstance env definitionKey start vars iteration total interval

/-! ## Calling -/

/-- Parks the caller's token under a new instance and creates that instance. The parked token is
given back when the instance cannot be created. -/
def spawnCallActivityForParent (childKey parentId : Uuid) (token : Token) : Eng (Uuid × Token) := do
  let childId ← newUuid
  let d ← definitionOf parentId
  let vars ← match (d.dataMappings.get? token.currentNode).bind (·.callInputs) with
    | some mappings => ofResult (evaluateMappings mappings token.vars)
    | none => pure token.vars
  modifyInstance parentId fun parent =>
    { parent with
      outstandingCalls := parent.outstandingCalls.set childId ⟨token.currentNode, token⟩
      state := if parent.state.isParallel then parent.state
        else .waitingOnCallActivity childId token }
  Program.orElse (startInstance env childKey vars (some parentId) (some childId) false) fun e => do
    modifyInstance parentId fun parent =>
      { parent with outstandingCalls := parent.outstandingCalls.erase childId }
    throw e

/-! ## Returning from a call -/

/-- The call that an ended instance belongs to: the one parked under its identifier, or else the
one in the state of a caller that waits for a single call. -/
def endedCall (parent : ProcessInstance) (childId : Uuid) : Option OutstandingCall :=
  match parent.outstandingCalls.get? childId, parent.state with
  | some call, _ => some call
  | none, .waitingOnCallActivity _ token => some ⟨parent.currentNode, token⟩
  | none, _ => none

/-- The caller's state when one of its calls has ended. -/
def stateAfterCall (state : InstanceState) (remaining : Nat) : InstanceState :=
  if 0 < remaining then .parallelExecution remaining
  else if state.isParallel then state
  else .running

def callResults (d : Option ProcessDefinition) (node : String) (failed : Bool)
    (childVars : Variables) : EngineResult Variables :=
  match (d.bind (·.dataMappings.get? node)).bind (·.callOutputs) with
  | some mappings => if failed then .ok ∅ else evaluateMappings mappings childVars
  | none => .ok childVars

/-- Hands the results to the first unfinished token of the fork registry at the call activity. -/
def transferToActive (node : String) (results : Variables) :
    List ActiveToken → Option (Token × List ActiveToken)
  | [] => none
  | a :: rest =>
    if a.token.currentNode = node ∧ a.completed = false then
      let token := DataMappings.applyCallTransfer a.token results
      some (token, { a with token := token } :: rest)
    else (transferToActive node results rest).map fun (token, rest) => (token, a :: rest)

/-- Takes the call off the caller and settles which token goes on. -/
def takeUpCall (parentId childId : Uuid) (call : OutstandingCall) (failed : Bool)
    (childVars : Variables) : Eng Token := do
  let parent ← getInstance parentId
  modifyInstance parentId fun i =>
    let calls := i.outstandingCalls.erase childId
    { i with
      outstandingCalls := calls
      state := stateAfterCall i.state calls.entries.length }
  let results ← ofResult (callResults (← findDefinition parent.definitionKey) call.nodeId failed
    childVars)
  match transferToActive call.nodeId results parent.activeTokens with
  | some (token, active) =>
    modifyInstance parentId fun i => { i with activeTokens := active }
    return token
  | none => return DataMappings.applyCallTransfer call.token results

/-- Leaves the call activity. A failed call whose activity has mappings leaves no results; a
failing end listener ends the caller. -/
def leaveCall (parentId : Uuid) (d : ProcessDefinition) (node : String) (failed : Bool)
    (token : Token) : Eng Token :=
  if failed && d.dataMappings.contains node then
    return token.discardDataScope
  else
    Program.orElse (runEndScripts env parentId token d node) fun e => do
      modifyInstance parentId fun i =>
        { i with state := .completedWithError s!"SCRIPT_ERROR:{node}" }
      throw e

def continueCaller (parentId : Uuid) (token : Token) (node : String) : Eng Next := do
  modifyInstance parentId fun i => { i with currentNode := node }
  return .run parentId [{ token with currentNode := node }]

/-- An error of a called instance that nothing catches leaves the caller waiting with an
incident. -/
def reportCallError (parentId childId : Uuid) (node code : String) (token : Token) : Eng Next := do
  let id ← newUuid
  let clock ← now
  updateInstance parentId fun i =>
    let waiting := { i with state := .waitingOnCallActivity childId token }
    waiting.pushOrTouchIncident clock id .bpmnError (some node) none
      s!"Unhandled BPMN error '{code}' from child instance {childId}" none
  return .done

/-- The caller takes up the call of an instance that has ended. -/
def resumeCaller (parentId childId : Uuid) (childVars : Variables) (errorCode : Option String) :
    Eng Next := do
  let parent ← getInstance parentId
  match endedCall parent childId with
  | none => return .done
  | some call =>
    let token ← takeUpCall parentId childId call errorCode.isSome childVars
    let d ← getDefinition parent.definitionKey
    let token ← leaveCall env parentId d call.nodeId errorCode.isSome token
    match errorCode with
    | none => continueCaller parentId token (← resolveNextTarget env d call.nodeId token.vars)
    | some code =>
      match d.findBoundaryErrorEvent call.nodeId code with
      | some boundary => continueCaller parentId token boundary
      | none =>
        let exclude ← eventHandlerForToken parentId token.id
        match ← tryActivateEventCode env parentId code false token.processVariables
            exclude with
        | some (.interrupting handler) | some (.parallel handler) =>
          return .run parentId [handler]
        | none => reportCallError parentId childId call.nodeId code token

def resumeParentIfNeeded (childId : Uuid) (errorCode : Option String) : Eng Next := do
  let child ← getInstance childId
  match child.parentInstanceId with
  | none => return .done
  | some parentId => resumeCaller env parentId childId child.vars errorCode

end Eng

end BpmnEngine
