import BpmnEngine.Documents

/-!
# From documents to definitions

A process of a document is compiled element by element into a builder. Embedded
subprocesses are flattened into the graph of their process: the subprocess becomes a node
that leads to the target of its start event, and its end events become end events of the
subprocess, whatever they throw. Event subprocesses are compiled on their own and attached
to the definition. Data elements, which are read from the XML afterwards and touch neither
nodes nor flows, are left out.
-/
namespace BpmnEngine

/-! ## The builder -/

structure DefinitionBuilder where
  id : String
  nodes : Map String BpmnElement
  flows : Map String (List SequenceFlow)
  listeners : Map String (List ExecutionListener)

namespace DefinitionBuilder

def new (id : String) : DefinitionBuilder := ⟨id, ∅, ∅, ∅⟩

def node (b : DefinitionBuilder) (id : String) (element : BpmnElement) : DefinitionBuilder :=
  { b with nodes := b.nodes.set id element }

def addFlow (b : DefinitionBuilder) (source : String) (flow : SequenceFlow) : DefinitionBuilder :=
  { b with flows := b.flows.set source ((b.flows.get? source).getD [] ++ [flow]) }

def flow (b : DefinitionBuilder) (source target : String) : DefinitionBuilder :=
  b.addFlow source (.simple target)

def conditionalFlow (b : DefinitionBuilder) (source target condition : String) :
    DefinitionBuilder :=
  b.addFlow source (.conditional target condition)

def listener (b : DefinitionBuilder) (node : String) (event : ListenerEvent) (script : String) :
    DefinitionBuilder :=
  { b with listeners := b.listeners.set node ((b.listeners.get? node).getD [] ++
    [⟨event, script⟩]) }

/-- Checks every condition expression before the definition is built. -/
def validateConditionExpressions (env : ParserEnv) (b : DefinitionBuilder) : EngineResult Unit := do
  let check (condition location : String) : EngineResult Unit :=
    match env.validateCondition condition with
    | .ok _ => pure ()
    | .error error => .error (.invalidDefinition s!"Invalid {location}: {error}")
  b.flows.entries.forM fun (source, outgoing) => outgoing.forM fun flow =>
    match flow.condition with
    | some condition =>
      let target := flow.target
      check condition s!"condition on sequence flow '{source}' -> '{target}'"
    | none => pure ()
  b.nodes.entries.forM fun (node, element) =>
    match element with
    | .complexGateway (some condition) _ =>
      check condition s!"join condition on complex gateway '{node}'"
    | .conditionalCatchEvent condition | .boundaryConditionalEvent _ condition _ =>
      check condition s!"condition on conditional event '{node}'"
    | _ => pure ()

/-- Builds and validates the definition. It gets its key when it is deployed. -/
def build (env : ParserEnv) (b : DefinitionBuilder) : EngineResult ProcessDefinition := do
  b.validateConditionExpressions env
  let d : ProcessDefinition := ⟨0, b.id, 1, b.nodes, b.flows, b.listeners, [], [], ∅, ∅⟩
  d.validate
  return d

end DefinitionBuilder

namespace Parser

open Bpmn (Scope SubProcess)

variable (env : ParserEnv)

/-! ## Names -/

/-- The names and codes of the document under their identifiers. -/
structure Lookups where
  messages : Map String String
  signals : Map String String
  errors : Map String String
  escalations : Map String String

def codeOf (e : Bpmn.Coded) : String := (e.code.or e.name).getD e.id

def lookups (defs : Bpmn.Definitions) : Lookups where
  messages := Map.ofList (defs.messages.map fun m => (m.id, m.name))
  signals := Map.ofList (defs.signals.map fun s => (s.id, s.name))
  errors := Map.ofList (defs.errors.map fun e => (e.id, codeOf e))
  escalations := Map.ofList (defs.escalations.map fun e => (e.id, codeOf e))

def serviceTaskTopic (task : Bpmn.ServiceTask) : String :=
  (firstAttr [task.topic, task.handler, task.camundaTopic]).getD task.id

def userTaskAssignee (task : Bpmn.UserTask) : String :=
  (firstAttr [task.assignee, task.camundaAssignee, none]).getD "unassigned"

def resolveMessageRef (messageRef : Option String) (lookup : Map String String) : Option String :=
  (nonemptyAttr messageRef).map fun r => (lookup.get? r).getD r

/-- A signal has no generic replacement: a missing or unknown reference is an error. -/
def resolveSignalRef (signalRef : Option String) (lookup : Map String String)
    (kind id : String) : EngineResult String :=
  match nonemptyAttr signalRef with
  | none => invalid s!"signalEventDefinition on {kind} '{id}' has no signalRef"
  | some ref =>
    match lookup.get? ref with
    | some name => .ok name
    | none => invalid s!"signalEventDefinition on {kind} '{id}' references unknown signal '{ref}'"

def parseConditionalCondition (definition : Bpmn.ConditionalEventDefinition) (kind id : String) :
    EngineResult String :=
  match nonemptyAttr definition.condition with
  | none => invalid s!"conditionalEventDefinition on {kind} '{id}' has no conditionExpression"
  | some condition =>
    match env.validateCondition condition with
    | .ok _ => .ok condition
    | .error error => invalid s!"invalid condition on conditional event '{id}': {error}"

def sendTaskMessageName (task : Bpmn.SendTask) (lookup : Map String String) : String :=
  let id := task.id
  (resolveMessageRef (task.message.bind (·.ref)) lookup <|>
    resolveMessageRef task.messageRef lookup <|>
    nonemptyAttr task.name).getD s!"send_{id}"

def parseMultiInstance (mi : Option Bpmn.MultiInstanceLoop) (id : String) :
    EngineResult (Option MultiInstanceDef) :=
  match mi with
  | none => .ok none
  | some mi =>
    let isSequential := mi.isSequential.getD false
    let elementVariable := nonemptyAttr mi.elementVariable
    match nonemptyAttr mi.collection, nonemptyAttr mi.loopCardinality with
    | some _, some _ =>
      invalid (s!"Multi-instance element '{id}' must define either collection or " ++
        "loopCardinality, not both")
    | none, none =>
      invalid s!"Multi-instance element '{id}' requires either collection or loopCardinality"
    | some collection, none =>
      .ok (some ⟨isSequential, none, some collection, elementVariable⟩)
    | none, some cardinality =>
      match parseUnsigned 32 cardinality.toList with
      | none | some 0 =>
        invalid (s!"Multi-instance loopCardinality of element '{id}' must be a positive " ++
          s!"integer, got '{cardinality}'")
      | some value => .ok (some ⟨isSequential, some (toString value), none, elementVariable⟩)

def rejectMultiInstance (mi : Option Bpmn.MultiInstanceLoop) (id kind : String) :
    EngineResult Unit :=
  if mi.isSome then
    invalid (s!"Multi-instance is only supported for service tasks; {kind} '{id}' is not " ++
      "supported")
  else .ok ()

/-! ## Link events -/

/-- The targets of the link catch events of a scope under their names, and the catch events. -/
structure LinkScope where
  targets : Map String String
  catchIds : List String

def addLinkCatch (label : String) (flows : List Bpmn.SequenceFlow) (scope : LinkScope)
    (event : Bpmn.CatchEvent) : EngineResult LinkScope :=
  match event.link with
  | none => .ok scope
  | some link =>
    let name := trim link.name
    let id := event.id
    if name.isEmpty then
      invalid s!"link catch event '{id}' in scope '{label}' has an empty linkEventDefinition name"
    else if scope.targets.contains name then
      invalid s!"duplicate link name '{name}' in scope '{label}' (catch event '{id}')"
    else if flows.any fun flow => flow.targetRef == id then
      invalid s!"link catch event '{id}' in scope '{label}' must not have incoming sequence flows"
    else
      match (flows.filter fun flow => flow.sourceRef == id).map (·.targetRef) with
      | [] => invalid s!"link catch event '{id}' in scope '{label}' has no outgoing sequence flow"
      | [target] => .ok ⟨scope.targets.set name target, scope.catchIds ++ [id]⟩
      | _ =>
        invalid (s!"link catch event '{id}' in scope '{label}' must have exactly one outgoing " ++
          "sequence flow")

def resolveLinkScope (label : String) (catches : List Bpmn.CatchEvent)
    (flows : List Bpmn.SequenceFlow) : EngineResult LinkScope :=
  catches.foldlM (addLinkCatch label flows) ⟨∅, []⟩

def resolveLinkThrow (scope : LinkScope) (label id : String) (link : Bpmn.LinkEventDefinition)
    (flows : List Bpmn.SequenceFlow) : EngineResult String :=
  let name := trim link.name
  if name.isEmpty then
    invalid s!"link throw event '{id}' in scope '{label}' has an empty linkEventDefinition name"
  else if flows.any fun flow => flow.sourceRef == id then
    invalid s!"link throw event '{id}' in scope '{label}' must not have outgoing sequence flows"
  else
    match scope.targets.get? name with
    | some target => .ok target
    | none =>
      invalid (s!"link throw event '{id}' references unknown link name '{name}' in scope " ++
        s!"'{label}': no matching link catch event")

/-! ## Elements -/

/-- What is wrong with an element that the engine does not support. -/
def transactionViolation (id : String) : String :=
  "transaction sub-processes are not supported; cancel events cannot be deployed " ++
    s!"(transaction '{id}')"

def cancelViolation (kind id : String) : String :=
  "cancel end events require a transaction sub-process; transactions are not supported " ++
    s!"({kind} '{id}')"

def conditionalStartViolation (id : String) (subProcess : Option String) : String :=
  let location := match subProcess with
    | some subProcess => s!"start event '{id}' in subProcess '{subProcess}'"
    | none => s!"start event '{id}'"
  s!"conditional start events are not supported; no global variable scope ({location})"

def genericTaskViolation (id : String) : String :=
  s!"unsupported element <task id='{id}'>: convert to userTask, serviceTask, scriptTask, " ++
    "or sendTask"

def place {α : Type} (id : α → String) (element : α → EngineResult BpmnElement)
    (elements : List α) (b : DefinitionBuilder) : EngineResult DefinitionBuilder :=
  elements.foldlM (fun b x => do return b.node (id x) (← element x)) b

def addListeners (node : String) (listeners : List Bpmn.Listener) (b : DefinitionBuilder) :
    DefinitionBuilder :=
  listeners.foldl
    (fun b l =>
      match l.event, l.script with
      | "start", some script => b.listener node .start (trim script)
      | "end", some script => b.listener node .end (trim script)
      | _, _ => b)
    b

def placeWithListeners {α : Type} (id : α → String) (listeners : α → List Bpmn.Listener)
    (element : α → EngineResult BpmnElement) (elements : List α) (b : DefinitionBuilder) :
    EngineResult DefinitionBuilder :=
  elements.foldlM
    (fun b x => do return addListeners (id x) (listeners x) (b.node (id x) (← element x))) b

def serviceTask (task : Bpmn.ServiceTask) : EngineResult BpmnElement := do
  let multiInstance ← parseMultiInstance task.multiInstance task.id
  return .serviceTask (serviceTaskTopic task) multiInstance

def userTask (kind : String) (task : Bpmn.UserTask) : EngineResult BpmnElement := do
  rejectMultiInstance task.multiInstance task.id kind
  return .userTask (userTaskAssignee task)

def sendTask (lookups : Lookups) (task : Bpmn.SendTask) : EngineResult BpmnElement := do
  rejectMultiInstance task.multiInstance task.id "sendTask"
  return .sendTask (sendTaskMessageName task lookups.messages) none

/-- A business rule task is an external task; decision tables are not supported. -/
def businessRuleTask (task : Bpmn.ServiceTask) : EngineResult BpmnElement := do
  let id := task.id
  if (firstAttr [task.topic, task.handler, task.camundaTopic]).isNone then
    invalid (s!"businessRuleTask '{id}' has no topic (data-topic, data-handler, or " ++
      "camunda:topic); DMN is not supported")
  else
    rejectMultiInstance task.multiInstance task.id "businessRuleTask"
    return .serviceTask (serviceTaskTopic task) none

def callActivity (task : Bpmn.CallActivity) : EngineResult BpmnElement :=
  return .callActivity (task.calledElement.getD task.id)

def eventBasedGateway (gateway : Bpmn.Gateway) : EngineResult BpmnElement :=
  let id := gateway.id
  if gateway.instantiate.any flagIsTrue || gateway.eventGatewayType.any isParallelGatewayType then
    invalid s!"instantiating or parallel eventBasedGateway '{id}' is not supported"
  else .ok .eventBasedGateway

def catchEvent (lookups : Lookups) (event : Bpmn.CatchEvent) : EngineResult BpmnElement :=
  let id := event.id
  match event.timer, event.message, event.signal, event.conditional with
  | some timer, _, _, _ => return .timerCatchEvent (← parseTimerDefinition env id timer)
  | none, some message, _, _ =>
    return .messageCatchEvent ((resolveMessageRef message.ref lookups.messages).getD
      "generic_message")
  | none, none, some signal, _ =>
    return .signalCatchEvent
      (← resolveSignalRef signal.ref lookups.signals "intermediateCatchEvent" id)
  | none, none, none, some condition =>
    return .conditionalCatchEvent
      (← parseConditionalCondition env condition "intermediateCatchEvent" id)
  | none, none, none, none =>
    invalid (s!"intermediateCatchEvent '{id}' has no timerEventDefinition, " ++
      "messageEventDefinition, signalEventDefinition, or conditionalEventDefinition")

/-- A throw event that is not a link. How it names its message is different in a process and in a
subprocess. -/
def throwEvent (lookups : Lookups) (messageName : Option String → String)
    (event : Bpmn.ThrowEvent) : EngineResult BpmnElement :=
  let id := event.id
  match event.message, event.signal, event.escalation, event.compensate with
  | some message, _, _, _ => return .sendTask (messageName message.ref) none
  | none, some signal, _, _ =>
    return .signalThrowEvent
      (← resolveSignalRef signal.ref lookups.signals "intermediateThrowEvent" id)
  | none, none, some escalation, _ =>
    return .escalationThrowEvent
      ((escalation.ref.bind lookups.escalations.get?).getD "generic_escalation")
  | none, none, none, some compensate => return .compensationThrowEvent compensate.ref
  | none, none, none, none =>
    invalid (s!"intermediateThrowEvent '{id}' has no message, signal, escalation, or " ++
      "compensate definition")

/-- A boundary event. How it names its message is different in a process and in a subprocess. -/
def boundaryEvent (lookups : Lookups) (messageName : Option String → String)
    (event : Bpmn.BoundaryEvent) : EngineResult BpmnElement :=
  let id := event.id
  let attachedTo := event.attachedToRef
  let cancelActivity := event.cancelActivity.getD true
  if event.cancel then invalid (cancelViolation "boundary event" id)
  else
    match event.timer, event.message, event.signal, event.conditional, event.error,
        event.escalation, event.compensate with
    | some timer, _, _, _, _, _, _ =>
      return .boundaryTimerEvent attachedTo (← parseTimerDefinition env id timer) cancelActivity
    | none, some message, _, _, _, _, _ =>
      return .boundaryMessageEvent attachedTo (messageName message.ref) cancelActivity
    | none, none, some signal, _, _, _, _ =>
      return .boundarySignalEvent attachedTo
        (← resolveSignalRef signal.ref lookups.signals "boundaryEvent" id) cancelActivity
    | none, none, none, some condition, _, _, _ =>
      return .boundaryConditionalEvent attachedTo
        (← parseConditionalCondition env condition "boundaryEvent" id) cancelActivity
    | none, none, none, none, some error, _, _ =>
      return .boundaryErrorEvent attachedTo (error.ref.bind lookups.errors.get?)
    | none, none, none, none, none, some escalation, _ =>
      return .boundaryEscalationEvent attachedTo (escalation.ref.bind lookups.escalations.get?)
        cancelActivity
    | none, none, none, none, none, none, some _ => return .boundaryCompensationEvent attachedTo
    | none, none, none, none, none, none, none =>
      invalid (s!"boundaryEvent '{id}' has no timer, message, signal, conditional, error, " ++
        "escalation, or compensate definition")

def endEvent (lookups : Lookups) (event : Bpmn.EndEvent) : EngineResult BpmnElement :=
  if event.terminate then return .terminateEndEvent
  else
    match event.error, event.escalation, event.compensate, event.signal with
    | some error, _, _, _ =>
      return .errorEndEvent ((error.ref.bind lookups.errors.get?).getD "generic_error")
    | none, some escalation, _, _ =>
      return .escalationEndEvent
        ((escalation.ref.bind lookups.escalations.get?).getD "generic_escalation")
    | none, none, some compensate, _ => return .compensationEndEvent compensate.ref
    | none, none, none, some signal =>
      return .signalEndEvent (← resolveSignalRef signal.ref lookups.signals "endEvent" event.id)
    | none, none, none, none => return .endEvent

/-- Sequence flows are added in their order; those of link catch events are not. -/
def addFlows (flows : List Bpmn.SequenceFlow) (skipped : String → Bool) (b : DefinitionBuilder) :
    DefinitionBuilder :=
  flows.foldl
    (fun b flow =>
      if skipped flow.sourceRef then b
      else
        match flow.conditionExpression with
        | some condition => b.conditionalFlow flow.sourceRef flow.targetRef (trim condition)
        | none => b.flow flow.sourceRef flow.targetRef)
    b

def flowLookup (flows : List Bpmn.SequenceFlow) : Map String String :=
  Map.ofList (flows.map fun flow => (flow.id, flow.targetRef))

def complexGateway (default : Option String) (gateway : Bpmn.ComplexGateway) : BpmnElement :=
  .complexGateway (gateway.activationCondition.map trim) default

/-! ## Subprocesses -/

def subprocessEnd (lookups : Lookups) (asEventHandler : Bool) (subProcessId : String)
    (event : Bpmn.EndEvent) : EngineResult BpmnElement :=
  if event.cancel then invalid (cancelViolation "end event" event.id)
  else if asEventHandler then endEvent lookups event
  else .ok (.subProcessEndEvent subProcessId)

def subprocessScript (task : Bpmn.ScriptTask) : EngineResult BpmnElement := do
  let id := task.id
  let script := (task.script.or task.dataScript).getD ""
  if (trim script).isEmpty then
    invalid s!"scriptTask '{id}' has an empty script"
  else
    rejectMultiInstance task.multiInstance id "scriptTask"
    return .scriptTask script none

def subprocessReceive (lookups : Lookups) (task : Bpmn.ReceiveTask) : EngineResult BpmnElement := do
  let id := task.id
  if task.instantiate.any flagIsTrue then
    invalid s!"instantiating receiveTask '{id}' is not supported"
  else
    rejectMultiInstance task.multiInstance id "receiveTask"
    match resolveMessageRef (task.messageRef.or (task.message.bind (·.ref))) lookups.messages with
    | none => invalid s!"receiveTask '{id}' has no messageRef"
    | some name => return .messageCatchEvent name

/-- A default flow that does not exist is an error inside a subprocess. -/
def resolveSubProcessDefault (lookup : Map String String) (subProcessId gatewayId : String)
    (default : Option String) : EngineResult (Option String) :=
  match default with
  | none => .ok none
  | some flowId =>
    match lookup.get? flowId with
    | some target => .ok (some target)
    | none =>
      invalid (s!"gateway '{gatewayId}' in subProcess '{subProcessId}' references unknown " ++
        s!"default flow '{flowId}'")

/-- A link throw leads to the target of its catch event, also in the graph. -/
def placeThrow (label : String) (scope : LinkScope) (flows : List Bpmn.SequenceFlow)
    (element : Bpmn.ThrowEvent → EngineResult BpmnElement) (b : DefinitionBuilder)
    (event : Bpmn.ThrowEvent) : EngineResult DefinitionBuilder :=
  match event.link with
  | some link => do
    let target ← resolveLinkThrow scope label event.id link flows
    return (b.node event.id (.linkThrowEvent target)).flow event.id target
  | none => do return b.node event.id (← element event)

/-- The node at which a subprocess begins, and whether its start event is a fork. The start event
itself only leads on, unless it has several outgoing flows. -/
def subprocessEntry (asEventHandler : Bool) (subProcessId : String) (scope : Scope) :
    EngineResult (String × String × Bool) :=
  match scope.startEvents with
  | [] => invalid s!"subProcess '{subProcessId}' has no startEvent"
  | _ :: _ :: _ => invalid s!"subProcess '{subProcessId}' must have exactly one startEvent"
  | [start] =>
    let id := start.id
    if start.conditional.isSome then
      invalid (conditionalStartViolation id (some subProcessId))
    else
      match (scope.sequenceFlows.filter fun flow => flow.sourceRef == id).map (·.targetRef) with
      | [] =>
        invalid s!"startEvent '{id}' in subProcess '{subProcessId}' has no outgoing sequence flow"
      | [target] => .ok (id, target, false)
      | _ =>
        if asEventHandler then
          invalid s!"event sub-process start '{id}' must have exactly one outgoing sequence flow"
        else .ok (id, id, true)

/-- The nodes of the entry: the subprocess itself, and its start event where that is needed. -/
def placeEntry (asEventHandler : Bool) (subProcessId : String) (entry : String × String × Bool)
    (b : DefinitionBuilder) : DefinitionBuilder :=
  let (start, target, forks) := entry
  if asEventHandler then b.node start .startEvent
  else
    let b := b.node subProcessId (.embeddedSubProcess target)
    if forks then b.node start .parallelGateway else b

def placeSubprocessTasks (lookups : Lookups) (scope : Scope) (b : DefinitionBuilder) :
    EngineResult DefinitionBuilder := do
  let b ← place (·.id) serviceTask scope.serviceTasks b
  let b ← place (·.id) subprocessScript scope.scriptTasks b
  let b ← place (·.id) (userTask "userTask") scope.userTasks b
  let b ← place (·.id) (sendTask lookups) scope.sendTasks b
  let b ← place (·.id) (subprocessReceive lookups) scope.receiveTasks b
  let b ← place (·.id) (userTask "manualTask") scope.manualTasks b
  let b ← place (·.id) businessRuleTask scope.businessRuleTasks b
  match scope.genericTasks with
  | task :: _ => invalid (genericTaskViolation task.id)
  | [] => place (·.id) callActivity scope.callActivities b

def placeSubprocessGateways (subProcessId : String) (scope : Scope) (b : DefinitionBuilder) :
    EngineResult DefinitionBuilder := do
  let default := resolveSubProcessDefault (flowLookup scope.sequenceFlows) subProcessId
  let b ← place (·.id) (fun gw => do return .exclusiveGateway (← default gw.id gw.default))
    scope.exclusiveGateways b
  let b ← place (·.id) (fun _ => .ok .parallelGateway) scope.parallelGateways b
  let b ← place (·.id) (fun _ => .ok .inclusiveGateway) scope.inclusiveGateways b
  let b ← place (·.id) eventBasedGateway scope.eventBasedGateways b
  place (·.id) (fun gw => do return complexGateway (← default gw.id gw.default) gw)
    scope.complexGateways b

def placeSubprocessEvents (lookups : Lookups) (subProcessId : String) (links : LinkScope)
    (scope : Scope) (b : DefinitionBuilder) : EngineResult DefinitionBuilder := do
  let messageName (default : String) (ref : Option String) : String :=
    (resolveMessageRef ref lookups.messages).getD default
  -- Link catch events get no node: the throw event leads to their target.
  let b ← place (·.id) (catchEvent env lookups)
    (scope.intermediateCatchEvents.filter fun event => event.link.isNone) b
  let b ← scope.intermediateThrowEvents.foldlM (placeThrow subProcessId links scope.sequenceFlows
    (throwEvent lookups (messageName "generic_throw"))) b
  place (·.id) (boundaryEvent env lookups (messageName "unknown")) scope.boundaryEvents b

/-- Everything of a subprocess but the subprocesses inside it. -/
def flattenScope (lookups : Lookups) (asEventHandler : Bool) (subProcess : SubProcess)
    (b : DefinitionBuilder) : EngineResult DefinitionBuilder := do
  let id := subProcess.id
  let scope := subProcess.scope
  if subProcess.isTriggeredByEvent && !asEventHandler then
    invalid s!"event sub-process '{id}' inside a sub-process is not supported"
  else
    match scope.transaction with
    | some transaction => invalid (transactionViolation (transaction.getD id))
    | none =>
      let links ← resolveLinkScope id scope.intermediateCatchEvents scope.sequenceFlows
      let entry ← subprocessEntry asEventHandler id scope
      let b := placeEntry asEventHandler id entry b
      let b ← place (·.id) (subprocessEnd lookups asEventHandler id) scope.endEvents b
      let b ← placeSubprocessTasks lookups scope b
      let b ← placeSubprocessGateways id scope b
      let b ← placeSubprocessEvents env lookups id links scope b
      let (start, _, forks) := entry
      -- The flow out of the start event is the entry of the subprocess.
      return addFlows scope.sequenceFlows (fun source =>
        (source == start && !forks && !asEventHandler) || links.catchIds.contains source) b

mutual

def flattenSubprocess (lookups : Lookups) (asEventHandler : Bool) :
    SubProcess → DefinitionBuilder → EngineResult DefinitionBuilder
  | .mk id triggered listeners scope nested, b => do
    let b ← flattenScope env lookups asEventHandler (.mk id triggered listeners scope nested) b
    flattenSubprocesses lookups nested b

def flattenSubprocesses (lookups : Lookups) :
    List SubProcess → DefinitionBuilder → EngineResult DefinitionBuilder
  | [], b => .ok b
  | subProcess :: rest, b => do
    let b ← flattenSubprocess lookups false subProcess b
    flattenSubprocesses lookups rest b

end

/-! ## Event subprocesses -/

def referencedCode (reference : Option String) (lookup : Map String String)
    (kind startId : String) :
    EngineResult (Option String) :=
  match nonemptyAttr reference with
  | none => .ok none
  | some reference =>
    match lookup.get? reference with
    | some code => .ok (some code)
    | none => invalid
        s!"event sub-process start '{startId}' references unknown {kind} '{reference}'"

def eventSubprocessTrigger (lookups : Lookups) (subProcessId : String) (start : Bpmn.StartEvent) :
    EngineResult EventSubProcessTrigger := do
  let startId := start.id
  if start.conditional.isSome then
    invalid (conditionalStartViolation startId (some subProcessId))
  else
    let timers ← start.timer.toList.mapM fun timer => do
      return EventSubProcessTrigger.timer (← parseTimerDefinition env startId timer)
    let messages ← start.message.toList.mapM fun message =>
      match resolveMessageRef message.ref lookups.messages with
      | some name => .ok (EventSubProcessTrigger.message name)
      | none => invalid s!"message start of event sub-process '{subProcessId}' requires messageRef"
    let signals ← start.signal.toList.mapM fun signal => do
      return EventSubProcessTrigger.signal
        (← resolveSignalRef signal.ref lookups.signals "startEvent" startId)
    let errors ← start.error.toList.mapM fun error => do
      return EventSubProcessTrigger.error
        (← referencedCode error.ref lookups.errors "error" startId)
    let escalations ← start.escalation.toList.mapM fun escalation => do
      return EventSubProcessTrigger.escalation
        (← referencedCode escalation.ref lookups.escalations "escalation" startId)
    match timers ++ messages ++ signals ++ errors ++ escalations with
    | [trigger] => return trigger
    | _ =>
      invalid (s!"event sub-process '{subProcessId}' start '{startId}' requires exactly one " ++
        "event definition")

/-- The start event of an event subprocess is the only one. -/
def eventSubprocessStart (subProcess : SubProcess) : EngineResult Bpmn.StartEvent :=
  let id := subProcess.id
  if !subProcess.listeners.isEmpty then
    invalid (s!"execution listeners on event sub-process '{id}' are not supported; attach them " ++
      "to activities inside the handler")
  else
    match subProcess.subProcesses.find? (·.isTriggeredByEvent), subProcess.scope.startEvents with
    | some nested, _ =>
      let nestedId := nested.id
      invalid s!"event sub-process '{nestedId}' inside subProcess '{id}' is not supported"
    | none, [start] => .ok start
    | none, _ => invalid s!"event sub-process '{id}' requires exactly one start event"

def compileEventSubprocess (lookups : Lookups) (subProcess : SubProcess) :
    EngineResult (EventSubProcess × ProcessDefinition) := do
  let id := subProcess.id
  let start ← eventSubprocessStart subProcess
  let startId := start.id
  let isInterrupting := start.isInterrupting.getD true
  let trigger ← eventSubprocessTrigger env lookups id start
  match trigger, isInterrupting with
  | .error _, false => invalid s!"error start of event sub-process '{id}' must be interrupting"
  | _, _ =>
    if (subProcess.scope.sequenceFlows.filter fun flow => flow.sourceRef == startId).length ≠ 1
    then
      invalid s!"event sub-process start '{startId}' must have exactly one outgoing sequence flow"
    else
      let b ← flattenSubprocess env lookups true subProcess (.new id)
      let body ← b.build env
      let nodeIds := body.nodes.keys.mergeSort fun a b => decide (a ≤ b)
      return (⟨id, startId, nodeIds, trigger, isInterrupting⟩, body)

/-- What two event subprocesses of one process may not both wait for. -/
def triggerIdentity : EventSubProcessTrigger → Option String
  | .timer _ => none
  | .message name => some s!"message:{name}"
  | .signal name => some s!"signal:{name}"
  | .error code =>
    let code := code.getD "*"
    some s!"error:{code}"
  | .escalation code =>
    let code := code.getD "*"
    some s!"escalation:{code}"

def appendAll {β : Type} (m n : Map String (List β)) : Map String (List β) :=
  n.entries.foldl (fun m (key, values) => m.set key ((m.get? key).getD [] ++ values)) m

def attachEventSubprocess (d : ProcessDefinition) (handler : EventSubProcess)
    (body : ProcessDefinition) : EngineResult ProcessDefinition :=
  let id := handler.id
  let identity := triggerIdentity handler.trigger
  let identityText := identity.getD ""
  if identity.isSome &&
      d.eventSubprocesses.any (fun other => triggerIdentity other.trigger == identity) then
    invalid s!"event sub-process '{id}' duplicates trigger '{identityText}'"
  else if d.eventSubprocesses.any fun other => other.id == id then
    invalid s!"duplicate event sub-process id '{id}'"
  else
    match body.nodes.keys.find? d.nodes.contains with
    | some node => invalid s!"event sub-process '{id}' reuses node id '{node}'"
    | none => .ok
        { d with
          nodes := d.nodes.extend body.nodes
          flows := appendAll d.flows body.flows
          listeners := appendAll d.listeners body.listeners
          eventSubprocesses := d.eventSubprocesses ++ [handler] }

/-! ## Processes -/

/-- A message that is only looked up. -/
def lookedUpMessage (lookups : Lookups) (default : String) (ref : Option String) : String :=
  (ref.bind lookups.messages.get?).getD default

def processStart (lookups : Lookups) (event : Bpmn.StartEvent) : EngineResult BpmnElement :=
  let id := event.id
  if event.conditional.isSome then invalid (conditionalStartViolation id none)
  else
    match event.timer, event.message, event.signal with
    | some timer, _, _ => return .timerStartEvent (← parseTimerDefinition env id timer)
    | none, some message, _ =>
      return .messageStartEvent (lookedUpMessage lookups "generic_message" message.ref)
    | none, none, some signal =>
      return .signalStartEvent (← resolveSignalRef signal.ref lookups.signals "startEvent" id)
    | none, none, none => return .startEvent

def processEnd (lookups : Lookups) (event : Bpmn.EndEvent) : EngineResult BpmnElement :=
  if event.cancel then invalid (cancelViolation "end event" event.id) else endEvent lookups event

def processScript (task : Bpmn.ScriptTask) : EngineResult BpmnElement := do
  let id := task.id
  let script := (task.script.or task.dataScript).getD ""
  rejectMultiInstance task.multiInstance id "scriptTask"
  if (trim script).isEmpty then
    invalid s!"scriptTask '{id}' has an empty script"
  else
    return .scriptTask script none

/-- A receive task that starts the process is a message start. -/
def processReceive (lookups : Lookups) (flows : List Bpmn.SequenceFlow) (task : Bpmn.ReceiveTask) :
    EngineResult BpmnElement := do
  let id := task.id
  rejectMultiInstance task.multiInstance id "receiveTask"
  match resolveMessageRef (task.messageRef.or (task.message.bind (·.ref))) lookups.messages with
  | none => invalid s!"receiveTask '{id}' has no messageRef"
  | some name =>
    let instantiating := task.instantiate.any flagIsTrue
    if instantiating && flows.any (fun flow => flow.targetRef == id) then
      invalid s!"instantiating receiveTask '{id}' must not have incoming sequence flows"
    else
      return if instantiating then .messageStartEvent name else .messageCatchEvent name

def placeProcessTasks (lookups : Lookups) (scope : Scope) (b : DefinitionBuilder) :
    EngineResult DefinitionBuilder := do
  let b ← placeWithListeners (·.id) (·.listeners) serviceTask scope.serviceTasks b
  let b ← placeWithListeners (·.id) (·.listeners) (userTask "userTask") scope.userTasks b
  let b ← placeWithListeners (·.id) (·.listeners) processScript scope.scriptTasks b
  let b ← placeWithListeners (·.id) (·.listeners) (sendTask lookups) scope.sendTasks b
  let b ← placeWithListeners (·.id) (·.listeners) (processReceive lookups scope.sequenceFlows)
    scope.receiveTasks b
  let b ← placeWithListeners (·.id) (·.listeners) (userTask "manualTask") scope.manualTasks b
  let b ← placeWithListeners (·.id) (·.listeners) businessRuleTask scope.businessRuleTasks b
  match scope.genericTasks with
  | task :: _ => invalid (genericTaskViolation task.id)
  | [] => placeWithListeners (·.id) (·.listeners) callActivity scope.callActivities b

/-- A default flow that does not exist is no default flow in a process. -/
def placeProcessGateways (scope : Scope) (b : DefinitionBuilder) :
    EngineResult DefinitionBuilder := do
  let default (flow : Option String) := flow.bind (flowLookup scope.sequenceFlows).get?
  let b ← placeWithListeners (·.id) (·.listeners)
    (fun gw => .ok (.exclusiveGateway (default gw.default))) scope.exclusiveGateways b
  let b ← placeWithListeners (·.id) (·.listeners) (fun _ => .ok .inclusiveGateway)
    scope.inclusiveGateways b
  let b ← placeWithListeners (·.id) (·.listeners) (fun _ => .ok .parallelGateway)
    scope.parallelGateways b
  let b ← placeWithListeners (·.id) (·.listeners) eventBasedGateway scope.eventBasedGateways b
  placeWithListeners (·.id) (·.listeners) (fun gw => .ok (complexGateway (default gw.default) gw))
    scope.complexGateways b

def placeProcessEvents (lookups : Lookups) (processId : String) (links : LinkScope) (scope : Scope)
    (b : DefinitionBuilder) : EngineResult DefinitionBuilder := do
  let b ← placeWithListeners (·.id) (·.listeners) (catchEvent env lookups)
    (scope.intermediateCatchEvents.filter fun event => event.link.isNone) b
  let b ← scope.intermediateThrowEvents.foldlM
    (fun b event => do
      return addListeners event.id event.listeners
        (← placeThrow processId links scope.sequenceFlows
          (throwEvent lookups (lookedUpMessage lookups "generic_throw")) b event))
    b
  place (·.id)
    (boundaryEvent env lookups fun ref =>
      (ref.map fun r => (lookups.messages.get? r).getD r).getD "unknown")
    scope.boundaryEvents b

/-- Event subprocesses are not part of the flow. -/
def checkUnconnected (process : Bpmn.Process) : EngineResult Unit :=
  process.subProcesses.forM fun subProcess =>
    let id := subProcess.id
    if subProcess.isTriggeredByEvent &&
        process.scope.sequenceFlows.any (fun flow => flow.sourceRef == id || flow.targetRef == id)
    then invalid s!"event sub-process '{id}' cannot have incoming or outgoing sequence flows"
    else .ok ()

/-- An event subprocess stays a handler of its own, every other subprocess is flattened. -/
def addSubprocess (lookups : Lookups)
    (parts : DefinitionBuilder × List (EventSubProcess × ProcessDefinition))
    (subProcess : SubProcess) :
    EngineResult (DefinitionBuilder × List (EventSubProcess × ProcessDefinition)) := do
  let (b, handlers) := parts
  if subProcess.isTriggeredByEvent then
    return (b, handlers ++ [← compileEventSubprocess env lookups subProcess])
  else
    return (← flattenSubprocess env lookups false subProcess b, handlers)

def compileProcess (defs : Bpmn.Definitions) (process : Bpmn.Process) :
    EngineResult ProcessDefinition := do
  let id := process.id
  let scope := process.scope
  match scope.transaction with
  | some transaction => invalid (transactionViolation (transaction.getD id))
  | none =>
    let links ← resolveLinkScope id scope.intermediateCatchEvents scope.sequenceFlows
    let lookups := lookups defs
    let b := addListeners id process.listeners (.new id)
    let b ← placeWithListeners (·.id) (·.listeners) (processStart env lookups) scope.startEvents b
    let b ← placeWithListeners (·.id) (·.listeners) (processEnd lookups) scope.endEvents b
    let b ← placeProcessTasks lookups scope b
    let b ← placeProcessGateways scope b
    let b ← placeProcessEvents env lookups id links scope b
    checkUnconnected process
    let b := addFlows scope.sequenceFlows links.catchIds.contains b
    let (b, handlers) ← process.subProcesses.foldlM (addSubprocess env lookups) (b, [])
    let d ← b.build env
    handlers.foldlM (fun d (handler, body) => attachEventSubprocess d handler body) d

/-- The first executable process, or else the first one. -/
def parseDefinitions (defs : Bpmn.Definitions) : EngineResult ProcessDefinition :=
  match defs.processes.find? (fun process => process.isExecutable == some true) <|>
      defs.processes.head? with
  | some process => compileProcess env defs process
  | none => invalid "No <process> element found in BPMN XML"

end Parser

end BpmnEngine
