import BpmnEngine.ProcessData

/-!
# Process definitions

The elements of a process graph, its sequence flows and the questions the engine asks
about them. A definition stores its nodes in the order in which they are visited; a
hash map visits them in an unspecified but fixed order, and every order is allowed
here. Nested definitions and declared variable names are left out, since no
operation of the engine reads them.

Conditions, scripts, cron expressions and the visiting order of the engine's own hash
maps come from an environment about which only the laws stated in it are known.
-/
namespace BpmnEngine

/-- Instants and durations in nanoseconds. -/
abbrev Time := Int

/-- What the engine takes from outside: the condition evaluator, the script runner, the
cron calendar, and the order in which a hash map visits its entries. -/
structure Env where
  evaluateCondition : String → Variables → Bool
  executeScript : String → Variables → EngineResult Variables
  cronNext : String → Time → Option Time
  visit : {α : Type} → Nat → List α → List α
  visit_perm : ∀ {α : Type} (n : Nat) (l : List α), (visit n l).Perm l

@[simp] theorem Env.mem_visit (env : Env) {α : Type} (n : Nat) (l : List α) (a : α) :
    a ∈ env.visit n l ↔ a ∈ l :=
  (env.visit_perm n l).mem_iff

/-- The plainest environment: every condition holds, scripts change nothing, the calendar has
every instant, and tables are visited in their order. -/
def Env.plain : Env where
  evaluateCondition _ _ := true
  executeScript _ vars := .ok vars
  cronNext _ now := some (now + 1)
  visit _ l := l
  visit_perm _ l := List.Perm.refl l

/-- Every table is visited from its `k`-th entry on. -/
def Env.rotated (env : Env) (k : Nat) : Env :=
  { env with
    visit := fun _ l => l.rotate k
    visit_perm := fun _ l => List.rotate_perm l k }

theorem Env.exists_rotated_last (env : Env) {α : Type} (n : Nat) {l : List α} {a : α} (h : a ∈ l) :
    ∃ k l', (env.rotated k).visit n l = l' ++ [a] := by
  obtain ⟨s, t, rfl⟩ := List.append_of_mem h
  refine ⟨(s ++ [a]).length, t ++ s, ?_⟩
  show (s ++ a :: t).rotate _ = _
  rw [← List.singleton_append, ← List.append_assoc, List.rotate_append_length_eq, List.append_assoc]

/-! ## Timers -/

inductive TimerDefinition where
  | duration (length : Nat)
  | absoluteDate (date : Time)
  | cronCycle (expression : String) (maxRepetitions : Option Nat)
  | repeatingInterval (repetitions : Option Nat) (interval : Nat)
  deriving DecidableEq, Repr

namespace TimerDefinition

/-- The longest duration the calendar library represents, in nanoseconds. -/
def maxDuration : Nat := 9223372036854775807 * 1000000

def afterDuration (now : Time) (length : Nat) : Option Time :=
  if length ≤ maxDuration then some (now + length) else none

def nextExpiry (env : Env) (now : Time) : TimerDefinition → Option Time
  | .duration length => afterDuration now length
  | .absoluteDate date => if date > now then some date else none
  | .cronCycle expression _ => env.cronNext expression now
  | .repeatingInterval _ interval => afterDuration now interval

def isRecurring : TimerDefinition → Bool
  | .cronCycle .. => true
  | .repeatingInterval .. => true
  | _ => false

def initialRemainingRepetitions : TimerDefinition → Option Nat
  | .repeatingInterval repetitions _ => repetitions
  | .cronCycle _ maxRepetitions => maxRepetitions
  | _ => none

end TimerDefinition

/-! ## Elements -/

structure MultiInstanceDef where
  isSequential : Bool
  loopCardinality : Option String
  collection : Option String
  elementVariable : Option String
  deriving DecidableEq, Repr

inductive BpmnElement where
  | startEvent
  | timerStartEvent (timer : TimerDefinition)
  | endEvent
  | terminateEndEvent
  | serviceTask (topic : String) (multiInstance : Option MultiInstanceDef)
  | userTask (assignee : String)
  | scriptTask (script : String) (multiInstance : Option MultiInstanceDef)
  | sendTask (messageName : String) (multiInstance : Option MultiInstanceDef)
  | exclusiveGateway (default : Option String)
  | inclusiveGateway
  | parallelGateway
  | eventBasedGateway
  | complexGateway (joinCondition default : Option String)
  | timerCatchEvent (timer : TimerDefinition)
  | boundaryTimerEvent (attachedTo : String) (timer : TimerDefinition) (cancelActivity : Bool)
  | messageStartEvent (messageName : String)
  | messageCatchEvent (messageName : String)
  | boundaryMessageEvent (attachedTo messageName : String) (cancelActivity : Bool)
  | signalStartEvent (signalName : String)
  | signalCatchEvent (signalName : String)
  | signalThrowEvent (signalName : String)
  | signalEndEvent (signalName : String)
  | boundarySignalEvent (attachedTo signalName : String) (cancelActivity : Bool)
  | conditionalCatchEvent (condition : String)
  | boundaryConditionalEvent (attachedTo condition : String) (cancelActivity : Bool)
  | boundaryErrorEvent (attachedTo : String) (errorCode : Option String)
  | errorEndEvent (errorCode : String)
  | escalationEndEvent (escalationCode : String)
  | escalationThrowEvent (escalationCode : String)
  | boundaryEscalationEvent (attachedTo : String) (escalationCode : Option String)
      (cancelActivity : Bool)
  | compensationThrowEvent (activityRef : Option String)
  | compensationEndEvent (activityRef : Option String)
  | linkThrowEvent (target : String)
  | boundaryCompensationEvent (attachedTo : String)
  | callActivity (calledElement : String)
  | embeddedSubProcess (startNodeId : String)
  | subProcessEndEvent (subProcessId : String)
  deriving DecidableEq, Repr

namespace BpmnElement

def isStart : BpmnElement → Bool
  | .startEvent | .timerStartEvent _ | .messageStartEvent _ | .signalStartEvent _ => true
  | _ => false

def isEnd : BpmnElement → Bool
  | .endEvent | .errorEndEvent _ | .escalationEndEvent _ | .compensationEndEvent _
  | .terminateEndEvent | .subProcessEndEvent _ | .signalEndEvent _ => true
  | _ => false

def isGateway : BpmnElement → Bool
  | .exclusiveGateway _ | .inclusiveGateway | .parallelGateway | .eventBasedGateway
  | .complexGateway _ _ => true
  | _ => false

def attachedTo? : BpmnElement → Option String
  | .boundaryTimerEvent activity _ _ | .boundaryMessageEvent activity _ _
  | .boundaryErrorEvent activity _ | .boundaryEscalationEvent activity _ _
  | .boundarySignalEvent activity _ _ | .boundaryConditionalEvent activity _ _
  | .boundaryCompensationEvent activity => some activity
  | _ => none

def cancelsActivity : BpmnElement → Bool
  | .boundaryTimerEvent _ _ cancel | .boundaryMessageEvent _ _ cancel
  | .boundarySignalEvent _ _ cancel | .boundaryConditionalEvent _ _ cancel
  | .boundaryEscalationEvent _ _ cancel => cancel
  | _ => false

end BpmnElement

structure SequenceFlow where
  target : String
  condition : Option String
  deriving DecidableEq, Repr

def SequenceFlow.simple (target : String) : SequenceFlow := ⟨target, none⟩

def SequenceFlow.conditional (target condition : String) : SequenceFlow := ⟨target, some condition⟩

inductive ListenerEvent where
  | start
  | «end»
  deriving DecidableEq, Repr

structure ExecutionListener where
  event : ListenerEvent
  script : String
  deriving DecidableEq, Repr

/-- Listeners of the whole process scope; they wait under the nil token. -/
inductive ScopeEventListener where
  | timer (timer : TimerDefinition) (isInterrupting : Bool) (targetDefinition : String)
  | message (messageName : String) (isInterrupting : Bool) (targetDefinition : String)
  | error (errorCode : Option String) (targetDefinition : String)
  deriving DecidableEq, Repr

inductive EventSubProcessTrigger where
  | timer (timer : TimerDefinition)
  | message (name : String)
  | signal (name : String)
  | error (code : Option String)
  | escalation (code : Option String)
  deriving DecidableEq, Repr

structure EventSubProcess where
  id : String
  startNode : String
  nodeIds : List String
  trigger : EventSubProcessTrigger
  isInterrupting : Bool
  deriving DecidableEq, Repr

/-! ## Definitions -/

structure ProcessDefinition where
  key : Uuid
  id : String
  version : Int
  nodes : Map String BpmnElement
  flows : Map String (List SequenceFlow)
  listeners : Map String (List ExecutionListener)
  eventListeners : List ScopeEventListener
  eventSubprocesses : List EventSubProcess
  variableDefaults : Variables
  dataMappings : Map String ActivityMappings

namespace ProcessDefinition

/-- A process that is nothing but its graph. -/
def ofGraph (id : String) (nodes : List (String × BpmnElement))
    (flows : List (String × List SequenceFlow)) : ProcessDefinition :=
  ⟨0, id, 1, Map.ofList nodes, Map.ofList flows, ∅, [], [], ∅, ∅⟩

def getNode (d : ProcessDefinition) (id : String) : Option BpmnElement := d.nodes.get? id

def nextNodes (d : ProcessDefinition) (id : String) : List SequenceFlow :=
  (d.flows.get? id).getD []

def nextNode (d : ProcessDefinition) (id : String) : Option String :=
  match d.nextNodes id with
  | [flow] => some flow.target
  | _ => none

def incomingFlowCount (d : ProcessDefinition) (id : String) : Nat :=
  (d.flows.entries.flatMap Prod.snd).countP fun flow => decide (flow.target = id)

def isJoinGateway (d : ProcessDefinition) (id : String) : Bool := 2 ≤ d.incomingFlowCount id

def isSplitGateway (d : ProcessDefinition) (id : String) : Bool :=
  match d.getNode id with
  | some element => element.isGateway && 2 ≤ (d.nextNodes id).length
  | none => false

def eventSubprocessNode (d : ProcessDefinition) (id : String) : Bool :=
  d.eventSubprocesses.any fun handler => handler.nodeIds.any fun node => node == id

def eventSubprocessById (d : ProcessDefinition) (id : String) : Option EventSubProcess :=
  d.eventSubprocesses.find? fun handler => handler.id == id

/-- The start of the process. Starts of event subprocesses do not count. -/
def startEvent (d : ProcessDefinition) : Option (String × BpmnElement) :=
  d.nodes.entries.find? fun node => !d.eventSubprocessNode node.1 && node.2.isStart

/-- A service task that runs once per item and shares one token between the items. -/
def isMultiInstanceService (d : ProcessDefinition) (id : String) : Bool :=
  match d.getNode id with
  | some (.serviceTask _ (some _)) => true
  | _ => false

/-- The structural checks under which a definition is built from its parts. -/
def validate (d : ProcessDefinition) : EngineResult Unit := do
  let elements := d.nodes.entries.map Prod.snd
  if elements.countP BpmnElement.isStart = 0 then
    throw (.invalidDefinition "No start event defined")
  if elements.countP BpmnElement.isStart > 1 then
    throw (.invalidDefinition "Multiple start events are not supported")
  if elements.countP BpmnElement.isEnd = 0 then
    throw (.invalidDefinition "No end event defined")
  d.flows.entries.forM fun (source, targets) => do
    if !d.nodes.contains source then throw (.noSuchNode source)
    targets.forM fun flow =>
      if d.nodes.contains flow.target then pure () else throw (.noSuchNode flow.target)
  d.nodes.entries.forM fun (id, element) =>
    match element.attachedTo? with
    | some activity =>
      if d.nodes.contains activity then pure ()
      else throw (.invalidDefinition
        s!"Boundary event '{id}' attached to missing node '{activity}'")
    | none => pure ()
  d.nodes.entries.forM fun (id, element) =>
    match element with
    | .embeddedSubProcess _ | .boundaryCompensationEvent _ => pure ()
    | _ =>
      if element.isEnd || 0 < (d.nextNodes id).length then pure ()
      else throw (.invalidDefinition s!"Node '{id}' has no outgoing sequence flow")
  d.nodes.entries.forM fun (id, element) => do
    if element.isGateway && (d.nextNodes id).length < 2 && d.incomingFlowCount id < 2 then
      throw (.invalidDefinition
        s!"Gateway '{id}' must have at least 2 incoming or 2 outgoing flows")
    if element = .eventBasedGateway then
      (d.nextNodes id).forM fun flow =>
        match d.getNode flow.target with
        | none | some (.messageCatchEvent _) | some (.timerCatchEvent _)
        | some (.signalCatchEvent _) => pure ()
        | some _ => throw (.invalidDefinition (
            s!"EventBasedGateway '{id}' can only connect to MessageCatchEvent, " ++
            "SignalCatchEvent or TimerCatchEvent targets; conditional catch events are " ++
            s!"not supported here. Node '{flow.target}' is invalid."))

end ProcessDefinition

end BpmnEngine
