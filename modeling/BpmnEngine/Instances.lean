import BpmnEngine.Definitions

/-!
# Process instances and their waits

A token carries the variables of one path through the graph. A path that waits
leaves its token in the instance's token table, and each pending wait names the token
by its identifier. The audit log, the start time and the history of an instance are
left out: nothing in the engine's control flow reads them.
-/
namespace BpmnEngine

/-- Local variables of an activity and what they hide. -/
structure DataScope where
  nodeId : String
  originalVariables : Variables
  localNames : List String
  deriving DecidableEq

structure Token where
  id : Uuid
  currentNode : String
  vars : Variables
  isMerged : Bool
  dataScope : Option DataScope
  deriving DecidableEq

namespace Token

/-- The variables the process sees: local names are put back to their outer values. -/
def processVariables (t : Token) : Variables :=
  match t.dataScope with
  | none => t.vars
  | some scope =>
    scope.localNames.foldl
      (fun vars name =>
        match scope.originalVariables.get? name with
        | some value => vars.set name value
        | none => vars.erase name)
      t.vars

def discardDataScope (t : Token) : Token :=
  match t.dataScope with
  | none => t
  | some scope => { t with vars := scope.originalVariables, dataScope := none }

def withVariables (id : Uuid) (node : String) (vars : Variables) : Token :=
  ⟨id, node, vars, false, none⟩

end Token

/-! ## Incidents -/

inductive IncidentKind where
  | serviceTask
  | timer
  | persistence
  | bpmnError
  deriving DecidableEq, Repr

structure Incident where
  id : Uuid
  kind : IncidentKind
  nodeId : Option String
  taskId : Option Uuid
  message : String
  details : Option String
  createdAt : Time
  lastSeenAt : Time
  occurrences : Nat
  resolvedAt : Option Time
  resolvedBy : Option String
  deriving DecidableEq, Repr

def maxIncidentsPerInstance : Nat := 100

/-! ## Instances -/

structure MultiInstanceProgress where
  nodeId : String
  total : Nat
  completed : Nat
  sequentialToken : Option Token
  items : List (Option Value)
  deriving DecidableEq

inductive InstanceState where
  | running
  | waitingOnUserTask (taskId : Uuid)
  | waitingOnServiceTask (taskId : Uuid)
  | waitingOnTimer (timerId : Uuid)
  | waitingOnMessage (messageId : Uuid)
  | waitingOnSignal (catchId : Uuid)
  | waitingOnCondition (catchId : Uuid)
  | waitingOnEventBasedGateway
  | parallelExecution (activeTokenCount : Nat)
  | waitingOnCallActivity (subInstanceId : Uuid) (token : Token)
  | completed
  | completedWithError (errorCode : String)
  | suspended (previousState : InstanceState)
  deriving DecidableEq

namespace InstanceState

def isTerminal : InstanceState → Bool
  | .completed | .completedWithError _ => true
  | _ => false

def isSuspended : InstanceState → Bool
  | .suspended _ => true
  | _ => false

def isParallel : InstanceState → Bool
  | .parallelExecution _ => true
  | _ => false

end InstanceState

/-- A token in the fork registry. -/
structure ActiveToken where
  token : Token
  forkId : Option String
  branchIndex : Nat
  completed : Bool
  deriving DecidableEq

structure JoinBarrier where
  gatewayNodeId : String
  expectedCount : Nat
  arrivedTokens : List Token
  deriving DecidableEq

structure CompensationRecord where
  activityId : String
  handlerNodeId : String
  deriving DecidableEq, Repr

/-- A called instance that has not ended, with the caller's token. -/
structure OutstandingCall where
  nodeId : String
  token : Token
  deriving DecidableEq

structure EventSubscription where
  id : Uuid
  subprocessId : String
  nextDue : Option Time
  remaining : Option Nat
  deriving DecidableEq, Repr

structure ProcessInstance where
  id : Uuid
  definitionKey : Uuid
  businessKey : String
  parentInstanceId : Option Uuid
  state : InstanceState
  currentNode : String
  vars : Variables
  tokens : Table Token.id
  activeTokens : List ActiveToken
  joinBarriers : Map String JoinBarrier
  multiInstanceState : Map String MultiInstanceProgress
  compensationLog : List CompensationRecord
  outstandingCalls : Map Uuid OutstandingCall
  completedAt : Option Time
  incidents : List Incident
  eventSubscriptions : List EventSubscription
  eventHandlerTokens : Map Uuid String
  eventScope : Bool
  deriving DecidableEq

namespace ProcessInstance

def completeActive (i : ProcessInstance) (tokenId : Uuid) : ProcessInstance :=
  { i with activeTokens := go i.activeTokens }
where
  go : List ActiveToken → List ActiveToken
    | [] => []
    | a :: rest => if a.token.id = tokenId then { a with completed := true } :: rest else a :: go
      rest

/-- Everything that runs in the scope is gone; variables, state and incidents stay. -/
def clearScope (i : ProcessInstance) : ProcessInstance :=
  { i with
    tokens := ∅
    activeTokens := []
    joinBarriers := ∅
    multiInstanceState := ∅
    outstandingCalls := ∅
    eventSubscriptions := []
    eventHandlerTokens := ∅ }

def businessKey? (i : ProcessInstance) : Option String :=
  if i.businessKey = "" then none else some i.businessKey

/-- The index of the oldest incident that satisfies `p`, the first one among equals. -/
def oldestIncident (p : Incident → Bool) (l : List Incident) : Option Nat :=
  (l.zipIdx.filter fun c => p c.1).foldl
    (fun best c =>
      match best with
      | none => some c
      | some b => if c.1.createdAt < b.1.createdAt then some c else some b)
    none |>.map Prod.snd

/-- Drops resolved incidents first and then the oldest open ones. -/
def trimIncidents (l : List Incident) : List Incident :=
  go (l.length - maxIncidentsPerInstance) l
where
  go : Nat → List Incident → List Incident
    | 0, l => l
    | n + 1, l =>
      match (oldestIncident (·.resolvedAt.isSome) l).or (oldestIncident (fun _ => true) l) with
      | some index => go n (l.eraseIdx index)
      | none => l

/-- Reports an incident, or counts it once more on the open incident for the same place.
The identifier `id` is used for a new incident only. -/
def pushOrTouchIncident (i : ProcessInstance) (now : Time) (id : Uuid) (kind : IncidentKind)
    (nodeId : Option String) (taskId : Option Uuid) (message : String)
    (details : Option String) : ProcessInstance :=
  let same (x : Incident) : Bool :=
    x.resolvedAt.isNone && decide (x.kind = kind ∧ x.nodeId = nodeId ∧ x.taskId = taskId)
  match i.incidents.findIdx? same with
  | some index =>
    { i with incidents := i.incidents.modify index fun x =>
        { x with
          occurrences := min (x.occurrences + 1) (2 ^ 32 - 1)
          lastSeenAt := now
          message := message
          details := details.or x.details } }
  | none =>
    { i with incidents := trimIncidents (i.incidents ++
        [⟨id, kind, nodeId, taskId, message, details, now, now, 1, none, none⟩]) }

end ProcessInstance

/-! ## Pending waits -/

structure PendingUserTask where
  taskId : Uuid
  instanceId : Uuid
  nodeId : String
  assignee : String
  tokenId : Uuid
  createdAt : Time
  businessKey : Option String
  deriving DecidableEq, Repr

structure PendingServiceTask where
  id : Uuid
  instanceId : Uuid
  definitionKey : Uuid
  nodeId : String
  topic : String
  tokenId : Uuid
  businessKey : Option String
  variablesSnapshot : Variables
  createdAt : Time
  workerId : Option String
  lockExpiration : Option Time
  retries : Int
  errorMessage : Option String
  errorDetails : Option String
  deriving DecidableEq

structure PendingTimer where
  id : Uuid
  instanceId : Uuid
  nodeId : String
  expiresAt : Time
  tokenId : Uuid
  timerDef : Option TimerDefinition
  remainingRepetitions : Option Nat
  deriving DecidableEq, Repr

structure PendingMessageCatch where
  id : Uuid
  instanceId : Uuid
  nodeId : String
  messageName : String
  tokenId : Uuid
  deriving DecidableEq, Repr

structure PendingSignalCatch where
  id : Uuid
  instanceId : Uuid
  nodeId : String
  signalName : String
  tokenId : Uuid
  deriving DecidableEq, Repr

structure PendingConditionalCatch where
  id : Uuid
  instanceId : Uuid
  nodeId : String
  condition : String
  tokenId : Uuid
  lastResult : Bool
  deriving DecidableEq, Repr

/-! ## Outcomes of a step -/

/-- One of the events an event-based gateway waits for. -/
inductive EventAlternative where
  | timer (pending : PendingTimer)
  | message (pending : PendingMessageCatch)
  | signal (pending : PendingSignalCatch)
  deriving DecidableEq, Repr

inductive NextAction where
  | continue (token : Token)
  | continueMultiple (tokens : List Token)
  | waitForUser (pending : PendingUserTask)
  | waitForServiceTask (pending : PendingServiceTask)
  | waitForJoin (gatewayId : String) (token : Token)
  | waitForTimer (pending : PendingTimer)
  | waitForMessage (pending : PendingMessageCatch)
  | waitForSignal (pending : PendingSignalCatch)
  | waitForCondition (pending : PendingConditionalCatch)
  | waitForEventGroup (alternatives : List EventAlternative)
  | complete
  | errorEnd (errorCode : String)
  | escalationEnd (escalationCode : String)
  | spawnAndContinue (main : Token) (spawned : List Token)
  | interruptScope (token : Token)
  | terminate
  | waitForCallActivity (calledElement : String) (token : Token)
  | multiInstanceFork (nodeId : String) (tokens : List Token)
  | multiInstanceNext (nodeId : String) (token : Token)
  deriving DecidableEq

end BpmnEngine
