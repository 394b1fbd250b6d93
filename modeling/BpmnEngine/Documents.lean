import BpmnEngine.Definitions

/-!
# BPMN documents

The records that a BPMN file is read into, up to the children and attributes that the
compiler never looks at. Reading the XML itself is the business of a library, and so are
dates and cron expressions; the syntax of conditions is a parameter here. An element that
is only looked at for the text inside it is that text.
-/
namespace BpmnEngine

namespace Bpmn

structure MultiInstanceLoop where
  isSequential : Option Bool
  loopCardinality : Option String
  collection : Option String
  elementVariable : Option String

structure TimerEventDefinition where
  timeDuration : Option String
  timeDate : Option String
  timeCycle : Option String

/-- A message, signal, error, escalation or compensation definition with what it refers to. -/
structure Reference where
  ref : Option String

structure ConditionalEventDefinition where
  condition : Option String

structure LinkEventDefinition where
  name : String

structure Listener where
  event : String
  script : Option String

structure StartEvent where
  id : String
  isInterrupting : Option Bool := none
  listeners : List Listener := []
  timer : Option TimerEventDefinition := none
  message : Option Reference := none
  signal : Option Reference := none
  conditional : Option ConditionalEventDefinition := none
  error : Option Reference := none
  escalation : Option Reference := none

structure EndEvent where
  id : String
  listeners : List Listener := []
  error : Option Reference := none
  signal : Option Reference := none
  escalation : Option Reference := none
  compensate : Option Reference := none
  terminate : Bool := false
  cancel : Bool := false

structure ScriptTask where
  id : String
  listeners : List Listener := []
  dataScript : Option String := none
  script : Option String := none
  multiInstance : Option MultiInstanceLoop := none

structure SendTask where
  id : String
  listeners : List Listener := []
  name : Option String := none
  messageRef : Option String := none
  message : Option Reference := none
  multiInstance : Option MultiInstanceLoop := none

structure ReceiveTask where
  id : String
  listeners : List Listener := []
  messageRef : Option String := none
  instantiate : Option String := none
  message : Option Reference := none
  multiInstance : Option MultiInstanceLoop := none

structure ServiceTask where
  id : String
  listeners : List Listener := []
  handler : Option String := none
  topic : Option String := none
  camundaTopic : Option String := none
  multiInstance : Option MultiInstanceLoop := none

structure UserTask where
  id : String
  listeners : List Listener := []
  assignee : Option String := none
  camundaAssignee : Option String := none
  multiInstance : Option MultiInstanceLoop := none

structure GenericTask where
  id : String

structure CallActivity where
  id : String
  listeners : List Listener := []
  calledElement : Option String := none

structure ExclusiveGateway where
  id : String
  listeners : List Listener := []
  default : Option String := none

structure ComplexGateway where
  id : String
  listeners : List Listener := []
  default : Option String := none
  activationCondition : Option String := none

structure Gateway where
  id : String
  listeners : List Listener := []
  instantiate : Option String := none
  eventGatewayType : Option String := none

structure ThrowEvent where
  id : String
  listeners : List Listener := []
  message : Option Reference := none
  signal : Option Reference := none
  escalation : Option Reference := none
  compensate : Option Reference := none
  link : Option LinkEventDefinition := none

structure CatchEvent where
  id : String
  listeners : List Listener := []
  timer : Option TimerEventDefinition := none
  message : Option Reference := none
  signal : Option Reference := none
  link : Option LinkEventDefinition := none
  conditional : Option ConditionalEventDefinition := none

structure BoundaryEvent where
  id : String
  attachedToRef : String
  cancelActivity : Option Bool := none
  timer : Option TimerEventDefinition := none
  error : Option Reference := none
  message : Option Reference := none
  signal : Option Reference := none
  escalation : Option Reference := none
  compensate : Option Reference := none
  cancel : Bool := false
  conditional : Option ConditionalEventDefinition := none

structure SequenceFlow where
  id : String
  sourceRef : String
  targetRef : String
  conditionExpression : Option String := none

/-- What a process and a subprocess both contain, up to their subprocesses. A transaction is
there with its identifier, if it has one. -/
structure Scope where
  transaction : Option (Option String) := none
  startEvents : List StartEvent := []
  endEvents : List EndEvent := []
  serviceTasks : List ServiceTask := []
  userTasks : List UserTask := []
  sequenceFlows : List SequenceFlow := []
  boundaryEvents : List BoundaryEvent := []
  genericTasks : List GenericTask := []
  scriptTasks : List ScriptTask := []
  sendTasks : List SendTask := []
  receiveTasks : List ReceiveTask := []
  manualTasks : List UserTask := []
  businessRuleTasks : List ServiceTask := []
  callActivities : List CallActivity := []
  exclusiveGateways : List ExclusiveGateway := []
  parallelGateways : List Gateway := []
  inclusiveGateways : List Gateway := []
  eventBasedGateways : List Gateway := []
  complexGateways : List ComplexGateway := []
  intermediateThrowEvents : List ThrowEvent := []
  intermediateCatchEvents : List CatchEvent := []

inductive SubProcess where
  | mk (id : String) (triggeredByEvent : Option Bool) (listeners : List Listener) (scope : Scope)
      (subProcesses : List SubProcess)

namespace SubProcess

def id : SubProcess → String
  | .mk id .. => id

def isTriggeredByEvent : SubProcess → Bool
  | .mk _ triggered .. => triggered == some true

def listeners : SubProcess → List Listener
  | .mk _ _ listeners .. => listeners

def scope : SubProcess → Scope
  | .mk _ _ _ scope _ => scope

def subProcesses : SubProcess → List SubProcess
  | .mk _ _ _ _ subProcesses => subProcesses

end SubProcess

structure Process where
  id : String
  isExecutable : Option Bool := none
  listeners : List Listener := []
  scope : Scope
  subProcesses : List SubProcess := []

/-- A message or signal of the document. -/
structure Named where
  id : String
  name : String

/-- An error or escalation of the document. -/
structure Coded where
  id : String
  name : Option String
  code : Option String

structure Definitions where
  processes : List Process
  messages : List Named := []
  signals : List Named := []
  errors : List Coded := []
  escalations : List Coded := []

end Bpmn

/-- What the compiler takes from outside: the calendar, the cron parser and the checker of
conditions, each with the text of its error. -/
structure ParserEnv where
  parseDate : String → Except String Time
  parseCron : String → Except String Unit
  validateCondition : String → Except String Unit

/-- Everything that is asked for is in order. -/
def ParserEnv.plain : ParserEnv := ⟨fun _ => .ok 0, fun _ => .ok (), fun _ => .ok ()⟩

/-! ## Texts -/

namespace Parser

def isWhiteSpace (c : Char) : Bool :=
  let n := c.toNat
  (9 ≤ n && n ≤ 13) || n == 32 || n == 0x85 || n == 0xA0 || n == 0x1680 ||
    (0x2000 ≤ n && n ≤ 0x200A) || n == 0x2028 || n == 0x2029 || n == 0x202F || n == 0x205F ||
    n == 0x3000

def trim (s : String) : String :=
  String.ofList ((s.toList.dropWhile isWhiteSpace).reverse.dropWhile isWhiteSpace).reverse

def nonemptyAttr (value : Option String) : Option String :=
  (value.map trim).filter fun s => !s.isEmpty

def firstAttr (candidates : List (Option String)) : Option String :=
  candidates.findSome? nonemptyAttr

def equalsIgnoringCase (s t : String) : Bool :=
  s.toList.map Char.toLower == t.toList.map Char.toLower

def flagIsTrue (value : String) : Bool :=
  equalsIgnoringCase (trim value) "true" || trim value == "1"

def isParallelGatewayType (value : String) : Bool := equalsIgnoringCase (trim value) "parallel"

def isDigit (c : Char) : Bool := '0' ≤ c && c ≤ '9'

def digitsValue (digits : List Char) : Nat :=
  digits.foldl (fun n c => 10 * n + (c.toNat - '0'.toNat)) 0

/-- An unsigned number of so many bits. A plus sign may stand before it. -/
def parseUnsigned (bits : Nat) (text : List Char) : Option Nat :=
  let digits := match text with
    | '+' :: rest => rest
    | text => text
  if digits.isEmpty || !digits.all isDigit || 2 ^ bits ≤ digitsValue digits then none
  else some (digitsValue digits)

/-! ## Timers -/

def invalid {α : Type} (text : String) : EngineResult α := .error (.invalidDefinition text)

/-- The seconds of a unit, before or behind the `T`. Months and years are approximate. -/
def unitSeconds : Bool → Char → Option Nat
  | false, 'Y' => some (365 * 86400)
  | false, 'M' => some (30 * 86400)
  | false, 'W' => some (7 * 86400)
  | false, 'D' => some 86400
  | true, 'H' => some 3600
  | true, 'M' => some 60
  | true, 'S' => some 1
  | _, _ => none

/-- What has been read of a duration. The digits of the current number are in order. -/
structure DurationScan where
  totalSecs : Nat := 0
  currentNum : List Char := []
  inTimePart : Bool := false
  hasValue : Bool := false

/-- Reads one character of the duration `s`. -/
def scanDuration (s : String) (scan : DurationScan) (c : Char) : EngineResult DurationScan := do
  if c = 'T' then
    if !scan.currentNum.isEmpty then
      invalid s!"Invalid ISO 8601 duration '{s}': digits before 'T' without unit"
    else
      return { scan with inTimePart := true }
  else if isDigit c then
    return { scan with currentNum := scan.currentNum ++ [c] }
  else if scan.currentNum.isEmpty then
    invalid s!"Invalid ISO 8601 duration '{s}': missing number before '{c}'"
  else
    match parseUnsigned 64 scan.currentNum with
    | none => invalid s!"Invalid number in duration '{s}'"
    | some val =>
      match unitSeconds scan.inTimePart c with
      | none =>
        let timePart := scan.inTimePart
        invalid s!"Invalid ISO 8601 duration '{s}': unknown unit '{c}' (time_part={timePart})"
      | some multiplier =>
        if 2 ^ 64 ≤ val * multiplier then
          invalid s!"Duration segment '{val}{c}' overflows seconds"
        else if 2 ^ 64 ≤ scan.totalSecs + val * multiplier then
          invalid s!"Total duration '{s}' overflows maximum allowed seconds"
        else
          return ⟨scan.totalSecs + val * multiplier, [], scan.inTimePart, true⟩

/-- An ISO 8601 duration in nanoseconds. -/
def parseIso8601Duration (text : String) : EngineResult Nat := do
  let s := trim text
  match s.toList with
  | [] => invalid "Timer duration is empty"
  | 'P' :: [] => invalid s!"Invalid ISO 8601 duration '{s}': no value after 'P'"
  | 'P' :: body =>
    let scan ← body.foldlM (scanDuration s) {}
    if !scan.currentNum.isEmpty then
      invalid s!"Invalid ISO 8601 duration '{s}': trailing digits without unit"
    else if !scan.hasValue then
      invalid s!"Invalid ISO 8601 duration '{s}': no duration components found"
    else
      return scan.totalSecs * 1000000000
  | _ => invalid s!"Invalid ISO 8601 duration '{s}': must start with 'P'"

/-- Splits before the first place where the rest starts as asked. -/
def splitBefore (starts : List Char → Bool) : List Char → Option (List Char × List Char)
  | [] => none
  | c :: rest =>
    if starts (c :: rest) then some ([], c :: rest)
    else (splitBefore starts rest).map fun (before, behind) => (c :: before, behind)

/-- The repetitions and the interval of `R[n]/duration`, or of `R[n]PTduration`. -/
def splitRepeatingInterval (s : List Char) : Option (List Char × List Char) :=
  match splitBefore (·.head? == some '/') s with
  | some (repetitions, interval) => some (repetitions, interval.tail)
  | none =>
    (splitBefore (fun rest => rest.take 2 == ['P', 'T']) s.tail).map fun (count, interval) =>
      (s.take 1 ++ count, interval)

def parseRepeatingInterval (s : String) : EngineResult TimerDefinition := do
  match splitRepeatingInterval s.toList with
  | none =>
    invalid s!"Invalid repeating interval '{s}': expected R[n]/duration or R[n]PTduration"
  | some (repetitions, interval) =>
    let countStr := String.ofList repetitions.tail
    let count ← if repetitions = ['R'] then pure none
      else
        match parseUnsigned 32 repetitions.tail with
        | none =>
          invalid s!"Invalid repetition count in '{s}': '{countStr}' is not a number"
        | some count => pure (some count)
    return .repeatingInterval count (← parseIso8601Duration (String.ofList interval))

def parseTimerDefinition (env : ParserEnv) (nodeId : String)
    (timer : Bpmn.TimerEventDefinition) : EngineResult TimerDefinition := do
  match nonemptyAttr timer.timeDuration, nonemptyAttr timer.timeDate,
      nonemptyAttr timer.timeCycle with
  | some text, _, _ => return .duration (← parseIso8601Duration text)
  | none, some text, _ =>
    match env.parseDate text with
    | .ok date => return .absoluteDate date
    | .error e => invalid s!"Invalid timeDate '{text}': {e}"
  | none, none, some text =>
    if text.toList.head? = some 'R' then parseRepeatingInterval text
    else
      match env.parseCron text with
      | .ok _ => return .cronCycle text none
      | .error e => invalid s!"Invalid cron expression '{text}': {e}"
  | none, none, none =>
    invalid s!"timerEventDefinition on '{nodeId}' has no timeDuration, timeDate, or timeCycle"

end Parser

end BpmnEngine
