import BpmnEngine.KeyedTable

/-!
# Process variables and data mappings

Variables are JSON values filed under their names. A mapping expression only refers
to variables, builds lists and objects from them, or is a literal; it is never a
script. Scripts and conditions are not interpreted here: they belong to the
environment in which the engine runs.

A JSON object keeps its fields as a list of pairs. Only the deletion of an instance, which
looks for files, reads a field of an object, and it asks for the field by its name; the
order of the fields is never observed.
-/
namespace BpmnEngine

/-- Unique identifiers. The nil identifier is zero and is never drawn. -/
abbrev Uuid := Nat

/-- A JSON number. A fractional number is only ever copied, so its text is enough. -/
inductive Number where
  | int (value : Int)
  | float (text : String)
  deriving DecidableEq, Repr

inductive Value where
  | null
  | bool (value : Bool)
  | number (value : Number)
  | string (value : String)
  | array (items : List Value)
  | object (fields : List (String × Value))
  deriving Repr

namespace Value

mutual

def decEq : (a b : Value) → Decidable (a = b)
  | .null, b => by cases b <;> first | exact .isTrue rfl | exact .isFalse nofun
  | .bool x, b => by
    cases b
    case bool y => exact decidable_of_iff (x = y) (by simp)
    all_goals exact .isFalse nofun
  | .number x, b => by
    cases b
    case number y => exact decidable_of_iff (x = y) (by simp)
    all_goals exact .isFalse nofun
  | .string x, b => by
    cases b
    case string y => exact decidable_of_iff (x = y) (by simp)
    all_goals exact .isFalse nofun
  | .array xs, b => by
    cases b
    case array ys => exact @decidable_of_iff _ (xs = ys) (by simp) (decEqItems xs ys)
    all_goals exact .isFalse nofun
  | .object xs, b => by
    cases b
    case object ys => exact @decidable_of_iff _ (xs = ys) (by simp) (decEqFields xs ys)
    all_goals exact .isFalse nofun

def decEqItems : (xs ys : List Value) → Decidable (xs = ys)
  | [], [] => .isTrue rfl
  | [], _ :: _ => .isFalse nofun
  | _ :: _, [] => .isFalse nofun
  | x :: xs, y :: ys =>
    match decEq x y, decEqItems xs ys with
    | .isTrue h, .isTrue hs => .isTrue (h ▸ hs ▸ rfl)
    | .isFalse h, _ => .isFalse fun e => h (List.cons.inj e).1
    | _, .isFalse hs => .isFalse fun e => hs (List.cons.inj e).2

def decEqFields : (xs ys : List (String × Value)) → Decidable (xs = ys)
  | [], [] => .isTrue rfl
  | [], _ :: _ => .isFalse nofun
  | _ :: _, [] => .isFalse nofun
  | (k, x) :: xs, (l, y) :: ys =>
    match decEq x y, decEqFields xs ys, decEq' k l with
    | .isTrue h, .isTrue hs, .isTrue hk => .isTrue (h ▸ hs ▸ hk ▸ rfl)
    | .isFalse h, _, _ => .isFalse fun e => h (Prod.mk.inj (List.cons.inj e).1).2
    | _, .isFalse hs, _ => .isFalse fun e => hs (List.cons.inj e).2
    | _, _, .isFalse hk => .isFalse fun e => hk (Prod.mk.inj (List.cons.inj e).1).1
where
  decEq' (k l : String) : Decidable (k = l) := inferInstance

end

instance : DecidableEq Value := decEq

def jsonTypeName : Value → String
  | .null => "null"
  | .bool _ => "boolean"
  | .number _ => "number"
  | .string _ => "string"
  | .array _ => "array"
  | .object _ => "object"

end Value

abbrev Variables := Map String Value

/-! ## Text -/

/-- The characters with the Unicode property White_Space. -/
def isWhiteSpace (c : Char) : Bool :=
  let n := c.toNat
  (9 ≤ n && n ≤ 13) || n == 32 || n == 0x85 || n == 0xA0 || n == 0x1680 ||
    (0x2000 ≤ n && n ≤ 0x200A) || n == 0x2028 || n == 0x2029 || n == 0x202F ||
    n == 0x205F || n == 0x3000

def trimmed (s : String) : List Char :=
  ((s.toList.dropWhile isWhiteSpace).reverse.dropWhile isWhiteSpace).reverse

def digitsValue (cs : List Char) : Nat := cs.foldl (fun n c => 10 * n + (c.toNat - 48)) 0

/-- Reads an unsigned machine word: an optional plus sign and at least one digit. -/
def parseUsize (cs : List Char) : Option Nat :=
  let digits := match cs with
    | '+' :: rest => rest
    | _ => cs
  if digits ≠ [] ∧ digits.all Char.isDigit ∧ digitsValue digits < 2 ^ 64 then
    some (digitsValue digits)
  else
    none

example : parseUsize (trimmed " 12 ") = some 12 := by decide

/-! ## Errors -/

inductive EngineError where
  | invalidDefinition (text : String)
  | dataMappingError (text : String)
  | noSuchNode (node : String)
  | noSuchDefinition (key : Uuid)
  | noSuchInstance (id : Uuid)
  | taskNotPending (taskId : Uuid) (actualState : String)
  | alreadyCompleted
  | timerMismatch (expected provided : Nat)
  | noMatchingCondition (gateway : String)
  | serviceTaskNotFound (id : Uuid)
  | serviceTaskLocked (taskId : Uuid) (workerId : String)
  | serviceTaskNotLocked (id : Uuid)
  | definitionHasInstances (count : Nat)
  | orphanedToken (node : String)
  | persistenceError (text : String)
  | scriptError (text : String)
  | executionLimitExceeded (text : String)
  | instanceSuspended (id : Uuid)
  | incidentNotFound (id : Uuid)
  | incidentAlreadyResolved (id : Uuid)
  deriving DecidableEq, Repr

/-- The text of an error as it is shown to a user. -/
def EngineError.text : EngineError → String
  | .invalidDefinition text => s!"Invalid definition: {text}"
  | .dataMappingError text => s!"Data mapping failed: {text}"
  | .noSuchNode node => s!"No such node: {node}"
  | .noSuchDefinition key => s!"No such definition: {key}"
  | .noSuchInstance id => s!"No such instance: {id}"
  | .taskNotPending taskId actualState =>
    s!"Task '{taskId}' is not pending (current state: {actualState})"
  | .alreadyCompleted => "Process instance has already completed"
  | .timerMismatch expected provided =>
    s!"Timer mismatch: expected {expected}s, got {provided}s"
  | .noMatchingCondition gateway => s!"No matching condition at gateway '{gateway}'"
  | .serviceTaskNotFound id => s!"Service task not found: {id}"
  | .serviceTaskLocked taskId workerId =>
    s!"Service task '{taskId}' is locked by worker '{workerId}'"
  | .serviceTaskNotLocked id => s!"Service task '{id}' is not locked"
  | .definitionHasInstances count => s!"Cannot delete definition: {count} instances still exist"
  | .orphanedToken node =>
    s!"Orphaned token: node '{node}' has no entry in the target definition and no mapping"
  | .persistenceError text => s!"Persistence error: {text}"
  | .scriptError text => s!"Script error: {text}"
  | .executionLimitExceeded text => s!"Execution limit exceeded: {text}"
  | .instanceSuspended id => s!"Instance '{id}' is suspended"
  | .incidentNotFound id => s!"Incident not found: {id}"
  | .incidentAlreadyResolved id => s!"Incident already resolved: {id}"

abbrev EngineResult := Except EngineError

/-! ## Data mappings -/

inductive MappingValue where
  | literal (value : Value)
  | variableRef (name : String)
  | list (values : List MappingValue)
  | map (fields : List (String × MappingValue))

mutual

def MappingValue.evaluate (vars : Variables) : MappingValue → EngineResult Value
  | .literal value => .ok value
  | .variableRef name =>
    match vars.get? name with
    | some value => .ok value
    | none => .error (.dataMappingError s!"Data mapping: variable '{name}' is missing")
  | .list values => do return .array (← MappingValue.evaluateList vars values)
  | .map fields => do return .object (← MappingValue.evaluateFields vars fields)

def MappingValue.evaluateList (vars : Variables) : List MappingValue → EngineResult (List Value)
  | [] => .ok []
  | value :: rest => do
    let item ← MappingValue.evaluate vars value
    return item :: (← MappingValue.evaluateList vars rest)

def MappingValue.evaluateFields (vars : Variables) :
    List (String × MappingValue) → EngineResult (List (String × Value))
  | [] => .ok []
  | (key, value) :: rest => do
    let item ← MappingValue.evaluate vars value
    return (key, item) :: (← MappingValue.evaluateFields vars rest)

end

structure DataMapping where
  target : String
  value : MappingValue

structure ActivityMappings where
  inputs : List DataMapping
  outputs : List DataMapping
  callInputs : Option (List DataMapping)
  callOutputs : Option (List DataMapping)

/-- The result is built in order; a blank or repeated target fails before its value is read. -/
def evaluateMappings (mappings : List DataMapping) (source : Variables) : EngineResult Variables :=
  mappings.foldlM
    (fun result mapping => do
      if (trimmed mapping.target).isEmpty || result.contains mapping.target then
        throw (.dataMappingError s!"Data mapping: empty or duplicate target '{mapping.target}'")
      return result.set mapping.target (← mapping.value.evaluate source))
    ∅

end BpmnEngine
