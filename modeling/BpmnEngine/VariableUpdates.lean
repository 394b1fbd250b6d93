import BpmnEngine.EventPayloads
import BpmnEngine.Joins

/-!
# Who sees an update of the variables

A direct update writes the variables of the instance and those of the tokens in its token
table, below an open data scope and above it. A token that has arrived at a join is in the
barrier of the join, and a token that has called an instance is kept with the call; both
are passed over. The first goes on with what the last branch brings, so that a removed
variable comes back; the second goes on with the old value.
-/
namespace BpmnEngine

open Program Eng DataMappings

/-! ## The value of a variable in the next node -/

namespace Token

variable {scope : DataScope} {u : Token} {d : ProcessDefinition} {node : String}

def isLocal (t : Token) (name : String) : Bool :=
  t.dataScope.any fun scope => scope.localNames.contains name

/-- A variable has a value around the activity of the token, and inside of it unless an input has
the name there. -/
def Shows (t : Token) (name : String) (v : Option Value) : Prop :=
  t.outerVariables.get? name = v ∧ (t.isLocal name = true ∨ t.vars.get? name = v)

/-- How a token comes to its next node while nothing writes the variable: as it is, or after it has
left its activity, with or without the results. -/
inductive Leaves (d : ProcessDefinition) (name : String) (t : Token) : Token → Prop
  | stays : Leaves d name t t
  | discards : Leaves d name t t.discardDataScope
  | leaves {node : String} {u : Token}
      (h : DataMappings.leave t d node = .ok u)
      (hname : ∀ mappings, d.dataMappings.get? node = some mappings →
        name ∉ mappings.outputs.map DataMapping.target) : Leaves d name t u

variable {t : Token} {name : String} {v : Option Value}

theorem isLocal_of_none (h : t.dataScope = none) : t.isLocal name = false := by
  rw [isLocal, h]
  rfl

theorem shows_of_none (h : t.dataScope = none) : t.Shows name v ↔ t.vars.get? name = v := by
  rw [Shows, outerVariables_of_none h, isLocal_of_none h]
  simp

theorem mem_localNames (h : t.dataScope = some scope) :
    t.isLocal name = true ↔ name ∈ scope.localNames := by
  rw [isLocal, h]
  simp

theorem shows_of_scope (h : t.dataScope = some scope) :
    t.Shows name v ↔ scope.originalVariables.get? name = v ∧
      (name ∈ scope.localNames ∨ t.vars.get? name = v) := by
  rw [Shows, outerVariables_of_scope h, mem_localNames h]

section

variable (h : t.Shows name v)

include h

theorem Shows.get?_processVariables : t.processVariables.get? name = v := by
  cases hscope : t.dataScope with
  | none =>
    rw [processVariables, hscope]
    exact (shows_of_none hscope).mp h
  | some =>
    obtain ⟨houter, hinner⟩ := (shows_of_scope hscope).mp h
    rw [Token.get?_processVariables hscope]
    split
    case isTrue => exact houter
    case isFalse hlocal => exact hinner.resolve_left hlocal

end

end Token

/-! ## The update of one token -/

def Value.written (value : Value) : Option Value := if value = .null then none else some value

namespace Eng

variable {updates vars : Variables} {name : String} {value : Value}

def write (vars : Variables) (u : String × Value) : Variables :=
  if u.2 = .null then vars.erase u.1 else vars.set u.1 u.2

end Eng

/-! ## Where the tokens of an instance are -/

/-- A token that waits is in the token table, with a call that has not returned, or at a join. -/
inductive Place where
  | waiting (tokenId : Uuid)
  | call (childId : Uuid)
  | join (gateway : String)

namespace ProcessInstance

def arrivedAt (x : ProcessInstance) (gateway : String) : List Token :=
  ((x.joinBarriers.get? gateway).map (·.arrivedTokens)).getD []

def parkedFor (x : ProcessInstance) (call : OutstandingCall) : Token :=
  (registryToken call.nodeId x.activeTokens).getD call.token

end ProcessInstance

/-- The token at a place goes on as `t`. The place still is as in the instance `x`, but for branches
that have arrived at the join since and have the value `v`; a call that returns does not hand the
variable back. -/
inductive Resumed (env : Env) (i : Uuid) (x : ProcessInstance) (name : String) (v : Option Value)
    (s : Engine) : Place → Token → Prop
  | waiting {y : ProcessInstance} {tokenId : Uuid} {interrupting : Bool} {t : Token} {s' : Engine}
      (hy : s.instances.find? i = some y)
      (hsame : y.tokens.find? tokenId = x.tokens.find? tokenId)
      (htoken : exec (eventToken interrupting i tokenId) s = (.ok t, s')) :
      Resumed env i x name v s (.waiting tokenId) t
  | call {y : ProcessInstance} {childId : Uuid} {call : OutstandingCall} {failed : Bool}
      {childVars : Variables} {t : Token} {s' : Engine}
      (hy : s.instances.find? i = some y)
      (hcall : endedCall y childId = some call)
      (hsame : endedCall x childId = some call)
      (hregistry : y.parkedFor call = x.parkedFor call)
      (hresults : ∀ results, callResults (s.definitions.find? y.definitionKey) call.nodeId
        failed childVars = .ok results → results.get? name = none)
      (htoken : exec (takeUpCall i childId call failed childVars) s = (.ok t, s')) :
      Resumed env i x name v s (.call childId) t
  | join {y : ProcessInstance} {gateway : String} {last : Token} {later : List Token} {t : Token}
      {s' : Engine}
      (hy : s.instances.find? i = some y)
      (hsame : y.arrivedAt gateway = x.arrivedAt gateway ++ later)
      (hlater : ∀ u ∈ later ++ [last], u.vars.get? name = v)
      (htoken : exec (arriveAtJoin env i gateway last) s = (.ok (some t), s')) :
      Resumed env i x name v s (.join gateway) t

/-! ## What the next node sees -/

variable {name : String} {v : Option Value}

variable {env : Env} {e : Engine} {i : Uuid} {x : ProcessInstance} {updates : Variables}
  {name : String} {value : Value}

end BpmnEngine
