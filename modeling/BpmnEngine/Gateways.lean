import BpmnEngine.ActivityData

/-!
# Gateways, forks and joins

A gateway decides from the graph and the token's variables whether the token goes on,
forks or waits for its siblings. A fork announces how many tokens the downstream join
has to expect; the join is found by a breadth-first search that counts nested splits
and joins of the same type. A join that nothing announced expects one token per
incoming flow.
-/
namespace BpmnEngine

namespace ProcessDefinition

variable (env : Env) (d : ProcessDefinition)

def flowMatches (vars : Variables) (flow : SequenceFlow) : Bool :=
  match flow.condition with
  | some condition => env.evaluateCondition condition vars
  | none => true

def resolveNextTarget (source : String) (vars : Variables) : EngineResult String :=
  match (d.nextNodes source).find? (flowMatches env vars) with
  | some flow => .ok flow.target
  | none => .error (.invalidDefinition s!"No matching outgoing flow from '{source}'")

def findBoundaryErrorEvent (activity errorCode : String) : Option String :=
  (d.nodes.entries.find? fun node =>
    match node.2 with
    | .boundaryErrorEvent attachedTo bound =>
      attachedTo == activity && (bound.isNone || bound == some errorCode)
    | _ => false).map Prod.fst

/-- A boundary escalation event for the code, whatever it is attached to. -/
def findAnyBoundaryEscalationEvent (escalationCode : String) : Option (String × String × Bool) :=
  d.nodes.entries.findSome? fun node =>
    match node.2 with
    | .boundaryEscalationEvent attachedTo bound cancelActivity =>
      if bound.isNone || bound == some escalationCode then
        some (node.1, attachedTo, cancelActivity)
      else none
    | _ => none

/-- The node behind an activity's compensation boundary event. -/
def findCompensationHandler (activity : String) : Option String := do
  let boundary ← d.nodes.entries.find? fun node =>
    node.2 == .boundaryCompensationEvent activity
  let flow ← (d.nextNodes boundary.1).head?
  return flow.target

def sameGatewayType : BpmnElement → BpmnElement → Bool
  | .exclusiveGateway _, .exclusiveGateway _ => true
  | .inclusiveGateway, .inclusiveGateway => true
  | .parallelGateway, .parallelGateway => true
  | _, _ => false

/-- How a node changes the nesting depth of a search that started at `split`: `none` when the
search ends there. -/
def joinDepth (split : BpmnElement) (node : String) (depth : Nat) : Option Nat :=
  match d.getNode node with
  | none => some depth
  | some element =>
    if d.isJoinGateway node && sameGatewayType split element then
      if depth = 1 then none else some (depth - 1)
    else if d.isSplitGateway node && sameGatewayType split element then some (depth + 1)
    else some depth

/-- One breadth-first search step per unit of fuel. Every step takes one entry from the queue, and
the successors of a node are queued at most once besides those of the first node, so twice
the number of flows and one more step are enough. -/
def searchJoin (split : BpmnElement) : Nat → List String → List (String × Nat) → Option String
  | 0, _, _ => none
  | _ + 1, _, [] => none
  | fuel + 1, visited, (node, depth) :: queue =>
    if node ∈ visited then searchJoin split fuel visited queue
    else match d.joinDepth split node depth with
      | none => some node
      | some depth => searchJoin split fuel (node :: visited)
          (queue ++ (d.nextNodes node).map fun flow => (flow.target, depth))

def flowCount : Nat := (d.flows.entries.flatMap Prod.snd).length

def findDownstreamJoin (start : String) : Option String := do
  let split ← d.getNode start
  d.searchJoin split (2 * d.flowCount + 1) [] ((d.nextNodes start).map fun flow => (flow.target, 1))

end ProcessDefinition

namespace Eng

variable (env : Env)

/-! ## What a gateway does with a token -/

def forkTokens (targets : List String) (vars : Variables) : Eng (List Token) :=
  targets.mapM fun target => newToken target vars

def executeParallelGateway (d : ProcessDefinition) (node : String) (token : Token) :
    Eng NextAction := do
  if 2 ≤ d.incomingFlowCount node ∧ ¬token.isMerged then
    return .waitForJoin node token
  let token := { token with isMerged := false }
  match d.nextNodes node with
  | [flow] => return .continue { token with currentNode := flow.target }
  | flows => return .continueMultiple (← forkTokens (flows.map (·.target)) token.vars)

/-- Conditional flows first; then an unconditional one that does not lead to the default
target; then the default. -/
def exclusiveTarget (d : ProcessDefinition) (node : String) (vars : Variables)
    (default : Option String) : Option String :=
  let outgoing := d.nextNodes node
  let conditional := outgoing.find? fun flow =>
    flow.condition.any fun condition => env.evaluateCondition condition vars
  let unconditional := outgoing.find? fun flow =>
    flow.condition.isNone && !(default == some flow.target)
  ((conditional.or unconditional).map (·.target)).or default

def executeExclusiveGateway (d : ProcessDefinition) (node : String) (token : Token)
    (default : Option String) : Eng Token :=
  match exclusiveTarget env d node token.vars default with
  | some target => return { token with currentNode := target }
  | none => throw (.noMatchingCondition node)

/-- Takes every target: one token goes on, several fork. -/
def forkOrContinue (token : Token) : List String → Eng NextAction
  | [target] => return .continue { token with currentNode := target }
  | targets => return .continueMultiple (← forkTokens targets token.vars)

def executeInclusiveGateway (d : ProcessDefinition) (node : String) (token : Token) :
    Eng NextAction := do
  if 2 ≤ d.incomingFlowCount node ∧ ¬token.isMerged then
    return .waitForJoin node token
  let token := { token with isMerged := false }
  let matched := ((d.nextNodes node).filter (ProcessDefinition.flowMatches env token.vars)).map
    (·.target)
  if matched.isEmpty then throw (.noMatchingCondition node)
  forkOrContinue token matched

def executeComplexGateway (d : ProcessDefinition) (node : String) (token : Token)
    (default : Option String) : Eng NextAction := do
  if 2 ≤ d.incomingFlowCount node ∧ ¬token.isMerged then
    return .waitForJoin node token
  let token := { token with isMerged := false }
  let matched := ((d.nextNodes node).filter fun flow =>
    match flow.condition with
    | some condition => env.evaluateCondition condition token.vars
    | none => !(default == some flow.target)).map (·.target)
  match matched, default with
  | [], none => throw (.noMatchingCondition node)
  | [], some target => forkOrContinue token [target]
  | targets, _ => forkOrContinue token targets

/-! ## Barriers -/

/-- Announces a fork at the downstream join. Tokens that already arrived there stay. -/
def registerJoinBarrierIfNeeded (instanceId : Uuid) (split : String) (branchCount : Nat) :
    Eng Unit := do
  let d ← definitionOf instanceId
  match d.findDownstreamJoin split with
  | none => pure ()
  | some join =>
    modifyInstance instanceId fun i =>
      let barrier := match i.joinBarriers.get? join with
        | some barrier => { barrier with expectedCount := branchCount }
        | none => ⟨join, branchCount, []⟩
      { i with joinBarriers := i.joinBarriers.set join barrier }

def registerActiveToken (instanceId : Uuid) (forkId : String) (branchIndex : Nat)
    (token : Token) : Eng Unit :=
  updateInstance instanceId fun i =>
    { i with activeTokens := i.activeTokens ++ [⟨token, some forkId, branchIndex, false⟩] }

def mergedVariables (tokens : List Token) : Variables :=
  tokens.foldl (fun vars token => vars.extend token.vars) ∅

/-- Whether a complex gateway lets the arrived tokens through before all of them are there. -/
def joinConditionMet (d : ProcessDefinition) (gateway : String) (arrived : List Token) : Bool :=
  match d.getNode gateway with
  | some (.complexGateway (some condition) _) =>
    env.evaluateCondition condition (mergedVariables arrived)
  | _ => false

/-- A token arrives at a join. When it is the last one, the arrived tokens are completed in the
fork registry and one merged token leaves. -/
def arriveAtJoin (instanceId : Uuid) (gateway : String) (token : Token) : Eng (Option Token) := do
  let d ← definitionOf instanceId
  let i ← getInstance instanceId
  let barrier := (i.joinBarriers.get? gateway).getD ⟨gateway, d.incomingFlowCount gateway, []⟩
  let barrier := { barrier with arrivedTokens := barrier.arrivedTokens ++ [token] }
  if barrier.expectedCount ≤ barrier.arrivedTokens.length ∨
      joinConditionMet env d gateway barrier.arrivedTokens then
    modifyInstance instanceId fun i =>
      barrier.arrivedTokens.foldl (fun i t => i.completeActive t.id)
        { i with joinBarriers := i.joinBarriers.erase gateway }
    let merged ← newToken gateway (mergedVariables barrier.arrivedTokens)
    return some { merged with isMerged := true }
  else
    modifyInstance instanceId fun i => { i with joinBarriers := i.joinBarriers.set gateway barrier }
    return none

/-! ## Branches -/

def completeBranchToken (instanceId tokenId : Uuid) : Eng Unit :=
  updateInstance instanceId fun i => i.completeActive tokenId

/-- No token waits and every token of the fork registry is completed. -/
def allTokensCompleted (instanceId : Uuid) : Eng Bool := do
  let i ← getInstance instanceId
  return i.tokens.isEmpty && i.activeTokens.all (·.completed)

end Eng

end BpmnEngine
