import BpmnEngine.EventDelivery

/-!
# Operations on definitions and instances

Deploying and deleting definitions, changing the variables of an instance, suspending
and resuming it, moving its token, migrating it to another definition and deleting it.
A definition gets a fresh key when it is built; the key is drawn here on deployment.
-/
namespace BpmnEngine

namespace Eng

variable (env : Env)

/-! ## Definitions -/

def highestVersion (definitions : List ProcessDefinition) (bpmnId : String) : Option Int :=
  (definitions.filter fun d => d.id == bpmnId).foldl
    (fun best d => some (max d.version (best.getD d.version))) none

/-- A further version of a known process gets the next version number. -/
def deployDefinition (d : ProcessDefinition) : Eng Unit := do
  let key ← newUuid
  modify fun e =>
    let version := ((highestVersion e.definitions.entries d.id).map (· + 1)).getD d.version
    { e with definitions := e.definitions.insert { d with key := key, version := version } }

/-! ## Deleting -/

def deleteInstance (instanceId : Uuid) : Eng Unit := do
  let _ ← getInstance instanceId
  modify fun e => { e with instances := e.instances.erase instanceId }
  cancelScopeWaits instanceId

def deleteDefinition (key : Uuid) (cascade : Bool) : Eng Unit := do
  let _ ← getDefinition key
  let e ← get
  let associated := ((env.visit e.nextUuid e.instances.entries).filter fun i =>
    i.definitionKey == key).map (·.id)
  if !associated.isEmpty && !cascade then
    throw (.definitionHasInstances associated.length)
  associated.forM deleteInstance
  modify fun e => { e with definitions := e.definitions.erase key }

/-! ## Variables -/

/-- A null value deletes a variable. -/
def applyUpdates (updates vars : Variables) : Variables :=
  updates.entries.foldl
    (fun vars (name, value) => if value = .null then vars.erase name else vars.set name value)
    vars

/-- An update reaches a waiting token below its data scope, and above it unless the name is local
there. -/
def updateToken (updates : Variables) (token : Token) : Token :=
  match token.dataScope with
  | none => { token with vars := applyUpdates updates token.vars }
  | some scope =>
    { token with
      dataScope := some
        { scope with originalVariables := applyUpdates updates scope.originalVariables }
      vars := applyUpdates (updates.retain fun u => !scope.localNames.contains u.1) token.vars }

theorem updateToken_id (updates : Variables) (token : Token) :
    (updateToken updates token).id = token.id := by
  unfold updateToken
  split <;> rfl

def updateInstanceVariables (instanceId : Uuid) (updates : Variables) : Eng Next := do
  updateInstance instanceId fun i =>
    { i with
      vars := applyUpdates updates i.vars
      tokens := i.tokens.mapEntries (updateToken updates) (updateToken_id updates) }
  match ← fireConditionalCatches env instanceId with
  | [] => return .done
  | fired => return .run instanceId fired

/-! ## Suspending and resuming -/

/-- Fails for an instance that has ended or is suspended. -/
def requireActive (i : ProcessInstance) : Eng Unit :=
  if i.state.isTerminal then throw .alreadyCompleted
  else if i.state.isSuspended then throw (.instanceSuspended i.id)
  else pure ()

def suspendInstance (instanceId : Uuid) : Eng Unit := do
  let i ← getInstance instanceId
  requireActive i
  modifyInstance instanceId fun i => { i with state := .suspended i.state }

def resumeInstance (instanceId : Uuid) : Eng Unit := do
  let i ← getInstance instanceId
  match i.state with
  | .suspended previous => modifyInstance instanceId fun i => { i with state := previous }
  | _ => throw (.invalidDefinition "Instance is not suspended")

/-! ## Moving a token -/

/-- Replaces all tokens of an instance by a new one at a given node. The waits go only if asked;
outstanding calls and event subscriptions stay in the instance. -/
def moveToken (instanceId : Uuid) (target : String) (vars : Variables) (cancelCurrent : Bool) :
    Eng Next := do
  let i ← getInstance instanceId
  requireActive i
  let d ← getDefinition i.definitionKey
  if !d.nodes.contains target then throw (.noSuchNode target)
  if cancelCurrent then cancelScopeWaits instanceId
  let vars := applyUpdates vars i.vars
  let token ← newToken target vars
  modifyInstance instanceId fun i =>
    { i with
      tokens := (∅ : Table Token.id).insert token
      activeTokens := []
      joinBarriers := ∅
      multiInstanceState := ∅
      state := .running
      currentNode := target
      vars := vars }
  return .run instanceId [token]

/-! ## Migration -/

/-- Where a mapping sends a node; unmapped nodes stay. -/
def remap (mapping : Map String String) (node : String) : String :=
  (mapping.get? node).getD node

def remapToken (mapping : Map String String) (t : Token) : Token :=
  { t with currentNode := remap mapping t.currentNode }

/-- Every node the instance is at must exist in the target definition. -/
def checkNodes (d : ProcessDefinition) (mapping : Map String String) (nodes : List String) :
    Eng Unit :=
  nodes.forM fun node =>
    if d.nodes.contains (remap mapping node) then pure ()
    else throw (.orphanedToken (remap mapping node))

/-- The instance on its new definition. Two barriers that end under one node become one. -/
def migrated (mapping : Map String String) (target seed : Uuid) (i : ProcessInstance) :
    ProcessInstance :=
  { i with
    definitionKey := target
    currentNode := remap mapping i.currentNode
    tokens := i.tokens.mapEntries (remapToken mapping) fun _ => rfl
    activeTokens := i.activeTokens.map fun a => { a with token := remapToken mapping a.token }
    joinBarriers := Map.ofList ((env.visit seed i.joinBarriers.entries).map
      fun (node, barrier) => (remap mapping node, barrier))
    multiInstanceState := Map.ofList ((env.visit seed i.multiInstanceState.entries).map
      fun (node, progress) => (remap mapping node, progress)) }

/-- The waits of a migrated instance at their new nodes. -/
def migrateWaits (mapping : Map String String) (target instanceId : Uuid) (e : Engine) : Engine :=
  { e with
    pendingUserTasks := e.pendingUserTasks.mapEntries (fun t =>
      { t with nodeId := if t.instanceId = instanceId then remap mapping t.nodeId else t.nodeId })
      fun _ => rfl
    pendingServiceTasks := e.pendingServiceTasks.mapEntries (fun t =>
      { t with
        nodeId := if t.instanceId = instanceId then remap mapping t.nodeId else t.nodeId
        definitionKey := if t.instanceId = instanceId then target else t.definitionKey })
      fun _ => rfl
    pendingTimers := e.pendingTimers.mapEntries (fun t =>
      { t with nodeId := if t.instanceId = instanceId then remap mapping t.nodeId else t.nodeId })
      fun _ => rfl
    pendingMessageCatches := e.pendingMessageCatches.mapEntries (fun t =>
      { t with nodeId := if t.instanceId = instanceId then remap mapping t.nodeId else t.nodeId })
      fun _ => rfl
    pendingSignalCatches := e.pendingSignalCatches.mapEntries (fun t =>
      { t with nodeId := if t.instanceId = instanceId then remap mapping t.nodeId else t.nodeId })
      fun _ => rfl
    pendingConditionalCatches := e.pendingConditionalCatches.mapEntries (fun t =>
      { t with nodeId := if t.instanceId = instanceId then remap mapping t.nodeId else t.nodeId })
      fun _ => rfl }

def checkMigration (instanceId target : Uuid) (mapping : Map String String) : Eng Unit := do
  let d ← getDefinition target
  let i ← getInstance instanceId
  requireActive i
  checkNodes d mapping [i.currentNode]
  checkNodes d mapping (i.tokens.entries.map (·.currentNode))
  checkNodes d mapping (i.activeTokens.map (·.token.currentNode))

def migrateInstance (instanceId target : Uuid) (mapping : Map String String) : Eng Unit := do
  checkMigration instanceId target mapping
  let seed := (← get).nextUuid
  modifyInstance instanceId (migrated env mapping target seed)
  modify (migrateWaits mapping target instanceId)

/-! ## Incidents and handlers -/

def resolveInstanceIncident (instanceId incidentId : Uuid) (resolvedBy : Option String) :
    Eng Unit := do
  let i ← getInstance instanceId
  let clock ← now
  match i.incidents.findIdx? fun incident => incident.id == incidentId with
  | none => throw (.incidentNotFound incidentId)
  | some index =>
    if (i.incidents[index]?.bind (·.resolvedAt)).isSome then
      throw (.incidentAlreadyResolved incidentId)
    modifyInstance instanceId fun i =>
      { i with incidents := i.incidents.modify index fun incident =>
          { incident with resolvedAt := some clock, resolvedBy := resolvedBy } }

def registerTaskHandler (topic : String) : Eng Unit :=
  modify fun e =>
    if topic = "" ∨ topic ∈ e.taskHandlers then e
    else { e with taskHandlers := e.taskHandlers ++ [topic] }

def unregisterTaskHandler (topic : String) : Eng Unit :=
  modify fun e => { e with taskHandlers := e.taskHandlers.filter fun t => !(t == topic) }

end Eng

end BpmnEngine
