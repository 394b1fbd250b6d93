import BpmnEngine.EngineState

/-!
# Data scopes and listeners of an activity

On entering an activity its input mappings open a data scope on the token, and on
leaving it the output mappings close that scope. Listener scripts run between the
two. Leaving works on a copy of the token, which the caller takes over only when both
the mappings and the end listeners succeeded.
-/
namespace BpmnEngine

namespace Eng

def ofResult {α : Type} (r : EngineResult α) : Eng α := ExceptT.mk (pure r)

end Eng

namespace DataMappings

/-- Opens the data scope of an activity. A scope left over from another activity is dropped
first; a multi-instance service task reads its inputs per item instead. -/
def enter (token : Token) (d : ProcessDefinition) (node : String) : EngineResult Token := do
  let token := match token.dataScope with
    | some scope => if scope.nodeId ≠ node then token.discardDataScope else token
    | none => token
  if token.dataScope.isSome || d.isMultiInstanceService node then
    return token
  match d.dataMappings.get? node with
  | none => return token
  | some mappings =>
    let inputs ← evaluateMappings mappings.inputs token.vars
    return { token with
      dataScope := some ⟨node, token.vars, inputs.keys⟩
      vars := token.vars.extend inputs }

/-- Closes the data scope of an activity. Without output mappings the local names go back to
their outer values; with them only the outputs leave the scope. -/
def leave (token : Token) (d : ProcessDefinition) (node : String) : EngineResult Token :=
  match token.dataScope with
  | none => return token
  | some scope =>
    if scope.nodeId ≠ node then return token
    else match d.dataMappings.get? node with
      | none => throw (.dataMappingError
          s!"Data mapping: activation of '{node}' has no mappings")
      | some mappings => do
        let outputs ← evaluateMappings mappings.outputs token.vars
        let base :=
          if mappings.outputs.isEmpty then token.processVariables
          else scope.originalVariables
        return { token with vars := base.extend outputs, dataScope := none }

/-- Adds the inputs of an activity to the variables of one item. -/
def applyInputs (d : ProcessDefinition) (node : String) (vars : Variables) :
    EngineResult Variables :=
  match d.dataMappings.get? node with
  | none => return vars
  | some mappings => return vars.extend (← evaluateMappings mappings.inputs vars)

def isInputTarget (inputs : List DataMapping) (name : String) : Bool :=
  inputs.any fun mapping => mapping.target == name

/-- Writes what a worker returned for one item onto the shared token. -/
def publishMultiInstanceOutputs (token : Token) (d : ProcessDefinition) (node : String)
    (snapshot worker : Variables) : EngineResult Token :=
  match d.dataMappings.get? node with
  | none => return { token with vars := token.vars.extend worker }
  | some mappings =>
    if mappings.outputs.isEmpty then
      let written := worker.retain fun entry => !isInputTarget mappings.inputs entry.1
      return { token with vars := token.vars.extend written }
    else do
      let outputs ← evaluateMappings mappings.outputs (snapshot.extend worker)
      return { token with vars := token.vars.extend outputs }

/-- Hands the results of a called instance to the caller's token and below its data scope. -/
def applyCallTransfer (token : Token) (transferred : Variables) : Token :=
  { token with
    vars := token.vars.extend transferred
    dataScope := token.dataScope.map fun scope =>
      { scope with originalVariables := scope.originalVariables.extend transferred } }

end DataMappings

namespace Scripting

def listenerName : ListenerEvent → String
  | .start => "start"
  | .end => "end"

/-- Runs the listeners of one event in order, each on the variables the one before left. -/
def runNodeScripts (env : Env) (token : Token) (d : ProcessDefinition) (node : String)
    (event : ListenerEvent) : EngineResult Token :=
  ((d.listeners.get? node).getD []).foldlM
    (fun token listener =>
      if listener.event = event then
        match env.executeScript listener.script token.vars with
        | .ok vars => .ok { token with vars := vars }
        | .error (.scriptError text) =>
          let name := listenerName event
          .error (.scriptError s!"Knoten '{node}' ({name}-Listener): {text}")
        | .error other => .error other
      else .ok token)
    token

/-- Leaves an activity: output mappings, then the end listeners. -/
def runEndScripts (env : Env) (token : Token) (d : ProcessDefinition) (node : String) :
    EngineResult Token := do
  let candidate ← DataMappings.leave token d node
  runNodeScripts env candidate d node .end

end Scripting

/-! ## The token stays the same -/

/-- The same token up to its variables and its data scope. -/
structure Token.Same (t t' : Token) : Prop where
  id : t'.id = t.id
  currentNode : t'.currentNode = t.currentNode
  isMerged : t'.isMerged = t.isMerged

theorem Token.Same.refl (t : Token) : t.Same t := ⟨rfl, rfl, rfl⟩

theorem Token.Same.trans {t u v : Token} (h : t.Same u) (h' : u.Same v) : t.Same v :=
  ⟨h'.id.trans h.id, h'.currentNode.trans h.currentNode, h'.isMerged.trans h.isMerged⟩

theorem Token.discardDataScope_same (t : Token) : t.Same t.discardDataScope := by
  unfold Token.discardDataScope
  split <;> exact ⟨rfl, rfl, rfl⟩

namespace DataMappings

variable {t token : Token} {d : ProcessDefinition} {node : String}

theorem enter_same (h : enter token d node = .ok t) : token.Same t := by
  unfold enter at h
  have hbase : token.Same (match token.dataScope with
      | some scope => if scope.nodeId ≠ node then token.discardDataScope else token
      | none => token) := by
    split
    · split
      · exact token.discardDataScope_same
      · exact Token.Same.refl _
    · exact Token.Same.refl _
  revert h hbase
  generalize (match token.dataScope with
      | some scope => if scope.nodeId ≠ node then token.discardDataScope else token
      | none => token) = base
  intro h hbase
  simp only [Bool.or_eq_true, pure, Except.pure, bind, Except.bind] at h
  split at h
  · cases h
    exact hbase
  · split at h
    · cases h
      exact hbase
    · split at h
      · cases h
      · cases h
        exact hbase.trans ⟨rfl, rfl, rfl⟩

theorem leave_same (h : leave token d node = .ok t) : token.Same t := by
  unfold leave at h
  simp only [pure, Except.pure, bind, Except.bind, throw, throwThe, MonadExceptOf.throw] at h
  split at h
  · cases h
    exact .refl _
  · split at h
    · cases h
      exact .refl _
    · split at h
      · cases h
      · split at h
        · cases h
        · cases h
          exact ⟨rfl, rfl, rfl⟩

theorem publishMultiInstanceOutputs_same {snapshot worker : Variables}
    (h : publishMultiInstanceOutputs token d node snapshot worker = .ok t) : token.Same t := by
  unfold publishMultiInstanceOutputs at h
  simp only [pure, Except.pure, bind, Except.bind] at h
  split at h
  · cases h
    exact ⟨rfl, rfl, rfl⟩
  · split at h
    · cases h
      exact ⟨rfl, rfl, rfl⟩
    · split at h
      · cases h
      · cases h
        exact ⟨rfl, rfl, rfl⟩

end DataMappings

namespace Scripting

variable {env : Env} {d : ProcessDefinition} {node : String}

theorem runNodeScripts_same {token t : Token} {event : ListenerEvent}
    (h : runNodeScripts env token d node event = .ok t) : token.Same t := by
  unfold runNodeScripts at h
  -- The listeners are run one after another; each replaces the variables only.
  generalize (d.listeners.get? node).getD [] = listeners at h
  induction listeners generalizing token with
  | nil =>
    cases h
    exact .refl _
  | cons listener rest ih =>
    rw [List.foldlM_cons] at h
    simp only [bind, Except.bind] at h
    split at h
    · cases h
    case h_2 next hnext =>
      have hstep : token.Same next := by
        split at hnext
        · split at hnext <;> cases hnext
          exact ⟨rfl, rfl, rfl⟩
        · cases hnext
          exact .refl _
      exact hstep.trans (ih h)

theorem runEndScripts_same {token t : Token} (h : runEndScripts env token d node = .ok t) :
    token.Same t := by
  unfold runEndScripts at h
  simp only [bind, Except.bind] at h
  split at h
  · cases h
  case h_2 hleave => exact (DataMappings.leave_same hleave).trans (runNodeScripts_same h)

end Scripting

namespace Eng

/-- Leaves an activity and publishes the variables of the token on the instance. -/
def runEndScripts (env : Env) (instanceId : Uuid) (token : Token) (d : ProcessDefinition)
    (node : String) : Eng Token := do
  let _ ← getInstance instanceId
  let token ← ofResult (Scripting.runEndScripts env token d node)
  modifyInstance instanceId fun i => { i with vars := token.processVariables }
  return token

end Eng

end BpmnEngine
