import BpmnEngine.BuildSteps
import BpmnEngine.CallReturns
import BpmnEngine.StepOutcomes

/-!
# Embedded subprocesses

A flattened subprocess has no scope of its own when it runs. The compiler turns the end
events of an embedded subprocess, and nothing else, into end events of that subprocess. A
token that steps at one of these leaves the subprocess over its outgoing flow there and
then; no other token is asked for, so a fork inside sends several tokens.
-/
namespace BpmnEngine

open Program Eng

namespace Bpmn

def EndsEmbedded (l : List SubProcess) (node subProcessId : String) : Prop :=
  ∃ subProcess : SubProcess, subProcess.Within l ∧ subProcess.isTriggeredByEvent = false ∧
    subProcess.id = subProcessId ∧ ∃ event ∈ subProcess.scope.endEvents, event.id = node

end Bpmn

namespace Parser

open Bpmn (Scope SubProcess)

variable {env : ParserEnv} {lookups : Lookups} {node : String} {r : EngineResult BpmnElement}
  {kind : NodeKind} {flows : List Bpmn.SequenceFlow} {process : Bpmn.Process} {links : LinkScope}

/-! ## Where the end events of subprocesses come from -/

def EndsAre (P : String → String → Prop) (nodes : Map String BpmnElement) : Prop :=
  ∀ node id, nodes.get? node = some (.subProcessEndEvent id) → P node id

theorem node_notMem_flowSteps {skipped : String → Bool} :
    BuildStep.node node kind r ∉ flowSteps flows skipped := by
  intro hmem
  obtain ⟨flow, -, hstep⟩ := List.mem_flatMap.mp hmem
  split at hstep
  · exact absurd hstep List.not_mem_nil
  · cases List.mem_singleton.mp hstep

theorem node_notMem_throwSteps {id : String} {event : Bpmn.ThrowEvent}
    {element : Bpmn.ThrowEvent → EngineResult BpmnElement} (hkind : kind ≠ .throwEvent) :
    BuildStep.node node kind r ∉ throwSteps id links flows element event := by
  unfold throwSteps
  split <;> simp [hkind]

theorem subProcessEnd_notMem_processSteps :
    BuildStep.node node .subProcessEnd r ∉ processSteps env lookups process links := by
  simp [processSteps, processTaskSteps, processGatewaySteps, processEventSteps, nodes, listened,
    node_notMem_flowSteps, node_notMem_throwSteps]

/-- Flattening makes end events of a subprocess from its end events only. -/
theorem subProcessEnd_mem_scopeSteps {handler : Bool} {subProcess : SubProcess} :
    Returns (scopeSteps env lookups handler subProcess) fun steps =>
      BuildStep.node node .subProcessEnd r ∈ steps → subProcess.isTriggeredByEvent = false ∧
        ∃ event ∈ subProcess.scope.endEvents, event.id = node ∧
          subprocessEnd lookups false subProcess.id event = r := by
  intro steps hsteps hmem
  obtain ⟨_, hplain, hsteps⟩ := Returns.bind_eq_ok hsteps
  obtain ⟨links, -, hsteps⟩ := Returns.bind_eq_ok hsteps
  obtain ⟨⟨start, target, forks⟩, -, hsteps⟩ := Returns.bind_eq_ok hsteps
  cases hsteps
  cases handler with
  | true =>
    simp [entrySteps, subprocessTaskSteps, subprocessGatewaySteps, subprocessEventSteps, nodes,
      node_notMem_flowSteps, node_notMem_throwSteps] at hmem
  | false =>
    constructor
    · cases ht : subProcess.isTriggeredByEvent with
      | false => rfl
      | true => simp [notTriggered, ht, invalid] at hplain
    · cases forks <;>
        simpa [entrySteps, subprocessTaskSteps, subprocessGatewaySteps, subprocessEventSteps, nodes,
          node_notMem_flowSteps, node_notMem_throwSteps] using hmem

theorem subProcessEnd_of_covers {s : String} (h : kind.covers (.subProcessEndEvent s) = true) :
    kind = .subProcessEnd := by
  cases kind <;> first | rfl | cases h

theorem subprocessEnd_eq {event : Bpmn.EndEvent} {id s : String}
    (h : subprocessEnd lookups false id event = .ok (.subProcessEndEvent s)) : s = id := by
  unfold subprocessEnd at h
  split at h <;> cases h
  rfl

/-- A compiled process has end events of subprocesses only where an embedded subprocess of the
document has its end events. -/
theorem compileProcess_ends {defs : Bpmn.Definitions} :
    Returns (compileProcess env defs process) fun d =>
      EndsAre (Bpmn.EndsEmbedded process.subProcesses) d.nodes := by
  intro d hd n s hn
  obtain ⟨steps, hsteps, hbuilds⟩ := compileProcess_builds d hd
  obtain ⟨kind, hmem⟩ := hbuilds.exists_step hn
  obtain ⟨links, -, hsteps⟩ := Returns.bind_eq_ok hsteps
  obtain ⟨⟨embedded, attached⟩, hparts, hsteps⟩ := Returns.bind_eq_ok hsteps
  cases hsteps
  rcases List.mem_append.mp (List.append_assoc .. ▸ hmem) with hmem | hmem
  · cases subProcessEnd_of_covers (processSteps_covered process _ hmem _ rfl)
    exact absurd hmem subProcessEnd_notMem_processSteps
  · obtain ⟨handler, subProcess, hin, own, hown, hmem⟩ := stepFor_of_parts _ _ hparts _ hmem
    cases subProcessEnd_of_covers (scopeSteps_covered own hown _ hmem _ rfl)
    obtain ⟨hplain, event, hevent, hid, hr⟩ := subProcessEnd_mem_scopeSteps own hown hmem
    exact ⟨subProcess, hin, hplain, (subprocessEnd_eq hr).symm, event, hevent, hid⟩

end Parser

/-! ## A token at a node -/

def Token.entered (env : Env) (d : ProcessDefinition) (token : Token) : EngineResult Token := do
  let t ← DataMappings.enter token d token.currentNode
  Scripting.runNodeScripts env t d token.currentNode .start

variable {d : ProcessDefinition}

theorem Token.entered_same {env : Env} {token t : Token} (h : token.entered env d = .ok t) :
    token.Same t := by
  obtain ⟨u, hu, ht⟩ := Returns.bind_eq_ok h
  exact (DataMappings.enter_same hu).trans (Scripting.runNodeScripts_same ht)

/-- The listeners of a node show what they did in the variables of the instance. -/
def Engine.noteEntry (e : Engine) (instanceId : Uuid) (d : ProcessDefinition) (node : String)
    (t : Token) : Engine :=
  if d.listeners.contains node then
    e.modifyInstance instanceId fun i => { i with vars := t.processVariables }
  else e

namespace Config

variable {env : Env} {c : Config} {b : Batch} {token t : Token} {queue : List Token}
  {d : ProcessDefinition} {element : BpmnElement}

/-- The next step of the machine is one of `token` at a node of `d`. -/
structure Stepping (c : Config) (b : Batch) (token : Token) (queue : List Token)
    (d : ProcessDefinition) : Prop where
  control : c.control = .running b
  queue : b.queue = token :: queue
  below : b.stepCount < maxExecutionSteps
  definition : ∃ x, c.engine.instances.find? b.instanceId = some x ∧
    c.engine.definitions.find? x.definitionKey = some d

def underWay (b : Batch) (queue : List Token) : Batch :=
  { b with queue := queue, stepCount := b.stepCount + 1 }

theorem Stepping.internalStep (h : Stepping c b token queue d) :
    c.internalStep env = some (stepToken env (underWay b queue) token c) := by
  rw [internalStep_running h.control, stepBatch, h.queue]
  have hbelow := h.below
  dsimp only
  rw [if_neg (by omega)]
  rfl

theorem Stepping.executeStep (h : Stepping c b token queue d)
    (hnode : d.getNode token.currentNode = some element) :
    Program.exec (Eng.executeStep env b.instanceId token) c.engine =
      Program.exec (executeNode env b.instanceId token d token.currentNode element) c.engine := by
  obtain ⟨x, hx, hd⟩ := h.definition
  rw [Eng.executeStep, exec_bind_ok (exec_definitionOf hx hd), hnode]

theorem exec_executeNode {i : Uuid} {e : Engine} (ht : token.entered env d = .ok t) :
    Program.exec (executeNode env i token d token.currentNode element) e =
      Program.exec (dispatch env i t d token.currentNode element)
        (e.noteEntry i d token.currentNode t) := by
  obtain ⟨u, hu, ht⟩ := Returns.bind_eq_ok ht
  rw [executeNode, hu, exec_bind_ok (exec_ofResult (.ok u) e), ht,
    exec_bind_ok (exec_ofResult (.ok t) e), Engine.noteEntry]
  split
  · rw [exec_bind_ok (exec_modifyInstance e i _)]
  · rfl

theorem exec_executeNode_error {i : Uuid} {e : Engine} {error : EngineError}
    (ht : token.entered env d = .error error) :
    Program.exec (executeNode env i token d token.currentNode element) e = (.error error, e) := by
  rw [Token.entered] at ht
  rw [executeNode]
  cases hu : DataMappings.enter token d token.currentNode with
  | error =>
    rw [hu] at ht
    cases ht
    rw [exec_bind_error (exec_ofResult (.error error) e)]
  | ok u =>
    rw [hu] at ht
    change Scripting.runNodeScripts env u d token.currentNode .start = .error error at ht
    rw [exec_bind_ok (exec_ofResult (.ok u) e), ht,
      exec_bind_error (exec_ofResult (.error error) e)]

section

variable (h : Stepping c b token queue d)

include h

section

variable (hnode : d.getNode token.currentNode = some element)

include hnode

theorem Stepping.continues (hgate : element ≠ .inclusiveGateway) (ht : token.entered env d = .ok t)
    {next : Token}
    (hdispatch : ∀ e, Program.exec (dispatch env b.instanceId t d token.currentNode element) e =
      (.ok (.action (.continue next)), e)) :
    c.internalStep env = some
      { c with
        engine := c.engine.noteEntry b.instanceId d token.currentNode t
        control := .running ⟨b.instanceId, queue ++ [next], b.stepCount + 1⟩ } := by
  obtain ⟨e, he⟩ : ∃ e, e = c.engine.noteEntry b.instanceId d token.currentNode t := ⟨_, rfl⟩
  rw [← he]
  have hstep : Program.exec (Eng.executeStep env b.instanceId token) c.engine =
      (.ok (.action (.continue next)), e) := by
    rw [h.executeStep hnode, exec_executeNode ht, hdispatch, he]
  have hdef : Program.exec (Eng.definitionOf b.instanceId) e = (.ok d, e) := by
    obtain ⟨x, hx, hd⟩ := h.definition
    rw [he, Engine.noteEntry]
    split
    · refine exec_definitionOf (x := { x with vars := t.processVariables }) ?_ hd
      rw [Engine.find?_modifyInstance_self, hx]
      rfl
    · exact exec_definitionOf hx hd
  have hsplit : Program.exec (nodeIsInclusiveSplit b.instanceId token.currentNode) e =
      (.ok false, e) := by
    rw [nodeIsInclusiveSplit, exec_bind_ok hdef, hnode,
      beq_eq_false_iff_ne.mpr fun h => hgate (Option.some.inj h), Bool.false_and]
    rfl
  have hact : Program.exec (handleNextAction env b.instanceId token.id token.currentNode queue
      (.continue next)) e = (.ok (.proceed (queue ++ [next])), e) := by
    rw [handleNextAction, exec_bind_ok hsplit]
    rfl
  rw [h.internalStep, stepToken]
  dsimp only [underWay]
  rw [exec_of_ok hstep]
  dsimp only
  rw [act, exec_of_ok hact]
  rfl

theorem Stepping.fails {error : EngineError}
    (hfail : ∃ e, Program.exec (executeNode env b.instanceId token d token.currentNode element)
      c.engine = (.error error, e)) :
    ∃ c' reason, c.internalStep env = some c' ∧ c'.control = .returning (.error reason) := by
  obtain ⟨e, hx⟩ := hfail
  have hreturns : ∃ reason, (failIn (underWay b queue) error { c with engine := e }).control =
      .returning (.error reason) :=
    exec_rule (P := fun c' => ∃ reason, c'.control = .returning (.error reason))
      (fun reason _ _ => ⟨reason, rfl⟩) fun _ _ _ => ⟨error, rfl⟩
  obtain ⟨reason, hreason⟩ := hreturns
  refine ⟨_, reason, ?_, hreason⟩
  rw [h.internalStep, stepToken]
  exact congrArg some (exec_of_error ((h.executeStep hnode).trans hx))

end

/-! ## Entering and leaving a subprocess -/

/-- A token at an end event of a subprocess is itself moved over the flow of the subprocess. -/
theorem Stepping.leaves {s target : String}
    (hnode : d.getNode token.currentNode = some (.subProcessEndEvent s))
    (ht : token.entered env d = .ok t) (htarget : d.resolveNextTarget env s t.vars = .ok target) :
    c.internalStep env = some
      { c with
        engine := c.engine.noteEntry b.instanceId d token.currentNode t
        control := .running ⟨b.instanceId, queue ++ [{ t with currentNode := target }],
          b.stepCount + 1⟩ } := by
  refine h.continues hnode nofun ht fun e => ?_
  have hresolve : Program.exec (Eng.resolveNextTarget env d s t.vars) e = (.ok target, e) := by
    rw [Eng.resolveNextTarget, htarget]
    rfl
  change Program.exec (StepOutcome.action <$> handleSubProcessEndEvent env t d s) e = _
  rw [map_eq_pure_bind, handleSubProcessEndEvent, bind_assoc, exec_bind_ok hresolve]
  rfl

theorem Stepping.stuck {s : String} {error : EngineError}
    (hnode : d.getNode token.currentNode = some (.subProcessEndEvent s))
    (hstuck : (do d.resolveNextTarget env s (← token.entered env d).vars) = .error error) :
    ∃ c' reason, c.internalStep env = some c' ∧ c'.control = .returning (.error reason) := by
  refine @Stepping.fails env c b token queue d _ h hnode error ?_
  cases ht : token.entered env d with
  | error =>
    rw [ht] at hstuck
    cases hstuck
    exact ⟨_, exec_executeNode_error ht⟩
  | ok t =>
    rw [ht] at hstuck
    change d.resolveNextTarget env s t.vars = .error error at hstuck
    refine ⟨c.engine.noteEntry b.instanceId d token.currentNode t, (exec_executeNode ht).trans ?_⟩
    change Program.exec (StepOutcome.action <$> handleSubProcessEndEvent env t d s) _ = _
    rw [map_eq_pure_bind, handleSubProcessEndEvent, Eng.resolveNextTarget, hstuck, bind_assoc]
    rfl

end

end Config

theorem ProcessDefinition.resolveNextTarget_mem {env : Env} {source target : String}
    {vars : Variables} (h : d.resolveNextTarget env source vars = .ok target) :
    ∃ flow ∈ d.nextNodes source, flow.target = target := by
  unfold ProcessDefinition.resolveNextTarget at h
  split at h
  next flow hflow =>
    cases h
    exact ⟨flow, List.mem_of_find?_eq_some hflow, rfl⟩
  · cases h

/-- The graph of a deployed definition is that of the one it was made from. -/
structure ProcessDefinition.SameGraph (d d' : ProcessDefinition) : Prop where
  nodes : d'.nodes = d.nodes
  flows : d'.flows = d.flows

/-- The end events of subprocesses that the compiler produces are end events of embedded
subprocesses of the document, and in every state of the engine a token at one of them is
itself moved over a flow of its subprocess in its next step. Nothing else in the queue, among
the waits or on the stack is read or changed. Only where no flow matches the step fails. -/
theorem Parser.compiled_subprocess_ends (env : Env) {parserEnv : ParserEnv}
    {defs : Bpmn.Definitions} {process : Bpmn.Process} {d d' : ProcessDefinition}
    (hcompile : Parser.compileProcess parserEnv defs process = .ok d) (hdeploy : d.SameGraph d')
    {c : Config} {b : Batch} {token : Token} {queue : List Token} {s : String}
    (hstepping : c.Stepping b token queue d')
    (hnode : d.getNode token.currentNode = some (.subProcessEndEvent s)) :
    Bpmn.EndsEmbedded process.subProcesses token.currentNode s ∧
      (∀ t target, token.entered env d' = .ok t → d'.resolveNextTarget env s t.vars = .ok target →
        t.id = token.id ∧ (∃ flow ∈ d.nextNodes s, flow.target = target) ∧
        c.internalStep env = some
          { c with
            engine := c.engine.noteEntry b.instanceId d' token.currentNode t
            control := .running ⟨b.instanceId, queue ++ [{ t with currentNode := target }],
              b.stepCount + 1⟩ }) ∧
      ∀ error, (do d'.resolveNextTarget env s (← token.entered env d').vars) = .error error →
        ∃ c' reason, c.internalStep env = some c' ∧ c'.control = .returning (.error reason) := by
  have hnode' : d'.getNode token.currentNode = some (.subProcessEndEvent s) := by
    rw [ProcessDefinition.getNode, hdeploy.nodes]
    exact hnode
  refine ⟨Parser.compileProcess_ends d hcompile token.currentNode s hnode,
    fun t target ht htarget => ⟨(Token.entered_same ht).id, ?_, hstepping.leaves hnode' ht htarget⟩,
    fun error hstuck => hstepping.stuck hnode' hstuck⟩
  obtain ⟨flow, hflow, htarget⟩ := ProcessDefinition.resolveNextTarget_mem htarget
  rw [ProcessDefinition.nextNodes, hdeploy.flows] at hflow
  exact ⟨flow, hflow, htarget⟩

/-! ## A fork inside a subprocess -/

/-- Inside `sub` one branch ends at once and the other one waits for a user task. -/
def forkInside : Bpmn.Process where
  id := "fork"
  scope :=
    { startEvents := [{ id := "start" }]
      endEvents := [{ id := "end" }]
      userTasks := [{ id := "after" }]
      sequenceFlows := [⟨"f1", "start", "sub", none⟩, ⟨"f2", "sub", "after", none⟩,
        ⟨"f3", "after", "end", none⟩] }
  subProcesses := [.mk "sub" none []
    { startEvents := [{ id := "in" }]
      endEvents := [{ id := "out" }, { id := "done" }]
      parallelGateways := [{ id := "both" }]
      userTasks := [{ id := "work" }]
      sequenceFlows := [⟨"g1", "in", "both", none⟩, ⟨"g2", "both", "out", none⟩,
        ⟨"g3", "both", "work", none⟩, ⟨"g4", "work", "done", none⟩] } []]

/-- The user tasks, with their tokens, once the document is deployed, one instance is started
and some operations have followed. -/
def forkInsideTasks (ops : List Op) : Option (List (String × Uuid)) :=
  match Parser.parseDefinitions .plain { processes := [forkInside] } with
  | .error _ => none
  | .ok d =>
    (Config.performAll .plain 40 (Config.initial 0)
      (.deployDefinition d :: .startInstance 1 ∅ :: ops)).map fun c =>
        c.engine.pendingUserTasks.entries.map fun task => (task.nodeId, task.tokenId)

/-- Token 5 has left `sub` while token 6 still works inside, and in the end both of them have
gone over the flow to `after`. -/
theorem fork_inside_sends_two_tokens :
    forkInsideTasks [] = some [("work", 6), ("after", 5)] ∧
      forkInsideTasks [.completeUserTask 7 ∅] = some [("after", 5), ("after", 6)] := by
  decide +kernel

/-- Token 5 is at an end event of `sub`, and token 6 is to start its work. -/
def leavingSub (d : ProcessDefinition) : Config :=
  (Config.idle { Engine.new 0 with
    definitions := (∅ : Table ProcessDefinition.key).insert { d with key := 1 }
    instances := (∅ : Table ProcessInstance.id).insert
      { ProcessInstance.initial 2 1 "" none "both" ∅ with
        state := .parallelExecution 2
        activeTokens := [⟨⟨5, "out", ∅, false, none⟩, some "both", 0, false⟩,
          ⟨⟨6, "work", ∅, false, none⟩, some "both", 1, false⟩] }
    nextUuid := 7 }).run ⟨2, [⟨5, "out", ∅, false, none⟩, ⟨6, "work", ∅, false, none⟩], 4⟩

theorem leavingSub_leaves :
    ∃ d, Parser.compileProcess .plain { processes := [forkInside] } forkInside = .ok d ∧
      (leavingSub d).internalStep .plain = some ((leavingSub d).run
        ⟨2, [⟨6, "work", ∅, false, none⟩, ⟨5, "after", ∅, false, none⟩], 5⟩) := by
  have hfacts : (match Parser.compileProcess .plain { processes := [forkInside] } forkInside with
      | .ok d => decide (d.getNode "out" = some (.subProcessEndEvent "sub") ∧
          (⟨5, "out", ∅, false, none⟩ : Token).entered .plain { d with key := 1 } =
            .ok ⟨5, "out", ∅, false, none⟩ ∧
          ProcessDefinition.resolveNextTarget .plain { d with key := 1 } "sub" ∅ = .ok "after" ∧
          d.listeners.contains "out" = false)
      | .error _ => false) = true := by decide +kernel
  cases hd : Parser.compileProcess .plain { processes := [forkInside] } forkInside with
  | error =>
    rw [hd] at hfacts
    cases hfacts
  | ok d =>
    rw [hd] at hfacts
    obtain ⟨hnode, ht, htarget, hlisteners⟩ := of_decide_eq_true hfacts
    have hstepping : (leavingSub d).Stepping
        ⟨2, [⟨5, "out", ∅, false, none⟩, ⟨6, "work", ∅, false, none⟩], 4⟩
        ⟨5, "out", ∅, false, none⟩ [⟨6, "work", ∅, false, none⟩] { d with key := 1 } :=
      ⟨rfl, rfl, by decide, _, rfl, rfl⟩
    have hdeploy : d.SameGraph { d with key := 1 } := ⟨rfl, rfl⟩
    refine ⟨d, rfl, ?_⟩
    have hleaves := (Parser.compiled_subprocess_ends .plain hd hdeploy hstepping hnode).2.1 _ _
      ht htarget
    rw [hleaves.2.2, Engine.noteEntry, if_neg (by rw [hlisteners]; decide)]
    rfl

end BpmnEngine
