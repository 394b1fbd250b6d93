import BpmnEngine.BuildSteps

/-!
# What becomes of the elements of a document

Every flow node of a process, at whatever depth of its subprocesses, should be one node of the
compiled definition, and the listeners of an activity should be listeners of its node. The
compiler keeps the nodes in one map and does not look whether an identifier is taken: of two flow
nodes with one identifier only the later one is there. The listeners of subprocesses and of
the activities inside them are not read.
-/
namespace BpmnEngine

namespace Bpmn

/-- The flow nodes that a process and a subprocess treat alike. The throw event of a link stands for
its catch event. -/
def Scope.innerNodes (s : Scope) : List (String × NodeKind) :=
  s.serviceTasks.map (·.id, NodeKind.serviceTask) ++
    s.scriptTasks.map (·.id, NodeKind.scriptTask) ++
    s.userTasks.map (·.id, NodeKind.userTask) ++ s.sendTasks.map (·.id, NodeKind.sendTask) ++
    s.receiveTasks.map (·.id, NodeKind.receiveTask) ++
    s.manualTasks.map (·.id, NodeKind.userTask) ++
    s.businessRuleTasks.map (·.id, NodeKind.serviceTask) ++
    s.callActivities.map (·.id, NodeKind.callActivity) ++
    s.exclusiveGateways.map (·.id, NodeKind.exclusiveGateway) ++
    s.parallelGateways.map (·.id, NodeKind.parallelGateway) ++
    s.inclusiveGateways.map (·.id, NodeKind.inclusiveGateway) ++
    s.eventBasedGateways.map (·.id, NodeKind.eventBasedGateway) ++
    s.complexGateways.map (·.id, NodeKind.complexGateway) ++
    (s.intermediateCatchEvents.filter fun event => event.link.isNone).map
      (·.id, NodeKind.catchEvent) ++
    s.intermediateThrowEvents.map (·.id, NodeKind.throwEvent) ++
    s.boundaryEvents.map (·.id, NodeKind.boundaryEvent)

def Scope.isFork (s : Scope) (start : StartEvent) : Bool :=
  (s.sequenceFlows.filter fun flow => flow.sourceRef == start.id).length != 1

/-- The subprocess itself and its start event. One that leads to a single node is not needed,
unless it starts an event subprocess. -/
def SubProcess.entryNodes (handler : Bool) (subProcess : SubProcess) : List (String × NodeKind) :=
  let s := subProcess.scope
  if handler then s.startEvents.map (·.id, .startEvent)
  else (subProcess.id, .subProcess) :: (s.startEvents.filter s.isFork).map (·.id, .parallelGateway)

def SubProcess.ownNodes (handler : Bool) (subProcess : SubProcess) : List (String × NodeKind) :=
  subProcess.entryNodes handler ++
    subProcess.scope.endEvents.map (·.id, if handler then .endEvent else .subProcessEnd) ++
    subProcess.scope.innerNodes

mutual

def SubProcess.flowNodes (handler : Bool) : SubProcess → List (String × NodeKind)
  | .mk id triggered listeners scope nested =>
    (SubProcess.mk id triggered listeners scope nested).ownNodes handler ++ nestedNodes nested

def nestedNodes : List SubProcess → List (String × NodeKind)
  | [] => []
  | subProcess :: rest => subProcess.flowNodes false ++ nestedNodes rest

end

def Process.flowNodes (process : Process) : List (String × NodeKind) :=
  process.scope.startEvents.map (·.id, .startEvent) ++
    process.scope.endEvents.map (·.id, .endEvent) ++ process.scope.innerNodes ++
    process.subProcesses.flatMap fun subProcess =>
      subProcess.flowNodes subProcess.isTriggeredByEvent

end Bpmn

namespace Parser

open Bpmn (Scope SubProcess)

def BuildStep.placed? : BuildStep → Option (String × NodeKind)
  | .node id kind _ => some (id, kind)
  | _ => none

def placed (steps : List BuildStep) : List (String × NodeKind) := steps.filterMap BuildStep.placed?

section Placed

variable {env : ParserEnv} {lookups : Lookups} {steps : List BuildStep} {n : String}
  {kind : NodeKind} {process : Bpmn.Process} {α : Type} {links : LinkScope} {handler : Bool}

@[simp] theorem placed_append (l l' : List BuildStep) : placed (l ++ l') = placed l ++ placed l' :=
  List.filterMap_append

theorem placed_flatMap {steps : α → List BuildStep} {id : α → String} {l : List α}
    (h : ∀ x, placed (steps x) = [(id x, kind)]) :
    placed (l.flatMap steps) = l.map fun x => (id x, kind) := by
  induction l with
  | nil => rfl
  | cons x rest ih =>
    rw [List.flatMap_cons, placed_append, h, ih, List.map_cons, List.singleton_append]

@[simp] theorem placed_nodes (id : α → String) (element : α → EngineResult BpmnElement)
    (l : List α) : placed (nodes id kind element l) = l.map fun x => (id x, kind) := by
  rw [nodes, List.map_eq_flatMap]
  exact placed_flatMap fun _ => rfl

@[simp] theorem placed_listened (id : α → String) (listeners : α → List Bpmn.Listener)
    (element : α → EngineResult BpmnElement) (l : List α) :
    placed (listened id listeners kind element l) = l.map fun x => (id x, kind) :=
  placed_flatMap fun _ => rfl

@[simp] theorem placed_flowSteps (flows : List Bpmn.SequenceFlow) (skipped : String → Bool) :
    placed (flowSteps flows skipped) = [] := by
  induction flows with
  | nil => rfl
  | cons flow rest ih =>
    rw [flowSteps, List.flatMap_cons, ← flowSteps, placed_append, ih]
    split <;> rfl

@[simp] theorem placed_check (r : EngineResult Unit) : placed [.check r] = [] := rfl

@[simp] theorem placed_listeners (id : String) (l : List Bpmn.Listener) :
    placed [.listeners id l] = [] := rfl

@[simp] theorem placed_throwSteps {label : String} {flows : List Bpmn.SequenceFlow}
    {element : Bpmn.ThrowEvent → EngineResult BpmnElement} (event : Bpmn.ThrowEvent) :
    placed (throwSteps label links flows element event) = [(event.id, .throwEvent)] := by
  unfold throwSteps
  split
  · cases resolveLinkThrow links label event.id _ flows <;> rfl
  · rfl

/-- The only start event of a subprocess is a fork if it does not have one exit. -/
theorem subprocessEntry_forks {id : String} {s : Scope} :
    Returns (subprocessEntry handler id s) fun entry =>
      ∃ start, s.startEvents = [start] ∧ entry.1 = start.id ∧ entry.2.2 = s.isFork start := by
  unfold subprocessEntry
  split
  · exact .error _
  · exact .error _
  next start hstart =>
    dsimp only
    split
    · exact .error _
    · cases hflows : s.sequenceFlows.filter fun flow => flow.sourceRef == start.id with
      | nil => exact .error _
      | cons flow rest =>
        cases rest with
        | nil => exact .ok ⟨start, hstart, rfl, by simp [Scope.isFork, hflows]⟩
        | cons =>
          cases handler with
          | true => exact .error _
          | false => exact .ok ⟨start, hstart, rfl, by simp [Scope.isFork, hflows]⟩

theorem placed_scopeSteps {subProcess : SubProcess} :
    Returns (scopeSteps env lookups handler subProcess) fun steps =>
      placed steps = subProcess.ownNodes handler := by
  intro steps hsteps
  obtain ⟨_, -, hsteps⟩ := Returns.bind_eq_ok hsteps
  obtain ⟨links, -, hsteps⟩ := Returns.bind_eq_ok hsteps
  obtain ⟨⟨first, target, forks⟩, hentry, hsteps⟩ := Returns.bind_eq_ok hsteps
  cases hsteps
  obtain ⟨start, hstart, rfl, rfl⟩ := subprocessEntry_forks _ hentry
  have hentry : placed (entrySteps handler subProcess.id
      (start.id, target, subProcess.scope.isFork start)) = subProcess.entryNodes handler := by
    simp only [SubProcess.entryNodes, hstart]
    cases handler with
    | true => rfl
    | false => cases hfork : subProcess.scope.isFork start <;> simp [hfork] <;> rfl
  simp only [SubProcess.ownNodes, Scope.innerNodes, subprocessTaskSteps, subprocessGatewaySteps,
    subprocessEventSteps, placed_append, placed_nodes, placed_flowSteps,
    placed_flatMap placed_throwSteps, hentry, placed_check, List.append_assoc, List.nil_append,
    List.append_nil]

mutual

theorem placed_subprocessSteps (handler : Bool) : (subProcess : SubProcess) →
    Returns (subprocessSteps env lookups handler subProcess) fun steps =>
      placed steps = subProcess.flowNodes handler
  | .mk id triggered listeners scope nested => by
    unfold subprocessSteps SubProcess.flowNodes
    refine placed_scopeSteps.bind fun own hown => ?_
    refine (placed_subprocessesSteps nested).bind fun inner hinner => .ok ?_
    rw [placed_append, hown, hinner]

theorem placed_subprocessesSteps : (l : List SubProcess) →
    Returns (subprocessesSteps env lookups l) fun steps => placed steps = Bpmn.nestedNodes l
  | [] => by
    unfold subprocessesSteps Bpmn.nestedNodes
    exact .ok rfl
  | subProcess :: rest => by
    unfold subprocessesSteps Bpmn.nestedNodes
    refine (placed_subprocessSteps false subProcess).bind fun own hown => ?_
    refine (placed_subprocessesSteps rest).bind fun more hmore => .ok ?_
    rw [placed_append, hown, hmore]

end

theorem placed_processSteps : (placed (processSteps env lookups process links)).Perm
      (process.scope.startEvents.map (·.id, .startEvent) ++
        process.scope.endEvents.map (·.id, .endEvent) ++ process.scope.innerNodes) := by
  have hthrow (event : Bpmn.ThrowEvent) : placed (throwSteps process.id links
      process.scope.sequenceFlows (throwEvent lookups (lookedUpMessage lookups "generic_throw"))
        event ++ [.listeners event.id event.listeners]) = [(event.id, .throwEvent)] := by
    rw [placed_append, placed_throwSteps]
    rfl
  refine List.perm_iff_count.mpr fun a => ?_
  simp only [processSteps, processTaskSteps, processGatewaySteps, processEventSteps, placed_append,
    placed_nodes, placed_listened, placed_flowSteps, placed_check, placed_flatMap hthrow,
    placed_listeners, Scope.innerNodes, List.count_append, List.count_nil]
  omega

theorem lastElement_of_once {e : BpmnElement} (honce : ((placed steps).map Prod.fst).count n ≤ 1)
    (hmem : ∃ kind, .node n kind (.ok e) ∈ steps) :
    (stepsAt n steps).reverse.findSome? BuildStep.element? = some e := by
  obtain ⟨kind, hmem⟩ := hmem
  obtain ⟨before, after, rfl⟩ := List.append_of_mem hmem
  have hsplit : placed (before ++ .node n kind (.ok e) :: after) =
      placed before ++ (n, kind) :: placed after := by simp [placed, BuildStep.placed?]
  rw [hsplit, List.map_append, List.map_cons, List.count_append, List.count_cons_self] at honce
  have hafter : n ∉ (placed after).map Prod.fst := List.count_eq_zero.mp (by omega)
  have hnone : (stepsAt n after).reverse.findSome? BuildStep.element? = none := by
    rw [List.findSome?_eq_none_iff]
    intro step hstep
    obtain ⟨hstep, htarget⟩ := List.mem_filter.mp (List.mem_reverse.mp hstep)
    cases step with
    | flow | listeners | check => rfl
    | node id kind' =>
      cases eq_of_beq htarget
      refine absurd (List.mem_map.mpr ⟨(n, kind'), ?_, rfl⟩) hafter
      exact List.mem_filterMap.mpr ⟨_, hstep, rfl⟩
  rw [List.append_cons, stepsAt_append, stepsAt_append, List.reverse_append, List.findSome?_append,
    hnone, List.reverse_append, List.findSome?_append, stepsAt_singleton rfl]
  rfl

end Placed

end Parser

/-- A task in front of a subprocess that has a task as well. -/
def preparedReview (outer inner : String) (listeners : List Bpmn.Listener) : Bpmn.Process where
  id := "review"
  scope := {
    startEvents := [{ id := "start" }]
    endEvents := [{ id := "end" }]
    serviceTasks := [{ id := outer }]
    sequenceFlows := [⟨"f1", "start", "prepare", none⟩, ⟨"f2", "prepare", "sub", none⟩,
      ⟨"f3", "sub", "end", none⟩] }
  subProcesses := [.mk "sub" none [] {
    startEvents := [{ id := "in" }]
    endEvents := [{ id := "out" }]
    userTasks := [{ id := inner, listeners := listeners }]
    sequenceFlows := [⟨"f4", "in", inner, none⟩, ⟨"f5", inner, "out", none⟩] } []]

theorem prepared_review_compiles : ∃ d, Parser.compileProcess .plain { processes := [] }
    (preparedReview "prepare" "read" []) = .ok d ∧ True :=
  Returns.exists_ok (by decide +kernel)

namespace Bpmn

def Scope.activities (s : Scope) : List (String × List Listener) :=
  s.serviceTasks.map (fun t => (t.id, t.listeners)) ++
    s.userTasks.map (fun t => (t.id, t.listeners)) ++
    s.scriptTasks.map (fun t => (t.id, t.listeners)) ++
    s.sendTasks.map (fun t => (t.id, t.listeners)) ++
    s.receiveTasks.map (fun t => (t.id, t.listeners)) ++
    s.manualTasks.map (fun t => (t.id, t.listeners)) ++
    s.businessRuleTasks.map (fun t => (t.id, t.listeners)) ++
    s.callActivities.map (fun t => (t.id, t.listeners))

mutual

/-- A subprocess is an activity, and so are the activities in it. -/
def SubProcess.activities : SubProcess → List (String × List Listener)
  | .mk id _ listeners scope nested => (id, listeners) :: scope.activities ++ innerActivities nested

def innerActivities : List SubProcess → List (String × List Listener)
  | [] => []
  | subProcess :: rest => subProcess.activities ++ innerActivities rest

end

/-- The listeners of the process and of the elements that are not in a subprocess. -/
def Process.declared (process : Process) : List (String × List Listener) :=
  let s := process.scope
  (process.id, process.listeners) :: s.startEvents.map (fun x => (x.id, x.listeners)) ++
    s.endEvents.map (fun x => (x.id, x.listeners)) ++ s.activities ++
    s.exclusiveGateways.map (fun x => (x.id, x.listeners)) ++
    s.inclusiveGateways.map (fun x => (x.id, x.listeners)) ++
    s.parallelGateways.map (fun x => (x.id, x.listeners)) ++
    s.eventBasedGateways.map (fun x => (x.id, x.listeners)) ++
    s.complexGateways.map (fun x => (x.id, x.listeners)) ++
    (s.intermediateCatchEvents.filter fun event => event.link.isNone).map
      (fun x => (x.id, x.listeners)) ++
    s.intermediateThrowEvents.map (fun x => (x.id, x.listeners))

end Bpmn

namespace Parser

open Bpmn (Scope SubProcess)

/-- The scripts of the listeners that are declared under an identifier. -/
def scriptsAt (n : String) (declared : List (String × List Bpmn.Listener)) :
    List ExecutionListener :=
  (declared.filter fun a => a.1 == n).flatMap fun a => a.2.filterMap compiledListener

def BuildStep.heard? : BuildStep → Option (String × List Bpmn.Listener)
  | .listeners id l => some (id, l)
  | _ => none

section Heard

variable {env : ParserEnv} {lookups : Lookups} {steps : List BuildStep} {n : String}
  {process : Bpmn.Process} {α : Type} {links : LinkScope} {kind : NodeKind}

theorem scripts_stepsAt :
    (stepsAt n steps).flatMap BuildStep.scripts =
      scriptsAt n (steps.filterMap BuildStep.heard?) := by
  induction steps with
  | nil => rfl
  | cons step rest ih =>
    rw [← List.singleton_append, stepsAt_append, List.flatMap_append, ih]
    cases step with
    | listeners id =>
      by_cases hn : id = n <;> simp [stepsAt, scriptsAt, BuildStep.heard?, BuildStep.target?,
        BuildStep.scripts, hn]
    | node | flow | check =>
      rw [List.flatMap_eq_nil_iff.mpr fun step hmem => ?_]
      · rfl
      · cases List.mem_singleton.mp (List.mem_of_mem_filter hmem)
        rfl

theorem heard_flatMap {steps : α → List BuildStep} {a : α → String × List Bpmn.Listener}
    {l : List α} (h : ∀ x, (steps x).filterMap BuildStep.heard? = [a x]) :
    (l.flatMap steps).filterMap BuildStep.heard? = l.map a := by
  induction l with
  | nil => rfl
  | cons x rest ih => simp [h, ih]

theorem heard_nodes (id : α → String) (element : α → EngineResult BpmnElement) (l : List α) :
    (nodes id kind element l).filterMap BuildStep.heard? = [] := by
  simp [nodes, BuildStep.heard?]

theorem heard_listened (id : α → String) (listeners : α → List Bpmn.Listener)
    (element : α → EngineResult BpmnElement) (l : List α) :
    (listened id listeners kind element l).filterMap BuildStep.heard? =
      l.map fun x => (id x, listeners x) :=
  heard_flatMap fun _ => rfl

theorem heard_flowSteps (flows : List Bpmn.SequenceFlow) (skipped : String → Bool) :
    (flowSteps flows skipped).filterMap BuildStep.heard? = [] := by
  rw [List.filterMap_eq_nil_iff]
  intro step hmem
  obtain ⟨flow, -, hstep⟩ := List.mem_flatMap.mp hmem
  split at hstep
  · exact absurd hstep List.not_mem_nil
  · cases List.mem_singleton.mp hstep
    rfl

theorem heard_throwSteps {label : String} {flows : List Bpmn.SequenceFlow}
    {element : Bpmn.ThrowEvent → EngineResult BpmnElement} (event : Bpmn.ThrowEvent) :
    (throwSteps label links flows element event).filterMap BuildStep.heard? = [] := by
  unfold throwSteps
  split
  · cases resolveLinkThrow links label event.id _ flows <;> rfl
  · rfl

theorem heard_processSteps :
    (processSteps env lookups process links).filterMap BuildStep.heard? = process.declared := by
  have hthrow (event : Bpmn.ThrowEvent) : (throwSteps process.id links process.scope.sequenceFlows
      (throwEvent lookups (lookedUpMessage lookups "generic_throw")) event ++
        [BuildStep.listeners event.id event.listeners]).filterMap BuildStep.heard? =
          [(event.id, event.listeners)] := by
    rw [List.filterMap_append, heard_throwSteps]
    rfl
  simp only [processSteps, processTaskSteps, processGatewaySteps, processEventSteps,
    List.filterMap_append, heard_nodes, heard_listened, heard_flowSteps, heard_flatMap hthrow,
    Bpmn.Process.declared, Scope.activities, List.append_assoc, List.append_nil,
    List.filterMap_cons, BuildStep.heard?, List.nil_append, List.cons_append]

theorem heard_scopeSteps {handler : Bool} {subProcess : SubProcess} :
    Returns (scopeSteps env lookups handler subProcess) fun steps =>
      steps.filterMap BuildStep.heard? = [] := by
  refine .after fun _ => .after fun links => .after fun entry => .ok ?_
  obtain ⟨start, target, forks⟩ := entry
  have hentry : (entrySteps handler subProcess.id (start, target, forks)).filterMap
      BuildStep.heard? = [] := by
    cases handler <;> cases forks <;> rfl
  simp only [subprocessTaskSteps, subprocessGatewaySteps, subprocessEventSteps, hentry, heard_nodes,
    heard_flowSteps, List.filterMap_append, List.filterMap_flatMap, heard_throwSteps]
  simp [BuildStep.heard?]

theorem listeners_of_compileProcess {defs : Bpmn.Definitions} :
    Returns (compileProcess env defs process) fun d =>
      ∀ n, (d.listeners.get? n).getD [] = scriptsAt n process.declared := by
  intro d hd n
  obtain ⟨steps, hsteps, hbuilds⟩ := compileProcess_builds d hd
  obtain ⟨links, -, hsteps⟩ := Returns.bind_eq_ok hsteps
  obtain ⟨parts, hparts, hsteps⟩ := Returns.bind_eq_ok hsteps
  cases hsteps
  have hsilent : (parts.1 ++ parts.2).filterMap BuildStep.heard? = [] := by
    rw [List.filterMap_eq_nil_iff]
    intro step hmem
    obtain ⟨handler, subProcess, -, own, hown, hmem⟩ := stepFor_of_parts _ _ hparts _ hmem
    exact List.filterMap_eq_nil_iff.mp (heard_scopeSteps own hown) step hmem
  refine (hbuilds.listeners n).trans ?_
  rw [scripts_stepsAt, List.append_assoc, List.filterMap_append, hsilent, heard_processSteps,
    List.append_nil]

theorem sublist_scriptsAt {declared : List (String × List Bpmn.Listener)}
    {a : String × List Bpmn.Listener} (h : a ∈ declared) :
    (a.2.filterMap compiledListener).Sublist (scriptsAt a.1 declared) := by
  obtain ⟨before, after, rfl⟩ := List.append_of_mem h
  simp [scriptsAt]

end Heard

end Parser

/-- The start and end listeners of an activity are listeners of its node, in their order. -/
def ProcessDefinition.Hears (d : ProcessDefinition) (activity : String × List Bpmn.Listener) :
    Prop :=
  (activity.2.filterMap Parser.compiledListener).Sublist ((d.listeners.get? activity.1).getD [])

instance (d : ProcessDefinition) (activity : String × List Bpmn.Listener) :
    Decidable (d.Hears activity) :=
  inferInstanceAs (Decidable (List.Sublist _ _))

/-- The listeners of all activities of an accepted document are kept exactly if those of the
subprocesses, and of the activities in them, are declared outside of subprocesses as well. -/
theorem Parser.compiled_listeners_kept_iff {env : ParserEnv} {defs : Bpmn.Definitions}
    {process : Bpmn.Process} {d : ProcessDefinition}
    (hcompile : Parser.compileProcess env defs process = .ok d) :
    (∀ activity ∈ process.scope.activities ++ Bpmn.innerActivities process.subProcesses,
      d.Hears activity) ↔
    ∀ activity ∈ Bpmn.innerActivities process.subProcesses,
      (activity.2.filterMap compiledListener).Sublist (scriptsAt activity.1 process.declared) := by
  have hlisteners := listeners_of_compileProcess d hcompile
  simp only [ProcessDefinition.Hears, hlisteners, List.forall_mem_append]
  refine and_iff_right fun activity hmem => sublist_scriptsAt ?_
  simp [Bpmn.Process.declared, hmem]

theorem inner_listener_is_lost : ∃ d,
    Parser.parseDefinitions .plain
        { processes := [preparedReview "prepare" "read" [⟨"start", some "open"⟩]] } = .ok d ∧
      ("read", [⟨"start", some "open"⟩]) ∈
        Bpmn.innerActivities (preparedReview "prepare" "read" [⟨"start",
          some "open"⟩]).subProcesses ∧
      ¬d.Hears ("read", [⟨"start", some "open"⟩]) := by
  obtain ⟨d, hd, hears⟩ := Returns.exists_ok
    (x := Parser.parseDefinitions .plain
      { processes := [preparedReview "prepare" "read" [⟨"start", some "open"⟩]] })
    (Q := fun d => ¬d.Hears ("read", [⟨"start", some "open"⟩])) (by decide +kernel)
  refine ⟨d, hd, ?_, hears⟩
  simp [preparedReview, Bpmn.innerActivities, Bpmn.SubProcess.activities, Bpmn.Scope.activities]

theorem review_listeners_kept : ∃ d,
    Parser.compileProcess .plain { processes := [] } (preparedReview "prepare" "read" []) = .ok d ∧
      ∀ activity ∈ (preparedReview "prepare" "read" []).scope.activities ++
        Bpmn.innerActivities (preparedReview "prepare" "read" []).subProcesses,
        d.Hears activity := by
  obtain ⟨d, hd, -⟩ := prepared_review_compiles
  refine ⟨d, hd, (Parser.compiled_listeners_kept_iff hd).mpr ?_⟩
  simp [preparedReview, Bpmn.innerActivities, Bpmn.SubProcess.activities, Bpmn.Scope.activities]

end BpmnEngine
