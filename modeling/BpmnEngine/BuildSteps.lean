import BpmnEngine.Compilation
import BpmnEngine.StatefulPrograms

/-!
# The steps of the compiler

Compiling a process is a sequence of small steps: a node is placed, a flow or the listeners of a
node are added. The steps of a document can be listed without running them, and what a
definition has for a node is what the steps for that node say: the last element that was
placed, all flows and all listeners.
-/
namespace BpmnEngine

/-- The sorts of nodes that the elements of a document become. -/
inductive NodeKind where
  | startEvent | endEvent | subProcessEnd | serviceTask | scriptTask | userTask | sendTask
  | receiveTask | callActivity | exclusiveGateway | parallelGateway | inclusiveGateway
  | eventBasedGateway | complexGateway | catchEvent | throwEvent | boundaryEvent | subProcess
  deriving DecidableEq

def NodeKind.covers : NodeKind → BpmnElement → Bool
  | .startEvent, .startEvent | .startEvent, .timerStartEvent _
  | .startEvent, .messageStartEvent _ | .startEvent, .signalStartEvent _
  | .endEvent, .endEvent | .endEvent, .terminateEndEvent | .endEvent, .errorEndEvent _
  | .endEvent, .escalationEndEvent _ | .endEvent, .compensationEndEvent _
  | .endEvent, .signalEndEvent _ | .subProcessEnd, .subProcessEndEvent _
  | .serviceTask, .serviceTask .. | .scriptTask, .scriptTask .. | .userTask, .userTask _
  | .sendTask, .sendTask .. | .receiveTask, .messageCatchEvent _
  | .receiveTask, .messageStartEvent _ | .callActivity, .callActivity _
  | .exclusiveGateway, .exclusiveGateway _ | .parallelGateway, .parallelGateway
  | .inclusiveGateway, .inclusiveGateway | .eventBasedGateway, .eventBasedGateway
  | .complexGateway, .complexGateway .. | .catchEvent, .timerCatchEvent _
  | .catchEvent, .messageCatchEvent _ | .catchEvent, .signalCatchEvent _
  | .catchEvent, .conditionalCatchEvent _ | .throwEvent, .sendTask ..
  | .throwEvent, .signalThrowEvent _ | .throwEvent, .escalationThrowEvent _
  | .throwEvent, .compensationThrowEvent _ | .throwEvent, .linkThrowEvent _
  | .boundaryEvent, .boundaryTimerEvent .. | .boundaryEvent, .boundaryMessageEvent ..
  | .boundaryEvent, .boundarySignalEvent .. | .boundaryEvent, .boundaryConditionalEvent ..
  | .boundaryEvent, .boundaryErrorEvent .. | .boundaryEvent, .boundaryEscalationEvent ..
  | .boundaryEvent, .boundaryCompensationEvent _ | .subProcess, .embeddedSubProcess _ => true
  | _, _ => false

namespace Bpmn

/-- The subprocesses in a list and those inside them, at any depth. -/
inductive SubProcess.Within (subProcess : SubProcess) : List SubProcess → Prop where
  | here {l : List SubProcess} (h : subProcess ∈ l) : Within subProcess l
  | inside {l : List SubProcess} {outer : SubProcess} (h : outer ∈ l)
      (hin : Within subProcess outer.subProcesses) : Within subProcess l

theorem SubProcess.Within.mono {subProcess : SubProcess} {l l' : List SubProcess}
    (h : subProcess.Within l) (hl : ∀ x ∈ l, x ∈ l') : subProcess.Within l' := by
  cases h with
  | here h => exact .here (hl _ h)
  | inside h hin => exact .inside (hl _ h) hin

end Bpmn

namespace Parser

open Bpmn (Scope SubProcess)

def compiledFlow (flow : Bpmn.SequenceFlow) : SequenceFlow :=
  match flow.conditionExpression with
  | some condition => .conditional flow.targetRef (trim condition)
  | none => .simple flow.targetRef

def compiledListener (l : Bpmn.Listener) : Option ExecutionListener :=
  match l.event, l.script with
  | "start", some script => some ⟨.start, trim script⟩
  | "end", some script => some ⟨.end, trim script⟩
  | _, _ => none

/-- A step of the compiler. A check may only refuse the document. -/
inductive BuildStep where
  | node (id : String) (kind : NodeKind) (element : EngineResult BpmnElement)
  | flow (source : String) (flow : SequenceFlow)
  | listeners (node : String) (listeners : List Bpmn.Listener)
  | check (result : EngineResult Unit)

namespace BuildStep

def put (b : DefinitionBuilder) : BuildStep → EngineResult DefinitionBuilder
  | .node id _ r => do return b.node id (← r)
  | .flow source f => return b.addFlow source f
  | .listeners id l => return addListeners id l b
  | .check r => do
    r
    return b

def target? : BuildStep → Option String
  | .node id .. => some id
  | .flow source _ => some source
  | .listeners id _ => some id
  | .check _ => none

def element? : BuildStep → Option BpmnElement
  | .node _ _ r => r.toOption
  | _ => none

def flow? : BuildStep → Option SequenceFlow
  | .flow _ f => some f
  | _ => none

def scripts : BuildStep → List ExecutionListener
  | .listeners _ l => l.filterMap compiledListener
  | _ => []

end BuildStep

/-- The steps for one node. -/
def stepsAt (n : String) (steps : List BuildStep) : List BuildStep :=
  steps.filter fun step => step.target? == some n

def run (steps : List BuildStep) (b : DefinitionBuilder) : EngineResult DefinitionBuilder :=
  steps.foldlM BuildStep.put b

/-! ## What the steps build -/

variable {steps more : List BuildStep} {b b' : DefinitionBuilder} {step : BuildStep} {n : String}
  {flows : List Bpmn.SequenceFlow}

/-- The nodes, flows and listeners are those that the steps say. -/
structure Builds (steps : List BuildStep) (b : DefinitionBuilder) : Prop where
  done : ∀ step ∈ steps, ∀ id kind r, step = .node id kind r → ∃ e, r = .ok e
  nodes : ∀ n, b.nodes.get? n = (stepsAt n steps).reverse.findSome? BuildStep.element?
  flows : ∀ n, (b.flows.get? n).getD [] = (stepsAt n steps).filterMap BuildStep.flow?
  listeners : ∀ n, (b.listeners.get? n).getD [] = (stepsAt n steps).flatMap BuildStep.scripts

/-- A definition as a builder that has just been filled. -/
def filled (d : ProcessDefinition) : DefinitionBuilder := ⟨d.id, d.nodes, d.flows, d.listeners⟩

theorem Builds.exists_step (h : Builds steps b) {e : BpmnElement} (hn : b.nodes.get? n = some e) :
    ∃ kind, .node n kind (.ok e) ∈ steps := by
  rw [h.nodes] at hn
  obtain ⟨step, hmem, helement⟩ := List.exists_of_findSome?_eq_some hn
  obtain ⟨hmem, htarget⟩ := List.mem_filter.mp (List.mem_reverse.mp hmem)
  cases step with
  | node id kind r =>
    cases r with
    | error => cases helement
    | ok =>
      cases helement
      cases eq_of_beq htarget
      exact ⟨kind, hmem⟩
  | flow | listeners | check => cases helement

theorem stepsAt_append : stepsAt n (steps ++ more) = stepsAt n steps ++ stepsAt n more :=
  List.filter_append _ _

theorem stepsAt_singleton (h : step.target? = some n) : stepsAt n [step] = [step] := by
  simp [stepsAt, h]

theorem addListeners_eq (id : String) (l : List Bpmn.Listener) :
    addListeners id l b =
      (l.filterMap compiledListener).foldl (fun b x => b.listener id x.event x.script) b := by
  induction l generalizing b with
  | nil => rfl
  | cons x rest ih =>
    obtain ⟨event, script⟩ := x
    rw [addListeners, List.foldl_cons, ← addListeners, ih, List.filterMap_cons, compiledListener]
    dsimp only
    split
    · rfl
    · rfl
    · split <;> simp_all

theorem foldl_listener (id : String) (l : List ExecutionListener) (n : String) :
    let b' := l.foldl (fun b x => b.listener id x.event x.script) b
    b'.nodes = b.nodes ∧ b'.flows = b.flows ∧
      (b'.listeners.get? n).getD [] = (b.listeners.get? n).getD [] ++ if id = n then l else [] := by
  induction l generalizing b with
  | nil => simp
  | cons x rest ih =>
    obtain ⟨hnodes, hflows, hlisteners⟩ := ih (b := b.listener id x.event x.script)
    refine ⟨hnodes, hflows, hlisteners.trans ?_⟩
    by_cases hn : id = n
    · subst hn
      simp [DefinitionBuilder.listener]
    · simp [hn, DefinitionBuilder.listener, Map.get?_set_of_ne (Ne.symm hn)]

theorem put_changes : Returns (step.put b) fun b' =>
    (∀ id kind r, step = .node id kind r → ∃ e, r = .ok e) ∧ ∀ n,
      b'.nodes.get? n = ((stepsAt n [step]).findSome? BuildStep.element?).or (b.nodes.get? n) ∧
      (b'.flows.get? n).getD [] =
        (b.flows.get? n).getD [] ++ (stepsAt n [step]).filterMap BuildStep.flow? ∧
      (b'.listeners.get? n).getD [] =
        (b.listeners.get? n).getD [] ++ (stepsAt n [step]).flatMap BuildStep.scripts := by
  cases step with
  | node id kind r =>
    cases r with
    | error => exact .error _
    | ok e =>
      refine .ok ⟨fun _ _ _ heq => by cases heq; exact ⟨e, rfl⟩, fun n => ?_⟩
      by_cases hn : id = n
      · subst hn
        simp [stepsAt, BuildStep.target?, BuildStep.element?, BuildStep.flow?, BuildStep.scripts,
          DefinitionBuilder.node, Except.toOption]
      · simp [stepsAt, BuildStep.target?, hn, DefinitionBuilder.node,
          Map.get?_set_of_ne (Ne.symm hn)]
  | flow source =>
    refine .ok ⟨(fun _ _ _ heq => by cases heq), fun n => ?_⟩
    by_cases hn : source = n
    · subst hn
      simp [stepsAt, BuildStep.target?, BuildStep.element?, BuildStep.flow?, BuildStep.scripts,
        DefinitionBuilder.addFlow]
    · simp [stepsAt, BuildStep.target?, hn, DefinitionBuilder.addFlow,
        Map.get?_set_of_ne (Ne.symm hn)]
  | listeners id l =>
    refine .ok ⟨(fun _ _ _ heq => by cases heq), fun n => ?_⟩
    rw [addListeners_eq]
    obtain ⟨hnodes, hflows, hlisteners⟩ := foldl_listener (b := b) id
      (l.filterMap compiledListener) n
    rw [hnodes, hflows, hlisteners]
    by_cases hn : id = n
    · subst hn
      simp [stepsAt, BuildStep.target?, BuildStep.element?, BuildStep.flow?, BuildStep.scripts]
    · simp [stepsAt, BuildStep.target?, hn]
  | check =>
    refine .after fun _ => .ok ⟨(fun _ _ _ heq => by cases heq), fun n => ?_⟩
    simp [stepsAt, BuildStep.target?]

theorem Builds.put (h : Builds steps b) : Returns (step.put b) (Builds (steps ++ [step])) := by
  intro b' hb'
  obtain ⟨hdone, hchanges⟩ := put_changes b' hb'
  constructor
  · intro step' hmem
    rcases List.mem_append.mp hmem with hmem | hmem
    · exact h.done step' hmem
    · exact List.mem_singleton.mp hmem ▸ hdone
  · intro n
    have hshort : (stepsAt n [step]).reverse = stepsAt n [step] := by
      unfold stepsAt
      cases hn : step.target? == some n <;> simp [hn]
    rw [(hchanges n).1, h.nodes, stepsAt_append, List.reverse_append, List.findSome?_append, hshort]
  · intro n
    rw [(hchanges n).2.1, h.flows, stepsAt_append, List.filterMap_append]
  · intro n
    rw [(hchanges n).2.2, h.listeners, stepsAt_append, List.flatMap_append]

theorem Builds.run (h : Builds steps b) : Returns (run more b) (Builds (steps ++ more)) := by
  induction more generalizing steps b with
  | nil => exact .ok (by simpa using h)
  | cons step rest ih =>
    rw [Parser.run, List.foldlM_cons, List.append_cons]
    exact h.put.bind fun b hb => ih hb

/-! ## Loops over elements -/

section Loops

variable {α : Type} {id : α → String} {kind : NodeKind} {element : α → EngineResult BpmnElement}
  {listeners : α → List Bpmn.Listener} {l : List α}

def nodes (id : α → String) (kind : NodeKind) (element : α → EngineResult BpmnElement)
    (l : List α) : List BuildStep :=
  l.map fun x => .node (id x) kind (element x)

def listened (id : α → String) (listeners : α → List Bpmn.Listener) (kind : NodeKind)
    (element : α → EngineResult BpmnElement) (l : List α) : List BuildStep :=
  l.flatMap fun x => [.node (id x) kind (element x), .listeners (id x) (listeners x)]

theorem run_append (l l' : List BuildStep) : run (l ++ l') = fun b => run l b >>= run l' :=
  funext fun _ => List.foldlM_append

theorem run_flatMap {f : DefinitionBuilder → α → EngineResult DefinitionBuilder}
    {steps : α → List BuildStep} (h : ∀ b x, run (steps x) b = f b x) :
    run (l.flatMap steps) = fun b => l.foldlM f b := by
  funext b
  induction l generalizing b with
  | nil => rfl
  | cons x rest ih =>
    rw [List.flatMap_cons, run_append, List.foldlM_cons, ← h b x]
    exact congrArg _ (funext ih)

theorem run_nodes : run (nodes id kind element l) = place id element l := by
  rw [nodes, List.map_eq_flatMap]
  exact run_flatMap fun b x => bind_pure _

theorem run_listened :
    run (listened id listeners kind element l) = placeWithListeners id listeners element l := by
  refine run_flatMap fun b x => ?_
  cases element x <;> rfl

end Loops

def throwSteps (label : String) (scope : LinkScope) (flows : List Bpmn.SequenceFlow)
    (element : Bpmn.ThrowEvent → EngineResult BpmnElement) (event : Bpmn.ThrowEvent) :
    List BuildStep :=
  match event.link with
  | some link =>
    let target := resolveLinkThrow scope label event.id link flows
    .node event.id .throwEvent (target.map .linkThrowEvent) ::
      target.toOption.toList.map fun target => .flow event.id (.simple target)
  | none => [.node event.id .throwEvent (element event)]

theorem run_throwSteps {label : String} {scope : LinkScope}
    {element : Bpmn.ThrowEvent → EngineResult BpmnElement} (b : DefinitionBuilder)
    (event : Bpmn.ThrowEvent) : run (throwSteps label scope flows element event) b =
      placeThrow label scope flows element b event := by
  unfold throwSteps placeThrow
  cases event.link with
  | none => exact bind_pure _
  | some link =>
    dsimp only
    cases resolveLinkThrow scope label event.id link flows <;> rfl

def flowSteps (flows : List Bpmn.SequenceFlow) (skipped : String → Bool) : List BuildStep :=
  flows.flatMap fun flow =>
    if skipped flow.sourceRef then [] else [.flow flow.sourceRef (compiledFlow flow)]

theorem run_flowSteps {skipped : String → Bool} :
    run (flowSteps flows skipped) = fun b => .ok (addFlows flows skipped b) := by
  funext b
  induction flows generalizing b with
  | nil => rfl
  | cons flow rest ih =>
    rw [flowSteps, List.flatMap_cons, run_append, ← flowSteps]
    obtain ⟨id, source, target, condition⟩ := flow
    dsimp only
    rw [addFlows, List.foldl_cons, ← addFlows]
    split
    · exact ih b
    · cases condition <;> exact ih _

/-! ## The steps of a document -/

section Steps

variable (env : ParserEnv) (lookups : Lookups) (s : Scope)

def noGenericTask : EngineResult Unit :=
  match s.genericTasks with
  | task :: _ => invalid (genericTaskViolation task.id)
  | [] => .ok ()

def subprocessTaskSteps : List BuildStep :=
  nodes (·.id) .serviceTask serviceTask s.serviceTasks ++
    nodes (·.id) .scriptTask subprocessScript s.scriptTasks ++
    nodes (·.id) .userTask (userTask "userTask") s.userTasks ++
    nodes (·.id) .sendTask (sendTask lookups) s.sendTasks ++
    nodes (·.id) .receiveTask (subprocessReceive lookups) s.receiveTasks ++
    nodes (·.id) .userTask (userTask "manualTask") s.manualTasks ++
    nodes (·.id) .serviceTask businessRuleTask s.businessRuleTasks ++ [.check (noGenericTask s)] ++
    nodes (·.id) .callActivity callActivity s.callActivities

def subprocessGatewaySteps (subProcessId : String) : List BuildStep :=
  let default := resolveSubProcessDefault (flowLookup s.sequenceFlows) subProcessId
  nodes (·.id) .exclusiveGateway
      (fun gw => do return .exclusiveGateway (← default gw.id gw.default)) s.exclusiveGateways ++
    nodes (·.id) .parallelGateway (fun _ => .ok .parallelGateway) s.parallelGateways ++
    nodes (·.id) .inclusiveGateway (fun _ => .ok .inclusiveGateway) s.inclusiveGateways ++
    nodes (·.id) .eventBasedGateway eventBasedGateway s.eventBasedGateways ++
    nodes (·.id) .complexGateway
      (fun gw => do return complexGateway (← default gw.id gw.default) gw) s.complexGateways

def subprocessEventSteps (subProcessId : String) (links : LinkScope) : List BuildStep :=
  let messageName (default : String) (ref : Option String) : String :=
    (resolveMessageRef ref lookups.messages).getD default
  nodes (·.id) .catchEvent (catchEvent env lookups)
      (s.intermediateCatchEvents.filter fun event => event.link.isNone) ++
    s.intermediateThrowEvents.flatMap (throwSteps subProcessId links s.sequenceFlows
      (throwEvent lookups (messageName "generic_throw"))) ++
    nodes (·.id) .boundaryEvent (boundaryEvent env lookups (messageName "unknown")) s.boundaryEvents

def entrySteps (handler : Bool) (subProcessId : String) (entry : String × String × Bool) :
    List BuildStep :=
  let (start, target, forks) := entry
  if handler then [.node start .startEvent (.ok .startEvent)]
  else .node subProcessId .subProcess (.ok (.embeddedSubProcess target)) ::
    if forks then [.node start .parallelGateway (.ok .parallelGateway)] else []

/-- An event subprocess inside a subprocess is refused. -/
def notTriggered (handler : Bool) (subProcess : SubProcess) : EngineResult Unit :=
  let id := subProcess.id
  if subProcess.isTriggeredByEvent && !handler then
    invalid s!"event sub-process '{id}' inside a sub-process is not supported"
  else .ok ()

/-- The steps for a subprocess without the subprocesses inside it. -/
def scopeSteps (handler : Bool) (subProcess : SubProcess) : EngineResult (List BuildStep) := do
  let id := subProcess.id
  let s := subProcess.scope
  notTriggered handler subProcess
  let links ← resolveLinkScope id s.intermediateCatchEvents s.sequenceFlows
  let entry ← subprocessEntry handler id s
  let (start, _, forks) := entry
  return entrySteps handler id entry ++
    nodes (·.id) (if handler then .endEvent else .subProcessEnd) (subprocessEnd lookups handler id)
      s.endEvents ++ subprocessTaskSteps lookups s ++ subprocessGatewaySteps s id ++
    subprocessEventSteps env lookups s id links ++ flowSteps s.sequenceFlows fun source =>
      (source == start && !forks && !handler) || links.catchIds.contains source

mutual

def subprocessSteps (handler : Bool) : SubProcess → EngineResult (List BuildStep)
  | .mk id triggered listeners scope nested => do
    let steps ← scopeSteps env lookups handler (.mk id triggered listeners scope nested)
    return steps ++ (← subprocessesSteps nested)

def subprocessesSteps : List SubProcess → EngineResult (List BuildStep)
  | [] => .ok []
  | subProcess :: rest => do
    let steps ← subprocessSteps false subProcess
    return steps ++ (← subprocessesSteps rest)

end

/-- The steps for the subprocesses of a process: those of the embedded ones, and those of the
event subprocesses, which are attached at the end. -/
def partsSteps : List SubProcess → EngineResult (List BuildStep × List BuildStep)
  | [] => .ok ([], [])
  | subProcess :: rest => do
    let steps ← subprocessSteps env lookups subProcess.isTriggeredByEvent subProcess
    let (embedded, attached) ← partsSteps rest
    return if subProcess.isTriggeredByEvent then (embedded, steps ++ attached)
      else (steps ++ embedded, attached)

def processTaskSteps : List BuildStep :=
  listened (·.id) (·.listeners) .serviceTask serviceTask s.serviceTasks ++
    listened (·.id) (·.listeners) .userTask (userTask "userTask") s.userTasks ++
    listened (·.id) (·.listeners) .scriptTask processScript s.scriptTasks ++
    listened (·.id) (·.listeners) .sendTask (sendTask lookups) s.sendTasks ++
    listened (·.id) (·.listeners) .receiveTask (processReceive lookups s.sequenceFlows)
      s.receiveTasks ++
    listened (·.id) (·.listeners) .userTask (userTask "manualTask") s.manualTasks ++
    listened (·.id) (·.listeners) .serviceTask businessRuleTask s.businessRuleTasks ++
    [.check (noGenericTask s)] ++
    listened (·.id) (·.listeners) .callActivity callActivity s.callActivities

def processGatewaySteps : List BuildStep :=
  let default (flow : Option String) := flow.bind (flowLookup s.sequenceFlows).get?
  listened (·.id) (·.listeners) .exclusiveGateway
      (fun gw => .ok (.exclusiveGateway (default gw.default))) s.exclusiveGateways ++
    listened (·.id) (·.listeners) .inclusiveGateway (fun _ => .ok .inclusiveGateway)
      s.inclusiveGateways ++
    listened (·.id) (·.listeners) .parallelGateway (fun _ => .ok .parallelGateway)
      s.parallelGateways ++
    listened (·.id) (·.listeners) .eventBasedGateway eventBasedGateway s.eventBasedGateways ++
    listened (·.id) (·.listeners) .complexGateway
      (fun gw => .ok (complexGateway (default gw.default) gw)) s.complexGateways

def processEventSteps (processId : String) (links : LinkScope) : List BuildStep :=
  listened (·.id) (·.listeners) .catchEvent (catchEvent env lookups)
      (s.intermediateCatchEvents.filter fun event => event.link.isNone) ++
    s.intermediateThrowEvents.flatMap (fun event =>
      throwSteps processId links s.sequenceFlows
        (throwEvent lookups (lookedUpMessage lookups "generic_throw")) event ++
        [.listeners event.id event.listeners]) ++
    nodes (·.id) .boundaryEvent (boundaryEvent env lookups fun ref =>
      (ref.map fun r => (lookups.messages.get? r).getD r).getD "unknown") s.boundaryEvents

def processSteps (process : Bpmn.Process) (links : LinkScope) : List BuildStep :=
  let s := process.scope
  [.listeners process.id process.listeners] ++
    listened (·.id) (·.listeners) .startEvent (processStart env lookups) s.startEvents ++
    listened (·.id) (·.listeners) .endEvent (processEnd lookups) s.endEvents ++
    processTaskSteps lookups s ++ processGatewaySteps s ++
    processEventSteps env lookups s process.id links ++ [.check (checkUnconnected process)] ++
    flowSteps s.sequenceFlows links.catchIds.contains

end Steps

/-! ## The compiler takes these steps -/

section Compiling

variable {env : ParserEnv} {lookups : Lookups} {s : Scope} {id : String} {links : LinkScope}
  {handler : Bool} {subProcess : SubProcess} {l : List SubProcess} {d d' : ProcessDefinition}
  {handlers : List (EventSubProcess × ProcessDefinition)}

theorem run_check (r : EngineResult Unit) : run [.check r] = fun b => r >>= fun _ => .ok b := by
  funext b
  cases r <;> rfl

theorem run_subprocessTaskSteps :
    run (subprocessTaskSteps lookups s) = placeSubprocessTasks lookups s := by
  funext b
  simp only [subprocessTaskSteps, run_append, run_nodes, run_check, bind_assoc, noGenericTask]
  unfold placeSubprocessTasks
  cases s.genericTasks <;> rfl

theorem run_subprocessGatewaySteps :
    run (subprocessGatewaySteps s id) = placeSubprocessGateways id s := by
  funext b
  simp only [subprocessGatewaySteps, run_append, run_nodes, bind_assoc]
  rfl

theorem run_subprocessEventSteps :
    run (subprocessEventSteps env lookups s id links) =
      placeSubprocessEvents env lookups id links s := by
  funext b
  simp only [subprocessEventSteps, run_append, run_nodes, bind_assoc, run_flatMap run_throwSteps]
  rfl

theorem run_processTaskSteps : run (processTaskSteps lookups s) = placeProcessTasks lookups s := by
  funext b
  simp only [processTaskSteps, run_append, run_listened, run_check, bind_assoc, noGenericTask]
  unfold placeProcessTasks
  cases s.genericTasks <;> rfl

theorem run_processGatewaySteps : run (processGatewaySteps s) = placeProcessGateways s := by
  funext b
  simp only [processGatewaySteps, run_append, run_listened, bind_assoc]
  rfl

theorem run_processEventSteps :
    run (processEventSteps env lookups s id links) = placeProcessEvents env lookups id links s := by
  have hthrow (b : DefinitionBuilder) (event : Bpmn.ThrowEvent) :
      run (throwSteps id links s.sequenceFlows
        (throwEvent lookups (lookedUpMessage lookups "generic_throw")) event ++
          [.listeners event.id event.listeners]) b = do
        return addListeners event.id event.listeners
          (← placeThrow id links s.sequenceFlows
            (throwEvent lookups (lookedUpMessage lookups "generic_throw")) b event) := by
    rw [run_append, ← run_throwSteps]
    rfl
  funext b
  simp only [processEventSteps, run_append, run_listened, run_nodes, bind_assoc, run_flatMap hthrow]
  rfl

theorem run_entrySteps (entry : String × String × Bool) (b : DefinitionBuilder) :
    run (entrySteps handler id entry) b = .ok (placeEntry handler id entry b) := by
  obtain ⟨start, target, forks⟩ := entry
  cases handler <;> cases forks <;> rfl

theorem flattenScope_run :
    Returns (flattenScope env lookups handler subProcess b) fun b' =>
      ∃ steps, scopeSteps env lookups handler subProcess = .ok steps ∧ run steps b = .ok b' := by
  unfold flattenScope
  dsimp only
  split
  · exact .error _
  case isFalse hplain =>
    split
    · exact .error _
    · intro b' hb'
      obtain ⟨links, hlinks, hb'⟩ := Returns.bind_eq_ok hb'
      obtain ⟨entry, hentry, hb'⟩ := Returns.bind_eq_ok hb'
      refine ⟨_, by rw [scopeSteps, notTriggered, if_neg hplain, hlinks, hentry]; rfl, ?_⟩
      simp only [run_append, run_entrySteps, run_nodes, run_subprocessTaskSteps,
        run_subprocessGatewaySteps, run_subprocessEventSteps, run_flowSteps, bind_assoc]
      exact hb'

mutual

theorem flattenSubprocess_run (handler : Bool) : (subProcess : SubProcess) →
    (b : DefinitionBuilder) → Returns (flattenSubprocess env lookups handler subProcess b)
      fun b' => ∃ steps, subprocessSteps env lookups handler subProcess = .ok steps ∧
        run steps b = .ok b'
  | .mk id triggered listeners scope nested, b => by
    unfold flattenSubprocess
    refine flattenScope_run.bind fun b₁ ⟨steps, hsteps, hrun⟩ => ?_
    rintro b₂ hb₂
    obtain ⟨inner, hinner, hrun'⟩ := flattenSubprocesses_run nested b₁ b₂ hb₂
    refine ⟨steps ++ inner, ?_, ?_⟩
    · rw [subprocessSteps, hsteps, hinner]
      rfl
    · rw [run_append]
      exact (congrArg (· >>= _) hrun).trans hrun'

theorem flattenSubprocesses_run : (l : List SubProcess) → (b : DefinitionBuilder) →
    Returns (flattenSubprocesses env lookups l b) fun b' =>
      ∃ steps, subprocessesSteps env lookups l = .ok steps ∧ run steps b = .ok b'
  | [], b => by
    unfold flattenSubprocesses
    exact .ok ⟨[], by rw [subprocessesSteps], rfl⟩
  | subProcess :: rest, b => by
    unfold flattenSubprocesses
    refine (flattenSubprocess_run false subProcess b).bind fun b₁ ⟨steps, hsteps, hrun⟩ => ?_
    rintro b₂ hb₂
    obtain ⟨more, hmore, hrun'⟩ := flattenSubprocesses_run rest b₁ b₂ hb₂
    refine ⟨steps ++ more, ?_, ?_⟩
    · rw [subprocessesSteps, hsteps, hmore]
      rfl
    · rw [run_append]
      exact (congrArg (· >>= _) hrun).trans hrun'

end

theorem Builds.new (id : String) : Builds [] (.new id) := by
  constructor
  · exact fun _ h => absurd h List.not_mem_nil
  all_goals exact fun _ => rfl

theorem Builds.build (h : Builds steps b) :
    Returns (b.build env) fun d => Builds steps (filled d) :=
  .after fun _ => .after fun _ => .ok h

theorem compileEventSubprocess_builds :
    Returns (compileEventSubprocess env lookups subProcess) fun r =>
      ∃ steps, subprocessSteps env lookups true subProcess = .ok steps ∧
        Builds steps (filled r.2) := by
  refine .after fun start => .after fun trigger => ?_
  split
  · exact .error _
  · split
    · exact .error _
    · refine (flattenSubprocess_run true subProcess _).bind fun b ⟨steps, hsteps, hrun⟩ => ?_
      have hb := (Builds.new subProcess.id).run b hrun
      exact hb.build.bind fun body hbody => .ok ⟨steps, hsteps, hbody⟩

theorem get?_appendAll {β : Type} (m m' : Map String (List β)) (key : String) :
    ((appendAll m m').get? key).getD [] = (m.get? key).getD [] ++ (m'.get? key).getD [] := by
  have hfold : ∀ (l : List (String × List β)) (m : Map String (List β)), (l.map Prod.fst).Nodup →
      ((l.foldl (fun m p => m.set p.1 ((m.get? p.1).getD [] ++ p.2)) m).get? key).getD [] =
        (m.get? key).getD [] ++ ((l.find? fun p => p.1 == key).map Prod.snd).getD [] := by
    intro l
    induction l with
    | nil => simp
    | cons p rest ih =>
      intro m hl
      obtain ⟨hp, hrest⟩ := List.nodup_cons.mp hl
      rw [List.foldl_cons, ih _ hrest]
      by_cases hkey : p.1 = key
      · -- no other entry has the key
        have hnone : rest.find? (fun q => q.1 == key) = none :=
          List.find?_eq_none.mpr fun q hq heq =>
            hp (List.mem_map.mpr ⟨q, hq, (eq_of_beq heq).trans hkey.symm⟩)
        subst hkey
        simp [hnone]
      · rw [Map.get?_set_of_ne (Ne.symm hkey)]
        simp [hkey]
  exact hfold m'.entries m m'.keysNodup

theorem Builds.attach {body : ProcessDefinition} {handler : EventSubProcess}
    (hd : Builds steps (filled d))
    (hbody : Builds more (filled body)) :
    Returns (attachEventSubprocess d handler body) fun d' =>
      Builds (steps ++ more) (filled d') := by
  unfold attachEventSubprocess
  dsimp only
  split
  · exact .error _
  · split
    · exact .error _
    · split
      · exact .error _
      · apply Returns.ok
        constructor
        · intro step hmem
          rcases List.mem_append.mp hmem with hmem | hmem
          · exact hd.done step hmem
          · exact hbody.done step hmem
        · intro n
          rw [stepsAt_append, List.reverse_append, List.findSome?_append, ← hd.nodes, ← hbody.nodes]
          exact Map.get?_extend d.nodes body.nodes n
        · intro n
          rw [stepsAt_append, List.filterMap_append, ← hd.flows, ← hbody.flows]
          exact get?_appendAll d.flows body.flows n
        · intro n
          rw [stepsAt_append, List.flatMap_append, ← hd.listeners, ← hbody.listeners]
          exact get?_appendAll d.listeners body.listeners n

/-- What attaching the handlers does to a definition. -/
def Attaches (steps : List BuildStep) (handlers : List (EventSubProcess × ProcessDefinition)) :
    Prop :=
  ∀ d old, Builds old (filled d) →
    Returns (handlers.foldlM (fun d (handler, body) => attachEventSubprocess d handler body) d)
      fun d' => Builds (old ++ steps) (filled d')

theorem Attaches.nil : Attaches [] [] := fun _ _ h => .ok (by simpa using h)

theorem Attaches.concat {handler : EventSubProcess × ProcessDefinition}
    (h : Attaches steps handlers) (hbody : Builds more (filled handler.2)) :
    Attaches (steps ++ more) (handlers ++ [handler]) := by
  intro d old hd
  rw [List.foldlM_append, ← List.append_assoc]
  refine (h d old hd).bind fun d hd => ?_
  rw [List.foldlM_cons]
  exact (hd.attach hbody).bind fun d hd => .ok hd

theorem addSubprocesses_builds (hb : Builds steps b) (hh : Attaches more handlers) :
    Returns (l.foldlM (addSubprocess env lookups) (b, handlers)) fun parts =>
      ∃ embedded attached, partsSteps env lookups l = .ok (embedded, attached) ∧
        Builds (steps ++ embedded) parts.1 ∧
        Attaches (more ++ attached) parts.2 := by
  induction l generalizing b handlers steps more with
  | nil => exact .ok ⟨[], [], rfl, by simpa using hb, by simpa using hh⟩
  | cons subProcess rest ih =>
    rw [List.foldlM_cons]
    intro parts h
    obtain ⟨parts₁, h₁, h⟩ := Returns.bind_eq_ok h
    unfold addSubprocess at h₁
    dsimp only at h₁
    split at h₁
    case isTrue ht =>
      obtain ⟨handler, hhandler, h₁⟩ := Returns.bind_eq_ok h₁
      cases h₁
      obtain ⟨own, hown, hbody⟩ := compileEventSubprocess_builds handler hhandler
      obtain ⟨embedded, attached, hparts, hrest⟩ := ih hb (hh.concat hbody) parts h
      refine ⟨embedded, own ++ attached, ?_, hrest.1, by simpa using hrest.2⟩
      rw [partsSteps, ht, hown, hparts]
      rfl
    case isFalse ht =>
      obtain ⟨b, hb₁, h₁⟩ := Returns.bind_eq_ok h₁
      cases h₁
      obtain ⟨own, hown, hrun⟩ := flattenSubprocess_run false subProcess _ b hb₁
      obtain ⟨embedded, attached, hparts, hrest⟩ := ih (hb.run b hrun) hh parts h
      refine ⟨own ++ embedded, attached, ?_, by simpa using hrest.1, hrest.2⟩
      rw [partsSteps, Bool.eq_false_iff.mpr ht, hown, hparts]
      rfl

/-- The steps for a process and all of its subprocesses. -/
def allSteps (env : ParserEnv) (defs : Bpmn.Definitions) (process : Bpmn.Process) :
    EngineResult (List BuildStep) := do
  let s := process.scope
  let links ← resolveLinkScope process.id s.intermediateCatchEvents s.sequenceFlows
  let (embedded, attached) ← partsSteps env (Parser.lookups defs) process.subProcesses
  return processSteps env (Parser.lookups defs) process links ++ embedded ++ attached

theorem compileProcess_builds {defs : Bpmn.Definitions} {process : Bpmn.Process} :
    Returns (compileProcess env defs process) fun d =>
      ∃ steps, allSteps env defs process = .ok steps ∧ Builds steps (filled d) := by
  unfold compileProcess
  dsimp only
  split
  · exact .error _
  · rintro d hd
    obtain ⟨links, hlinks, hd⟩ := Returns.bind_eq_ok hd
    have hrun : (do
        let b ← run (processSteps env (Parser.lookups defs) process links) (.new process.id)
        let parts ← process.subProcesses.foldlM (addSubprocess env (Parser.lookups defs)) (b, [])
        let d ← parts.1.build env
        parts.2.foldlM (fun d (part : _ × _) => attachEventSubprocess d part.1 part.2) d) =
          .ok d := by
      simp only [processSteps, run_append, run_listened, run_processTaskSteps,
        run_processGatewaySteps, run_processEventSteps, run_check, run_flowSteps, bind_assoc]
      exact hd
    obtain ⟨b, hb, hrun⟩ := Returns.bind_eq_ok hrun
    obtain ⟨parts, hparts, hrun⟩ := Returns.bind_eq_ok hrun
    obtain ⟨d', hd', hrun⟩ := Returns.bind_eq_ok hrun
    have hstart := (Builds.new process.id).run b hb
    obtain ⟨embedded, attached, hsteps, hbuilds, hattaches⟩ :=
      addSubprocesses_builds hstart .nil parts hparts
    refine ⟨_, by rw [allSteps, hlinks, hsteps]; rfl, ?_⟩
    exact hattaches d' _ (hbuilds.build d' hd') d hrun

end Compiling

/-! ## What the elements become -/

section Kinds

variable {env : ParserEnv} {lookups : Lookups} {id : String} {links : LinkScope} {handler : Bool}
  {subProcess : SubProcess} {name : Option String → String} {flows : List Bpmn.SequenceFlow}

abbrev Becomes (kind : NodeKind) (r : EngineResult BpmnElement) : Prop :=
  Returns r fun e => kind.covers e = true

def BuildStep.Covered : BuildStep → Prop
  | .node _ kind r => Becomes kind r
  | _ => True

theorem serviceTask_becomes (task : Bpmn.ServiceTask) : Becomes .serviceTask (serviceTask task) :=
  .after fun _ => .ok rfl

theorem userTask_becomes (text : String) (task : Bpmn.UserTask) :
    Becomes .userTask (userTask text task) :=
  .after fun _ => .ok rfl

theorem sendTask_becomes (task : Bpmn.SendTask) : Becomes .sendTask (sendTask lookups task) :=
  .after fun _ => .ok rfl

theorem businessRuleTask_becomes (task : Bpmn.ServiceTask) :
    Becomes .serviceTask (businessRuleTask task) := by
  unfold businessRuleTask
  dsimp only
  split
  · exact .error _
  · exact .after fun _ => .ok rfl

theorem scriptTask_becomes (task : Bpmn.ScriptTask) :
    Becomes .scriptTask (subprocessScript task) ∧ Becomes .scriptTask (processScript task) := by
  constructor
  · unfold subprocessScript
    dsimp only
    split
    · exact .error _
    · exact .after fun _ => .ok rfl
  · refine .after fun _ => ?_
    split
    · exact .error _
    · exact .ok rfl

theorem subprocessReceive_becomes (task : Bpmn.ReceiveTask) :
    Becomes .receiveTask (subprocessReceive lookups task) := by
  unfold subprocessReceive
  dsimp only
  split
  · exact .error _
  · refine .after fun _ => ?_
    split
    · exact .error _
    · exact .ok rfl

theorem processReceive_becomes (flows : List Bpmn.SequenceFlow) (task : Bpmn.ReceiveTask) :
    Becomes .receiveTask (processReceive lookups flows task) := by
  refine .after fun _ => ?_
  split
  · exact .error _
  · dsimp only
    split
    · exact .error _
    · split <;> exact .ok rfl

theorem eventBasedGateway_becomes (gateway : Bpmn.Gateway) :
    Becomes .eventBasedGateway (eventBasedGateway gateway) := by
  unfold eventBasedGateway
  dsimp only
  split
  · exact .error _
  · exact .ok rfl

theorem catchEvent_becomes (event : Bpmn.CatchEvent) :
    Becomes .catchEvent (catchEvent env lookups event) := by
  unfold catchEvent
  dsimp only
  split
  · exact .after fun _ => .ok rfl
  · exact .ok rfl
  · exact .after fun _ => .ok rfl
  · exact .after fun _ => .ok rfl
  · exact .error _

theorem throwEvent_becomes (event : Bpmn.ThrowEvent) :
    Becomes .throwEvent (throwEvent lookups name event) := by
  unfold throwEvent
  dsimp only
  split
  · exact .ok rfl
  · exact .after fun _ => .ok rfl
  · exact .ok rfl
  · exact .ok rfl
  · exact .error _

theorem boundaryEvent_becomes (event : Bpmn.BoundaryEvent) :
    Becomes .boundaryEvent (boundaryEvent env lookups name event) := by
  unfold boundaryEvent
  dsimp only
  split
  · exact .error _
  · split
    · exact .after fun _ => .ok rfl
    · exact .ok rfl
    · exact .after fun _ => .ok rfl
    · exact .after fun _ => .ok rfl
    · exact .ok rfl
    · exact .ok rfl
    · exact .ok rfl
    · exact .error _

theorem endEvent_becomes (event : Bpmn.EndEvent) : Becomes .endEvent (endEvent lookups event) := by
  unfold endEvent
  split
  · exact .ok rfl
  · split
    · exact .ok rfl
    · exact .ok rfl
    · exact .ok rfl
    · exact .after fun _ => .ok rfl
    · exact .ok rfl

theorem processStart_becomes (event : Bpmn.StartEvent) :
    Becomes .startEvent (processStart env lookups event) := by
  unfold processStart
  dsimp only
  split
  · exact .error _
  · split
    · exact .after fun _ => .ok rfl
    · exact .ok rfl
    · exact .after fun _ => .ok rfl
    · exact .ok rfl

theorem processEnd_becomes (event : Bpmn.EndEvent) :
    Becomes .endEvent (processEnd lookups event) := by
  unfold processEnd
  split
  · exact .error _
  · exact endEvent_becomes event

theorem subprocessEnd_becomes (event : Bpmn.EndEvent) :
    Becomes (if handler then .endEvent else .subProcessEnd)
      (subprocessEnd lookups handler id event) := by
  unfold subprocessEnd
  cases event.cancel with
  | true => exact .error _
  | false =>
    cases handler with
    | true => exact endEvent_becomes event
    | false => exact .ok rfl

section Loops

variable {α : Type} {key : α → String} {kind : NodeKind} {element : α → EngineResult BpmnElement}
  {listeners : α → List Bpmn.Listener} {l : List α}

theorem nodes_covered (h : ∀ x, Becomes kind (element x)) :
    ∀ step ∈ nodes key kind element l, step.Covered := by
  simpa [nodes, BuildStep.Covered] using fun x _ => h x

theorem listened_covered (h : ∀ x, Becomes kind (element x)) :
    ∀ step ∈ listened key listeners kind element l, step.Covered := by
  intro step hmem
  obtain ⟨x, -, hstep⟩ := List.mem_flatMap.mp hmem
  rcases List.mem_pair.mp hstep with rfl | rfl
  · exact h x
  · exact trivial

end Loops

theorem throwSteps_covered {event : Bpmn.ThrowEvent}
    {element : Bpmn.ThrowEvent → EngineResult BpmnElement}
    (h : ∀ x, Becomes .throwEvent (element x)) :
    ∀ step ∈ throwSteps id links flows element event, step.Covered := by
  unfold throwSteps
  split
  · cases resolveLinkThrow links id event.id _ flows <;>
      simp [BuildStep.Covered, Except.map, Except.toOption, Returns, NodeKind.covers]
  · simpa [BuildStep.Covered] using h event

theorem flowSteps_covered {skipped : String → Bool} :
    ∀ step ∈ flowSteps flows skipped, step.Covered := by
  intro step hmem
  obtain ⟨flow, -, hstep⟩ := List.mem_flatMap.mp hmem
  split at hstep
  · exact absurd hstep List.not_mem_nil
  · cases List.mem_singleton.mp hstep
    exact trivial

theorem check_covered (r : EngineResult Unit) : ∀ step ∈ [BuildStep.check r], step.Covered :=
  fun _ h => List.mem_singleton.mp h ▸ trivial

theorem scopeSteps_covered :
    Returns (scopeSteps env lookups handler subProcess) fun steps => ∀ step ∈ steps,
      step.Covered := by
  refine .after fun _ => .after fun links => .after fun entry => .ok ?_
  obtain ⟨start, target, forks⟩ := entry
  simp only [subprocessTaskSteps, subprocessGatewaySteps, subprocessEventSteps,
    List.forall_mem_append]
  refine ⟨⟨⟨⟨⟨?_, nodes_covered subprocessEnd_becomes⟩, ?tasks⟩, ?gateways⟩, ?events⟩,
    flowSteps_covered⟩
  case tasks =>
    exact ⟨⟨⟨⟨⟨⟨⟨⟨nodes_covered serviceTask_becomes,
      nodes_covered fun t => (scriptTask_becomes t).1⟩, nodes_covered (userTask_becomes _)⟩,
      nodes_covered sendTask_becomes⟩, nodes_covered subprocessReceive_becomes⟩,
      nodes_covered (userTask_becomes _)⟩, nodes_covered businessRuleTask_becomes⟩,
      check_covered _⟩, nodes_covered fun _ => .ok rfl⟩
  case gateways =>
    exact ⟨⟨⟨⟨nodes_covered fun _ => .after fun _ => .ok rfl, nodes_covered fun _ => .ok rfl⟩,
      nodes_covered fun _ => .ok rfl⟩, nodes_covered eventBasedGateway_becomes⟩,
      nodes_covered fun _ => .after fun _ => .ok rfl⟩
  case events =>
    refine ⟨⟨nodes_covered catchEvent_becomes, fun step hmem => ?_⟩,
      nodes_covered boundaryEvent_becomes⟩
    obtain ⟨event, -, hstep⟩ := List.mem_flatMap.mp hmem
    exact throwSteps_covered throwEvent_becomes step hstep
  · cases handler <;> cases forks <;> simp [entrySteps, BuildStep.Covered, Returns, NodeKind.covers]

theorem processSteps_covered (process : Bpmn.Process) :
    ∀ step ∈ processSteps env lookups process links, step.Covered := by
  simp only [processSteps, processTaskSteps, processGatewaySteps, processEventSteps,
    List.forall_mem_append]
  refine ⟨⟨⟨⟨⟨⟨⟨?_, listened_covered processStart_becomes⟩, listened_covered processEnd_becomes⟩,
    ?tasks⟩, ?gateways⟩, ?events⟩, check_covered _⟩, flowSteps_covered⟩
  case tasks =>
    exact ⟨⟨⟨⟨⟨⟨⟨⟨listened_covered serviceTask_becomes, listened_covered (userTask_becomes _)⟩,
      listened_covered fun t => (scriptTask_becomes t).2⟩, listened_covered sendTask_becomes⟩,
      listened_covered (processReceive_becomes _)⟩, listened_covered (userTask_becomes _)⟩,
      listened_covered businessRuleTask_becomes⟩, check_covered _⟩,
      listened_covered fun _ => .ok rfl⟩
  case gateways =>
    exact ⟨⟨⟨⟨listened_covered fun _ => .ok rfl, listened_covered fun _ => .ok rfl⟩,
      listened_covered fun _ => .ok rfl⟩, listened_covered eventBasedGateway_becomes⟩,
      listened_covered fun _ => .ok rfl⟩
  case events =>
    refine ⟨⟨listened_covered catchEvent_becomes, fun step hmem => ?_⟩,
      nodes_covered boundaryEvent_becomes⟩
    obtain ⟨event, -, hstep⟩ := List.mem_flatMap.mp hmem
    rcases List.mem_append.mp hstep with hstep | hstep
    · exact throwSteps_covered throwEvent_becomes step hstep
    · exact List.mem_singleton.mp hstep ▸ trivial
  · exact fun _ h => List.mem_singleton.mp h ▸ trivial

end Kinds

/-! ## Where a step comes from -/

section Origin

variable {env : ParserEnv} {lookups : Lookups}

/-- A step for a subprocess somewhere in a list. -/
def StepFor (env : ParserEnv) (lookups : Lookups) (l : List SubProcess) (step : BuildStep) : Prop :=
  ∃ handler, ∃ subProcess : SubProcess, subProcess.Within l ∧
    ∃ own, scopeSteps env lookups handler subProcess = .ok own ∧ step ∈ own

theorem StepFor.mono {l l' : List SubProcess} (h : StepFor env lookups l step)
    (hl : ∀ subProcess : SubProcess, subProcess.Within l → subProcess.Within l') :
    StepFor env lookups l' step := by
  obtain ⟨handler, subProcess, hin, hown⟩ := h
  exact ⟨handler, subProcess, hl subProcess hin, hown⟩

mutual

theorem stepFor_of_subprocess (handler : Bool) : (subProcess : SubProcess) →
    Returns (subprocessSteps env lookups handler subProcess) fun steps =>
      ∀ step ∈ steps, StepFor env lookups [subProcess] step
  | .mk id triggered listeners scope nested => by
    unfold subprocessSteps
    intro steps hsteps step hmem
    obtain ⟨own, hown, hsteps⟩ := Returns.bind_eq_ok hsteps
    obtain ⟨inner, hinner, hsteps⟩ := Returns.bind_eq_ok hsteps
    cases hsteps
    rcases List.mem_append.mp hmem with hmem | hmem
    · exact ⟨handler, _, .here (List.mem_singleton_self _), own, hown, hmem⟩
    · exact (stepFor_of_subprocesses nested inner hinner step hmem).mono fun _ hin =>
        .inside (List.mem_singleton_self _) hin

theorem stepFor_of_subprocesses : (l : List SubProcess) →
    Returns (subprocessesSteps env lookups l) fun steps =>
      ∀ step ∈ steps, StepFor env lookups l step
  | [] => by
    unfold subprocessesSteps
    exact .ok fun _ h => absurd h List.not_mem_nil
  | subProcess :: rest => by
    unfold subprocessesSteps
    intro steps hsteps step hmem
    obtain ⟨own, hown, hsteps⟩ := Returns.bind_eq_ok hsteps
    obtain ⟨more, hmore, hsteps⟩ := Returns.bind_eq_ok hsteps
    cases hsteps
    rcases List.mem_append.mp hmem with hmem | hmem
    · exact (stepFor_of_subprocess false subProcess own hown step hmem).mono fun _ hin =>
        hin.mono fun _ h => List.mem_cons.mpr (.inl (List.mem_singleton.mp h))
    · exact (stepFor_of_subprocesses rest more hmore step hmem).mono fun _ hin =>
        hin.mono fun _ h => List.mem_cons_of_mem _ h

end

theorem stepFor_of_parts (l : List SubProcess) :
    Returns (partsSteps env lookups l) fun parts =>
      ∀ step ∈ parts.1 ++ parts.2, StepFor env lookups l step := by
  induction l with
  | nil => exact .ok fun _ h => absurd h List.not_mem_nil
  | cons subProcess rest ih =>
    intro parts hparts step hmem
    obtain ⟨own, hown, hparts⟩ := Returns.bind_eq_ok hparts
    obtain ⟨more, hmore, hparts⟩ := Returns.bind_eq_ok hparts
    have hor : step ∈ own ∨ step ∈ more.1 ++ more.2 := by
      cases hparts
      split at hmem <;> simp only [List.mem_append] at hmem ⊢ <;> tauto
    rcases hor with hmem | hmem
    · exact (stepFor_of_subprocess _ subProcess own hown step hmem).mono fun _ hin =>
        hin.mono fun _ h => List.mem_cons.mpr (.inl (List.mem_singleton.mp h))
    · exact (ih more hmore step hmem).mono fun _ hin => hin.mono fun _ h => List.mem_cons_of_mem _ h

end Origin

end Parser

end BpmnEngine
