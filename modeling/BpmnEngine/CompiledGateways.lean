import BpmnEngine.CompiledNodes

/-!
# Gateways of a document and what they are compiled to

A gateway of a document, at whatever depth of its subprocesses, has one node in the compiled
definition, and the outgoing flows of the node are those of the gateway, in their order. The
default flow of an exclusive or a complex gateway is there as the node it leads to. That of
an inclusive gateway is not read.
-/
namespace BpmnEngine

namespace Bpmn

variable {n : String}

/-! ## Where an identifier is used -/

namespace Scope

def taskIds (s : Scope) : List String :=
  s.serviceTasks.map (·.id) ++ s.scriptTasks.map (·.id) ++ s.userTasks.map (·.id) ++
    s.sendTasks.map (·.id) ++ s.receiveTasks.map (·.id) ++ s.manualTasks.map (·.id) ++
    s.businessRuleTasks.map (·.id) ++ s.callActivities.map (·.id)

def gatewayIds (s : Scope) : List String :=
  s.exclusiveGateways.map (·.id) ++ s.parallelGateways.map (·.id) ++
    s.inclusiveGateways.map (·.id) ++ s.eventBasedGateways.map (·.id) ++
    s.complexGateways.map (·.id)

def eventIds (s : Scope) : List String :=
  s.intermediateCatchEvents.map (·.id) ++ s.intermediateThrowEvents.map (·.id) ++
    s.boundaryEvents.map (·.id)

def nodeIds (s : Scope) : List String :=
  s.startEvents.map (·.id) ++ s.endEvents.map (·.id) ++ s.taskIds ++ s.gatewayIds ++ s.eventIds

/-- The scope neither has the node nor a flow from it. -/
structure Avoids (n : String) (s : Scope) : Prop where
  node : n ∉ s.nodeIds
  flows : ∀ f ∈ s.sequenceFlows, f.sourceRef ≠ n

end Scope

def Avoid (n : String) (l : List SubProcess) : Prop :=
  ∀ subProcess : SubProcess, subProcess.Within l → n ≠ subProcess.id ∧ subProcess.scope.Avoids n

theorem Avoid.mono {l l' : List SubProcess} (h : Avoid n l')
    (hl : ∀ subProcess ∈ l, subProcess ∈ l') : Avoid n l := by
  intro subProcess hin
  cases hin with
  | here hmem => exact h _ (.here (hl _ hmem))
  | inside hmem hin => exact h _ (.inside (hl _ hmem) hin)

/-- In a list of subprocesses the node is used in one scope only. -/
inductive OnlyIn (n : String) (s : Scope) : List SubProcess → Prop where
  | here {before after : List SubProcess} {subProcess : SubProcess}
      (hothers : Avoid n (before ++ after)) (hid : n ≠ subProcess.id) (hs : subProcess.scope = s)
      (hinner : Avoid n subProcess.subProcesses) : OnlyIn n s (before ++ subProcess :: after)
  | inside {before after : List SubProcess} {subProcess : SubProcess}
      (hothers : Avoid n (before ++ after)) (hid : n ≠ subProcess.id)
      (hscope : subProcess.scope.Avoids n) (hinner : OnlyIn n s subProcess.subProcesses) :
      OnlyIn n s (before ++ subProcess :: after)

/-- In a process the node is used in one scope only, and there it is one element. -/
structure Process.Has (process : Process) (n : String) (s : Scope) : Prop where
  once : s.nodeIds.count n = 1
  only : (process.scope = s ∧ Avoid n process.subProcesses) ∨
    (process.scope.Avoids n ∧ OnlyIn n s process.subProcesses)

end Bpmn

namespace Parser

open Bpmn (Scope SubProcess)

variable {env : ParserEnv} {lookups : Lookups} {n id label : String} {s : Scope}
  {steps own silent : List BuildStep} {subProcess : SubProcess} {flows : List Bpmn.SequenceFlow}
  {handler : Bool} {l : List SubProcess} {f : Bpmn.SequenceFlow} {e : BpmnElement}
  {element : Bpmn.ThrowEvent → EngineResult BpmnElement} {process : Bpmn.Process}
  {links : LinkScope} {skipped : String → Bool} {defs : Bpmn.Definitions} {flow : SequenceFlow}

/-! ## Counting -/

theorem count_innerNodes (s : Scope) (n : String) :
    (s.innerNodes.map Prod.fst).count n ≤ (s.taskIds ++ s.gatewayIds ++ s.eventIds).count n := by
  have hcatch := (List.filter_sublist (p := fun event => event.link.isNone)
    (l := s.intermediateCatchEvents)).map (·.id) |>.count_le n
  simp only [Scope.innerNodes, Scope.taskIds, Scope.gatewayIds, Scope.eventIds, List.map_append,
    List.map_map, Function.comp_def, List.count_append]
  omega

theorem count_ownNodes (hid : n ≠ subProcess.id) :
    ((subProcess.ownNodes handler).map Prod.fst).count n ≤ subProcess.scope.nodeIds.count n := by
  have hinner := count_innerNodes subProcess.scope n
  have hentry : ((subProcess.entryNodes handler).map Prod.fst).count n ≤
      (subProcess.scope.startEvents.map (·.id)).count n := by
    cases handler with
    | true => simp [SubProcess.entryNodes, Function.comp_def]
    | false =>
      simpa [SubProcess.entryNodes, Function.comp_def, List.count_cons_of_ne hid.symm] using
        (List.filter_sublist.map _).count_le n
  simp only [SubProcess.ownNodes, Scope.nodeIds, List.map_append, List.map_map, Function.comp_def,
    List.count_append] at hinner ⊢
  omega

/-! ## Flows -/

def outgoing (flows : List Bpmn.SequenceFlow) (n : String) : List Bpmn.SequenceFlow :=
  flows.filter fun flow => flow.sourceRef == n

theorem flows_of_front {front : List BuildStep} (hfront : ∀ flow, BuildStep.flow n flow ∉ front)
    (hskipped : skipped n = false) :
    (stepsAt n (front ++ flowSteps flows skipped)).filterMap BuildStep.flow? =
      (outgoing flows n).map compiledFlow := by
  have hnone : (stepsAt n front).filterMap BuildStep.flow? = [] := by
    rw [List.filterMap_eq_nil_iff]
    intro step hmem
    obtain ⟨hmem, htarget⟩ := List.mem_filter.mp hmem
    cases step with
    | node | listeners | check => rfl
    | flow source flow =>
      cases eq_of_beq htarget
      exact absurd hmem (hfront flow)
  rw [stepsAt_append, List.filterMap_append, hnone, List.nil_append]
  induction flows with
  | nil => rfl
  | cons flow rest ih =>
    rw [flowSteps, List.flatMap_cons, ← flowSteps, stepsAt_append, List.filterMap_append, ih]
    by_cases hn : flow.sourceRef = n
    · subst hn
      simp [outgoing, hskipped, stepsAt, BuildStep.target?, BuildStep.flow?]
    · have hother : stepsAt n (if skipped flow.sourceRef then []
          else [.flow flow.sourceRef (compiledFlow flow)]) = [] := by
        split <;> simp [stepsAt, BuildStep.target?, hn]
      simp [outgoing, hother, hn]

theorem addLinkCatch_catchIds {scope : LinkScope} {event : Bpmn.CatchEvent} (hn : n ≠ event.id)
    (h : n ∉ scope.catchIds) :
    Returns (addLinkCatch label flows scope event) fun scope' => n ∉ scope'.catchIds := by
  unfold addLinkCatch
  dsimp only
  split
  · exact .ok h
  · split
    · exact .error _
    · split
      · exact .error _
      · split
        · exact .error _
        · split
          · exact .error _
          · refine .ok fun hmem => ?_
            rcases List.mem_append.mp hmem with hmem | hmem
            · exact h hmem
            · exact hn (List.mem_singleton.mp hmem)
          · exact .error _

theorem resolveLinkScope_catchIds {catches : List Bpmn.CatchEvent} (hn : n ∉ catches.map (·.id)) :
    Returns (resolveLinkScope label catches flows) fun scope => n ∉ scope.catchIds :=
  .foldlM List.not_mem_nil fun _ hx _ h =>
    addLinkCatch_catchIds (fun heq => hn (heq ▸ List.mem_map_of_mem hx)) h

theorem notMem_catchIds (hn : n ∉ s.eventIds) :
    Returns (resolveLinkScope label s.intermediateCatchEvents flows) fun links =>
      n ∉ links.catchIds := by
  refine resolveLinkScope_catchIds fun hmem => hn ?_
  simp only [Scope.eventIds, List.mem_append]
  exact .inl (.inl hmem)

theorem flow_mem_throwSteps {event : Bpmn.ThrowEvent}
    (h : BuildStep.flow n flow ∈ throwSteps id links flows element event) : n = event.id := by
  unfold throwSteps at h
  split at h
  · rcases List.mem_cons.mp h with h | h
    · cases h
    · obtain ⟨target, -, heq⟩ := List.mem_map.mp h
      cases heq
      rfl
  · cases List.mem_singleton.mp h

theorem throw_notMem (hn : n ∉ s.eventIds) : ∀ event ∈ s.intermediateThrowEvents,
      BuildStep.flow n flow ∉ throwSteps id links flows element event := by
  intro event hevent hmem
  rw [flow_mem_throwSteps hmem] at hn
  exact hn (by simp [Scope.eventIds, List.mem_map_of_mem hevent])

/-! ## The gateways of a scope -/

/-- A gateway of a scope with a default flow, and its element in the definition. The default flow
of an inclusive gateway is whatever the document says. -/
inductive DefaultAt (s : Scope) (f : Bpmn.SequenceFlow) : String → BpmnElement → Prop where
  | exclusive {gw : Bpmn.ExclusiveGateway} (hgw : gw ∈ s.exclusiveGateways)
      (hdefault : gw.default = some f.id) :
      DefaultAt s f gw.id (.exclusiveGateway (some f.targetRef))
  | inclusive {gw : Bpmn.Gateway} (hgw : gw ∈ s.inclusiveGateways) :
      DefaultAt s f gw.id .inclusiveGateway
  | complex {gw : Bpmn.ComplexGateway} (hgw : gw ∈ s.complexGateways)
      (hdefault : gw.default = some f.id) :
      DefaultAt s f gw.id (.complexGateway (gw.activationCondition.map trim) (some f.targetRef))

theorem flowLookup_get? {f : Bpmn.SequenceFlow} (hf : f ∈ flows) (hids : (flows.map (·.id)).Nodup) :
    (flowLookup flows).get? f.id = some f.targetRef := by
  rw [Map.get?_eq_some_iff]
  refine (Table.mem_foldl_insert ?_).mpr (List.mem_map_of_mem hf)
  rw [List.map_map]
  exact hids

theorem DefaultAt.mem (h : DefaultAt s f n e) : n ∈ s.gatewayIds := by
  cases h with
  | exclusive hgw => simp [Scope.gatewayIds, List.mem_map_of_mem hgw]
  | inclusive hgw => simp [Scope.gatewayIds, List.mem_map_of_mem hgw]
  | complex hgw => simp [Scope.gatewayIds, List.mem_map_of_mem hgw]

theorem resolveSubProcessDefault_eq {gateway : String} {default : Option String}
    (hf : f ∈ s.sequenceFlows) (hids : (s.sequenceFlows.map (·.id)).Nodup)
    (hdefault : default = some f.id) :
    resolveSubProcessDefault (flowLookup s.sequenceFlows) id gateway default =
      .ok (some f.targetRef) := by
  rw [hdefault, resolveSubProcessDefault, flowLookup_get? hf hids]

/-- What the steps for a node say: its element and its outgoing flows. -/
def StepsGive (n : String) (e : BpmnElement) (flows : List Bpmn.SequenceFlow)
    (steps : List BuildStep) : Prop :=
  (stepsAt n steps).reverse.findSome? BuildStep.element? = some e ∧
    (stepsAt n steps).filterMap BuildStep.flow? = (outgoing flows n).map compiledFlow

theorem mem_subprocessGatewaySteps (hdefault : DefaultAt s f n e) (hf : f ∈ s.sequenceFlows)
    (hids : (s.sequenceFlows.map (·.id)).Nodup) :
    ∃ kind, BuildStep.node n kind (.ok e) ∈ subprocessGatewaySteps s id := by
  have hmap {α : Type} {key : α → String} {kind : NodeKind} {l : List α} {x : α}
      {element : α → EngineResult BpmnElement} (hx : x ∈ l) (he : element x = .ok e) :
      BuildStep.node (key x) kind (.ok e) ∈ nodes key kind element l :=
    List.mem_map.mpr ⟨x, hx, by rw [he]⟩
  cases hdefault with
  | exclusive hgw hflow =>
    refine ⟨.exclusiveGateway, ?_⟩
    simp only [subprocessGatewaySteps, List.mem_append]
    refine .inl (.inl (.inl (.inl (hmap hgw ?_))))
    rw [resolveSubProcessDefault_eq hf hids hflow]
    rfl
  | inclusive hgw =>
    refine ⟨.inclusiveGateway, ?_⟩
    simp only [subprocessGatewaySteps, List.mem_append]
    exact .inl (.inl (.inr (hmap hgw rfl)))
  | complex hgw hflow =>
    refine ⟨.complexGateway, ?_⟩
    simp only [subprocessGatewaySteps, List.mem_append]
    refine .inr (hmap hgw ?_)
    rw [resolveSubProcessDefault_eq hf hids hflow]
    rfl

theorem scopeSteps_gateway (hid : n ≠ subProcess.id)
    (hcount : subProcess.scope.nodeIds.count n = 1) (hdefault : DefaultAt subProcess.scope f n e)
    (hf : f ∈ subProcess.scope.sequenceFlows)
    (hids : (subProcess.scope.sequenceFlows.map (·.id)).Nodup) :
    Returns (scopeSteps env lookups handler subProcess)
      (StepsGive n e subProcess.scope.sequenceFlows) := by
  intro own hown
  have hplaced := placed_scopeSteps own hown
  have honce : ((subProcess.ownNodes handler).map Prod.fst).count n ≤ 1 :=
    hcount ▸ count_ownNodes hid
  have hpos := List.count_pos_iff.mpr hdefault.mem
  simp only [Scope.nodeIds, List.count_append] at hcount
  have hevents : n ∉ subProcess.scope.eventIds := List.count_eq_zero.mp (by omega)
  have hstarts : n ∉ subProcess.scope.startEvents.map (·.id) := List.count_eq_zero.mp (by omega)
  obtain ⟨_, -, hown⟩ := Returns.bind_eq_ok hown
  obtain ⟨links, hlinks, hown⟩ := Returns.bind_eq_ok hown
  obtain ⟨⟨first, target, forks⟩, hentry, hown⟩ := Returns.bind_eq_ok hown
  cases hown
  constructor
  · obtain ⟨kind, hmem⟩ : ∃ kind, .node n kind (.ok e) ∈
        subprocessGatewaySteps subProcess.scope subProcess.id :=
      mem_subprocessGatewaySteps hdefault hf hids
    exact lastElement_of_once (hplaced ▸ honce) ⟨kind, by simp [hmem]⟩
  · obtain ⟨start, hstart, rfl, -⟩ := subprocessEntry_forks _ hentry
    apply flows_of_front
    · intro flow
      cases handler <;> cases forks <;>
        simpa [entrySteps, subprocessTaskSteps, subprocessGatewaySteps, subprocessEventSteps,
          nodes] using throw_notMem hevents
    · rw [hstart, List.map_singleton, List.mem_singleton] at hstarts
      simp [hstarts, notMem_catchIds hevents links hlinks]

theorem mem_processGatewaySteps (hdefault : DefaultAt s f n e) (hf : f ∈ s.sequenceFlows)
    (hids : (s.sequenceFlows.map (·.id)).Nodup) :
    ∃ kind, BuildStep.node n kind (.ok e) ∈ processGatewaySteps s := by
  have hlookup := flowLookup_get? hf hids
  have hmap {α : Type} {key : α → String} {listeners : α → List Bpmn.Listener} {kind : NodeKind}
      {l : List α} {x : α} {element : α → EngineResult BpmnElement} (hx : x ∈ l)
      (he : element x = .ok e) :
      BuildStep.node (key x) kind (.ok e) ∈ listened key listeners kind element l :=
    List.mem_flatMap.mpr ⟨x, hx, by rw [he]; exact List.mem_cons_self⟩
  cases hdefault with
  | exclusive hgw hflow =>
    refine ⟨.exclusiveGateway, ?_⟩
    simp only [processGatewaySteps, List.mem_append]
    exact .inl (.inl (.inl (.inl (hmap hgw (by rw [hflow, Option.bind_some, hlookup])))))
  | inclusive hgw =>
    refine ⟨.inclusiveGateway, ?_⟩
    simp only [processGatewaySteps, List.mem_append]
    exact .inl (.inl (.inl (.inr (hmap hgw rfl))))
  | complex hgw hflow =>
    refine ⟨.complexGateway, ?_⟩
    simp only [processGatewaySteps, List.mem_append]
    exact .inr (hmap hgw (by rw [complexGateway, hflow, Option.bind_some, hlookup]))

section Process

variable {process : Bpmn.Process} {links : LinkScope}

theorem flow_notMem_processSteps (hn : n ∉ process.scope.eventIds) (flow : SequenceFlow) :
    BuildStep.flow n flow ∉ ([.listeners process.id process.listeners] ++
      listened (·.id) (·.listeners) .startEvent (processStart env lookups)
        process.scope.startEvents ++
      listened (·.id) (·.listeners) .endEvent (processEnd lookups) process.scope.endEvents ++
      processTaskSteps lookups process.scope ++ processGatewaySteps process.scope ++
      processEventSteps env lookups process.scope process.id links ++
      [.check (checkUnconnected process)]) := by
  simpa [processTaskSteps, processGatewaySteps, processEventSteps, nodes, listened] using
    throw_notMem hn

theorem processSteps_gateway (hcount : process.scope.nodeIds.count n = 1)
    (hdefault : DefaultAt process.scope f n e) (hf : f ∈ process.scope.sequenceFlows)
    (hids : (process.scope.sequenceFlows.map (·.id)).Nodup) (hlinks : n ∉ links.catchIds) :
    StepsGive n e process.scope.sequenceFlows (processSteps env lookups process links) := by
  have hpos := List.count_pos_iff.mpr hdefault.mem
  have hinner := count_innerNodes process.scope n
  simp only [Scope.nodeIds, List.count_append] at hcount hinner
  have hevents : n ∉ process.scope.eventIds := List.count_eq_zero.mp (by omega)
  constructor
  · obtain ⟨kind, hmem⟩ := mem_processGatewaySteps hdefault hf hids
    refine lastElement_of_once ?_ ⟨kind, by simp [processSteps, hmem]⟩
    rw [(placed_processSteps.map Prod.fst).count_eq]
    simp only [List.map_append, List.map_map, Function.comp_def, List.count_append]
    omega
  · exact flows_of_front (flow_notMem_processSteps hevents) (by simpa using hlinks)

end Process

/-! ## Scopes without the gateway -/

/-- No step places the node or a flow from it. -/
def Silent (n : String) (steps : List BuildStep) : Prop :=
  (∀ kind r, BuildStep.node n kind r ∉ steps) ∧ ∀ flow, BuildStep.flow n flow ∉ steps

theorem Silent.none (h : Silent n steps) :
    (stepsAt n steps).reverse.findSome? BuildStep.element? = none ∧
      (stepsAt n steps).filterMap BuildStep.flow? = [] := by
  have hnone : ∀ step ∈ stepsAt n steps, step.element? = Option.none ∧ step.flow? = Option.none :=
    by
    intro step hmem
    obtain ⟨hmem, htarget⟩ := List.mem_filter.mp hmem
    cases step with
    | listeners | check => exact ⟨rfl, rfl⟩
    | node id kind r =>
      cases eq_of_beq htarget
      exact absurd hmem (h.1 kind r)
    | flow source flow =>
      cases eq_of_beq htarget
      exact absurd hmem (h.2 flow)
  constructor
  · rw [List.findSome?_eq_none_iff]
    exact fun step hmem => (hnone step (List.mem_reverse.mp hmem)).1
  · rw [List.filterMap_eq_nil_iff]
    exact fun step hmem => (hnone step hmem).2

theorem notMem_flowSteps (hn : ∀ f ∈ flows, f.sourceRef ≠ n) (flow : SequenceFlow) :
    BuildStep.flow n flow ∉ flowSteps flows skipped := by
  intro hmem
  obtain ⟨f, hf, hstep⟩ := List.mem_flatMap.mp hmem
  split at hstep
  · exact absurd hstep List.not_mem_nil
  · cases List.mem_singleton.mp hstep
    exact hn f hf rfl

theorem notMem_of_placed {kind : NodeKind} {r : EngineResult BpmnElement}
    (h : ((placed steps).map Prod.fst).count n = 0) : BuildStep.node n kind r ∉ steps := by
  intro hmem
  refine List.count_eq_zero.mp h (List.mem_map.mpr ⟨(n, kind), ?_, rfl⟩)
  exact List.mem_filterMap.mpr ⟨_, hmem, rfl⟩

theorem scopeSteps_silent (hid : n ≠ subProcess.id) (havoids : subProcess.scope.Avoids n) :
    Returns (scopeSteps env lookups handler subProcess) (Silent n) := by
  intro own hown
  have hplaced := placed_scopeSteps own hown
  have hcount : ((subProcess.ownNodes handler).map Prod.fst).count n ≤ _ := count_ownNodes hid
  rw [List.count_eq_zero.mpr havoids.node] at hcount
  have hnode := havoids.node
  simp only [Scope.nodeIds, List.mem_append, not_or] at hnode
  obtain ⟨_, -, hown⟩ := Returns.bind_eq_ok hown
  obtain ⟨links, -, hown⟩ := Returns.bind_eq_ok hown
  obtain ⟨⟨first, target, forks⟩, -, hown⟩ := Returns.bind_eq_ok hown
  cases hown
  refine ⟨fun kind r => notMem_of_placed (by rw [hplaced]; omega), fun flow => ?_⟩
  cases handler <;> cases forks <;>
    simpa [entrySteps, subprocessTaskSteps, subprocessGatewaySteps, subprocessEventSteps, nodes,
      notMem_flowSteps havoids.flows] using throw_notMem hnode.2

theorem processSteps_silent (havoids : process.scope.Avoids n) :
    Silent n (processSteps env lookups process links) := by
  have hinner := count_innerNodes process.scope n
  have hcount := List.count_eq_zero.mpr havoids.node
  simp only [Scope.nodeIds, List.count_append] at hcount hinner
  refine ⟨fun kind r => notMem_of_placed ?_, fun flow hmem => ?_⟩
  · rw [(placed_processSteps.map Prod.fst).count_eq]
    simp only [List.map_append, List.map_map, Function.comp_def, List.count_append]
    omega
  · rcases List.mem_append.mp hmem with hmem | hmem
    · exact flow_notMem_processSteps (List.count_eq_zero.mp (by omega)) flow hmem
    · exact notMem_flowSteps havoids.flows flow hmem

/-! ## The one scope that has it -/

theorem StepsGive.insert {before after : List BuildStep} (h : StepsGive n e flows (before ++ after))
    (hsilent : Silent n silent) : StepsGive n e flows (before ++ (silent ++ after)) := by
  obtain ⟨hnode, hflows⟩ := hsilent.none
  unfold StepsGive at *
  simp only [stepsAt_append, List.reverse_append, List.findSome?_append, List.filterMap_append] at *
  rw [hnode, hflows, Option.or_none, List.nil_append]
  exact h

theorem StepsGive.before (h : StepsGive n e flows steps) (hsilent : Silent n silent) :
    StepsGive n e flows (silent ++ steps) := by
  rw [← List.nil_append steps] at h
  exact h.insert hsilent

theorem StepsGive.after (h : StepsGive n e flows steps) (hsilent : Silent n silent) :
    StepsGive n e flows (steps ++ silent) := by
  rw [← List.append_nil steps] at h
  simpa using h.insert hsilent

theorem Silent.of_avoid (havoid : Bpmn.Avoid n l)
    (h : ∀ step ∈ steps, StepFor env lookups l step) : Silent n steps := by
  have hown : ∀ step ∈ steps, ∃ own, step ∈ own ∧ Silent n own := by
    intro step hmem
    obtain ⟨handler, subProcess, hin, own, hown, hmem⟩ := h step hmem
    obtain ⟨hid, havoids⟩ := havoid subProcess hin
    exact ⟨own, hmem, scopeSteps_silent hid havoids own hown⟩
  constructor
  · intro kind r hmem
    obtain ⟨own, hmem, hsilent⟩ := hown _ hmem
    exact hsilent.1 kind r hmem
  · intro flow hmem
    obtain ⟨own, hmem, hsilent⟩ := hown _ hmem
    exact hsilent.2 flow hmem

/-- The part of a list of subprocesses that has the node decides what its steps are. -/
theorem subprocessesSteps_part {before after : List SubProcess}
    (hothers : Bpmn.Avoid n (before ++ after))
    (hpart : Returns (subprocessSteps env lookups false subProcess) (StepsGive n e flows)) :
    Returns (subprocessesSteps env lookups (before ++ subProcess :: after))
      (StepsGive n e flows) := by
  induction before with
  | nil =>
    rw [List.nil_append, subprocessesSteps]
    refine hpart.bind fun own hown => (stepFor_of_subprocesses after).bind fun more hmore => ?_
    exact .ok (hown.after (.of_avoid hothers hmore))
  | cons first before ih =>
    rw [List.cons_append, subprocessesSteps]
    have hfirst : Bpmn.Avoid n [first] := hothers.mono fun _ h => by simp_all
    refine (stepFor_of_subprocess false first).bind fun own hown =>
      (ih (hothers.mono fun _ => List.mem_cons_of_mem _)).bind fun more hmore => ?_
    exact .ok (hmore.before (.of_avoid hfirst hown))

theorem partsSteps_part {before after : List SubProcess} (hothers : Bpmn.Avoid n (before ++ after))
    (hpart : ∀ handler, Returns (subprocessSteps env lookups handler subProcess)
      (StepsGive n e flows)) :
    Returns (partsSteps env lookups (before ++ subProcess :: after))
      fun parts => StepsGive n e flows (parts.1 ++ parts.2) := by
  induction before with
  | nil =>
    rw [List.nil_append, partsSteps]
    refine (hpart _).bind fun own hown => (stepFor_of_parts after).bind fun more hmore => .ok ?_
    have hsilent := Silent.of_avoid hothers hmore
    cases subProcess.isTriggeredByEvent with
    | false => simpa using hown.after hsilent
    | true =>
      have hembedded : Silent n more.1 :=
        ⟨fun kind r hmem => hsilent.1 kind r (List.mem_append_left _ hmem),
          fun flow hmem => hsilent.2 flow (List.mem_append_left _ hmem)⟩
      have hattached : Silent n more.2 :=
        ⟨fun kind r hmem => hsilent.1 kind r (List.mem_append_right _ hmem),
          fun flow hmem => hsilent.2 flow (List.mem_append_right _ hmem)⟩
      exact (hown.after hattached).before hembedded
  | cons first before ih =>
    rw [List.cons_append, partsSteps]
    have hfirst : Bpmn.Avoid n [first] := hothers.mono fun _ h => by simp_all
    refine (stepFor_of_subprocess _ first).bind fun own hown =>
      (ih (hothers.mono fun _ => List.mem_cons_of_mem _)).bind fun more hmore => .ok ?_
    have hsilent := Silent.of_avoid hfirst hown
    cases first.isTriggeredByEvent with
    | false => simpa using hmore.before hsilent
    | true => exact hmore.insert hsilent

theorem subprocessSteps_inside (hid : n ≠ subProcess.id) (hscope : subProcess.scope.Avoids n)
    (hinner : Returns (subprocessesSteps env lookups subProcess.subProcesses)
      (StepsGive n e flows)) (handler : Bool) :
    Returns (subprocessSteps env lookups handler subProcess) (StepsGive n e flows) := by
  cases subProcess with
  | mk =>
    rw [subprocessSteps]
    refine (scopeSteps_silent hid hscope).bind fun own hown => hinner.bind fun more hmore => ?_
    exact .ok (hmore.before hown)

section Gateway

variable (hcount : s.nodeIds.count n = 1) (hdefault : DefaultAt s f n e)
  (hf : f ∈ s.sequenceFlows) (hids : (s.sequenceFlows.map (·.id)).Nodup)

include hcount hdefault hf hids

theorem subprocessSteps_here (hid : n ≠ subProcess.id) (hs : subProcess.scope = s)
    (hinner : Bpmn.Avoid n subProcess.subProcesses) (handler : Bool) :
    Returns (subprocessSteps env lookups handler subProcess) (StepsGive n e s.sequenceFlows) := by
  cases hs
  cases subProcess with
  | mk id triggered listeners scope nested =>
    rw [subprocessSteps]
    refine (scopeSteps_gateway hid hcount hdefault hf hids).bind fun own hown =>
      (stepFor_of_subprocesses nested).bind fun more hmore => ?_
    exact .ok (hown.after (.of_avoid hinner hmore))

theorem subprocessesSteps_gateway (honly : Bpmn.OnlyIn n s l) :
    Returns (subprocessesSteps env lookups l) (StepsGive n e s.sequenceFlows) := by
  induction honly with
  | here hothers hid hs hinner =>
    exact subprocessesSteps_part hothers
      (subprocessSteps_here hcount hdefault hf hids hid hs hinner false)
  | inside hothers hid hscope hinner ih =>
    exact subprocessesSteps_part hothers (subprocessSteps_inside hid hscope ih false)

theorem partsSteps_gateway (honly : Bpmn.OnlyIn n s l) :
    Returns (partsSteps env lookups l)
      fun parts => StepsGive n e s.sequenceFlows (parts.1 ++ parts.2) := by
  cases honly with
  | here hothers hid hs hinner =>
    exact partsSteps_part hothers (subprocessSteps_here hcount hdefault hf hids hid hs hinner)
  | inside hothers hid hscope hinner =>
    exact partsSteps_part hothers (subprocessSteps_inside hid hscope
      (subprocessesSteps_gateway hcount hdefault hf hids hinner))

end Gateway

theorem allSteps_gateway (hhas : process.Has n s) (hdefault : DefaultAt s f n e)
    (hf : f ∈ s.sequenceFlows) (hids : (s.sequenceFlows.map (·.id)).Nodup) :
    Returns (allSteps env defs process) (StepsGive n e s.sequenceFlows) := by
  have hcount := hhas.once
  rcases hhas.only with ⟨rfl, havoid⟩ | ⟨havoids, honly⟩
  · have hpos := List.count_pos_iff.mpr hdefault.mem
    have hevents : n ∉ process.scope.eventIds := by
      simp only [Scope.nodeIds, List.count_append] at hcount
      exact List.count_eq_zero.mp (by omega)
    refine (notMem_catchIds hevents).bind fun links hlinks =>
      (stepFor_of_parts _).bind fun parts hparts => .ok ?_
    rw [List.append_assoc]
    exact (processSteps_gateway hcount hdefault hf hids hlinks).after (.of_avoid havoid hparts)
  · refine .after fun links =>
      (partsSteps_gateway hcount hdefault hf hids honly).bind fun parts hparts => .ok ?_
    rw [List.append_assoc]
    exact hparts.before (processSteps_silent havoids)

/-- A gateway whose id is used once keeps its element and its flows, in order. -/
theorem compileProcess_gateway (hhas : process.Has n s) (hdefault : DefaultAt s f n e)
    (hf : f ∈ s.sequenceFlows) (hids : (s.sequenceFlows.map (·.id)).Nodup) :
    Returns (compileProcess env defs process) fun d =>
      d.nodes.get? n = some e ∧
        (d.flows.get? n).getD [] = (outgoing s.sequenceFlows n).map compiledFlow := by
  intro d hd
  obtain ⟨steps, hsteps, hbuilds⟩ := compileProcess_builds d hd
  obtain ⟨hnode, hflows⟩ := allSteps_gateway hhas hdefault hf hids steps hsteps
  exact ⟨(hbuilds.nodes n).trans hnode, (hbuilds.flows n).trans hflows⟩

end Parser

end BpmnEngine
