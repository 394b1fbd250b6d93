import BpmnEngine.CompiledGateways
import BpmnEngine.Departures

/-!
# Default flows

A gateway with a default flow should leave over it exactly if none of its other flows is
enabled. Of the document's default flow the definition only keeps the node that it leads to, and
for an inclusive gateway not even this. So the three gateways differ from the rule and from
each other: an exclusive gateway takes a default flow whose condition is true, an inclusive one
takes its default flow like any other, and a complex one also mistakes other flows to the
same node for the default.
-/
namespace BpmnEngine

open Program

namespace Bpmn.SequenceFlow

variable (env : Env) (vars : Variables)

def holds (flow : SequenceFlow) : Bool :=
  flow.conditionExpression.any fun condition => env.evaluateCondition (Parser.trim condition) vars

def enabled (flow : SequenceFlow) : Bool :=
  flow.conditionExpression.all fun condition => env.evaluateCondition (Parser.trim condition) vars

def shadowed (f flow : SequenceFlow) : Bool :=
  flow.conditionExpression.isNone && flow.targetRef == f.targetRef

end Bpmn.SequenceFlow

open Bpmn.SequenceFlow (holds enabled shadowed)

def dueFlows (f : Bpmn.SequenceFlow) (enabled : List Bpmn.SequenceFlow) : List Bpmn.SequenceFlow :=
  if enabled.isEmpty then [f] else enabled

def TakesDue (due : List Bpmn.SequenceFlow) (targets : List String) : BpmnElement → Prop
  | .exclusiveGateway _ => ∃ flow ∈ due, targets = [flow.targetRef]
  | _ => targets.Perm (due.map (·.targetRef))

/-- The flows for which the default flow is what it should be. They stand before and after it in
the document. -/
def DefaultHeeded (env : Env) (vars : Variables) (before : List Bpmn.SequenceFlow)
    (f : Bpmn.SequenceFlow) (after : List Bpmn.SequenceFlow) : BpmnElement → Prop
  | .exclusiveGateway _ =>
    (before ++ after).filter (enabled env vars) = [] ∨ ¬ f.holds env vars ∨
      (∃ flow ∈ before, flow.holds env vars) ∨
      ∃ flow ∈ before ++ after, flow.enabled env vars ∧ flow.targetRef = f.targetRef
  | .inclusiveGateway => f.enabled env vars ↔ (before ++ after).filter (enabled env vars) = []
  | _ =>
    (before ++ after).filter (enabled env vars) = [] ∨
      (if f.holds env vars then (before ++ after).countP (shadowed f) = 1
      else (before ++ after).countP (shadowed f) = 0 ∨
        (before ++ after).countP (shadowed f) = 1 ∧ (before ++ after).countP (enabled env vars) = 1)

def ProcessDefinition.Splits (d : ProcessDefinition) (token : Token) : BpmnElement → Prop
  | .exclusiveGateway _ => True
  | _ => d.incomingFlowCount token.currentNode < 2 ∨ token.isMerged

/-! ## The targets -/

namespace Parser

theorem compiledFlow_target (flow : Bpmn.SequenceFlow) :
    (compiledFlow flow).target = flow.targetRef := by
  obtain ⟨id, source, target, condition⟩ := flow
  cases condition <;> rfl

end Parser

namespace Eng

variable {e : Engine} {flows : List Bpmn.SequenceFlow} {m : Eng NextAction}

/-- The nodes to which a gateway sends tokens; there is none if it fails. -/
def gatewayTargets (env : Env) (d : ProcessDefinition) (node : String) (vars : Variables) :
    BpmnElement → List String
  | .exclusiveGateway default => (exclusiveTarget env d node vars default).toList
  | .complexGateway _ default =>
    let targets := ((d.nextNodes node).filter fun flow =>
      match flow.condition with
      | some condition => env.evaluateCondition condition vars
      | none => !(default == some flow.target)).map (·.target)
    if targets.isEmpty then default.toList else targets
  | _ => ((d.nextNodes node).filter (ProcessDefinition.flowMatches env vars)).map (·.target)

/-- The program sends tokens to these nodes, or fails if there are none. -/
def Sends (i : Uuid) (m : Eng NextAction) (targets : List String) : Prop :=
  ∀ e : Engine, (e.instances.find? i).isSome →
    (targets = [] ∧ ∃ error e', exec m e = (.error error, e')) ∨
    ∃ action e', exec m e = (.ok action, e') ∧
      action.sent.map (·.currentNode) = targets ∧ targets ≠ [] ∧ (e'.instances.find? i).isSome

section Targets

variable {env : Env} {vars : Variables} {d : ProcessDefinition} {node : String}
  {f flow : Bpmn.SequenceFlow} {before after : List Bpmn.SequenceFlow}

def matched (env : Env) (vars : Variables) (f flow : Bpmn.SequenceFlow) : Bool :=
  flow.enabled env vars && !shadowed f flow

def matchedTargets (env : Env) (vars : Variables) (f : Bpmn.SequenceFlow)
    (flows : List Bpmn.SequenceFlow) : List String :=
  (flows.filter (matched env vars f)).map (·.targetRef)

theorem flowMatches_compiledFlow (flow : Bpmn.SequenceFlow) :
    ProcessDefinition.flowMatches env vars (Parser.compiledFlow flow) = flow.enabled env vars := by
  obtain ⟨id, source, target, condition⟩ := flow
  cases condition <;> rfl

theorem map_target_filter (flows : List Bpmn.SequenceFlow) (p : SequenceFlow → Bool) :
    ((flows.map Parser.compiledFlow).filter p).map (·.target) =
      (flows.filter (p ∘ Parser.compiledFlow)).map (·.targetRef) := by
  rw [List.filter_map, List.map_map]
  exact List.map_congr_left fun flow _ => Parser.compiledFlow_target flow

section

variable (hnext : d.nextNodes node = (before ++ f :: after).map Parser.compiledFlow)

include hnext

theorem inclusive_targets : gatewayTargets env d node vars .inclusiveGateway =
      ((before ++ f :: after).filter (enabled env vars)).map (·.targetRef) := by
  change ((d.nextNodes node).filter (ProcessDefinition.flowMatches env vars)).map (·.target) = _
  rw [hnext, map_target_filter]
  congr 2
  funext flow
  exact flowMatches_compiledFlow flow

theorem complex_targets (join : Option String) :
    gatewayTargets env d node vars (.complexGateway join (some f.targetRef)) =
      if (matchedTargets env vars f (before ++ f :: after)).isEmpty then [f.targetRef]
      else matchedTargets env vars f (before ++ f :: after) := by
  have hmatched : (fun flow : SequenceFlow => match flow.condition with
      | some condition => env.evaluateCondition condition vars
      | none => !(some f.targetRef == some flow.target)) ∘ Parser.compiledFlow =
        matched env vars f := by
    funext flow
    obtain ⟨id, source, target, condition⟩ := flow
    cases condition <;> simp [Parser.compiledFlow, enabled, matched, shadowed, SequenceFlow.simple,
      SequenceFlow.conditional, eq_comm]
  rw [gatewayTargets, hnext, map_target_filter, hmatched]
  rfl

end

def chosen (env : Env) (vars : Variables) (f : Bpmn.SequenceFlow) (flows : List Bpmn.SequenceFlow) :
    Bpmn.SequenceFlow :=
  ((flows.find? (holds env vars)).or
    (flows.find? fun flow => flow.conditionExpression.isNone && !shadowed f flow)).getD f

theorem exclusive_targets
    (hnext : d.nextNodes node = (before ++ f :: after).map Parser.compiledFlow) :
    gatewayTargets env d node vars (.exclusiveGateway (some f.targetRef)) =
      [(chosen env vars f (before ++ f :: after)).targetRef] := by
  have hholds : (fun flow : SequenceFlow => flow.condition.any fun condition =>
      env.evaluateCondition condition vars) ∘ Parser.compiledFlow = holds env vars := by
    funext flow
    obtain ⟨id, source, target, condition⟩ := flow
    cases condition <;> rfl
  have hfree : (fun flow : SequenceFlow => flow.condition.isNone &&
      !(some f.targetRef == some flow.target)) ∘ Parser.compiledFlow =
        fun flow => flow.conditionExpression.isNone && !shadowed f flow := by
    funext flow
    obtain ⟨id, source, target, condition⟩ := flow
    cases condition <;> simp [Parser.compiledFlow, shadowed, SequenceFlow.simple,
      SequenceFlow.conditional, eq_comm]
  rw [gatewayTargets, exclusiveTarget, hnext, List.find?_map, List.find?_map, hholds, hfree,
    ← Option.map_or, Option.map_map, chosen]
  cases (((before ++ f :: after).find? (holds env vars)).or _) with
  | none => rfl
  | some => simp [Parser.compiledFlow_target]

/-! ## The law -/

theorem dueFlows_nil : dueFlows f [] = [f] := rfl

theorem dueFlows_of_ne_nil (h : flows ≠ []) : dueFlows f flows = flows :=
  if_neg (by simpa using h)

theorem dueFlows_ne_nil (flows : List Bpmn.SequenceFlow) : dueFlows f flows ≠ [] := by
  by_cases h : flows = []
  · rw [h, dueFlows_nil]
    exact List.cons_ne_nil _ _
  · rwa [dueFlows_of_ne_nil h]

theorem not_takesDue_nil (f : Bpmn.SequenceFlow) (flows : List Bpmn.SequenceFlow)
    (element : BpmnElement) : ¬ TakesDue (dueFlows f flows) [] element := by
  unfold TakesDue
  split
  · rintro ⟨flow, -, h⟩
    cases h
  · intro h
    exact dueFlows_ne_nil flows (List.map_eq_nil_iff.mp (List.nil_perm.mp h))

theorem inclusive_takesDue :
    (((before ++ f :: after).filter (enabled env vars)).map (·.targetRef)).Perm
        ((dueFlows f ((before ++ after).filter (enabled env vars))).map (·.targetRef)) ↔
      (f.enabled env vars ↔ (before ++ after).filter (enabled env vars) = []) := by
  have hperm : (before ++ f :: after).filter (enabled env vars) |>.Perm
      ((f :: (before ++ after)).filter (enabled env vars)) :=
    List.perm_middle.filter _
  rw [(hperm.map _).congr_left]
  by_cases hf : f.enabled env vars
  · rw [List.filter_cons_of_pos hf]
    by_cases hothers : (before ++ after).filter (enabled env vars) = []
    · simp [hothers, hf, dueFlows_nil]
    · rw [dueFlows_of_ne_nil hothers]
      refine iff_of_false (fun h => ?_) fun h => hothers (h.mp hf)
      have := h.length_eq
      simp at this
  · rw [List.filter_cons_of_neg hf]
    by_cases hothers : (before ++ after).filter (enabled env vars) = []
    · simp [hothers, hf, dueFlows_nil]
    · rw [dueFlows_of_ne_nil hothers]
      exact iff_of_true (.refl _) ⟨fun h => absurd h hf, fun h => absurd h hothers⟩

theorem enabled_of_shadowed (h : shadowed f flow = true) : flow.enabled env vars = true := by
  obtain ⟨id, source, target, condition⟩ := flow
  cases condition with
  | none => rfl
  | some => cases h

theorem matched_self : matched env vars f f = f.holds env vars := by
  obtain ⟨id, source, target, condition⟩ := f
  cases condition <;> simp [matched, shadowed, holds, enabled]

/-- The enabled flows are those that match and those that are taken for the default. -/
theorem enabled_perm (env : Env) (vars : Variables) (f : Bpmn.SequenceFlow)
    (flows : List Bpmn.SequenceFlow) :
    ((flows.filter (enabled env vars)).map (·.targetRef)).Perm
      (matchedTargets env vars f flows ++
        List.replicate (flows.countP (shadowed f)) f.targetRef) := by
  unfold matchedTargets
  induction flows with
  | nil => exact .refl _
  | cons flow rest ih =>
    by_cases hshadowed : shadowed f flow = true
    · have htarget : flow.targetRef = f.targetRef := by
        simp only [shadowed, Bool.and_eq_true, beq_iff_eq] at hshadowed
        exact hshadowed.2
      rw [List.filter_cons_of_pos (enabled_of_shadowed hshadowed),
        List.filter_cons_of_neg (by simp [matched, hshadowed]), List.countP_cons_of_pos hshadowed,
        List.map_cons, htarget, List.replicate_succ]
      exact (ih.cons _).trans List.perm_middle.symm
    · rw [List.countP_cons_of_neg hshadowed]
      by_cases henabled : flow.enabled env vars
      · rw [List.filter_cons_of_pos henabled,
          List.filter_cons_of_pos (by simp [matched, hshadowed, henabled])]
        exact ih.cons _
      · rw [List.filter_cons_of_neg henabled, List.filter_cons_of_neg (by simp [matched, henabled])]
        exact ih

/-- The default flow of a complex gateway matches only by its own condition. -/
theorem matchedTargets_perm (env : Env) (vars : Variables) (f : Bpmn.SequenceFlow)
    (before after : List Bpmn.SequenceFlow) :
    (matchedTargets env vars f (before ++ f :: after)).Perm
      ((if f.holds env vars then [f.targetRef] else []) ++
      matchedTargets env vars f (before ++ after)) := by
  have hperm : (matchedTargets env vars f (before ++ f :: after)).Perm
      (matchedTargets env vars f (f :: (before ++ after))) := (List.perm_middle.filter _).map _
  refine hperm.trans ?_
  unfold matchedTargets
  by_cases hf : f.holds env vars
  · rw [List.filter_cons_of_pos (by rw [matched_self]; exact hf), if_pos hf]
    exact .refl _
  · rw [List.filter_cons_of_neg (by rw [matched_self]; exact hf), if_neg hf]
    exact .refl _

theorem perm_append_replicate_iff (a : String) (l : List String) (j k : Nat) :
    (List.replicate j a ++ l).Perm (l ++ List.replicate k a) ↔ j = k := by
  refine ⟨fun h => ?_, fun h => h ▸ List.perm_append_comm⟩
  have hlength := h.length_eq
  simp only [List.length_append, List.length_replicate] at hlength
  omega

theorem perm_default_iff {a : String} {targets others due : List String} {taken : Prop}
    [Decidable taken] {k : Nat}
    (htargets : targets.Perm ((if taken then [a] else []) ++ others))
    (hdue : due.Perm (others ++ List.replicate k a)) (hsome : due ≠ []) :
    (if targets.isEmpty then [a] else targets).Perm due ↔
      if taken then k = 1 else k = 0 ∨ k = 1 ∧ due.length = 1 := by
  have hlength := hdue.length_eq
  have hpos := List.length_pos_of_ne_nil hsome
  simp only [List.length_append, List.length_replicate] at hlength
  rw [hdue.congr_right]
  by_cases htaken : taken
  · rw [if_pos htaken] at htargets ⊢
    have hne : ¬ targets.isEmpty = true := by
      intro h
      rw [List.isEmpty_iff.mp h, List.nil_perm] at htargets
      cases htargets
    rw [if_neg hne, htargets.congr_left]
    exact (perm_append_replicate_iff a others 1 k).trans eq_comm
  · rw [if_neg htaken, List.nil_append] at htargets
    rw [if_neg htaken]
    by_cases hothers : others = []
    · subst hothers
      rw [List.perm_nil.mp htargets]
      refine (perm_append_replicate_iff a [] 1 k).trans ?_
      rw [hlength, List.length_nil]
      rw [List.length_nil] at hlength
      omega
    · have hne : ¬ targets.isEmpty = true := by
        simpa using fun h : targets = [] => hothers (List.nil_perm.mp (h ▸ htargets))
      have := List.length_pos_of_ne_nil hothers
      rw [if_neg hne, htargets.congr_left]
      refine (perm_append_replicate_iff a others 0 k).trans ?_
      omega

theorem complex_takesDue (join default : Option String) :
    (if (matchedTargets env vars f (before ++ f :: after)).isEmpty then [f.targetRef]
      else matchedTargets env vars f (before ++ f :: after)).Perm
        ((dueFlows f ((before ++ after).filter (enabled env vars))).map (·.targetRef)) ↔
      DefaultHeeded env vars before f after (.complexGateway join default) := by
  have hmatched := matchedTargets_perm env vars f before after
  have henabled := enabled_perm env vars f (before ++ after)
  have hcount : (before ++ after).countP (enabled env vars) =
      (((before ++ after).filter (enabled env vars)).map (·.targetRef)).length := by
    rw [List.length_map, List.countP_eq_length_filter]
  change _ ↔ (before ++ after).filter (enabled env vars) = [] ∨
    if f.holds env vars then (before ++ after).countP (shadowed f) = 1
    else (before ++ after).countP (shadowed f) = 0 ∨
      (before ++ after).countP (shadowed f) = 1 ∧ (before ++ after).countP (enabled env vars) = 1
  rw [hcount]
  by_cases hnone : (before ++ after).filter (enabled env vars) = []
  · rw [hnone] at henabled ⊢
    obtain ⟨hothers, -⟩ := List.append_eq_nil_iff.mp (List.nil_perm.mp henabled)
    rw [hothers] at hmatched
    refine iff_of_true ?_ (.inl rfl)
    split
    · exact .refl _
    next hsome =>
      split at hmatched
      · exact hmatched
      · exact absurd (List.perm_nil.mp hmatched) (by simpa using hsome)
  · rw [dueFlows_of_ne_nil hnone, or_iff_right hnone]
    exact perm_default_iff hmatched henabled fun h => hnone (List.map_eq_nil_iff.mp h)

theorem isNone_of_enabled (henabled : flow.enabled env vars = true)
    (hholds : ¬ flow.holds env vars = true) : flow.conditionExpression.isNone = true := by
  obtain ⟨id, source, target, condition⟩ := flow
  cases condition with
  | none => rfl
  | some => exact absurd henabled hholds

theorem enabled_of_holds (h : flow.holds env vars = true) : flow.enabled env vars = true := by
  obtain ⟨id, source, target, condition⟩ := flow
  cases condition with
  | none => cases h
  | some => exact h

theorem enabled_of_isNone (h : flow.conditionExpression.isNone = true) :
    flow.enabled env vars = true := by
  obtain ⟨id, source, target, condition⟩ := flow
  cases condition with
  | none => rfl
  | some => cases h

theorem mem_filter_enabled (hmem : flow ∈ before ++ f :: after) (hne : flow ≠ f)
    (henabled : flow.enabled env vars) : flow ∈ (before ++ after).filter (enabled env vars) := by
  refine List.mem_filter.mpr ⟨?_, henabled⟩
  simp only [List.mem_append, List.mem_cons] at hmem ⊢
  tauto

theorem chosen_of_holds (hfirst : (before ++ f :: after).find? (holds env vars) = some flow)
    (hmem : flow ∈ before ++ after) :
    ∃ flow ∈ (before ++ after).filter (enabled env vars),
      (chosen env vars f (before ++ f :: after)).targetRef = flow.targetRef := by
  rw [chosen, hfirst]
  exact ⟨flow, List.mem_filter.mpr ⟨hmem, enabled_of_holds (List.find?_some hfirst)⟩, rfl⟩

/-- Without a true condition an exclusive gateway goes where an enabled flow leads. -/
theorem chosen_of_not_holds (hnone : (before ++ f :: after).find? (holds env vars) = none)
    (hsome : (before ++ after).filter (enabled env vars) ≠ []) :
    ∃ flow ∈ (before ++ after).filter (enabled env vars),
      (chosen env vars f (before ++ f :: after)).targetRef = flow.targetRef := by
  rw [chosen, hnone, Option.none_or]
  cases hfree : (before ++ f :: after).find? fun flow =>
      flow.conditionExpression.isNone && !shadowed f flow with
  | some flow =>
    have hflow := List.find?_some hfree
    simp only [Bool.and_eq_true, Bool.not_eq_true'] at hflow
    refine ⟨flow, mem_filter_enabled (List.mem_of_find?_eq_some hfree) ?_
      (enabled_of_isNone hflow.1), rfl⟩
    rintro rfl
    simp [shadowed, hflow.1] at hflow
  | none =>
    obtain ⟨flow, hmem⟩ := List.exists_mem_of_ne_nil _ hsome
    have hall : flow ∈ before ++ f :: after := by
      have := (List.mem_filter.mp hmem).1
      simp only [List.mem_append, List.mem_cons] at this ⊢
      tauto
    have hisNone := isNone_of_enabled (List.mem_filter.mp hmem).2
      (List.find?_eq_none.mp hnone flow hall)
    have hshadowed := List.find?_eq_none.mp hfree flow hall
    refine ⟨flow, hmem, ?_⟩
    simp only [shadowed, hisNone, Bool.true_and, beq_iff_eq, Bool.not_eq_true',
      Bool.not_eq_false] at hshadowed
    exact hshadowed.symm

theorem chosen_of_filter_eq_nil (hothers : (before ++ after).filter (enabled env vars) = []) :
    chosen env vars f (before ++ f :: after) = f := by
  have honly {flow : Bpmn.SequenceFlow} (hmem : flow ∈ before ++ f :: after)
      (henabled : flow.enabled env vars = true) : flow = f := by
    by_contra hne
    exact List.not_mem_nil (hothers ▸ mem_filter_enabled hmem hne henabled)
  rw [chosen]
  cases hfirst : (before ++ f :: after).find? (holds env vars) with
  | some =>
    exact honly (List.mem_of_find?_eq_some hfirst) (enabled_of_holds (List.find?_some hfirst))
  | none =>
    cases hfree : (before ++ f :: after).find? fun flow =>
        flow.conditionExpression.isNone && !shadowed f flow with
    | none => rfl
    | some flow =>
      have hflow := List.find?_some hfree
      simp only [Bool.and_eq_true] at hflow
      exact honly (List.mem_of_find?_eq_some hfree) (enabled_of_isNone hflow.1)

theorem exclusive_takesDue (default : Option String) :
    (∃ flow ∈ dueFlows f ((before ++ after).filter (enabled env vars)),
        [(chosen env vars f (before ++ f :: after)).targetRef] = [flow.targetRef]) ↔
      DefaultHeeded env vars before f after (.exclusiveGateway default) := by
  simp only [List.cons.injEq, and_true]
  by_cases hothers : (before ++ after).filter (enabled env vars) = []
  · rw [hothers, dueFlows_nil, chosen_of_filter_eq_nil hothers]
    exact iff_of_true ⟨f, List.mem_singleton_self f, rfl⟩ (.inl hothers)
  rw [dueFlows_of_ne_nil hothers]
  cases hfirst : (before ++ f :: after).find? (holds env vars) with
  | none =>
    have hf := List.find?_eq_none.mp hfirst f (by simp)
    exact iff_of_true (chosen_of_not_holds hfirst hothers) (.inr (.inl hf))
  | some flow =>
    have hfound := hfirst
    rw [List.find?_append, Option.or_eq_some_iff] at hfound
    rcases hfound with hearlier | ⟨hnone, hfound⟩
    · have hmem := List.mem_of_find?_eq_some hearlier
      exact iff_of_true (chosen_of_holds hfirst (List.mem_append_left _ hmem))
        (.inr (.inr (.inl ⟨flow, hmem, List.find?_some hfirst⟩)))
    · by_cases hf : f.holds env vars
      · rw [List.find?_cons_of_pos hf, Option.some.injEq] at hfound
        subst hfound
        rw [chosen, hfirst]
        change (∃ flow ∈ (before ++ after).filter (enabled env vars),
          f.targetRef = flow.targetRef) ↔ _ = [] ∨ ¬ _ ∨ _ ∨ _
        rw [or_iff_right hothers, or_iff_right (not_not_intro hf), or_iff_right]
        · simp only [List.mem_filter, and_assoc, eq_comm]
        · rintro ⟨flow, hmem, hholds⟩
          exact List.find?_eq_none.mp hnone flow hmem hholds
      · rw [List.find?_cons_of_neg hf] at hfound
        exact iff_of_true (chosen_of_holds hfirst
          (List.mem_append_right _ (List.mem_of_find?_eq_some hfound))) (.inr (.inl hf))

end Targets

/-! ## The step of a token at a gateway -/

variable {env : Env} {d : ProcessDefinition} {node : String} {token t : Token} {i : Uuid}
  {targets : List String}

theorem exec_newToken (target : String) (vars : Variables) (e : Engine) :
    exec (newToken target vars) e =
      (.ok (Token.withVariables e.nextUuid target vars), { e with nextUuid := e.nextUuid + 1 }) :=
  rfl

theorem exec_forkTokens (targets : List String) (vars : Variables) (e : Engine) :
    ∃ tokens e', exec (forkTokens targets vars) e = (.ok tokens, e') ∧
      tokens.map (·.currentNode) = targets ∧ e'.instances = e.instances := by
  induction targets generalizing e with
  | nil => exact ⟨[], e, rfl, rfl, rfl⟩
  | cons target rest ih =>
    obtain ⟨tokens, e', hexec, htargets, hinstances⟩ := ih { e with nextUuid := e.nextUuid + 1 }
    refine ⟨Token.withVariables e.nextUuid target vars :: tokens, e', ?_, ?_, hinstances⟩
    · rw [forkTokens] at hexec ⊢
      rw [List.mapM_cons, exec_bind_ok (exec_newToken target vars e), exec_bind_ok hexec]
      rfl
    · rw [List.map_cons, htargets]
      rfl

theorem exec_setCurrentNode (node : String) (hi : (e.instances.find? i).isSome) :
    ∃ e', exec (setCurrentNode i node) e = (.ok (), e') ∧ (e'.instances.find? i).isSome := by
  obtain ⟨x, hx⟩ := Option.isSome_iff_exists.mp hi
  refine ⟨_, exec_updateInstance hx _, ?_⟩
  rw [Engine.find?_modifyInstance_self, hx]
  rfl

theorem runEndScripts_leaves (hend : Scripting.runEndScripts env token d node = .ok t)
    (hi : (e.instances.find? i).isSome) :
    ∃ e', exec (runEndScripts env i token d node) e = (.ok t, e') ∧
      (e'.instances.find? i).isSome := by
  obtain ⟨x, hx⟩ := Option.isSome_iff_exists.mp hi
  refine ⟨_, exec_runEndScripts_ok hx hend, ?_⟩
  rw [Engine.find?_modifyInstance_self, hx]
  rfl

theorem Sends.pure {action : NextAction} (htargets : action.sent.map (·.currentNode) = targets)
    (hsome : targets ≠ []) : Sends i (pure action) targets :=
  fun e hi => .inr ⟨action, e, rfl, htargets, hsome, hi⟩

theorem Sends.throw (error : EngineError) : Sends i (throw error) [] :=
  fun e _ => .inl ⟨rfl, error, e, rfl⟩

theorem Sends.after {α : Type} {m : Eng α} {k : α → Eng NextAction} {a : α}
    (hm : ∀ e : Engine, (e.instances.find? i).isSome →
      ∃ e', exec m e = (.ok a, e') ∧ (e'.instances.find? i).isSome)
    (hk : Sends i (k a) targets) : Sends i (m >>= k) targets := by
  intro e hi
  obtain ⟨e', hexec, hi⟩ := hm e hi
  rw [exec_bind_ok hexec]
  exact hk e' hi

theorem Sends.noted {k : NextAction → Eng NextAction} (hm : Sends i m targets)
    (hk : ∀ (action : NextAction) (e : Engine), (e.instances.find? i).isSome →
      ∃ e', exec (k action) e = (.ok action, e') ∧ (e'.instances.find? i).isSome) :
    Sends i (m >>= k) targets := by
  intro e hi
  rcases hm e hi with ⟨hnone, error, e', hexec⟩ | ⟨action, e', hexec, htargets, hsome, hi⟩
  · exact .inl ⟨hnone, error, e', exec_bind_error hexec⟩
  · obtain ⟨e'', hexec', hi⟩ := hk action e' hi
    exact .inr ⟨action, e'', (exec_bind_ok hexec).trans hexec', htargets, hsome, hi⟩

theorem forkOrContinue_sends (hsome : targets ≠ []) :
    Sends i (forkOrContinue token targets) targets := by
  unfold forkOrContinue
  split
  · exact .pure rfl hsome
  · intro e hi
    obtain ⟨tokens, e', hexec, htargets, hinstances⟩ := exec_forkTokens targets token.vars e
    refine .inr ⟨.continueMultiple tokens, e', ?_, htargets, hsome, hinstances ▸ hi⟩
    rw [exec_bind_ok hexec]
    rfl

theorem noteFork_notes (action : NextAction) (e : Engine) (hi : (e.instances.find? i).isSome) :
    ∃ e', exec (noteFork i node action) e = (.ok action, e') ∧ (e'.instances.find? i).isSome := by
  cases action with
  | continueMultiple =>
    obtain ⟨e', hexec, hi⟩ := exec_setCurrentNode node hi
    refine ⟨e', ?_, hi⟩
    rw [noteFork, exec_bind_ok hexec]
    rfl
  | _ => exact ⟨e, rfl, hi⟩

theorem handleExclusiveGateway_sends (default : Option String)
    (hend : Scripting.runEndScripts env token d node = .ok t) :
    Sends i (handleExclusiveGateway env i token d node default)
      (gatewayTargets env d node t.vars (.exclusiveGateway default)) := by
  refine .after (fun e hi => runEndScripts_leaves hend hi) ?_
  rw [gatewayTargets, executeExclusiveGateway]
  cases exclusiveTarget env d node t.vars default with
  | none => exact .throw _
  | some =>
    exact .after (fun e hi => ⟨e, rfl, hi⟩) (.after (fun e hi => exec_setCurrentNode _ hi)
      (.pure rfl (List.cons_ne_nil _ _)))

theorem handleInclusiveGateway_sends (hend : Scripting.runEndScripts env token d node = .ok t)
    (hsplit : d.incomingFlowCount node < 2 ∨ t.isMerged) :
    Sends i (handleInclusiveGateway env i token d node)
      (gatewayTargets env d node t.vars .inclusiveGateway) := by
  refine .after (fun e hi => runEndScripts_leaves hend hi) (.noted ?_ noteFork_notes)
  rw [executeInclusiveGateway, if_neg (by grind)]
  change Sends i (if _ then _ else _)
    (((d.nextNodes node).filter (ProcessDefinition.flowMatches env t.vars)).map (·.target))
  split
  next hnone =>
    rw [List.isEmpty_iff.mp hnone]
    exact .throw _
  next hsome => exact forkOrContinue_sends (by simpa using hsome)

theorem handleComplexGateway_sends (join : Option String) {default : Option String}
    (hend : Scripting.runEndScripts env token d node = .ok t)
    (hsplit : d.incomingFlowCount node < 2 ∨ t.isMerged) :
    Sends i (handleComplexGateway env i token d node default)
      (gatewayTargets env d node t.vars (.complexGateway join default)) := by
  refine .after (fun e hi => runEndScripts_leaves hend hi) (.noted ?_ fun action e hi => ?_)
  · rw [executeComplexGateway, if_neg (by grind), gatewayTargets]
    dsimp only
    generalize ((d.nextNodes node).filter _).map _ = targets
    split
    · exact .throw _
    · exact forkOrContinue_sends (List.cons_ne_nil _ _)
    next hthrow hdefault =>
      cases targets with
      | nil => cases default with
        | none => exact absurd rfl (hthrow rfl)
        | some target => exact absurd rfl (hdefault target rfl)
      | cons => exact forkOrContinue_sends (List.cons_ne_nil _ _)
  · cases action with
    | continueMultiple =>
      obtain ⟨e', hexec, hi⟩ := exec_setCurrentNode node hi
      exact ⟨e', exec_bind_ok hexec, hi⟩
    | «continue» next =>
      obtain ⟨e', hexec, hi⟩ := exec_setCurrentNode next.currentNode hi
      exact ⟨e', exec_bind_ok hexec, hi⟩
    | _ => exact ⟨e, rfl, hi⟩

theorem executeStep_takesDue {element : BpmnElement} {f : Bpmn.SequenceFlow} (hrun : e.Runs i d)
    (hnode : d.getNode token.currentNode = some element) (hstart : token.entered env d = .ok t)
    (hdispatch : dispatch env i t d token.currentNode element = StepOutcome.action <$> m)
    (hm : Sends i m targets) :
    (∃ action e', exec (executeStep env i token) e = (.ok (.action action), e') ∧
      TakesDue (dueFlows f flows) (action.sent.map (·.currentNode)) element) ↔
        TakesDue (dueFlows f flows) targets element := by
  obtain ⟨x, hx, hd⟩ := hrun
  have hi : ((e.noteEntry i d token.currentNode t).instances.find? i).isSome := by
    unfold Engine.noteEntry
    split
    · rw [Engine.find?_modifyInstance_self, hx]
      rfl
    · rw [hx]
      rfl
  have hstep : exec (executeStep env i token) e =
      exec (StepOutcome.action <$> m) (e.noteEntry i d token.currentNode t) := by
    rw [executeStep, exec_bind_ok (exec_definitionOf hx hd), hnode, ← hdispatch]
    exact Config.exec_executeNode hstart
  rw [hstep, map_eq_pure_bind]
  rcases hm _ hi with ⟨rfl, error, e', hexec⟩ | ⟨action, e', hexec, rfl, -, -⟩
  · rw [exec_bind_error hexec]
    refine iff_of_false ?_ (not_takesDue_nil f flows element)
    rintro ⟨_, _, h, _⟩
    cases h
  · rw [exec_bind_ok hexec]
    refine ⟨?_, fun h => ⟨action, e', rfl, h⟩⟩
    rintro ⟨action, e', heq, h⟩
    cases heq
    exact h

end Eng

/-! ## The rule for default flows -/

/-- In every accepted document and every state of the engine, the step of a token that leaves a
gateway with a default flow keeps the rule exactly if the flows of the gateway allow it. -/
theorem default_flow_taken_iff {parserEnv : ParserEnv} {defs : Bpmn.Definitions}
    {process : Bpmn.Process} {d d' : ProcessDefinition} {s : Bpmn.Scope} {element : BpmnElement}
    {f : Bpmn.SequenceFlow} {before after : List Bpmn.SequenceFlow} {token entered t : Token}
    (hcompile : Parser.compileProcess parserEnv defs process = .ok d) (hdeploy : d.SameGraph d')
    (hhas : process.Has token.currentNode s) (hids : (s.sequenceFlows.map (·.id)).Nodup)
    (hgateway : Parser.DefaultAt s f token.currentNode element)
    (hflows : Parser.outgoing s.sequenceFlows token.currentNode = before ++ f :: after)
    {env : Env} {i : Uuid} {e : Engine} (hrun : e.Runs i d')
    (hstart : token.entered env d' = .ok entered)
    (hend : Scripting.runEndScripts env entered d' token.currentNode = .ok t)
    (hsplit : d'.Splits token element) :
    (∃ action e', exec (Eng.executeStep env i token) e = (.ok (.action action), e') ∧
        TakesDue (dueFlows f ((before ++ after).filter (enabled env t.vars)))
          (action.sent.map (·.currentNode)) element) ↔
      DefaultHeeded env t.vars before f after element := by
  have hf : f ∈ s.sequenceFlows := by
    have hmem : f ∈ Parser.outgoing s.sequenceFlows token.currentNode := hflows ▸ by simp
    exact List.mem_of_mem_filter hmem
  obtain ⟨hnode, hnext⟩ := Parser.compileProcess_gateway hhas hgateway hf hids d hcompile
  rw [hflows] at hnext
  have hnode' : d'.getNode token.currentNode = some element := by
    rw [ProcessDefinition.getNode, hdeploy.nodes]
    exact hnode
  have hnext' : d'.nextNodes token.currentNode =
      (before ++ f :: after).map Parser.compiledFlow := by
    rw [ProcessDefinition.nextNodes, hdeploy.flows]
    exact hnext
  have hmerged : t.isMerged = token.isMerged :=
    ((Token.entered_same hstart).trans (Scripting.runEndScripts_same hend)).isMerged
  generalize token.currentNode = n at hgateway
  cases hgateway with
  | exclusive =>
    rw [Eng.executeStep_takesDue hrun hnode' hstart rfl (Eng.handleExclusiveGateway_sends _ hend),
      Eng.exclusive_targets hnext']
    exact Eng.exclusive_takesDue _
  | inclusive =>
    rw [Eng.executeStep_takesDue hrun hnode' hstart rfl
      (Eng.handleInclusiveGateway_sends hend (hmerged ▸ hsplit)), Eng.inclusive_targets hnext']
    exact Eng.inclusive_takesDue
  | complex =>
    rw [Eng.executeStep_takesDue hrun hnode' hstart rfl
      (Eng.handleComplexGateway_sends none hend (hmerged ▸ hsplit)), Eng.complex_targets hnext']
    exact Eng.complex_takesDue _ _

/-! ## A shipment -/

def packed : Bpmn.SequenceFlow := ⟨"packed", "route", "pack", none⟩

def express : Bpmn.SequenceFlow := ⟨"express", "route", "ship", some "express"⟩

def insured : Bpmn.SequenceFlow := ⟨"insured", "route", "pack", none⟩

/-- Further flows may leave the gateway. -/
def shipment (more : List Bpmn.SequenceFlow) : Bpmn.Process where
  id := "shipment"
  scope :=
    { startEvents := [{ id := "start" }]
      endEvents := [{ id := "end" }]
      userTasks := [{ id := "pack" }, { id := "ship" }]
      complexGateways := [{ id := "route", default := some "packed" }]
      sequenceFlows := [⟨"begin", "start", "route", none⟩, packed, express] ++ more ++
        [⟨"packs", "pack", "end", none⟩, ⟨"ships", "ship", "end", none⟩] }

def atRoute : Token := ⟨2, "route", ∅, false, none⟩

def shipmentAtRoute (d : ProcessDefinition) : Engine :=
  { Engine.new 0 with
    definitions := (∅ : Table ProcessDefinition.key).insert d
    instances := (∅ : Table ProcessInstance.id).insert
      (ProcessInstance.initial 2 d.key "" none "route" ∅)
    nextUuid := 3 }

def shipmentLeaves (more : List Bpmn.SequenceFlow) : Option (List String) :=
  match Parser.compileProcess .plain { processes := [shipment more] } (shipment more) with
  | .error _ => none
  | .ok d =>
    if atRoute.entered .plain d = .ok atRoute ∧
        Scripting.runEndScripts .plain atRoute d "route" = .ok atRoute ∧
        d.incomingFlowCount "route" < 2 then
      some (stepTargets (exec (Eng.executeStep .plain 2 atRoute) (shipmentAtRoute d)).1)
    else none

theorem shipmentLeaves_eq_some (more : List Bpmn.SequenceFlow) {targets : List String}
    (h : shipmentLeaves more = some targets) :
    ∃ d, Parser.compileProcess .plain { processes := [shipment more] } (shipment more) = .ok d ∧
      (shipmentAtRoute d).Runs 2 d ∧ atRoute.entered .plain d = .ok atRoute ∧
      Scripting.runEndScripts .plain atRoute d "route" = .ok atRoute ∧
      d.incomingFlowCount "route" < 2 ∧
      stepTargets (exec (Eng.executeStep .plain 2 atRoute) (shipmentAtRoute d)).1 = targets := by
  unfold shipmentLeaves at h
  split at h
  · cases h
  next d hd =>
    split at h
    next hready =>
      cases h
      exact ⟨d, hd, ⟨_, rfl, Table.find?_insert_self _ _⟩, hready.1, hready.2.1, hready.2.2, rfl⟩
    · cases h

theorem express_shipped :
    ∃ d, Parser.compileProcess .plain { processes := [shipment []] } (shipment []) = .ok d ∧
      ∃ action e', exec (Eng.executeStep .plain 2 atRoute) (shipmentAtRoute d) =
          (.ok (.action action), e') ∧
        (action.sent.map (·.currentNode)).Perm ["ship"] := by
  obtain ⟨d, hd, hrun, hstart, hend, hsplit, -⟩ :=
    shipmentLeaves_eq_some [] (by decide +kernel : shipmentLeaves [] = some ["ship"])
  refine ⟨d, hd, ?_⟩
  have hgateway : Parser.DefaultAt (shipment []).scope packed "route"
      (.complexGateway none (some "pack")) :=
    @Parser.DefaultAt.complex _ _ { id := "route", default := some "packed" } List.mem_cons_self rfl
  have hhas : (shipment []).Has "route" (shipment []).scope :=
    ⟨by decide, .inl ⟨rfl, fun subProcess hin => by cases hin <;> contradiction⟩⟩
  have hflows : Parser.outgoing (shipment []).scope.sequenceFlows "route" =
      [] ++ packed :: [express] := rfl
  have hsplits : d.Splits atRoute (.complexGateway none (some "pack")) := .inl hsplit
  have hheeded : DefaultHeeded .plain ∅ [] packed [express] (.complexGateway none (some "pack")) :=
    .inr (by decide)
  exact (default_flow_taken_iff hd ⟨rfl, rfl⟩ hhas (by decide) hgateway hflows hrun hstart hend
    hsplits).mpr hheeded

/-- An insured shipment is packed as well, but this flow is not taken. -/
theorem insured_not_packed :
    ∃ d, Parser.compileProcess .plain { processes := [shipment [insured]] } (shipment [insured]) =
        .ok d ∧
      (shipmentAtRoute d).Runs 2 d ∧
      stepTargets (exec (Eng.executeStep .plain 2 atRoute) (shipmentAtRoute d)).1 = ["ship"] ∧
      (dueFlows packed ([express, insured].filter (enabled .plain atRoute.vars))).map
        (·.targetRef) =
        ["ship", "pack"] ∧
      ¬ TakesDue (dueFlows packed ([express, insured].filter (enabled .plain atRoute.vars)))
        (stepTargets (exec (Eng.executeStep .plain 2 atRoute) (shipmentAtRoute d)).1)
        (.complexGateway none (some "pack")) := by
  obtain ⟨d, hd, hrun, -, -, -, htargets⟩ := shipmentLeaves_eq_some [insured]
    (by decide +kernel : shipmentLeaves [insured] = some ["ship"])
  refine ⟨d, hd, hrun, htargets, by decide, ?_⟩
  rw [htargets]
  change ¬ List.Perm _ _
  decide

end BpmnEngine
