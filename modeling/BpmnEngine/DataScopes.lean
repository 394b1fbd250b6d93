import BpmnEngine.ActivityData

/-!
# The laws of data scopes

Entering an activity with data mappings opens a scope on the token: its inputs are laid
over the variables under local names, and the variables from before are kept. Whatever
happens to the variables inside, leaving either puts the local names back and keeps the
rest, or, if the activity has outputs, forgets everything but them. A multi-instance
service task opens no scope: its items share one token, and inputs and outputs belong to
the items.
-/
namespace BpmnEngine

/-! ## Restoring names -/

namespace Token

variable {t : Token} {scope : DataScope}

/-- Puts one name back to its outer value. -/
def restoreName (outer vars : Variables) (name : String) : Variables :=
  match outer.get? name with
  | some value => vars.set name value
  | none => vars.erase name

theorem get?_restoreName_self (outer vars : Variables) (name : String) :
    (restoreName outer vars name).get? name = outer.get? name := by
  unfold restoreName
  split
  case h_1 value h => rw [Map.get?_set_self, h]
  case h_2 h => rw [Map.get?_erase_self, h]

theorem get?_restoreName_of_ne {outer vars : Variables} {name other : String} (h : other ≠ name) :
    (restoreName outer vars name).get? other = vars.get? other := by
  unfold restoreName
  split
  · exact Map.get?_set_of_ne h
  · exact Map.get?_erase_of_ne h

theorem get?_foldl_restoreName (outer : Variables) (names : List String) (vars : Variables)
    (name : String) :
    (names.foldl (restoreName outer) vars).get? name =
      if name ∈ names then outer.get? name else vars.get? name := by
  induction names generalizing vars with
  | nil => rfl
  | cons first rest ih =>
    rw [List.foldl_cons, ih]
    by_cases hrest : name ∈ rest
    · rw [if_pos hrest, if_pos (List.mem_cons_of_mem first hrest)]
    · rw [if_neg hrest]
      by_cases hfirst : name = first
      · subst hfirst
        rw [if_pos List.mem_cons_self, get?_restoreName_self]
      · rw [if_neg (List.not_mem_cons_of_ne_of_not_mem hfirst hrest), get?_restoreName_of_ne hfirst]

theorem get?_processVariables (h : t.dataScope = some scope) (name : String) :
    t.processVariables.get? name =
      if name ∈ scope.localNames then scope.originalVariables.get? name else t.vars.get? name := by
  rw [processVariables, h]
  exact get?_foldl_restoreName scope.originalVariables scope.localNames t.vars name

def outerVariables (t : Token) : Variables := t.discardDataScope.vars

theorem outerVariables_of_scope (h : t.dataScope = some scope) :
    t.outerVariables = scope.originalVariables := by
  rw [outerVariables, discardDataScope, h]

theorem outerVariables_of_none (h : t.dataScope = none) : t.outerVariables = t.vars := by
  rw [outerVariables, discardDataScope, h]

theorem dataScope_discardDataScope (t : Token) : t.discardDataScope.dataScope = none := by
  unfold discardDataScope
  split
  · assumption
  · rfl

def Inside (t : Token) (node : String) : Prop :=
  ∃ scope, t.dataScope = some scope ∧ scope.nodeId = node

end Token

/-! ## Targets of mappings -/

theorem Map.mem_keys_set {κ β : Type} [DecidableEq κ] {m : Map κ β} {k l : κ} {v : β} :
    l ∈ (m.set k v).keys ↔ l = k ∨ l ∈ m.keys := by
  simp only [Map.keys, List.mem_map, ← Table.mem_def, Map.mem_set]
  constructor
  · rintro ⟨p, rfl | ⟨hp, _⟩, rfl⟩
    · exact .inl rfl
    · exact .inr ⟨p, hp, rfl⟩
  · rintro (rfl | ⟨p, hp, rfl⟩)
    · exact ⟨(l, v), .inl rfl, rfl⟩
    · by_cases h : p.1 = k
      · exact ⟨(k, v), .inl rfl, h.symm⟩
      · exact ⟨p, .inr ⟨hp, h⟩, rfl⟩

theorem Map.get?_eq_none_iff {κ β : Type} [DecidableEq κ] {m : Map κ β} {k : κ} :
    m.get? k = none ↔ k ∉ m.keys := by
  rw [← Option.not_isSome_iff_eq_none, not_iff_not, Option.isSome_iff_exists]
  simp only [Map.get?_eq_some_iff, Map.keys, List.mem_map, ← Table.mem_def, Prod.exists,
    exists_eq_right, exists_and_right]

theorem mem_keys_evaluateMappings {mappings : List DataMapping} {source result : Variables}
    (h : evaluateMappings mappings source = .ok result) (name : String) :
    name ∈ result.keys ↔ name ∈ mappings.map DataMapping.target := by
  -- the induction is over the mappings that are left, from whatever the earlier ones gave
  suffices hfrom : ∀ (mappings : List DataMapping) (acc : Variables),
      mappings.foldlM (fun (result : Variables) mapping => do
        if (trimmed mapping.target).isEmpty || result.contains mapping.target then
          throw (.dataMappingError s!"Data mapping: empty or duplicate target '{mapping.target}'")
        return result.set mapping.target (← mapping.value.evaluate source)) acc =
          (.ok result : EngineResult Variables) →
      (name ∈ result.keys ↔ name ∈ acc.keys ∨ name ∈ mappings.map DataMapping.target) by
    have hempty : name ∉ (∅ : Variables).keys := List.not_mem_nil
    simpa [hempty] using hfrom mappings ∅ h
  intro mappings
  induction mappings with
  | nil =>
    intro acc h
    cases h
    simp
  | cons first rest ih =>
    intro acc h
    rw [List.foldlM_cons] at h
    simp only [bind, Except.bind] at h
    split at h
    · cases h
    case h_2 next hnext =>
      obtain ⟨value, rfl⟩ : ∃ value, next = acc.set first.target value := by
        split at hnext
        · cases hnext
        · split at hnext
          · cases hnext
          case h_2 value _ =>
            cases hnext
            exact ⟨value, rfl⟩
      rw [ih _ h, Map.mem_keys_set, List.map_cons, List.mem_cons]
      tauto

/-! ## Entering and leaving -/

def ProcessDefinition.localInputs (d : ProcessDefinition) (node : String) : List DataMapping :=
  if d.isMultiInstanceService node then []
  else ((d.dataMappings.get? node).map ActivityMappings.inputs).getD []

namespace DataMappings

variable {d : ProcessDefinition} {node : String} {t t' : Token} {mappings : ActivityMappings}

theorem enter_of_inside (h : t.Inside node) : enter t d node = .ok t := by
  obtain ⟨scope, hscope, hnode⟩ := h
  unfold enter
  rw [hscope]
  simp only [hnode, ne_eq, not_true_eq_false, if_false, hscope, Option.isSome_some, Bool.true_or,
    if_true]
  rfl

theorem enter_of_outside (h : ¬t.Inside node) :
    enter t d node = enter t.discardDataScope d node := by
  cases hscope : t.dataScope with
  | none => rw [Token.discardDataScope, hscope]
  | some scope =>
    have hnode : scope.nodeId ≠ node := fun hnode => h ⟨scope, hscope, hnode⟩
    have hnone := t.dataScope_discardDataScope
    unfold enter
    simp only [hscope, hnone, ne_eq, hnode, not_false_eq_true, if_true]

theorem enter_opens (hnone : t.dataScope = none) (hservice : d.isMultiInstanceService node = false)
    (hmappings : d.dataMappings.get? node = some mappings) :
    enter t d node = (evaluateMappings mappings.inputs t.vars).map fun inputs =>
      { t with
        dataScope := some ⟨node, t.vars, inputs.keys⟩
        vars := t.vars.extend inputs } := by
  unfold enter
  simp only [hnone, hservice, hmappings, Option.isSome_none, Bool.or_self, Bool.false_eq_true,
    if_false, bind, Except.bind]
  cases evaluateMappings mappings.inputs t.vars <;> rfl

/-- Without a scope, an activity without mappings and a multi-instance service task leave the token
alone. -/
theorem enter_passes (hnone : t.dataScope = none)
    (h : d.isMultiInstanceService node = true ∨ d.dataMappings.get? node = none) :
    enter t d node = .ok t := by
  unfold enter
  rcases h with h | h
  · simp only [hnone, h, Bool.or_true, if_true]
    rfl
  · simp only [hnone, h, Option.isSome_none, Bool.false_or]
    split <;> rfl

theorem leave_of_none (h : t.dataScope = none) : leave t d node = .ok t := by
  unfold leave
  rw [h]
  rfl

theorem leave_of_inside {scope : DataScope} (hscope : t.dataScope = some scope)
    (hnode : scope.nodeId = node) (hmappings : d.dataMappings.get? node = some mappings) :
    leave t d node = (evaluateMappings mappings.outputs t.vars).map fun outputs =>
      { t with
        vars := (if mappings.outputs.isEmpty then t.processVariables
          else scope.originalVariables).extend outputs
        dataScope := none } := by
  unfold leave
  simp only [hscope, hnode, ne_eq, not_true_eq_false, if_false, hmappings, bind, Except.bind]
  cases evaluateMappings mappings.outputs t.vars <;> rfl

/-- How a token enters an activity: it is in its scope already, it finds no mappings, or a scope is
opened. -/
inductive Enters (d : ProcessDefinition) (node : String) (t : Token) : Token → Prop where
  | inside (h : t.Inside node) : Enters d node t t
  | passes (h : d.isMultiInstanceService node = true ∨ d.dataMappings.get? node = none) :
      Enters d node t t.discardDataScope
  | opens {mappings : ActivityMappings} {inputs : Variables}
      (hservice : d.isMultiInstanceService node = false)
      (hmappings : d.dataMappings.get? node = some mappings)
      (hinputs : evaluateMappings mappings.inputs t.outerVariables = .ok inputs) :
      Enters d node t { t.discardDataScope with
        dataScope := some ⟨node, t.outerVariables, inputs.keys⟩
        vars := t.outerVariables.extend inputs }

theorem enters (h : enter t d node = .ok t') : Enters d node t t' := by
  by_cases hinside : t.Inside node
  · rw [enter_of_inside hinside] at h
    cases h
    exact .inside hinside
  have hnone := t.dataScope_discardDataScope
  rw [enter_of_outside hinside] at h
  by_cases hpasses : d.isMultiInstanceService node = true ∨ d.dataMappings.get? node = none
  · rw [enter_passes hnone hpasses] at h
    cases h
    exact .passes hpasses
  · obtain ⟨hservice, hsome⟩ := not_or.mp hpasses
    obtain ⟨mappings, hmappings⟩ := Option.ne_none_iff_exists'.mp hsome
    have hservice := Bool.eq_false_iff.mpr hservice
    rw [enter_opens hnone hservice hmappings] at h
    cases hinputs : evaluateMappings mappings.inputs t.discardDataScope.vars with
    | error => rw [hinputs] at h; cases h
    | ok =>
      rw [hinputs] at h
      cases h
      exact .opens hservice hmappings hinputs

/-- After entering, the token is in the scope of the activity, and its outer variables are those
from before. -/
theorem enter_scope (hservice : d.isMultiInstanceService node = false)
    (hmappings : d.dataMappings.get? node = some mappings) (h : enter t d node = .ok t') :
    ∃ scope, t'.dataScope = some scope ∧ scope.nodeId = node ∧
      scope.originalVariables = t.outerVariables ∧
      (¬t.Inside node → ∀ name, name ∈ scope.localNames ↔
        name ∈ mappings.inputs.map DataMapping.target) := by
  cases enters h with
  | inside hinside =>
    obtain ⟨scope, hscope, hnode⟩ := hinside
    exact ⟨scope, hscope, hnode, (Token.outerVariables_of_scope hscope).symm,
      fun houtside => absurd ⟨scope, hscope, hnode⟩ houtside⟩
  | passes hpasses => simp [hservice, hmappings] at hpasses
  | opens _ hmappings' hinputs =>
    cases hmappings.symm.trans hmappings'
    exact ⟨_, rfl, rfl, rfl, fun _ name => mem_keys_evaluateMappings hinputs name⟩

/-- A token from outside has the outer variables with the inputs of the node laid over them, which
are its local names. -/
theorem get?_vars_enter (h : enter t d node = .ok t') (houtside : ¬t.Inside node) :
    ∃ inputs, evaluateMappings (d.localInputs node) t.outerVariables = .ok inputs ∧
      (∀ name, t'.vars.get? name = (inputs.get? name).or (t.outerVariables.get? name)) ∧
      ∀ name, inputs.get? name ≠ none →
        ∃ scope, t'.dataScope = some scope ∧ name ∈ scope.localNames := by
  cases enters h with
  | inside hinside => exact absurd hinside houtside
  | passes hpasses =>
    have hlocal : d.localInputs node = [] := by
      rcases hpasses with hservice | hmappings
      · rw [ProcessDefinition.localInputs, hservice]
        rfl
      · rw [ProcessDefinition.localInputs, hmappings]
        exact ite_self _
    exact ⟨∅, by rw [hlocal]; rfl, fun name => rfl, fun name hname => absurd rfl hname⟩
  | @opens mappings inputs hservice hmappings hinputs =>
    have hlocal : d.localInputs node = mappings.inputs := by
      rw [ProcessDefinition.localInputs, hservice, hmappings]
      rfl
    refine ⟨inputs, by rw [hlocal]; exact hinputs, fun name => Map.get?_extend _ _ name,
      fun name hname => ⟨_, rfl, ?_⟩⟩
    simpa [Map.get?_eq_none_iff] using hname

theorem outerVariables_enter (h : enter t d node = .ok t') :
    t'.outerVariables = t.outerVariables := by
  cases enters h with
  | inside | opens => rfl
  | passes => exact Token.outerVariables_of_none t.dataScope_discardDataScope

theorem enter_idem (h : enter t d node = .ok t') : enter t' d node = .ok t' := by
  cases enters h with
  | inside => exact h
  | passes hpasses => exact enter_passes t.dataScope_discardDataScope hpasses
  | opens => exact enter_of_inside ⟨_, rfl, rfl⟩

/-- The laws of a data scope, for every change `f` of the variables inside. In an activity with
mappings the token is in a scope with the variables from before; the names that are local there are
the input targets. Leaving without outputs puts them back and keeps what `f` wrote elsewhere; with
outputs only these are laid over the variables from before. The process never sees a local value.
An activity without mappings keeps what `f` wrote. Discarding gives back the variables from
before, and entering twice is entering once. -/
theorem scope_laws (f : Variables → Variables) (hservice : d.isMultiInstanceService node = false)
    (henter : enter t d node = .ok t') :
    (∀ mappings, d.dataMappings.get? node = some mappings →
      ∃ scope, t'.dataScope = some scope ∧ scope.nodeId = node ∧
        (¬t.Inside node → ∀ name, name ∈ scope.localNames ↔
          name ∈ mappings.inputs.map DataMapping.target) ∧
        (mappings.outputs = [] →
          ∃ v, leave { t' with vars := f t'.vars } d node = .ok v ∧ v.dataScope = none ∧
            ∀ name, v.vars.get? name = if name ∈ scope.localNames then t.outerVariables.get? name
              else (f t'.vars).get? name) ∧
        (mappings.outputs ≠ [] →
          leave { t' with vars := f t'.vars } d node =
            (evaluateMappings mappings.outputs (f t'.vars)).map fun outputs =>
              { t' with vars := t.outerVariables.extend outputs, dataScope := none }) ∧
        ∀ name, ({ t' with vars := f t'.vars } : Token).processVariables.get? name =
          if name ∈ scope.localNames then t.outerVariables.get? name
          else (f t'.vars).get? name) ∧
    (d.dataMappings.get? node = none → ¬t.Inside node →
      t'.dataScope = none ∧
        leave { t' with vars := f t'.vars } d node = .ok { t' with vars := f t'.vars }) ∧
    t'.discardDataScope.vars = t.outerVariables ∧
    enter t' d node = .ok t' := by
  refine ⟨fun mappings hmappings => ?_, fun hmappings houtside => ?_, outerVariables_enter henter,
    enter_idem henter⟩
  · obtain ⟨scope, hscope, hnode, horiginal, hlocal⟩ := enter_scope hservice hmappings henter
    have hinner : ({ t' with vars := f t'.vars } : Token).dataScope = some scope := hscope
    have hprocess := fun name => horiginal ▸ Token.get?_processVariables hinner name
    have hleave := leave_of_inside hinner hnode hmappings
    refine ⟨scope, hscope, hnode, hlocal, fun hnone => ?_, fun hsome => ?_, hprocess⟩
    · rw [hnone] at hleave
      exact ⟨_, hleave, rfl, hprocess⟩
    · rw [hleave, if_neg (by simpa using hsome), horiginal]
  · have hnone := t.dataScope_discardDataScope
    rw [enter_of_outside houtside, enter_passes hnone (.inr hmappings)] at henter
    cases henter
    exact ⟨hnone, leave_of_none hnone⟩

/-! ## A task with an input and an output -/

/-- A task that reads the price of an order under a local name and writes the total. -/
def pricing (element : BpmnElement) : ProcessDefinition :=
  { ProcessDefinition.ofGraph "order" [("price", element)] [] with
    dataMappings := Map.ofList [("price",
      ⟨[⟨"amount", .variableRef "price"⟩], [⟨"total", .variableRef "amount"⟩], none, none⟩)] }

def pricedOrder : Token :=
  ⟨1, "price", Map.ofList [("price", .number (.int 5))], false, none⟩

/-- The order after its task, in which the amount was doubled. -/
theorem pricedOrder_leaves : ∃ t',
    enter pricedOrder (pricing (.userTask "clerk")) "price" = .ok t' ∧
      leave { t' with vars := t'.vars.set "amount" (.number (.int 10)) }
          (pricing (.userTask "clerk")) "price" =
        (evaluateMappings [⟨"total", .variableRef "amount"⟩]
          (t'.vars.set "amount" (.number (.int 10)))).map fun outputs =>
            { t' with vars := pricedOrder.outerVariables.extend outputs, dataScope := none } := by
  obtain ⟨t', ht'⟩ : ∃ t', enter pricedOrder (pricing (.userTask "clerk")) "price" = .ok t' :=
    ⟨_, rfl⟩
  obtain ⟨hlaws, _⟩ := scope_laws (fun vars => vars.set "amount" (.number (.int 10)))
    (by decide) ht'
  obtain ⟨_, _, _, _, _, houtputs, _⟩ := hlaws _ rfl
  exact ⟨t', ht', houtputs (List.cons_ne_nil _ _)⟩

/-- A multi-instance service task opens no scope: its outputs are not computed when the shared token
leaves it. And a token that still is in the scope of another activity loses what it wrote there. -/
theorem shared_token_keeps_variables :
    (∃ (d : ProcessDefinition) (node : String) (t t' v : Token) (mappings : ActivityMappings)
      (outputs : Variables),
      d.dataMappings.get? node = some mappings ∧ mappings.outputs ≠ [] ∧ t.dataScope = none ∧
        enter t d node = .ok t' ∧ leave t' d node = .ok v ∧
        evaluateMappings mappings.outputs t'.vars = .ok outputs ∧
        v.vars ≠ t.vars.extend outputs) ∧
    ∃ (d : ProcessDefinition) (node : String) (t t' : Token),
      d.isMultiInstanceService node = false ∧ enter t d node = .ok t' ∧
        t'.discardDataScope.vars ≠ t.vars := by
  constructor
  · let d := pricing (.serviceTask "pricing" (some ⟨false, some "2", none, none⟩))
    let t : Token := ⟨1, "price", Map.ofList [("amount", .number (.int 5))], false, none⟩
    refine ⟨d, "price", t, t, t, _, _, rfl, List.cons_ne_nil _ _, rfl, rfl, rfl, rfl, ?_⟩
    intro h
    have htotal := congrArg (fun vars : Variables => vars.get? "total") h
    revert htotal
    decide
  · let t : Token := { pricedOrder with dataScope := some ⟨"check", ∅, []⟩ }
    refine ⟨pricing (.userTask "clerk"), "archive", t, _, by decide, rfl, ?_⟩
    intro h
    have hprice := congrArg (fun vars : Variables => vars.get? "price") h
    revert hprice
    decide

end DataMappings

end BpmnEngine
