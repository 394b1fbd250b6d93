import Mathlib.Logic.Relation

/-!
# Runs of a labelled system under a guard

A system is a partial step function over labels. A guard restricts which labels may be
taken in which states; the runs of a system whose steps all meet a guard are the
reachable states here. What holds at the start and is kept by every guarded step holds
in every reachable state. A system that steps by itself has one run from each state; it
comes to a property if a state of that run has it.
-/
namespace BpmnEngine

section Runs

variable {σ ι : Type} (step : σ → ι → Option σ) (guard : σ → ι → Prop) {l : List ι}

/-- The states that runs with guarded steps reach from a first state. -/
inductive Reaches (s₀ : σ) : σ → Prop where
  | start : Reaches s₀ s₀
  | next {s t : σ} {a : ι} (hs : Reaches s₀ s) (ha : guard s a) (ht : step s a = some t) :
      Reaches s₀ t

/-- Takes a list of labels; fails where a label is not possible. -/
def run (s : σ) : List ι → Option σ
  | [] => some s
  | a :: rest => (step s a).bind fun t => run t rest

variable {step guard} {s₀ s t : σ}

section

variable (h : Reaches step guard s₀ s)

include h

/-- The rule for invariants: a property of the first state that guarded steps keep. -/
theorem Reaches.invariant {P : σ → Prop} (hstart : P s₀)
    (hstep : ∀ s a t, P s → guard s a → step s a = some t → P t) : P s := by
  induction h with
  | start => exact hstart
  | next _ ha ht ih => exact hstep _ _ _ ih ha ht

theorem Reaches.mono {guard' : σ → ι → Prop} (hg : ∀ s a, guard s a → guard' s a) :
    Reaches step guard' s₀ s := by
  induction h with
  | start => exact .start
  | next _ ha ht ih => exact .next ih (hg _ _ ha) ht

theorem Reaches.trans (h' : Reaches step guard s t) : Reaches step guard s₀ t := by
  induction h' with
  | start => exact h
  | next _ ha ht ih => exact .next ih ha ht

end

/-- A run is empty or begins with a step. -/
theorem Reaches.cases_head (h : Reaches step guard s t) :
    t = s ∨ ∃ a u, guard s a ∧ step s a = some u ∧ Reaches step guard u t := by
  induction h with
  | start => exact .inl rfl
  | next hs ha ht ih =>
    rcases ih with rfl | ⟨b, u, hb, hu, hrest⟩
    · exact .inr ⟨_, _, ha, ht, .start⟩
    · exact .inr ⟨b, u, hb, hu, hrest.next ha ht⟩

/-- A list of labels that can be taken is a run, if the guard always lets them pass. -/
theorem Reaches.of_passing_run (h : run step s l = some t) (hpass : ∀ a ∈ l, ∀ u, guard u a) :
    Reaches step guard s t := by
  induction l generalizing s with
  | nil =>
    cases h
    exact .start
  | cons a rest ih =>
    obtain ⟨u, hu, hrest⟩ := Option.bind_eq_some_iff.mp h
    have hfirst : guard s a := hpass a List.mem_cons_self s
    exact (Reaches.next .start hfirst hu).trans
      (ih hrest fun b hb => hpass b (List.mem_cons_of_mem a hb))

/-- A list of labels that can be taken in states where they pass a check, if the check is enough
for the guard. -/
theorem Reaches.of_checked_run {check : σ → ι → Bool} (hcheck : ∀ s a, check s a = true → guard s a)
    (h : run (fun s a => if check s a then step s a else none) s l = some t) :
    Reaches step guard s t := by
  induction l generalizing s with
  | nil =>
    cases h
    exact .start
  | cons a rest ih =>
    obtain ⟨u, hu, hrest⟩ := Option.bind_eq_some_iff.mp h
    obtain ⟨hs, hu⟩ := Option.ite_none_right_eq_some.mp hu
    exact (Reaches.next .start (hcheck s a hs) hu).trans (ih hrest)

/-- A list of labels that can be taken is a run without a guard. -/
theorem Reaches.of_run (h : run step s l = some t) : Reaches step (fun _ _ => True) s t :=
  .of_passing_run h fun _ _ _ => trivial

end Runs

section Comes

variable {σ : Type} (next : σ → Option σ) {u : σ} {p : σ → Bool} {fuel : Nat}

/-- A system that steps by itself comes to a state with a property. -/
inductive Comes (P : σ → Prop) : σ → Prop where
  | now {s : σ} (h : P s) : Comes P s
  | later {s t : σ} (hs : next s = some t) (ht : Comes P t) : Comes P s

/-- The states that the system passes through. -/
def Passes : σ → σ → Prop := Relation.ReflTransGen fun s t => next s = some t

variable {next} {P Q I : σ → Prop} {s t : σ}

/-- Coming to one property after another, with an invariant of the steps at hand. -/
theorem Comes.bind (h : Comes next P s) (hs : I s)
    (hI : ∀ s t, I s → next s = some t → I t) (hQ : ∀ t, I t → P t → Comes next Q t) :
    Comes next Q s := by
  induction h with
  | now h => exact hQ _ hs h
  | later hnext _ ih => exact .later hnext (ih (hI _ _ hs hnext))

theorem Passes.step (hs : next s = some t) (h : Passes next t u) : Passes next s u :=
  .head hs h

/-- What the system passes through after its first step. -/
theorem Passes.cases_next (h : Passes next s u) (hs : next s = some t) :
    u = s ∨ Passes next t u := by
  rcases Relation.ReflTransGen.cases_head h with rfl | ⟨t', ht', h⟩
  · exact .inl rfl
  · rw [hs] at ht'
    exact .inr (Option.some.inj ht' ▸ h)

theorem Passes.invariant (h : Passes next s u) (hs : I s)
    (hI : ∀ s t, I s → next s = some t → I t) : I u := by
  induction h with
  | refl => exact hs
  | tail _ hstep ih => exact hI _ _ ih hstep

end Comes

end BpmnEngine
