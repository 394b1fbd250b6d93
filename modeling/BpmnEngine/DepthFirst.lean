import Mathlib.Data.Finset.Card

/-!
# Depth-first marking

A depth-first search over a state marks an open node and goes on with the successors that the
node had before; a node that is not open is passed over. With more fuel than there are open
nodes the search marks exactly the nodes that a path of open nodes leads to.
-/
namespace BpmnEngine

namespace DepthFirst

variable {σ α : Type} (isOpen : σ → α → Bool) (next : σ → α → List α) (mark : α → σ → σ)

def visit : Nat → α → σ → σ
  | 0, _, s => s
  | fuel + 1, x, s =>
    if isOpen s x then (next s x).foldl (fun s y => visit fuel y s) (mark x s) else s

def visitAll (fuel : Nat) (roots : List α) (s : σ) : σ :=
  roots.foldl (fun s x => visit isOpen next mark fuel x s) s

/-- A path of open nodes leads from one of the roots to the node. -/
inductive Found (s : σ) (roots : List α) : α → Prop where
  | root {x : α} (hopen : isOpen s x = true) (hroot : x ∈ roots) : Found s roots x
  | edge {x y : α} (hx : Found s roots x) (hopen : isOpen s y = true) (hnext : y ∈ next s x) :
      Found s roots y

/-- There are fewer open nodes than `n`. -/
def OpenBelow (s : σ) (n : Nat) : Prop :=
  ∃ nodes : Finset α, (∀ x, isOpen s x = true → x ∈ nodes) ∧ nodes.card < n

/-- Marking a node closes it and changes nothing for the others. -/
structure Marks : Prop where
  isOpen_mark : ∀ x y s, isOpen (mark x s) y = true ↔ isOpen s y = true ∧ y ≠ x
  next_mark : ∀ x y s, y ≠ x → next (mark x s) y = next s y

variable {isOpen next mark} {s : σ} {roots l : List α} {x : α}

theorem Found.opened (h : Found isOpen next s roots x) : isOpen s x = true := by
  cases h with
  | root hopen => exact hopen
  | edge _ hopen => exact hopen

theorem Found.mono {roots' : List α} (hsub : roots ⊆ roots') (h : Found isOpen next s roots x) :
    Found isOpen next s roots' x := by
  induction h with
  | root hopen hroot => exact .root hopen (hsub hroot)
  | edge _ hopen hnext ih => exact .edge ih hopen hnext

/-- A path ends in any set that has the open roots and, with a node, its open successors. -/
theorem Found.mem {P : α → Prop} (hroots : ∀ x ∈ roots, isOpen s x = true → P x)
    (hclosed : ∀ x y, P x → isOpen s y = true → y ∈ next s x → P y) {x : α}
    (h : Found isOpen next s roots x) : P x := by
  induction h with
  | root hopen hroot => exact hroots _ hroot hopen
  | edge _ hopen hnext ih => exact hclosed _ _ ih hopen hnext

namespace Marks

variable (h : Marks isOpen next mark)
include h

theorem isOpen_foldl (l : List α) (s : σ) (x : α) :
    isOpen (l.foldl (fun s x => mark x s) s) x = true ↔ isOpen s x = true ∧ x ∉ l := by
  induction l generalizing s with
  | nil => simp
  | cons y l ih => simp [ih, h.isOpen_mark, and_assoc]

theorem next_foldl (l : List α) (s : σ) {x : α} (hx : x ∉ l) :
    next (l.foldl (fun s x => mark x s) s) x = next s x := by
  induction l generalizing s with
  | nil => rfl
  | cons y l ih =>
    rw [List.mem_cons, not_or] at hx
    rw [List.foldl_cons, ih (mark y s) hx.2, h.next_mark y x s hx.1]

theorem openBelow_foldl {n : Nat} (l : List α) (hn : OpenBelow isOpen s n) :
    OpenBelow isOpen (l.foldl (fun s x => mark x s) s) n := by
  obtain ⟨nodes, hnodes, hcard⟩ := hn
  exact ⟨nodes, fun x hx => hnodes x ((h.isOpen_foldl l s x).mp hx).1, hcard⟩

theorem openBelow_mark [DecidableEq α] {n : Nat} {x : α} (hx : isOpen s x = true)
    (hn : OpenBelow isOpen s (n + 1)) : OpenBelow isOpen (mark x s) n := by
  obtain ⟨nodes, hnodes, hcard⟩ := hn
  refine ⟨nodes.erase x, fun y hy => ?_, ?_⟩
  · obtain ⟨hopen, hne⟩ := (h.isOpen_mark x y s).mp hy
    exact Finset.mem_erase.mpr ⟨hne, hnodes y hopen⟩
  · have := Finset.card_erase_lt_of_mem (hnodes x hx)
    omega

end Marks

/-- The list `l` has the open roots and, with a node, its open successors, and nothing that no path
leads to. -/
structure Covers (isOpen : σ → α → Bool) (next : σ → α → List α) (s : σ) (roots l : List α) :
    Prop where
  found : ∀ x ∈ l, Found isOpen next s roots x
  roots : ∀ x ∈ roots, isOpen s x = true → x ∈ l
  closed : ∀ x ∈ l, ∀ y ∈ next s x, isOpen s y = true → y ∈ l

theorem Covers.mem_iff (h : Covers isOpen next s roots l) : x ∈ l ↔ Found isOpen next s roots x :=
  ⟨h.found x, fun hx => hx.mem (fun y hy hopen => h.roots y hy hopen)
    fun y z hy hopen hz => h.closed y hy z hz hopen⟩

section

variable (h : Marks isOpen next mark)

include h

/-- What is found after some nodes were marked was to be found before. -/
theorem Marks.found_foldl (hx : Found isOpen next (l.foldl (fun s x => mark x s) s) roots x) :
    Found isOpen next s roots x := by
  induction hx with
  | root hopen hroot => exact .root ((h.isOpen_foldl l s _).mp hopen).1 hroot
  | edge hy hopen hnext ih =>
    refine .edge ih ((h.isOpen_foldl l s _).mp hopen).1 ?_
    rwa [h.next_foldl l s ((h.isOpen_foldl l s _).mp hy.opened).2] at hnext

theorem Covers.append {l' : List α} (hl : Covers isOpen next s [x] l)
    (hl' : Covers isOpen next (l.foldl (fun s x => mark x s) s) roots l') :
    Covers isOpen next s (x :: roots) (l ++ l') where
  found y hy := by
    rcases List.mem_append.mp hy with hy | hy
    · exact (hl.found y hy).mono (by simp)
    · exact (h.found_foldl (hl'.found y hy)).mono (by simp)
  roots y hy hopen := by
    by_cases hmem : y ∈ l
    · exact List.mem_append_left _ hmem
    · rcases List.mem_cons.mp hy with rfl | hy
      · exact (hmem (hl.roots y (by simp) hopen)).elim
      · exact List.mem_append_right _ (hl'.roots y hy ((h.isOpen_foldl l s y).mpr ⟨hopen, hmem⟩))
  closed y hy z hz hopen := by
    by_cases hmem : z ∈ l
    · exact List.mem_append_left _ hmem
    · rcases List.mem_append.mp hy with hy | hy
      · exact (hmem (hl.closed y hy z hz hopen)).elim
      · have hnot : y ∉ l := ((h.isOpen_foldl l s y).mp (hl'.found y hy).opened).2
        rw [← h.next_foldl l s hnot] at hz
        exact List.mem_append_right _
          (hl'.closed y hy z hz ((h.isOpen_foldl l s z).mpr ⟨hopen, hmem⟩))

theorem Covers.cons (hx : isOpen s x = true) (hl : Covers isOpen next (mark x s) (next s x) l) :
    Covers isOpen next s [x] (x :: l) where
  found y hy := by
    have hroot : Found isOpen next s [x] x := .root hx (by simp)
    rcases List.mem_cons.mp hy with rfl | hy
    · exact hroot
    · suffices y ≠ x ∧ Found isOpen next s [x] y from this.2
      refine Found.mem (P := fun z => z ≠ x ∧ Found isOpen next s [x] z)
        (fun z hz hopen => ?_) (fun z w hz hopen hw => ?_) (hl.found y hy)
      · obtain ⟨hopen, hne⟩ := (h.isOpen_mark x z s).mp hopen
        exact ⟨hne, .edge hroot hopen hz⟩
      · obtain ⟨hopen, hne⟩ := (h.isOpen_mark x w s).mp hopen
        exact ⟨hne, .edge hz.2 hopen (h.next_mark x z s hz.1 ▸ hw)⟩
  roots y hy _ := by
    rw [List.mem_singleton.mp hy]
    exact List.mem_cons_self
  closed y hy z hz hopen := by
    by_cases hzx : z = x
    · exact hzx ▸ List.mem_cons_self
    · refine List.mem_cons_of_mem x ?_
      have hopen' : isOpen (mark x s) z = true := (h.isOpen_mark x z s).mpr ⟨hopen, hzx⟩
      rcases List.mem_cons.mp hy with rfl | hy
      · exact hl.roots z hz hopen'
      · have hyx : y ≠ x := ((h.isOpen_mark x y s).mp (hl.found y hy).opened).2
        exact hl.closed y hy z (h.next_mark x y s hyx ▸ hz) hopen'

/-- A search from several roots is one search from each of them after the other. -/
theorem covers_foldl {fuel : Nat}
    (hvisit : ∀ x (s : σ), OpenBelow isOpen s fuel →
      ∃ l, visit isOpen next mark fuel x s = l.foldl (fun s x => mark x s) s ∧
      Covers isOpen next s [x] l)
    (roots : List α) (s : σ) (hs : OpenBelow isOpen s fuel) :
    ∃ l, visitAll isOpen next mark fuel roots s = l.foldl (fun s x => mark x s) s ∧
      Covers isOpen next s roots l := by
  induction roots generalizing s with
  | nil => exact ⟨[], rfl, by simp, by simp, by simp⟩
  | cons x roots ih =>
    obtain ⟨l, hl, hcovers⟩ := hvisit x s hs
    obtain ⟨l', hl', hcovers'⟩ :=
      ih (l.foldl (fun s x => mark x s) s) (h.openBelow_foldl l hs)
    refine ⟨l ++ l', ?_, hcovers.append h hcovers'⟩
    rw [List.foldl_append, ← hl', visitAll, List.foldl_cons, hl, visitAll]

theorem visit_covers [DecidableEq α] (fuel : Nat) (x : α) (s : σ) (hs : OpenBelow isOpen s fuel) :
    ∃ l, visit isOpen next mark fuel x s = l.foldl (fun s x => mark x s) s ∧
      Covers isOpen next s [x] l := by
  induction fuel generalizing x s with
  | zero =>
    obtain ⟨_, _, hcard⟩ := hs
    exact absurd hcard (Nat.not_lt_zero _)
  | succ fuel ih =>
    by_cases hx : isOpen s x = true
    · obtain ⟨l, hl, hcovers⟩ :=
        covers_foldl h (fun y t ht => ih y t ht) (next s x) (mark x s) (h.openBelow_mark hx hs)
      refine ⟨x :: l, ?_, .cons h hx hcovers⟩
      rw [visit, if_pos hx, List.foldl_cons, ← hl, visitAll]
    · refine ⟨[], by rw [visit, if_neg hx, List.foldl_nil], by simp, ?_, by simp⟩
      intro y hy hopen
      rw [List.mem_singleton.mp hy] at hopen
      exact (hx hopen).elim

/-- With enough fuel the search marks the nodes that a path of open nodes leads to. -/
theorem visitAll_eq_foldl [DecidableEq α] {fuel : Nat} (roots : List α)
    (hs : OpenBelow isOpen s fuel) :
    ∃ l : List α, visitAll isOpen next mark fuel roots s = l.foldl (fun s x => mark x s) s ∧
      ∀ x, x ∈ l ↔ Found isOpen next s roots x := by
  obtain ⟨l, hl, hcovers⟩ := covers_foldl h (visit_covers h fuel) roots s hs
  exact ⟨l, hl, fun _ => hcovers.mem_iff⟩

end

end DepthFirst

end BpmnEngine
