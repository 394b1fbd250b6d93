import Mathlib.Logic.Function.Basic
import Mathlib.Data.Set.Insert

/-!
# A table with an index that calls change in separate steps

Entries are pending in a table and listed in an index beside it. A call takes an entry
out of the table and later out of the index, and it may put the entry back, first into
the table and then into the index. Between the two steps it owes the index an entry.
Other calls drop entries from the index alone. As long as they drop only entries that
are not pending or that are owed, the index lists every pending entry that is not owed.
-/
namespace BpmnEngine

/-- What calls have done to a table and its index. -/
structure SharedIndex (α : Type) where
  pending : Set α
  listed : Set α
  held : Nat → Option α
  owed : Nat → Option α

namespace SharedIndex

variable {α : Type} {v w : SharedIndex α} {k l : Nat} {y : α}

/-- One access to the table or to the index by one call. -/
inductive Access (v : SharedIndex α) : SharedIndex α → Prop where
  | read : Access v v
  | drop (x : α) (hx : x ∈ v.pending → ∃ k, v.owed k = some x) :
      Access v { v with listed := v.listed \ {x} }
  | take (k : Nat) (x : α) (hx : x ∈ v.pending) :
      Access v { v with
        pending := v.pending \ {x}
        held := Function.update v.held k (some x) }
  | unlist (k : Nat) (x : α) (hk : v.held k = some x) :
      Access v { v with listed := v.listed \ {x} }
  | consume (k : Nat) : Access v { v with held := Function.update v.held k none }
  | putBack (k : Nat) (x : α) (hk : v.held k = some x) (hfree : v.owed k = none)
      (others : Set α) (hothers : others ⊆ v.pending) :
      Access v { v with
        pending := insert x others
        held := Function.update v.held k none
        owed := Function.update v.owed k (some x) }
  | list (k : Nat) (x : α) (hk : v.owed k = some x) :
      Access v { v with
        listed := insert x v.listed
        owed := Function.update v.owed k none }

/-- Nothing pending is missing in the index for good, and a call that holds an entry is alone
with it. -/
structure Agrees (v : SharedIndex α) : Prop where
  listed : ∀ x ∈ v.pending, x ∈ v.listed ∨ ∃ k, v.owed k = some x
  taken : ∀ k x, v.held k = some x → x ∉ v.pending
  alone : ∀ k l x, v.held k = some x → v.held l = some x → k = l

theorem held_of_update {x : α} (h : Function.update v.held k (some x) l = some y) :
    l = k ∧ y = x ∨ v.held l = some y := by
  rw [Function.update_apply] at h
  split at h
  · next hl => exact .inl ⟨hl, (Option.some.inj h).symm⟩
  · exact .inr h

theorem held_of_clear (h : Function.update v.held k none l = some y) :
    l ≠ k ∧ v.held l = some y := by
  rw [Function.update_apply] at h
  split at h
  · cases h
  · next hl => exact ⟨hl, h⟩

theorem Agrees.access (h : v.Agrees) (hstep : Access v w) : w.Agrees := by
  cases hstep with
  | read => exact h
  | drop x hx =>
    refine ⟨fun y hy => ?_, h.taken, h.alone⟩
    by_cases hyx : y = x
    · exact .inr (hyx ▸ hx (hyx ▸ hy))
    · exact (h.listed y hy).imp_left fun hl => ⟨hl, hyx⟩
  | take k x hx =>
    refine ⟨fun y hy => h.listed y hy.1, fun l y hl hy => ?_, fun l m y hl hm => ?_⟩
    · rcases held_of_update hl with ⟨_, rfl⟩ | hl
      · exact hy.2 rfl
      · exact h.taken l y hl hy.1
    · -- Another call that held the entry would have found it pending.
      rcases held_of_update hl with ⟨hlk, hyx⟩ | hl <;>
        rcases held_of_update hm with ⟨hmk, hyx'⟩ | hm
      · exact hlk.trans hmk.symm
      · exact absurd hx (h.taken m x (hyx ▸ hm))
      · exact absurd hx (h.taken l x (hyx' ▸ hl))
      · exact h.alone l m y hl hm
  | unlist k x hk =>
    refine ⟨fun y hy => ?_, h.taken, h.alone⟩
    exact (h.listed y hy).imp_left fun hl => ⟨hl, fun hyx => h.taken k x hk (hyx ▸ hy)⟩
  | consume =>
    refine ⟨h.listed, fun l y hl => h.taken l y (held_of_clear hl).2, fun l m y hl hm => ?_⟩
    exact h.alone l m y (held_of_clear hl).2 (held_of_clear hm).2
  | putBack k x hk hfree others hothers =>
    refine ⟨fun y hy => ?_, fun l y hl hy => ?_, fun l m y hl hm => ?_⟩
    · rcases hy with rfl | hy
      · exact .inr ⟨k, Function.update_self ..⟩
      · refine (h.listed y (hothers hy)).imp_right fun ⟨l, hl⟩ => ⟨l, ?_⟩
        have hlk : l ≠ k := fun hlk => by rw [hlk, hfree] at hl; cases hl
        exact (Function.update_of_ne hlk ..).trans hl
    · obtain ⟨hlk, hl'⟩ := held_of_clear hl
      rcases hy with hyx | hy
      · exact hlk (h.alone l k x (hyx ▸ hl') hk)
      · exact h.taken l y hl' (hothers hy)
    · exact h.alone l m y (held_of_clear hl).2 (held_of_clear hm).2
  | list k x hk =>
    refine ⟨fun y hy => ?_, h.taken, h.alone⟩
    rcases h.listed y hy with hl | ⟨l, hl⟩
    · exact .inl (.inr hl)
    · by_cases hlk : l = k
      · rw [hlk, hk] at hl
        exact .inl (.inl (Option.some.inj hl).symm)
      · exact .inr ⟨l, (Function.update_of_ne hlk ..).trans hl⟩

end SharedIndex

end BpmnEngine
