import Mathlib

/-!
# Finite tables with unique keys

A table is a finite list whose keys are pairwise different, which is what a hash
map is once hashing is forgotten. The key is a projection of the stored value, so
that a value can never be filed under a key that is not its own. The list order is
the order in which the entries are visited; results that may not depend on it are
stated through membership and lookup only.
-/
namespace BpmnEngine

/-- Finitely many values of `α`, no two of which have the same key. -/
structure Table {α κ : Type} (key : α → κ) where
  entries : List α
  keysNodup : (entries.map key).Nodup

namespace Table

variable {α κ : Type} {key : α → κ} {t s : Table key} {k l : κ} {a b : α} {f : α → α}

instance : Membership α (Table key) := ⟨fun t a => a ∈ t.entries⟩

theorem mem_def : a ∈ t ↔ a ∈ t.entries := Iff.rfl

instance [DecidableEq α] (a : α) (t : Table key) : Decidable (a ∈ t) :=
  inferInstanceAs (Decidable (a ∈ t.entries))

theorem ext_entries (h : s.entries = t.entries) : s = t := by
  cases s; cases t; simp_all

instance [DecidableEq α] : DecidableEq (Table key) := fun s t =>
  decidable_of_iff (s.entries = t.entries) ⟨ext_entries, fun h => h ▸ rfl⟩

theorem eq_of_key_eq (ha : a ∈ t) (hb : b ∈ t) (h : key a = key b) : a = b :=
  List.inj_on_of_nodup_map t.keysNodup ha hb h

def empty : Table key := ⟨[], List.nodup_nil⟩

instance : EmptyCollection (Table key) := ⟨empty⟩

instance : Inhabited (Table key) := ⟨empty⟩

@[simp] theorem entries_empty : (∅ : Table key).entries = [] := rfl

@[simp] theorem notMem_empty (a : α) : a ∉ (∅ : Table key) := List.not_mem_nil

def retain (t : Table key) (p : α → Bool) : Table key where
  entries := t.entries.filter p
  keysNodup := (t.keysNodup.sublist ((List.filter_sublist).map key))

@[simp] theorem mem_retain {p : α → Bool} : a ∈ t.retain p ↔ a ∈ t ∧ p a = true :=
  List.mem_filter

/-- Rewrites every entry by a function that does not touch its key. -/
def mapEntries (t : Table key) (f : α → α) (hf : ∀ a, key (f a) = key a) : Table key where
  entries := t.entries.map f
  keysNodup := by
    rw [List.map_map, show key ∘ f = key from funext hf]
    exact t.keysNodup

theorem mem_mapEntries {hf : ∀ a, key (f a) = key a} : b ∈ t.mapEntries f hf ↔ ∃ a ∈ t, f a = b :=
  List.mem_map

def isEmpty (t : Table key) : Bool := t.entries.isEmpty

theorem isEmpty_iff : t.isEmpty = true ↔ ∀ a, a ∉ t := by
  simp [isEmpty, List.isEmpty_iff, List.eq_nil_iff_forall_not_mem, mem_def]

variable [DecidableEq κ]

def find? (t : Table key) (k : κ) : Option α :=
  t.entries.find? fun a => decide (key a = k)

@[simp] theorem find?_empty (k : κ) : (∅ : Table key).find? k = none := rfl

theorem find?_eq_some_iff : t.find? k = some a ↔ a ∈ t ∧ key a = k := by
  constructor
  · intro h
    exact ⟨List.mem_of_find?_eq_some h, by simpa using List.find?_some h⟩
  · rintro ⟨hmem, rfl⟩
    cases hf : t.find? (key a) with
    | none =>
      have := List.find?_eq_none.mp hf a hmem
      simp at this
    | some b =>
      have hb : b ∈ t := List.mem_of_find?_eq_some hf
      have hkey : key b = key a := by simpa using List.find?_some hf
      rw [eq_of_key_eq hb hmem hkey]

theorem find?_eq_none_iff : t.find? k = none ↔ ∀ a ∈ t, key a ≠ k := by
  simp [find?, List.find?_eq_none, mem_def]

theorem find?_of_mem (h : a ∈ t) : t.find? (key a) = some a :=
  find?_eq_some_iff.mpr ⟨h, rfl⟩

theorem mem_of_find? (h : t.find? k = some a) : a ∈ t :=
  (find?_eq_some_iff.mp h).1

theorem key_of_find? (h : t.find? k = some a) : key a = k :=
  (find?_eq_some_iff.mp h).2

theorem find?_congr (h : ∀ a, key a = k → (a ∈ s ↔ a ∈ t)) : s.find? k = t.find? k := by
  cases ht : t.find? k with
  | none =>
    rw [find?_eq_none_iff] at ht ⊢
    intro a ha hk
    exact ht a ((h a hk).mp ha) hk
  | some b =>
    obtain ⟨hb, hk⟩ := find?_eq_some_iff.mp ht
    exact find?_eq_some_iff.mpr ⟨(h b hk).mpr hb, hk⟩

def contains (t : Table key) (k : κ) : Bool := (t.find? k).isSome

theorem contains_iff : t.contains k = true ↔ ∃ a ∈ t, key a = k := by
  simp [contains, Option.isSome_iff_exists, find?_eq_some_iff]

def erase (t : Table key) (k : κ) : Table key := t.retain fun a => !decide (key a = k)

@[simp] theorem mem_erase : a ∈ t.erase k ↔ a ∈ t ∧ key a ≠ k := by
  simp [erase]

@[simp] theorem find?_erase_self (t : Table key) (k : κ) : (t.erase k).find? k = none := by
  simp [find?_eq_none_iff]

@[simp] theorem find?_erase_of_ne (h : l ≠ k) : (t.erase k).find? l = t.find? l := by
  refine find?_congr fun a ha => ?_
  simp only [mem_erase, and_iff_left_iff_imp]
  intro _ hk
  exact h (ha ▸ hk)

/-- Files a value under its key and drops what was filed there before. -/
def insert (t : Table key) (a : α) : Table key where
  entries := (t.erase (key a)).entries ++ [a]
  keysNodup := by
    rw [List.map_append, List.nodup_append]
    refine ⟨(t.erase (key a)).keysNodup, by simp, ?_⟩
    intro k hk l hl
    obtain ⟨b, hb, rfl⟩ := List.mem_map.mp hk
    have : l = key a := by simpa using hl
    subst this
    exact (mem_erase.mp hb).2

@[simp] theorem mem_insert : b ∈ t.insert a ↔ b = a ∨ b ∈ t ∧ key b ≠ key a := by
  rw [mem_def]
  simp only [insert, List.mem_append, List.mem_singleton]
  rw [← mem_def, mem_erase]
  tauto

theorem mem_insert_of_ne (h : key b ≠ key a) : b ∈ t.insert a ↔ b ∈ t := by
  rw [mem_insert, and_iff_left h]
  exact or_iff_right fun heq => h (heq ▸ rfl)

@[simp] theorem find?_insert_self (t : Table key) (a : α) : (t.insert a).find? (key a) = some a :=
  find?_of_mem (mem_insert.mpr (.inl rfl))

theorem find?_insert_of_ne (h : k ≠ key a) : (t.insert a).find? k = t.find? k :=
  find?_congr fun _ hb => mem_insert_of_ne (hb ▸ h)

theorem isSome_find?_insert (a : α) (h : (t.find? k).isSome) : ((t.insert a).find? k).isSome := by
  by_cases hk : k = key a
  · rw [hk, find?_insert_self]
    rfl
  · rwa [find?_insert_of_ne hk]

theorem mem_foldl_insert {l : List α} (hl : (l.map key).Nodup) :
    a ∈ l.foldl insert (∅ : Table key) ↔ a ∈ l := by
  induction l using List.reverseRecOn with
  | nil => exact iff_of_false (notMem_empty a) List.not_mem_nil
  | append_singleton l b ih =>
    rw [List.map_append, List.nodup_append] at hl
    rw [List.foldl_append, List.foldl_cons, List.foldl_nil, mem_insert, ih hl.1, List.mem_append,
      List.mem_singleton, or_comm, and_iff_left_of_imp]
    exact fun ha => hl.2.2 (key a) (List.mem_map_of_mem ha) (key b) (List.mem_singleton_self _)

/-- Replaces the entry under a key by its image; an absent key is left absent. -/
def modify (t : Table key) (k : κ) (f : α → α) : Table key :=
  match t.find? k with
  | some a => t.insert (f a)
  | none => t

section

variable (hf : ∀ a, key (f a) = key a)

include hf

theorem mem_modify : b ∈ t.modify k f ↔ (b ∈ t ∧ key b ≠ k) ∨ ∃ a ∈ t, key a = k ∧ b = f a := by
  unfold modify
  split
  case h_1 a ha =>
    obtain ⟨hmem, rfl⟩ := find?_eq_some_iff.mp ha
    rw [mem_insert, hf a]
    constructor
    · rintro (rfl | h)
      · exact .inr ⟨a, hmem, rfl, rfl⟩
      · exact .inl h
    · rintro (h | ⟨c, hc, hk, rfl⟩)
      · exact .inr h
      · rw [eq_of_key_eq hc hmem hk]
        exact .inl rfl
  case h_2 hnone =>
    rw [find?_eq_none_iff] at hnone
    constructor
    · intro hb
      exact .inl ⟨hb, hnone b hb⟩
    · rintro (h | ⟨c, hc, hk, rfl⟩)
      · exact h.1
      · exact absurd hk (hnone c hc)

theorem find?_modify_self : (t.modify k f).find? k = (t.find? k).map f := by
  unfold modify
  split
  case h_1 a ha =>
    have hk : key (f a) = k := (hf a).trans (key_of_find? ha)
    rw [ha, ← hk, find?_insert_self]
    rfl
  case h_2 hnone => simp [hnone]

theorem find?_modify_of_ne (h : l ≠ k) : (t.modify k f).find? l = t.find? l := by
  unfold modify
  split
  case h_1 a ha =>
    refine find?_insert_of_ne ?_
    rw [hf a, key_of_find? ha]
    exact h
  case h_2 => rfl

end

end Table

/-- A finite map: a table of pairs filed under their first component. -/
abbrev Map (κ β : Type) := Table (Prod.fst : κ × β → κ)

namespace Map

variable {κ β : Type} [DecidableEq κ] {m : Map κ β} {p : κ × β} {l : List (κ × β)} {v : β} {k : κ}

def get? (m : Map κ β) (k : κ) : Option β := (m.find? k).map Prod.snd

def set (m : Map κ β) (k : κ) (v : β) : Map κ β := m.insert (k, v)

/-- Overwrites the first map with every pair of the second. -/
def extend (m n : Map κ β) : Map κ β := n.entries.foldl Table.insert m

/-- The map of a list of pairs; a later pair replaces an earlier one. -/
def ofList (l : List (κ × β)) : Map κ β := l.foldl Table.insert ∅

def keys (m : Map κ β) : List κ := m.entries.map Prod.fst

theorem get?_eq_some_iff : m.get? k = some v ↔ (k, v) ∈ m := by
  simp only [get?, Option.map_eq_some_iff, Table.find?_eq_some_iff]
  constructor
  · rintro ⟨⟨k', v'⟩, ⟨hmem, rfl⟩, rfl⟩
    exact hmem
  · intro h
    exact ⟨(k, v), ⟨h, rfl⟩, rfl⟩

@[simp] theorem get?_empty (k : κ) : (∅ : Map κ β).get? k = none := rfl

@[simp] theorem get?_set_self (m : Map κ β) (k : κ) (v : β) : (m.set k v).get? k = some v := by
  simp [get?_eq_some_iff, set]

theorem get?_set_of_ne {l : κ} (h : l ≠ k) : (m.set k v).get? l = m.get? l := by
  simp only [get?, set]
  rw [Table.find?_insert_of_ne (by simpa using h)]

@[simp] theorem get?_erase_self (m : Map κ β) (k : κ) : Map.get? (m.erase k) k = none := by
  simp [get?]

theorem get?_erase_of_ne {l : κ} (h : l ≠ k) : Map.get? (m.erase k) l = m.get? l := by
  simp [get?, Table.find?_erase_of_ne h]

theorem mem_set : p ∈ m.set k v ↔ p = (k, v) ∨ p ∈ m ∧ p.1 ≠ k := by
  simp [set]

theorem get?_foldl_insert (hl : (l.map Prod.fst).Nodup) (m : Map κ β) (k : κ) :
    Map.get? (l.foldl Table.insert m) k =
      ((l.find? fun p => decide (p.1 = k)).map Prod.snd).or (m.get? k) := by
  induction l generalizing m with
  | nil => simp
  | cons p l ih =>
    obtain ⟨hp, hl⟩ := List.nodup_cons.mp hl
    rw [List.foldl_cons, ih hl]
    by_cases hk : p.1 = k
    · have hnone : l.find? (fun q => decide (q.1 = k)) = none := by
        rw [List.find?_eq_none]
        intro q hq hqk
        exact hp (List.mem_map.mpr ⟨q, hq, (of_decide_eq_true hqk).trans hk.symm⟩)
      have hself : Map.get? (Table.insert m p) k = some p.2 := by
        subst hk
        exact get?_set_self m p.1 p.2
      simp [hnone, hself, hk]
    · have hother : Map.get? (Table.insert m p) k = m.get? k :=
        get?_set_of_ne (v := p.2) (Ne.symm hk)
      simp [hother, hk]

theorem mem_of_mem_foldl_insert (h : p ∈ l.foldl Table.insert m) : p ∈ l ∨ p ∈ m := by
  induction l generalizing m with
  | nil => exact .inr h
  | cons q l ih =>
    rcases ih h with hl | hm
    · exact .inl (List.mem_cons_of_mem q hl)
    · rcases Table.mem_insert.mp hm with rfl | ⟨hm, _⟩
      · exact .inl List.mem_cons_self
      · exact .inr hm

theorem mem_of_mem_ofList (h : p ∈ ofList l) : p ∈ l :=
  (mem_of_mem_foldl_insert h).resolve_right (Table.notMem_empty p)

/-- The last pair of a list replaces all others with its key. -/
theorem mem_ofList_concat (l : List (κ × β)) (p : κ × β) : p ∈ ofList (l ++ [p]) := by
  rw [ofList, List.foldl_append]
  exact Table.mem_insert.mpr (.inl rfl)

theorem exists_mem_ofList (h : p ∈ l) : ∃ v, (p.1, v) ∈ ofList l := by
  induction l using List.reverseRecOn with
  | nil => cases h
  | append_singleton l q ih =>
    by_cases hq : p.1 = q.1
    · exact ⟨q.2, hq ▸ mem_ofList_concat l q⟩
    · have hl : p ∈ l := (List.mem_append.mp h).resolve_right fun hp =>
        hq (congrArg Prod.fst (List.mem_singleton.mp hp))
      obtain ⟨v, hv⟩ := ih hl
      refine ⟨v, ?_⟩
      rw [ofList, List.foldl_append]
      exact Table.mem_insert.mpr (.inr ⟨hv, hq⟩)

theorem get?_extend (m n : Map κ β) (k : κ) : (m.extend n).get? k = (n.get? k).or (m.get? k) :=
  get?_foldl_insert n.keysNodup m k

end Map

end BpmnEngine
