import BpmnEngine.ExaminedInstances
import BpmnEngine.StepOutcomes

/-!
# Restarts that change nothing

A restart loads the stored records and reconciles the instances one after another. It is
transparent if it runs no token, ends in service, and leaves the instances and the pending
waits as they were stored. This is decided by the stored state alone: no instance may have
anything to mend, drop or run. The law is first stated for a pass over a list of
instances, in which an instance is examined after others were, and then for the server.
-/
namespace BpmnEngine

open Program Engine

/-! ## Steady instances -/

theorem InstanceState.isSuspended_of_isTerminal {s : InstanceState} (h : s.isTerminal = true) :
    s.isSuspended = false := by
  cases s <;> first | rfl | cases h

namespace Engine

/-- An instance for which a restart has nothing to do. -/
structure Steady (e : Engine) (x : ProcessInstance) : Prop where
  closed : x.state.isTerminal = true → x.eventSubscriptions = []
  handled : x.state.isTerminal = false → x.state.isSuspended = false → e.Handled x ∧ e.Awaited x
  known : x.state.isSuspended = false → x.hasScope = true → ∀ w ∈ e.waits, ¬x.Orphans w
  parked : x.state.isTerminal = false → x.state.isSuspended = false → x.hasScope = true → e.Parked x

def Mendable (e : Engine) (x : ProcessInstance) : Prop :=
  x.state.isTerminal = false → x.state.isSuspended = false →
    e.Handled x ∧ (x.hasScope = true → e.Parked x)

instance (e : Engine) (x : ProcessInstance) : Decidable (e.Steady x) :=
  decidable_of_iff ((x.state.isTerminal = true → x.eventSubscriptions = []) ∧
    (x.state.isTerminal = false → x.state.isSuspended = false → e.Handled x ∧ e.Awaited x) ∧
    (x.state.isSuspended = false → x.hasScope = true → ∀ w ∈ e.waits, ¬x.Orphans w) ∧
    (x.state.isTerminal = false → x.state.isSuspended = false → x.hasScope = true → e.Parked x))
    ⟨fun ⟨h₁, h₂, h₃, h₄⟩ => ⟨h₁, h₂, h₃, h₄⟩, fun ⟨h₁, h₂, h₃, h₄⟩ => ⟨h₁, h₂, h₃, h₄⟩⟩

variable {e e' : Engine} {x : ProcessInstance}

/-- An instance stays steady as long as its own waits are the same and those with the identifiers of
its subscriptions stay. -/
theorem Steady.congr (h : e.Steady x)
    (hdefs : ∀ key, e'.definitions.find? key = e.definitions.find? key)
    (hown : ∀ p, p.wait.instanceId = x.id → (e'.Holds p ↔ e.Holds p))
    (hsubscribed : ∀ p, x.Subscribes p.wait → e.Holds p → e'.Holds p) : e'.Steady x := by
  have hwaits : ∀ w, w.instanceId = x.id → (w ∈ e'.waits ↔ w ∈ e.waits) := by
    intro w hw
    rw [mem_waits_iff, mem_waits_iff]
    exact exists_congr fun p => and_congr_left fun hp => hown p (by rw [hp, hw])
  refine ⟨h.closed, fun hlive hactive => ⟨?_, ?_⟩, ?_, ?_⟩
  · simpa only [Handled, hdefs] using (h.handled hlive hactive).1
  · intro s hs d handler hd hhandler
    rw [hdefs] at hd
    exact Eng.missingWait_mono (fun p hkind hid => hsubscribed p ⟨hkind, s, hs, hid.symm⟩)
      ((h.handled hlive hactive).2 s hs d handler hd hhandler)
  · exact fun hactive hscope w hw horphan =>
      h.known hactive hscope w ((hwaits w horphan.1).mp hw) horphan
  · intro hlive hactive hscope token ht
    have hparked := h.parked hlive hactive hscope token ht
    rw [Eng.isParked_iff] at hparked ⊢
    exact hparked.imp_left fun ⟨w, hw, howner, htoken⟩ =>
      ⟨w, (hwaits w howner).mpr hw, howner, htoken⟩

theorem steady_of_isSuspended (hlive : x.state.isTerminal = false)
    (hsuspended : x.state.isSuspended = true) : e.Steady x := by
  have hterminal : x.state.isTerminal ≠ true := Bool.eq_false_iff.mp hlive
  have hactive : x.state.isSuspended ≠ false := by simp [hsuspended]
  exact ⟨fun h => absurd h hterminal, fun _ h => absurd h hactive, fun h => absurd h hactive,
    fun _ h => absurd h hactive⟩

theorem steady_of_isTerminal (hterminal : x.state.isTerminal = true)
    (hclosed : x.eventSubscriptions = [])
    (hknown : x.hasScope = true → ∀ w ∈ e.waits, ¬x.Orphans w) : e.Steady x := by
  have hlive : x.state.isTerminal ≠ false := by simp [hterminal]
  exact ⟨fun _ => hclosed, fun h => absurd h hlive, fun _ => hknown, fun h => absurd h hlive⟩

theorem Steady.mendable (h : e.Steady x) : e.Mendable x :=
  fun hlive hactive => ⟨(h.handled hlive hactive).1, h.parked hlive hactive⟩

theorem SameRecords.steady (hsame : SameRecords e e') (h : e.Steady x) : e'.Steady x :=
  h.congr hsame.definitions (fun p _ => hsame.holds p) fun p _ => (hsame.holds p).mpr

end Engine

namespace Eng

variable {env : Env} {e e' : Engine} {x : ProcessInstance} {i : Uuid} {tokens : List Token}

/-- An instance whose examination returned no token is steady afterwards. -/
theorem Examined.steady (h : Examined i e [] e') (hx : x ∈ e'.instances) (hi : x.id = i) :
    e'.Steady x := by
  cases h with
  | nothing hstate =>
    obtain ⟨hlive, hsuspended⟩ := hstate x (hi ▸ Table.find?_of_mem hx)
    exact steady_of_isSuspended hlive hsuspended
  | closes _ hterminal h =>
    obtain ⟨z, hz, hstate, hnone, hown⟩ := h.own
    obtain rfl : x = z := Option.some.inj ((hi ▸ Table.find?_of_mem hx).symm.trans hz)
    refine steady_of_isTerminal (hstate ▸ hterminal) hnone fun hscope w hw => ?_
    obtain ⟨p, hp, rfl⟩ := exists_holds hw
    rcases hown with rfl | ⟨_, hclosed⟩
    · exact (((h.holds p).mp hp).2 hscope).2
    · cases hscope.symm.trans hclosed
  | @tends y _ _ _ hy hlive hactive hhandled h htokens =>
    rw [← h.instances] at hy
    obtain rfl : x = y := Option.some.inj ((hi ▸ Table.find?_of_mem hx).symm.trans hy)
    refine ⟨fun hterminal => ?_, fun _ _ => ⟨?_, h.awaited⟩, fun _ hscope w hw => ?_,
      fun _ _ hscope token ht => ?_⟩
    · rw [hlive] at hterminal
      cases hterminal
    · simpa only [Engine.Handled, h.definitions] using hhandled
    · obtain ⟨p, hp, rfl⟩ := exists_holds hw
      exact h.dropped hscope p hp
    · by_contra hunparked
      exact List.not_mem_nil ((htokens token).mpr ⟨hscope, ht, Bool.eq_false_iff.mpr hunparked⟩)

theorem Examined.sameRecords (h : Examined i e tokens e') (hs : ∀ x ∈ e.instances, e.Steady x) :
    e.SameRecords e' := by
  cases h with
  | nothing => exact .refl e
  | @closes x _ _ hx hterminal h =>
    have hsteady := hs x (Table.mem_of_find? hx)
    obtain ⟨y, hy, _, hnone, hown⟩ := h.own
    obtain rfl := hown.resolve_right fun hsome => hsome.1 (hsteady.closed hterminal)
    refine ⟨fun key => by rw [h.definitions], fun j => ?_, fun p => ?_⟩
    · by_cases hj : j = y.id
      · rw [hj, hy, hx]
      · exact h.others j hj
    · rw [h.holds]
      refine and_iff_left_of_imp fun hp hscope => ⟨?_, ?_⟩
      · rintro ⟨_, s, hs, _⟩
        rw [hnone] at hs
        cases hs
      · exact hsteady.known (InstanceState.isSuspended_of_isTerminal hterminal) hscope _
          hp.mem_waits
  | @tends x _ _ _ hx hlive hactive _ h =>
    have hsteady := hs x (Table.mem_of_find? hx)
    refine ⟨fun key => by rw [h.definitions], fun j => by rw [h.instances],
      fun p => ⟨h.nothing (hsteady.handled hlive hactive).2 p, fun hp => ?_⟩⟩
    exact h.kept p hp fun hscope => hsteady.known hactive hscope _ hp.mem_waits

theorem Examined.eq_nil (h : Examined i e tokens e') (hm : ∀ x ∈ e'.instances, e'.Mendable x) :
    tokens = [] := by
  cases h with
  | nothing => rfl
  | closes => rfl
  | @tends x _ _ _ hx hlive hactive _ h htokens =>
    refine List.eq_nil_iff_forall_not_mem.mpr fun token ht => ?_
    obtain ⟨hscope, hmem, hunparked⟩ := (htokens token).mp ht
    have hparked := (hm x (h.instances ▸ Table.mem_of_find? hx) hlive hactive).2 hscope token hmem
    cases hparked.symm.trans hunparked

/-! ## Passes over several instances -/

/-- Examines instances one after another; no token has to run. -/
inductive Pass (env : Env) : List Uuid → Engine → Engine → Prop where
  | done {e : Engine} : Pass env [] e e
  | next {i : Uuid} {rest : List Uuid} {e e₁ e' : Engine}
      (h : exec (reconcileInstance env i) e = (.ok [], e₁)) (hrest : Pass env rest e₁ e') :
      Pass env (i :: rest) e e'

namespace Pass

variable {ids : List Uuid}

theorem find?_of_notMem (h : Pass env ids e e') {j : Uuid} (hj : j ∉ ids) :
    e'.instances.find? j = e.instances.find? j := by
  induction h with
  | done => rfl
  | next h _ ih =>
    rw [List.mem_cons, not_or] at hj
    rw [ih hj.2, (examined_of_exec h).others hj.1]

theorem find?_head {rest : List Uuid} {e₁ : Engine} (hnodup : (i :: rest).Nodup)
    (h : exec (reconcileInstance env i) e = (.ok [], e₁)) (hrest : Pass env rest e₁ e')
    (hsame : ∀ j, e'.instances.find? j = e.instances.find? j) (j : Uuid) :
    e₁.instances.find? j = e.instances.find? j := by
  by_cases hj : j = i
  · subst hj
    rw [← hrest.find?_of_notMem (List.nodup_cons.mp hnodup).1, hsame]
  · exact (examined_of_exec h).others hj

theorem holds_of_notMem (h : Pass env ids e e') (hnodup : ids.Nodup)
    (hsame : ∀ j, e'.instances.find? j = e.instances.find? j) {p : Pending}
    (hp : p.wait.instanceId ∉ ids) : e'.Holds p ↔ e.Holds p := by
  induction h with
  | done => exact Iff.rfl
  | next h hrest ih =>
    have hfirst := find?_head hnodup h hrest hsame
    rw [List.mem_cons, not_or] at hp
    rw [ih (List.nodup_cons.mp hnodup).2 (fun j => (hsame j).trans (hfirst j).symm) hp.2,
      (examined_of_exec h).holds_others (hfirst _) hp.1]

theorem steady (h : Pass env ids e e') (hnodup : ids.Nodup) (hsame : e.SameRecords e')
    (hx : x ∈ e.instances) (hmem : x.id ∈ ids) : e.Steady x := by
  induction h with
  | done => cases hmem
  | @next i rest e e₁ e' h hrest ih =>
    obtain ⟨hi, hrestNodup⟩ := List.nodup_cons.mp hnodup
    have hfirst := find?_head hnodup h hrest hsame.instances
    have hlater : ∀ j, e'.instances.find? j = e₁.instances.find? j :=
      fun j => (hsame.instances j).trans (hfirst j).symm
    have hsame₁ : e.SameRecords e₁ := by
      refine ⟨fun key => by rw [(examined_of_exec h).definitions], hfirst, fun p => ?_⟩
      -- the waits of the first instance are final, the others are not touched
      by_cases hp : p.wait.instanceId = i
      · rw [← hrest.holds_of_notMem hrestNodup hlater (hp ▸ hi), hsame.holds]
      · exact (examined_of_exec h).holds_others (hfirst i) hp
    rcases List.mem_cons.mp hmem with rfl | hmem
    · have hsteady := (examined_of_exec h).steady (hsame₁.mem_instances.mpr hx) rfl
      exact hsame₁.symm.steady hsteady
    · have hsteady := ih hrestNodup (hsame₁.symm.trans hsame) (hsame₁.mem_instances.mpr hx) hmem
      exact hsame₁.symm.steady hsteady

theorem of_steady (ids : List Uuid) (h : ∀ x ∈ e.instances, e.Steady x) :
    ∃ e', Pass env ids e e' ∧ e.SameRecords e' := by
  induction ids generalizing e with
  | nil => exact ⟨e, .done, .refl e⟩
  | cons i rest ih =>
    obtain ⟨tokens, e₁, hexec, hexamined⟩ := exec_reconcileInstance_examined env i
      fun x hx hlive hactive => ((h x (Table.mem_of_find? hx)).handled hlive hactive).1
    have hsame₁ := hexamined.sameRecords h
    have hsteady : ∀ x ∈ e₁.instances, e₁.Steady x :=
      fun x hx => hsame₁.steady (h x (hsame₁.mem_instances.mp hx))
    obtain rfl := hexamined.eq_nil fun x hx => (hsteady x hx).mendable
    obtain ⟨e', hrest, hsame⟩ := ih hsteady
    exact ⟨e', .next hexec hrest, hsame₁.trans hsame⟩

end Pass

end Eng

/-! ## Snapshots that one pass mends -/

namespace Engine

/-- The waits with the identifier of a subscription belong to its instance, and no two instances
share a subscription. -/
structure Tidy (e : Engine) : Prop where
  owned : ∀ x ∈ e.instances, ∀ w ∈ e.waits, x.Subscribes w → w.instanceId = x.id
  apart : ∀ x ∈ e.instances, ∀ y ∈ e.instances, ∀ s ∈ x.eventSubscriptions,
    ∀ t ∈ y.eventSubscriptions, s.id = t.id → x.id = y.id

variable {e e' : Engine} {x : ProcessInstance}

theorem SameRecords.mem_waits (h : SameRecords e e') {w : Wait} : w ∈ e'.waits ↔ w ∈ e.waits := by
  rw [mem_waits_iff, mem_waits_iff]
  exact exists_congr fun p => and_congr_left fun _ => h.holds p

theorem SameRecords.tidy (h : SameRecords e e') (htidy : e.Tidy) : e'.Tidy :=
  ⟨fun x hx w hw => htidy.owned x (h.mem_instances.mp hx) w (h.mem_waits.mp hw),
    fun x hx y hy => htidy.apart x (h.mem_instances.mp hx) y (h.mem_instances.mp hy)⟩

theorem SameRecords.mendable (h : SameRecords e e') (hm : e.Mendable x) : e'.Mendable x := by
  intro hlive hactive
  obtain ⟨hhandled, hparked⟩ := hm hlive hactive
  refine ⟨by simpa only [Handled, h.definitions] using hhandled, fun hscope token ht => ?_⟩
  have hparked := hparked hscope token ht
  rw [Eng.isParked_iff] at hparked ⊢
  exact hparked.imp_left fun ⟨w, hw, hwait⟩ => ⟨w, h.mem_waits.mpr hw, hwait⟩

end Engine

namespace Eng

variable {env : Env} {e e' : Engine} {x : ProcessInstance} {i : Uuid} {tokens : List Token}

namespace Examined

variable {p : Pending}

section

variable (h : Examined i e tokens e')

include h

/-- The instances are those from before, apart from one that has ended and gave up its scope. -/
theorem instances (hx : x ∈ e'.instances) :
    x ∈ e.instances ∨ x.id = i ∧ x.state.isTerminal = true ∧ x.eventSubscriptions = [] := by
  by_cases hi : x.id = i
  · cases h with
    | nothing => exact .inl hx
    | closes _ hterminal h =>
      obtain ⟨z, hz, hstate, hnone, _⟩ := h.own
      obtain rfl : x = z := Option.some.inj ((hi ▸ Table.find?_of_mem hx).symm.trans hz)
      exact .inr ⟨hi, hstate ▸ hterminal, hnone⟩
    | tends _ _ _ _ h => exact .inl (h.instances ▸ hx)
  · exact .inl (Table.mem_of_find? ((h.others hi).symm.trans (Table.find?_of_mem hx)))

theorem filed (hp : e'.Holds p) :
    e.Holds p ∨ ∃ y ∈ e.instances, y.id = i ∧ p.wait.instanceId = i ∧ y.Subscribes p.wait := by
  cases h with
  | nothing => exact .inl hp
  | closes _ _ h => exact .inl ((h.holds p).mp hp).1
  | tends hx _ _ _ h =>
    exact (h.filed p hp).imp_right fun hfiled =>
      ⟨_, Table.mem_of_find? hx, rfl, hfiled.1, hfiled.2⟩

/-- In a tidy engine an examination only touches waits of its instance. -/
theorem holds_of_tidy (htidy : e.Tidy) (hp : p.wait.instanceId ≠ i) : e'.Holds p ↔ e.Holds p := by
  cases h with
  | nothing => exact Iff.rfl
  | closes hx _ h =>
    rw [h.holds]
    refine and_iff_left_of_imp fun hheld _ => ⟨fun hsub => hp ?_, fun horphan => hp horphan.1⟩
    exact htidy.owned _ (Table.mem_of_find? hx) _ hheld.mem_waits hsub
  | tends _ _ _ _ h =>
    constructor
    · exact fun hp' => (h.filed p hp').resolve_right fun hown => hp hown.1
    · exact fun hp' => h.kept p hp' fun _ horphan => hp horphan.1

theorem tidy (htidy : e.Tidy) : e'.Tidy := by
  refine ⟨fun x hx w hw hsub => ?_, fun x hx y hy s hs t ht hid => ?_⟩
  · rcases h.instances hx with hx | ⟨_, _, hnone⟩
    · obtain ⟨p, hp, rfl⟩ := exists_holds hw
      rcases h.filed hp with hp | ⟨y, hy, hyi, howner, _, t, ht, htid⟩
      · exact htidy.owned x hx _ hp.mem_waits hsub
      · obtain ⟨_, s, hs, hsid⟩ := hsub
        rw [howner, ← hyi]
        exact (htidy.apart x hx y hy s hs t ht (hsid.trans htid.symm)).symm
    · obtain ⟨_, s, hs, _⟩ := hsub
      rw [hnone] at hs
      cases hs
  · rcases h.instances hx with hx | ⟨_, _, hnone⟩
    · rcases h.instances hy with hy | ⟨_, _, hnone⟩
      · exact htidy.apart x hx y hy s hs t ht hid
      · rw [hnone] at ht
        cases ht
    · rw [hnone] at hs
      cases hs

theorem steady_of_ne (htidy : e.Tidy) (hx : x ∈ e.instances) (hi : x.id ≠ i)
    (hsteady : e.Steady x) : e'.Steady x := by
  refine hsteady.congr (fun key => by rw [h.definitions]) (fun p hp => ?_) fun p hsub hp => ?_
  · exact h.holds_of_tidy htidy (hp ▸ hi)
  · have howner := htidy.owned x hx _ hp.mem_waits hsub
    exact (h.holds_of_tidy htidy (howner ▸ hi)).mpr hp

/-- Tokens stay parked: their waits are no orphans. -/
theorem mendable (htidy : e.Tidy) (hm : ∀ x ∈ e.instances, e.Mendable x) (hx : x ∈ e'.instances) :
    e'.Mendable x := by
  intro hlive hactive
  rcases h.instances hx with hmem | ⟨_, hterminal, _⟩
  · obtain ⟨hhandled, hparked⟩ := hm x hmem hlive hactive
    refine ⟨by simpa only [Engine.Handled, h.definitions] using hhandled, fun hscope token ht => ?_⟩
    have hparked := hparked hscope token ht
    rw [isParked_iff] at hparked ⊢
    refine hparked.imp_left fun ⟨w, hw, howner, htoken⟩ => ⟨w, ?_, howner, htoken⟩
    obtain ⟨p, hp, rfl⟩ := exists_holds hw
    have hknown : ¬x.Orphans p.wait := by
      refine fun horphan => horphan.2.1 ?_
      rw [htoken]
      exact List.mem_append_left _ (List.mem_map_of_mem ht)
    refine Engine.Holds.mem_waits ?_
    by_cases hi : x.id = i
    · cases h with
      | nothing => exact hp
      | closes hy hterminal =>
        obtain rfl := Option.some.inj ((hi ▸ Table.find?_of_mem hmem).symm.trans hy)
        rw [hlive] at hterminal
        cases hterminal
      | tends hy _ _ _ h =>
        obtain rfl := Option.some.inj ((hi ▸ Table.find?_of_mem hmem).symm.trans hy)
        exact h.kept p hp fun _ => hknown
    · exact (h.holds_of_tidy htidy (howner ▸ hi)).mpr hp
  · rw [hlive] at hterminal
    cases hterminal

end

end Examined

/-- After a pass over all instances of a mendable snapshot every instance is steady. -/
theorem Pass.of_mendable (ids : List Uuid) (htidy : e.Tidy) (hm : ∀ x ∈ e.instances, e.Mendable x)
    (hrest : ∀ x ∈ e.instances, x.id ∉ ids → e.Steady x) :
    ∃ e', Pass env ids e e' ∧ ∀ x ∈ e'.instances, e'.Steady x := by
  induction ids generalizing e with
  | nil => exact ⟨e, .done, fun x hx => hrest x hx List.not_mem_nil⟩
  | cons i ids ih =>
    obtain ⟨tokens, e₁, hexec, hexamined⟩ := exec_reconcileInstance_examined env i
      fun x hx hlive hactive => (hm x (Table.mem_of_find? hx) hlive hactive).1
    obtain rfl := hexamined.eq_nil fun x => hexamined.mendable htidy hm
    obtain ⟨e', hpass, hsteady⟩ := ih (hexamined.tidy htidy) (fun x => hexamined.mendable htidy hm)
      fun x hx hids => by
        by_cases hi : x.id = i
        · exact hexamined.steady hx hi
        · have hmem := (hexamined.instances hx).resolve_right fun h => hi h.1
          exact hexamined.steady_of_ne htidy hmem hi
            (hrest x hmem (List.not_mem_cons_of_ne_of_not_mem hi hids))
    exact ⟨e', .next hexec hpass, hsteady⟩

end Eng

/-! ## The start of a server -/

/-- The storage holds the records of an engine. -/
structure Records.Stores (r : Records) (e : Engine) : Prop where
  definitions : r.definitions = e.definitions
  instances : r.instances = e.instances
  waits : ∀ p, p ∈ r.waits ↔ e.Holds p

namespace Engine

variable {waits : List Pending} {e : Engine}

theorem sameCore_foldl_insertPending (waits : List Pending) (e : Engine) :
    SameCore e (waits.foldl (fun e p => e.insertPending p) e) := by
  induction waits generalizing e with
  | nil => exact .refl e
  | cons p rest ih => exact (sameCore_insertPending e p).trans (ih _)

theorem holds_of_foldl_insertPending {p : Pending}
    (h : (waits.foldl (fun e p => e.insertPending p) e).Holds p) : p ∈ waits ∨ e.Holds p := by
  induction waits generalizing e with
  | nil => exact .inr h
  | cons q rest ih =>
    rcases ih h with h | h
    · exact .inl (List.mem_cons_of_mem q h)
    · rcases holds_insertPending.mp h with rfl | ⟨h, _⟩
      · exact .inl List.mem_cons_self
      · exact .inr h

theorem foldl_insertPending_holds {p : Pending}
    (hunique : ∀ q ∈ waits, q.wait.kind = p.wait.kind → q.wait.id = p.wait.id → q = p)
    (h : p ∈ waits ∨ e.Holds p) : (waits.foldl (fun e p => e.insertPending p) e).Holds p := by
  induction waits generalizing e with
  | nil => exact h.resolve_left List.not_mem_nil
  | cons q rest ih =>
    refine ih (fun r hr => hunique r (List.mem_cons_of_mem q hr)) ?_
    by_cases hq : q = p
    · exact .inr (holds_insertPending.mpr (.inl hq.symm))
    · rcases h with h | h
      · exact .inl ((List.mem_cons.mp h).resolve_left fun h => hq h.symm)
      · refine .inr (holds_insertPending.mpr (.inr ⟨h, fun hsame => hq ?_⟩))
        exact hunique q List.mem_cons_self hsame.1.symm hsame.2.symm

theorem sameRecords_restore {r : Records} (h : r.Stores e) (clock : Time) :
    e.SameRecords (restore r clock) := by
  have hcore := sameCore_foldl_insertPending r.waits
    { Engine.new clock with
      definitions := r.definitions
      instances := r.instances
      nextUuid := r.nextUuid }
  refine ⟨fun key => ?_, fun i => ?_, fun p => ?_⟩
  · rw [restore, hcore.definitions, h.definitions]
  · rw [restore, hcore.instances, h.instances]
  · rw [← h.waits]
    constructor
    · refine fun hp => (holds_of_foldl_insertPending hp).resolve_right fun hp => ?_
      cases p <;> exact Table.notMem_empty _ hp
    · refine fun hp => foldl_insertPending_holds (fun q hq hkind hid => ?_) (.inl hp)
      exact Holds.eq_of_wait ((h.waits q).mp hq) ((h.waits p).mp hp) hkind hid

end Engine

namespace Server

variable {env : Env} {e e₁ e' e₀ : Engine} {ids : List Uuid} {s : Server} {move : ServerMove}
  {rest : List Reconciliation}

def reconciling (env : Env) (e : Engine) : Server where
  config := .idle e
  phase := .reconciling ((env.visit e.nextUuid e.instances.entries).map fun i => .examine i.id)

theorem boot_eq_reconciling (env : Env) (r : Records) (clock : Time) :
    boot env r clock = reconciling env (Engine.restore r clock) := by
  have hcore := sameCore_foldl_insertPending r.waits
    { Engine.new clock with
      definitions := r.definitions
      instances := r.instances
      nextUuid := r.nextUuid }
  rw [boot, reconciling, Engine.restore, hcore.instances, hcore.nextUuid]

def Starts (env : Env) : Server → Server → Prop :=
  Reaches (step env) fun s _ => s.phase ≠ .serving

/-- A start that executes no token, ends in service, and leaves the records of an engine as they
are. -/
structure Transparent (env : Env) (s₀ : Server) (e : Engine) : Prop where
  quiet : ∀ s, Starts env s₀ s → s.config.control = .idle
  serves : ∃ s, Starts env s₀ s ∧ s.phase = .serving
  same : ∀ s, Starts env s₀ s → s.phase = .serving → e.SameRecords s.config.engine

def examining (e : Engine) (ids : List Uuid) : Server :=
  ⟨.idle e, .reconciling (ids.map .examine)⟩

theorem step_examining {work : List Reconciliation} :
    step env ⟨.idle e, .reconciling work⟩ move = some s ↔
      move = .reconcile ∧ reconcile env (.idle e) work = s := by
  rcases move with _ | _ | _
  · simp [step, reconcileStep, Config.idle]
  · simp [step, Config.step, Config.internalStep, Config.idle]
  · simp [step]

theorem reconcile_examine {i : Uuid} {tokens : List Token}
    (h : exec (Eng.reconcileInstance env i) e = (.ok tokens, e₁)) :
    reconcile env (.idle e) (.examine i :: rest) =
      ⟨.idle e₁, .reconciling (tokens.map (.rerun i) ++ rest)⟩ := by
  rw [reconcile]
  simp only [Config.idle] at h ⊢
  rw [h]

theorem reconcile_examine_error {i : Uuid} {error : EngineError}
    (h : exec (Eng.reconcileInstance env i) e = (.error error, e₁)) :
    reconcile env (.idle e) (.examine i :: rest) = ⟨.idle e₁, .failed⟩ := by
  rw [reconcile]
  simp only [Config.idle] at h ⊢
  rw [h]

theorem step_failed : step env ⟨.idle e, .failed⟩ move = none := by
  rcases move with _ | _ | _ <;> rfl

/-- A start over a pass goes through the rest of the pass and ends in service. -/
theorem starts_of_pass (h : Eng.Pass env ids e e') (hs : Starts env (examining e ids) s) :
    (∃ e₁ rest, s = examining e₁ rest ∧ Eng.Pass env rest e₁ e') ∨ s = ⟨.idle e', .serving⟩ := by
  refine hs.invariant (P := fun s => (∃ e₁ rest, s = examining e₁ rest ∧
    Eng.Pass env rest e₁ e') ∨ s = ⟨.idle e', .serving⟩) (.inl ⟨e, ids, rfl, h⟩) ?_
  rintro s move t (⟨e₁, rest, rfl, hpass⟩ | rfl) hguard hstep
  · obtain ⟨_, rfl⟩ := step_examining.mp hstep
    cases hpass with
    | done => exact .inr rfl
    | next hexec hrest => exact .inl ⟨_, _, reconcile_examine hexec, hrest⟩
  · exact absurd rfl hguard

theorem pass_serves (h : Eng.Pass env ids e e') :
    Starts env (examining e ids) ⟨.idle e', .serving⟩ := by
  induction h with
  | done => exact .next .start nofun (step_examining.mpr ⟨rfl, rfl⟩)
  | next hexec _ ih =>
    exact (Reaches.next .start nofun (step_examining.mpr ⟨rfl, reconcile_examine hexec⟩)).trans ih

/-- A start that executes no token and ends in service is over a pass. -/
theorem pass_of_starts (hquiet : ∀ s, Starts env (examining e ids) s → s.config.control = .idle)
    (hserves : ∃ s, Starts env (examining e ids) s ∧ s.phase = .serving) :
    ∃ e', Eng.Pass env ids e e' := by
  induction ids generalizing e with
  | nil => exact ⟨e, .done⟩
  | cons i rest ih =>
    -- the start goes on after its first step, which is the examination of the first instance
    have hstep : step env (examining e (i :: rest)) .reconcile =
        some (reconcile env (.idle e) ((i :: rest).map .examine)) :=
      step_examining.mpr ⟨rfl, rfl⟩
    have hlater : ∃ s, Starts env (reconcile env (.idle e) ((i :: rest).map .examine)) s ∧
        s.phase = .serving := by
      obtain ⟨s, hs, hphase⟩ := hserves
      rcases hs.cases_head with rfl | ⟨move, t, _, ht, hrest⟩
      · cases hphase
      · obtain ⟨_, rfl⟩ := step_examining.mp ht
        exact ⟨s, hrest, hphase⟩
    rcases hexec : exec (Eng.reconcileInstance env i) e with ⟨error | tokens, e₁⟩
    · obtain ⟨s, hs, hphase⟩ := hlater
      have hfirst : reconcile env (.idle e) ((i :: rest).map .examine) = ⟨.idle e₁, .failed⟩ :=
        reconcile_examine_error hexec
      rw [hfirst] at hs
      rcases hs.cases_head with rfl | ⟨move, t, _, ht, _⟩
      · cases hphase
      · rw [step_failed] at ht
        cases ht
    · have hfirst : reconcile env (.idle e) ((i :: rest).map .examine) =
          ⟨.idle e₁, .reconciling (tokens.map (.rerun i) ++ rest.map .examine)⟩ :=
        reconcile_examine hexec
      rw [hfirst] at hstep hlater
      cases tokens with
      | nil =>
        obtain ⟨e', hpass⟩ := ih
          (fun s hs => hquiet s ((Reaches.next .start nofun hstep).trans hs)) hlater
        exact ⟨e', .next hexec hpass⟩
      | cons token =>
        -- the first token that was returned runs
        have hunparked : Eng.stillUnparked (Config.idle e₁).engine i token.id = true :=
          (Eng.examined_of_exec hexec).stillUnparked List.mem_cons_self
        have hidle := hquiet _ ((Reaches.next .start nofun hstep).next nofun
          (step_examining.mpr ⟨rfl, rfl⟩))
        rw [List.map_cons, List.cons_append, reconcile, if_pos hunparked] at hidle
        cases hidle

/-! ## The law of restarts -/

theorem reconciling_eq_examining (env : Env) (e : Engine) :
    reconciling env e =
      examining e ((env.visit e.nextUuid e.instances.entries).map ProcessInstance.id) := by
  rw [reconciling, examining, List.map_map]
  rfl

theorem mem_visited {x : ProcessInstance} (hx : x ∈ e.instances) :
    x.id ∈ (env.visit e.nextUuid e.instances.entries).map ProcessInstance.id :=
  List.mem_map_of_mem ((env.mem_visit _ _ _).mpr hx)

theorem nodup_visited (env : Env) (e : Engine) :
    ((env.visit e.nextUuid e.instances.entries).map ProcessInstance.id).Nodup :=
  ((env.visit_perm e.nextUuid e.instances.entries).map _).nodup_iff.mpr e.instances.keysNodup

theorem transparent_of_pass (h : Eng.Pass env ids e e') (hsame : e₀.SameRecords e') :
    Transparent env (examining e ids) e₀ := by
  refine ⟨fun s hs => ?_, ⟨_, pass_serves h, rfl⟩, fun s hs hphase => ?_⟩
  · rcases starts_of_pass h hs with ⟨e₁, rest, rfl, _⟩ | rfl <;> rfl
  · rcases starts_of_pass h hs with ⟨e₁, rest, rfl, _⟩ | rfl
    · cases hphase
    · exact hsame

/-- Reconciling changes nothing exactly if every instance is steady. -/
theorem reconciling_transparent_iff (hsame : e₀.SameRecords e) :
    Transparent env (reconciling env e) e₀ ↔ ∀ x ∈ e₀.instances, e₀.Steady x := by
  rw [reconciling_eq_examining]
  constructor
  · intro h x hx
    obtain ⟨e', hpass⟩ := pass_of_starts h.quiet h.serves
    have hsame' := h.same _ (pass_serves hpass) rfl
    have hmem := hsame.mem_instances.mpr hx
    have hsteady := hpass.steady (nodup_visited env e) (hsame.symm.trans hsame') hmem
      (mem_visited hmem)
    exact hsame.symm.steady hsteady
  · intro h
    obtain ⟨e', hpass, hsame'⟩ : ∃ e', Eng.Pass env
        ((env.visit e.nextUuid e.instances.entries).map ProcessInstance.id) e e' ∧
        e.SameRecords e' :=
      Eng.Pass.of_steady _ fun x hx => hsame.steady (h x (hsame.mem_instances.mp hx))
    exact transparent_of_pass hpass (hsame.trans hsame')

/-- A restart is transparent exactly if every stored instance is steady. Whatever the snapshot, a
second reconciliation changes nothing exactly if the first has left every instance steady; the
first does so, without executing a token, if the snapshot is tidy and its instances are
mendable. -/
theorem restart_transparent_iff (env : Env) {r : Records} {e : Engine} (h : r.Stores e)
    (clock : Time) :
    (Transparent env (boot env r clock) e ↔ ∀ x ∈ e.instances, e.Steady x) ∧
    (∀ s, Starts env (boot env r clock) s → s.phase = .serving →
      (Transparent env (reconciling env s.config.engine) s.config.engine ↔
        ∀ x ∈ s.config.engine.instances, s.config.engine.Steady x)) ∧
    (e.Tidy → (∀ x ∈ e.instances, e.Mendable x) →
      (∀ s, Starts env (boot env r clock) s → s.config.control = .idle) ∧
      (∃ s, Starts env (boot env r clock) s ∧ s.phase = .serving) ∧
      ∀ s, Starts env (boot env r clock) s → s.phase = .serving →
        Transparent env (reconciling env s.config.engine) s.config.engine) := by
  have hsame := sameRecords_restore h clock
  rw [boot_eq_reconciling]
  refine ⟨reconciling_transparent_iff hsame, fun s _ _ => reconciling_transparent_iff (.refl _),
    fun htidy hmendable => ?_⟩
  generalize Engine.restore r clock = loaded at hsame ⊢
  rw [reconciling_eq_examining]
  generalize hids :
    (env.visit loaded.nextUuid loaded.instances.entries).map ProcessInstance.id = ids
  obtain ⟨e', hpass, hsteady⟩ : ∃ e', Eng.Pass env ids loaded e' ∧
      ∀ x ∈ e'.instances, e'.Steady x :=
    Eng.Pass.of_mendable ids (hsame.tidy htidy)
      (fun x hx => hsame.mendable (hmendable x (hsame.mem_instances.mp hx)))
      fun x hx hnot => absurd (hids ▸ mem_visited hx) hnot
  have htransparent := transparent_of_pass hpass (.refl e')
  refine ⟨htransparent.quiet, htransparent.serves, fun s hs hphase => ?_⟩
  obtain rfl : s = ⟨.idle e', .serving⟩ := by
    rcases starts_of_pass hpass hs with ⟨_, _, rfl, _⟩ | h
    · cases hphase
    · exact h
  exact (reconciling_transparent_iff (.refl _)).mpr hsteady

end Server

/-! ## Two orders -/

/-- The records of an engine. -/
def Engine.records (e : Engine) (h : ∀ t ∈ e.pendingServiceTasks, t.id < e.nextUuid) : Records where
  definitions := e.definitions
  instances := e.instances
  userTasks := e.pendingUserTasks
  serviceTasks := e.pendingServiceTasks
  timers := e.pendingTimers
  messageCatches := e.pendingMessageCatches
  signalCatches := e.pendingSignalCatches
  conditionalCatches := e.pendingConditionalCatches
  nextUuid := e.nextUuid
  drawn := h

theorem Engine.stores_records {e : Engine} (h : ∀ t ∈ e.pendingServiceTasks, t.id < e.nextUuid) :
    (e.records h).Stores e := by
  refine ⟨rfl, rfl, fun p => ?_⟩
  cases p <;> simp [Records.waits, records, Holds, Table.mem_def]

theorem Engine.exists_stores {env : Env} {clock : Time} {c : Config}
    (h : Reaches (Config.step env) (fun _ _ => True) (.initial clock) c) :
    ∃ r : Records, r.Stores c.engine :=
  ⟨_, stores_records fun _ ht => (Config.inOrder_of_reaches h).ok.sound.drawn.waits _
    (Holds.mem_waits (p := .serviceTask _) ht)⟩

/-- An order that can be cancelled; the cancellation forks. -/
def forkingOrder : ProcessDefinition :=
  { ProcessDefinition.ofGraph "order"
      [("start", .startEvent), ("work", .userTask "work"), ("end", .endEvent),
        ("cancelled", .messageStartEvent "cancel"), ("split", .parallelGateway),
        ("refund", .userTask "refund"), ("inform", .userTask "inform"), ("closed", .endEvent)]
      [("start", [.simple "work"]), ("work", [.simple "end"]), ("cancelled", [.simple "split"]),
        ("split", [.simple "refund", .simple "inform"]), ("refund", [.simple "closed"]),
        ("inform", [.simple "closed"])] with
    eventSubprocesses :=
      [⟨"cancellation", "cancelled", ["cancelled", "split", "refund", "inform", "closed"],
        .message "cancel", true⟩] }

/-- The order waits for its work and for a cancellation, and a restart changes nothing. -/
theorem waiting_order_restarts : ∃ (c : Config) (r : Records),
    Reaches (Config.step .plain) (fun _ _ => True) (.initial 0) c ∧ c.control = .idle ∧
      r.Stores c.engine ∧ (∀ x ∈ c.engine.instances, c.engine.Steady x) ∧
      Server.Transparent .plain (Server.boot .plain r 9) c.engine := by
  have hrun : (Config.performAll .plain 100 (.initial 0)
      [.deployDefinition forkingOrder, .startInstance 1 ∅]).map (fun c =>
        decide (∀ x ∈ c.engine.instances.entries, c.engine.Steady x)) = some true := by
    decide +kernel
  obtain ⟨c, hreach, hidle, hsteady⟩ := Config.exists_of_performAll hrun
  have hsteady := of_decide_eq_true hsteady
  obtain ⟨r, hr⟩ := exists_stores hreach
  exact ⟨c, r, hreach, hidle, hr, hsteady, (Server.restart_transparent_iff .plain hr 9).1.mpr
    hsteady⟩

def Server.beforeService (s : Server) : Bool :=
  match s.phase with
  | .serving => false
  | .reconciling _ | .failed => true

theorem Server.ne_serving_of_beforeService {s : Server} (h : s.beforeService = true) :
    s.phase ≠ .serving := by
  intro hphase
  rw [beforeService, hphase] at h
  cases h

/-- The token of the cancellation has forked and is still in the token table. No wait names it, so
a restart runs it once more, from the start of the cancellation. -/
theorem cancelled_order_runs_again : ∃ (c : Config) (r : Records) (s : Server) (b : Batch),
    Reaches (Config.step .plain) (fun _ _ => True) (.initial 0) c ∧ c.control = .idle ∧
      r.Stores c.engine ∧ Server.Starts .plain (Server.boot .plain r 0) s ∧
      s.config.control = .running b ∧ b.queue.map Token.currentNode = ["cancelled"] ∧
      ¬Server.Transparent .plain (Server.boot .plain r 0) c.engine := by
  have hrun : ((Config.performAll .plain 100 (.initial 0)
      [.deployDefinition forkingOrder, .startInstance 1 ∅,
        .correlateMessage ⟨"cancel", none, ∅⟩]).bind fun c =>
      if h : ∀ t ∈ c.engine.pendingServiceTasks.entries, t.id < c.engine.nextUuid then
        (run (fun s move => if s.beforeService then Server.step .plain s move else none)
          (Server.boot .plain (c.engine.records h) 0) [.reconcile, .reconcile]).map fun s =>
            match s.config.control with
            | .running b => b.queue.map Token.currentNode
            | .idle | .returning _ => []
      else none) = some ["cancelled"] := by
    decide +kernel
  obtain ⟨c, hc, hrun⟩ := Option.bind_eq_some_iff.mp hrun
  obtain ⟨hreach, hidle⟩ := Config.performAll_reaches rfl hc
  split at hrun
  case isFalse => cases hrun
  case isTrue hdrawn =>
    obtain ⟨s, hs, hqueue⟩ := Option.map_eq_some_iff.mp hrun
    have hstarts : Server.Starts .plain (Server.boot .plain (c.engine.records hdrawn) 0) s :=
      .of_checked_run (fun _ _ => Server.ne_serving_of_beforeService) hs
    cases hcontrol : s.config.control with
    | idle | returning =>
      rw [hcontrol] at hqueue
      cases hqueue
    | running b =>
      rw [hcontrol] at hqueue
      refine ⟨c, _, s, b, hreach, hidle, stores_records hdrawn, hstarts, hcontrol, hqueue,
        fun h => ?_⟩
      have hquiet := h.quiet s hstarts
      rw [hcontrol] at hquiet
      cases hquiet

end BpmnEngine
