import BpmnEngine.InstanceWork

/-!
# What a change of the engine does to an instance

A change is made for some instances, and every other instance sees little of it. It
keeps its record up to its business key and its incidents, and it keeps exactly the
waits it had; or it is interrupted, which leaves it ended, without calls and without
waits. This is what all steps of the engine have in common, and it is closed under
doing one after another.
-/
namespace BpmnEngine

open Engine ProcessInstance

def ProcessInstance.core (y : ProcessInstance) : ProcessInstance :=
  { y with businessKey := "", incidents := [] }

namespace ProcessInstance

variable {y y' : ProcessInstance}

theorem eq_of_core {α : Type} (f : ProcessInstance → α) (hf : ∀ z, f z.core = f z)
    (h : y'.core = y.core) : f y' = f y := by
  rw [← hf y', h, hf]

theorem state_of_core (h : y'.core = y.core) : y'.state = y.state :=
  eq_of_core ProcessInstance.state (fun _ => rfl) h

theorem calls_of_core (h : y'.core = y.core) : y'.outstandingCalls = y.outstandingCalls :=
  eq_of_core ProcessInstance.outstandingCalls (fun _ => rfl) h

theorem parent_of_core (h : y'.core = y.core) : y'.parentInstanceId = y.parentInstanceId :=
  eq_of_core ProcessInstance.parentInstanceId (fun _ => rfl) h

theorem subscriptions_of_core (h : y'.core = y.core) :
    y'.eventSubscriptions = y.eventSubscriptions :=
  eq_of_core ProcessInstance.eventSubscriptions (fun _ => rfl) h

end ProcessInstance

namespace Engine

def Subscriptions (e : Engine) : Prop :=
  ∀ w ∈ e.waits, ∀ i, e.Subscribed i w.id → w.instanceId = i

/-- Identifiers are drawn, and those of event subscriptions are used for nothing else. -/
structure Sound (e : Engine) : Prop where
  drawn : e.Drawn
  subscriptions : e.Subscriptions

def Ranked (e : Engine) : Prop :=
  ∀ x y q, e.instances.find? x = some y → y.parentInstanceId = some q → q < x

def Calls (e : Engine) (i id : Uuid) : Prop :=
  ∃ y call, e.instances.find? i = some y ∧ y.outstandingCalls.get? id = some call

/-- Outstanding calls are of drawn identifiers, and nobody but its caller has called an instance. -/
structure Lineage (e : Engine) : Prop where
  drawn : ∀ i id, e.Calls i id → id < e.nextUuid
  caller : ∀ i id z q, e.Calls i id → e.instances.find? id = some z →
    z.parentInstanceId = some q → q = i

def Terminal (e : Engine) (i : Uuid) : Prop :=
  ∃ y, e.instances.find? i = some y ∧ y.state.isTerminal = true

def Live (e : Engine) (i : Uuid) : Prop :=
  ∃ y, e.instances.find? i = some y ∧ y.state.isTerminal = false

def Waitless (e : Engine) (i : Uuid) : Prop := ∀ w ∈ e.waits, w.instanceId ≠ i

end Engine

/-- An instance after a change that was not made for it. -/
inductive Untouched (x : Uuid) (e e' : Engine) : Prop where
  | same (h : (e'.instances.find? x).map ProcessInstance.core =
        (e.instances.find? x).map ProcessInstance.core)
      (hwaits : ∀ w, w.instanceId = x → (w ∈ e'.waits ↔ w ∈ e.waits))
  | interrupted (y y' : ProcessInstance) (hy : e.instances.find? x = some y)
      (hlive : y.state.isTerminal = false) (hy' : e'.instances.find? x = some y')
      (hend : y'.state = .completedWithError "SCOPE_INTERRUPTED")
      (hcalls : y'.outstandingCalls = ∅) (hwaits : e'.Waitless x)

/-- A change that is made for the instances in `A`. -/
structure Moves (A : Uuid → Prop) (e e' : Engine) : Prop where
  nextUuid_le : e.nextUuid ≤ e'.nextUuid
  sound : e'.Sound
  parents : ∀ x y, e.instances.find? x = some y →
    ∃ y', e'.instances.find? x = some y' ∧ y'.parentInstanceId = y.parentInstanceId
  founded : ∀ x y, e.instances.find? x = none → e'.instances.find? x = some y →
    e.nextUuid ≤ x ∧ ∀ q, y.parentInstanceId = some q → A q ∧ q < x
  called : ∀ i id, e'.Calls i id → e.Calls i id ∨ (e.nextUuid ≤ id ∧ id < e'.nextUuid) ∧
    ∀ z q, e'.instances.find? id = some z → z.parentInstanceId = some q → q = i
  untouched : ∀ x, ¬A x → Untouched x e e'

/-- Every wait was filed under a new identifier or replaces one of the same instance, and every
event subscription is old or was opened under a new identifier. -/
structure FiledFrom (e e' : Engine) : Prop where
  nextUuid_le : e.nextUuid ≤ e'.nextUuid
  waits : ∀ w ∈ e'.waits, e.HasWait w.instanceId w.kind w.id ∨ e.nextUuid ≤ w.id
  subscriptions : ∀ i id, e'.Subscribed i id → e.Subscribed i id ∨ e.nextUuid ≤ id

variable {e e' : Engine} {i id : Uuid} {fx : Effects} {f : ProcessInstance → ProcessInstance}
  {A : Uuid → Prop}

theorem FiledFrom.trans {e'' : Engine} (h : FiledFrom e e') (h' : FiledFrom e' e'') :
    FiledFrom e e'' where
  nextUuid_le := h.nextUuid_le.trans h'.nextUuid_le
  waits w hw := by
    rcases h'.waits w hw with ⟨v, hv, hkind, hid, hi⟩ | hnew
    · rw [← hkind, ← hid, ← hi]
      exact h.waits v hv
    · exact .inr (h.nextUuid_le.trans hnew)
  subscriptions i id hs := by
    rcases h'.subscriptions i id hs with hs | hnew
    · exact h.subscriptions i id hs
    · exact .inr (h.nextUuid_le.trans hnew)

namespace Untouched

variable {x : Uuid} {e e' e'' : Engine}

theorem refl : Untouched x e e := .same rfl fun _ _ => Iff.rfl

theorem find?_of_core (h : (e'.instances.find? x).map ProcessInstance.core =
    (e.instances.find? x).map ProcessInstance.core) {y : ProcessInstance}
    (hy : e.instances.find? x = some y) :
    ∃ y', e'.instances.find? x = some y' ∧ y'.core = y.core := by
  rw [hy] at h
  exact Option.map_eq_some_iff.mp h

theorem trans (h : Untouched x e e') (h' : Untouched x e' e'') : Untouched x e e'' := by
  cases h with
  | same h hwaits =>
    cases h' with
    | same h' hwaits' => exact .same (h'.trans h) fun w hw => (hwaits' w hw).trans (hwaits w hw)
    | interrupted y y' hy hlive hy' hend hcalls hnone =>
      obtain ⟨z, hz, hcore⟩ := find?_of_core h.symm hy
      exact .interrupted z y' hz (state_of_core hcore ▸ hlive) hy' hend hcalls hnone
  | interrupted y y' hy hlive hy' hend hcalls hnone =>
    cases h' with
    | same h' hwaits' =>
      obtain ⟨z, hz, hcore⟩ := find?_of_core h' hy'
      refine .interrupted y z hy hlive hz ((state_of_core hcore).trans hend)
        ((calls_of_core hcore).trans hcalls) fun w hw hx => ?_
      exact hnone w ((hwaits' w hx).mp hw) hx
    | interrupted z _ hz hzlive =>
      rw [hy'] at hz
      cases hz
      simp [hend, InstanceState.isTerminal] at hzlive

end Untouched

namespace Moves

variable {A : Uuid → Prop} {e e' e'' : Engine}

theorem refl (h : e.Sound) : Moves A e e :=
  ⟨le_rfl, h, fun _ y hy => ⟨y, hy, rfl⟩, fun _ _ hx hy => by simp [hx] at hy,
    fun _ _ h => .inl h, fun _ _ => .refl⟩

theorem trans (h : Moves A e e') (h' : Moves A e' e'') : Moves A e e'' where
  nextUuid_le := h.nextUuid_le.trans h'.nextUuid_le
  sound := h'.sound
  parents x y hy := by
    obtain ⟨y', hy', hp⟩ := h.parents x y hy
    obtain ⟨y'', hy'', hp'⟩ := h'.parents x y' hy'
    exact ⟨y'', hy'', hp'.trans hp⟩
  founded x y hx hy := by
    cases hx' : e'.instances.find? x with
    | none =>
      obtain ⟨hnew, hparent⟩ := h'.founded x y hx' hy
      exact ⟨h.nextUuid_le.trans hnew, hparent⟩
    | some z =>
      obtain ⟨y', hy', hp⟩ := h'.parents x z hx'
      obtain rfl : y = y' := Option.some.inj (hy.symm.trans hy')
      obtain ⟨hnew, hparent⟩ := h.founded x z hx hx'
      exact ⟨hnew, fun q hq => hparent q (hp.symm.trans hq)⟩
  called i id hc := by
    rcases h'.called i id hc with hc | ⟨⟨hle, hlt⟩, hcaller⟩
    · refine (h.called i id hc).imp_right fun ⟨⟨hle, hlt⟩, hcaller⟩ =>
        ⟨⟨hle, lt_of_lt_of_le hlt h'.nextUuid_le⟩, fun z q hz hq => ?_⟩
      cases hy : e'.instances.find? id with
      | none => exact absurd hlt (not_lt_of_ge (h'.founded id z hy hz).1)
      | some y =>
        obtain ⟨z', hz', hp⟩ := h'.parents id y hy
        obtain rfl : z = z' := Option.some.inj (hz.symm.trans hz')
        exact hcaller y q hy (hp.symm.trans hq)
    · exact .inr ⟨⟨h.nextUuid_le.trans hle, hlt⟩, hcaller⟩
  untouched x hx := (h.untouched x hx).trans (h'.untouched x hx)

theorem ranked (h : Moves A e e') (hr : e.Ranked) : e'.Ranked := by
  intro x y q hy hq
  cases hx : e.instances.find? x with
  | none => exact ((h.founded x y hx hy).2 q hq).2
  | some z =>
    obtain ⟨y', hy', hp⟩ := h.parents x z hx
    obtain rfl : y = y' := Option.some.inj (hy.symm.trans hy')
    exact hr x z q hx (hp.symm.trans hq)

theorem lineage (h : Moves A e e') (hl : e.Lineage) : e'.Lineage where
  drawn i id hc := by
    rcases h.called i id hc with hc | ⟨⟨_, hlt⟩, _⟩
    · exact lt_of_lt_of_le (hl.drawn i id hc) h.nextUuid_le
    · exact hlt
  caller i id z q hc hz hq := by
    rcases h.called i id hc with hc | ⟨_, hcaller⟩
    · cases hy : e.instances.find? id with
      | none => exact absurd (hl.drawn i id hc) (not_lt_of_ge (h.founded id z hy hz).1)
      | some y =>
        obtain ⟨z', hz', hp⟩ := h.parents id y hy
        obtain rfl : z = z' := Option.some.inj (hz.symm.trans hz')
        exact hl.caller i id y q hc hy (hp.symm.trans hq)
    · exact hcaller z q hz hq

end Moves

/-! ## Work for one instance is such a change -/

theorem Touch.subscribed (h : Touch fx e e') (hs : e'.Subscribed i id) :
    e.Subscribed i id ∨ fx.opens i id := by
  obtain ⟨x, hx, s, hs, rfl⟩ := hs
  cases h.origin hx with
  | kept hx => exact .inl ⟨x, hx, s, hs, rfl⟩
  | written y f hy hf hxy =>
    subst hxy
    rcases hf.opened y s hs with ⟨s', hs', hid⟩ | ho
    · exact .inl ⟨y, hy, s', hs', hid⟩
    · exact .inr ho.1
  | created _ _ _ hsubs => simp [hsubs] at hs
  | interrupted y hy hxy => exact absurd (hxy ▸ hs) List.not_mem_nil

theorem subscribed_of_touches (h : Relation.ReflTransGen (Touch fx) e e')
    (hs : e'.Subscribed i id) : e.Subscribed i id ∨ fx.opens i id := by
  induction h with
  | refl => exact .inl hs
  | tail _ ht ih =>
    rcases ht.subscribed hs with hs | ho
    · exact ih hs
    · exact .inr ho

theorem Touch.calls (h : Touch fx e e') (hc : e'.Calls i id) :
    e.Calls i id ∨ (fx.calls i ∧ fx.founds id) ∧ id < e'.nextUuid := by
  obtain ⟨x, call, hx, hcall⟩ := hc
  cases h.origin hx with
  | kept hx => exact .inl ⟨x, call, hx, hcall⟩
  | written y f hy hf hxy =>
    subst hxy
    exact (hf.calls y id call hcall).imp (fun h => ⟨y, call, hy, h⟩)
      fun hnew => ⟨hnew.1, lt_of_lt_of_le hnew.2 h.nextUuid_le⟩
  | created _ _ hcalls => simp [hcalls] at hcall
  | interrupted y hy hxy =>
    simp [← hxy, ProcessInstance.interrupted, ProcessInstance.clearScope] at hcall

theorem calls_of_touches (h : Relation.ReflTransGen (Touch fx) e e') (hc : e'.Calls i id) :
    e.Calls i id ∨ (fx.calls i ∧ fx.founds id) ∧ id < e'.nextUuid := by
  induction h with
  | refl => exact .inl hc
  | tail _ ht ih =>
    rcases ht.calls hc with hc | hnew
    · exact (ih hc).imp_right fun hnew => ⟨hnew.1, lt_of_lt_of_le hnew.2 ht.nextUuid_le⟩
    · exact .inr hnew

section Work

variable {A : Uuid → Prop} {p : Powers} {i j x : Uuid} {e e' : Engine}

theorem Works.subscriptions (h : Works p i e e') (hs : e.Sound) : e'.Subscriptions := by
  intro w hw k hk
  have hold : e.Subscribed k w.id :=
    (subscribed_of_touches h.touches hk).resolve_right fun ho => ho
  have hlt := hs.drawn.subscriptions k w.id hold
  rcases (h.hosts le_rfl).mem_waits hw with hw | ⟨_, hi, hnew | hown⟩ | ⟨_, hnew⟩
  · exact hs.subscriptions w hw k hold
  · exact absurd hlt (not_lt_of_ge hnew)
  · obtain ⟨v, hv, _, hid, hvi⟩ := hown
    rw [hi, ← hvi]
    exact hs.subscriptions v hv k (hid ▸ hold)
  · exact absurd hlt (not_lt_of_ge hnew)

theorem Hosts.subscriptions (h : Hosts p i j e e') (hp : ¬p.files) (hs : e.Sound) :
    e'.Subscriptions := by
  intro w hw k hk
  have hwait : w ∈ e.waits ∨ (w.instanceId = j ∧ e.nextUuid ≤ w.id) := by
    rcases h.mem_waits hw with hw | hw | hw
    · exact .inl hw
    · exact absurd hw.1 hp
    · exact .inr hw
  rcases subscribed_of_touches h.2.touches hk with hold | hold | ⟨hkj, hid⟩
  · have hlt := hs.drawn.subscriptions k w.id hold
    rcases hwait with hw | ⟨_, hnew⟩
    · exact hs.subscriptions w hw k hold
    · exact absurd hlt (not_lt_of_ge hnew)
  · exact hold.elim
  · rcases hwait with hw | ⟨hj, _⟩
    · exact absurd (hs.drawn.waits w hw) (not_lt_of_ge hid)
    · exact hj.trans hkj.symm

theorem Hosts.parents (h : Hosts p i j e e') (hs : e.Sound) (x : Uuid) (y : ProcessInstance)
    (hy : e.instances.find? x = some y) :
    ∃ y', e'.instances.find? x = some y' ∧ y'.parentInstanceId = y.parentInstanceId := by
  have hlt := hs.drawn.instances x y hy
  by_cases hi : x = i
  · subst hi
    obtain ⟨y', hy', hkept⟩ := h.kept hlt hy
    exact ⟨y', hy', hkept.parent⟩
  · have hj : x ≠ j := fun hxj => absurd hlt (not_lt_of_ge (hxj ▸ h.1))
    cases h.fate hi hj with
    | same hsame => exact ⟨y, hsame.trans hy, rfl⟩
    | interrupted z hp hz hlive h' =>
      rw [hy] at hz
      cases hz
      exact ⟨y.interrupted e.clock, h', rfl⟩

theorem Hosts.untouched (h : Hosts p i j e e') (hs : e.Sound) (hi : x ≠ i) (hj : x ≠ j) :
    Untouched x e e' := by
  cases h.fate hi hj with
  | same hsame hkept =>
    refine .same (by rw [hsame]) fun w hw => ⟨fun hw' => ?_, fun hw' => ?_⟩
    · rcases h.mem_waits hw' with hold | ⟨_, hwi, _⟩ | ⟨hwj, _⟩
      · exact hold
      · exact absurd (hw.symm.trans hwi) hi
      · exact absurd (hw.symm.trans hwj) hj
    · refine hkept w hw' hw (hs.drawn.waits w hw') fun hsub => hi ?_
      exact hw.symm.trans (hs.subscriptions w hw' i hsub)
  | interrupted y hp hy hlive h' hwaits => exact .interrupted y _ hy hlive h' rfl rfl hwaits

theorem Works.untouched (h : Works p i e e') (hs : e.Sound) (hi : x ≠ i) : Untouched x e e' := by
  have hx : x ≠ max e.nextUuid (x + 1) :=
    ne_of_lt (lt_of_lt_of_le (Nat.lt_succ_self x) (le_max_right _ _))
  exact (h.hosts (le_max_left _ (x + 1))).untouched hs hi hx

theorem Works.moves (h : Works p i e e') (hs : e.Sound) (hi : A i) : Moves A e e' where
  nextUuid_le := (h.hosts le_rfl).nextUuid_le
  sound := ⟨(h.hosts le_rfl).drawn hs.drawn, h.subscriptions hs⟩
  parents := (h.hosts le_rfl).parents hs
  founded x y hx hy := by simp [h.absent hx] at hy
  called i id hc := (calls_of_touches h.touches hc).imp_right fun hnew => hnew.1.2.elim
  untouched _ hx := h.untouched hs fun h => hx (h ▸ hi)

theorem Hosts.moves (h : Hosts p i j e e') (hp : ¬p.files) (hs : e.Sound) (hi : A i) (hj : A j) :
    Moves A e e' where
  nextUuid_le := h.nextUuid_le
  sound := ⟨h.drawn hs.drawn, h.subscriptions hp hs⟩
  parents := h.parents hs
  founded x y hx hy := by
    by_cases hxj : x = j
    · subst hxj
      refine ⟨h.1, fun q hq => ?_⟩
      obtain ⟨rfl, hlt⟩ := h.parent_of_founded hx hy hq
      exact ⟨hi, hlt⟩
    · rw [h.absent hxj hx] at hy
      cases hy
  called k id hc := by
    refine (calls_of_touches h.2.touches hc).imp_right fun hnew => ?_
    obtain ⟨⟨⟨_, rfl⟩, hfound⟩, hlt⟩ := hnew
    obtain rfl : id = j := hfound.resolve_left fun h => h
    refine ⟨⟨h.1, hlt⟩, fun z q hz hq => (h.parent_of_founded ?_ hz hq).1⟩
    cases hold : e.instances.find? id with
    | none => rfl
    | some y => exact absurd (hs.drawn.instances id y hold) (not_lt_of_ge h.1)
  untouched _ hx := h.untouched hs (fun h => hx (h ▸ hi)) fun h => hx (h ▸ hj)

end Work

theorem Hosts.filedFrom {p : Powers} {j : Uuid} (h : Hosts p i j e e') : FiledFrom e e' where
  nextUuid_le := h.nextUuid_le
  waits w hw := by
    rcases h.mem_waits hw with hw | ⟨_, hi, hnew | hown⟩ | ⟨_, hnew⟩
    · exact .inl ⟨w, hw, rfl, rfl, rfl⟩
    · exact .inr hnew
    · exact .inl (hi ▸ hown)
    · exact .inr hnew
  subscriptions k id hs :=
    (subscribed_of_touches h.2.touches hs).imp_right fun ho => ho.elim (fun h => h.elim) And.right

/-! ## Other changes -/

theorem Moves.of_same (hs : e.Sound) (hinstances : e'.instances = e.instances)
    (hwaits : ∀ w, w ∈ e'.waits ↔ w ∈ e.waits) (hn : e.nextUuid ≤ e'.nextUuid) : Moves A e e' where
  nextUuid_le := hn
  sound :=
    { drawn :=
        { waits := fun w hw => lt_of_lt_of_le (hs.drawn.waits w ((hwaits w).mp hw)) hn
          instances := fun i x hx =>
            lt_of_lt_of_le (hs.drawn.instances i x (hinstances ▸ hx)) hn
          subscriptions := fun i id ⟨x, hx, h⟩ =>
            lt_of_lt_of_le (hs.drawn.subscriptions i id ⟨x, hinstances ▸ hx, h⟩) hn }
      subscriptions := fun w hw i ⟨x, hx, h⟩ =>
        hs.subscriptions w ((hwaits w).mp hw) i ⟨x, hinstances ▸ hx, h⟩ }
  parents x y hy := ⟨y, by rw [hinstances]; exact hy, rfl⟩
  founded x y hx hy := by simp [hinstances, hx] at hy
  called := fun i id ⟨y, call, hy, hcall⟩ => .inl ⟨y, call, hinstances ▸ hy, hcall⟩
  untouched x _ := .same (by rw [hinstances]) fun w _ => hwaits w

theorem Moves.dress (hs : e.Sound)
    (hf : ∀ y, ({ f y with id := y.id } : ProcessInstance).core = y.core) :
    Moves A e (e.modifyInstance i f) := by
  have hfind : ∀ x y, (e.modifyInstance i f).instances.find? x = some y →
      ∃ z, e.instances.find? x = some z ∧ y.core = z.core := by
    intro x y hy
    rcases find?_modifyInstance_cases hy with hy | ⟨-, z, hz, rfl⟩
    · exact ⟨y, hy, rfl⟩
    · exact ⟨z, hz, hf z⟩
  have hsubs : ∀ x id, (e.modifyInstance i f).Subscribed x id → e.Subscribed x id := by
    rintro x id ⟨y, hy, s, hmem, rfl⟩
    obtain ⟨z, hz, hcore⟩ := hfind x y hy
    exact ⟨z, hz, s, subscriptions_of_core hcore ▸ hmem, rfl⟩
  have hcalls : ∀ x id, (e.modifyInstance i f).Calls x id → e.Calls x id := by
    rintro x id ⟨y, call, hy, hcall⟩
    obtain ⟨z, hz, hcore⟩ := hfind x y hy
    exact ⟨z, call, hz, calls_of_core hcore ▸ hcall⟩
  refine ⟨le_rfl, ⟨⟨hs.drawn.waits, fun x y hy => ?_, fun x id h => ?_⟩, fun w hw x
    h => ?_⟩, ?_, ?_,
    fun x id h => .inl (hcalls x id h), ?_⟩
  · obtain ⟨z, hz, _⟩ := hfind x y hy
    exact hs.drawn.instances x z hz
  · exact hs.drawn.subscriptions x id (hsubs x id h)
  · exact hs.subscriptions w hw x (hsubs x w.id h)
  · intro x y hy
    by_cases hxi : x = i
    · subst hxi
      refine ⟨{ f y with id := y.id }, by rw [find?_modifyInstance_self, hy]; rfl, ?_⟩
      exact parent_of_core (hf y)
    · exact ⟨y, by rw [find?_modifyInstance_of_ne hxi]; exact hy, rfl⟩
  · intro x y hx hy
    obtain ⟨z, hz, _⟩ := hfind x y hy
    rw [hx] at hz
    cases hz
  · intro x _
    refine .same ?_ fun w _ => Iff.rfl
    by_cases hxi : x = i
    · subst hxi
      rw [find?_modifyInstance_self, Option.map_map]
      exact congrArg (Option.map · _) (funext hf)
    · rw [find?_modifyInstance_of_ne hxi]

theorem FiledFrom.of_same (hinstances : e'.instances = e.instances)
    (hwaits : ∀ w, w ∈ e'.waits ↔ w ∈ e.waits) (hn : e.nextUuid ≤ e'.nextUuid) :
    FiledFrom e e' where
  nextUuid_le := hn
  waits w hw := .inl ⟨w, (hwaits w).mp hw, rfl, rfl, rfl⟩
  subscriptions := fun _ _ ⟨x, hx, h⟩ => .inl ⟨x, hinstances ▸ hx, h⟩

theorem FiledFrom.dress
    (hf : ∀ y, ({ f y with id := y.id } : ProcessInstance).eventSubscriptions =
      y.eventSubscriptions) :
    FiledFrom e (e.modifyInstance i f) where
  nextUuid_le := le_rfl
  waits w hw := .inl ⟨w, hw, rfl, rfl, rfl⟩
  subscriptions := by
    rintro x id ⟨y, hy, s, hs, rfl⟩
    rcases find?_modifyInstance_cases hy with hy | ⟨-, z, hz, rfl⟩
    · exact .inl ⟨y, hy, s, hs, rfl⟩
    · exact .inl ⟨z, hz, s, hf z ▸ hs, rfl⟩

theorem Moves.refile {p : Pending} (hs : e.Sound) (hdrawn : p.wait.id < e.nextUuid)
    (hown : ∀ w ∈ e.waits, w.kind = p.wait.kind → w.id = p.wait.id →
      w.instanceId = p.wait.instanceId)
    (hsub : ∀ i, e.Subscribed i p.wait.id → i = p.wait.instanceId) (hi : A p.wait.instanceId) :
    Moves A e (e.insertPending p) := by
  have hinstances : (e.insertPending p).instances = e.instances := instances_insertPending e p
  have hn : (e.insertPending p).nextUuid = e.nextUuid := nextUuid_insertPending e p
  have hsubs : ∀ i id, (e.insertPending p).Subscribed i id → e.Subscribed i id :=
    fun i id ⟨x, hx, h⟩ => ⟨x, hinstances ▸ hx, h⟩
  refine ⟨hn.ge, ⟨⟨fun w hw => ?_, fun i x hx => ?_, fun i id h => ?_⟩, fun w hw i h => ?_⟩,
    fun x y hy => ⟨y, by rw [hinstances]; exact hy, rfl⟩,
    fun x y hx hy => by simp [hinstances, hx] at hy,
    fun i id ⟨y, call, hy, hcall⟩ => .inl ⟨y, call, hinstances ▸ hy, hcall⟩, fun x hx => ?_⟩
  · rw [hn]
    rcases mem_waits_insertPending.mp hw with rfl | hw
    · exact hdrawn
    · exact hs.drawn.waits w hw.1
  · exact hn ▸ hs.drawn.instances i x (hinstances ▸ hx)
  · exact hn ▸ hs.drawn.subscriptions i id (hsubs i id h)
  · rcases mem_waits_insertPending.mp hw with rfl | hw
    · exact (hsub i (hsubs i _ h)).symm
    · exact hs.subscriptions w hw.1 i (hsubs i _ h)
  · refine .same (by rw [hinstances]) fun w hw => ⟨fun h => ?_, fun h => ?_⟩
    · rcases mem_waits_insertPending.mp h with rfl | h
      · exact absurd (hw ▸ hi) hx
      · exact h.1
    · refine mem_waits_insertPending.mpr (.inr ⟨h, fun hsame => hx ?_⟩)
      exact hw ▸ (hown w h hsame.1 hsame.2).symm ▸ hi

end BpmnEngine
