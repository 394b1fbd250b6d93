import BpmnEngine.Footprints

/-!
# Working for one instance

Most programs of the engine work for one instance: they rewrite it, file and remove its
waits, and either interrupt the instances that were called from it or found one new
instance. What such work leaves alone is the same for all of them: another instance
keeps its record and its waits, unless it is interrupted, and then nothing of it is
left but its record.
-/
namespace BpmnEngine

open Engine

/-- What work for an instance may do besides rewriting it: file waits, add calls, end or suspend
it, and act on its whole event scope. -/
structure Powers where
  files : Prop
  calls : Prop
  ends : Prop
  scope : Prop

namespace Engine

def HasWait (e : Engine) (i : Uuid) (kind : WaitKind) (id : Uuid) : Prop :=
  ∃ w ∈ e.waits, w.kind = kind ∧ w.id = id ∧ w.instanceId = i

def Subscribed (e : Engine) (i id : Uuid) : Prop :=
  ∃ x, e.instances.find? i = some x ∧ ∃ s ∈ x.eventSubscriptions, s.id = id

/-- Everything that carries an identifier got it from the counter. -/
structure Drawn (e : Engine) : Prop where
  waits : ∀ w ∈ e.waits, w.id < e.nextUuid
  instances : ∀ i x, e.instances.find? i = some x → i < e.nextUuid
  subscriptions : ∀ i id, e.Subscribed i id → id < e.nextUuid

theorem HasWait.owner {e : Engine} {i id : Uuid} {kind : WaitKind} (h : e.HasWait i kind id)
    {w : Wait} (hw : w ∈ e.waits) (hkind : w.kind = kind) (hid : w.id = id) :
    w.instanceId = i := by
  obtain ⟨v, hv, hvkind, hvid, hvi⟩ := h
  rw [wait_unique hw hv (hkind.trans hvkind.symm) (hid.trans hvid.symm), hvi]

end Engine

variable {e' e : Engine} {fx : Effects} {p : Powers} {x : ProcessInstance}

theorem Touch.waits_drawn (h : Touch fx e e') (hd : e.Drawn) :
    ∀ w ∈ e'.waits, w.id < e'.nextUuid := by
  intro w hw
  cases h with
  | draw => exact Nat.lt_succ_of_lt (hd.waits w hw)
  | write => exact hd.waits w hw
  | create => exact hd.waits w hw
  | file hp =>
    rw [nextUuid_insertPending]
    rcases mem_waits_insertPending.mp hw with rfl | hw
    · exact hp.drawn
    · exact hd.waits w hw.1
  | drop hcore hwaits => exact hcore.nextUuid ▸ hd.waits w ((hwaits w).mp hw).1
  | abort _ _ _ hcore hwaits => exact hcore.nextUuid ▸ hd.waits w ((hwaits w).mp hw).1

/-- An instance after a touch was there before or was created under a drawn identifier, and each
of its subscriptions was there before or was opened. -/
theorem Touch.instance_drawn (h : Touch fx e e') (hd : e.Drawn) {i : Uuid}
    (hx : e'.instances.find? i = some x) :
    i < e'.nextUuid ∧ ∀ s ∈ x.eventSubscriptions, s.id < e'.nextUuid := by
  have hold : ∀ y, e.instances.find? i = some y →
      i < e.nextUuid ∧ ∀ s ∈ y.eventSubscriptions, s.id < e.nextUuid := fun y hy =>
    ⟨hd.instances i y hy, fun s hs => hd.subscriptions i s.id ⟨y, hy, s, hs, rfl⟩⟩
  suffices hnow : i < e.nextUuid ∧ ∀ s ∈ x.eventSubscriptions, s.id < e.nextUuid from
    ⟨lt_of_lt_of_le hnow.1 h.nextUuid_le, fun s hs => lt_of_lt_of_le (hnow.2 s hs) h.nextUuid_le⟩
  cases h.origin hx with
  | kept hx => exact hold x hx
  | written y f hy hf hxy =>
    subst hxy
    refine ⟨(hold y hy).1, fun s hs => ?_⟩
    rcases hf.opened y s hs with ⟨s', hs', hid⟩ | ho
    · exact hid ▸ (hold y hy).2 s' hs'
    · exact ho.2
  | created _ hid _ hsubs => exact ⟨hid, fun s hs => by simp [hsubs] at hs⟩
  | interrupted y hy hxy => exact ⟨(hold y hy).1, fun s hs => absurd (hxy ▸ hs) List.not_mem_nil⟩

theorem Touch.drawn (h : Touch fx e e') (hd : e.Drawn) : e'.Drawn where
  waits := h.waits_drawn hd
  instances _ _ hx := (h.instance_drawn hd hx).1
  subscriptions := by
    rintro i id ⟨x, hx, s, hs, rfl⟩
    exact (h.instance_drawn hd hx).2 s hs

/-- The permissions of work for an instance that starts in `e`. -/
def Effects.working (e : Engine) (i : Uuid) (p : Powers) : Effects where
  writes j := j = i
  files kind j id := p.files ∧ j = i ∧ (e.nextUuid ≤ id ∨ e.HasWait i kind id)
  removes kind id := e.HasWait i kind id ∨ e.Subscribed i id
  calls j := p.calls ∧ j = i
  ends j := p.ends ∧ j = i
  opens _ _ := False
  closes j := p.scope ∧ j = i
  founds _ := False
  aborts := p.scope
  owns kind id j := j = i ∧ e.HasWait i kind id
  removes_of_opens h := h.elim
  owner_of_files h hf := hf.2.1.trans h.1.symm

theorem Effects.working_knows (e : Engine) (i : Uuid) (p : Powers) :
    (Effects.working e i p).Knows e where
  subscriptions j x hj hx s hs kind := by
    obtain ⟨_, rfl⟩ := hj
    exact .inr ⟨x, hx, s, hs, rfl⟩
  owner w hw j ho := by
    obtain ⟨rfl, hwait⟩ := ho
    exact hwait.owner hw rfl rfl

def Works (p : Powers) (i : Uuid) (e e' : Engine) : Prop :=
  Within (Effects.working e i p) e.nextUuid e e'

def Hosts (p : Powers) (i j : Uuid) (e e' : Engine) : Prop :=
  e.nextUuid ≤ j ∧ Within ((Effects.working e i p).hosting e.nextUuid j) e.nextUuid e e'

theorem Works.hosts {i j : Uuid} (h : Works p i e e') (hj : e.nextUuid ≤ j) : Hosts p i j e e' :=
  ⟨hj, h.le (Effects.le_hosting _ _ _)⟩

/-- An instance after work for another one: as it was, with the waits it had, or interrupted
without any wait left. A wait with the identifier of an event subscription of `i` may go. -/
inductive Fate (p : Powers) (i x : Uuid) (e e' : Engine) : Prop where
  | same (h : e'.instances.find? x = e.instances.find? x)
      (hkept : ∀ w ∈ e.waits, w.instanceId = x → w.id < e.nextUuid → ¬e.Subscribed i w.id →
        w ∈ e'.waits)
  | interrupted (y : ProcessInstance) (hp : p.scope) (hy : e.instances.find? x = some y)
      (hlive : y.state.isTerminal = false)
      (h : e'.instances.find? x = some (y.interrupted e.clock))
      (hwaits : ∀ w ∈ e'.waits, w.instanceId ≠ x)

theorem constant_of_touches (h : Relation.ReflTransGen (Touch fx) e e') :
    e'.definitions = e.definitions ∧ e'.clock = e.clock := by
  induction h with
  | refl => exact ⟨rfl, rfl⟩
  | tail _ ht ih => exact ⟨ht.constant.1.trans ih.1, ht.constant.2.trans ih.2⟩

theorem absent_of_touches {x : Uuid} (h : Relation.ReflTransGen (Touch fx) e e') (hf : ¬fx.founds x)
    (hx : e.instances.find? x = none) : e'.instances.find? x = none := by
  induction h with
  | refl => exact hx
  | tail _ ht ih =>
    refine Option.eq_none_iff_forall_ne_some.mpr fun y hy => ?_
    cases ht.origin hy with
    | kept hy => simp [ih] at hy
    | written z f hz => simp [ih] at hz
    | created hfound => exact hf hfound
    | interrupted z hz => simp [ih] at hz

namespace Hosts

variable {p : Powers} {i j x : Uuid} {e e' : Engine} {w : Wait}

theorem nextUuid_le (h : Hosts p i j e e') : e.nextUuid ≤ e'.nextUuid := h.2.drawn

theorem mem_waits (h : Hosts p i j e e') (hw : w ∈ e'.waits) :
    w ∈ e.waits ∨ (p.files ∧ w.instanceId = i ∧ (e.nextUuid ≤ w.id ∨ e.HasWait i w.kind w.id)) ∨
      (w.instanceId = j ∧ e.nextUuid ≤ w.id) := by
  have htouches := h.2.touches
  clear h
  induction htouches with
  | refl => exact .inl hw
  | tail _ ht ih =>
    rcases ht.mem_waits hw with hw | hfiled
    · exact ih hw
    · exact .inr hfiled

/-- One touch keeps the waits of an instance that it does not write and does not interrupt. -/
theorem wait_kept {s t : Engine} (ht : Touch ((Effects.working e i p).hosting e.nextUuid j) s t)
    (hi : x ≠ i) (hj : x ≠ j) (hsame : t.instances.find? x = s.instances.find? x)
    (hw : w ∈ e.waits) (hx : w.instanceId = x) (hid : w.id < e.nextUuid)
    (hsub : ¬e.Subscribed i w.id) (hws : w ∈ s.waits) : w ∈ t.waits := by
  subst hx
  cases ht with
  | draw => exact hws
  | write => exact hws
  | create => exact hws
  | @file q hq =>
    refine mem_waits_insertPending.mpr (.inr ⟨hws, fun hsame => ?_⟩)
    rcases hq.files with ⟨_, _, hnew | hown⟩ | ⟨_, hnew⟩
    · exact absurd hid (not_lt_of_ge (hsame.2 ▸ hnew))
    · exact hi (hown.owner hw hsame.1 hsame.2)
    · exact absurd hid (not_lt_of_ge (hsame.2 ▸ hnew))
  | @drop _ q hcore hwaits hq =>
    by_cases hqw : q w = true
    · exact (hwaits w).mpr ⟨hws, hqw⟩
    · rcases hq w (by simpa using hqw) with (hwi | hwj) | (hown | hsubs) | hnew
      · exact absurd hwi hi
      · exact absurd hwj hj
      · exact absurd (hown.owner hw rfl rfl) hi
      · exact absurd hsubs hsub
      · exact absurd hid (not_lt_of_ge hnew)
  | @abort k y _ hy hlive _ hcore hwaits =>
    refine (hwaits w).mpr ⟨hws, fun hk => ?_⟩
    subst hk
    rw [hcore.instances, find?_modifyInstance_self, hy] at hsame
    have hstate := congrArg ProcessInstance.state (Option.some.inj hsame)
    rw [← hstate] at hlive
    exact absurd hlive (by simp [ProcessInstance.interrupted, InstanceState.isTerminal])

theorem fate (h : Hosts p i j e e') (hi : x ≠ i) (hj : x ≠ j) : Fate p i x e e' := by
  have hwrites : ¬((Effects.working e i p).hosting e.nextUuid j).writes x := not_or.mpr ⟨hi, hj⟩
  have htouches := h.2.touches
  clear h
  induction htouches with
  | refl => exact .same rfl fun w hw _ _ _ => hw
  | @tail s t hs ht ih =>
    rcases ht.find?_of_not_writes hwrites with hsame | ⟨ha, y, hy, hlive, ht', hwaits⟩
    · cases ih with
      | same h hkept =>
        refine .same (hsame.trans h) fun w hw hx hid hsub => ?_
        exact wait_kept ht hi hj hsame hw hx hid hsub (hkept w hw hx hid hsub)
      | interrupted y hp hy hlive h hwaits =>
        refine .interrupted y hp hy hlive (hsame.trans h) fun w hw => ?_
        rcases ht.mem_waits hw with hw | hfiled | hfiled
        · exact hwaits w hw
        · exact fun h => hi (h ▸ hfiled.2.1)
        · exact fun h => hj (h ▸ hfiled.1)
    · cases ih with
      | same h => exact .interrupted y ha (h ▸ hy) hlive ((constant_of_touches hs).2 ▸ ht') hwaits
      | interrupted z _ _ _ h =>
        rw [h] at hy
        cases hy
        exact absurd hlive (by simp [ProcessInstance.interrupted, InstanceState.isTerminal])

end Hosts

/-! ## The instance itself -/

/-- What work for an instance leaves of its record. -/
structure Kept (p : Powers) (y y' : ProcessInstance) : Prop where
  parent : y'.parentInstanceId = y.parentInstanceId
  state : ¬p.ends → ¬p.scope → y'.state.isTerminal ∨ y'.state.isSuspended → y'.state = y.state

theorem Kept.refl (p : Powers) (y : ProcessInstance) : Kept p y y := ⟨rfl, fun _ _ _ => rfl⟩

theorem Kept.trans {y z : ProcessInstance} (h : Kept p x y) (h' : Kept p y z) : Kept p x z where
  parent := h'.parent.trans h.parent
  state he hs hz := by
    have hzy := h'.state he hs hz
    exact hzy.trans (h.state he hs (hzy ▸ hz))

theorem Kept.interrupted (hp : p.scope) (y : ProcessInstance) (clock : Time) :
    Kept p y (y.interrupted clock) where
  parent := rfl
  state _ h := absurd hp h

namespace Hosts

variable {p : Powers} {i j x : Uuid} {e e' : Engine} {y : ProcessInstance}

section

variable (h : Hosts p i j e e')

include h

/-- The instance the work is for keeps its place and what the powers do not cover. -/
theorem kept (hi : i < e.nextUuid) (hy : e.instances.find? i = some y) :
    ∃ y', e'.instances.find? i = some y' ∧ Kept p y y' := by
  have hne : i ≠ j := fun hij => absurd hi (not_lt_of_ge (hij ▸ h.1))
  have htouches := h.2.touches
  clear h
  induction htouches with
  | refl => exact ⟨y, hy, Kept.refl p y⟩
  | @tail s t hs ht ih =>
    obtain ⟨z, hz, hkept⟩ := ih
    cases ht with
    | draw => exact ⟨z, hz, hkept⟩
    | @write k f hk hf =>
      by_cases hik : i = k
      · subst hik
        refine ⟨{ f z with id := z.id }, by rw [find?_modifyInstance_self, hz]; rfl, ?_⟩
        exact hkept.trans ⟨hf.parent z, fun he _ => hf.state (fun h => he h.1) z⟩
      · exact ⟨z, by rw [find?_modifyInstance_of_ne hik]; exact hz, hkept⟩
    | @create y' hy' hfound =>
      rcases hfound with hfound | hfound
      · exact hfound.elim
      · refine ⟨z, ?_, hkept⟩
        rw [find?_insertInstance_of_ne (hfound ▸ hne)]
        exact hz
    | file => exact ⟨z, by rwa [instances_insertPending], hkept⟩
    | drop hcore => exact ⟨z, by rwa [hcore.instances], hkept⟩
    | @abort k y' ha hy' hlive _ hcore =>
      by_cases hik : i = k
      · subst hik
        rw [hz] at hy'
        cases hy'
        refine ⟨z.interrupted s.clock, ?_, hkept.trans (.interrupted ha z s.clock)⟩
        rw [hcore.instances, find?_modifyInstance_self, hz]
        rfl
      · refine ⟨z, ?_, hkept⟩
        rw [hcore.instances, find?_modifyInstance_of_ne hik]
        exact hz

theorem absent (hj : x ≠ j) (hx : e.instances.find? x = none) : e'.instances.find? x = none :=
  absent_of_touches h.2.touches (not_or.mpr ⟨fun h => h, hj⟩) hx

/-- A founded instance was called by the instance the work is for, if by any, and that one is
older. -/
theorem parent_of_founded (hx : e.instances.find? j = none) (hy : e'.instances.find? j = some y)
    {q : Uuid} (hq : y.parentInstanceId = some q) : q = i ∧ q < j := by
  have htouches := h.2.touches
  clear h
  induction htouches generalizing y with
  | refl =>
    rw [hx] at hy
    cases hy
  | tail _ ht ih =>
    cases ht.origin hy with
    | kept hy => exact ih hy hq
    | written z f hz hf hzy =>
      subst hzy
      exact ih hz ((hf.parent z).symm.trans hq)
    | created _ _ _ _ hparent =>
      obtain ⟨hwrites, hlt⟩ := hparent q hq
      exact ⟨hwrites.resolve_right (ne_of_lt hlt), hlt⟩
    | interrupted z hz hzy =>
      subst hzy
      exact ih hz hq

theorem drawn (hd : e.Drawn) : e'.Drawn := by
  have htouches := h.2.touches
  clear h
  induction htouches with
  | refl => exact hd
  | tail _ ht ih => exact ht.drawn ih

end

end Hosts

namespace Works

variable {p : Powers} {i x : Uuid} {e e' : Engine}

theorem absent (h : Works p i e e') (hx : e.instances.find? x = none) :
    e'.instances.find? x = none :=
  absent_of_touches h.touches (fun h => h) hx

theorem fate (h : Works p i e e') (hi : x ≠ i) : Fate p i x e e' := by
  have hx : x ≠ max e.nextUuid (x + 1) :=
    ne_of_lt (lt_of_lt_of_le (Nat.lt_succ_self x) (le_max_right _ _))
  exact (h.hosts (le_max_left _ (x + 1))).fate hi hx

theorem kept (h : Works p i e e') (hi : i < e.nextUuid) {y : ProcessInstance}
    (hy : e.instances.find? i = some y) : ∃ y', e'.instances.find? i = some y' ∧ Kept p y y' :=
  (h.hosts le_rfl).kept hi hy

end Works

end BpmnEngine
