import BpmnEngine.EngineState

/-!
# What a program may touch

An engine program works for one instance at a time, but its tables are shared by all.
The permissions of a program say which instances it may write, which waits it may file
and remove, and whose calls, end and event subscriptions it may change. Everything a
program does is a sequence of touches that its permissions allow; what a touch leaves
alone, a program leaves alone. Taking a call off an instance needs no permission beyond
writing it; adding one does.
-/
namespace BpmnEngine

open Program Engine

/-- What ties an instance to others and to its listeners. -/
def ProcessInstance.ties (x : ProcessInstance) :
    Option Uuid × Map Uuid OutstandingCall × List EventSubscription :=
  (x.parentInstanceId, x.outstandingCalls, x.eventSubscriptions)

def InstanceState.Awake (s : InstanceState) : Prop := s.isTerminal = false ∧ s.isSuspended = false

/-- What a program is allowed to do. Waits of a kind are filed for an instance under an identifier;
the waits of a written instance may be dropped, and others by their kind and identifier. The waits
under some identifiers are known to belong to one instance. -/
structure Effects where
  writes : Uuid → Prop
  files : WaitKind → Uuid → Uuid → Prop
  removes : WaitKind → Uuid → Prop
  calls : Uuid → Prop
  ends : Uuid → Prop
  opens : Uuid → Uuid → Prop
  closes : Uuid → Prop
  founds : Uuid → Prop
  aborts : Prop
  owns : WaitKind → Uuid → Uuid → Prop
  removes_of_opens : ∀ {j id}, opens j id → ∀ kind, removes kind id
  owner_of_files : ∀ {kind id j j'}, owns kind id j → files kind j' id → j' = j

namespace Effects

variable (fx : Effects) {l : Uuid}

/-- A rewrite of an instance that the permissions allow when `k` identifiers are drawn. -/
structure Respects (k j : Uuid) (f : ProcessInstance → ProcessInstance) : Prop where
  state : ¬fx.ends j → ∀ x, (f x).state.isTerminal ∨ (f x).state.isSuspended → (f x).state = x.state
  parent : ∀ x, (f x).parentInstanceId = x.parentInstanceId
  calls : ∀ x id call, (f x).outstandingCalls.get? id = some call →
    x.outstandingCalls.get? id = some call ∨ (fx.calls j ∧ fx.founds id) ∧ id < k
  opened : ∀ x, ∀ s ∈ (f x).eventSubscriptions,
    (∃ s' ∈ x.eventSubscriptions, s'.id = s.id) ∨ fx.opens j s.id ∧ s.id < k

/-- A wait that may be filed when `k` identifiers are drawn. -/
structure MayFile (k : Uuid) (p : Pending) : Prop where
  files : fx.files p.wait.kind p.wait.instanceId p.wait.id
  drawn : p.wait.id < k

variable {fx} {k : Uuid}

theorem MayFile.mono {p : Pending} (h : fx.MayFile k p) (hl : k ≤ l) : fx.MayFile l p :=
  ⟨h.files, lt_of_lt_of_le h.drawn hl⟩

namespace Respects

variable {k j : Uuid} {f : ProcessInstance → ProcessInstance}

theorem mono (h : fx.Respects k j f) (hl : k ≤ l) : fx.Respects l j f := by
  refine { h with calls := fun x id call hc => ?_, opened := fun x s hs => ?_ }
  · exact (h.calls x id call hc).imp_right fun hc => ⟨hc.1, lt_of_lt_of_le hc.2 hl⟩
  · exact (h.opened x s hs).imp_right fun hs => ⟨hs.1, lt_of_lt_of_le hs.2 hl⟩

/-- A rewrite that leaves calls and subscriptions alone, and the state, unless it may be ended or
the new one neither ends nor suspends the instance. -/
theorem of_rest (hstate : fx.ends j ∨ ∀ x, (f x).state = x.state ∨ (f x).state.Awake)
    (hrest : ∀ x, (f x).ties = x.ties) : fx.Respects k j f where
  state he x h := by
    rcases hstate.resolve_left he x with hs | ⟨ht, hs⟩
    · exact hs
    · simp [ht, hs] at h
  parent x := (Prod.mk.inj (hrest x)).1
  calls x id call h := .inl ((Prod.mk.inj (Prod.mk.inj (hrest x)).2).1 ▸ h)
  opened x s hs := .inl ⟨s, (Prod.mk.inj (Prod.mk.inj (hrest x)).2).2 ▸ hs, rfl⟩

theorem of_same (h : ∀ x, ((f x).state, (f x).ties) = (x.state, x.ties)) : fx.Respects k j f :=
  of_rest (.inr fun x => .inl (Prod.mk.inj (h x)).1) fun x => (Prod.mk.inj (h x)).2

theorem comp {g : ProcessInstance → ProcessInstance} (hg : fx.Respects k j g)
    (hf : fx.Respects k j f) : fx.Respects k j fun x => g (f x) where
  state he x h := (hg.state he _ h).trans (hf.state he x (hg.state he _ h ▸ h))
  parent x := (hg.parent _).trans (hf.parent x)
  calls x id call h := (hg.calls _ id call h).elim (hf.calls x id call) .inr
  opened x s hs := by
    rcases hg.opened _ s hs with ⟨s', hs', hid⟩ | h
    · rw [← hid]
      exact hf.opened x s' hs'
    · exact .inr h

end Respects

/-- More is allowed. -/
structure Le (fx fx' : Effects) : Prop where
  writes : ∀ {j}, fx.writes j → fx'.writes j
  files : ∀ {kind j id}, fx.files kind j id → fx'.files kind j id
  removes : ∀ {kind id}, fx.removes kind id → fx'.removes kind id
  calls : ∀ {j}, fx.calls j → fx'.calls j
  ends : ∀ {j}, fx.ends j → fx'.ends j
  opens : ∀ {j id}, fx.opens j id → fx'.opens j id
  closes : ∀ {j}, fx'.closes j ↔ fx.closes j
  founds : ∀ {j}, fx.founds j → fx'.founds j
  aborts : fx.aborts → fx'.aborts
  owns : ∀ {kind id j}, fx'.owns kind id j → fx.owns kind id j

theorem Respects.le {fx' : Effects} (h : fx.Le fx') {j : Uuid}
    {f : ProcessInstance → ProcessInstance} (hf : fx.Respects k j f) : fx'.Respects k j f where
  state he := hf.state fun h' => he (h.ends h')
  parent := hf.parent
  calls x id call hx :=
    (hf.calls x id call hx).imp_right fun h' => ⟨⟨h.calls h'.1.1, h.founds h'.1.2⟩, h'.2⟩
  opened x s hs := (hf.opened x s hs).imp_right fun h' => ⟨h.opens h'.1, h'.2⟩

/-- An instance `j` may be founded, and everything new may be filed for it. -/
def hosting (fx : Effects) (n j : Uuid) : Effects where
  writes x := fx.writes x ∨ x = j
  files kind x id := fx.files kind x id ∨ x = j ∧ n ≤ id
  removes kind id := fx.removes kind id ∨ n ≤ id
  calls := fx.calls
  ends := fx.ends
  opens x id := fx.opens x id ∨ x = j ∧ n ≤ id
  closes := fx.closes
  founds x := fx.founds x ∨ x = j
  aborts := fx.aborts
  owns kind id x := fx.owns kind id x ∧ id < n
  owner_of_files h := Or.rec (fx.owner_of_files h.1) fun h' => absurd h.2 (not_lt_of_ge h'.2)
  removes_of_opens h kind := h.elim (fun h => Or.inl (fx.removes_of_opens h kind))
    fun h => Or.inr h.2

theorem le_hosting (fx : Effects) (n j : Uuid) : fx.Le (fx.hosting n j) where
  writes := .inl
  files := .inl
  removes := .inl
  calls := id
  ends := id
  opens := .inl
  closes := Iff.rfl
  founds := .inl
  aborts := id
  owns := And.left

theorem hosting_le (fx : Effects) {n : Uuid} (hk : n ≤ k) (j : Uuid) :
    (fx.hosting k j).Le (fx.hosting n j) where
  writes := id
  files := .imp_right fun h => ⟨h.1, hk.trans h.2⟩
  removes := .imp_right fun h => hk.trans h
  calls := id
  ends := id
  opens := .imp_right fun h => ⟨h.1, hk.trans h.2⟩
  closes := Iff.rfl
  founds := id
  aborts := id
  owns h := ⟨h.1, lt_of_lt_of_le h.2 hk⟩

end Effects

/-- Definitions, instances, the clock and the counter agree. -/
structure SameCore (e e' : Engine) : Prop where
  definitions : e'.definitions = e.definitions
  instances : e'.instances = e.instances
  nextUuid : e'.nextUuid = e.nextUuid
  clock : e'.clock = e.clock

theorem SameCore.refl (e : Engine) : SameCore e e := ⟨rfl, rfl, rfl, rfl⟩

theorem SameCore.trans {e e' e'' : Engine} (h : SameCore e e') (h' : SameCore e' e'') :
    SameCore e e'' :=
  ⟨h'.definitions.trans h.definitions, h'.instances.trans h.instances,
    h'.nextUuid.trans h.nextUuid, h'.clock.trans h.clock⟩

def ProcessInstance.interrupted (clock : Time) (i : ProcessInstance) : ProcessInstance :=
  { i.clearScope with
    state := .completedWithError "SCOPE_INTERRUPTED"
    completedAt := some clock }

/-- One change of the engine under given permissions. -/
inductive Touch (fx : Effects) : Engine → Engine → Prop where
  | draw {e : Engine} : Touch fx e { e with nextUuid := e.nextUuid + 1 }
  | write {e : Engine} {j : Uuid} {f : ProcessInstance → ProcessInstance} (hj : fx.writes j)
      (hf : fx.Respects e.nextUuid j f) : Touch fx e (e.modifyInstance j f)
  | create {e : Engine} {x : ProcessInstance} (hx : fx.writes x.id) (hfound : fx.founds x.id)
      (hid : x.id < e.nextUuid) (hcalls : x.outstandingCalls = ∅)
      (hsubscriptions : x.eventSubscriptions = [])
      (hparent : ∀ p, x.parentInstanceId = some p → fx.writes p ∧ p < x.id) :
      Touch fx e { e with instances := e.instances.insert x }
  | file {e : Engine} {p : Pending} (hp : fx.MayFile e.nextUuid p) : Touch fx e (e.insertPending p)
  | drop {e e' : Engine} {q : Wait → Bool} (hcore : SameCore e e')
      (hwaits : ∀ w, w ∈ e'.waits ↔ w ∈ e.waits ∧ q w = true)
      (hq : ∀ w, q w = false → fx.writes w.instanceId ∨ fx.removes w.kind w.id) : Touch fx e e'
  | abort {e : Engine} {j : Uuid} {x : ProcessInstance} (ha : fx.aborts)
      (hx : e.instances.find? j = some x) (hlive : x.state.isTerminal = false)
      {e' : Engine} (hcore : SameCore (e.modifyInstance j (.interrupted e.clock)) e')
      (hwaits : ∀ w, w ∈ e'.waits ↔ w ∈ e.waits ∧ w.instanceId ≠ j) : Touch fx e e'

/-- An instance after a touch: as it was before, rewritten, new or interrupted. -/
inductive Origin (fx : Effects) (e : Engine) (j : Uuid) (x : ProcessInstance) : Prop where
  | kept (h : e.instances.find? j = some x)
  | written (y : ProcessInstance) (f : ProcessInstance → ProcessInstance)
      (hy : e.instances.find? j = some y) (hf : fx.Respects e.nextUuid j f)
      (hx : { f y with id := y.id } = x)
  | created (hfound : fx.founds j) (hid : j < e.nextUuid) (hcalls : x.outstandingCalls = ∅)
      (hsubs : x.eventSubscriptions = [])
      (hparent : ∀ p, x.parentInstanceId = some p → fx.writes p ∧ p < j)
  | interrupted (y : ProcessInstance) (hy : e.instances.find? j = some y)
      (hx : y.interrupted e.clock = x)

/-- The subscriptions that a program may close are waits that it may remove, and the waits with a
known owner belong to it. -/
structure Effects.Knows (fx : Effects) (e : Engine) : Prop where
  subscriptions : ∀ j x, fx.closes j → e.instances.find? j = some x →
    ∀ s ∈ x.eventSubscriptions, ∀ kind, fx.removes kind s.id
  owner : ∀ w ∈ e.waits, ∀ j, fx.owns w.kind w.id j → w.instanceId = j

/-- A state reached from `e₀` within the permissions, in which at least `n` identifiers are
drawn. -/
structure Within (fx : Effects) (n : Uuid) (e₀ e : Engine) : Prop where
  drawn : n ≤ e.nextUuid
  known : fx.Knows e
  touches : Relation.ReflTransGen (Touch fx) e₀ e

namespace Engine

variable {j : Uuid} {e : Engine} {f : ProcessInstance → ProcessInstance} {x : ProcessInstance}

theorem find?_modifyInstance_self (e : Engine) (i : Uuid) (f : ProcessInstance → ProcessInstance) :
    (e.modifyInstance i f).instances.find? i =
      (e.instances.find? i).map fun x => { f x with id := x.id } :=
  Table.find?_modify_self fun _ => rfl

theorem find?_modifyInstance_of_ne {i : Uuid} (h : j ≠ i) :
    (e.modifyInstance i f).instances.find? j = e.instances.find? j :=
  Table.find?_modify_of_ne (fun _ => rfl) h

theorem find?_modifyInstance_cases {i : Uuid}
    (h : (e.modifyInstance i f).instances.find? j = some x) : e.instances.find? j = some x ∨
      j = i ∧ ∃ y, e.instances.find? j = some y ∧ { f y with id := y.id } = x := by
  by_cases hji : j = i
  · subst hji
    rw [find?_modifyInstance_self] at h
    exact .inr ⟨rfl, Option.map_eq_some_iff.mp h⟩
  · exact .inl (find?_modifyInstance_of_ne hji ▸ h)

theorem find?_insertInstance_of_ne (h : j ≠ x.id) :
    ({ e with instances := e.instances.insert x } : Engine).instances.find? j =
      e.instances.find? j :=
  Table.find?_insert_of_ne h

theorem instances_insertPending (e : Engine) (p : Pending) :
    (e.insertPending p).instances = e.instances := by
  unfold insertPending
  split <;> rfl

theorem nextUuid_insertPending (e : Engine) (p : Pending) :
    (e.insertPending p).nextUuid = e.nextUuid := by
  unfold insertPending
  split <;> rfl

theorem definitions_insertPending (e : Engine) (p : Pending) :
    (e.insertPending p).definitions = e.definitions := by
  unfold insertPending
  split <;> rfl

theorem clock_insertPending (e : Engine) (p : Pending) : (e.insertPending p).clock = e.clock := by
  unfold insertPending
  split <;> rfl

end Engine

namespace Touch

variable {fx : Effects} {e e' : Engine} {x : ProcessInstance}

theorem nextUuid_le (h : Touch fx e e') : e.nextUuid ≤ e'.nextUuid := by
  cases h with
  | draw => exact Nat.le_succ _
  | write => exact le_rfl
  | create => exact le_rfl
  | file => rw [nextUuid_insertPending]
  | drop hcore => exact hcore.nextUuid.ge
  | abort _ _ _ hcore => exact hcore.nextUuid.ge

theorem constant (h : Touch fx e e') : e'.definitions = e.definitions ∧ e'.clock = e.clock := by
  cases h with
  | draw => exact ⟨rfl, rfl⟩
  | write => exact ⟨rfl, rfl⟩
  | create => exact ⟨rfl, rfl⟩
  | file => exact ⟨definitions_insertPending .., clock_insertPending ..⟩
  | drop hcore => exact ⟨hcore.definitions, hcore.clock⟩
  | abort _ _ _ hcore => exact ⟨hcore.definitions, hcore.clock⟩

/-- An instance that may not be written stays as it is, unless it is interrupted. -/
theorem find?_of_not_writes (h : Touch fx e e') {x : Uuid} (hx : ¬fx.writes x) :
    e'.instances.find? x = e.instances.find? x ∨
      fx.aborts ∧ ∃ y, e.instances.find? x = some y ∧ y.state.isTerminal = false ∧
        e'.instances.find? x = some (y.interrupted e.clock) ∧
        ∀ w ∈ e'.waits, w.instanceId ≠ x := by
  cases h with
  | draw => exact .inl rfl
  | @write j f hj hf => exact .inl (find?_modifyInstance_of_ne fun h => hx (h ▸ hj))
  | create hy => exact .inl (find?_insertInstance_of_ne fun h => hx (h ▸ hy))
  | file => exact .inl (by rw [instances_insertPending])
  | drop hcore => exact .inl (by rw [hcore.instances])
  | @abort j y ha hy hlive _ hcore hwaits =>
    by_cases hxj : x = j
    · subst hxj
      refine .inr ⟨ha, y, hy, hlive, ?_, fun w hw => ((hwaits w).mp hw).2⟩
      rw [hcore.instances, find?_modifyInstance_self, hy]
      rfl
    · exact .inl (by rw [hcore.instances, find?_modifyInstance_of_ne hxj])

/-- Where an instance after a touch comes from. -/
theorem origin (h : Touch fx e e') {j : Uuid} (hx : e'.instances.find? j = some x) :
    Origin fx e j x := by
  cases h with
  | draw => exact .kept hx
  | write hi hf =>
    rcases find?_modifyInstance_cases hx with hx | ⟨rfl, y, hy, rfl⟩
    · exact .kept hx
    · exact .written y _ hy hf rfl
  | @create y hy hfound hid hcalls hsubs hparent =>
    by_cases hjy : j = y.id
    · subst hjy
      obtain rfl : y = x := by simpa using hx
      exact .created hfound hid hcalls hsubs hparent
    · exact .kept (find?_insertInstance_of_ne hjy ▸ hx)
  | file => exact .kept (instances_insertPending e _ ▸ hx)
  | drop hcore => exact .kept (hcore.instances ▸ hx)
  | abort ha hy hlive hcore =>
    rw [hcore.instances] at hx
    rcases find?_modifyInstance_cases hx with hx | ⟨rfl, y, hy, rfl⟩
    · exact .kept hx
    · exact .interrupted y hy rfl

theorem knows_subscriptions (h : Touch fx e e') (hk : fx.Knows e) {j : Uuid} (hj : fx.closes j)
    (hx : e'.instances.find? j = some x) :
    ∀ s ∈ x.eventSubscriptions, ∀ kind, fx.removes kind s.id := by
  intro s hs kind
  cases h.origin hx with
  | kept hx => exact hk.subscriptions j x hj hx s hs kind
  | written y f hy hf hxy =>
    subst hxy
    rcases hf.opened y s hs with ⟨s', hs', hid⟩ | ho
    · exact hid ▸ hk.subscriptions j y hj hy s' hs' kind
    · exact fx.removes_of_opens ho.1 kind
  | created _ _ _ hsubs => simp [hsubs] at hs
  | interrupted y hy hxy => exact absurd (hxy ▸ hs) List.not_mem_nil

theorem mem_waits (h : Touch fx e e') {w : Wait} (hw : w ∈ e'.waits) :
    w ∈ e.waits ∨ fx.files w.kind w.instanceId w.id := by
  cases h with
  | draw => exact .inl hw
  | write => exact .inl hw
  | create => exact .inl hw
  | file hp =>
    rcases mem_waits_insertPending.mp hw with rfl | hw
    · exact .inr hp.files
    · exact .inl hw.1
  | drop _ hwaits => exact .inl ((hwaits w).mp hw).1
  | abort _ _ _ _ hwaits => exact .inl ((hwaits w).mp hw).1

theorem knows (h : Touch fx e e') (hk : fx.Knows e) : fx.Knows e' where
  subscriptions _ _ hj hx := h.knows_subscriptions hk hj hx
  owner w hw j ho := (h.mem_waits hw).elim (fun hw => hk.owner w hw j ho) (fx.owner_of_files ho)

theorem le {fx' : Effects} (hle : fx.Le fx') (h : Touch fx e e') : Touch fx' e e' := by
  cases h with
  | draw => exact .draw
  | write hj hf => exact .write (hle.writes hj) (hf.le hle)
  | create hx hfound hid hcalls hsubs hparent =>
    exact .create (hle.writes hx) (hle.founds hfound) hid hcalls hsubs
      fun p hp => ⟨hle.writes (hparent p hp).1, (hparent p hp).2⟩
  | file hp => exact .file ⟨hle.files hp.files, hp.drawn⟩
  | drop hcore hwaits hq =>
    exact .drop hcore hwaits fun w hw => (hq w hw).imp hle.writes hle.removes
  | abort ha hx hlive hcore hwaits => exact .abort (hle.aborts ha) hx hlive hcore hwaits

end Touch

namespace Within

variable {fx : Effects} {n : Uuid} {e₀ e e' : Engine}

theorem mono {k : Uuid} (h : Within fx k e₀ e) (hn : n ≤ k) : Within fx n e₀ e :=
  ⟨hn.trans h.drawn, h.known, h.touches⟩

theorem start (h : fx.Knows e) : Within fx e.nextUuid e e := ⟨le_rfl, h, .refl⟩

theorem touch (h : Within fx n e₀ e) (ht : Touch fx e e') : Within fx n e₀ e' :=
  ⟨h.drawn.trans ht.nextUuid_le, ht.knows h.known, h.touches.tail ht⟩

theorem le {fx' : Effects} (h : Within fx n e₀ e) (hle : fx.Le fx') : Within fx' n e₀ e where
  drawn := h.drawn
  known :=
    { subscriptions := fun j x hj hx s hs kind =>
        hle.removes (h.known.subscriptions j x (hle.closes.mp hj) hx s hs kind)
      owner := fun w hw j ho => h.known.owner w hw j (hle.owns ho) }
  touches := h.touches.lift id fun _ _ ht => Touch.le hle ht

end Within

/-! ## Programs within permissions -/

/-- From every state within the permissions the program stays within them; what it returns
satisfies `Q` at the number of identifiers that are drawn then. -/
def Obeys {α : Type} (fx : Effects) (n : Uuid) (m : Eng α) (Q : Uuid → α → Prop) : Prop :=
  ∀ e₀, Triple (Within fx n e₀) m (fun a e => Within fx n e₀ e ∧ Q e.nextUuid a)
    fun _ => Within fx n e₀

def Stays {α : Type} (fx : Effects) (n : Uuid) (m : Eng α) : Prop :=
  Obeys fx n m fun _ _ => True

section Rules

variable {fx : Effects} {n : Uuid} {α β : Type} {Q : Uuid → α → Prop} {m : Eng α}
  {Q' : Uuid → β → Prop} {f : α → Eng β} {g : α → β}

theorem Obeys.mono {Q' : Uuid → α → Prop} (h : Obeys fx n m Q)
    (hQ : ∀ k a, n ≤ k → Q k a → Q' k a) : Obeys fx n m Q' := fun e₀ =>
  (h e₀).mono (fun _ hs => hs) (fun a _ he => ⟨he.1, hQ _ a he.1.drawn he.2⟩) fun _ _ he => he

theorem Obeys.stays (h : Obeys fx n m Q) : Stays fx n m :=
  h.mono fun _ _ _ _ => trivial

theorem Obeys.pure {a : α} (h : ∀ k, n ≤ k → Q k a) : Obeys fx n (pure a) Q := fun _ =>
  .pure fun _ he => ⟨he, h _ he.drawn⟩

theorem Stays.pure (a : α) : Stays fx n (Pure.pure a : Eng α) := Obeys.pure fun _ _ => trivial

theorem Obeys.throw (error : EngineError) : Obeys fx n (throw error : Eng α) Q := fun _ =>
  .throw fun _ he => he

theorem Obeys.bind (hm : Obeys fx n m Q) (hf : ∀ k a, n ≤ k → Q k a → Obeys fx k (f a) Q') :
    Obeys fx n (m >>= f) Q' := by
  intro e₀
  refine .bind (hm e₀) fun a t ht => ?_
  have hraise : Within fx t.nextUuid e₀ t := ⟨le_rfl, ht.1.known, ht.1.touches⟩
  have hrest := (hf t.nextUuid a ht.1.drawn ht.2 e₀).mono (fun _ h => h)
    (fun b u (h : Within fx t.nextUuid e₀ u ∧ Q' u.nextUuid b) => And.intro
      (h.1.mono ht.1.drawn) h.2)
    (fun _ u (h : Within fx t.nextUuid e₀ u) => h.mono ht.1.drawn)
  exact hrest t hraise

section

variable (hm : Stays fx n m)

include hm

theorem Stays.bind (hf : ∀ k a, n ≤ k → Obeys fx k (f a) Q') : Obeys fx n (m >>= f) Q' :=
  .bind hm fun k a hk _ => hf k a hk

theorem Obeys.after (hf : ∀ k a, n ≤ k → Obeys fx k (f a) Q') : Obeys fx n (m >>= f) Q' :=
  hm.bind hf

theorem Obeys.returns (h : ∀ k a, n ≤ k → Q' k (g a)) :
    Obeys fx n (m >>= fun a => Pure.pure (g a)) Q' :=
  hm.bind fun _ _ hk => .pure fun _ hl => h _ _ (hk.trans hl)

theorem Stays.returns : Stays fx n (m >>= fun a => Pure.pure (g a)) :=
  Obeys.returns hm fun _ _ _ => trivial

end

theorem Obeys.orElse {handler : EngineError → Eng α} (hm : Obeys fx n m Q)
    (hh : ∀ error, Obeys fx n (handler error) Q) : Obeys fx n (orElse m handler) Q :=
  fun e₀ => .orElse (hm e₀) fun error => hh error e₀

theorem Obeys.ite {c : Prop} [Decidable c] {m' : Eng α} (hm : c → Obeys fx n m Q)
    (hm' : ¬c → Obeys fx n m' Q) : Obeys fx n (if c then m else m') Q := by
  split
  · exact hm ‹_›
  · exact hm' ‹_›

theorem Stays.forM {l : List α} {f : α → Eng PUnit} (h : ∀ k, n ≤ k → ∀ a ∈ l, Stays fx k (f a)) :
    Stays fx n (l.forM f) := by
  induction l generalizing n with
  | nil => exact .pure _
  | cons a l ih =>
    refine .bind (h n le_rfl a (by simp)) fun k _ hk => ih fun j hj b hb => ?_
    exact h j (hk.trans hj) b (by simp [hb])

/-- The values of a sequence of programs, if what is known of a value survives further draws. -/
theorem Obeys.mapM {l : List β} {f : β → Eng α} (hf : ∀ k, n ≤ k → ∀ b ∈ l, Obeys fx k (f b) Q)
    (hQ : ∀ k k' a, k ≤ k' → Q k a → Q k' a) :
    Obeys fx n (l.mapM f) fun k as => ∀ a ∈ as, Q k a := by
  induction l generalizing n with
  | nil => exact .pure fun _ _ a ha => absurd ha List.not_mem_nil
  | cons b l ih =>
    rw [List.mapM_cons]
    refine .bind (hf n le_rfl b (by simp)) fun k a hk ha => ?_
    refine .bind (ih fun j hj c hc => hf j (hk.trans hj) c (by simp [hc])) ?_
    intro j as hj has
    refine .pure fun m hm c hc => ?_
    rcases List.mem_cons.mp hc with rfl | hc
    · exact hQ _ _ _ (hj.trans hm) ha
    · exact hQ _ _ _ hm (has c hc)

theorem Stays.of_readOnly (h : ∀ e, (exec m e).2 = e) : Stays fx n m := by
  intro e₀ s hs
  have := h s
  rcases hx : exec m s with ⟨error | a, t⟩ <;> rw [hx] at this <;> subst this
  · exact hs
  · exact ⟨hs, trivial⟩

theorem Stays.modify {f : Engine → Engine} (h : ∀ e, n ≤ e.nextUuid → Touch fx e (f e)) :
    Stays fx n (modify f : Eng PUnit) := fun _ =>
  .modify fun _ he => ⟨he.touch (h _ he.drawn), trivial⟩

end Rules

/-! ## The primitive programs -/

namespace Eng

variable {fx : Effects} {n i : Uuid} {f : ProcessInstance → ProcessInstance} {kind : WaitKind}

theorem get_stays : Stays fx n (get : Eng Engine) := .of_readOnly fun _ => rfl

theorem newUuid_obeys : Obeys fx n newUuid fun k id => n ≤ id ∧ id < k := by
  intro e₀ s hs
  have hdraw : Within fx n e₀ { s with nextUuid := s.nextUuid + 1 } := hs.touch .draw
  exact ⟨hdraw, hs.drawn, Nat.lt_succ_self _⟩

theorem now_stays : Stays fx n now := .of_readOnly fun _ => rfl

theorem findInstance_stays : Stays fx n (findInstance i) := .of_readOnly fun _ => rfl

theorem getInstance_stays : Stays fx n (getInstance i) :=
  .of_readOnly fun e => by
    unfold getInstance
    rw [exec_bind_ok (exec_get e)]
    split <;> rfl

theorem findDefinition_stays (key : Uuid) : Stays fx n (findDefinition key) :=
  .of_readOnly fun _ => rfl

theorem getDefinition_stays (key : Uuid) : Stays fx n (getDefinition key) :=
  .of_readOnly fun e => by
    unfold getDefinition
    rw [exec_bind_ok (exec_get e)]
    split <;> rfl

theorem definitionOf_stays : Stays fx n (definitionOf i) :=
  .bind getInstance_stays fun _ _ _ => getDefinition_stays _

theorem newToken_obeys (node : String) (vars : Variables) :
    Obeys fx n (newToken node vars) fun k t => n ≤ t.id ∧ t.id < k :=
  .bind newUuid_obeys fun _ _ _ h =>
    .pure fun _ hk => ⟨h.1, lt_of_lt_of_le h.2 hk⟩

theorem modifyInstance_stays (hi : fx.writes i) (hf : fx.Respects n i f) :
    Stays fx n (modifyInstance i f) :=
  .modify fun _ he => .write hi (hf.mono he)

theorem updateInstance_stays (hi : fx.writes i) (hf : fx.Respects n i f) :
    Stays fx n (updateInstance i f) :=
  .bind getInstance_stays fun _ _ hk => modifyInstance_stays hi (hf.mono hk)

theorem insertPending_stays {p : Pending} (hp : fx.MayFile n p) : Stays fx n (insertPending p) :=
  .modify fun _ he => .file (hp.mono he)

theorem sameCore_retainPending (e : Engine) (kind : WaitKind) (q : Wait → Bool) :
    SameCore e (e.retainPending kind q) := by
  unfold Engine.retainPending
  split <;> exact ⟨rfl, rfl, rfl, rfl⟩

theorem retainPending_stays {q : Wait → Bool}
    (hq : ∀ w, w.kind = kind → q w = false → fx.writes w.instanceId ∨ fx.removes w.kind w.id) :
    Stays fx n (retainPending kind q) := by
  refine .modify fun e _ =>
    .drop (q := fun w => !decide (w.kind = kind) || q w) (sameCore_retainPending e kind q) ?_ ?_
  · intro w
    rw [mem_waits_retainPending]
    simp [imp_iff_not_or]
  · intro w hw
    simp only [Bool.or_eq_false_iff, Bool.not_eq_false', decide_eq_true_eq] at hw
    exact hq w hw.1 hw.2

theorem removePending_stays {id : Uuid} (h : fx.removes kind id) :
    Stays fx n (removePending kind id) :=
  retainPending_stays fun w hk hw => .inr (by
    have : w.id = id := by simpa using hw
    rwa [hk, this])

end Eng

/-! ## Dropping every wait of an instance -/

namespace Engine

def dropWaits (i : Uuid) (e : Engine) : Engine :=
  [WaitKind.userTask, .serviceTask, .timer, .message, .signal, .conditional].foldl
    (fun e kind => e.retainPending kind fun w => !(w.instanceId == i)) e

theorem mem_waits_dropWaits {e : Engine} {i : Uuid} {w : Wait} :
    w ∈ (e.dropWaits i).waits ↔ w ∈ e.waits ∧ w.instanceId ≠ i := by
  simp only [dropWaits, List.foldl_cons, List.foldl_nil, mem_waits_retainPending]
  cases w.kind <;> simp

theorem sameCore_foldl_retainPending (kinds : List WaitKind) (q : Wait → Bool) (e : Engine) :
    SameCore e (kinds.foldl (fun e kind => e.retainPending kind q) e) := by
  induction kinds generalizing e with
  | nil => exact .refl e
  | cons kind kinds ih => exact (Eng.sameCore_retainPending e kind q).trans (ih _)

theorem sameCore_dropWaits (e : Engine) (i : Uuid) : SameCore e (e.dropWaits i) :=
  sameCore_foldl_retainPending _ _ e

end Engine

namespace Eng

variable {fx : Effects} {n i : Uuid}

theorem exec_cancelScopeWaits (e : Engine) :
    exec (cancelScopeWaits i) e = (.ok (), e.dropWaits i) := rfl

section

variable (hi : fx.writes i)

include hi

theorem cancelScopeWaits_stays : Stays fx n (cancelScopeWaits i) := by
  refine .forM fun k _ kind _ => retainPending_stays fun w _ hw => .inl ?_
  have : w.instanceId = i := by simpa using hw
  exact this ▸ hi

theorem clearWaitStatesForToken_stays (tokenId : Uuid) :
    Stays fx n (clearWaitStatesForToken i tokenId) := by
  refine .forM fun k _ kind _ => retainPending_stays fun w _ hw => .inl ?_
  have : w.instanceId = i := by
    simp only [Bool.not_eq_false', Bool.and_eq_true, beq_iff_eq] at hw
    exact hw.1
  exact this ▸ hi

theorem cancelBoundary_stays (kind : WaitKind) (sort : BpmnElement → Bool) (activity : String) :
    Stays fx n (cancelBoundary kind sort i activity) := by
  refine .bind findInstance_stays fun _ x _ => ?_
  split
  · exact Stays.pure _
  · refine Stays.bind (findDefinition_stays _) fun _ _ _ => retainPending_stays fun w _ hw =>
      Or.inl ?_
    have : w.instanceId = i := by
      simp only [Bool.not_eq_false', Bool.and_eq_true, beq_iff_eq] at hw
      exact hw.1
    exact this ▸ hi

theorem cancelBoundaryTimers_stays (activity : String) :
    Stays fx n (cancelBoundaryTimers i activity) :=
  cancelBoundary_stays hi _ _ _

theorem cancelBoundaryWaits_stays (activity : String) :
    Stays fx n (cancelBoundaryWaits i activity) :=
  .bind (cancelBoundary_stays hi _ _ _) fun _ _ _ =>
    Stays.bind (cancelBoundary_stays hi _ _ _) fun _ _ _ => cancelBoundary_stays hi _ _ _

end

end Eng

end BpmnEngine
