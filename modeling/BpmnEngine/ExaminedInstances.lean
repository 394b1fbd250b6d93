import BpmnEngine.Footprints
import BpmnEngine.Restart

/-!
# Examining an instance

When a server starts, it examines the loaded instances one after another. An instance
that has ended gives up its subscriptions and the waits of unknown tokens. For an
instance that runs, the missing waits of its subscriptions are filed, and if it has an event
scope, the waits of unknown tokens are dropped and its tokens that wait for nothing are
returned. Suspended instances are passed over. These are the three outcomes `Examined`;
what a start does to the records is derived from them.
-/
namespace BpmnEngine

open Program Engine

/-! ## Engines with the same records -/

/-- Two engines with the same definitions, instances and pending waits. -/
structure Engine.SameRecords (e e' : Engine) : Prop where
  definitions : ∀ key, e'.definitions.find? key = e.definitions.find? key
  instances : ∀ id, e'.instances.find? id = e.instances.find? id
  holds : ∀ p, e'.Holds p ↔ e.Holds p

namespace Engine.SameRecords

variable {e e' e'' : Engine}

theorem refl (e : Engine) : SameRecords e e := ⟨fun _ => rfl, fun _ => rfl, fun _ => Iff.rfl⟩

theorem symm (h : SameRecords e e') : SameRecords e' e :=
  ⟨fun k => (h.definitions k).symm, fun i => (h.instances i).symm, fun p => (h.holds p).symm⟩

theorem trans (h : SameRecords e e') (h' : SameRecords e' e'') : SameRecords e e'' :=
  ⟨fun k => (h'.definitions k).trans (h.definitions k),
    fun i => (h'.instances i).trans (h.instances i), fun p => (h'.holds p).trans (h.holds p)⟩

theorem mem_instances (h : SameRecords e e') {x : ProcessInstance} :
    x ∈ e'.instances ↔ x ∈ e.instances := by
  constructor <;> intro hx
  · exact Table.mem_of_find? ((h.instances x.id).symm.trans (Table.find?_of_mem hx))
  · exact Table.mem_of_find? ((h.instances x.id).trans (Table.find?_of_mem hx))

end Engine.SameRecords

theorem sameCore_insertPending (e : Engine) (p : Pending) : SameCore e (e.insertPending p) := by
  cases p <;> exact ⟨rfl, rfl, rfl, rfl⟩

/-! ## What a restart finds nothing to do for -/

def WaitKind.isEvent : WaitKind → Bool
  | .timer | .message | .signal => true
  | .userTask | .serviceTask | .conditional => false

namespace ProcessInstance

def hasScope (x : ProcessInstance) : Bool := x.eventScope || !x.eventSubscriptions.isEmpty

theorem eventSubscriptions_of_hasScope {x : ProcessInstance} (h : ¬x.hasScope = true) :
    x.eventSubscriptions = [] := by
  by_contra hne
  simp [hasScope, hne] at h

def Subscribes (x : ProcessInstance) (w : Wait) : Prop :=
  w.kind.isEvent = true ∧ ∃ s ∈ x.eventSubscriptions, s.id = w.id

def Orphans (x : ProcessInstance) (w : Wait) : Prop :=
  w.instanceId = x.id ∧ w.tokenId ∉ x.knownTokenIds ∧ ¬x.Subscribes w

instance (x : ProcessInstance) (w : Wait) : Decidable (x.Subscribes w) :=
  inferInstanceAs (Decidable (_ ∧ _))

instance (x : ProcessInstance) (w : Wait) : Decidable (x.Orphans w) :=
  inferInstanceAs (Decidable (_ ∧ _))

end ProcessInstance

namespace Engine

def Handled (e : Engine) (x : ProcessInstance) : Prop :=
  ∀ s ∈ x.eventSubscriptions, ∃ d handler, e.definitions.find? x.definitionKey = some d ∧
    d.eventSubprocessById s.subprocessId = some handler

def Awaited (e : Engine) (x : ProcessInstance) : Prop :=
  ∀ s ∈ x.eventSubscriptions, ∀ d handler, e.definitions.find? x.definitionKey = some d →
    d.eventSubprocessById s.subprocessId = some handler → Eng.missingWait e x.id handler s = none

def Parked (e : Engine) (x : ProcessInstance) : Prop :=
  ∀ token ∈ x.tokens, Eng.isParked e x x.id token.id = true

instance (e : Engine) (x : ProcessInstance) : Decidable (e.Handled x) :=
  decidable_of_iff (∀ s ∈ x.eventSubscriptions, ((e.definitions.find? x.definitionKey).bind
      fun d => d.eventSubprocessById s.subprocessId).isSome = true) <| by
    simp only [Handled, Option.isSome_iff_exists, Option.bind_eq_some_iff]
    exact forall₂_congr fun s _ => ⟨fun ⟨h, d, hd, hh⟩ => ⟨d, h, hd, hh⟩,
      fun ⟨d, h, hd, hh⟩ => ⟨h, d, hd, hh⟩⟩

instance (e : Engine) (x : ProcessInstance) : Decidable (e.Awaited x) :=
  decidable_of_iff (∀ s ∈ x.eventSubscriptions, ∀ d ∈ (e.definitions.find? x.definitionKey).toList,
      ∀ handler ∈ (d.eventSubprocessById s.subprocessId).toList,
        Eng.missingWait e x.id handler s = none) <| by
    simp only [Awaited, Option.mem_toList]
    exact forall₂_congr fun s _ => forall_congr' fun d => forall_comm

instance (e : Engine) (x : ProcessInstance) : Decidable (e.Parked x) :=
  inferInstanceAs (Decidable (∀ token ∈ x.tokens.entries, Eng.isParked e x x.id token.id = true))

end Engine

namespace Eng

variable {e e' : Engine} {i : Uuid} {x : ProcessInstance} {s : EventSubscription}
  {handler : EventSubProcess} {p : Pending}

def subscribedWait (i : Uuid) (handler : EventSubProcess) (s : EventSubscription) :
    Option Pending :=
  match handler.trigger with
  | .timer timer => s.nextDue.map fun expiresAt =>
      .timer ⟨s.id, i, handler.startNode, expiresAt, s.id, some timer, s.remaining⟩
  | .message name => some (.message ⟨s.id, i, handler.startNode, name, s.id⟩)
  | .signal name => some (.signal ⟨s.id, i, handler.startNode, name, s.id⟩)
  | .error _ | .escalation _ => none

theorem subscribedWait_spec (h : subscribedWait i handler s = some p) :
    p.wait.kind.isEvent = true ∧ p.wait.id = s.id ∧ p.wait.instanceId = i := by
  unfold subscribedWait at h
  split at h
  · obtain ⟨_, _, rfl⟩ := Option.map_eq_some_iff.mp h
    exact ⟨rfl, rfl, rfl⟩
  all_goals cases h <;> exact ⟨rfl, rfl, rfl⟩

/-- A wait is missing if there is none of its kind with its identifier. -/
theorem missingWait_eq_some_iff : missingWait e i handler s = some p ↔
    subscribedWait i handler s = some p ∧
      ∀ q, e.Holds q → ¬(q.wait.kind = p.wait.kind ∧ q.wait.id = p.wait.id) := by
  have hiff {α : Type} {key : α → Uuid} {t : Table key} {wait? : Option Pending}
      (h : ∀ p, wait? = some p → ((∃ a ∈ t, key a = s.id) ↔
        ∃ q, e.Holds q ∧ q.wait.kind = p.wait.kind ∧ q.wait.id = p.wait.id)) :
      (if t.contains s.id then none else wait?) = some p ↔ wait? = some p ∧
        ∀ q, e.Holds q → ¬(q.wait.kind = p.wait.kind ∧ q.wait.id = p.wait.id) := by
    rw [Option.ite_none_left_eq_some, and_comm, Table.contains_iff]
    refine and_congr_right fun hp => ?_
    rw [h p hp, not_exists]
    exact forall_congr' fun _ => not_and
  unfold missingWait subscribedWait
  cases handler.trigger with
  | timer =>
    refine hiff fun p hp => ⟨fun ⟨t, ht, hid⟩ => ?_, fun ⟨q, hq, hkind, hid⟩ => ?_⟩ <;>
      obtain ⟨_, _, rfl⟩ := Option.map_eq_some_iff.mp hp
    · exact ⟨.timer t, ht, rfl, hid⟩
    · cases q <;> cases hkind
      exact ⟨_, hq, hid⟩
  | message =>
    refine hiff fun p hp => ⟨fun ⟨t, ht, hid⟩ => ?_, fun ⟨q, hq, hkind, hid⟩ => ?_⟩ <;> cases hp
    · exact ⟨.message t, ht, rfl, hid⟩
    · cases q <;> cases hkind
      exact ⟨_, hq, hid⟩
  | signal =>
    refine hiff fun p hp => ⟨fun ⟨t, ht, hid⟩ => ?_, fun ⟨q, hq, hkind, hid⟩ => ?_⟩ <;> cases hp
    · exact ⟨.signal t, ht, rfl, hid⟩
    · cases q <;> cases hkind
      exact ⟨_, hq, hid⟩
  | _ => simp

theorem missingWait_insertPending (h : missingWait e i handler s = some p) :
    missingWait (e.insertPending p) i handler s = none := by
  refine Option.eq_none_iff_forall_ne_some.mpr fun q hq => ?_
  obtain ⟨hwait, hnone⟩ := missingWait_eq_some_iff.mp hq
  cases hwait.symm.trans (missingWait_eq_some_iff.mp h).1
  exact hnone p (holds_insertPending.mpr (.inl rfl)) ⟨rfl, rfl⟩

/-- The wait of a subscription is not missing as long as the waits with its identifier stay. -/
theorem missingWait_mono
    (hmore : ∀ p, p.wait.kind.isEvent = true → p.wait.id = s.id → e.Holds p → e'.Holds p)
    (h : missingWait e i handler s = none) : missingWait e' i handler s = none := by
  refine Option.eq_none_iff_forall_ne_some.mpr fun p hp => ?_
  obtain ⟨hwait, hnone⟩ := missingWait_eq_some_iff.mp hp
  obtain ⟨hkind, hid, _⟩ := subscribedWait_spec hwait
  cases h.symm.trans (missingWait_eq_some_iff.mpr ⟨hwait, fun q hq hsame =>
    hnone q (hmore q (hsame.1 ▸ hkind) (hsame.2.trans hid) hq) hsame⟩)

theorem isParked_iff {token : Uuid} :
    isParked e x i token = true ↔
      (∃ w ∈ e.waits, w.instanceId = i ∧ w.tokenId = token) ∨ token ∈ x.heldTokenIds := by
  simp [isParked]

end Eng

/-! ## Mending the subscriptions of an instance -/

namespace Engine

variable {s : EventSubscription} {handler : EventSubProcess}
  {subscriptions : List EventSubscription}

def mend (d : ProcessDefinition) (i : Uuid) (e : Engine) (s : EventSubscription) : Engine :=
  match d.eventSubprocessById s.subprocessId with
  | none => e
  | some handler => (Eng.missingWait e i handler s).elim e fun p => e.insertPending p

/-- What mending some subscriptions of an instance does. -/
structure Mends (i : Uuid) (subscriptions : List EventSubscription) (e e' : Engine) : Prop where
  core : SameCore e e'
  kept : ∀ p, e.Holds p → e'.Holds p
  filed : ∀ p, e'.Holds p → e.Holds p ∨ p.wait.instanceId = i ∧ p.wait.kind.isEvent = true ∧
    ∃ s ∈ subscriptions, s.id = p.wait.id

variable {d : ProcessDefinition} {i : Uuid} {e : Engine}

theorem Mends.refl : Mends i subscriptions e e := ⟨.refl e, fun _ hp => hp, fun _ hp => .inl hp⟩

theorem mend_mends (s : EventSubscription) : Mends i [s] e (mend d i e s) := by
  unfold mend
  split
  case h_1 => exact .refl
  case h_2 handler _ =>
    cases hmissing : Eng.missingWait e i handler s with
    | none => exact .refl
    | some p =>
      obtain ⟨hwait, hnew⟩ := Eng.missingWait_eq_some_iff.mp hmissing
      obtain ⟨hkind, hid, howner⟩ := Eng.subscribedWait_spec hwait
      refine ⟨sameCore_insertPending e p, fun q hq => ?_, fun q hq => ?_⟩
      · exact holds_insertPending.mpr (.inr ⟨hq, hnew q hq⟩)
      · rcases holds_insertPending.mp hq with rfl | ⟨hq, _⟩
        · exact .inr ⟨howner, hkind, s, List.mem_singleton_self s, hid.symm⟩
        · exact .inl hq

theorem missingWait_mend (h : d.eventSubprocessById s.subprocessId = some handler) :
    Eng.missingWait (mend d i e s) i handler s = none := by
  rw [mend, h]
  dsimp only
  cases hmissing : Eng.missingWait e i handler s with
  | none => exact hmissing
  | some => exact Eng.missingWait_insertPending hmissing

theorem foldl_mend_mends (subscriptions : List EventSubscription) (e : Engine) :
    Mends i subscriptions e (subscriptions.foldl (mend d i) e) := by
  induction subscriptions generalizing e with
  | nil => exact .refl
  | cons s rest ih =>
    have hs : Mends i [s] e (mend d i e s) := mend_mends s
    have hrest := ih (mend d i e s)
    refine ⟨hs.core.trans hrest.core, fun p hp => hrest.kept p (hs.kept p hp), fun p hp => ?_⟩
    rcases hrest.filed p hp with hp | ⟨howner, hkind, t, ht, hid⟩
    · refine (hs.filed p hp).imp_right fun ⟨howner, hkind, t, ht, hid⟩ => ?_
      exact ⟨howner, hkind, t, List.mem_cons.mpr (.inl (List.mem_singleton.mp ht)), hid⟩
    · exact .inr ⟨howner, hkind, t, List.mem_cons_of_mem s ht, hid⟩

theorem missingWait_foldl_mend (hs : s ∈ subscriptions)
    (h : d.eventSubprocessById s.subprocessId = some handler) :
    Eng.missingWait (subscriptions.foldl (mend d i) e) i handler s = none := by
  induction subscriptions generalizing e with
  | nil => cases hs
  | cons t rest ih =>
    rcases List.mem_cons.mp hs with rfl | hs
    · exact Eng.missingWait_mono (fun p _ _ => (foldl_mend_mends rest _).kept p)
        (missingWait_mend h)
    · exact ih hs

theorem foldl_mend_eq_self
    (h : ∀ s ∈ subscriptions, ∀ handler, d.eventSubprocessById s.subprocessId = some handler →
      Eng.missingWait e i handler s = none) : subscriptions.foldl (mend d i) e = e := by
  induction subscriptions with
  | nil => rfl
  | cons s rest ih =>
    have hs : mend d i e s = e := by
      unfold mend
      split
      case h_1 => rfl
      case h_2 handler hhandler => rw [h s List.mem_cons_self handler hhandler]; rfl
    rw [List.foldl_cons, hs, ih fun t ht => h t (List.mem_cons_of_mem s ht)]

end Engine

namespace Eng

variable {e e' : Engine} {x : ProcessInstance}

theorem exec_restoreMissingSubscriptions (h : e.Handled x) :
    ∃ e', exec (restoreMissingSubscriptions x.id x) e = (.ok (), e') ∧
      e.Mends x.id x.eventSubscriptions e' ∧ e'.Awaited x ∧ (e.Awaited x → e' = e) := by
  unfold restoreMissingSubscriptions
  split
  case isTrue hnone =>
    rw [List.isEmpty_iff] at hnone
    refine ⟨e, rfl, .refl, ?_, fun _ => rfl⟩
    intro s hs
    rw [hnone] at hs
    cases hs
  case isFalse hsome =>
    obtain ⟨s₀, hs₀⟩ := List.exists_mem_of_ne_nil _ (List.isEmpty_iff.not.mp hsome)
    obtain ⟨d, _, hd, _⟩ := h s₀ hs₀
    have hmended := foldl_mend_mends (d := d) (i := x.id) x.eventSubscriptions e
    refine ⟨_, (exec_bind_ok (exec_getDefinition hd)).trans
      (exec_forM_eq_foldl_of_mem (g := Engine.mend d x.id) (fun s hs e₁ => ?_) e), hmended,
      fun s hs d' handler hd' hhandler => ?_, fun hawaited => ?_⟩
    · obtain ⟨d', handler, hd', hhandler⟩ := h s hs
      obtain rfl : d' = d := Option.some.inj (hd'.symm.trans hd)
      rw [Engine.mend, hhandler]
      dsimp only
      rw [exec_bind_ok (exec_get e₁)]
      cases missingWait e₁ x.id handler s <;> rfl
    · rw [hmended.core.definitions] at hd'
      obtain rfl : d' = d := Option.some.inj (hd'.symm.trans hd)
      exact missingWait_foldl_mend hs hhandler
    · exact foldl_mend_eq_self fun s hs handler => hawaited s hs d handler hd

/-- Mending fails where a handler is missing. -/
theorem handled_of_restoreMissingSubscriptions
    (h : exec (restoreMissingSubscriptions x.id x) e = (.ok (), e')) : e.Handled x := by
  intro s hs
  unfold restoreMissingSubscriptions at h
  have hsome : ¬x.eventSubscriptions.isEmpty = true := by
    rw [List.isEmpty_iff]
    exact List.ne_nil_of_mem hs
  rw [if_neg hsome] at h
  cases hd : e.definitions.find? x.definitionKey with
  | none =>
    rw [exec_bind_error (exec_getDefinition_none hd)] at h
    cases h
  | some d =>
    rw [exec_bind_ok (exec_getDefinition hd)] at h
    obtain ⟨u, v, hbody⟩ := exec_of_exec_forM h hs
    cases hhandler : d.eventSubprocessById s.subprocessId with
    | none =>
      rw [hhandler] at hbody
      cases hbody
    | some handler => exact ⟨d, handler, rfl, hhandler⟩

/-! ## Examining an instance -/

theorem exec_dropOrphanWaits (e : Engine) (x : ProcessInstance) :
    ∃ e', exec (dropOrphanWaits x.id x) e = (.ok (), e') ∧ SameCore e e' ∧
      ∀ p, e'.Holds p ↔ e.Holds p ∧ ¬x.Orphans p.wait := by
  unfold dropOrphanWaits
  dsimp only
  rw [exec_bind_ok (exec_forM_eq_foldl (fun _ _ => exec_retainPending _ _ _) _ e),
    exec_bind_ok (exec_forM_eq_foldl (fun _ _ => exec_retainPending _ _ _) _ _),
    exec_retainPending]
  refine ⟨_, rfl, ?_, fun p => ?_⟩
  · exact (sameCore_foldl_retainPending _ _ e).trans
      ((sameCore_foldl_retainPending _ _ _).trans (sameCore_retainPending _ _ _))
  · simp only [List.foldl_cons, List.foldl_nil, holds_retainPending, and_assoc]
    refine and_congr_right fun _ => ?_
    rw [ProcessInstance.Orphans, ProcessInstance.Subscribes]
    cases p.wait.kind <;> simp [WaitKind.isEvent, imp_iff_not_or, or_assoc]

/-- An instance gives up its subscriptions. -/
structure Sheds (x : ProcessInstance) (e e' : Engine) : Prop where
  definitions : e'.definitions = e.definitions
  others : ∀ j, j ≠ x.id → e'.instances.find? j = e.instances.find? j
  own : ∃ y, e'.instances.find? x.id = some y ∧ y.state = x.state ∧ y.eventSubscriptions = [] ∧
    (y = x ∨ x.eventSubscriptions ≠ [] ∧ y.hasScope = false)

theorem Sheds.refl (hx : e.instances.find? x.id = some x) (h : x.eventSubscriptions = []) :
    Sheds x e e := ⟨rfl, fun _ _ => rfl, x, hx, rfl, h, .inl rfl⟩

/-- What examining an instance that has ended does. -/
structure Closes (x : ProcessInstance) (e e' : Engine) : Prop extends Sheds x e e' where
  holds : ∀ p, e'.Holds p ↔
    e.Holds p ∧ (x.hasScope = true → ¬x.Subscribes p.wait ∧ ¬x.Orphans p.wait)

/-- What examining an instance that runs does, apart from its tokens. -/
structure Tends (x : ProcessInstance) (e e' : Engine) : Prop where
  definitions : e'.definitions = e.definitions
  instances : e'.instances = e.instances
  awaited : e'.Awaited x
  kept : ∀ p, e.Holds p → (x.hasScope = true → ¬x.Orphans p.wait) → e'.Holds p
  filed : ∀ p, e'.Holds p → e.Holds p ∨ p.wait.instanceId = x.id ∧ x.Subscribes p.wait
  nothing : e.Awaited x → ∀ p, e'.Holds p → e.Holds p
  dropped : x.hasScope = true → ∀ p, e'.Holds p → ¬x.Orphans p.wait

theorem holds_foldl_removeEvents {ids : List Uuid} {p : Pending} :
    (ids.foldl (fun e id => ((e.removePending .timer id).removePending .message id).removePending
      .signal id) e).Holds p ↔ e.Holds p ∧ ¬(p.wait.kind.isEvent = true ∧ p.wait.id ∈ ids) := by
  induction ids generalizing e with
  | nil => simp
  | cons id rest ih =>
    rw [List.foldl_cons, ih]
    simp only [holds_removePending, List.mem_cons]
    cases p.wait.kind <;> simp [WaitKind.isEvent, and_assoc]

theorem sameCore_foldl_removeEvents (ids : List Uuid) (e : Engine) :
    SameCore e (ids.foldl (fun e id => ((e.removePending .timer id).removePending .message
      id).removePending .signal id) e) := by
  induction ids generalizing e with
  | nil => exact .refl e
  | cons id rest ih =>
    exact ((sameCore_retainPending _ _ _).trans ((sameCore_retainPending _ _ _).trans
      (sameCore_retainPending _ _ _))).trans (ih _)

/-- The scope of an instance that has ended is closed before its orphans are dropped. -/
theorem exec_closeEventScope_sheds (hx : e.instances.find? x.id = some x) :
    ∃ e', exec (closeEventScope x.id) e = (.ok (), e') ∧ Sheds x e e' ∧
      ∀ p, e'.Holds p ↔ e.Holds p ∧ ¬x.Subscribes p.wait := by
  rw [closeEventScope, exec_bind_ok (exec_findInstance e x.id), hx]
  dsimp only
  split
  case isTrue hnone =>
    rw [List.isEmpty_iff] at hnone
    refine ⟨e, rfl, .refl hx hnone, fun p => ?_⟩
    exact (and_iff_left fun ⟨_, s, hs, _⟩ => by rw [hnone] at hs; cases hs).symm
  case isFalse hsome =>
    rw [exec_bind_ok (exec_modifyInstance e x.id _)]
    let closed := e.modifyInstance x.id fun i =>
      { i with eventScope := false, eventSubscriptions := [], eventHandlerTokens := ∅ }
    have hcore := sameCore_foldl_removeEvents (x.eventSubscriptions.map (·.id)) closed
    refine ⟨_, exec_forM_eq_foldl (fun _ _ => rfl) _ closed,
      ⟨hcore.definitions, fun j hj => ?_,
        { x with eventScope := false, eventSubscriptions := [], eventHandlerTokens := ∅ }, ?_,
        rfl, rfl, .inr ⟨by simpa using hsome, rfl⟩⟩, fun p => ?_⟩
    · rw [hcore.instances, find?_modifyInstance_of_ne hj]
    · rw [hcore.instances, find?_modifyInstance_self, hx]
      rfl
    · rw [holds_foldl_removeEvents, holds_modifyInstance]
      simp [ProcessInstance.Subscribes]

variable {env : Env} {i : Uuid} {tokens : List Token}

theorem exec_reconcileInstance_none (h : e.instances.find? i = none) :
    exec (reconcileInstance env i) e = (.ok [], e) := by
  rw [reconcileInstance, exec_bind_ok (exec_findInstance e i), h]
  rfl

section

variable (hx : e.instances.find? x.id = some x)

include hx

theorem exec_reconcileInstance_suspended (hlive : x.state.isTerminal = false)
    (hsuspended : x.state.isSuspended = true) :
    exec (reconcileInstance env x.id) e = (.ok [], e) := by
  rw [reconcileInstance, exec_bind_ok (exec_findInstance e x.id), hx]
  dsimp only
  rw [if_neg (by rw [hlive]; exact Bool.false_ne_true), if_pos hsuspended]
  rfl

theorem exec_reconcileInstance_terminal (hterminal : x.state.isTerminal = true) :
    ∃ e', exec (reconcileInstance env x.id) e = (.ok [], e') ∧ Closes x e e' := by
  rw [reconcileInstance, exec_bind_ok (exec_findInstance e x.id), hx]
  dsimp only
  rw [if_pos hterminal, ← ProcessInstance.hasScope]
  by_cases hscope : x.hasScope = true
  · obtain ⟨e₁, hx₁, hsheds, hholds₁⟩ := exec_closeEventScope_sheds hx
    obtain ⟨e', hx', hcore, hholds⟩ := exec_dropOrphanWaits e₁ x
    refine ⟨e', ?_, ⟨hcore.definitions.trans hsheds.definitions, ?_, ?_⟩, fun p => ?_⟩
    · rw [if_pos hscope, exec_bind_ok hx₁, exec_bind_ok hx']
      rfl
    · rw [hcore.instances]
      exact hsheds.others
    · rw [hcore.instances]
      exact hsheds.own
    · rw [hholds, hholds₁, and_assoc, forall_prop_of_true hscope]
  · refine ⟨e, ?_, .refl hx (ProcessInstance.eventSubscriptions_of_hasScope hscope), fun p => ?_⟩
    · rw [if_neg hscope]
      rfl
    · exact (and_iff_left fun h => absurd h hscope).symm

/-- The unparked tokens of an instance that runs are returned, if the instance has a scope. -/
theorem exec_reconcileInstance_live (hlive : x.state.isTerminal = false)
    (hactive : x.state.isSuspended = false) (hhandled : e.Handled x) :
    ∃ tokens e', exec (reconcileInstance env x.id) e = (.ok tokens, e') ∧ Tends x e e' ∧
      ∀ token, token ∈ tokens ↔
        x.hasScope = true ∧ token ∈ x.tokens ∧ isParked e' x x.id token.id = false := by
  rw [reconcileInstance, exec_bind_ok (exec_findInstance e x.id), hx]
  dsimp only
  rw [if_neg (by rw [hlive]; exact Bool.false_ne_true),
    if_neg (by rw [hactive]; exact Bool.false_ne_true), ← ProcessInstance.hasScope]
  obtain ⟨e₁, hx₁, hmends, hawaited, hnothing⟩ := exec_restoreMissingSubscriptions hhandled
  rw [exec_bind_ok hx₁]
  have hsubscribed : ∀ p, e₁.Holds p → e.Holds p ∨ p.wait.instanceId = x.id ∧ x.Subscribes p.wait :=
    fun p hp => (hmends.filed p hp).imp_right fun ⟨howner, hkind, hs⟩ => ⟨howner, hkind, hs⟩
  by_cases hscope : x.hasScope = true
  · obtain ⟨e', hx', hcore, hholds⟩ := exec_dropOrphanWaits e₁ x
    rw [if_neg (by simp [hscope]), exec_bind_ok hx', exec_bind_ok (exec_get e')]
    refine ⟨_, e', rfl, ⟨hcore.definitions.trans hmends.core.definitions,
      hcore.instances.trans hmends.core.instances, ?_, ?_, ?_, ?_, ?_⟩, fun token => ?_⟩
    · -- the waits of subscriptions are no orphans
      intro s hs d handler hd hhandler
      rw [hcore.definitions] at hd
      refine missingWait_mono (fun p hkind hid hp => (hholds p).mpr ⟨hp, fun horphan => ?_⟩)
        (hawaited s hs d handler hd hhandler)
      exact horphan.2.2 ⟨hkind, s, hs, hid.symm⟩
    · exact fun p hp horphan => (hholds p).mpr ⟨hmends.kept p hp, horphan hscope⟩
    · exact fun p hp => hsubscribed p ((hholds p).mp hp).1
    · exact fun h p hp => hnothing h ▸ ((hholds p).mp hp).1
    · exact fun _ p hp => ((hholds p).mp hp).2
    · simp [hscope, Table.mem_def]
  · rw [if_pos (by simpa using hscope)]
    refine ⟨[], e₁, rfl, ⟨hmends.core.definitions, hmends.core.instances, hawaited,
      fun p hp _ => hmends.kept p hp, hsubscribed, fun h p hp => hnothing h ▸ hp,
      fun h => absurd h hscope⟩, fun token => ?_⟩
    simp [hscope]

/-- An instance whose examination returned has its handlers, unless nothing had to be looked
at. -/
theorem handled_of_reconcileInstance (hlive : x.state.isTerminal = false)
    (hactive : x.state.isSuspended = false)
    (h : exec (reconcileInstance env x.id) e = (.ok tokens, e')) : e.Handled x := by
  rw [reconcileInstance, exec_bind_ok (exec_findInstance e x.id), hx] at h
  dsimp only at h
  rw [if_neg (by rw [hlive]; exact Bool.false_ne_true),
    if_neg (by rw [hactive]; exact Bool.false_ne_true)] at h
  obtain ⟨_, _, hrestore, _⟩ := exec_bind_eq_ok h
  exact handled_of_restoreMissingSubscriptions hrestore

end

/-- An examination that returned the tokens to run. -/
inductive Examined : Uuid → Engine → List Token → Engine → Prop where
  | nothing {i : Uuid} {e : Engine}
      (h : ∀ x, e.instances.find? i = some x →
        x.state.isTerminal = false ∧ x.state.isSuspended = true) : Examined i e [] e
  | closes {x : ProcessInstance} {e e' : Engine} (hx : e.instances.find? x.id = some x)
      (hterminal : x.state.isTerminal = true) (h : Closes x e e') : Examined x.id e [] e'
  | tends {x : ProcessInstance} {e e' : Engine} {tokens : List Token}
      (hx : e.instances.find? x.id = some x) (hlive : x.state.isTerminal = false)
      (hactive : x.state.isSuspended = false) (hhandled : e.Handled x) (h : Tends x e e')
      (htokens : ∀ token, token ∈ tokens ↔
        x.hasScope = true ∧ token ∈ x.tokens ∧ isParked e' x x.id token.id = false) :
      Examined x.id e tokens e'

/-- Only an instance that runs can fail to be examined, if it lacks a handler. -/
theorem exec_reconcileInstance_examined (env : Env) (i : Uuid)
    (h : ∀ x, e.instances.find? i = some x → x.state.isTerminal = false →
      x.state.isSuspended = false → e.Handled x) :
    ∃ tokens e', exec (reconcileInstance env i) e = (.ok tokens, e') ∧ Examined i e tokens e' := by
  cases hx : e.instances.find? i with
  | none => exact ⟨[], e, exec_reconcileInstance_none hx, .nothing (by simp [hx])⟩
  | some x =>
    obtain rfl := Table.key_of_find? hx
    cases hterminal : x.state.isTerminal with
    | true =>
      obtain ⟨e', hexec, hcloses⟩ := exec_reconcileInstance_terminal hx hterminal
      exact ⟨[], e', hexec, .closes hx hterminal hcloses⟩
    | false =>
      cases hsuspended : x.state.isSuspended with
      | true =>
        refine ⟨[], e, exec_reconcileInstance_suspended hx hterminal hsuspended, .nothing ?_⟩
        intro y hy
        obtain rfl := Option.some.inj (hx.symm.trans hy)
        exact ⟨hterminal, hsuspended⟩
      | false =>
        have hhandled := h x hx hterminal hsuspended
        obtain ⟨tokens, e', hexec, htends, htokens⟩ :=
          exec_reconcileInstance_live hx hterminal hsuspended hhandled
        exact ⟨tokens, e', hexec, .tends hx hterminal hsuspended hhandled htends htokens⟩

theorem examined_of_exec (h : exec (reconcileInstance env i) e = (.ok tokens, e')) :
    Examined i e tokens e' := by
  obtain ⟨_, _, hexec, hexamined⟩ := exec_reconcileInstance_examined env i fun x hx hlive hactive =>
    handled_of_reconcileInstance (Table.key_of_find? hx ▸ hx) hlive hactive
      (Table.key_of_find? hx ▸ h)
  cases h.symm.trans hexec
  exact hexamined

namespace Examined

section

variable (h : Examined i e tokens e')

include h

theorem definitions : e'.definitions = e.definitions := by
  cases h with
  | nothing => rfl
  | closes _ _ h => exact h.definitions
  | tends _ _ _ _ h => exact h.definitions

theorem others {j : Uuid} (hj : j ≠ i) : e'.instances.find? j = e.instances.find? j := by
  cases h with
  | nothing => rfl
  | closes _ _ h => exact h.others j hj
  | tends _ _ _ _ h => rw [h.instances]

/-- An examination that leaves its own instance alone touches only the waits of that instance.
Only giving up subscriptions reaches further, to all waits with their identifiers. -/
theorem holds_others (hown : e'.instances.find? i = e.instances.find? i) {p : Pending}
    (hp : p.wait.instanceId ≠ i) : e'.Holds p ↔ e.Holds p := by
  cases h with
  | nothing => exact Iff.rfl
  | @closes x _ _ hx _ h =>
    rw [h.holds]
    refine and_iff_left fun _ => ⟨?_, fun horphan => hp horphan.1⟩
    rintro ⟨_, s, hs, _⟩
    obtain ⟨y, hy, _, hnone, _⟩ := h.own
    rw [hown, hx] at hy
    obtain rfl := Option.some.inj hy
    rw [hnone] at hs
    cases hs
  | tends _ _ _ _ h =>
    constructor
    · exact fun hp' => (h.filed p hp').resolve_right fun hown => hp hown.1
    · exact fun hp' => h.kept p hp' fun _ horphan => hp horphan.1

theorem stillUnparked {token : Token} (ht : token ∈ tokens) :
    stillUnparked e' i token.id = true := by
  cases h with
  | nothing => cases ht
  | closes => cases ht
  | tends hx hlive _ _ h htokens =>
    obtain ⟨_, hmem, hunparked⟩ := (htokens token).mp ht
    rw [Eng.stillUnparked, h.instances, hx]
    have hcontains := Table.contains_iff.mpr ⟨token, hmem, rfl⟩
    simp [hcontains, hunparked, hlive]

end

end Examined

end Eng

end BpmnEngine
