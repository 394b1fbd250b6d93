import BpmnEngine.DepthFirst
import BpmnEngine.ShutInstances

/-!
# Interrupting event subprocesses

An interrupting handler takes the place of everything in its scope: tokens, joins, calls,
subscriptions and waits are gone, and the instances that the scope has called are aborted,
together with those that they have called. The waits are deleted from the storage as well,
so the programs of this module run on an engine and its stored waits.

The search for called instances stops at an instance that has ended. Such an instance may
still have a call outstanding, and the instance it has called is then left alive. With
no such instance, what the handler leaves of its scope is its own token.
-/
namespace BpmnEngine

open Program Eng Engine Config

/-- An engine and the waits that its storage has on record. -/
structure Backed where
  engine : Engine
  stored : List Wait

/-- Programs that write to the storage. -/
abbrev StoreEng := Program Backed EngineError

def Wait.sameKey (w v : Wait) : Bool := w.kind == v.kind && w.id == v.id

/-- Without the waits of an instance, in the engine and in the storage. -/
def Backed.cancelScopeWaits (i : Uuid) (s : Backed) : Backed where
  engine := s.engine.dropWaits i
  stored := s.stored.filter fun r =>
    !(s.engine.waits.filter fun w => w.instanceId == i).any fun w => w.sameKey r

namespace StoreEng

variable {α β : Type} {m : Eng α}

def onEngine (m : Eng α) : StoreEng α := fun s =>
  ((exec m s.engine).1, { s with engine := (exec m s.engine).2 })

/-- Drops the waits of an instance and deletes their records. -/
def cancelScopeWaits (instanceId : Uuid) : StoreEng Unit := do
  let s ← get
  let dropped := s.engine.waits.filter fun w => w.instanceId == instanceId
  onEngine (Eng.cancelScopeWaits instanceId)
  modify fun s => { s with stored := s.stored.filter fun r => !dropped.any fun w => w.sameKey r }

def abortInterruptedInstance : Nat → Uuid → StoreEng Unit
  | 0, _ => pure ()
  | fuel + 1, instanceId => do
    match ← onEngine (findInstance instanceId) with
    | none => pure ()
    | some i =>
      if i.state.isTerminal then
        return
      let clock ← onEngine Eng.now
      onEngine (Eng.modifyInstance instanceId (ProcessInstance.interrupted clock))
      cancelScopeWaits instanceId
      i.outstandingCalls.keys.forM (abortInterruptedInstance fuel)

def activateHandler (env : Env) (instanceId : Uuid) (handler : EventSubProcess)
    (subscription : EventSubscription) (vars : Variables) (consumption : EventConsumption) :
    StoreEng (Option ScopeActivation) := do
  let clock ← onEngine Eng.now
  let reschedule := rescheduleTimer env handler subscription clock
  let i ← onEngine (getInstance instanceId)
  if i.state.isSuspended || i.state.isTerminal then
    return none
  if !i.eventSubscriptions.any fun current => current.id == subscription.id then
    return none
  let merged := i.vars.extend vars
  let token ← onEngine (newToken handler.startNode merged)
  onEngine (Eng.modifyInstance instanceId
    (startHandler handler subscription reschedule merged token))
  if handler.isInterrupting then
    cancelScopeWaits instanceId
    let fuel := (← get).engine.instances.entries.length + 1
    i.outstandingCalls.keys.forM (abortInterruptedInstance fuel)
    return some (.interrupting token)
  else
    onEngine (retainConsumption consumption subscription reschedule)
    return some (.parallel token)

/-! ## The engine does not depend on the storage -/

def Follows (m' : StoreEng α) (m : Eng α) : Prop :=
  ∀ s, (exec m' s).1 = (exec m s.engine).1 ∧ (exec m' s).2.engine = (exec m s.engine).2

namespace Follows

variable {m' : StoreEng α}

theorem onEngine (m : Eng α) : Follows (onEngine m) m := fun _ => ⟨rfl, rfl⟩

theorem pure (a : α) : Follows (pure a) (Pure.pure a) := fun _ => ⟨rfl, rfl⟩

theorem bind {f' : α → StoreEng β} {f : α → Eng β} (hm : Follows m' m)
    (hf : ∀ a, Follows (f' a) (f a)) : Follows (m' >>= f') (m >>= f) := by
  intro s
  obtain ⟨hresult, hengine⟩ := hm s
  rw [exec_bind, exec_bind]
  rcases hx' : exec m' s with ⟨r', t'⟩
  rcases hx : exec m s.engine with ⟨r, t⟩
  rw [hx', hx] at hresult hengine
  obtain rfl : r' = r := hresult
  obtain rfl : t'.engine = t := hengine
  cases r' with
  | error => exact ⟨rfl, rfl⟩
  | ok a => exact hf a t'

theorem get_bind {f' : Backed → StoreEng α} {f : Engine → Eng α}
    (hf : ∀ s, Follows (f' s) (f s.engine)) : Follows (get >>= f') (get >>= f) := by
  intro s
  rw [exec_bind_ok (exec_get s), exec_bind_ok (exec_get s.engine)]
  exact hf s s

theorem ite {c : Prop} [Decidable c] {n' : StoreEng α} {n : Eng α} (hm : Follows m' m)
    (hn : Follows n' n) : Follows (if c then m' else n') (if c then m else n) := by
  split
  · exact hm
  · exact hn

theorem forM {f' : α → StoreEng Unit} {f : α → Eng Unit} (hf : ∀ a, Follows (f' a) (f a))
    (l : List α) : Follows (l.forM f') (l.forM f) := by
  induction l with
  | nil => exact pure ()
  | cons a l ih => exact bind (hf a) fun _ => ih

end Follows

theorem exec_onEngine {s : Backed} {r : EngineResult α} {e : Engine}
    (hx : exec m s.engine = (r, e)) : exec (onEngine m) s = (r, { s with engine := e }) := by
  show ((exec m s.engine).1, _) = _
  rw [hx]

theorem exec_cancelScopeWaits (i : Uuid) (s : Backed) :
    exec (cancelScopeWaits i) s = (.ok (), s.cancelScopeWaits i) := by
  rw [cancelScopeWaits, exec_bind_ok (exec_get s),
    exec_bind_ok (exec_onEngine (Eng.exec_cancelScopeWaits s.engine)), exec_modify]
  rfl

theorem cancelScopeWaits_follows (i : Uuid) :
    Follows (cancelScopeWaits i) (Eng.cancelScopeWaits i) := by
  intro s
  rw [exec_cancelScopeWaits, Eng.exec_cancelScopeWaits]
  exact ⟨rfl, rfl⟩

theorem abortInterruptedInstance_follows (fuel : Nat) (i : Uuid) :
    Follows (abortInterruptedInstance fuel i) (Eng.abortInterruptedInstance fuel i) := by
  induction fuel generalizing i with
  | zero => exact .pure ()
  | succ fuel ih =>
    refine .bind (.onEngine _) fun found => ?_
    cases found with
    | none => exact .pure ()
    | some =>
      exact .ite (.pure ()) <| .bind (.onEngine _) fun _ => .bind (.onEngine _) fun _ =>
        .bind (cancelScopeWaits_follows i) fun _ => .forM ih _

theorem activateHandler_follows (env : Env) (i : Uuid) (handler : EventSubProcess)
    (subscription : EventSubscription) (vars : Variables) (consumption : EventConsumption) :
    Follows (activateHandler env i handler subscription vars consumption)
      (Eng.activateHandler env i handler subscription vars consumption) := by
  refine .bind (.onEngine _) fun _ => .bind (.onEngine _) fun x => .ite (.pure _) ?_
  refine .ite (.pure _) <| .bind (.onEngine _) fun token => .bind (.onEngine _) fun _ => ?_
  refine .ite ?_ (.bind (.onEngine _) fun _ => .pure _)
  refine .bind (cancelScopeWaits_follows i) fun _ => .get_bind fun s => ?_
  exact .bind (.forM (abortInterruptedInstance_follows _) _) fun _ => .pure _

end StoreEng

/-! ## The instances that are aborted -/

namespace Engine

def isLive (e : Engine) (x : Uuid) : Bool :=
  (e.instances.find? x).any fun y => !y.state.isTerminal

def calledBy (e : Engine) (x : Uuid) : List Uuid :=
  ((e.instances.find? x).map fun y => y.outstandingCalls.keys).getD []

def Descends (e : Engine) (i : Uuid) : Uuid → Prop :=
  DepthFirst.Found (fun e x => (e.instances.find? x).isSome) calledBy e (e.calledBy i)

def Aborts (e : Engine) (i : Uuid) : Uuid → Prop :=
  DepthFirst.Found isLive calledBy e (e.calledBy i)

variable {e : Engine} {i x z : Uuid}

theorem isLive_iff : e.isLive x = true ↔ e.Live x := by
  simp [isLive, Live, Option.any_eq_true]

theorem mem_calledBy : z ∈ e.calledBy x ↔ e.Calls x z := by
  cases hx : e.instances.find? x with
  | none => simp [calledBy, Calls, hx]
  | some => simp [calledBy, Calls, hx, Map.keys, Map.get?_eq_some_iff, Table.mem_def]

theorem Aborts.descends (h : e.Aborts i x) : e.Descends i x := by
  have hsome : ∀ y, e.isLive y = true → (e.instances.find? y).isSome = true := by
    intro y hy
    obtain ⟨z, hz, -⟩ := isLive_iff.mp hy
    simp [hz]
  exact h.mem (fun y hy hlive => .root (hsome y hlive) hy)
    fun y z hy hlive hz => .edge hy (hsome z hlive) hz

theorem Descends.call (h : e.Descends i x) (hcall : e.Calls x z)
    (hz : (e.instances.find? z).isSome = true) : e.Descends i z :=
  .edge h hz (mem_calledBy.mpr hcall)

end Engine

namespace Backed

variable {r : Wait}

def abort (x : Uuid) (s : Backed) : Backed :=
  cancelScopeWaits x
    { s with engine := s.engine.modifyInstance x (ProcessInstance.interrupted s.engine.clock) }

def abortAll : Nat → List Uuid → Backed → Backed :=
  DepthFirst.visitAll (fun s => s.engine.isLive) (fun s => s.engine.calledBy) abort

variable {s : Backed} {i x y : Uuid}

theorem mem_stored_cancelScopeWaits :
    r ∈ (s.cancelScopeWaits i).stored ↔
      r ∈ s.stored ∧ ¬∃ w ∈ s.engine.waits, w.instanceId = i ∧ w.sameKey r = true := by
  simp only [cancelScopeWaits, List.mem_filter, List.any_filter, Bool.not_eq_true',
    ← Bool.not_eq_true, List.any_eq_true, Bool.and_eq_true, beq_iff_eq]

theorem instances_cancelScopeWaits : (s.cancelScopeWaits i).engine.instances = s.engine.instances :=
  (sameCore_dropWaits s.engine i).instances

theorem find?_abort_self :
    (s.abort x).engine.instances.find? x = (s.engine.instances.find? x).map fun y =>
      { ProcessInstance.interrupted s.engine.clock y with id := y.id } := by
  rw [abort, instances_cancelScopeWaits]
  exact find?_modifyInstance_self _ _ _

theorem find?_abort_of_ne (h : y ≠ x) :
    (s.abort x).engine.instances.find? y = s.engine.instances.find? y := by
  rw [abort, instances_cancelScopeWaits]
  exact find?_modifyInstance_of_ne h

theorem mem_waits_abort {w : Wait} :
    w ∈ (s.abort x).engine.waits ↔ w ∈ s.engine.waits ∧ w.instanceId ≠ x :=
  mem_waits_dropWaits

theorem mem_stored_abort :
    r ∈ (s.abort x).stored ↔
      r ∈ s.stored ∧ ¬∃ w ∈ s.engine.waits, w.instanceId = x ∧ w.sameKey r = true :=
  mem_stored_cancelScopeWaits

theorem abort_marks :
    DepthFirst.Marks (fun s : Backed => s.engine.isLive) (fun s => s.engine.calledBy) abort where
  isOpen_mark x y s := by
    by_cases hyx : y = x
    · subst hyx
      cases hy : s.engine.instances.find? y <;>
        simp [Engine.isLive, find?_abort_self, hy, ProcessInstance.interrupted,
          InstanceState.isTerminal]
    · simp [Engine.isLive, find?_abort_of_ne hyx, hyx]
  next_mark x y s hyx := by simp [Engine.calledBy, find?_abort_of_ne hyx]

/-- What aborting a list of instances does. -/
structure Aborted (l : List Uuid) (s s' : Backed) : Prop where
  ended : ∀ x ∈ l, ∀ z, s.engine.instances.find? x = some z →
    ∃ z', s'.engine.instances.find? x = some z' ∧ z'.state.isTerminal = true ∧ z'.tokens = ∅ ∧
      z'.outstandingCalls = ∅
  kept : ∀ x ∉ l, s'.engine.instances.find? x = s.engine.instances.find? x
  waits : ∀ w, w ∈ s'.engine.waits ↔ w ∈ s.engine.waits ∧ w.instanceId ∉ l
  stored : ∀ r, r ∈ s'.stored ↔
    r ∈ s.stored ∧ ¬∃ w ∈ s.engine.waits, w.instanceId ∈ l ∧ w.sameKey r = true
  nextUuid : s'.engine.nextUuid = s.engine.nextUuid

theorem foldl_aborted (l : List Uuid) (s : Backed) :
    Aborted l s (l.foldl (fun s x => s.abort x) s) := by
  induction l generalizing s with
  | nil => exact ⟨by simp, by simp, by simp, by simp, rfl⟩
  | cons x l ih =>
    have h := ih (s.abort x)
    rw [List.foldl_cons]
    refine ⟨fun y hy z hz => ?_, fun y hy => ?_, fun w => ?_, fun r => ?_, ?_⟩
    · obtain ⟨z', hz'⟩ : ∃ z', (s.abort x).engine.instances.find? y = some z' := by
        by_cases hyx : y = x
        · exact ⟨_, by rw [hyx, find?_abort_self, ← hyx, hz]; rfl⟩
        · exact ⟨z, (find?_abort_of_ne hyx).trans hz⟩
      by_cases hmem : y ∈ l
      · exact h.ended y hmem z' hz'
      · obtain rfl : y = x := (List.mem_cons.mp hy).resolve_right hmem
        refine ⟨z', (h.kept y hmem).trans hz', ?_⟩
        rw [find?_abort_self, hz] at hz'
        cases hz'
        exact ⟨rfl, rfl, rfl⟩
    · rw [List.mem_cons, not_or] at hy
      rw [h.kept y hy.2, find?_abort_of_ne hy.1]
    · rw [h.waits w, mem_waits_abort, List.mem_cons, not_or, and_assoc]
    · rw [h.stored r, mem_stored_abort, and_assoc]
      refine and_congr_right fun _ => ?_
      simp only [mem_waits_abort, List.mem_cons]
      grind
    · exact h.nextUuid

end Backed

namespace StoreEng

theorem exec_abortInterruptedInstance (fuel : Nat) (x : Uuid) (s : Backed) :
    exec (abortInterruptedInstance fuel x) s = (.ok (), DepthFirst.visit
      (fun s => s.engine.isLive) (fun s => s.engine.calledBy) Backed.abort fuel x s) := by
  induction fuel generalizing x s with
  | zero => rfl
  | succ fuel ih =>
    rw [abortInterruptedInstance, DepthFirst.visit,
      exec_bind_ok (exec_onEngine (exec_findInstance _ _))]
    cases hx : s.engine.instances.find? x with
    | none => simp [Engine.isLive, hx]
    | some y =>
      cases hend : y.state.isTerminal with
      | true => simp [Engine.isLive, hx, hend]
      | false =>
        simp only [hend, Bool.false_eq_true, ↓reduceIte]
        rw [exec_bind_ok (exec_onEngine (exec_now _)),
          exec_bind_ok (exec_onEngine (exec_modifyInstance _ _ _)),
          exec_bind_ok (exec_cancelScopeWaits _ _),
          exec_forM_eq_foldl ih]
        simp [Engine.isLive, Engine.calledBy, hx, hend, Backed.abort]

def started (i : Uuid) (f : ProcessInstance → ProcessInstance) (s : Backed) : Backed :=
  Backed.cancelScopeWaits i { s with
    engine := Engine.modifyInstance i f { s.engine with nextUuid := s.engine.nextUuid + 1 } }

variable {env : Env} {s s' : Backed} {i : Uuid} {handler : EventSubProcess}
  {subscription : EventSubscription} {vars : Variables} {consumption : EventConsumption}
  {token : Token}

theorem exec_activateHandler
    (hx : exec (activateHandler env i handler subscription vars consumption) s =
      (.ok (some (.interrupting token)), s')) :
    ∃ y, s.engine.instances.find? i = some y ∧ y.state.isTerminal = false ∧
      handler.isInterrupting = true ∧
      let s₁ := started i (startHandler handler subscription
        (rescheduleTimer env handler subscription s.engine.clock) (y.vars.extend vars) token) s
      s' = Backed.abortAll (s₁.engine.instances.entries.length + 1) (s.engine.calledBy i) s₁ := by
  rw [activateHandler, exec_bind_ok (exec_onEngine (exec_now _))] at hx
  cases hi : s.engine.instances.find? i with
  | none =>
    rw [exec_bind_error (exec_onEngine (exec_getInstance_none hi))] at hx
    cases hx
  | some y =>
    rw [exec_bind_ok (exec_onEngine (exec_getInstance hi))] at hx
    dsimp only at hx
    split at hx
    · cases hx
    case isFalse hlive =>
      split at hx
      · cases hx
      · obtain ⟨t, e, ht, hx⟩ := exec_bind_eq_ok hx
        cases ht
        rw [exec_bind_ok (exec_onEngine (exec_modifyInstance _ _ _))] at hx
        split at hx
        case isFalse =>
          obtain ⟨_, _, _, hx⟩ := exec_bind_eq_ok hx
          cases hx
        case isTrue hinterrupting =>
          rw [exec_bind_ok (exec_cancelScopeWaits _ _), exec_bind_ok (exec_get _),
            exec_bind_ok (exec_forM_eq_foldl (exec_abortInterruptedInstance _) _ _)] at hx
          cases hx
          refine ⟨y, rfl, ?_, hinterrupting, ?_⟩
          · rw [Bool.or_eq_true, not_or, Bool.not_eq_true, Bool.not_eq_true] at hlive
            exact hlive.2
          · simp only [Engine.calledBy, hi]
            rfl

end StoreEng

/-! ## What the handler leaves of its scope -/

namespace Engine

variable {e : Engine} {i : Uuid}

/-- The token of the handler is all that the scope has left. -/
structure OnlyToken (e : Engine) (i : Uuid) (token : Token) (y : ProcessInstance) : Prop where
  found : e.instances.find? i = some y
  tokens : y.tokens.entries = [token]
  activeTokens : y.activeTokens.map (·.token) = [token]
  joinBarriers : y.joinBarriers = ∅
  multiInstanceState : y.multiInstanceState = ∅
  outstandingCalls : y.outstandingCalls = ∅
  eventSubscriptions : y.eventSubscriptions = []

end Engine

namespace Backed

variable {s s' : Backed} {i x : Uuid} {token : Token} {f : ProcessInstance → ProcessInstance}

/-- The interruption of a scope: `i` is restarted with a token, and others are aborted. -/
structure Interruption (s : Backed) (i : Uuid) (token : Token) (s' : Backed) : Prop where
  live : s.engine.Live i
  scope : ¬s.engine.Aborts i i → ∃ y, s'.engine.OnlyToken i token y ∧ y.state = .running
  ended : ∀ x, s.engine.Aborts i x → ∃ z, s'.engine.instances.find? x = some z ∧
    z.state.isTerminal = true ∧ z.tokens = ∅ ∧ z.outstandingCalls = ∅
  kept : ∀ x, x ≠ i → ¬s.engine.Aborts i x →
    s'.engine.instances.find? x = s.engine.instances.find? x
  waits : ∀ w, w ∈ s'.engine.waits ↔
    w ∈ s.engine.waits ∧ w.instanceId ≠ i ∧ ¬s.engine.Aborts i w.instanceId
  stored : ∀ r, r ∈ s'.stored ↔ r ∈ s.stored ∧ ¬∃ w ∈ s.engine.waits,
    (w.instanceId = i ∨ s.engine.Aborts i w.instanceId) ∧ w.sameKey r = true

theorem openBelow_instances (s : Backed) :
    DepthFirst.OpenBelow (fun s : Backed => s.engine.isLive) s
      (s.engine.instances.entries.length + 1) := by
  refine ⟨(s.engine.instances.entries.map (·.id)).toFinset, fun x hx => ?_, ?_⟩
  · obtain ⟨y, hy, -⟩ := isLive_iff.mp hx
    obtain ⟨hmem, hid⟩ := Table.find?_eq_some_iff.mp hy
    exact List.mem_toFinset.mpr (List.mem_map.mpr ⟨y, hmem, hid⟩)
  · refine Nat.lt_succ_of_le ((List.toFinset_card_le _).trans ?_)
    rw [List.length_map]

theorem find?_started_self :
    (StoreEng.started i f s).engine.instances.find? i =
      (s.engine.instances.find? i).map fun y => { f y with id := y.id } := by
  rw [StoreEng.started, instances_cancelScopeWaits]
  exact find?_modifyInstance_self _ _ _

theorem find?_started_of_ne (h : x ≠ i) :
    (StoreEng.started i f s).engine.instances.find? x = s.engine.instances.find? x := by
  rw [StoreEng.started, instances_cancelScopeWaits]
  exact find?_modifyInstance_of_ne h

theorem mem_waits_started {w : Wait} :
    w ∈ (StoreEng.started i f s).engine.waits ↔ w ∈ s.engine.waits ∧ w.instanceId ≠ i :=
  mem_waits_dropWaits

theorem mem_stored_started {r : Wait} :
    r ∈ (StoreEng.started i f s).stored ↔
      r ∈ s.stored ∧ ¬∃ w ∈ s.engine.waits, w.instanceId = i ∧ w.sameKey r = true :=
  mem_stored_cancelScopeWaits

/-- The restarted instance has lost its calls, but they are where the search starts. -/
theorem found_started_iff {y : ProcessInstance} (hi : s.engine.instances.find? i = some y)
    (hlive : y.state.isTerminal = false) (hf : (f y).outstandingCalls = ∅)
    (hrunning : (f y).state.isTerminal = false) :
    DepthFirst.Found (fun s : Backed => s.engine.isLive) (fun s => s.engine.calledBy)
      (StoreEng.started i f s) (s.engine.calledBy i) x ↔ s.engine.Aborts i x := by
  have hopen : ∀ z, (StoreEng.started i f s).engine.isLive z = s.engine.isLive z := by
    intro z
    by_cases hz : z = i
    · subst hz
      simp [Engine.isLive, find?_started_self, hi, hlive, hrunning]
    · rw [Engine.isLive, find?_started_of_ne hz, Engine.isLive]
  constructor
  · intro h
    refine h.mem (fun z hz hlive => .root (hopen z ▸ hlive) hz) fun z w hz hlive hw => ?_
    by_cases hzi : z = i
    · subst hzi
      simp [Engine.calledBy, find?_started_self, hi, hf, Map.keys] at hw
    · rw [Engine.calledBy, find?_started_of_ne hzi] at hw
      exact .edge hz (hopen w ▸ hlive) hw
  · intro h
    refine h.mem (fun z hz hlive => .root ((hopen z).trans hlive) hz) fun z w hz hlive hw => ?_
    by_cases hzi : z = i
    · exact .root ((hopen w).trans hlive) (hzi ▸ hw)
    · refine .edge hz ((hopen w).trans hlive) ?_
      rwa [Engine.calledBy, find?_started_of_ne hzi]

end Backed

namespace StoreEng

variable {env : Env} {s s' : Backed} {i : Uuid} {handler : EventSubProcess}
  {subscription : EventSubscription} {vars : Variables} {consumption : EventConsumption}
  {token : Token}

theorem activateHandler_interruption
    (hx : exec (activateHandler env i handler subscription vars consumption) s =
      (.ok (some (.interrupting token)), s')) : s.Interruption i token s' := by
  obtain ⟨y, hi, hlive, hinterrupting, hs'⟩ := exec_activateHandler hx
  generalize hf : startHandler handler subscription
    (rescheduleTimer env handler subscription s.engine.clock) (y.vars.extend vars) token = f at hs'
  have hscope : (f y).tokens.entries = [token] ∧ (f y).activeTokens.map (·.token) = [token] ∧
      (f y).joinBarriers = ∅ ∧ (f y).multiInstanceState = ∅ ∧ (f y).outstandingCalls = ∅ ∧
      (f y).eventSubscriptions = [] ∧ (f y).state = .running := by
    subst hf
    rw [startHandler]
    simp only [hinterrupting, ↓reduceIte]
    exact ⟨rfl, rfl, rfl, rfl, rfl, rfl, trivial⟩
  obtain ⟨htokens, hactive, hbarriers, hmulti, hcalls, hsubscriptions, hrunning⟩ := hscope
  obtain ⟨l, hl, hfound⟩ := DepthFirst.visitAll_eq_foldl Backed.abort_marks (s.engine.calledBy i)
    (Backed.openBelow_instances (started i f s))
  have hmem' := fun x => Backed.found_started_iff (x := x) hi hlive hcalls (by rw [hrunning]; rfl)
  have hmem : ∀ x, x ∈ l ↔ s.engine.Aborts i x := fun x => (hfound x).trans (hmem' x)
  have haborted := Backed.foldl_aborted l (started i f s)
  rw [← hl] at haborted
  rw [Backed.abortAll] at hs'
  rw [← hs'] at haborted
  refine ⟨⟨y, hi, hlive⟩, fun hself => ?_, fun x hx => ?_, fun x hne hx => ?_, fun w => ?_,
    fun r => ?_⟩
  · refine ⟨{ f y with id := y.id }, ⟨?_, htokens, hactive, hbarriers, hmulti, hcalls,
      hsubscriptions⟩, hrunning⟩
    rw [haborted.kept i (mt (hmem i).mp hself), Backed.find?_started_self, hi]
    rfl
  · obtain ⟨z, hz, -⟩ := isLive_iff.mp ((hmem' x).mpr hx).opened
    exact haborted.ended x ((hmem x).mpr hx) z hz
  · rw [haborted.kept x (mt (hmem x).mp hx), Backed.find?_started_of_ne hne]
  · rw [haborted.waits w, Backed.mem_waits_started, hmem, and_assoc]
  · rw [haborted.stored r, Backed.mem_stored_started, and_assoc]
    simp only [Backed.mem_waits_started, hmem]
    grind

end StoreEng

def EventConsumption.records (consumption : EventConsumption) (r : Wait) : Bool :=
  consumption.pending?.any fun p => p.wait.sameKey r

namespace Backed

variable {s s' : Backed} {i x : Uuid} {token : Token} {consumption : EventConsumption}

/-- The scope was interrupted: its only token is the one of the handler, nothing of it waits in
memory or in the storage, and all instances that it has called have ended and do not wait. The
record of the consumed wait is left to the caller. -/
structure Interrupted (s : Backed) (i : Uuid) (token : Token) (consumption : EventConsumption)
    (s' : Backed) : Prop where
  scope : ∃ y, s'.engine.OnlyToken i token y
  waitless : s'.engine.Waitless i
  stored : ∀ r ∈ s'.stored, r.instanceId = i → consumption.records r = true
  descendants : ∀ x, s.engine.Descends i x →
    s'.engine.Terminal x ∧ s'.engine.Waitless x ∧ ∀ r ∈ s'.stored, r.instanceId ≠ x

/-- Every instance that the scope has called was called by way of instances that have not ended,
or has itself ended and does not wait; and every stored wait of the scope and of these instances is
pending in one that is interrupted. -/
structure Interruptible (s : Backed) (i : Uuid) (consumption : EventConsumption) : Prop where
  descendants : ∀ x, s.engine.Descends i x →
    x ≠ i ∧ (s.engine.Aborts i x ∨ s.engine.Terminal x ∧ s.engine.Waitless x)
  stored : ∀ r ∈ s.stored, (r.instanceId = i ∧ consumption.records r = false) ∨
      s.engine.Descends i r.instanceId →
    ∃ w ∈ s.engine.waits, (w.instanceId = i ∨ s.engine.Aborts i w.instanceId) ∧ w.sameKey r = true

theorem Interruption.interrupted_iff (h : s.Interruption i token s') :
    s.Interrupted i token consumption s' ↔ s.Interruptible i consumption := by
  constructor
  · intro hdone
    obtain ⟨y, honly⟩ := hdone.scope
    have hself : ¬s.engine.Aborts i i := by
      intro hself
      obtain ⟨z, hz, -, htokens, -⟩ := h.ended i hself
      obtain rfl := Option.some.inj (hz.symm.trans honly.found)
      have hone := honly.tokens
      rw [htokens] at hone
      cases hone
    obtain ⟨y', honly', hrunning⟩ := h.scope hself
    have hnot : ∀ x, s.engine.Descends i x → x ≠ i := by
      rintro x hx rfl
      obtain ⟨⟨z, hz, hend⟩, -⟩ := hdone.descendants x hx
      obtain rfl := Option.some.inj (hz.symm.trans honly'.found)
      rw [hrunning] at hend
      cases hend
    refine ⟨fun x hx => ⟨hnot x hx, ?_⟩, fun r hr hinstance => ?_⟩
    · by_cases hx' : s.engine.Aborts i x
      · exact .inl hx'
      · obtain ⟨⟨z, hz, hend⟩, hwaitless, -⟩ := hdone.descendants x hx
        rw [h.kept x (hnot x hx) hx'] at hz
        refine .inr ⟨⟨z, hz, hend⟩, fun w hw hwx => ?_⟩
        exact hwaitless w ((h.waits w).mpr ⟨hw, hwx ▸ hnot x hx, hwx ▸ hx'⟩) hwx
    · by_contra hnone
      have hr' := (h.stored r).mpr ⟨hr, hnone⟩
      rcases hinstance with ⟨hri, hrecord⟩ | hri
      · have := hdone.stored r hr' hri
        rw [hrecord] at this
        cases this
      · exact (hdone.descendants _ hri).2.2 r hr' rfl
  · intro hable
    have hself : ¬s.engine.Aborts i i := fun hself => (hable.descendants i hself.descends).1 rfl
    obtain ⟨y, honly, -⟩ := h.scope hself
    have hstored : ∀ r ∈ s'.stored, ¬((r.instanceId = i ∧ consumption.records r = false) ∨
        s.engine.Descends i r.instanceId) := by
      intro r hr hinstance
      obtain ⟨hr, hnone⟩ := (h.stored r).mp hr
      exact hnone (hable.stored r hr hinstance)
    refine ⟨⟨y, honly⟩, fun w hw => ((h.waits w).mp hw).2.1, fun r hr hri => ?_,
      fun x hx => ⟨?_, fun w hw hwx => ?_, fun r hr hrx => ?_⟩⟩
    · by_contra hrecord
      exact hstored r hr (.inl ⟨hri, by simpa using hrecord⟩)
    · by_cases hx' : s.engine.Aborts i x
      · obtain ⟨z, hz, hend, -⟩ := h.ended x hx'
        exact ⟨z, hz, hend⟩
      · obtain ⟨hne, hx'' | ⟨⟨z, hz, hend⟩, -⟩⟩ := hable.descendants x hx
        · exact (hx' hx'').elim
        · exact ⟨z, (h.kept x hne hx').trans hz, hend⟩
    · obtain ⟨hw, -, hnot⟩ := (h.waits w).mp hw
      obtain ⟨-, hx' | ⟨-, hwaitless⟩⟩ := hable.descendants x hx
      · exact hnot (hwx ▸ hx')
      · exact hwaitless w hw hwx
    · exact hstored r hr (.inr (hrx ▸ hx))

/-- The instances that the scope has called are shut afterwards, unless a batch of them is
interrupted by the activation or a timer of them is being served. -/
theorem Interruption.shut (h : s.Interruption i token s')
    (hable : s.Interruptible i consumption) {c : Config} (hin : c.InOrder)
    (hengine : c.engine = s'.engine)
    (hwork : ∀ x, s.engine.Descends i x → ¬c.Opens x ∧ ¬c.ServesTimer x) :
    c.Shut (s.engine.Descends i) := by
  have hdone : s.Interrupted i token consumption s' := h.interrupted_iff.mpr hable
  have hterminal : ∀ x, s.engine.Descends i x → c.engine.Terminal x := fun x hx =>
    hengine ▸ (hdone.descendants x hx).1
  refine ⟨fun x hx => ?_, fun x hx => ?_, fun x hx => hengine ▸ (hdone.descendants x hx).2.1,
    fun x y hx hcall => ?_, fun x hx => (hwork x hx).1, fun x hx => (hwork x hx).2⟩
  · obtain ⟨z, hz, -⟩ := hterminal x hx
    exact hin.ok.sound.drawn.instances x z hz
  · rintro ⟨z, hz, hlive⟩
    obtain ⟨z', hz', hend⟩ := hterminal x hx
    obtain rfl := Option.some.inj (hz.symm.trans hz')
    rw [hlive] at hend
    cases hend
  · have hdrawn := hin.lineage.drawn x y hcall
    rw [hengine] at hcall
    have hnot : ¬s.engine.Aborts i x := by
      intro hx'
      obtain ⟨z, hz, -, -, hcalls⟩ := h.ended x hx'
      obtain ⟨z', call, hz', hget⟩ := hcall
      obtain rfl := Option.some.inj (hz.symm.trans hz')
      rw [hcalls] at hget
      cases hget
    obtain ⟨z, call, hz, hget⟩ := hcall
    rw [h.kept x (hable.descendants x hx).1 hnot] at hz
    cases hy : s.engine.instances.find? y with
    | some => exact .inl (hx.call ⟨z, call, hz, hget⟩ (by simp [hy]))
    | none =>
      refine .inr ⟨hdrawn, ?_⟩
      have hyi : y ≠ i := by
        rintro rfl
        obtain ⟨w, hw, -⟩ := h.live
        simp [hy] at hw
      have hya : ¬s.engine.Aborts i y := fun hy' => by
        obtain ⟨w, hw, -⟩ := isLive_iff.mp hy'.opened
        simp [hy] at hw
      rw [hengine, h.kept y hyi hya, hy]

end Backed

/-- An interrupting handler leaves its token as the only one, no wait and no live instance that
the scope has called, exactly if every such instance that is live or waits was called by way of
instances that have not ended, and no stored wait is left over from before. If no such instance is
in work at that moment, none of them ever goes on again or returns to its caller. -/
theorem StoreEng.activateHandler_interrupted_iff {env : Env} {s s' : Backed} {i : Uuid}
    {handler : EventSubProcess} {subscription : EventSubscription} {vars : Variables}
    {consumption : EventConsumption} {token : Token}
    (hx : exec (StoreEng.activateHandler env i handler subscription vars consumption) s =
      (.ok (some (.interrupting token)), s')) :
    (s.Interrupted i token consumption s' ↔ s.Interruptible i consumption) ∧
      ∀ clock c, Reaches (Config.step env) (fun _ _ => True) (.initial clock) c →
        c.engine = s'.engine → s.Interruptible i consumption →
        (∀ x, s.engine.Descends i x → ¬c.Opens x ∧ ¬c.ServesTimer x) →
        ∀ c', Reaches (Config.step env) (fun _ _ => True) c c' →
          ∀ x, s.engine.Descends i x → ¬c'.engine.Live x ∧ c'.engine.Waitless x ∧
            ∀ caller, ¬c'.TakesUp x caller := by
  have h := StoreEng.activateHandler_interruption hx
  refine ⟨h.interrupted_iff, fun clock c hreach hengine hable hwork c' hreach' x hx => ?_⟩
  have hin := inOrder_of_reaches hreach
  have hshut := ((h.shut hable hin hengine hwork).of_reaches hin hreach').1
  exact ⟨hshut.ended x hx, hshut.waitless x hx, hshut.not_takesUp hx⟩

/-! ## An order that is cancelled -/

namespace Eng

variable {env : Env} {e t u : Engine} {y : ProcessInstance} {subscription : EventSubscription}
  {d : ProcessDefinition} {handler : EventSubProcess} {vars : Variables}

/-- A message that an event subprocess waits for activates its handler. -/
theorem exec_deliverMessage_subscribed {id : Uuid} {m : PendingMessageCatch}
    {activation : Option ScopeActivation} (hm : e.pendingMessageCatches.find? id = some m)
    (hy : e.instances.find? m.instanceId = some y) (hactive : y.state.isSuspended = false)
    (hlive : y.state.isTerminal = false)
    (hsubscription : y.eventSubscriptions.find? (fun s => s.id == m.id) = some subscription)
    (hd : e.definitions.find? y.definitionKey = some d)
    (hhandler : d.eventSubprocessById subscription.subprocessId = some handler)
    (hu : exec (do
      removePending .message id
      clearWaitStatesForToken m.instanceId m.tokenId) e = (.ok (), u))
    (hx : exec (activateHandler env m.instanceId handler subscription vars (.message m)) u =
      (.ok activation, t)) :
    exec (deliverMessage env vars id) e = (.ok (runActivation m.instanceId activation), t) := by
  obtain rfl : m.id = id := Table.key_of_find? hm
  have hcore := sameCore_cleared e .message m.id m.instanceId m.tokenId
  have hsubscribed : e.isSubscription m.instanceId m.id = true := isSubscription_iff.mpr
    ⟨y, hy, subscription, List.mem_of_find?_eq_some hsubscription, by
      simpa using List.find?_some hsubscription⟩
  cases hu
  rw [← hcore.instances] at hy
  rw [← hcore.definitions] at hd
  rw [exec_deliverMessage (Table.mem_of_find? hm), if_pos hsubscribed]
  have hfound : y.eventSubscriptions.find? (fun s => s.id == (EventConsumption.message m).id) =
    some subscription := hsubscription
  exact exec_bind_ok ((exec_activateEventSubscription hy hactive hlive hfound hd hhandler).trans hx)

end Eng

def packing : ProcessDefinition := .ofGraph "packing"
  [("start", .startEvent), ("pack", .userTask "pack"), ("end", .endEvent)]
  [("start", [.simple "pack"]), ("pack", [.simple "end"])]

/-- Calls `packing` beside a task. The label behind the task needs an address. -/
def delivery : ProcessDefinition :=
  { ProcessDefinition.ofGraph "delivery"
      [("start", .startEvent), ("split", .parallelGateway), ("call", .callActivity "packing"),
        ("confirm", .userTask "confirm"), ("label", .userTask "label"), ("end", .endEvent)]
      [("start", [.simple "split"]), ("split", [.simple "call", .simple "confirm"]),
        ("confirm", [.simple "label"]), ("label", [.simple "end"]), ("call", [.simple "end"])] with
    dataMappings := Map.ofList [("label", ⟨[⟨"to", .variableRef "address"⟩], [], none, none⟩)] }

def cancellation : EventSubProcess :=
  ⟨"cancellation", "cancelled", ["cancelled", "refund", "refunded"], .message "cancel", true⟩

/-- Calls `delivery` and may be cancelled by a message. -/
def cancellableOrder : ProcessDefinition :=
  { ProcessDefinition.ofGraph "order"
      [("start", .startEvent), ("deliver", .callActivity "delivery"), ("end", .endEvent),
        ("cancelled", .messageStartEvent "cancel"), ("refund", .userTask "refund"),
        ("refunded", .endEvent)]
      [("start", [.simple "deliver"]), ("deliver", [.simple "end"]),
        ("cancelled", [.simple "refund"]), ("refund", [.simple "refunded"])] with
    eventSubprocesses := [cancellation] }

/-- The order 4 has called the delivery 8, and that has called the packing 13. -/
def orderStart (further : List Op) : Option Config :=
  Config.performAll .plain 100 (Config.initial 0)
    ([.deployDefinition packing, .deployDefinition delivery, .deployDefinition cancellableOrder,
      .startInstance 3 ∅] ++ further)

def cancelCatch : PendingMessageCatch := ⟨7, 4, "cancelled", "cancel", 7⟩

def cancelSubscription : EventSubscription := ⟨7, "cancellation", none, none⟩

/-- The engine when the message was taken, with all waits on record. -/
def cancelTaken (e : Engine) : Backed where
  engine := after (do
    Eng.removePending .message 7
    clearWaitStatesForToken 4 7) e
  stored := e.waits

/-- The cancellation is activated; what it leaves behind. -/
def cancelOrder (e : Engine) : Option (Token × Backed) :=
  match exec (StoreEng.activateHandler .plain 4 cancellation cancelSubscription ∅
    (.message cancelCatch)) (cancelTaken e) with
  | (.ok (some (.interrupting token)), s') => some (token, s')
  | _ => none

variable {token : Token}

theorem exec_of_cancelOrder {e : Engine} {s' : Backed} (h : cancelOrder e = some (token, s')) :
    exec (StoreEng.activateHandler .plain 4 cancellation cancelSubscription ∅
      (.message cancelCatch)) (cancelTaken e) = (.ok (some (.interrupting token)), s') := by
  unfold cancelOrder at h
  split at h
  case h_1 hx =>
    cases h
    exact hx
  · cases h

/-- While the delivery waits, everything that the order has called is found through live
instances. -/
theorem interruptible_of_orderStart {s : Backed}
    (hcalls : s.engine.calledBy 4 = [8] ∧ s.engine.calledBy 8 = [13] ∧ s.engine.calledBy 13 = [])
    (hlive : s.engine.isLive 8 = true ∧ s.engine.isLive 13 = true)
    (hstored : s.stored.all (fun r => (r.instanceId == 4 &&
        (EventConsumption.message cancelCatch).records r) ||
      s.engine.waits.any fun w => (w.instanceId == 8 || w.instanceId == 13) && w.sameKey r) =
        true) :
    (∀ x, s.engine.Descends 4 x → x = 8 ∨ x = 13) ∧ s.Interruptible 4 (.message cancelCatch) := by
  obtain ⟨hcalls₄, hcalls₈, hcalls₁₃⟩ := hcalls
  have hdescends : ∀ x, s.engine.Descends 4 x → x = 8 ∨ x = 13 := by
    intro x hx
    refine DepthFirst.Found.mem (P := fun x => x = 8 ∨ x = 13) (fun y hy _ => ?_)
      (fun y z hy _ hz => ?_) hx
    · rw [hcalls₄] at hy
      exact .inl (List.mem_singleton.mp hy)
    · rcases hy with rfl | rfl
      · rw [hcalls₈] at hz
        exact .inr (List.mem_singleton.mp hz)
      · rw [hcalls₁₃] at hz
        cases hz
  have hdelivery : s.engine.Aborts 4 8 := .root hlive.1 (hcalls₄ ▸ List.mem_singleton_self 8)
  have hpacking : s.engine.Aborts 4 13 :=
    .edge hdelivery hlive.2 (hcalls₈ ▸ List.mem_singleton_self 13)
  refine ⟨hdescends, fun x hx => ?_, fun r hr hinstance => ?_⟩
  · rcases hdescends x hx with rfl | rfl
    · exact ⟨by decide, .inl hdelivery⟩
    · exact ⟨by decide, .inl hpacking⟩
  · rcases Bool.or_eq_true_iff.mp (List.all_eq_true.mp hstored r hr) with hrecord | hpending
    · obtain ⟨hi, hrecord⟩ := Bool.and_eq_true_iff.mp hrecord
      obtain hi : r.instanceId = 4 := by simpa using hi
      rcases hinstance with ⟨-, hno⟩ | hx
      · simp [hno] at hrecord
      · rcases hdescends _ hx with h | h <;> simp [hi] at h
    · obtain ⟨w, hw, hkey⟩ := List.any_eq_true.mp hpending
      obtain ⟨hi, hkey⟩ := Bool.and_eq_true_iff.mp hkey
      refine ⟨w, hw, .inr ?_, hkey⟩
      rcases Bool.or_eq_true_iff.mp hi with hi | hi <;> rw [beq_iff_eq] at hi <;> rw [hi]
      · exact hdelivery
      · exact hpacking

def cancelMessage : Correlation := ⟨"cancel", none, ∅⟩

/-- What the delivery of the message depends on. -/
structure AwaitsCancel (e : Engine) : Prop where
  catches : ∃ catches, exec (Eng.messageCatches .plain "cancel" none) e = (.ok catches, e) ∧
    catches = [7]
  pending : e.pendingMessageCatches.find? 7 = some cancelCatch
  order : ∃ y d, e.instances.find? 4 = some y ∧ y.state.isSuspended = false ∧
    y.state.isTerminal = false ∧
    y.eventSubscriptions.find? (fun s => s.id == 7) = some cancelSubscription ∧
    e.definitions.find? y.definitionKey = some d ∧
    d.eventSubprocessById "cancellation" = some cancellation

/-- The machine comes to the activation, and then runs the handler and nothing else. -/
theorem AwaitsCancel.reaches {c : Config} (h : AwaitsCancel c.engine) (hidle : c.control = .idle)
    (hstack : c.stack = []) {s' : Backed} (hcancel : cancelOrder c.engine = some (token, s')) :
    ∃ c', Reaches (Config.step .plain) (fun _ _ => True) c c' ∧ c'.engine = s'.engine ∧
      c'.control = .running ⟨4, [token], 0⟩ ∧ c'.stack = [] ∧
      c'.driver = .messageCatches cancelMessage [] := by
  obtain ⟨catches, hcatches, rfl⟩ := h.catches
  obtain ⟨y, d, hy, hactive, hlive, hsubscription, hd, hhandler⟩ := h.order
  obtain ⟨hresult, hengine⟩ := StoreEng.activateHandler_follows .plain 4 cancellation
    cancelSubscription ∅ (.message cancelCatch) (cancelTaken c.engine)
  rw [exec_of_cancelOrder hcancel] at hresult hengine
  have hdeliver : exec (deliverMessage .plain cancelMessage.vars 7) c.engine =
      (.ok (.run 4 [token]), s'.engine) :=
    exec_deliverMessage_subscribed h.pending hy hactive hlive hsubscription hd hhandler rfl
      (Prod.ext hresult.symm hengine.symm)
  have hbegin : Config.step .plain c (.op (.correlateMessage cancelMessage)) =
      some (c.resumeWith (.messageCatches cancelMessage [7])) := by
    rw [Config.step, if_pos hidle, Config.begin]
    exact congrArg some (exec_of_ok hcatches)
  have hdrive : Config.step .plain (c.resumeWith (.messageCatches cancelMessage [7])) .internal =
      some (Config.run ⟨4, [token], 0⟩ { c with
        engine := s'.engine, driver := .messageCatches cancelMessage [] }) := by
    rw [Config.step, internalStep_driving (c := c.resumeWith _) rfl hstack]
    refine congrArg some ?_
    show Config.nextMessageCatch .plain cancelMessage [7] (c.resumeWith _) = _
    rw [Config.nextMessageCatch, exec_of_ok (c := c.resumeWith _) hdeliver]
    rfl
  exact ⟨_, ((Reaches.start).next trivial hbegin).next trivial hdrive, rfl, rfl, hstack, rfl⟩

/-- An order that is cancelled while its delivery waits: only the refund goes on. -/
theorem cancelled_order_interrupted : ∃ (s s' : Backed) (token : Token) (c : Config),
    exec (StoreEng.activateHandler .plain 4 cancellation cancelSubscription ∅
      (.message cancelCatch)) s = (.ok (some (.interrupting token)), s') ∧
      s.Interruptible 4 (.message cancelCatch) ∧
      s.Interrupted 4 token (.message cancelCatch) s' ∧
      Reaches (Config.step .plain) (fun _ _ => True) (.initial 0) c ∧ c.engine = s'.engine ∧
      (∀ x, s.engine.Descends 4 x → ¬c.Opens x ∧ ¬c.ServesTimer x) ∧
      ∀ c', Reaches (Config.step .plain) (fun _ _ => True) c c' →
        ∀ x, s.engine.Descends 4 x → ¬c'.engine.Live x ∧ c'.engine.Waitless x ∧
          ∀ caller, ¬c'.TakesUp x caller := by
  have hrun : ((orderStart []).bind fun c => (cancelOrder c.engine).map fun _ =>
      let s := cancelTaken c.engine
      (s.engine.calledBy 4, s.engine.calledBy 8, s.engine.calledBy 13, s.engine.isLive 8,
        s.engine.isLive 13, s.stored.all (fun r => (r.instanceId == 4 &&
          (EventConsumption.message cancelCatch).records r) ||
        s.engine.waits.any fun w => (w.instanceId == 8 || w.instanceId == 13) && w.sameKey r))) =
      some ([8], [13], [], true, true, true) := by decide +kernel
  have hcatches : ((orderStart []).map fun c =>
      ((exec (Eng.messageCatches .plain "cancel" none) c.engine).1.toOption,
        c.engine.pendingMessageCatches.find? 7)) = some (some [7], some cancelCatch) := by
    decide +kernel
  have horder : ((orderStart []).bind fun c => (c.engine.instances.find? 4).bind fun y =>
      (c.engine.definitions.find? y.definitionKey).map fun d =>
        (y.state.isSuspended, y.state.isTerminal,
          y.eventSubscriptions.find? (fun s => s.id == 7), d.eventSubprocessById "cancellation")) =
      some (false, false, some cancelSubscription, some cancellation) := by decide +kernel
  obtain ⟨c₀, hc₀, hrun⟩ := Option.bind_eq_some_iff.mp hrun
  obtain ⟨⟨token, s'⟩, hcancel, hvalue⟩ := Option.map_eq_some_iff.mp hrun
  simp only [Prod.mk.injEq] at hvalue
  obtain ⟨hcalls₄, hcalls₈, hcalls₁₃, hlive₈, hlive₁₃, hstored⟩ := hvalue
  rw [hc₀, Option.map_some, Option.some_inj, Prod.mk.injEq] at hcatches
  rw [hc₀, Option.bind_some] at horder
  obtain ⟨y, hy, horder⟩ := Option.bind_eq_some_iff.mp horder
  obtain ⟨d, hd, horder⟩ := Option.map_eq_some_iff.mp horder
  simp only [Prod.mk.injEq] at horder
  obtain ⟨hactive, hlive, hsubscription, hhandler⟩ := horder
  have hawaits : AwaitsCancel c₀.engine :=
    ⟨⟨_, rfl, Option.some.inj hcatches.1⟩, hcatches.2, y, d, hy, hactive, hlive, hsubscription, hd,
      hhandler⟩
  obtain ⟨hreach₀, hidle⟩ := performAll_reaches rfl hc₀
  have hstack := (inOrder_of_reaches hreach₀).idle hidle
  obtain ⟨c, hreach, hengine, hcontrol, hstack, hdriver⟩ := hawaits.reaches hidle hstack hcancel
  obtain ⟨hdescends, hable⟩ := interruptible_of_orderStart ⟨hcalls₄, hcalls₈, hcalls₁₃⟩
    ⟨hlive₈, hlive₁₃⟩ hstored
  have hwork : ∀ x, (cancelTaken c₀.engine).engine.Descends 4 x → ¬c.Opens x ∧ ¬c.ServesTimer x :=
    by
    intro x hx
    refine ⟨?_, fun ⟨t, rearm, rest, ht, _⟩ => by simp [hdriver] at ht⟩
    rintro (⟨b, hb, hi⟩ | ⟨s, hs, _⟩)
    · rw [hcontrol] at hb
      cases hb
      rcases hdescends x hx with rfl | rfl <;> cases hi
    · simp [hstack] at hs
  have hx := exec_of_cancelOrder hcancel
  have hiff := StoreEng.activateHandler_interrupted_iff hx
  exact ⟨_, s', token, c, hx, hable, hiff.1.mpr hable, hreach₀.trans hreach, hengine, hwork,
    hiff.2 0 c (hreach₀.trans hreach) hengine hable hwork⟩

/-- The delivery fails for want of an address while its packing goes on. Cancelling the order stops
at the failed delivery, so the packing is still alive and its task pending. -/
theorem packing_outlives_cancelled_order : ∃ (c : Config) (token : Token) (s' : Backed),
    Reaches (Config.step .plain) (fun _ _ => True) (.initial 0) c ∧ c.control = .idle ∧
      exec (StoreEng.activateHandler .plain 4 cancellation cancelSubscription ∅
        (.message cancelCatch)) (cancelTaken c.engine) = (.ok (some (.interrupting token)), s') ∧
      (cancelTaken c.engine).engine.Descends 4 13 ∧ s'.engine.Live 13 ∧
      ¬s'.engine.Waitless 13 ∧
      ¬(cancelTaken c.engine).Interrupted 4 token (.message cancelCatch) s' := by
  have hrun : ((orderStart [.completeUserTask 17 ∅]).bind fun c => (cancelOrder c.engine).map
      fun x => ((cancelTaken c.engine).engine.calledBy 4, (cancelTaken c.engine).engine.calledBy 8,
        ((cancelTaken c.engine).engine.instances.find? 8).isSome,
        ((cancelTaken c.engine).engine.instances.find? 13).isSome,
        x.2.engine.isLive 13, x.2.engine.waits.any fun w => w.instanceId == 13)) =
      some ([8], [13], true, true, true, true) := by decide +kernel
  obtain ⟨c, hc, hrun⟩ := Option.bind_eq_some_iff.mp hrun
  obtain ⟨⟨token, s'⟩, hcancel, hvalue⟩ := Option.map_eq_some_iff.mp hrun
  simp only [Prod.mk.injEq] at hvalue
  obtain ⟨hcalls, hcalls', hdelivery, hpacking, hlive, hwait⟩ := hvalue
  obtain ⟨hreach, hidle⟩ := performAll_reaches rfl hc
  have hdescends : (cancelTaken c.engine).engine.Descends 4 13 :=
    .edge (.root hdelivery (hcalls ▸ List.mem_singleton_self 8)) hpacking
      (hcalls' ▸ List.mem_singleton_self 13)
  have hlive := isLive_iff.mp hlive
  refine ⟨c, token, s', hreach, hidle, exec_of_cancelOrder hcancel, hdescends, hlive, ?_, ?_⟩
  · intro hwaitless
    obtain ⟨w, hw, hi⟩ := List.any_eq_true.mp hwait
    exact hwaitless w hw (by simpa using hi)
  · intro hdone
    obtain ⟨⟨z, hz, hend⟩, -⟩ := hdone.descendants 13 hdescends
    obtain ⟨z', hz', hlive⟩ := hlive
    obtain rfl := Option.some.inj (hz.symm.trans hz')
    rw [hlive] at hend
    cases hend

end BpmnEngine
