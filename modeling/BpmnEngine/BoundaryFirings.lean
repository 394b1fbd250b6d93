import BpmnEngine.FailedCompletions
import BpmnEngine.InstanceLocks
import BpmnEngine.TimerRepetitions

/-!
# Boundary events that leave their activity running

A boundary event that does not cancel its activity sends a copy of the waiting token on
and leaves the token, its task and its other boundary events where they are. The timers
and the messages drop all event waits of the token before they look at whether the event
interrupts. A conditional event is filed again at once and a recurring timer after its
batch; a message or signal event is not armed a second time.
-/
namespace BpmnEngine

open Program Eng Engine

/-! ## The event waits of a token -/

def WaitKind.awaitsEvent : WaitKind → Bool
  | .userTask | .serviceTask => false
  | .timer | .message | .signal | .conditional => true

def Wait.IsEventOf (w : Wait) (i tokenId : Uuid) : Prop :=
  w.kind.awaitsEvent = true ∧ w.instanceId = i ∧ w.tokenId = tokenId

namespace Eng

variable {e : Engine} {i tokenId : Uuid} {p : Pending}

theorem holds_withoutEvents :
    (withoutEvents i tokenId e).Holds p ↔ e.Holds p ∧ ¬p.wait.IsEventOf i tokenId := by
  simp only [withoutEvents, List.foldl_cons, List.foldl_nil, holds_retainPending, Wait.IsEventOf]
  cases p.wait.kind <;> simp [WaitKind.awaitsEvent, imp_iff_not_or]

end Eng

variable {e : Engine} {p : Pending}

/-- When the event waits of a token are dropped, its other waits are kept exactly if none of them
is for an event. -/
theorem Engine.others_kept_iff (hp : e.Holds p) :
    (∀ q, q.wait.instanceId = p.wait.instanceId → q.wait.tokenId = p.wait.tokenId →
      ¬(q.wait.kind = p.wait.kind ∧ q.wait.id = p.wait.id) → e.Holds q →
      (withoutEvents p.wait.instanceId p.wait.tokenId
        (e.removePending p.wait.kind p.wait.id)).Holds q) ↔
    ∀ w ∈ e.waits, w.IsEventOf p.wait.instanceId p.wait.tokenId → w = p.wait := by
  simp only [holds_withoutEvents, holds_removePending]
  constructor
  · intro hall w hw hevent
    obtain ⟨q, hq, rfl⟩ := exists_holds hw
    by_contra hne
    have hother : ¬(q.wait.kind = p.wait.kind ∧ q.wait.id = p.wait.id) := fun hsame =>
      hne (congrArg Pending.wait (hq.eq_of_wait hp hsame.1 hsame.2))
    exact (hall q hevent.2.1 hevent.2.2 hother hq).2 hevent
  · intro hall q _ _ hne hq
    refine ⟨⟨hq, hne⟩, fun hevent => hne ?_⟩
    rw [hall q.wait hq.mem_waits hevent]
    exact ⟨rfl, rfl⟩

/-! ## Beside a waiting token -/

/-- The token is in its instance, and the waits are those of `u`. -/
structure Beside (u : Engine) (i : Uuid) (token : Token) (s : Engine) : Prop where
  drawn : token.id < s.nextUuid
  host : ∃ y, s.instances.find? i = some y ∧ y.tokens.find? token.id = some token
  holds : ∀ p, s.Holds p ↔ u.Holds p

namespace Beside

variable {u s : Engine} {i : Uuid} {token : Token}

theorem modify (h : Beside u i token s) {f : ProcessInstance → ProcessInstance}
    (hf : ∀ x, x.tokens.find? token.id = some token → (f x).tokens.find? token.id = some token) :
    Beside u i token (s.modifyInstance i f) := by
  obtain ⟨y, hy, htoken⟩ := h.host
  refine ⟨h.drawn, ⟨{ f y with id := y.id }, ?_, hf y htoken⟩, fun p =>
    holds_modifyInstance.trans (h.holds p)⟩
  rw [find?_modifyInstance_self, hy, Option.map_some]

theorem draw (h : Beside u i token s) : Beside u i token { s with nextUuid := s.nextUuid + 1 } :=
  ⟨Nat.lt_succ_of_lt h.drawn, h.host, fun p => by
    have hsame : ({ s with nextUuid := s.nextUuid + 1 } : Engine).Holds p ↔ s.Holds p := by
      cases p <;> rfl
    exact hsame.trans (h.holds p)⟩

theorem file (h : Beside u i token s) (p : Pending) :
    Beside (u.insertPending p) i token (s.insertPending p) := by
  refine ⟨s.nextUuid_insertPending p ▸ h.drawn, ?_, fun q => ?_⟩
  · rw [s.instances_insertPending]
    exact h.host
  · rw [holds_insertPending, holds_insertPending, h.holds q]

end Beside

namespace Eng

variable {env : Env} {u e s : Engine} {i tokenId : Uuid} {token : Token} {x : ProcessInstance}
  {d : ProcessDefinition}

theorem updateInstance_beside {f : ProcessInstance → ProcessInstance}
    (hf : ∀ x, (f x).tokens = x.tokens) : Keeps (Beside u i token) (updateInstance i f) :=
  .bind getInstance_keeps fun _ => .modify fun _ h => h.modify fun x hx => (hf x).symm ▸ hx

def storeCopy (copy : Token) (forkId : String) (x : ProcessInstance) : ProcessInstance :=
  { x with
    tokens := x.tokens.insert copy
    activeTokens := x.activeTokens ++ [⟨copy, some forkId, x.activeTokens.length, false⟩]
    state := if x.state.isParallel then x.state
      else .parallelExecution (x.tokens.insert copy).entries.length }

theorem exec_cloneToken (hx : e.instances.find? i = some x)
    (htoken : x.tokens.find? tokenId = some token) (change : Token → Token)
    (forkId : Token → String) :
    exec (cloneToken i tokenId change forkId) e =
      (.ok { change token with id := e.nextUuid },
        Engine.modifyInstance i
          (storeCopy { change token with id := e.nextUuid }
            (forkId { change token with id := e.nextUuid }))
          { e with nextUuid := e.nextUuid + 1 }) := by
  rw [cloneToken, exec_bind_ok (exec_getInstance hx), htoken]
  rfl

theorem cloneToken_beside (hid : tokenId = token.id) (change : Token → Token)
    (forkId : Token → String) : Keeps (Beside u i token) (cloneToken i tokenId change forkId) := by
  intro s h
  obtain ⟨y, hy, htoken⟩ := h.host
  rw [after, exec_cloneToken hy (hid ▸ htoken)]
  have hne : token.id ≠ Token.id { change token with id := s.nextUuid } := h.drawn.ne
  have hstored : ∀ copy forkId (x : ProcessInstance), token.id ≠ copy.id →
      x.tokens.find? token.id = some token →
      (storeCopy copy forkId x).tokens.find? token.id = some token :=
    fun copy forkId x hne hx => (Table.find?_insert_of_ne hne).trans hx
  exact h.draw.modify fun x hx => hstored _ _ x hne hx

theorem continueBehind_beside (d : ProcessDefinition) (node : String) (t : Token) :
    Keeps (Beside u i token) (continueBehind env d i node t) :=
  .bind (resolveNextTarget_keeps _ _) fun _ =>
    .bind (updateInstance_beside fun _ => rfl) fun _ => .pure _

theorem eventToken_beside (hid : tokenId = token.id) :
    Keeps (Beside u i token) (eventToken false i tokenId) :=
  cloneToken_beside hid _ _

end Eng

/-! ## Firing a wait -/

/-- The wait of a boundary event that does not cancel the activity its token is in. -/
structure Engine.HostedWait (e : Engine) (p : Pending) (x : ProcessInstance)
    (d : ProcessDefinition) (token : Token) : Prop where
  held : e.Holds p
  found : e.instances.find? p.wait.instanceId = some x
  definition : e.definitions.find? x.definitionKey = some d
  element : ∃ element, d.getNode p.wait.nodeId = some element ∧
    p.wait.kind.boundarySort element = true ∧ element.cancelsActivity = false
  token : x.tokens.find? p.wait.tokenId = some token
  drawn : p.wait.tokenId < e.nextUuid
  waits : p.wait.tokenId ≠ 0 ∧ ¬e.Subscribed p.wait.instanceId p.wait.id

/-- What the engine runs when the event of a wait occurs, with the variables of the event, up to
the batch that follows. The flag says whether a timer is armed again after that batch. -/
def Pending.fire (env : Env) (d : ProcessDefinition) (vars : Variables) :
    Pending → Eng (Next × Bool)
  | .timer t => do
    Eng.removePending .timer t.id
    processExpiredTimer env t
  | .message c => do return (← deliverMessage env vars c.id, false)
  | .signal c => do return (← deliverSignal env vars c.id, false)
  | .conditional c => do
    return (.run c.instanceId (← fireCatch env d c.instanceId vars c), false)
  | .userTask _ | .serviceTask _ => return (.done, false)

namespace Engine.HostedWait

variable {e u : Engine} {p : Pending} {x : ProcessInstance} {d : ProcessDefinition} {token : Token}

section

variable (h : e.HostedWait p x d token)

include h

theorem tokenId_eq : token.id = p.wait.tokenId :=
  Table.key_of_find? h.token

theorem beside (hcore : SameCore e u) : Beside u p.wait.instanceId token u :=
  ⟨by rw [h.tokenId_eq, hcore.nextUuid]; exact h.drawn,
    ⟨x, by rw [hcore.instances]; exact h.found, by rw [h.tokenId_eq]; exact h.token⟩,
    fun _ => Iff.rfl⟩

theorem not_subscription : ¬e.isSubscription p.wait.instanceId p.wait.id = true :=
  mt isSubscription_iff.mp h.waits.2

theorem nonInterrupting : isNonInterrupting d p.wait.nodeId p.wait.kind.boundarySort = true := by
  obtain ⟨element, hnode, hsort, hcancels⟩ := h.element
  simp [isNonInterrupting, hnode, hsort, hcancels]

theorem find?_instance (hcore : SameCore e u) : u.instances.find? p.wait.instanceId = some x := by
  rw [hcore.instances]
  exact h.found

theorem find?_definition (hcore : SameCore e u) : u.definitions.find? x.definitionKey = some d := by
  rw [hcore.definitions]
  exact h.definition

theorem definitionOf (hcore : SameCore e u) :
    exec (Eng.definitionOf p.wait.instanceId) u = (.ok d, u) :=
  exec_definitionOf (h.find?_instance hcore) (h.find?_definition hcore)

end

end Engine.HostedWait

/-- The waits that the firing of a boundary event leaves. -/
def Pending.leaves (e : Engine) : Pending → Engine
  | .timer t => withoutEvents t.instanceId t.tokenId (e.removePending .timer t.id)
  | .message c => withoutEvents c.instanceId c.tokenId (e.removePending .message c.id)
  | .signal c => e.removePending .signal c.id
  | .conditional c =>
    (e.removePending .conditional c.id).insertPending (.conditional { c with lastResult := true })
  | .userTask _ | .serviceTask _ => e

namespace Eng

variable {env : Env} {e s : Engine} {x : ProcessInstance} {d : ProcessDefinition} {token : Token}
  {vars : Variables} {next : Next}

theorem exec_definitionOf_modified {u : Engine} {i : Uuid}
    {f : ProcessInstance → ProcessInstance} (hx : u.instances.find? i = some x)
    (hf : (f x).definitionKey = x.definitionKey)
    (hd : u.definitions.find? x.definitionKey = some d) :
    exec (definitionOf i) (u.modifyInstance i f) = (.ok d, u.modifyInstance i f) := by
  have hfound : (u.modifyInstance i f).instances.find? i = some { f x with id := x.id } := by
    rw [find?_modifyInstance_self, hx, Option.map_some]
  refine exec_definitionOf hfound ?_
  rw [hf]
  exact hd

theorem fireTimer_beside {t : PendingTimer} {a : Next × Bool}
    (h : e.HostedWait (.timer t) x d token)
    (hx : exec (do removePending .timer t.id; processExpiredTimer env t) e = (.ok a, s)) :
    Beside (Pending.leaves e (.timer t)) t.instanceId token s := by
  have hcore := sameCore_cleared e .timer t.id t.instanceId t.tokenId
  have hfound : (withoutEvents t.instanceId t.tokenId
      (e.removePending .timer t.id)).instances.find? t.instanceId = some x :=
    h.find?_instance hcore
  have hid : t.tokenId = token.id := h.tokenId_eq.symm
  have htoken : t.tokenId ≠ 0 := h.waits.1
  have hnon : isNonInterrupting d t.nodeId isBoundaryTimer = true := h.nonInterrupting
  have hbeside := (h.beside hcore).modify (f := fun y => { y with state := .running }) fun _ hy =>
    hy
  have hdefinition := exec_definitionOf_modified (f := fun y => { y with state := .running }) hfound
    rfl (h.find?_definition hcore)
  have hgo : Keeps (Beside (Pending.leaves e (.timer t)) t.instanceId token) (do
      let copy ← eventToken false t.instanceId t.tokenId
      return (← continueBehind env d t.instanceId t.nodeId copy, true)) :=
    .bind (eventToken_beside hid) fun _ => .bind (continueBehind_beside _ _ _) fun _ => .pure _
  have hsub : ¬e.isSubscription t.instanceId t.id = true := h.not_subscription
  rw [exec_serveTimer, if_neg hsub, exec_bind_ok (exec_updateInstance hfound _),
    if_neg htoken, resumeTimer, exec_bind_ok hdefinition] at hx
  simp only [hnon, Bool.not_true, Bool.false_eq_true, ↓reduceIte] at hx
  exact hgo.of_exec hbeside hx

theorem copyOn_beside {e₀ : Engine} {i tokenId : Uuid} (hid : tokenId = token.id) (node : String) :
    Keeps (Beside e₀ i token) (do
      let copy ← eventToken false i tokenId
      updateInstance i fun x => { x with state := runningUnlessParallel x.state }
      continueBehind env d i node { copy with vars := copy.vars.extend vars }) :=
  .bind (eventToken_beside hid) fun _ => .bind (updateInstance_beside fun _ => rfl) fun _ =>
    continueBehind_beside _ _ _

theorem deliverMessage_beside {c : PendingMessageCatch} (h : e.HostedWait (.message c) x d token)
    (hx : exec (deliverMessage env vars c.id) e = (.ok next, s)) :
    Beside (Pending.leaves e (.message c)) c.instanceId token s := by
  have hcore := sameCore_cleared e .message c.id c.instanceId c.tokenId
  have htoken : c.tokenId ≠ 0 := h.waits.1
  have hnon : isNonInterrupting d c.nodeId isBoundaryMessage = true := h.nonInterrupting
  have hdefinition : exec (definitionOf c.instanceId) _ = _ := h.definitionOf hcore
  have hsub : ¬e.isSubscription c.instanceId c.id = true := h.not_subscription
  rw [exec_deliverMessage h.held, if_neg hsub, if_neg htoken, resumeMessageCatch,
    exec_bind_ok hdefinition] at hx
  simp only [hnon, Bool.not_true, Bool.false_eq_true, ↓reduceIte] at hx
  exact (copyOn_beside h.tokenId_eq.symm _).of_exec (h.beside hcore) hx

theorem deliverSignal_beside {c : PendingSignalCatch} (h : e.HostedWait (.signal c) x d token)
    (hx : exec (deliverSignal env vars c.id) e = (.ok next, s)) :
    Beside (Pending.leaves e (.signal c)) c.instanceId token s := by
  have hcore := sameCore_removePending e .signal c.id
  have hnon : isNonInterrupting d c.nodeId isBoundarySignal = true := h.nonInterrupting
  have hdefinition : exec (definitionOf c.instanceId) _ = _ := h.definitionOf hcore
  have hsub : ¬e.isSubscription c.instanceId c.id = true := h.not_subscription
  rw [exec_deliverSignal h.held, if_neg hsub, resumeSignalCatch, exec_bind_ok hdefinition] at hx
  simp only [hnon, Bool.not_true, Bool.false_eq_true, ↓reduceIte] at hx
  exact (copyOn_beside h.tokenId_eq.symm _).of_exec (h.beside hcore) hx

theorem fireCatch_beside {c : PendingConditionalCatch} {tokens : List Token}
    (h : e.HostedWait (.conditional c) x d token)
    (hx : exec (fireCatch env d c.instanceId vars c) e = (.ok tokens, s)) :
    Beside (Pending.leaves e (.conditional c)) c.instanceId token s := by
  have hcore := sameCore_removePending e .conditional c.id
  have hid : c.tokenId = token.id := h.tokenId_eq.symm
  obtain ⟨activity, condition, hnode⟩ : ∃ activity condition,
      d.getNode c.nodeId = some (.boundaryConditionalEvent activity condition false) := by
    obtain ⟨element, hnode, hsort, hcancels⟩ := h.element
    cases element with
    | boundaryConditionalEvent activity condition cancel =>
      cases cancel with
      | true => cases hcancels
      | false => exact ⟨activity, condition, hnode⟩
    | _ => cases hsort
  rw [fireCatch, exec_bind_ok (exec_removePending e _ _), hnode] at hx
  dsimp only at hx
  obtain ⟨target, u, hu, hx⟩ := exec_bind_eq_ok hx
  have hbeside := (conditionalTarget_keeps _ _).of_exec (h.beside hcore) hu
  obtain ⟨spawned, v, hv, hx⟩ := exec_bind_eq_ok hx
  have hcloned := (cloneToken_beside hid _ _).of_exec hbeside hv
  cases hx
  exact hcloned.file (.conditional { c with lastResult := true })

end Eng

/-- Every event wait of a token, its task and the token itself are left by a firing, but for what
`Pending.leaves` takes away. -/
theorem Pending.fire_beside {env : Env} {s : Engine} {x : ProcessInstance} {d : ProcessDefinition}
    {token : Token} {vars : Variables} {next : Next} {rearm : Bool} (h : e.HostedWait p x d token)
    (hx : exec (p.fire env d vars) e = (.ok (next, rearm), s)) :
    Beside (p.leaves e) p.wait.instanceId token s ∧ (p.wait.kind = .timer → rearm = true) := by
  cases p with
  | timer =>
    have hsub := Bool.eq_false_iff.mpr h.not_subscription
    exact ⟨fireTimer_beside h hx, fun _ => (exec_serveTokenTimer h.waits.1 hsub hx).2⟩
  | message =>
    obtain ⟨next', u, hu, hx⟩ := exec_bind_eq_ok hx
    cases hx
    exact ⟨deliverMessage_beside h hu, fun hkind => by cases hkind⟩
  | signal =>
    obtain ⟨next', u, hu, hx⟩ := exec_bind_eq_ok hx
    cases hx
    exact ⟨deliverSignal_beside h hu, fun hkind => by cases hkind⟩
  | conditional =>
    obtain ⟨tokens, u, hu, hx⟩ := exec_bind_eq_ok hx
    cases hx
    exact ⟨fireCatch_beside h hu, fun hkind => by cases hkind⟩
  | userTask t | serviceTask t =>
    obtain ⟨element, -, hsort, -⟩ := h.element
    cases hsort

/-! ## What becomes of the activity and of the event -/

/-- The activity of the token goes on as before: the token is in its instance, and its task and
its waits are there, but for the wait that has fired. -/
structure Engine.HostAlone (e : Engine) (p : Pending) (token : Token) (s : Engine) : Prop where
  token : ∃ y, s.instances.find? p.wait.instanceId = some y ∧
    y.tokens.find? p.wait.tokenId = some token
  waits : ∀ q, q.wait.instanceId = p.wait.instanceId → q.wait.tokenId = p.wait.tokenId →
    ¬(q.wait.kind = p.wait.kind ∧ q.wait.id = p.wait.id) → (s.Holds q ↔ e.Holds q)

/-- A wait of the same event for the same token, under the identifier of the one that has fired
or under one that was drawn afterwards. -/
def Engine.ArmedAgain (e : Engine) (p : Pending) (s : Engine) : Prop :=
  ∃ q, s.Holds q ∧ q.wait.kind = p.wait.kind ∧ q.wait.nodeId = p.wait.nodeId ∧
    q.wait.instanceId = p.wait.instanceId ∧ q.wait.tokenId = p.wait.tokenId ∧
    (q.wait.id = p.wait.id ∨ e.nextUuid ≤ q.wait.id)

/-- The event of the wait stays armed. A timer that has another instant is armed in the state `u`
that the batch of its firing returns in; the others are to be armed at once. -/
def Engine.StaysArmed (env : Env) (e : Engine) (rearm : Bool) (s : Engine) : Pending → Prop
  | .timer t => ∀ u : Engine, e.nextUuid ≤ u.nextUuid → t.recurs = true →
      t.hasNext env u.clock = true →
      e.ArmedAgain (.timer t) (after (if rearm then rearmTimer env t else pure ()) u)
  | p => e.ArmedAgain p s

namespace Engine.HostedWait

variable {env : Env} {e s : Engine} {p : Pending} {x : ProcessInstance} {d : ProcessDefinition}
  {token : Token} {rearm : Bool}

/-- The other waits of the token are kept exactly if the firing does not take them away. -/
theorem alone_iff (h : e.HostedWait p x d token)
    (hs : Beside (p.leaves e) p.wait.instanceId token s) :
    e.HostAlone p token s ↔ p.wait.kind = .signal ∨ p.wait.kind = .conditional ∨
      ∀ w ∈ e.waits, w.IsEventOf p.wait.instanceId p.wait.tokenId → w = p.wait := by
  have hkept : e.HostAlone p token s ↔ ∀ q, q.wait.instanceId = p.wait.instanceId →
      q.wait.tokenId = p.wait.tokenId → ¬(q.wait.kind = p.wait.kind ∧ q.wait.id = p.wait.id) →
      ((p.leaves e).Holds q ↔ e.Holds q) := by
    constructor
    · intro halone q hi ht hne
      exact (hs.holds q).symm.trans (halone.waits q hi ht hne)
    · intro hall
      exact ⟨h.tokenId_eq ▸ hs.host, fun q hi ht hne => (hs.holds q).trans (hall q hi ht hne)⟩
  rw [hkept]
  -- the timers and the messages take all event waits of the token
  have hcleared : (∀ q, (p.leaves e).Holds q ↔ (withoutEvents p.wait.instanceId
      p.wait.tokenId (e.removePending p.wait.kind p.wait.id)).Holds q) →
      ((∀ q, q.wait.instanceId = p.wait.instanceId → q.wait.tokenId = p.wait.tokenId →
        ¬(q.wait.kind = p.wait.kind ∧ q.wait.id = p.wait.id) →
        ((p.leaves e).Holds q ↔ e.Holds q)) ↔
      ∀ w ∈ e.waits, w.IsEventOf p.wait.instanceId p.wait.tokenId → w = p.wait) := by
    intro hleaves
    rw [← others_kept_iff h.held]
    refine forall_congr' fun q => ?_
    rw [hleaves, holds_withoutEvents, holds_removePending]
    exact ⟨fun hall hi ht hne => (hall hi ht hne).mpr,
      fun hall hi ht hne => ⟨fun hq => hq.1.1, hall hi ht hne⟩⟩
  cases p with
  | timer =>
    rw [hcleared fun q => Iff.rfl]
    simp [Pending.wait, PendingTimer.wait]
  | message =>
    rw [hcleared fun q => Iff.rfl]
    simp [Pending.wait, PendingMessageCatch.wait]
  | signal =>
    refine iff_of_true (fun q _ _ hne => ?_) (.inl rfl)
    exact holds_removePending.trans (and_iff_left hne)
  | conditional c =>
    refine iff_of_true (fun q _ _ hne => ?_) (.inr (.inl rfl))
    have hfiled : q ≠ .conditional { c with lastResult := true } := by
      rintro rfl
      exact hne ⟨rfl, rfl⟩
    rw [Pending.leaves, holds_insertPending, holds_removePending, or_iff_right hfiled]
    exact ⟨fun hq => hq.1.1, fun hq => ⟨⟨hq, hne⟩, hne⟩⟩
  | userTask t | serviceTask t =>
    obtain ⟨element, -, hsort, -⟩ := h.element
    cases hsort

/-- A message or a signal event is not armed a second time. -/
theorem armed_iff (h : e.HostedWait p x d token) (hdrawn : ∀ w ∈ e.waits, w.id < e.nextUuid)
    (hs : Beside (p.leaves e) p.wait.instanceId token s)
    (hrearm : p.wait.kind = .timer → rearm = true) :
    e.StaysArmed env rearm s p ↔ p.wait.kind = .timer ∨ p.wait.kind = .conditional := by
  -- no wait that was there before is filed under a new identifier
  have hgone : (∀ q, s.Holds q → e.Holds q ∧ ¬(q.wait.kind = p.wait.kind ∧
      q.wait.id = p.wait.id)) → ¬e.ArmedAgain p s := by
    rintro hheld ⟨q, hq, hkind, -, -, -, hid | hid⟩
    · exact (hheld q hq).2 ⟨hkind, hid⟩
    · exact absurd (hdrawn _ (hheld q hq).1.mem_waits) (Nat.not_lt.mpr hid)
  cases p with
  | timer t =>
    refine iff_of_true (fun u hu hrecurs hnext => ?_) (.inl rfl)
    obtain ⟨expiresAt, hx⟩ := exec_rearmTimer_recurs hrecurs hnext
    rw [hrearm rfl, if_pos rfl, after, hx]
    refine ⟨.timer (t.successor u.nextUuid expiresAt), ?_, rfl, rfl, rfl, rfl, .inr hu⟩
    rw [holds_insertPending]
    exact .inl rfl
  | message =>
    refine iff_of_false (hgone fun q hq => ?_) (by simp [Pending.wait, PendingMessageCatch.wait])
    exact holds_removePending.mp (holds_withoutEvents.mp ((hs.holds q).mp hq)).1
  | signal =>
    refine iff_of_false (hgone fun q hq => ?_) (by simp [Pending.wait, PendingSignalCatch.wait])
    exact holds_removePending.mp ((hs.holds q).mp hq)
  | conditional c =>
    refine iff_of_true ⟨.conditional { c with lastResult := true }, ?_, rfl, rfl, rfl, rfl,
      .inl rfl⟩ (.inr rfl)
    rw [hs.holds, Pending.leaves, holds_insertPending]
    exact .inl rfl
  | userTask t | serviceTask t =>
    obtain ⟨element, -, hsort, -⟩ := h.element
    cases hsort

end Engine.HostedWait

/-- A boundary event that does not cancel its activity fires. The token, its task and its other
waits are as before exactly if the event is a signal or a condition, or no other event wait of the
token was there; the event stays armed exactly if it is a timer or a condition. -/
theorem Pending.fire_leaves_host_iff {env : Env} {clock : Time} {c : Config} {s : Engine}
    {p : Pending} {x : ProcessInstance} {d : ProcessDefinition} {token : Token} {vars : Variables}
    {next : Next} {rearm : Bool}
    (hreach : Reaches (Config.step env) (fun _ _ => True) (.initial clock) c)
    (hp : c.engine.HostedWait p x d token)
    (hx : exec (p.fire env d vars) c.engine = (.ok (next, rearm), s)) :
    (c.engine.HostAlone p token s ↔ p.wait.kind = .signal ∨ p.wait.kind = .conditional ∨
      ∀ w ∈ c.engine.waits, w.IsEventOf p.wait.instanceId p.wait.tokenId → w = p.wait) ∧
    (c.engine.StaysArmed env rearm s p ↔ p.wait.kind = .timer ∨ p.wait.kind = .conditional) := by
  obtain ⟨hbeside, hrearm⟩ := Pending.fire_beside hp hx
  have hdrawn := (Config.inOrder_of_reaches hreach).ok.sound.drawn.waits
  exact ⟨hp.alone_iff hbeside, hp.armed_iff hdrawn hbeside hrearm⟩

/-! ## An offer with a note -/

/-- Whether a wait is that of a boundary event that does not cancel its activity. -/
def Engine.hosts (e : Engine) (p : Pending) : Bool :=
  (e.instances.find? p.wait.instanceId).any fun x =>
    (e.definitions.find? x.definitionKey).any (fun d => (d.getNode p.wait.nodeId).any fun element =>
      p.wait.kind.boundarySort element && !element.cancelsActivity) &&
    (x.tokens.find? p.wait.tokenId).isSome && decide (p.wait.tokenId < e.nextUuid) &&
    decide (p.wait.tokenId ≠ 0) && !x.eventSubscriptions.any fun s => s.id == p.wait.id

theorem Engine.hostedWait_of_hosts (hp : e.Holds p) (h : e.hosts p = true) :
    ∃ x d token, e.HostedWait p x d token := by
  simp only [hosts, Option.any_eq_true, Bool.and_eq_true, Option.isSome_iff_exists,
    decide_eq_true_eq, Bool.not_eq_true', List.any_eq_false, beq_iff_eq] at h
  obtain ⟨x, hx, ⟨⟨⟨⟨d, hd, element, helement, hsort, hcancels⟩, token, htoken⟩, hdrawn⟩, hne⟩,
    hsubscriptions⟩ := h
  refine ⟨x, d, token, hp, hx, hd, ⟨element, helement, hsort, hcancels⟩, htoken, hdrawn, hne, ?_⟩
  rintro ⟨y, hy, s, hs, hid⟩
  cases hx.symm.trans hy
  exact hsubscriptions s hs hid

/-- An offer that a clerk writes; notes come in meanwhile. -/
def offer (others : List (String × BpmnElement)) : ProcessDefinition := .ofGraph "offer"
  ([("start", .startEvent), ("offer", .userTask "clerk"),
    ("note", .boundaryMessageEvent "offer" "note" false), ("noted", .endEvent),
    ("end", .endEvent)] ++ others)
  ([("start", [.simple "offer"]), ("offer", [.simple "end"]), ("note", [.simple "noted"])] ++
    others.map fun other => (other.1, [.simple "end"]))

def offerRun (others : List (String × BpmnElement)) : Option Config :=
  Config.performAll .plain 100 (Config.initial 0)
    [.deployDefinition (offer others), .startInstance 1 ∅]

def awaitedNote : Pending := .message ⟨5, 2, "note", "note", 4⟩

/-- The messages that are waited for, whether a note is one that leaves the offer open, whether it
is delivered, and all event waits before. -/
def noteFacts (e : Engine) : List PendingMessageCatch × Bool × Bool × List Wait :=
  (e.pendingMessageCatches.entries, e.hosts awaitedNote,
    (exec (deliverMessage .plain ∅ 5) e).1.toOption.isSome,
    e.waits.filter fun w => w.kind.awaitsEvent)

theorem exists_of_noteFacts {events : List Wait}
    (h : noteFacts e = ([⟨5, 2, "note", "note", 4⟩], true, true, events)) :
    ∃ x d token next s, e.HostedWait awaitedNote x d token ∧
      exec (awaitedNote.fire .plain d ∅) e = (.ok (next, false), s) ∧
      ∀ w, w ∈ events ↔ w ∈ e.waits ∧ w.kind.awaitsEvent = true := by
  simp only [noteFacts, Prod.mk.injEq] at h
  obtain ⟨hmessages, hhosts, hok, rfl⟩ := h
  have hheld : e.Holds awaitedNote := by
    show _ ∈ e.pendingMessageCatches.entries
    rw [hmessages]
    exact List.mem_singleton.mpr rfl
  obtain ⟨x, d, token, hwait⟩ := hostedWait_of_hosts hheld hhosts
  rcases hx : exec (deliverMessage .plain ∅ 5) e with ⟨_ | next, s⟩
  · rw [hx] at hok
    cases hok
  · exact ⟨x, d, token, next, s, hwait, exec_bind_ok hx, fun w => List.mem_filter⟩

/-- The offer must be ready in time. A note drops the timer that watches over it. -/
theorem note_drops_deadline :
    ∃ c x d token next s, Reaches (Config.step .plain) (fun _ _ => True) (.initial 0) c ∧
      c.engine.HostedWait awaitedNote x d token ∧
      exec (awaitedNote.fire .plain d ∅) c.engine = (.ok (next, false), s) ∧
      ¬c.engine.HostAlone awaitedNote token s := by
  have hrun : (offerRun [("late", .boundaryTimerEvent "offer" (.duration 60) true)]).map
      (fun c => noteFacts c.engine) = some ([⟨5, 2, "note", "note", 4⟩], true, true,
        [⟨.timer, 6, 2, "late", 4⟩, awaitedNote.wait]) := by
    decide +kernel
  obtain ⟨c, hreach, -, hfacts⟩ := Config.exists_of_performAll hrun
  obtain ⟨x, d, token, next, s, hwait, hx, hevents⟩ := exists_of_noteFacts hfacts
  refine ⟨c, x, d, token, next, s, hreach, hwait, hx, ?_⟩
  rw [hwait.alone_iff (Pending.fire_beside hwait hx).1]
  rintro (hkind | hkind | hnone)
  · cases hkind
  · cases hkind
  · obtain ⟨htimer, -⟩ := (hevents ⟨.timer, 6, 2, "late", 4⟩).mp List.mem_cons_self
    cases hnone _ htimer ⟨rfl, rfl, rfl⟩

/-- An offer that nothing else watches over is left alone by a note. -/
theorem note_leaves_offer :
    ∃ c x d token next s, Reaches (Config.step .plain) (fun _ _ => True) (.initial 0) c ∧
      c.engine.HostedWait awaitedNote x d token ∧
      exec (awaitedNote.fire .plain d ∅) c.engine = (.ok (next, false), s) ∧
      c.engine.HostAlone awaitedNote token s := by
  have hrun : (offerRun []).map (fun c => noteFacts c.engine) =
      some ([⟨5, 2, "note", "note", 4⟩], true, true, [awaitedNote.wait]) := by
    decide +kernel
  obtain ⟨c, hreach, -, hfacts⟩ := Config.exists_of_performAll hrun
  obtain ⟨x, d, token, next, s, hwait, hx, hevents⟩ := exists_of_noteFacts hfacts
  refine ⟨c, x, d, token, next, s, hreach, hwait, hx, ?_⟩
  refine (Pending.fire_leaves_host_iff hreach hwait hx).1.mpr (.inr (.inr fun w hw hevent => ?_))
  exact List.mem_singleton.mp ((hevents w).mpr ⟨hw, hevent.1⟩)

end BpmnEngine
