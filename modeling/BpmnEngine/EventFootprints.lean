import BpmnEngine.InstanceWork
import BpmnEngine.TaskFootprints
import BpmnEngine.Administration

/-!
# Footprints of timers, messages, signals and of changes to an instance

Serving a wait works for the instance that waits. The wait is taken out of its table
first, so which branch is taken depends on the instance as it was: an event
subscription activates its handler, a listener without a token founds an instance, and
every other wait sets a token going.
-/
namespace BpmnEngine

open Program Eng

open Effects (Respects)

namespace Eng

variable {env : Env} {fx : Effects} {n i : Uuid} {d : ProcessDefinition} {timer : PendingTimer}

theorem eventToken_stays (hw : fx.writes i) (interrupting : Bool) (id : Uuid) :
    Stays fx n (eventToken interrupting i id) :=
  .ite (fun _ => takeToken_stays hw id) fun _ => cloneToken_stays hw id _ _

theorem continueBehind_obeys (hw : fx.writes i) (node : String) (token : Token) :
    Obeys fx n (continueBehind env d i node token) fun _ next => next.Runs i :=
  .after (resolveNextTarget_stays _ _) fun _ _ _ => continueAt_obeys hw _ _

theorem cancelTasksAt_stays (hw : fx.writes i) (id : Uuid) (node : String) (kind : WaitKind) :
    Stays fx n (cancelTasksAt i id node kind) := by
  refine retainPending_stays fun w _ h => .inl ?_
  simp only [Bool.not_eq_false', Bool.and_eq_true, beq_iff_eq] at h
  exact h.1.1 ▸ hw

theorem isEventSubscription_stays (id : Uuid) : Stays fx n (isEventSubscription i id) := by
  refine .bind findInstance_stays fun _ _ _ => ?_
  split <;> exact Stays.pure _

theorem runActivation_runs (activation : Option ScopeActivation) :
    (runActivation i activation).Runs i := by
  rcases activation with _ | ⟨token⟩ | ⟨token⟩
  · trivial
  · exact rfl
  · exact rfl

theorem activate_obeys (hg : fx.Governs i) {consumption : EventConsumption} {vars : Variables}
    (hc : ∀ p ∈ consumption.pending?, fx.MayFile n p) :
    Obeys fx n (do return runActivation i (← activateEventSubscription env i consumption vars))
      fun _ next => next.Runs i :=
  Stays.bind (activateEventSubscription_stays hg hc) fun _ _ _ =>
    .pure fun _ _ => runActivation_runs _

/-- A listener without a token founds an instance that its own instance has called. -/
theorem startScopeListener_founds (hw : fx.writes i) (hi : i < n) (bpmnId : String)
    (vars : Variables) :
    Founds fx n (startScopeListener env i bpmnId vars) fun j _ next => next.Runs j := by
  refine Stays.bind_founds (findLatestByBpmnId_stays _) fun k found hk => ?_
  split
  · exact (Obeys.throw _).founds
  refine Stays.bind_founds getInstance_stays fun l x hl => ?_
  refine Founds.bind (startInstance_founds _ _ _ (fun p hp => ?_) _) fun j m r hj hm hr => ?_
  · exact Option.some.inj hp ▸ ⟨hw, lt_of_lt_of_le hi (hk.trans hl)⟩
  · refine .pure fun o ho => ?_
    exact hr

theorem exec_startScopeListener_none (env : Env) {e : Engine} (h : e.instances.find? i = none)
    (bpmnId : String) (vars : Variables) :
    ∃ error, exec (startScopeListener env i bpmnId vars) e = (.error error, e) := by
  obtain ⟨found, hfound⟩ : ∃ found,
      exec (findLatestByBpmnId env bpmnId) e = (.ok found, e) := ⟨_, rfl⟩
  rw [startScopeListener, exec_bind_ok hfound]
  cases found with
  | none => exact ⟨_, rfl⟩
  | some => exact ⟨_, exec_bind_error (exec_getInstance_none h)⟩

/-! ## Signals -/

theorem resumeSignalCatch_obeys (hw : fx.writes i) {c : PendingSignalCatch}
    (hi : c.instanceId = i) (vars : Variables) :
    Obeys fx n (resumeSignalCatch env c vars) fun _ next => next.Runs i := by
  subst hi
  refine .after definitionOf_stays fun k d hk => ?_
  have hrest : ∀ m, Obeys fx m (do
      let token ← eventToken (!isNonInterrupting d c.nodeId isBoundarySignal) c.instanceId c.tokenId
      updateInstance c.instanceId fun i => { i with state := runningUnlessParallel i.state }
      continueBehind env d c.instanceId c.nodeId { token with vars := token.vars.extend vars })
      fun _ next => next.Runs c.instanceId := fun m =>
    .after (eventToken_stays hw _ _) fun _ _ _ =>
      .after (updateInstance_stays hw respects_running) fun _ _ _ =>
        continueBehind_obeys hw _ _
  refine .ite (fun _ => ?_) fun _ => hrest k
  refine .after (clearWaitStatesForToken_stays hw _) fun l _ hl => ?_
  exact .after (cancelPendingActivity_stays hw _) fun m _ hm => hrest m

theorem deliverSignal_obeys (hg : fx.Governs i) {catchId : Uuid}
    (hh : fx.Handles n i .signal catchId) (vars : Variables) :
    Obeys fx n (deliverSignal env vars catchId) fun _ next => next.Runs i := by
  refine .bind get_obeys fun k e hk hknow => ?_
  split
  · exact .pure fun _ _ => trivial
  case h_2 c hfound =>
  have hid := Table.key_of_find? hfound
  subst hid
  have hi : c.instanceId = i := hh.owner (p := .signal c) hknow (Table.mem_of_find? hfound)
  refine .after (removePending_stays hh.removes) fun l _ hl => ?_
  rw [hi]
  refine .after (isEventSubscription_stays _) fun m subscribed hm => ?_
  have hn : n ≤ m := hk.trans (hl.trans hm)
  refine .ite (fun _ => ?_) fun _ => resumeSignalCatch_obeys hg.writes hi vars
  refine activate_obeys hg fun p hp => ?_
  cases hp
  exact hh.mayFile (p := .signal c) hi hn

/-! ## Messages and timers -/

theorem resumeMessageCatch_obeys (hw : fx.writes i) {c : PendingMessageCatch}
    (hi : c.instanceId = i) (vars : Variables) :
    Obeys fx n (resumeMessageCatch env c vars) fun _ next => next.Runs i := by
  subst hi
  refine .after definitionOf_stays fun k d hk => ?_
  refine .after (eventToken_stays hw _ _) fun l token hl => ?_
  have hrest : ∀ m, Obeys fx m (do
      updateInstance c.instanceId fun i => { i with state := runningUnlessParallel i.state }
      continueBehind env d c.instanceId c.nodeId { token with vars := token.vars.extend vars })
      fun _ next => next.Runs c.instanceId := fun m =>
    .after (updateInstance_stays hw respects_running) fun _ _ _ => continueBehind_obeys hw _ _
  refine .ite (fun _ => ?_) fun _ => hrest l
  refine .after (cancelTasksAt_stays hw _ _ _) fun m _ hm => ?_
  exact .after (cancelTasksAt_stays hw _ _ _) fun o _ ho => hrest o

theorem dropServiceTasksAt_stays (hw : fx.writes i) (id : Uuid) (node : String) :
    Stays fx n (dropServiceTasksAt i id node) := by
  let q : Wait → Bool := fun w => !decide (w.kind = .serviceTask) ||
    !(w.instanceId == i && w.nodeId == node && w.tokenId == id)
  refine .modify fun e _ => .drop (q := q) ⟨rfl, rfl, rfl, rfl⟩ (fun w => ?_) fun w hw' => ?_
  · rcases w with ⟨kind, wid, winst, wnode, wtoken⟩
    cases kind <;>
      simp only [q, Engine.mem_waits, Table.mem_retain, PendingUserTask.wait,
        PendingServiceTask.wait, PendingTimer.wait, PendingMessageCatch.wait,
        PendingSignalCatch.wait, PendingConditionalCatch.wait, Wait.mk.injEq] <;>
      grind
  · simp only [q, Bool.or_eq_false_iff, Bool.not_eq_false', Bool.and_eq_true, beq_iff_eq] at hw'
    exact .inl (hw'.2.1.1 ▸ hw)

theorem resumeTimer_obeys (hw : fx.writes i) (hi : timer.instanceId = i) :
    Obeys fx n (resumeTimer env timer) fun _ a => a.1.Runs i := by
  subst hi
  refine .after definitionOf_stays fun k d hk => ?_
  refine .after (eventToken_stays hw _ _) fun l token hl => ?_
  have hrest : ∀ m, Obeys fx m (do
      return (← continueBehind env d timer.instanceId timer.nodeId token, true))
      fun _ a => a.1.Runs timer.instanceId := fun m =>
    .bind (continueBehind_obeys hw _ _) fun _ _ _ hn => .pure fun _ _ => hn
  refine .ite (fun _ => ?_) fun _ => hrest l
  refine .after (cancelTasksAt_stays hw _ _ _) fun m _ hm => ?_
  exact .after (dropServiceTasksAt_stays hw _ _) fun o _ ho => hrest o

theorem rearmTimer_stays (hf : fx.FilesFrom n timer.instanceId) :
    Stays fx n (rearmTimer env timer) := by
  unfold rearmTimer
  split
  · exact Stays.pure _
  refine .ite (fun _ => ?_) fun _ => Stays.pure _
  refine .after now_stays fun k clock hk => ?_
  split
  · exact Stays.pure _
  refine .bind newUuid_obeys fun l id hl hid => insertPending_stays ?_
  exact ⟨hf id (hk.trans hid.1) _, hid.2⟩

theorem reportFailedTimer_stays (hw : fx.writes timer.instanceId) (error : EngineError) :
    Stays fx n (reportFailedTimer timer error) := by
  refine .bind newUuid_obeys.stays fun k id hk => ?_
  refine .after now_stays fun l clock hl => ?_
  exact modifyInstance_stays hw (respects_pushOrTouchIncident ..)

theorem setBusinessKey_stays (hw : fx.writes i) (key : Option String) :
    Stays fx n (setBusinessKey i key) := by
  unfold setBusinessKey
  split
  · exact modifyInstance_stays hw (.of_same fun _ => rfl)
  · exact .pure _

end Eng

/-! ## Work from a state -/

section Work

variable {e t s : Engine} {i n : Uuid} {p : Powers} {α : Type} {m : Eng α} {r : EngineResult α}

theorem Effects.working_governs (hp : p.scope) : (Effects.working e i p).Governs i :=
  ⟨rfl, ⟨hp, rfl⟩, hp⟩

theorem Effects.working_ends (hp : p.ends) : (Effects.working e i p).ends i := ⟨hp, rfl⟩

theorem Effects.working_calls (hp : p.calls) : (Effects.working e i p).calls i := ⟨hp, rfl⟩

theorem Effects.working_files (hp : p.files) (hn : e.nextUuid ≤ n) :
    (Effects.working e i p).FilesFrom n i :=
  fun _ hid _ => ⟨hp, rfl, .inl (hn.trans hid)⟩

theorem Effects.working_handles (hp : p.files) (hd : e.Drawn) {kind : WaitKind} {id : Uuid}
    (h : e.HasWait i kind id) : (Effects.working e i p).Handles e.nextUuid i kind id where
  removes := .inl h
  files := ⟨hp, rfl, .inr h⟩
  owns := ⟨rfl, h⟩
  drawn := by
    obtain ⟨w, hw, _, rfl, _⟩ := h
    exact hd.waits w hw

theorem Works.refl : Works p i e e := Within.start (Effects.working_knows e i p)

theorem Obeys.works {Q : Uuid → α → Prop} (h : Obeys (Effects.working e i p) n m Q)
    (hs : Within (Effects.working e i p) n e s) (hx : exec m s = (r, t)) :
    Within (Effects.working e i p) n e t ∧ ∀ a, r = .ok a → Q t.nextUuid a := by
  cases r with
  | error => exact ⟨(h e).error hs hx, fun _ h => by cases h⟩
  | ok =>
    have := (h e).ok hs hx
    exact ⟨this.1, fun b hb => by cases hb; exact this.2⟩

theorem Founds.hosts {Q : Uuid → Uuid → α → Prop}
    (h : Founds (Effects.working e i p) e.nextUuid m Q) (hs : Works p i e s)
    (hx : exec m s = (r, t)) : ∃ j, Hosts p i j e t ∧ ∀ a, r = .ok a → Q j t.nextUuid a := by
  cases r with
  | error =>
    obtain ⟨j, hj, hw⟩ := (h e).error hs hx
    exact ⟨j, ⟨hj, hw⟩, fun _ h => by cases h⟩
  | ok =>
    obtain ⟨j, hj, hw, hq⟩ := (h e).ok hs hx
    exact ⟨j, ⟨hj, hw⟩, fun b hb => by cases hb; exact hq⟩

end Work

/-! ## Serving a wait -/

def Engine.isSubscription (e : Engine) (instanceId id : Uuid) : Bool :=
  (e.instances.find? instanceId).any fun i => i.eventSubscriptions.any fun s => s.id == id

theorem Engine.isSubscription_iff {e : Engine} {i id : Uuid} :
    e.isSubscription i id = true ↔ e.Subscribed i id := by
  simp [isSubscription, Subscribed, Option.any_eq_true]

namespace Eng

variable {env : Env} {e : Engine} {vars : Variables}

theorem exec_isEventSubscription (e : Engine) (i id : Uuid) :
    exec (isEventSubscription i id) e = (.ok (e.isSubscription i id), e) := by
  rw [isEventSubscription, exec_bind_ok (exec_findInstance e i), Engine.isSubscription]
  cases e.instances.find? i <;> rfl

theorem isSubscription_of_sameCore {u : Engine} (h : SameCore e u) (i id : Uuid) :
    u.isSubscription i id = e.isSubscription i id := by
  rw [Engine.isSubscription, Engine.isSubscription, h.instances]

def withoutEvents (instanceId tokenId : Uuid) (e : Engine) : Engine :=
  [WaitKind.timer, .message, .signal, .conditional].foldl (fun e kind => e.retainPending kind
    fun w => !(w.instanceId == instanceId && w.tokenId == tokenId)) e

theorem exec_clearWaits (e : Engine) (i tokenId : Uuid) :
    exec (clearWaitStatesForToken i tokenId) e = (.ok (), withoutEvents i tokenId e) := rfl

theorem sameCore_withoutEvents (e : Engine) (i tokenId : Uuid) :
    SameCore e (withoutEvents i tokenId e) :=
  Engine.sameCore_foldl_retainPending _ _ e

theorem sameCore_removePending (e : Engine) (kind : WaitKind) (id : Uuid) :
    SameCore e (e.removePending kind id) :=
  sameCore_retainPending e _ _

theorem sameCore_cleared (e : Engine) (kind : WaitKind) (id i tokenId : Uuid) :
    SameCore e (withoutEvents i tokenId (e.removePending kind id)) :=
  (sameCore_removePending e kind id).trans (sameCore_withoutEvents _ i tokenId)

theorem exec_serveTimer (e : Engine) (t : PendingTimer) :
    exec (do removePending .timer t.id; processExpiredTimer env t) e =
      exec (if e.isSubscription t.instanceId t.id then do
          let activation ← activateEventSubscription env t.instanceId (.timer t) ∅
          return (runActivation t.instanceId activation, false)
        else do
          updateInstance t.instanceId fun i => { i with state := .running }
          if t.tokenId = 0 then
            return (← startScopeListener env t.instanceId t.nodeId ∅, false)
          resumeTimer env t) (withoutEvents t.instanceId t.tokenId
            (e.removePending .timer t.id)) := by
  rw [exec_bind_ok (exec_removePending e _ _), processExpiredTimer,
    exec_bind_ok (exec_clearWaits _ _ _), exec_bind_ok (exec_isEventSubscription _ _ _),
    isSubscription_of_sameCore (sameCore_cleared ..)]

theorem exec_deliverMessage {c : PendingMessageCatch} (hc : e.Holds (.message c)) :
    exec (deliverMessage env vars c.id) e =
      exec (if e.isSubscription c.instanceId c.id then do
          return runActivation c.instanceId
            (← activateEventSubscription env c.instanceId (.message c) vars)
        else if c.tokenId = 0 then startScopeListener env c.instanceId c.nodeId vars
        else resumeMessageCatch env c vars)
        (withoutEvents c.instanceId c.tokenId (e.removePending .message c.id)) := by
  rw [deliverMessage, exec_bind_ok (exec_get e), Table.find?_of_mem hc]
  dsimp only
  rw [exec_bind_ok (exec_removePending e _ _), exec_bind_ok (exec_clearWaits _ _ _),
    exec_bind_ok (exec_isEventSubscription _ _ _), isSubscription_of_sameCore (sameCore_cleared ..)]

theorem exec_deliverSignal {c : PendingSignalCatch} (hc : e.Holds (.signal c)) :
    exec (deliverSignal env vars c.id) e =
      exec (if e.isSubscription c.instanceId c.id then do
          return runActivation c.instanceId
            (← activateEventSubscription env c.instanceId (.signal c) vars)
        else resumeSignalCatch env c vars) (e.removePending .signal c.id) := by
  rw [deliverSignal, exec_bind_ok (exec_get e), Table.find?_of_mem hc]
  dsimp only
  rw [exec_bind_ok (exec_removePending e _ _), exec_bind_ok (exec_isEventSubscription _ _ _),
    isSubscription_of_sameCore (sameCore_removePending ..)]

section

variable {i : Uuid} {y : ProcessInstance} {d : ProcessDefinition} {handler : EventSubProcess}
  {subscription : EventSubscription} {consumption : EventConsumption}

theorem exec_activateEventSubscription
    (hy : e.instances.find? i = some y) (hactive : y.state.isSuspended = false)
    (hlive : y.state.isTerminal = false)
    (hsubscription : y.eventSubscriptions.find? (fun s => s.id == consumption.id) =
      some subscription)
    (hd : e.definitions.find? y.definitionKey = some d)
    (hhandler : d.eventSubprocessById subscription.subprocessId = some handler) :
    exec (activateEventSubscription env i consumption vars) e =
      exec (activateHandler env i handler subscription vars consumption) e := by
  rw [activateEventSubscription, exec_bind_ok (exec_getInstance hy)]
  simp only [hactive, hlive, hsubscription, Bool.false_eq_true, ↓reduceIte]
  rw [exec_bind_ok (exec_getDefinition hd), hhandler]

/-- An active instance starts the handler of a subscription that is open. -/
theorem exec_activateHandler_open (env : Env) (handler : EventSubProcess) (vars : Variables)
    (consumption : EventConsumption) (hy : e.instances.find? i = some y)
    (hactive : y.state.isSuspended = false) (hlive : y.state.isTerminal = false)
    (hopen : subscription ∈ y.eventSubscriptions) :
    ∃ token, exec (activateHandler env i handler subscription vars consumption) e =
      exec (if handler.isInterrupting then do
          cancelScopeWaits i
          let fuel := (← get).instances.entries.length + 1
          y.outstandingCalls.keys.forM (abortInterruptedInstance fuel)
          return some (.interrupting token)
        else do
          retainConsumption consumption subscription
            (rescheduleTimer env handler subscription e.clock)
          return some (.parallel token))
        (Engine.modifyInstance i (startHandler handler subscription
          (rescheduleTimer env handler subscription e.clock) (y.vars.extend vars) token)
          { e with nextUuid := e.nextUuid + 1 }) := by
  have hany : (y.eventSubscriptions.any fun s => s.id == subscription.id) = true :=
    List.any_eq_true.mpr ⟨subscription, hopen, beq_self_eq_true _⟩
  refine ⟨Token.withVariables e.nextUuid handler.startNode (y.vars.extend vars), ?_⟩
  rw [activateHandler, exec_bind_ok (exec_now e), exec_bind_ok (exec_getInstance hy),
    if_neg (by simp [hactive, hlive]), if_neg (by simp [hany])]
  exact (exec_bind_ok rfl).trans (exec_bind_ok (exec_modifyInstance _ _ _))

end

end Eng

/-- What serving a wait of an instance comes to: work for it, or an instance founded for it. -/
inductive Served {α : Type} (next : α → Next) (q : Uuid) (e t : Engine) (r : EngineResult α) :
    Prop where
  | works (h : Works ⟨True, False, False, True⟩ q e t) (hr : ∀ a, r = .ok a → (next a).Runs q)
  | hosts (j : Uuid) (h : Hosts ⟨False, False, False, False⟩ q j e t)
      (hr : ∀ a, r = .ok a → (next a).Runs j)

section Serving

variable {env : Env} {e s t : Engine} {vars : Variables} {r : EngineResult Next} {catchId : Uuid}

section

variable {α : Type} {m : Eng α} {next : α → Next} {q : Uuid} {r : EngineResult α}
  (hx : exec m s = (r, t))

include hx

theorem Served.of_obeys (hs : Works ⟨True, False, False, True⟩ q e s)
    (h : Obeys (Effects.working e q ⟨True, False, False, True⟩) e.nextUuid m
      fun _ a => (next a).Runs q) : Served next q e t r := by
  obtain ⟨hw, hr⟩ := h.works hs hx
  exact .works hw hr

theorem Served.of_founds (hs : Works ⟨False, False, False, False⟩ q e s)
    (h : Founds (Effects.working e q ⟨False, False, False, False⟩) e.nextUuid m
      fun j _ a => (next a).Runs j) : Served next q e t r := by
  obtain ⟨j, hj, hr⟩ := h.hosts hs hx
  exact .hosts j hj hr

end

theorem cleared_works {p : Powers} {i id : Uuid} {kind : WaitKind}
    (hwait : e.HasWait i kind id) (tokenId : Uuid) :
    Works p i e (withoutEvents i tokenId (e.removePending kind id)) := by
  have hremove : Stays (Effects.working e i p) e.nextUuid (Eng.removePending kind id) :=
    removePending_stays (.inl hwait)
  have hclear : Stays (Effects.working e i p) e.nextUuid
      (clearWaitStatesForToken i tokenId) := clearWaitStatesForToken_stays rfl _
  have hremoved := (hremove.works Works.refl (exec_removePending ..)).1
  exact (hclear.works hremoved (exec_clearWaits _ _ _)).1

theorem deliverSignal_served (hd : e.Drawn)
    (hx : exec (deliverSignal env vars catchId) e = (r, t)) :
    (t = e ∧ ∀ next, r = .ok next → next = .done) ∨
      ∃ q, e.HasWait q .signal catchId ∧ Served (fun next => next) q e t r := by
  cases hfound : e.pendingSignalCatches.find? catchId with
  | none =>
    rw [deliverSignal, exec_bind_ok (exec_get e), hfound] at hx
    cases hx
    exact .inl ⟨rfl, fun _ h => by cases h; rfl⟩
  | some c =>
    have hid : c.id = catchId := Table.key_of_find? hfound
    have hwait : e.HasWait c.instanceId .signal catchId :=
      ⟨c.wait, Engine.Holds.mem_waits (p := .signal c) (Table.mem_of_find? hfound), rfl, hid, rfl⟩
    exact .inr ⟨c.instanceId, hwait, .of_obeys hx .refl (deliverSignal_obeys
      (Effects.working_governs trivial) (Effects.working_handles trivial hd hwait) vars)⟩

theorem deliverMessage_served (hd : e.Drawn)
    (hx : exec (deliverMessage env vars catchId) e = (r, t)) :
    (t = e ∧ ∀ next, r = .ok next → next = .done) ∨
      ∃ q, e.HasWait q .message catchId ∧ Served (fun next => next) q e t r := by
  cases hfound : e.pendingMessageCatches.find? catchId with
  | none =>
    rw [deliverMessage, exec_bind_ok (exec_get e), hfound] at hx
    cases hx
    exact .inl ⟨rfl, fun _ h => by cases h⟩
  | some c =>
    obtain rfl : c.id = catchId := Table.key_of_find? hfound
    have hheld : e.Holds (.message c) := Table.mem_of_find? hfound
    have hwait : e.HasWait c.instanceId .message c.id := ⟨c.wait, hheld.mem_waits, rfl, rfl, rfl⟩
    have hworks {p : Powers} := cleared_works (p := p) hwait c.tokenId
    refine .inr ⟨c.instanceId, hwait, ?_⟩
    rw [exec_deliverMessage hheld] at hx
    split at hx
    · refine .of_obeys hx hworks (activate_obeys (Effects.working_governs trivial) fun q hq => ?_)
      cases hq
      exact (Effects.working_handles trivial hd hwait).mayFile (p := .message c) rfl le_rfl
    split at hx
    · cases howner : e.instances.find? c.instanceId with
      | none =>
        rw [← (sameCore_cleared e .message c.id c.instanceId c.tokenId).instances] at howner
        obtain ⟨error, herror⟩ := exec_startScopeListener_none env howner c.nodeId vars
        cases herror.symm.trans hx
        exact .works hworks fun _ h => by cases h
      | some owner =>
        exact .of_founds hx hworks (startScopeListener_founds rfl (hd.instances _ owner howner) _ _)
    · exact .of_obeys hx hworks (resumeMessageCatch_obeys rfl rfl vars)

/-- A timer that has not been subscribed sets its token going, or founds an instance. -/
theorem processExpiredTimer_served (hd : e.Drawn) {timer : PendingTimer}
    (hfound : e.pendingTimers.find? timer.id = some timer) {r : EngineResult (Next × Bool)}
    (hx : exec (do
      Eng.removePending .timer timer.id
      processExpiredTimer env timer) e = (r, t)) :
    Served Prod.fst timer.instanceId e t r := by
  have hwait : e.HasWait timer.instanceId .timer timer.id :=
    ⟨timer.wait, Engine.Holds.mem_waits (p := .timer timer) (Table.mem_of_find? hfound), rfl, rfl,
      rfl⟩
  have hworks {p : Powers} := cleared_works (p := p) hwait timer.tokenId
  rw [exec_serveTimer] at hx
  split at hx
  · refine .of_obeys hx hworks (.after (activateEventSubscription_stays
      (Effects.working_governs trivial) fun q hq => ?_)
      fun _ _ _ => .pure fun _ _ => runActivation_runs _)
    cases hq
    exact (Effects.working_handles trivial hd hwait).mayFile (p := .timer timer) rfl le_rfl
  have hrunning : ∀ {fx : Effects} {n : Uuid}, fx.writes timer.instanceId →
      Stays fx n (updateInstance timer.instanceId fun i => { i with state := .running }) :=
    fun hw => updateInstance_stays hw (.of_rest (.inr fun _ => .inr ⟨rfl, rfl⟩) fun _ => rfl)
  by_cases htoken : timer.tokenId = 0
  · simp only [if_pos htoken] at hx
    cases howner : e.instances.find? timer.instanceId with
    | none =>
      rw [← (sameCore_cleared e .timer timer.id timer.instanceId timer.tokenId).instances] at howner
      rw [exec_bind_error (exec_updateInstance_none howner _)] at hx
      cases hx
      exact .works hworks fun _ h => by cases h
    | some owner =>
      have hlt := hd.instances timer.instanceId owner howner
      refine .of_founds hx hworks (Stays.bind_founds (hrunning rfl) fun k _ hk => ?_)
      refine Founds.bind (startScopeListener_founds rfl (lt_of_lt_of_le hlt hk) _ _)
        fun j l next hj hl hn => ?_
      exact .pure fun _ _ => hn
  · simp only [if_neg htoken] at hx
    exact .of_obeys hx hworks (.after (hrunning rfl) fun _ _ _ => resumeTimer_obeys rfl rfl)

end Serving

end BpmnEngine
