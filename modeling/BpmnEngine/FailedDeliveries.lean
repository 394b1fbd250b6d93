import BpmnEngine.BoundaryFirings
import BpmnEngine.ScopeInterruption

/-!
# Events that cannot be delivered

A timer, a message or a signal whose processing fails before its batch starts should
find everything in place when it is tried again: the token that waits, its task, its
other waits, the wait itself and the state of the instance. The engine takes the wait,
the other event waits of the token and, if the event interrupts, the token out of their
tables before it looks for the node behind the event. Only the wait of a timer is filed
again after a failure.
-/
namespace BpmnEngine

open Program Eng Engine

/-! ## Programs that do not fail -/

namespace Eng

variable {env : Env} {e s : Engine} {i : Uuid} {x : ProcessInstance} {vars : Variables}
  {error : EngineError}

theorem abortInterruptedInstance_succeeds (fuel : Nat) (i : Uuid) :
    Succeeds (fun _ => True) (abortInterruptedInstance fuel i) := by
  induction fuel generalizing i with
  | zero => exact .pure _
  | succ fuel ih =>
    unfold abortInterruptedInstance
    have hfind : Succeeds (fun _ => True) (findInstance i) := fun s _ => ⟨_, s, rfl, trivial⟩
    refine hfind.bind fun found => ?_
    split
    · exact .pure _
    · refine .ite (fun _ => .pure _) fun _ => ?_
      have hnow : Succeeds (fun _ => True) now := fun s _ => ⟨_, s, rfl, trivial⟩
      refine hnow.bind fun clock => .bind (.modify fun _ _ => trivial) fun _ => ?_
      have hcancel : Succeeds (fun _ => True) (cancelScopeWaits i) :=
        .forM fun _ _ => .modify fun _ _ => trivial
      exact hcancel.bind fun _ => .forM fun id _ => ih id

theorem retainConsumption_succeeds (consumption : EventConsumption)
    (subscription : EventSubscription) (reschedule : Option TimerReschedule) :
    Succeeds (fun _ => True) (retainConsumption consumption subscription reschedule) := by
  unfold retainConsumption
  split
  · exact .modify fun _ _ => trivial
  · exact .modify fun _ _ => trivial
  · exact .modify fun _ _ => trivial
  · exact .pure _

theorem activateHandler_succeeds (handler : EventSubProcess) (subscription : EventSubscription)
    (vars : Variables) (consumption : EventConsumption) (hx : e.instances.find? i = some x) :
    ∃ a t, exec (activateHandler env i handler subscription vars consumption) e = (.ok a, t) := by
  rw [activateHandler, exec_bind_ok (exec_now e), exec_bind_ok (exec_getInstance hx)]
  split
  · exact ⟨_, _, rfl⟩
  split
  · exact ⟨_, _, rfl⟩
  have hrest (token : Token) : Succeeds (fun _ => True) (do
      modifyInstance i (startHandler handler subscription
        (rescheduleTimer env handler subscription e.clock) (x.vars.extend vars) token)
      if handler.isInterrupting = true then
        cancelScopeWaits i
        let fuel := (← get).instances.entries.length + 1
        x.outstandingCalls.keys.forM (abortInterruptedInstance fuel)
        return some (ScopeActivation.interrupting token)
      else
        retainConsumption consumption subscription
          (rescheduleTimer env handler subscription e.clock)
        return some (ScopeActivation.parallel token)) := by
    refine .bind (.modify fun _ _ => trivial) fun _ => .ite (fun _ => ?_) fun _ => ?_
    · have hcancel : Succeeds (fun _ => True) (cancelScopeWaits i) :=
        .forM fun _ _ => .modify fun _ _ => trivial
      have hget : Succeeds (fun _ => True) (get : Eng Engine) := fun s _ => ⟨s, s, rfl, trivial⟩
      exact hcancel.bind fun _ => hget.bind fun _ =>
        .bind (.forM fun id _ => abortInterruptedInstance_succeeds _ id) fun _ => .pure _
    · exact .bind (retainConsumption_succeeds _ _ _) fun _ => .pure _
  obtain ⟨a, t, ht, -⟩ := hrest (Token.withVariables e.nextUuid handler.startNode
    (x.vars.extend vars)) { e with nextUuid := e.nextUuid + 1 } trivial
  exact ⟨a, t, ht⟩

theorem activateEventSubscription_error {consumption : EventConsumption}
    (h : exec (activateEventSubscription env i consumption vars) e = (.error error, s)) :
    s = e := by
  cases hx : e.instances.find? i with
  | none =>
    rw [activateEventSubscription, exec_bind_error (exec_getInstance_none hx)] at h
    exact (Prod.mk.inj h).2.symm
  | some x =>
    rw [activateEventSubscription, exec_bind_ok (exec_getInstance hx)] at h
    split at h
    · cases consumption <;> cases h
    split at h
    · cases h
    split at h
    · cases h
    · cases hd : e.definitions.find? x.definitionKey with
      | none =>
        rw [exec_bind_error (exec_getDefinition_none hd)] at h
        exact (Prod.mk.inj h).2.symm
      | some =>
        rw [exec_bind_ok (exec_getDefinition hd)] at h
        split at h
        · exact (Prod.mk.inj h).2.symm
        · obtain ⟨a, t, ht⟩ := activateHandler_succeeds _ _ _ _ hx
          cases ht.symm.trans h

def Defined (key : Uuid) (d : ProcessDefinition) (i : Uuid) (s : Engine) : Prop :=
  s.definitions.find? key = some d ∧ ∃ x, s.instances.find? i = some x ∧ x.definitionKey = key

section Start

variable {key : Uuid} {d : ProcessDefinition} {allowSignalStart : Bool}

theorem Defined.file (h : Defined key d i s) (p : Pending) : Defined key d i (s.insertPending p) :=
    by
  rw [Defined, s.definitions_insertPending, s.instances_insertPending]
  exact h

theorem Defined.modify (h : Defined key d i s) {f : ProcessInstance → ProcessInstance}
    (hf : ∀ x, (f x).definitionKey = x.definitionKey) :
    Defined key d i (s.modifyInstance i f) := by
  obtain ⟨hd, x, hx, hkey⟩ := h
  refine ⟨hd, { f x with id := x.id }, ?_, (hf x).trans hkey⟩
  rw [find?_modifyInstance_self, hx, Option.map_some]

theorem newUuid_defined : Succeeds (Defined key d i) newUuid :=
  fun s h => ⟨s.nextUuid, { s with nextUuid := s.nextUuid + 1 }, rfl, h⟩

theorem insertPending_defined (p : Pending) : Succeeds (Defined key d i) (insertPending p) :=
  .modify fun _ h => h.file p

theorem openEventScope_defined : Succeeds (Defined key d i) (openEventScope env i) := by
  intro s h
  obtain ⟨hd, x, hx, hkey⟩ := h
  rw [openEventScope, exec_bind_ok (exec_getInstance hx)]
  split
  · exact ⟨_, s, rfl, hd, x, hx, hkey⟩
  rw [exec_bind_ok (exec_getDefinition (hkey ▸ hd))]
  split
  · exact ⟨_, s, rfl, hd, x, hx, hkey⟩
  rw [exec_bind_ok (exec_now s)]
  have hrest : Succeeds (Defined key d i) (do
      let opened ← d.eventSubprocesses.mapM fun handler => do
        let id ← newUuid
        return subscriptionFor env i s.clock handler id
      let opened := opened.filterMap fun x => x
      modifyInstance i fun i =>
        { i with eventScope := true, eventSubscriptions := opened.map Prod.fst }
      (opened.filterMap Prod.snd).forM insertPending) :=
    .bind (.mapM fun _ _ => newUuid_defined.bind fun _ => .pure _) fun _ =>
      .bind (.modify fun _ h => h.modify fun _ => rfl) fun _ =>
        .forM fun p _ => insertPending_defined p
  exact hrest s ⟨hd, x, hx, hkey⟩

theorem setUpInstance_succeeds (start : String) (vars : Variables) (parent : Option Uuid)
    (hd : e.definitions.find? key = some d) :
    ∃ token t, exec (setUpInstance env d key start vars parent i) e = (.ok token, t) ∧
      Defined key d i t := by
  obtain ⟨a, u, hu, hdefinitions⟩ : ∃ a u, exec (takeBusinessKey vars) e = (.ok a, u) ∧
      u.definitions = e.definitions := by
    unfold takeBusinessKey
    split
    · exact ⟨_, e, rfl, rfl⟩
    · exact ⟨_, { e with nextUuid := e.nextUuid + 1 }, rfl, rfl⟩
  rw [setUpInstance, exec_bind_ok hu, exec_bind_ok (exec_insertInstance _ _)]
  have hdefined : Defined key d i
      { u with instances := u.instances.insert (.initial i key a.1 parent start a.2) } :=
    ⟨by rw [hdefinitions]; exact hd, _, Table.find?_insert_self u.instances _, rfl⟩
  have hrest (token : Token) : Succeeds (Defined key d i) (do
      d.eventListeners.forM fun listener => do
        let id ← newUuid
        (scopeListenerWait env (← now) i id listener).toList.forM insertPending
      openEventScope env i
      return token) := by
    refine .bind (.forM fun listener _ => newUuid_defined.bind fun id => ?_) fun _ =>
      .bind openEventScope_defined fun _ => .pure _
    have hnow : Succeeds (Defined key d i) now := fun s h => ⟨_, s, rfl, h⟩
    exact hnow.bind fun _ => .forM fun p _ => insertPending_defined p
  exact hrest (Token.withVariables u.nextUuid start a.2) _
    (show Defined key d i { u with
        instances := u.instances.insert (.initial i key a.1 parent start a.2)
        nextUuid := u.nextUuid + 1 } from hdefined)

theorem validateStartRequest_keeps_state (key : Uuid) (allowSignalStart : Bool) (e : Engine) :
    after (validateStartRequest key allowSignalStart) e = e := by
  have hkeeps : Keeps (· = e) (validateStartRequest key allowSignalStart) := by
    unfold validateStartRequest
    refine .bind (getDefinition_keeps _) fun d => ?_
    split
    · exact .throw _
    · exact .throw _
    · exact .ite (fun _ => .pure _) fun _ => .throw _
    · exact .pure _
  exact hkeeps e rfl

theorem validateStartRequest_defined {start : String} {t : Engine}
    (h : exec (validateStartRequest key allowSignalStart) e = (.ok (d, start), t)) :
    e.definitions.find? key = some d := by
  cases hd : e.definitions.find? key with
  | none =>
    rw [validateStartRequest, exec_bind_error (exec_getDefinition_none hd)] at h
    cases h
  | some =>
    rw [validateStartRequest, exec_bind_ok (exec_getDefinition hd)] at h
    split at h
    · cases h
    · cases h
    · split at h <;> cases h
      rfl
    · cases h
      rfl

theorem startInstance_error {parent : Option Uuid}
    (h : exec (startInstance env key vars parent none allowSignalStart) e =
      (.error error, s)) : s = e := by
  have hstate := validateStartRequest_keeps_state key allowSignalStart e
  rw [after] at hstate
  rw [startInstance] at h
  rcases hvalid : exec (validateStartRequest key allowSignalStart) e with
    ⟨_ | ⟨d, start⟩, u⟩ <;> rw [hvalid] at hstate <;> obtain rfl : u = e := hstate
  · rw [exec_bind_error hvalid] at h
    exact (Prod.mk.inj h).2.symm
  · rw [exec_bind_ok hvalid] at h
    have hd := validateStartRequest_defined hvalid
    obtain ⟨token, t, ht, -⟩ := @setUpInstance_succeeds env { u with nextUuid := u.nextUuid + 1 }
      u.nextUuid key d start (d.variableDefaults.extend vars) parent hd
    have hnew : exec newUuid u = (.ok u.nextUuid, { u with nextUuid := u.nextUuid + 1 }) :=
      rfl
    dsimp only at h
    rw [exec_bind_ok hnew, exec_bind_ok ht] at h
    cases h

theorem startScopeListener_error {bpmnId : String}
    (h : exec (startScopeListener env i bpmnId vars) e = (.error error, s)) : s = e := by
  obtain ⟨found, hfound⟩ : ∃ found,
      exec (findLatestByBpmnId env bpmnId) e = (.ok found, e) := ⟨_, rfl⟩
  rw [startScopeListener, exec_bind_ok hfound] at h
  cases found with
  | none => exact (Prod.mk.inj h).2.symm
  | some =>
    cases hx : e.instances.find? i with
    | none =>
      rw [exec_bind_error (exec_getInstance_none hx)] at h
      exact (Prod.mk.inj h).2.symm
    | some =>
      rw [exec_bind_ok (exec_getInstance hx)] at h
      have hstart := Succeeds.exec_of_error h fun a u _ =>
        ⟨fun _ => True, trivial, .pure _⟩
      exact startInstance_error hstart

end Start

end Eng

/-! ## Timers that fail -/

/-- What a timer that fails has done before: `u` is the engine without the event waits of its
token. -/
inductive TimerFailure (e : Engine) (t : PendingTimer) (s : Engine) : Prop where
  /-- The timer belongs to an event subprocess, or its instance is gone. -/
  | unopened (hs : s = withoutEvents t.instanceId t.tokenId (e.removePending .timer t.id))
      (hwhy : e.Subscribed t.instanceId t.id ∨ e.instances.find? t.instanceId = none)
  /-- The instance was set to run, and what should go on was not found. -/
  | stopped {x : ProcessInstance} (hx : e.instances.find? t.instanceId = some x)
      (hunsubscribed : ¬e.Subscribed t.instanceId t.id)
      (hs : s = Engine.modifyInstance t.instanceId (fun x => { x with state := .running })
        (withoutEvents t.instanceId t.tokenId (e.removePending .timer t.id)))
      (hwhy : t.tokenId = 0 ∨ e.definitions.find? x.definitionKey = none ∨
        x.tokens.find? t.tokenId = none)
  /-- No flow leads on, and the token was taken or a copy of it was stored. -/
  | stranded {x y : ProcessInstance} {d : ProcessDefinition} {token : Token}
      (hx : e.instances.find? t.instanceId = some x)
      (hunsubscribed : ¬e.Subscribed t.instanceId t.id) (htoken : t.tokenId ≠ 0)
      (hd : e.definitions.find? x.definitionKey = some d)
      (hfound : x.tokens.find? t.tokenId = some token)
      (hy : s.instances.find? t.instanceId = some y)
      (hs : if isNonInterrupting d t.nodeId isBoundaryTimer then
          y.tokens.find? t.tokenId = some token ∧
          y.state = .parallelExecution
            (x.tokens.insert { token with id := e.nextUuid }).entries.length ∧
          ∀ q, s.Holds q ↔
            (withoutEvents t.instanceId t.tokenId (e.removePending .timer t.id)).Holds q
        else y.tokens.find? t.tokenId = none)

namespace Eng

variable {env : Env} {e s : Engine} {i tokenId : Uuid} {x : ProcessInstance} {token : Token}
  {d : ProcessDefinition} {error : EngineError} {t : PendingTimer}

theorem exec_cloneToken_none (hx : e.instances.find? i = some x)
    (ht : x.tokens.find? tokenId = none) (change : Token → Token) (forkId : Token → String) :
    exec (cloneToken i tokenId change forkId) e = (.error (tokenNotFound tokenId), e) := by
  rw [cloneToken, exec_bind_ok (exec_getInstance hx), ht]
  rfl

def TokenTaken (i tokenId : Uuid) (s : Engine) : Prop :=
  ∃ y, s.instances.find? i = some y ∧ y.tokens.find? tokenId = none

theorem TokenTaken.of_sameCore {u : Engine} (h : TokenTaken i tokenId s) (hcore : SameCore s u) :
    TokenTaken i tokenId u := by
  rw [TokenTaken, hcore.instances]
  exact h

theorem continueBehind_tokenTaken (d : ProcessDefinition) (node : String) (t : Token) :
    Keeps (TokenTaken i tokenId) (continueBehind env d i node t) := by
  refine .bind (resolveNextTarget_keeps _ _) fun next => .bind ?_ fun _ => .pure _
  refine .bind getInstance_keeps fun _ => .modify fun s h => ?_
  obtain ⟨y, hy, htoken⟩ := h
  refine ⟨{ y with currentNode := next }, ?_, htoken⟩
  rw [find?_modifyInstance_self, hy, Option.map_some]

/-- A token that waits at a boundary or catch event and is to be taken is gone for good. -/
theorem resumeTimer_taken {r : EngineResult (Next × Bool)}
    (hx : e.instances.find? t.instanceId = some x)
    (hd : e.definitions.find? x.definitionKey = some d)
    (hinterrupting : isNonInterrupting d t.nodeId isBoundaryTimer = false)
    (hfound : x.tokens.find? t.tokenId = some token) (h : exec (resumeTimer env t) e = (r, s)) :
    TokenTaken t.instanceId t.tokenId s := by
  rw [resumeTimer, exec_bind_ok (exec_definitionOf hx hd)] at h
  simp only [hinterrupting, Bool.not_false, eventToken, ↓reduceIte] at h
  rw [exec_bind_ok (exec_takeToken hx hfound)] at h
  have htaken : TokenTaken t.instanceId t.tokenId (e.modifyInstance t.instanceId fun y =>
      { y with tokens := y.tokens.erase t.tokenId }) := by
    refine ⟨{ x with tokens := x.tokens.erase t.tokenId }, ?_, Table.find?_erase_self _ _⟩
    rw [find?_modifyInstance_self, hx, Option.map_some]
  have hrest : Keeps (TokenTaken t.instanceId t.tokenId) (do
      cancelTasksAt t.instanceId t.tokenId token.currentNode .userTask
      dropServiceTasksAt t.instanceId t.tokenId token.currentNode
      return (← continueBehind env d t.instanceId t.nodeId token, true)) :=
    .bind (.modify fun s h => h.of_sameCore (sameCore_retainPending s _ _)) fun _ =>
      .bind (.modify fun _ h => h) fun _ => .bind (continueBehind_tokenTaken _ _ _) fun _ => .pure _
  exact hrest.of_exec htaken h

/-- A copy under another identifier does not displace the token; under its own it is the token. -/
theorem find?_insert_copy {tokens : Table Token.id} (hfound : tokens.find? tokenId = some token)
    (id : Uuid) : (tokens.insert { token with id := id }).find? tokenId = some token := by
  have hid : token.id = tokenId := Table.key_of_find? hfound
  by_cases heq : tokenId = id
  · subst heq
    have hsame : ({ token with id := tokenId } : Token) = token := by rw [← hid]
    rw [hsame, ← hid]
    exact Table.find?_insert_self _ _
  · have hne : tokenId ≠ Token.id { token with id := id } := heq
    rw [Table.find?_insert_of_ne hne]
    exact hfound

/-- The token of a timer is not sent on: its instance lacks a definition or the token, or no flow
leads on. -/
theorem resumeTimer_failure (hx : e.instances.find? t.instanceId = some x)
    (h : exec (resumeTimer env t) e = (.error error, s)) :
    (s = e ∧ (e.definitions.find? x.definitionKey = none ∨ x.tokens.find? t.tokenId = none)) ∨
    ∃ d token y, e.definitions.find? x.definitionKey = some d ∧
      x.tokens.find? t.tokenId = some token ∧ s.instances.find? t.instanceId = some y ∧
      if isNonInterrupting d t.nodeId isBoundaryTimer then
        y.tokens.find? t.tokenId = some token ∧
        y.state = (storeCopy { token with id := e.nextUuid } token.currentNode x).state ∧
        ∀ q, s.Holds q ↔ e.Holds q
      else y.tokens.find? t.tokenId = none := by
  cases hd : e.definitions.find? x.definitionKey with
  | none =>
    rw [resumeTimer, exec_bind_error (exec_definitionOf_none hx hd)] at h
    exact .inl ⟨(Prod.mk.inj h).2.symm, .inl rfl⟩
  | some d =>
    cases hnon : isNonInterrupting d t.nodeId isBoundaryTimer with
    | false =>
      cases hfound : x.tokens.find? t.tokenId with
      | none =>
        rw [resumeTimer, exec_bind_ok (exec_definitionOf hx hd)] at h
        simp only [hnon, Bool.not_false, eventToken, ↓reduceIte] at h
        rw [exec_bind_error (exec_takeToken_none hx hfound)] at h
        exact .inl ⟨(Prod.mk.inj h).2.symm, .inr rfl⟩
      | some token =>
        obtain ⟨y, hy, htaken⟩ := resumeTimer_taken hx hd hnon hfound h
        exact .inr ⟨d, token, y, rfl, rfl, hy, by simpa [hnon] using htaken⟩
    | true =>
      rw [resumeTimer, exec_bind_ok (exec_definitionOf hx hd)] at h
      simp only [hnon, Bool.not_true, Bool.false_eq_true, eventToken, ↓reduceIte] at h
      cases hfound : x.tokens.find? t.tokenId with
      | none =>
        rw [exec_bind_error (exec_cloneToken_none hx hfound _ _)] at h
        exact .inl ⟨(Prod.mk.inj h).2.symm, .inr rfl⟩
      | some token =>
        rw [exec_bind_ok (exec_cloneToken hx hfound _ _)] at h
        have hgo := Succeeds.exec_of_error h fun a u _ =>
          ⟨fun _ => True, trivial, .pure _⟩
        have hcopied : (Engine.modifyInstance t.instanceId
            (storeCopy { token with id := e.nextUuid } token.currentNode)
            { e with nextUuid := e.nextUuid + 1 }).instances.find? t.instanceId =
            some { storeCopy { token with id := e.nextUuid } token.currentNode x with
              id := x.id } := by
          rw [find?_modifyInstance_self]
          exact congrArg (Option.map _) hx
        obtain rfl := exec_goOn hcopied hgo
        refine .inr ⟨d, token, _, rfl, rfl, hcopied, ?_⟩
        rw [hnon, if_pos rfl]
        refine ⟨find?_insert_copy hfound _, rfl, fun q => ?_⟩
        rw [holds_modifyInstance]
        cases q <;> rfl

theorem processExpiredTimer_failure
    (h : exec (do removePending .timer t.id; processExpiredTimer env t) e =
      (.error error, s)) : TimerFailure e t s := by
  have hcore := sameCore_cleared e .timer t.id t.instanceId t.tokenId
  rw [exec_serveTimer] at h
  by_cases hsubscribed : e.Subscribed t.instanceId t.id
  · rw [if_pos (isSubscription_iff.mpr hsubscribed)] at h
    have hactivate := Succeeds.exec_of_error h fun a u _ =>
      ⟨fun _ => True, trivial, .pure _⟩
    exact .unopened (activateEventSubscription_error hactivate) (.inl hsubscribed)
  rw [if_neg (mt isSubscription_iff.mp hsubscribed)] at h
  cases hx : e.instances.find? t.instanceId with
  | none =>
    have hnone : (withoutEvents t.instanceId t.tokenId
        (e.removePending .timer t.id)).instances.find? t.instanceId = none := by
      rw [hcore.instances, hx]
    rw [exec_bind_error (exec_updateInstance_none hnone _)] at h
    exact .unopened (Prod.mk.inj h).2.symm (.inr hx)
  | some x =>
    have hfound : (withoutEvents t.instanceId t.tokenId
        (e.removePending .timer t.id)).instances.find? t.instanceId = some x := by
      rw [hcore.instances, hx]
    rw [exec_bind_ok (exec_updateInstance hfound _)] at h
    by_cases htoken : t.tokenId = 0
    · rw [if_pos htoken] at h
      have hstart := Succeeds.exec_of_error h fun a u _ =>
        ⟨fun _ => True, trivial, .pure _⟩
      exact .stopped hx hsubscribed (startScopeListener_error hstart) (.inl htoken)
    rw [if_neg htoken] at h
    have hrunning : (Engine.modifyInstance t.instanceId (fun x => { x with state := .running })
        (withoutEvents t.instanceId t.tokenId
          (e.removePending .timer t.id))).instances.find? t.instanceId =
        some { x with state := .running } := by
      rw [find?_modifyInstance_self, hfound, Option.map_some]
    have hdefinitions : (Engine.modifyInstance t.instanceId (fun x => { x with state := .running })
        (withoutEvents t.instanceId t.tokenId
          (e.removePending .timer t.id))).definitions = e.definitions := hcore.definitions
    rcases resumeTimer_failure hrunning h with ⟨hs, hwhy⟩ | ⟨d, token, y, hd, hwaits, hy, hs⟩
    · rw [hdefinitions] at hwhy
      exact .stopped hx hsubscribed hs (.inr hwhy)
    · rw [hdefinitions] at hd
      refine .stranded hx hsubscribed htoken hd hwaits hy ?_
      by_cases hnon : isNonInterrupting d t.nodeId isBoundaryTimer = true
      · rw [if_pos hnon] at hs ⊢
        obtain ⟨hkept, hstate, hholds⟩ := hs
        refine ⟨hkept, ?_, fun q => (hholds q).trans holds_modifyInstance⟩
        rw [← hcore.nextUuid]
        exact hstate
      · rw [if_neg hnon] at hs ⊢
        exact hs

end Eng

/-! ## Trying again -/

def Pending.giveBack (error : EngineError) : Pending → Eng Unit
  | .timer t => rescheduleFailedTimer t error
  | _ => pure ()

def Pending.FiledIn (s : Engine) : Pending → Prop
  | .timer t => ∃ expiresAt, s.Holds (.timer { t with expiresAt := expiresAt })
  | p => s.Holds p

/-- The instance of a wait is in the state it was in and has the token that waits. -/
def Engine.KeepsToken (e : Engine) (w : Wait) (s : Engine) : Prop :=
  ∀ x, e.instances.find? w.instanceId = some x →
    ∃ y, s.instances.find? w.instanceId = some y ∧ y.state = x.state ∧
      ∀ token, x.tokens.find? w.tokenId = some token → y.tokens.find? w.tokenId = some token

/-- Everything that the event of a wait needs is in place: the state of the instance, the token,
its task, its other waits and the wait itself. -/
structure Engine.Retryable (e : Engine) (p : Pending) (s : Engine) : Prop where
  found : e.KeepsToken p.wait s
  others : ∀ q, q.wait.instanceId = p.wait.instanceId → q.wait.tokenId = p.wait.tokenId →
    ¬(q.wait.kind = p.wait.kind ∧ q.wait.id = p.wait.id) → e.Holds q → s.Holds q
  filed : p.FiledIn s

/-- The state of the instance survives a timer that fails: nothing of it is looked at, or it runs
and nothing is found that could go on, or a copy of the token raises the count of a parallel
execution to what it was. -/
def Engine.StateSurvives (e : Engine) (t : PendingTimer) : Prop :=
  e.Subscribed t.instanceId t.id ∨ ∀ x, e.instances.find? t.instanceId = some x →
    if t.tokenId = 0 then x.state = .running
    else match e.definitions.find? x.definitionKey, x.tokens.find? t.tokenId with
      | some d, some token => isNonInterrupting d t.nodeId isBoundaryTimer = true ∧
          x.state = .parallelExecution
            (x.tokens.insert { token with id := e.nextUuid }).entries.length
      | _, _ => x.state = .running

namespace TimerFailure

variable {e s : Engine} {t : PendingTimer} {error : EngineError}

theorem after_reschedule (t : PendingTimer) (error : EngineError) (s : Engine) :
    ∃ expiresAt f, after (rescheduleFailedTimer t error) s =
      Engine.insertPending (.timer { t with expiresAt := expiresAt })
        (Engine.modifyInstance t.instanceId f { s with nextUuid := s.nextUuid + 1 }) ∧
      ∀ x, (f x).state = x.state ∧ (f x).tokens = x.tokens := by
  refine ⟨_, _, rfl, fun x => ?_⟩
  unfold ProcessInstance.pushOrTouchIncident
  dsimp only
  split <;> exact ⟨rfl, rfl⟩

theorem retryable_iff :
    e.Retryable (.timer t) (after (Pending.giveBack error (.timer t)) s) ↔ e.KeepsToken t.wait s ∧
      ∀ q, q.wait.instanceId = t.instanceId → q.wait.tokenId = t.tokenId →
        ¬(q.wait.kind = .timer ∧ q.wait.id = t.id) → e.Holds q → s.Holds q := by
  obtain ⟨expiresAt, f, hafter, hf⟩ := after_reschedule t error s
  rw [Pending.giveBack, hafter]
  have hfind : (Engine.insertPending (.timer { t with expiresAt := expiresAt })
      (Engine.modifyInstance t.instanceId f { s with nextUuid := s.nextUuid + 1 })).instances.find?
        t.instanceId = (s.instances.find? t.instanceId).map fun x => { f x with id := x.id } := by
    rw [instances_insertPending]
    exact find?_modifyInstance_self _ _ _
  have hholds (q : Pending) (hne : ¬(q.wait.kind = .timer ∧ q.wait.id = t.id)) :
      (Engine.insertPending (.timer { t with expiresAt := expiresAt })
        (Engine.modifyInstance t.instanceId f { s with nextUuid := s.nextUuid + 1 })).Holds q ↔
      s.Holds q := by
    have hq : q ≠ .timer { t with expiresAt := expiresAt } := by
      rintro rfl
      exact hne ⟨rfl, rfl⟩
    have hsame : ({ s with nextUuid := s.nextUuid + 1 } : Engine).Holds q ↔ s.Holds q := by
      cases q <;> rfl
    rw [holds_insertPending, holds_modifyInstance, hsame, or_iff_right hq]
    exact and_iff_left hne
  constructor
  · intro h
    refine ⟨fun x hx => ?_, fun q hi ht hne hq => (hholds q hne).mp (h.others q hi ht hne hq)⟩
    obtain ⟨y, hy, hstate, htoken⟩ := h.found x hx
    have hy' := hfind.symm.trans hy
    obtain ⟨z, hz, rfl⟩ := Option.map_eq_some_iff.mp hy'
    exact ⟨z, hz, (hf z).1.symm.trans hstate, fun token h => (hf z).2 ▸ htoken token h⟩
  · rintro ⟨hkept, hothers⟩
    refine ⟨fun x hx => ?_, fun q hi ht hne hq => (hholds q hne).mpr (hothers q hi ht hne hq),
      expiresAt, ?_⟩
    · obtain ⟨y, hy, hstate, htoken⟩ := hkept x hx
      refine ⟨{ f y with id := y.id }, ?_, (hf y).1.trans hstate, fun token h => ?_⟩
      · exact hfind.trans (congrArg (Option.map _) hy)
      · exact (congrArg (Table.find? · t.tokenId) (hf y).2).trans (htoken token h)
    · rw [holds_insertPending]
      exact .inl rfl

/-- A timer that has failed can be tried again exactly if it was the only event wait of its token
and the state of its instance survives. -/
theorem retryable_iff_survives (h : TimerFailure e t s) (ht : e.Holds (.timer t)) :
    e.Retryable (.timer t) (after (Pending.giveBack error (.timer t)) s) ↔
      (∀ w ∈ e.waits, w.IsEventOf t.instanceId t.tokenId → w = t.wait) ∧ e.StateSurvives t := by
  have hcore := sameCore_cleared e .timer t.id t.instanceId t.tokenId
  have hothers (hsame : ∀ q, s.Holds q ↔ (withoutEvents t.instanceId t.tokenId
      (e.removePending .timer t.id)).Holds q) :
      (∀ q, q.wait.instanceId = t.instanceId → q.wait.tokenId = t.tokenId →
        ¬(q.wait.kind = .timer ∧ q.wait.id = t.id) → e.Holds q → s.Holds q) ↔
      ∀ w ∈ e.waits, w.IsEventOf t.instanceId t.tokenId → w = t.wait := by
    simp only [hsame]
    exact others_kept_iff ht
  rw [retryable_iff]
  cases h with
  | unopened hs hwhy =>
    have hkeeps : e.KeepsToken t.wait s := by
      intro x hx
      rw [hs, hcore.instances]
      exact ⟨x, hx, rfl, fun _ h => h⟩
    have hsurvives : e.StateSurvives t := by
      refine hwhy.imp id fun hnone x hx => ?_
      rw [hnone] at hx
      cases hx
    rw [and_iff_right hkeeps, and_iff_left hsurvives]
    exact hothers fun q => by rw [hs]
  | @stopped x hx hunsubscribed hs hwhy =>
    have hy : s.instances.find? t.instanceId = some { x with state := .running } := by
      rw [hs, find?_modifyInstance_self, hcore.instances, hx, Option.map_some]
    have hkeeps : e.KeepsToken t.wait s ↔ x.state = .running := by
      constructor
      · intro h
        obtain ⟨y, hy', hstate, -⟩ := h x hx
        cases hy.symm.trans hy'
        exact hstate.symm
      · intro hrunning x' hx'
        cases hx.symm.trans hx'
        exact ⟨_, hy, hrunning.symm, fun _ h => h⟩
    have hsurvives : e.StateSurvives t ↔ x.state = .running := by
      rw [Engine.StateSurvives, or_iff_right hunsubscribed]
      simp only [hx, Option.some.injEq, forall_eq']
      split
      · rfl
      · rename_i htoken
        rcases hwhy.resolve_left htoken with hnone | hnone
        · rw [hnone]
        · rw [hnone]
          cases e.definitions.find? x.definitionKey <;> rfl
    rw [hkeeps, hsurvives, and_comm, hothers fun q => by rw [hs, holds_modifyInstance]]
  | @stranded x y d token hx hunsubscribed htoken hd hfound hy hs =>
    have hsurvives : e.StateSurvives t ↔ isNonInterrupting d t.nodeId isBoundaryTimer = true ∧
        x.state = .parallelExecution
          (x.tokens.insert { token with id := e.nextUuid }).entries.length := by
      rw [Engine.StateSurvives, or_iff_right hunsubscribed]
      simp only [hx, Option.some.injEq, forall_eq', if_neg htoken, hd, hfound]
    rw [hsurvives]
    by_cases hnon : isNonInterrupting d t.nodeId isBoundaryTimer = true
    · rw [if_pos hnon] at hs
      obtain ⟨hkept, hstate, hholds⟩ := hs
      have hkeeps : e.KeepsToken t.wait s ↔ x.state = .parallelExecution
          (x.tokens.insert { token with id := e.nextUuid }).entries.length := by
        constructor
        · intro h
          obtain ⟨y', hy', hsame, -⟩ := h x hx
          cases hy.symm.trans hy'
          exact hsame.symm.trans hstate
        · intro hparallel x' hx'
          cases hx.symm.trans hx'
          refine ⟨y, hy, hstate.trans hparallel.symm, fun token' h => ?_⟩
          cases hfound.symm.trans h
          exact hkept
      rw [hkeeps, and_iff_right hnon, and_comm, hothers hholds]
    · rw [if_neg hnon] at hs
      refine iff_of_false (fun h => ?_) fun h => hnon h.2.1
      obtain ⟨y', hy', -, htaken⟩ := h.1 x hx
      cases hy.symm.trans hy'
      cases hs.symm.trans (htaken token hfound)

end TimerFailure

/-! ## Messages and signals that fail -/

def Pending.Gone (p : Pending) (s : Engine) : Prop := ¬s.Holds p

namespace Eng

variable {env : Env} {e s : Engine} {p : Pending} {vars : Variables} {error : EngineError}

theorem gone_shrinks (p : Pending) : Shrinks p.Gone where
  draw _ h hheld := h (by cases p <;> exact hheld)
  write _ _ _ _ h hheld := h (holds_modifyInstance.mp hheld)
  retain _ _ _ h hheld := h (holds_retainPending.mp hheld).1
  forget _ _ h hheld := h (by
    cases p with
    | serviceTask => exact (Table.mem_retain.mp hheld).1
    | _ => exact hheld)

theorem gone_cleared (p : Pending) (e : Engine) :
    p.Gone (withoutEvents p.wait.instanceId p.wait.tokenId
      (e.removePending p.wait.kind p.wait.id)) := by
  intro h
  exact (holds_removePending.mp (holds_withoutEvents.mp h).1).2 ⟨rfl, rfl⟩

theorem deliverMessage_gone {c : PendingMessageCatch} (hc : e.Holds (.message c))
    (h : exec (deliverMessage env vars c.id) e = (.error error, s)) :
    Pending.Gone (.message c) s := by
  have hgone := gone_cleared (.message c) e
  rw [exec_deliverMessage hc] at h
  split at h
  · have hactivate := Succeeds.exec_of_error h fun a u _ =>
      ⟨fun _ => True, trivial, .pure _⟩
    rw [activateEventSubscription_error hactivate]
    exact hgone
  split at h
  · rw [startScopeListener_error h]
    exact hgone
  · exact (resumeMessageCatch_keeps (gone_shrinks _) c vars).of_exec hgone h

theorem deliverSignal_gone {c : PendingSignalCatch} (hc : e.Holds (.signal c))
    (h : exec (deliverSignal env vars c.id) e = (.error error, s)) :
    Pending.Gone (.signal c) s := by
  have hgone : Pending.Gone (.signal c) (e.removePending .signal c.id) :=
    fun hheld => (holds_removePending.mp hheld).2 ⟨rfl, rfl⟩
  rw [exec_deliverSignal hc] at h
  split at h
  · have hactivate := Succeeds.exec_of_error h fun a u _ =>
      ⟨fun _ => True, trivial, .pure _⟩
    rw [activateEventSubscription_error hactivate]
    exact hgone
  · exact (resumeSignalCatch_keeps (gone_shrinks _) c vars).of_exec hgone h

end Eng

/-! ## Which failures can be tried again -/

/-- The processing of a timer, a message or a signal that is waited for fails before its batch
starts. A later attempt finds everything in place exactly if the event is a timer, the timer was
the only event wait of its token, and the state of the instance survives. -/
theorem Pending.failed_fire_retryable_iff {env : Env} {e s : Engine} {p : Pending}
    {d : ProcessDefinition} {vars : Variables} {error : EngineError} (hp : e.Holds p)
    (hkind : p.wait.kind = .timer ∨ p.wait.kind = .message ∨ p.wait.kind = .signal)
    (hx : exec (p.fire env d vars) e = (.error error, s)) :
    e.Retryable p (after (p.giveBack error) s) ↔
      ∃ t, p = .timer t ∧ (∀ w ∈ e.waits, w.IsEventOf t.instanceId t.tokenId → w = t.wait) ∧
        e.StateSurvives t := by
  cases p with
  | timer =>
    rw [(processExpiredTimer_failure hx).retryable_iff_survives hp]
    simp
  | message =>
    have hfailed := Succeeds.exec_of_error hx fun a u _ =>
      ⟨fun _ => True, trivial, .pure _⟩
    exact iff_of_false (fun h => deliverMessage_gone hp hfailed h.filed) (by simp)
  | signal =>
    have hfailed := Succeeds.exec_of_error hx fun a u _ =>
      ⟨fun _ => True, trivial, .pure _⟩
    exact iff_of_false (fun h => deliverSignal_gone hp hfailed h.filed) (by simp)
  | userTask t | serviceTask t | conditional t =>
    simp [Pending.wait, PendingUserTask.wait, PendingServiceTask.wait,
      PendingConditionalCatch.wait] at hkind

/-! ## A decision without a flow, and a reminder without a handler -/

def application : ProcessDefinition := .ofGraph "application"
  [("start", .startEvent), ("decision", .messageCatchEvent "decided"), ("end", .endEvent)]
  [("start", [.simple "decision"]), ("decision", [.conditional "end" "granted"])]

def applicationRun : Option Config :=
  Config.performAll CompletionRequest.consentEnv 100 (Config.initial 0)
    [.deployDefinition application, .startInstance 1 ∅]

def awaitedDecision : PendingMessageCatch := ⟨5, 2, "decision", "decided", 4⟩

/-- The decision is not to grant. No flow leads on, and the application waits no longer. -/
theorem refused_decision_lost :
    ∃ c error s, Reaches (Config.step CompletionRequest.consentEnv) (fun _ _ => True)
        (Config.initial 0) c ∧
      c.engine.Holds (.message awaitedDecision) ∧
      exec (Pending.fire CompletionRequest.consentEnv application ∅
        (.message awaitedDecision)) c.engine = (.error error, s) ∧
      ¬c.engine.Retryable (.message awaitedDecision)
        (after (Pending.giveBack error (.message awaitedDecision)) s) := by
  have hrun : applicationRun.map (fun c => (c.engine.pendingMessageCatches.entries,
      (exec (deliverMessage CompletionRequest.consentEnv ∅ 5)
        c.engine).1.toOption.isNone)) = some ([awaitedDecision], true) := by
    decide +kernel
  obtain ⟨c, hreach, -, hfacts⟩ := Config.exists_of_performAll hrun
  obtain ⟨hcatches, hfails⟩ := Prod.mk.inj hfacts
  have hheld : c.engine.Holds (.message awaitedDecision) := by
    show _ ∈ c.engine.pendingMessageCatches.entries
    rw [hcatches]
    exact List.mem_singleton.mpr rfl
  rcases hx : exec (deliverMessage CompletionRequest.consentEnv ∅ 5) c.engine with
    ⟨error | next, s⟩
  · refine ⟨c, error, s, hreach, hheld, exec_bind_error hx, fun h => ?_⟩
    exact deliverMessage_gone hheld hx h.filed
  · rw [hx] at hfails
    cases hfails

def reminder : EventSubProcess :=
  ⟨"reminder", "remind", ["remind", "reminded"], .timer (.duration 60), false⟩

/-- A report that a clerk writes; a reminder is sent after a while. -/
def report : ProcessDefinition :=
  { ProcessDefinition.ofGraph "report"
      [("start", .startEvent), ("write", .userTask "clerk"), ("end", .endEvent),
        ("remind", .timerStartEvent (.duration 60)), ("reminded", .endEvent)]
      [("start", [.simple "write"]), ("write", [.simple "end"]),
        ("remind", [.simple "reminded"])] with
    eventSubprocesses := [reminder] }

/-- The instance is moved to a definition that has no reminder. -/
def reportRun : Option Config :=
  Config.performAll .plain 100 (Config.initial 0)
    [.deployDefinition report, .deployDefinition packing, .startInstance 1 ∅,
      .migrateInstance 3 2 (Map.ofList [("write", "pack")])]

def dueReminder : PendingTimer := ⟨6, 3, "remind", 60, 6, some (.duration 60), none⟩

/-- The handler of the reminder is not found; the timer is filed again and all else is there. -/
theorem reminder_filed_again :
    ∃ c error s, reportRun = some c ∧
      exec (Pending.fire .plain report ∅ (.timer dueReminder)) c.engine = (.error error, s) ∧
      c.engine.Retryable (.timer dueReminder)
        (after (Pending.giveBack error (.timer dueReminder)) s) := by
  have hrun : reportRun.map (fun c => (c.engine.pendingTimers.entries,
      c.engine.waits.filter (fun w => w.kind.awaitsEvent),
      (c.engine.instances.find? 3).map (·.eventSubscriptions.map (·.id)),
      (exec (Pending.fire .plain report ∅ (.timer dueReminder)) c.engine).1.toOption.isNone)) =
      some ([dueReminder], [dueReminder.wait], some [6], true) := by
    decide +kernel
  obtain ⟨c, hc, hfacts⟩ := Option.map_eq_some_iff.mp hrun
  simp only [Prod.mk.injEq, Option.map_eq_some_iff] at hfacts
  obtain ⟨htimers, hwaits, ⟨x, hx, hsubscriptions⟩, hfails⟩ := hfacts
  have hheld : c.engine.Holds (.timer dueReminder) := by
    show _ ∈ c.engine.pendingTimers.entries
    rw [htimers]
    exact List.mem_singleton.mpr rfl
  have hsubscribed : c.engine.Subscribed 3 6 := by
    obtain ⟨subscription, hmem, hid⟩ : ∃ s ∈ x.eventSubscriptions, s.id = 6 := by
      rw [← List.mem_map, hsubscriptions]
      exact List.mem_singleton_self 6
    exact ⟨x, hx, subscription, hmem, hid⟩
  rcases hexec : exec (Pending.fire .plain report ∅ (.timer dueReminder)) c.engine with
    ⟨error | next, s⟩
  · refine ⟨c, error, s, hc, hexec, ?_⟩
    refine (Pending.failed_fire_retryable_iff hheld (.inl rfl) hexec).mpr
      ⟨dueReminder, rfl, fun w hw hevent => ?_, .inl hsubscribed⟩
    have hmem : w ∈ c.engine.waits.filter fun w => w.kind.awaitsEvent :=
      List.mem_filter.mpr ⟨hw, hevent.1⟩
    rw [hwaits] at hmem
    exact List.mem_singleton.mp hmem
  · rw [hexec] at hfails
    cases hfails

end BpmnEngine
