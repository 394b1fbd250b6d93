import BpmnEngine.StepOutcomes
import BpmnEngine.StablePrograms

/-!
# How often a repeating timer fires

A timer of a token is taken out of its table when it fires, and a recurring one is filed
again under a new identifier after the batch of its handler has returned. A timer of an
event subprocess keeps its identifier: it is filed again, and its subscription counts
down, when the handler is activated. The firings of one host are counted here along the
runs of the machine, and what the host has still to come is compared with the number of
repetitions of its timer.

Only the event subprocesses look at whether the event interrupts. A token's timer that
interrupts its activity, and the timer of a catch event, are filed again as well.
-/
namespace BpmnEngine

open Program Engine

/-! ## Repetitions -/

/-- How often a timer with so many repetitions left fires; `none` means without bound. A pending
timer always fires once. -/
def TimerDefinition.firings (definition : TimerDefinition) (remaining : Option Nat) : Option Nat :=
  if definition.isRecurring then remaining.map (max 1) else some 1

def TimerDefinition.repetitions (definition : TimerDefinition) : Option Nat :=
  if definition.isRecurring then definition.initialRemainingRepetitions else some 1

def TimerDefinition.goesOn (definition : TimerDefinition) (remaining : Option Nat) : Bool :=
  definition.isRecurring && !(remaining == some 0 || remaining == some 1)

namespace TimerDefinition

variable {definition : TimerDefinition} {remaining : Option Nat}

end TimerDefinition

def PendingTimer.firings (t : PendingTimer) : Option Nat :=
  match t.timerDef with
  | some definition => definition.firings t.remainingRepetitions
  | none => some 1

def PendingTimer.countedDown (t : PendingTimer) : PendingTimer :=
  { t with remainingRepetitions := t.remainingRepetitions.map (· - 1) }

variable {t : PendingTimer}

/-- The subscription of an instance under an identifier, if it belongs to a non-interrupting event
subprocess that waits for a timer. -/
def Engine.timerSubscription (e : Engine) (instanceId subscriptionId : Uuid) :
    Option (EventSubscription × TimerDefinition) := do
  let i ← e.instances.find? instanceId
  let subscription ← i.eventSubscriptions.find? fun s => s.id == subscriptionId
  let d ← e.definitions.find? i.definitionKey
  let handler ← d.eventSubprocessById subscription.subprocessId
  match handler.isInterrupting, handler.trigger with
  | false, .timer definition => some (subscription, definition)
  | _, _ => none

variable {e : Engine} {p : EventSubscription × TimerDefinition}

/-- What a timer waits for: a token at a node, or an event subprocess that does not interrupt. -/
inductive TimerHost where
  | token (instanceId : Uuid) (node : String) (tokenId : Uuid)
  | scope (instanceId subscriptionId : Uuid)

namespace TimerHost

/-- The timer is filed under the name of the host. The token 0 stands for a scope listener. -/
def owns : TimerHost → PendingTimer → Bool
  | .token instanceId node tokenId, t =>
    t.instanceId == instanceId && t.nodeId == node && t.tokenId == tokenId && !(tokenId == 0)
  | .scope instanceId subscriptionId, t => t.instanceId == instanceId && t.id == subscriptionId

/-- The timer waits for the host. A timer under the identifier of a subscription waits for no
token. -/
def holds (host : TimerHost) (e : Engine) (t : PendingTimer) : Bool :=
  host.owns t && match host with
    | .token instanceId _ _ => !e.isSubscription instanceId t.id
    | .scope instanceId subscriptionId => (e.timerSubscription instanceId subscriptionId).isSome

def pending (host : TimerHost) (e : Engine) : List PendingTimer :=
  e.pendingTimers.entries.filter (host.holds e)

/-- How often a pending timer of the host is going to fire. A subscription counts for itself. -/
def firings (host : TimerHost) (e : Engine) (t : PendingTimer) : Option Nat :=
  match host with
  | .token .. => t.firings
  | .scope instanceId subscriptionId =>
    match e.timerSubscription instanceId subscriptionId with
    | some (subscription, definition) => definition.firings subscription.remaining
    | none => some 1

end TimerHost

def PendingTimer.hasNext (env : Env) (now : Time) (t : PendingTimer) : Bool :=
  t.timerDef.all fun definition => (definition.nextExpiry env now).isSome

namespace Config

variable {env : Env} {host : TimerHost} {c c' : Config} {t : PendingTimer}
  {result : EngineResult Unit} {move : Move}

end Config

/-! ## A timer of a token fires -/

namespace Eng

variable {env : Env} {i tokenId : Uuid} {timer : PendingTimer}

def Unarmed (i tokenId : Uuid) (e : Engine) : Prop :=
  ∀ t ∈ e.pendingTimers, ¬(t.instanceId = i ∧ t.tokenId = tokenId)

theorem unarmed_shrinks : Shrinks (Unarmed i tokenId) where
  draw _ h := h
  write _ _ _ _ h := h
  retain e kind q h t ht :=
    have hheld : (e.retainPending kind q).Holds (.timer t) := ht
    h t (holds_retainPending.mp hheld).1
  forget _ _ h := h

theorem mem_timers_cleared {e : Engine} {t : PendingTimer} :
    t ∈ (withoutEvents timer.instanceId timer.tokenId
      (e.removePending .timer timer.id)).pendingTimers ↔
      t ∈ e.pendingTimers ∧ t.id ≠ timer.id ∧
        ¬(t.instanceId = timer.instanceId ∧ t.tokenId = timer.tokenId) := by
  by_cases hid : t.id = timer.id <;>
    simp [withoutEvents, Engine.retainPending, Engine.removePending, PendingTimer.wait,
      imp_iff_not_or, hid]

/-- Serving a timer of a token leaves no timer of the token, and asks for it to be armed again. -/
theorem exec_serveTokenTimer {e e' : Engine} {a : Next × Bool} (htoken : timer.tokenId ≠ 0)
    (hsub : e.isSubscription timer.instanceId timer.id = false)
    (hx : exec (do removePending .timer timer.id; processExpiredTimer env timer) e = (.ok a, e')) :
    Unarmed timer.instanceId timer.tokenId e' ∧ a.2 = true := by
  have hunarmed : Unarmed timer.instanceId timer.tokenId (withoutEvents timer.instanceId
      timer.tokenId (e.removePending .timer timer.id)) := fun t ht => (mem_timers_cleared.mp ht).2.2
  rw [exec_serveTimer, hsub, if_neg Bool.false_ne_true] at hx
  obtain ⟨_, v, hrunning, hx⟩ := exec_bind_eq_ok hx
  have hv : Unarmed timer.instanceId timer.tokenId v := by
    refine Keeps.of_exec ?_ hunarmed hrunning
    exact updateInstance_calm unarmed_shrinks.toCalm fun _ => ⟨rfl, rfl⟩
  rw [if_neg htoken] at hx
  constructor
  · exact (resumeTimer_keeps unarmed_shrinks timer).of_exec hv hx
  · have hyields : Yields (resumeTimer env timer) fun a => a.2 = true := by
      unfold resumeTimer
      refine .after fun d => .after fun token => ?_
      split
      · exact .after fun _ => .after fun _ => .after fun _ => .pure rfl
      · exact .after fun _ => .pure rfl
    exact hyields v e' a hx

end Eng

/-! ## What a firing does to the firings to come -/

namespace Config

variable {env : Env} {host : TimerHost} {c c' : Config} {t : PendingTimer} {move : Move}
  {stated : Option Nat} {fired : Nat}

end Config

/-! ## A timer of a token is filed again -/

def PendingTimer.successor (t : PendingTimer) (id : Uuid) (expiresAt : Time) : PendingTimer :=
  { t.countedDown with id := id, expiresAt := expiresAt }

theorem Eng.exec_rearmTimer_recurs {env : Env} (hrecurs : t.recurs = true)
    (hnext : t.hasNext env e.clock = true) : ∃ expiresAt, exec (rearmTimer env t) e =
      (.ok (), Engine.insertPending (.timer (t.successor e.nextUuid expiresAt))
        { e with nextUuid := e.nextUuid + 1 }) := by
  cases hdef : t.timerDef with
  | none => simp [PendingTimer.recurs, hdef] at hrecurs
  | some definition =>
    obtain ⟨expiresAt, hexpires⟩ : ∃ expiresAt, definition.nextExpiry env e.clock =
        some expiresAt := by
      simpa [PendingTimer.hasNext, hdef, Option.isSome_iff_exists] using hnext
    refine ⟨expiresAt, ?_⟩
    have hgoes : (definition.isRecurring &&
        !(t.remainingRepetitions == some 0 || t.remainingRepetitions == some 1)) = true := by
      simpa [PendingTimer.recurs, hdef] using hrecurs
    unfold rearmTimer
    rw [hdef]
    dsimp only
    rw [if_pos hgoes, exec_bind_ok (exec_now e), hexpires]
    have hsuccessor : t.successor e.nextUuid expiresAt = ⟨e.nextUuid, t.instanceId, t.nodeId,
        expiresAt, t.tokenId, some definition, t.remainingRepetitions.map (· - 1)⟩ := by
      simp [PendingTimer.successor, PendingTimer.countedDown, hdef]
    rw [hsuccessor]
    rfl

namespace Config

variable {env : Env} {host : TimerHost} {c c' : Config} {t : PendingTimer} {move : Move}

end Config

/-! ## A timer of an event subprocess fires -/

namespace Eng

variable {env : Env} {handler : EventSubProcess} {subscription : EventSubscription}
  {subscriptions : List EventSubscription} {definition : TimerDefinition} {e : Engine}

end Eng

namespace Config

variable {env : Env} {host : TimerHost} {c c' : Config} {t : PendingTimer} {move : Move}
  {stated : Option Nat} {fired : Nat} {s s' : Config × Nat}

end Config

/-! ## Runs -/

namespace TimerHost

/-- A task with a reminder that is to fire twice, and that may end the task. -/
def reminder (interrupting : Bool) : ProcessDefinition := .ofGraph "reminder"
  [("start", .startEvent), ("work", .userTask "work"),
    ("remind", .boundaryTimerEvent "work" (.repeatingInterval (some 2) 10) interrupting),
    ("notify", .userTask "notify"), ("end", .endEvent)]
  [("start", [.simple "work"]), ("work", [.simple "end"]), ("remind", [.simple "notify"]),
    ("notify", [.simple "end"])]

end TimerHost

end BpmnEngine
