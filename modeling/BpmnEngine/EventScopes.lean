import BpmnEngine.Gateways

/-!
# Event subprocesses

The process is the scope of its event subprocesses. Starting an instance opens one
subscription per event subprocess, and a timer, message or signal subscription also
waits in the table of its kind, under its own identifier instead of a token's. An
interrupting handler replaces everything that runs in the scope; a non-interrupting
one runs beside it. Ending the instance closes the scope.
-/
namespace BpmnEngine

/-- The wait that was taken out of its table to activate a handler. -/
inductive EventConsumption where
  | timer (pending : PendingTimer)
  | message (pending : PendingMessageCatch)
  | signal (pending : PendingSignalCatch)
  | code

namespace EventConsumption

def id : EventConsumption → Uuid
  | .timer t => t.id
  | .message c => c.id
  | .signal c => c.id
  | .code => 0

def pending? : EventConsumption → Option Pending
  | .timer t => some (.timer t)
  | .message c => some (.message c)
  | .signal c => some (.signal c)
  | .code => none

end EventConsumption

inductive ScopeActivation where
  | interrupting (token : Token)
  | parallel (token : Token)

def ScopeActivation.token : ScopeActivation → Token
  | .interrupting token | .parallel token => token

structure TimerReschedule where
  expiresAt : Time
  remaining : Option Nat
  timer : TimerDefinition

/-- When a non-interrupting timer subscription fires again: not after its last repetition. -/
def rescheduleTimer (env : Env) (handler : EventSubProcess) (subscription : EventSubscription)
    (now : Time) : Option TimerReschedule :=
  match handler.isInterrupting, handler.trigger with
  | false, .timer timer =>
    if timer.isRecurring && !(subscription.remaining == some 0 || subscription.remaining == some 1)
    then
      (timer.nextExpiry env now).map fun expiresAt =>
        ⟨expiresAt, subscription.remaining.map (· - 1), timer⟩
    else none
  | _, _ => none

namespace Eng

variable (env : Env)

/-! ## Opening and closing -/

/-- The subscription of one event subprocess and the wait that goes with it. A timer that has no
future expiry is not subscribed. -/
def subscriptionFor (instanceId : Uuid) (now : Time) (handler : EventSubProcess) (id : Uuid) :
    Option (EventSubscription × Option Pending) :=
  match handler.trigger with
  | .timer timer =>
    (timer.nextExpiry env now).map fun expiresAt =>
      let remaining := timer.initialRemainingRepetitions
      (⟨id, handler.id, some expiresAt, remaining⟩,
        some (.timer ⟨id, instanceId, handler.startNode, expiresAt, id, some timer, remaining⟩))
  | .message name =>
    some (⟨id, handler.id, none, none⟩,
      some (.message ⟨id, instanceId, handler.startNode, name, id⟩))
  | .signal name =>
    some (⟨id, handler.id, none, none⟩,
      some (.signal ⟨id, instanceId, handler.startNode, name, id⟩))
  | .error _ | .escalation _ => some (⟨id, handler.id, none, none⟩, none)

def openEventScope (instanceId : Uuid) : Eng Unit := do
  let i ← getInstance instanceId
  if i.eventScope || !i.eventSubscriptions.isEmpty then
    return
  let d ← getDefinition i.definitionKey
  if d.eventSubprocesses.isEmpty then
    return
  let clock ← now
  let opened ← d.eventSubprocesses.mapM fun handler => do
    let id ← newUuid
    return subscriptionFor env instanceId clock handler id
  let opened := opened.filterMap fun x => x
  modifyInstance instanceId fun i =>
    { i with eventScope := true, eventSubscriptions := opened.map Prod.fst }
  (opened.filterMap Prod.snd).forM insertPending

def closeEventScope (instanceId : Uuid) : Eng Unit := do
  match ← findInstance instanceId with
  | none => pure ()
  | some i =>
    if i.eventSubscriptions.isEmpty then
      return
    modifyInstance instanceId fun i =>
      { i with eventScope := false, eventSubscriptions := [], eventHandlerTokens := ∅ }
    (i.eventSubscriptions.map (·.id)).forM fun id => do
      removePending .timer id
      removePending .message id
      removePending .signal id

def eventHandlerForToken (instanceId tokenId : Uuid) : Eng (Option String) := do
  match ← findInstance instanceId with
  | none => return none
  | some i => return i.eventHandlerTokens.get? tokenId

def isEventSubscription (instanceId id : Uuid) : Eng Bool := do
  match ← findInstance instanceId with
  | none => return false
  | some i => return i.eventSubscriptions.any fun subscription => subscription.id == id

/-! ## Activating a handler -/

/-- Ends an instance whose caller was interrupted, and the instances it called. The fuel bounds
the depth of the call tree. -/
def abortInterruptedInstance : Nat → Uuid → Eng Unit
  | 0, _ => pure ()
  | fuel + 1, instanceId => do
    match ← findInstance instanceId with
    | none => pure ()
    | some i =>
      if i.state.isTerminal then
        return
      let clock ← now
      modifyInstance instanceId fun i =>
        { i.clearScope with
          state := .completedWithError "SCOPE_INTERRUPTED"
          completedAt := some clock }
      cancelScopeWaits instanceId
      i.outstandingCalls.keys.forM (abortInterruptedInstance fuel)

/-- Puts back the wait of a subscription that stays open. -/
def retainConsumption (consumption : EventConsumption) (subscription : EventSubscription)
    (reschedule : Option TimerReschedule) : Eng Unit :=
  match consumption, reschedule with
  | .message c, _ => insertPending (.message c)
  | .signal c, _ => insertPending (.signal c)
  | .timer timer, some next =>
    insertPending (.timer ⟨timer.id, timer.instanceId, timer.nodeId, next.expiresAt,
      subscription.id, some next.timer, next.remaining⟩)
  | _, _ => pure ()

/-- What becomes of the open subscriptions when a non-interrupting handler starts. -/
def keepSubscriptions (handler : EventSubProcess) (subscription : EventSubscription)
    (reschedule : Option TimerReschedule) (subscriptions : List EventSubscription) :
    List EventSubscription :=
  match reschedule, handler.trigger with
  | some next, _ =>
    match subscriptions.findIdx? fun current => current.id == subscription.id with
    | some index => subscriptions.modify index fun current =>
      { current with nextDue := some next.expiresAt, remaining := next.remaining }
    | none => subscriptions
  | none, .timer _ => subscriptions.filter fun current => !(current.id == subscription.id)
  | none, _ => subscriptions

theorem keepSubscriptions_ids {handler : EventSubProcess} {subscription : EventSubscription}
    {reschedule : Option TimerReschedule} {subscriptions : List EventSubscription}
    {s : EventSubscription}
    (hs : s ∈ keepSubscriptions handler subscription reschedule subscriptions) :
    ∃ s' ∈ subscriptions, s'.id = s.id := by
  unfold keepSubscriptions at hs
  split at hs
  · split at hs
    · obtain ⟨k, hk⟩ := List.mem_iff_getElem?.mp hs
      rw [List.getElem?_modify] at hk
      obtain ⟨s', hs', rfl⟩ := Option.map_eq_some_iff.mp hk
      refine ⟨s', List.mem_of_getElem? hs', ?_⟩
      split <;> rfl
    · exact ⟨s, hs, rfl⟩
  · exact ⟨s, (List.mem_filter.mp hs).1, rfl⟩
  · exact ⟨s, hs, rfl⟩

/-- The instance after its handler token was created. -/
def startHandler (handler : EventSubProcess) (subscription : EventSubscription)
    (reschedule : Option TimerReschedule) (vars : Variables) (token : Token)
    (i : ProcessInstance) : ProcessInstance :=
  let scope := if handler.isInterrupting then i.clearScope else
    { i with eventSubscriptions :=
        keepSubscriptions handler subscription reschedule i.eventSubscriptions }
  let tokens := scope.tokens.insert token
  { scope with
    vars := vars
    eventHandlerTokens := scope.eventHandlerTokens.set token.id handler.id
    tokens := tokens
    activeTokens := scope.activeTokens ++
      [⟨token, some handler.id, scope.activeTokens.length, false⟩]
    currentNode := handler.startNode
    state :=
      if handler.isInterrupting then .running
      else if !scope.state.isParallel || 1 < tokens.entries.length then
        .parallelExecution tokens.entries.length
      else scope.state }

def activateHandler (instanceId : Uuid) (handler : EventSubProcess)
    (subscription : EventSubscription) (vars : Variables) (consumption : EventConsumption) :
    Eng (Option ScopeActivation) := do
  let clock ← now
  let reschedule := rescheduleTimer env handler subscription clock
  let i ← getInstance instanceId
  if i.state.isSuspended || i.state.isTerminal then
    return none
  if !i.eventSubscriptions.any fun current => current.id == subscription.id then
    return none
  let merged := i.vars.extend vars
  let token ← newToken handler.startNode merged
  modifyInstance instanceId (startHandler handler subscription reschedule merged token)
  if handler.isInterrupting then
    cancelScopeWaits instanceId
    let fuel := (← get).instances.entries.length + 1
    i.outstandingCalls.keys.forM (abortInterruptedInstance fuel)
    return some (.interrupting token)
  else
    retainConsumption consumption subscription reschedule
    return some (.parallel token)

/-- Starts the handler of a timer, message or signal subscription. The caller has already taken
the wait out of its table; a suspended instance gets it back. -/
def activateEventSubscription (instanceId : Uuid) (consumption : EventConsumption)
    (vars : Variables) : Eng (Option ScopeActivation) := do
  let i ← getInstance instanceId
  if i.state.isSuspended then
    consumption.pending?.toList.forM insertPending
    return none
  if i.state.isTerminal then
    return none
  match i.eventSubscriptions.find? fun subscription => subscription.id == consumption.id with
  | none => return none
  | some subscription =>
    let d ← getDefinition i.definitionKey
    match d.eventSubprocessById subscription.subprocessId with
    | none =>
      let missing := subscription.subprocessId
      throw (.invalidDefinition s!"Event subscription refers to missing subprocess '{missing}'")
    | some handler => activateHandler env instanceId handler subscription vars consumption

/-- The code a handler waits for: `none` if it is not a handler of this sort, `some none` if it
catches every code. -/
def expectedCode (handler : EventSubProcess) (escalation : Bool) : Option (Option String) :=
  match handler.trigger, escalation with
  | .error expected, false => some expected
  | .escalation expected, true => some expected
  | _, _ => none

/-- A handler for the code is better than one for every code; ties go to the smaller name. -/
def betterHandler (a b : Bool × EventSubscription × EventSubProcess) : Bool :=
  (!a.1 && b.1) || (a.1 == b.1 && decide (a.2.2.id < b.2.2.id))

def codeCandidates (d : ProcessDefinition) (subscriptions : List EventSubscription)
    (code : String) (escalation : Bool) (exclude : Option String) :
    List (Bool × EventSubscription × EventSubProcess) :=
  subscriptions.filterMap fun subscription => do
    if exclude == some subscription.subprocessId then none
    let handler ← d.eventSubprocessById subscription.subprocessId
    let expected ← expectedCode handler escalation
    if expected.all (· == code) then some (expected.isNone, subscription, handler) else none

def bestCandidate (candidates : List (Bool × EventSubscription × EventSubProcess)) :
    Option (Bool × EventSubscription × EventSubProcess) :=
  candidates.foldl
    (fun best c =>
      match best with
      | none => some c
      | some b => if betterHandler c b then some c else some b)
    none

/-- Starts the handler of an error or escalation that was thrown in the scope. -/
def tryActivateEventCode (instanceId : Uuid) (code : String) (escalation : Bool)
    (vars : Variables) (exclude : Option String) : Eng (Option ScopeActivation) := do
  let i ← getInstance instanceId
  if i.state.isSuspended || i.state.isTerminal then
    return none
  let d ← getDefinition i.definitionKey
  match bestCandidate (codeCandidates d i.eventSubscriptions code escalation exclude) with
  | none => return none
  | some (_, subscription, handler) =>
    activateHandler env instanceId handler subscription vars .code

end Eng

end BpmnEngine
