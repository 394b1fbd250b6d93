import BpmnEngine.StablePrograms
import BpmnEngine.Machine

/-!
# Starting the engine from its stored records

A server loads the stored records into a new engine and then reconciles the event
subprocesses of the loaded instances before it serves its first request. Reconciling
files the missing waits of the subscriptions, drops the waits of tokens that the
instance does not know, and runs the tokens that wait for nothing. The batches of these
tokens are ordinary batches of the machine; a batch that fails ends the start.
-/
namespace BpmnEngine

/-- The records of a storage. Identifiers that are drawn later differ from those of the records. -/
structure Records where
  definitions : Table ProcessDefinition.key
  instances : Table ProcessInstance.id
  userTasks : Table PendingUserTask.taskId
  serviceTasks : Table PendingServiceTask.id
  timers : Table PendingTimer.id
  messageCatches : Table PendingMessageCatch.id
  signalCatches : Table PendingSignalCatch.id
  conditionalCatches : Table PendingConditionalCatch.id
  nextUuid : Uuid
  drawn : ∀ t ∈ serviceTasks, t.id < nextUuid

def Records.waits (r : Records) : List Pending :=
  r.userTasks.entries.map .userTask ++ r.serviceTasks.entries.map .serviceTask ++
    r.timers.entries.map .timer ++ r.messageCatches.entries.map .message ++
    r.signalCatches.entries.map .signal ++ r.conditionalCatches.entries.map .conditional

/-- A new engine into which the records of a storage were loaded. -/
def Engine.restore (r : Records) (clock : Time) : Engine :=
  r.waits.foldl (fun e p => e.insertPending p)
    { Engine.new clock with
      definitions := r.definitions
      instances := r.instances
      nextUuid := r.nextUuid }

namespace ProcessInstance

/-- The tokens that wait inside the instance, for a call or at a join. -/
def heldTokenIds (i : ProcessInstance) : List Uuid :=
  i.outstandingCalls.entries.map (fun call => call.2.token.id) ++
    i.joinBarriers.entries.flatMap fun barrier => barrier.2.arrivedTokens.map Token.id

def knownTokenIds (i : ProcessInstance) : List Uuid :=
  i.tokens.entries.map Token.id ++ i.heldTokenIds

end ProcessInstance

namespace Eng

variable (env : Env)

/-! ## Reconciling an instance -/

/-- The wait of a subscription whose wait is missing. -/
def missingWait (e : Engine) (instanceId : Uuid) (handler : EventSubProcess)
    (subscription : EventSubscription) : Option Pending :=
  match handler.trigger with
  | .timer timer =>
    if e.pendingTimers.contains subscription.id then none
    else subscription.nextDue.map fun expiresAt =>
      .timer ⟨subscription.id, instanceId, handler.startNode, expiresAt, subscription.id,
        some timer, subscription.remaining⟩
  | .message name =>
    if e.pendingMessageCatches.contains subscription.id then none
    else some (.message ⟨subscription.id, instanceId, handler.startNode, name, subscription.id⟩)
  | .signal name =>
    if e.pendingSignalCatches.contains subscription.id then none
    else some (.signal ⟨subscription.id, instanceId, handler.startNode, name, subscription.id⟩)
  | .error _ | .escalation _ => none

def restoreMissingSubscriptions (instanceId : Uuid) (snapshot : ProcessInstance) : Eng Unit := do
  if snapshot.eventSubscriptions.isEmpty then return
  let d ← getDefinition snapshot.definitionKey
  snapshot.eventSubscriptions.forM fun subscription => do
    match d.eventSubprocessById subscription.subprocessId with
    | none =>
      let missing := subscription.subprocessId
      throw (.invalidDefinition s!"Missing persisted event subprocess '{missing}'")
    | some handler =>
      let e ← get
      (missingWait e instanceId handler subscription).toList.forM insertPending

/-- Drops the waits whose token the instance does not know. The waits of subscriptions have no
token and stay. -/
def dropOrphanWaits (instanceId : Uuid) (snapshot : ProcessInstance) : Eng Unit := do
  let orphan (w : Wait) : Bool :=
    w.instanceId == instanceId && !snapshot.knownTokenIds.contains w.tokenId
  let subscribed (w : Wait) : Bool := snapshot.eventSubscriptions.any fun s => s.id == w.id
  [WaitKind.userTask, .serviceTask].forM fun kind => retainPending kind fun w => !orphan w
  [WaitKind.timer, .message, .signal].forM fun kind =>
    retainPending kind fun w => !(orphan w && !subscribed w)
  retainPending .conditional fun w => !orphan w

/-- Whether a token waits for something: in a table or inside its instance. -/
def isParked (e : Engine) (i : ProcessInstance) (instanceId tokenId : Uuid) : Bool :=
  (e.waits.any fun w => w.instanceId == instanceId && w.tokenId == tokenId) ||
    i.heldTokenIds.contains tokenId

/-- Reconciles an instance up to the batches of its tokens; returns the tokens to run. -/
def reconcileInstance (instanceId : Uuid) : Eng (List Token) := do
  match ← findInstance instanceId with
  | none => return []
  | some snapshot =>
    let hasScope := snapshot.eventScope || !snapshot.eventSubscriptions.isEmpty
    if snapshot.state.isTerminal then
      if hasScope then
        closeEventScope instanceId
        dropOrphanWaits instanceId snapshot
      return []
    if snapshot.state.isSuspended then
      return []
    restoreMissingSubscriptions instanceId snapshot
    if !hasScope then
      return []
    dropOrphanWaits instanceId snapshot
    let e ← get
    return (env.visit e.nextUuid snapshot.tokens.entries).filter fun token =>
      !isParked e snapshot instanceId token.id

/-- An earlier batch may have ended the instance or moved the token. -/
def stillUnparked (e : Engine) (instanceId tokenId : Uuid) : Bool :=
  match e.instances.find? instanceId with
  | none => false
  | some i =>
    i.tokens.contains tokenId && !isParked e i instanceId tokenId && !i.state.isTerminal

end Eng

/-! ## The start of a server -/

/-- What the reconciliation still has to look at. -/
inductive Reconciliation where
  | examine (instanceId : Uuid)
  | rerun (instanceId : Uuid) (token : Token)

/-- A server serves requests when its reconciliation is over, and never if that failed. -/
inductive Phase where
  | reconciling (work : List Reconciliation)
  | serving
  | failed

structure Server where
  config : Config
  phase : Phase

inductive ServerMove where
  | reconcile
  | move (move : Move)

namespace Server

variable (env : Env)

/-- A server that has loaded the records of a storage. -/
def boot (r : Records) (clock : Time) : Server where
  config := .idle (Engine.restore r clock)
  phase := .reconciling ((env.visit r.nextUuid r.instances.entries).map fun i => .examine i.id)

/-- Takes up the next part of the work. -/
def reconcile (c : Config) : List Reconciliation → Server
  | [] => ⟨c, .serving⟩
  | .examine instanceId :: rest =>
    match Program.exec (Eng.reconcileInstance env instanceId) c.engine with
    | (.ok tokens, e) =>
      ⟨{ c with engine := e }, .reconciling (tokens.map (.rerun instanceId) ++ rest)⟩
    | (.error _, e) => ⟨{ c with engine := e }, .failed⟩
  | .rerun instanceId token :: rest =>
    if Eng.stillUnparked c.engine instanceId token.id then
      ⟨c.run ⟨instanceId, [token], 0⟩, .reconciling rest⟩
    else ⟨c, .reconciling rest⟩

def reconcileStep (s : Server) : Option Server :=
  match s.phase, s.config.control, s.config.reply with
  | .reconciling _, .idle, .result (.error _) => some ⟨s.config, .failed⟩
  | .reconciling work, .idle, _ => some (reconcile env s.config work)
  | _, _, _ => none

def step (s : Server) : ServerMove → Option Server
  | .reconcile => reconcileStep env s
  | .move .internal => (s.config.step env .internal).map fun c => ⟨c, s.phase⟩
  | .move (.op op) =>
    match s.phase with
    | .serving => (s.config.step env (.op op)).map fun c => ⟨c, .serving⟩
    | _ => none

end Server

/-! ## Stable properties -/

namespace Eng

open Program (Keeps)

variable {env : Env} {P : Engine → Prop} {i : Uuid}

theorem missingWait_kind {e : Engine} {handler : EventSubProcess}
    {subscription : EventSubscription} {p : Pending}
    (h : missingWait e i handler subscription = some p) : p.wait.kind ≠ .serviceTask := by
  unfold missingWait at h
  split at h
  · obtain ⟨_, h⟩ := Option.ite_none_left_eq_some.mp h
    obtain ⟨_, _, rfl⟩ := Option.map_eq_some_iff.mp h
    exact nofun
  · obtain ⟨_, h⟩ := Option.ite_none_left_eq_some.mp h
    cases h
    exact nofun
  · obtain ⟨_, h⟩ := Option.ite_none_left_eq_some.mp h
    cases h
    exact nofun
  · cases h
  · cases h

theorem restoreMissingSubscriptions_keeps (hP : Stable P) (snapshot : ProcessInstance) :
    Keeps P (restoreMissingSubscriptions i snapshot) := by
  refine .ite (fun _ => .pure _) fun _ => .bind (getDefinition_keeps _) fun d =>
    .forM fun subscription _ => ?_
  split
  · exact .throw _
  · exact .bind .get fun e => .forM fun p hp =>
      insertPending_keeps hP (missingWait_kind (Option.mem_toList.mp hp))

theorem dropOrphanWaits_keeps (hP : Stable P) (snapshot : ProcessInstance) :
    Keeps P (dropOrphanWaits i snapshot) :=
  .bind (.forM fun _ _ => retainPending_keeps hP.shrinks _ _) fun _ =>
    .bind (.forM fun _ _ => retainPending_keeps hP.shrinks _ _) fun _ => retainPending_keeps
      hP.shrinks _ _

theorem reconcileInstance_keeps (hP : Stable P) : Keeps P (reconcileInstance env i) := by
  refine .bind findInstance_keeps fun _ => ?_
  split
  · exact .pure _
  · refine .ite (fun _ => .ite (fun _ => ?_) fun _ => .pure _) fun _ => .ite (fun _ => .pure _)
      fun _ => .bind (restoreMissingSubscriptions_keeps hP _) fun _ => .ite (fun _ => .pure _)
        fun _ => .bind (dropOrphanWaits_keeps hP _) fun _ => .bind .get fun _ => .pure _
    exact .bind (closeEventScope_keeps hP.shrinks) fun _ => .bind (dropOrphanWaits_keeps hP _)
      fun _ =>
      .pure _

end Eng

end BpmnEngine
