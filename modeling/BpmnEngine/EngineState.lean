import BpmnEngine.Instances
import BpmnEngine.StatefulPrograms

/-!
# The state of the engine

The engine keeps its definitions, its instances and six tables of pending waits. The
service tasks and the timers each have a second index beside their table. Every wait
has an identifier, an owning instance, a node and the token it names; `Wait` is this
common part, and the tables are changed through operations that are uniform in the
kind of wait.

Identifiers are drawn from a counter, so an identifier is never drawn twice. The clock
is part of the state and is read by the code wherever it asks for the current time.
Persistence, events, metrics and the audit log are left out.
-/
namespace BpmnEngine

open Program

inductive WaitKind where
  | userTask
  | serviceTask
  | timer
  | message
  | signal
  | conditional
  deriving DecidableEq, Repr

/-- What all pending waits have in common. -/
structure Wait where
  kind : WaitKind
  id : Uuid
  instanceId : Uuid
  nodeId : String
  tokenId : Uuid
  deriving DecidableEq, Repr

/-- An entry of one of the six tables of pending waits. -/
inductive Pending where
  | userTask (entry : PendingUserTask)
  | serviceTask (entry : PendingServiceTask)
  | timer (entry : PendingTimer)
  | message (entry : PendingMessageCatch)
  | signal (entry : PendingSignalCatch)
  | conditional (entry : PendingConditionalCatch)
  deriving DecidableEq

def PendingUserTask.wait (t : PendingUserTask) : Wait :=
  ⟨.userTask, t.taskId, t.instanceId, t.nodeId, t.tokenId⟩

def PendingServiceTask.wait (t : PendingServiceTask) : Wait :=
  ⟨.serviceTask, t.id, t.instanceId, t.nodeId, t.tokenId⟩

def PendingTimer.wait (t : PendingTimer) : Wait :=
  ⟨.timer, t.id, t.instanceId, t.nodeId, t.tokenId⟩

def PendingMessageCatch.wait (t : PendingMessageCatch) : Wait :=
  ⟨.message, t.id, t.instanceId, t.nodeId, t.tokenId⟩

def PendingSignalCatch.wait (t : PendingSignalCatch) : Wait :=
  ⟨.signal, t.id, t.instanceId, t.nodeId, t.tokenId⟩

def PendingConditionalCatch.wait (t : PendingConditionalCatch) : Wait :=
  ⟨.conditional, t.id, t.instanceId, t.nodeId, t.tokenId⟩

def Pending.wait : Pending → Wait
  | .userTask t => t.wait
  | .serviceTask t => t.wait
  | .timer t => t.wait
  | .message t => t.wait
  | .signal t => t.wait
  | .conditional t => t.wait

def EventAlternative.pending : EventAlternative → Pending
  | .timer p => .timer p
  | .message p => .message p
  | .signal p => .signal p

/-- The engine. The topic index holds pairs of a topic and a service task, the due index
pairs of an instant and a timer in increasing order. -/
structure Engine where
  definitions : Table ProcessDefinition.key
  instances : Table ProcessInstance.id
  pendingUserTasks : Table PendingUserTask.taskId
  pendingServiceTasks : Table PendingServiceTask.id
  serviceTaskTopicIndex : List (String × Uuid)
  taskHandlers : List String
  inProcessInflight : List Uuid
  pendingTimers : Table PendingTimer.id
  timerDueIndex : List (Time × Uuid)
  pendingMessageCatches : Table PendingMessageCatch.id
  pendingSignalCatches : Table PendingSignalCatch.id
  pendingConditionalCatches : Table PendingConditionalCatch.id
  nextUuid : Uuid
  clock : Time

namespace Engine

variable {e : Engine} {p : Pending} {w : Wait} {kind : WaitKind} {q : Wait → Bool}

def new (clock : Time) : Engine where
  definitions := ∅
  instances := ∅
  pendingUserTasks := ∅
  pendingServiceTasks := ∅
  serviceTaskTopicIndex := []
  taskHandlers := []
  inProcessInflight := []
  pendingTimers := ∅
  timerDueIndex := []
  pendingMessageCatches := ∅
  pendingSignalCatches := ∅
  pendingConditionalCatches := ∅
  nextUuid := 1
  clock := clock

def waits (e : Engine) : List Wait :=
  e.pendingUserTasks.entries.map PendingUserTask.wait ++
    e.pendingServiceTasks.entries.map PendingServiceTask.wait ++
    e.pendingTimers.entries.map PendingTimer.wait ++
    e.pendingMessageCatches.entries.map PendingMessageCatch.wait ++
    e.pendingSignalCatches.entries.map PendingSignalCatch.wait ++
    e.pendingConditionalCatches.entries.map PendingConditionalCatch.wait

/-! ## The two indexes -/

/-- Files a timer in the due index, before the first later entry. -/
def insertDue (entry : Time × Uuid) : List (Time × Uuid) → List (Time × Uuid)
  | [] => [entry]
  | other :: rest =>
    if entry = other then other :: rest
    else if entry.1 < other.1 ∨ entry.1 = other.1 ∧ entry.2 < other.2 then
      entry :: other :: rest
    else other :: insertDue entry rest

def insertTopic (entry : String × Uuid) (index : List (String × Uuid)) : List (String × Uuid) :=
  if entry ∈ index then index else index ++ [entry]

/-! ## Changing the pending waits -/

/-- Files a wait in the table of its kind, and in the index of that table. -/
def insertPending (p : Pending) (e : Engine) : Engine :=
  match p with
  | .userTask t => { e with pendingUserTasks := e.pendingUserTasks.insert t }
  | .serviceTask t =>
    { e with
      pendingServiceTasks := e.pendingServiceTasks.insert t
      serviceTaskTopicIndex := insertTopic (t.topic, t.id) e.serviceTaskTopicIndex }
  | .timer t =>
    { e with
      pendingTimers := e.pendingTimers.insert t
      timerDueIndex := insertDue (t.expiresAt, t.id) e.timerDueIndex }
  | .message t => { e with pendingMessageCatches := e.pendingMessageCatches.insert t }
  | .signal t => { e with pendingSignalCatches := e.pendingSignalCatches.insert t }
  | .conditional t =>
    { e with pendingConditionalCatches := e.pendingConditionalCatches.insert t }

/-- Keeps the waits of one kind that satisfy `q`. What is dropped from a table is also
dropped from its index, under the topic or the instant it has in the table. -/
def retainPending (kind : WaitKind) (q : Wait → Bool) (e : Engine) : Engine :=
  match kind with
  | .userTask => { e with pendingUserTasks := e.pendingUserTasks.retain fun t => q t.wait }
  | .serviceTask =>
    let dropped := (e.pendingServiceTasks.retain fun t => !q t.wait).entries.map
      fun t => (t.topic, t.id)
    { e with
      pendingServiceTasks := e.pendingServiceTasks.retain fun t => q t.wait
      serviceTaskTopicIndex := e.serviceTaskTopicIndex.filter fun x => !decide (x ∈ dropped) }
  | .timer =>
    let dropped := (e.pendingTimers.retain fun t => !q t.wait).entries.map
      fun t => (t.expiresAt, t.id)
    { e with
      pendingTimers := e.pendingTimers.retain fun t => q t.wait
      timerDueIndex := e.timerDueIndex.filter fun x => !decide (x ∈ dropped) }
  | .message =>
    { e with pendingMessageCatches := e.pendingMessageCatches.retain fun t => q t.wait }
  | .signal =>
    { e with pendingSignalCatches := e.pendingSignalCatches.retain fun t => q t.wait }
  | .conditional =>
    { e with pendingConditionalCatches := e.pendingConditionalCatches.retain fun t => q t.wait }

def removePending (kind : WaitKind) (id : Uuid) (e : Engine) : Engine :=
  e.retainPending kind fun w => !decide (w.id = id)

/-! ## What the changes do to the waits -/

theorem mem_waits :
    w ∈ e.waits ↔
      (∃ t ∈ e.pendingUserTasks, t.wait = w) ∨ (∃ t ∈ e.pendingServiceTasks, t.wait = w) ∨
      (∃ t ∈ e.pendingTimers, t.wait = w) ∨ (∃ t ∈ e.pendingMessageCatches, t.wait = w) ∨
      (∃ t ∈ e.pendingSignalCatches, t.wait = w) ∨
      (∃ t ∈ e.pendingConditionalCatches, t.wait = w) := by
  simp only [waits, List.mem_append, List.mem_map, Table.mem_def, or_assoc]

/-- The entry of a pending wait is in the table of its kind. -/
def Holds (e : Engine) : Pending → Prop
  | .userTask t => t ∈ e.pendingUserTasks
  | .serviceTask t => t ∈ e.pendingServiceTasks
  | .timer t => t ∈ e.pendingTimers
  | .message t => t ∈ e.pendingMessageCatches
  | .signal t => t ∈ e.pendingSignalCatches
  | .conditional t => t ∈ e.pendingConditionalCatches

theorem Holds.mem_waits (h : e.Holds p) : p.wait ∈ e.waits := by
  rw [Engine.mem_waits]
  cases p with
  | userTask t => exact .inl ⟨t, h, rfl⟩
  | serviceTask t => exact .inr (.inl ⟨t, h, rfl⟩)
  | timer t => exact .inr (.inr (.inl ⟨t, h, rfl⟩))
  | message t => exact .inr (.inr (.inr (.inl ⟨t, h, rfl⟩)))
  | signal t => exact .inr (.inr (.inr (.inr (.inl ⟨t, h, rfl⟩))))
  | conditional t => exact .inr (.inr (.inr (.inr (.inr ⟨t, h, rfl⟩))))

theorem exists_holds (h : w ∈ e.waits) : ∃ p, e.Holds p ∧ p.wait = w := by
  rw [mem_waits] at h
  rcases h with ⟨t, ht, rfl⟩ | ⟨t, ht, rfl⟩ | ⟨t, ht, rfl⟩ | ⟨t, ht, rfl⟩ | ⟨t, ht, rfl⟩ |
    ⟨t, ht, rfl⟩
  · exact ⟨.userTask t, ht, rfl⟩
  · exact ⟨.serviceTask t, ht, rfl⟩
  · exact ⟨.timer t, ht, rfl⟩
  · exact ⟨.message t, ht, rfl⟩
  · exact ⟨.signal t, ht, rfl⟩
  · exact ⟨.conditional t, ht, rfl⟩

theorem Holds.eq_of_wait {q : Pending} (hp : e.Holds p) (hq : e.Holds q)
    (hkind : p.wait.kind = q.wait.kind) (hid : p.wait.id = q.wait.id) : p = q := by
  cases p <;> cases q <;> first
    | exact congrArg _ (Table.eq_of_key_eq hp hq hid)
    | cases hkind

theorem wait_unique {v : Wait} (hv : v ∈ e.waits) (hw : w ∈ e.waits) (hkind : v.kind = w.kind)
    (hid : v.id = w.id) : v = w := by
  obtain ⟨p, hp, rfl⟩ := exists_holds hv
  obtain ⟨q, hq, rfl⟩ := exists_holds hw
  rw [hp.eq_of_wait hq hkind hid]

theorem mem_waits_iff : w ∈ e.waits ↔ ∃ p, e.Holds p ∧ p.wait = w := by
  constructor
  · exact exists_holds
  · rintro ⟨p, hp, rfl⟩
    exact hp.mem_waits

/-- Rewrites an instance in place. The identifier of an instance never changes. -/
def modifyInstance (id : Uuid) (f : ProcessInstance → ProcessInstance) (e : Engine) : Engine :=
  { e with instances := e.instances.modify id fun i => { f i with id := i.id } }

/-! ## What the changes do to the tables -/

theorem holds_insertPending {q : Pending} :
    (e.insertPending p).Holds q ↔
      q = p ∨ e.Holds q ∧ ¬(q.wait.kind = p.wait.kind ∧ q.wait.id = p.wait.id) := by
  cases p <;> cases q <;>
    simp [insertPending, Holds, Pending.wait, PendingUserTask.wait, PendingServiceTask.wait,
      PendingTimer.wait, PendingMessageCatch.wait, PendingSignalCatch.wait,
      PendingConditionalCatch.wait, and_comm]

theorem holds_retainPending :
    (e.retainPending kind q).Holds p ↔ e.Holds p ∧ (p.wait.kind = kind → q p.wait = true) := by
  cases kind <;> cases p <;>
    simp [retainPending, Holds, Pending.wait, PendingUserTask.wait, PendingServiceTask.wait,
      PendingTimer.wait, PendingMessageCatch.wait, PendingSignalCatch.wait,
      PendingConditionalCatch.wait]

theorem holds_removePending {id : Uuid} :
    (e.removePending kind id).Holds p ↔ e.Holds p ∧ ¬(p.wait.kind = kind ∧ p.wait.id = id) := by
  rw [removePending, holds_retainPending]
  simp

theorem holds_modifyInstance {i : Uuid} {f : ProcessInstance → ProcessInstance} :
    (e.modifyInstance i f).Holds p ↔ e.Holds p := by
  cases p <;> rfl

theorem mem_waits_insertPending :
    w ∈ (e.insertPending p).waits ↔
      w = p.wait ∨ w ∈ e.waits ∧ ¬(w.kind = p.wait.kind ∧ w.id = p.wait.id) := by
  simp only [mem_waits_iff, holds_insertPending]
  constructor
  · rintro ⟨q, rfl | ⟨hq, hother⟩, rfl⟩
    · exact .inl rfl
    · exact .inr ⟨⟨q, hq, rfl⟩, hother⟩
  · rintro (rfl | ⟨⟨q, hq, rfl⟩, hother⟩)
    · exact ⟨p, .inl rfl, rfl⟩
    · exact ⟨q, .inr ⟨hq, hother⟩, rfl⟩

theorem mem_waits_retainPending :
    w ∈ (e.retainPending kind q).waits ↔ w ∈ e.waits ∧ (w.kind = kind → q w = true) := by
  simp only [mem_waits_iff, holds_retainPending]
  constructor
  · rintro ⟨p, ⟨hp, hq⟩, rfl⟩
    exact ⟨⟨p, hp, rfl⟩, hq⟩
  · rintro ⟨⟨p, hp, rfl⟩, hq⟩
    exact ⟨p, ⟨hp, hq⟩, rfl⟩

end Engine

/-! ## Programs over the engine -/

/-- Engine programs: a failing operation keeps what it wrote before it failed. -/
abbrev Eng := Program Engine EngineError

namespace Eng

/-- Draws an identifier that was never drawn before. -/
def newUuid : Eng Uuid := do
  let e ← get
  set { e with nextUuid := e.nextUuid + 1 }
  return e.nextUuid

def now : Eng Time := return (← get).clock

def findInstance (id : Uuid) : Eng (Option ProcessInstance) := return (← get).instances.find? id

def getInstance (id : Uuid) : Eng ProcessInstance := do
  match (← get).instances.find? id with
  | some i => return i
  | none => throw (.noSuchInstance id)

def modifyInstance (id : Uuid) (f : ProcessInstance → ProcessInstance) : Eng Unit :=
  modify (Engine.modifyInstance id f)

def insertInstance (i : ProcessInstance) : Eng Unit :=
  modify fun e => { e with instances := e.instances.insert i }

def updateInstance (id : Uuid) (f : ProcessInstance → ProcessInstance) : Eng Unit := do
  let _ ← getInstance id
  modifyInstance id f

def findDefinition (key : Uuid) : Eng (Option ProcessDefinition) :=
  return (← get).definitions.find? key

def getDefinition (key : Uuid) : Eng ProcessDefinition := do
  match (← get).definitions.find? key with
  | some d => return d
  | none => throw (.noSuchDefinition key)

def definitionOf (instanceId : Uuid) : Eng ProcessDefinition := do
  let i ← getInstance instanceId
  getDefinition i.definitionKey

def newToken (node : String) (vars : Variables) : Eng Token :=
  return Token.withVariables (← newUuid) node vars

def insertPending (p : Pending) : Eng Unit := modify (Engine.insertPending p)

def retainPending (kind : WaitKind) (q : Wait → Bool) : Eng Unit :=
  modify (Engine.retainPending kind q)

def removePending (kind : WaitKind) (id : Uuid) : Eng Unit :=
  modify (Engine.removePending kind id)

/-! ## How the primitive programs execute -/

section Exec

variable (e : Engine) (i : Uuid) {x : ProcessInstance} {d : ProcessDefinition} {s : Engine}
  {key : Uuid}

@[simp] theorem exec_newUuid :
    exec newUuid e = (.ok e.nextUuid, { e with nextUuid := e.nextUuid + 1 }) := rfl

@[simp] theorem exec_now : exec now e = (.ok e.clock, e) := rfl

@[simp] theorem exec_findInstance : exec (findInstance i) e = (.ok (e.instances.find? i), e) := rfl

@[simp] theorem exec_findDefinition (key : Uuid) :
    exec (findDefinition key) e = (.ok (e.definitions.find? key), e) := rfl

@[simp] theorem exec_modifyInstance (f : ProcessInstance → ProcessInstance) :
    exec (modifyInstance i f) e = (.ok (), e.modifyInstance i f) := rfl

@[simp] theorem exec_insertInstance (x : ProcessInstance) :
    exec (insertInstance x) e = (.ok (), { e with instances := e.instances.insert x }) := rfl

@[simp] theorem exec_insertPending (p : Pending) :
    exec (insertPending p) e = (.ok (), e.insertPending p) := rfl

@[simp] theorem exec_retainPending (kind : WaitKind) (q : Wait → Bool) :
    exec (retainPending kind q) e = (.ok (), e.retainPending kind q) := rfl

@[simp] theorem exec_removePending (kind : WaitKind) (id : Uuid) :
    exec (removePending kind id) e = (.ok (), e.removePending kind id) := rfl

variable {e i}

theorem exec_getInstance (h : e.instances.find? i = some x) :
    exec (getInstance i) e = (.ok x, e) := by
  rw [getInstance, exec_bind_ok (exec_get e), h]
  rfl

theorem exec_getInstance_none (h : e.instances.find? i = none) :
    exec (getInstance i) e = (.error (.noSuchInstance i), e) := by
  rw [getInstance, exec_bind_ok (exec_get e), h]
  rfl

theorem exec_getInstance_eq_ok (h : exec (getInstance i) e = (.ok x, s)) :
    e.instances.find? i = some x ∧ s = e := by
  cases hfound : e.instances.find? i with
  | none =>
    rw [exec_getInstance_none hfound] at h
    cases h
  | some =>
    rw [exec_getInstance hfound] at h
    cases h
    exact ⟨rfl, rfl⟩

theorem exec_getDefinition (h : e.definitions.find? key = some d) :
    exec (getDefinition key) e = (.ok d, e) := by
  rw [getDefinition, exec_bind_ok (exec_get e), h]
  rfl

theorem exec_getDefinition_none (h : e.definitions.find? key = none) :
    exec (getDefinition key) e = (.error (.noSuchDefinition key), e) := by
  rw [getDefinition, exec_bind_ok (exec_get e), h]
  rfl

theorem exec_definitionOf (hx : e.instances.find? i = some x)
    (hd : e.definitions.find? x.definitionKey = some d) : exec (definitionOf i) e = (.ok d, e) := by
  rw [definitionOf, exec_bind_ok (exec_getInstance hx), exec_getDefinition hd]

theorem exec_definitionOf_eq_ok (h : exec (definitionOf i) e = (.ok d, s)) :
    ∃ x, e.instances.find? i = some x ∧ e.definitions.find? x.definitionKey = some d ∧ s = e := by
  obtain ⟨x, u, hx, hd⟩ := exec_bind_eq_ok h
  obtain ⟨hfound, rfl⟩ := exec_getInstance_eq_ok hx
  cases hkey : u.definitions.find? x.definitionKey with
  | none =>
    rw [exec_getDefinition_none hkey] at hd
    cases hd
  | some =>
    rw [exec_getDefinition hkey] at hd
    cases hd
    exact ⟨x, hfound, hkey, rfl⟩

theorem exec_updateInstance (hx : e.instances.find? i = some x)
    (f : ProcessInstance → ProcessInstance) :
    exec (updateInstance i f) e = (.ok (), e.modifyInstance i f) := by
  rw [updateInstance, exec_bind_ok (exec_getInstance hx), exec_modifyInstance]

theorem exec_updateInstance_none (h : e.instances.find? i = none)
    (f : ProcessInstance → ProcessInstance) :
    exec (updateInstance i f) e = (.error (.noSuchInstance i), e) := by
  rw [updateInstance, exec_bind_error (exec_getInstance_none h)]

end Exec

/-! ## Cancelling waits -/

def boundaryNodes (d : ProcessDefinition) (activity : String) (sort : BpmnElement → Bool) :
    List String :=
  (d.nodes.entries.filter fun node =>
    sort node.2 && node.2.attachedTo? == some activity).map Prod.fst

def isBoundaryTimer : BpmnElement → Bool
  | .boundaryTimerEvent .. => true
  | _ => false

def isBoundaryMessage : BpmnElement → Bool
  | .boundaryMessageEvent .. => true
  | _ => false

def isBoundarySignal : BpmnElement → Bool
  | .boundarySignalEvent .. => true
  | _ => false

def isBoundaryConditional : BpmnElement → Bool
  | .boundaryConditionalEvent .. => true
  | _ => false

/-- Drops an instance's waits of one kind at boundary events of one activity. All tokens in
the activity lose them, not only the one that leaves it. -/
def cancelBoundary (kind : WaitKind) (sort : BpmnElement → Bool) (instanceId : Uuid)
    (activity : String) : Eng Unit := do
  match ← findInstance instanceId with
  | none => pure ()
  | some i =>
    let bound := match ← findDefinition i.definitionKey with
      | some d => boundaryNodes d activity sort
      | none => []
    retainPending kind fun w => !(w.instanceId == instanceId && bound.contains w.nodeId)

def cancelBoundaryTimers (instanceId : Uuid) (activity : String) : Eng Unit :=
  cancelBoundary .timer isBoundaryTimer instanceId activity

def cancelBoundaryWaits (instanceId : Uuid) (activity : String) : Eng Unit := do
  cancelBoundary .message isBoundaryMessage instanceId activity
  cancelBoundary .signal isBoundarySignal instanceId activity
  cancelBoundary .conditional isBoundaryConditional instanceId activity

/-- Drops the event waits of a token. Its user and service tasks stay. -/
def clearWaitStatesForToken (instanceId tokenId : Uuid) : Eng Unit :=
  [WaitKind.timer, .message, .signal, .conditional].forM fun kind =>
    retainPending kind fun w => !(w.instanceId == instanceId && w.tokenId == tokenId)

def cancelScopeWaits (instanceId : Uuid) : Eng Unit :=
  [WaitKind.userTask, .serviceTask, .timer, .message, .signal, .conditional].forM fun kind =>
    retainPending kind fun w => !(w.instanceId == instanceId)

end Eng

end BpmnEngine
