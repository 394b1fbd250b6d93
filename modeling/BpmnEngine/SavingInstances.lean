import BpmnEngine.GuardedRuns
import Mathlib.Data.List.Basic

/-!
# Saving one instance from many places

Every operation that has changed an instance persists it: it looks the instance up,
waits for the lock stripe of the instance, takes a snapshot and writes it, up to three
times. A write that keeps failing is left to a background worker as a job, which takes
the same lock and reads the instance again. A deletion takes the instance out of the
map and then removes the stored record; it does not take the lock.

The state below is that of one instance. Callers that have not taken the lock differ in
nothing but how far they are and are only counted; whoever holds the lock is in a field
of its own, so two holders cannot be written down. Instances on the same stripe only
show as foreign holders. A change of the instance gives it a new version.
-/
namespace BpmnEngine

def inlineRetries : Nat := 2

def maxRetries : Nat := 50

/-- The contents of an instance at one moment. -/
structure Versioned (α : Type) where
  version : Nat
  value : α
  deriving DecidableEq

namespace Versioned

variable {α : Type}

def change (f : α → α) (x : Versioned α) : Versioned α := ⟨x.version + 1, f x.value⟩

end Versioned

/-- Who holds the lock stripe of the instance. -/
inductive LockHolder (α : Type) where
  | foreign
  | call
  | callSaving (snapshot : Versioned α) (attempt : Nat)
  | worker (attempt : Nat)
  | workerSaving (snapshot : Versioned α) (attempt : Nat)
  deriving DecidableEq

/-- The background worker: without a job of the instance, waiting for the lock with one, holding
the lock, about to note that it has given a job up, or stopped. -/
inductive RetryWorker where
  | idle
  | waiting (attempt : Nat)
  | holding
  | exhausted
  | stopped
  deriving DecidableEq

/-- How far a deletion of the instance is. -/
inductive Deletion where
  | none
  | removed
  | deleted
  | failed
  deriving DecidableEq

/-- One instance in memory and in the store. Calls are `called` before they have looked the
instance up and `fetched` while they wait for the lock. The snapshots that were committed are kept,
the latest first; `lost` says that some call or job was given up. -/
structure SavedInstance (α : Type) where
  memory : Versioned α
  listed : Bool
  called : Nat
  fetched : Nat
  holder : Option (LockHolder α)
  queued : Nat
  worker : RetryWorker
  draining : Bool
  record : Option (Versioned α)
  commits : List (Versioned α)
  lost : Bool
  deletion : Deletion
  deriving DecidableEq

/-- What the persistence layer does to the contents of an instance: trimming the audit log before a
snapshot, refusing what is too large, and noting a job that was given up. -/
structure SavePolicy (α : Type) where
  trim : α → α
  tooLarge : α → Bool
  noteExhausted : α → α

/-- The atomic steps of all parties. -/
inductive SaveEvent (α : Type) where
  | write (f : α → α)
  | callPersist
  | fetch
  | lockForeign
  | unlockForeign
  | lockCall
  | snapshot
  | callSaved
  | callFailed (room : Bool)
  | takeJob
  | lockWorker
  | readJob
  | jobSaved
  | jobFailed
  | noteExhausted
  | shutdown
  | drainTimeout (committed : Bool)
  | dropJob
  | stopWorker
  | removeInstance
  | deleteRecord (ok : Bool)

namespace SavedInstance

variable {α : Type} {policy : SavePolicy α} {a : SaveEvent α} {x : Versioned α} {f : α → α}
  {s t : SavedInstance α}

def initial (value : α) : SavedInstance α where
  memory := ⟨0, value⟩
  listed := true
  called := 1
  fetched := 0
  holder := none
  queued := 0
  worker := .idle
  draining := false
  record := none
  commits := []
  lost := false
  deletion := .none

def commit (s : SavedInstance α) (snapshot : Versioned α) : SavedInstance α :=
  { s with record := some snapshot, commits := snapshot :: s.commits, holder := none }

/-- The snapshot of a call. Too large a payload is not saved. -/
def takeSnapshot (policy : SavePolicy α) (s : SavedInstance α) : SavedInstance α :=
  let trimmed := s.memory.change policy.trim
  if policy.tooLarge trimmed.value then
    { s with memory := trimmed, holder := none, lost := true }
  else { s with memory := trimmed, holder := some (.callSaving trimmed 0) }

/-- A write of a call has failed: the same snapshot is tried again, or a job is left behind. The
queue may be full or closed. -/
def failCall (s : SavedInstance α) (snapshot : Versioned α) (attempt : Nat) (room : Bool) :
    SavedInstance α :=
  if attempt < inlineRetries then { s with holder := some (.callSaving snapshot (attempt + 1)) }
  else if room && s.worker ≠ .stopped then { s with holder := none, queued := s.queued + 1 }
  else { s with holder := none, lost := true }

/-- A write of the worker has failed: the job is tried again later, or it is given up. -/
def failJob (s : SavedInstance α) (attempt : Nat) : SavedInstance α :=
  if s.draining then { s with holder := none, worker := .idle, lost := true }
  else if attempt < maxRetries then { s with holder := none, worker := .waiting (attempt + 1) }
  else { s with holder := none, worker := .exhausted, lost := true }

/-- The time for draining the queue is up while a job runs. -/
def timeOut (s : SavedInstance α) (committed : Bool) : Option (SavedInstance α) :=
  match s.worker, s.holder with
  | .waiting _, _ => some { s with worker := .idle, lost := true }
  | .holding, some (.worker _) => some { s with worker := .idle, holder := none, lost := true }
  | .holding, some (.workerSaving snapshot _) =>
    let s := if committed then s.commit snapshot else s
    some { s with worker := .idle, holder := none, lost := true }
  | _, _ => none

def step (policy : SavePolicy α) (s : SavedInstance α) : SaveEvent α → Option (SavedInstance α)
  | .write f => some { s with memory := s.memory.change f, called := s.called + 1 }
  | .callPersist => some { s with called := s.called + 1 }
  | .fetch =>
    if s.called = 0 then none
    else if s.listed then some { s with called := s.called - 1, fetched := s.fetched + 1 }
    else some { s with called := s.called - 1 }
  | .lockForeign => if s.holder.isNone then some { s with holder := some .foreign } else none
  | .unlockForeign =>
    match s.holder with
    | some .foreign => some { s with holder := none }
    | _ => none
  | .lockCall =>
    if s.holder.isNone ∧ s.fetched ≠ 0 then
      some { s with holder := some .call, fetched := s.fetched - 1 }
    else none
  | .snapshot =>
    match s.holder with
    | some .call => some (s.takeSnapshot policy)
    | _ => none
  | .callSaved =>
    match s.holder with
    | some (.callSaving snapshot _) => some (s.commit snapshot)
    | _ => none
  | .callFailed room =>
    match s.holder with
    | some (.callSaving snapshot attempt) => some (s.failCall snapshot attempt room)
    | _ => none
  | .takeJob =>
    if s.worker = .idle ∧ s.queued ≠ 0 then
      some { s with worker := .waiting 1, queued := s.queued - 1 }
    else none
  | .lockWorker =>
    match s.worker, s.holder with
    | .waiting attempt, none =>
      some { s with worker := .holding, holder := some (.worker attempt) }
    | _, _ => none
  | .readJob =>
    match s.holder with
    | some (.worker attempt) =>
      if s.listed then some { s with holder := some (.workerSaving s.memory attempt) }
      else some { s with holder := none, worker := .idle }
    | _ => none
  | .jobSaved =>
    match s.holder with
    | some (.workerSaving snapshot _) => some { s.commit snapshot with worker := .idle }
    | _ => none
  | .jobFailed =>
    match s.holder with
    | some (.workerSaving _ attempt) => some (s.failJob attempt)
    | _ => none
  | .noteExhausted =>
    if s.worker = .exhausted then
      if s.listed then
        some { s with worker := .idle, memory := s.memory.change policy.noteExhausted }
      else some { s with worker := .idle }
    else none
  | .shutdown => if s.worker = .idle then some { s with draining := true } else none
  | .drainTimeout committed => if s.draining then s.timeOut committed else none
  | .dropJob =>
    if s.draining ∧ s.worker = .idle ∧ s.queued ≠ 0 then
      some { s with queued := s.queued - 1, lost := true }
    else none
  | .stopWorker =>
    if s.draining ∧ s.worker = .idle ∧ s.queued = 0 then some { s with worker := .stopped }
    else none
  | .removeInstance =>
    if s.listed then some { s with listed := false, deletion := .removed } else none
  | .deleteRecord ok =>
    if s.deletion = .removed then
      if ok then some { s with record := none, deletion := .deleted }
      else some { s with deletion := .failed }
    else none

/-! ## The order of the commits -/

/-- The snapshot that the holder of the lock is writing. -/
def snapshot? (s : SavedInstance α) : Option (Versioned α) :=
  match s.holder with
  | some (.callSaving snapshot _) => some snapshot
  | some (.workerSaving snapshot _) => some snapshot
  | _ => none

def Taken (s : SavedInstance α) (x : Versioned α) : Prop :=
  x.version ≤ s.memory.version ∧ (x.version = s.memory.version → x = s.memory)

/-- The commits are in the order of the versions, and a snapshot that is being written is not older
than any of them. -/
structure Ordered (s : SavedInstance α) : Prop where
  sorted : s.commits.Pairwise fun later earlier => earlier.version ≤ later.version
  taken : ∀ x ∈ s.commits, s.Taken x
  held : ∀ x, s.snapshot? = some x → s.Taken x ∧ ∀ y ∈ s.commits, y.version ≤ x.version
  record : ∀ x, s.record = some x → x ∈ s.commits

theorem Taken.of_change (h : s.Taken x) (ht : t.memory = s.memory.change f) : t.Taken x := by
  have hlt : x.version < t.memory.version := by
    rw [ht]
    exact Nat.lt_succ_of_le h.1
  exact ⟨Nat.le_of_lt hlt, fun heq => absurd heq (Nat.ne_of_lt hlt)⟩

theorem Ordered.initial (value : α) : (initial value).Ordered where
  sorted := List.Pairwise.nil
  taken _ h := nomatch h
  held _ h := nomatch h
  record _ h := nomatch h

namespace Ordered

variable {s t : SavedInstance α}

/-- A step without a commit. Whoever takes a snapshot takes the memory as it is. -/
theorem uncommitted (h : s.Ordered)
    (hsnapshot : ∀ x, t.snapshot? = some x → s.snapshot? = some x ∨ x = t.memory)
    (hmemory : t.memory = s.memory ∨ ∃ f, t.memory = s.memory.change f := by exact .inl rfl)
    (hrecord : t.record = none ∨ t.record = s.record := by exact .inr rfl)
    (hcommits : t.commits = s.commits := by rfl) : t.Ordered := by
  have htaken : ∀ x, s.Taken x → t.Taken x := by
    intro x hx
    rcases hmemory with hsame | ⟨f, hchange⟩
    · rwa [Taken, ← hsame] at hx
    · exact hx.of_change hchange
  have hold : ∀ x ∈ t.commits, t.Taken x := fun x hx => htaken x (h.taken x (hcommits ▸ hx))
  refine ⟨hcommits ▸ h.sorted, hold, fun x hx => ?_, fun x hx => ?_⟩
  · rcases hsnapshot x hx with hx | rfl
    · obtain ⟨htaken', hlatest⟩ := h.held x hx
      exact ⟨htaken x htaken', hcommits ▸ hlatest⟩
    · exact ⟨⟨Nat.le_refl _, fun _ => rfl⟩, fun y hy => (hold y hy).1⟩
  · rcases hrecord with hnone | hsame
    · rw [hnone] at hx
      cases hx
    · exact hcommits ▸ h.record x (hsame ▸ hx)

theorem commit (h : s.Ordered) (hx : s.snapshot? = some x) : (s.commit x).Ordered where
  sorted := List.pairwise_cons.mpr ⟨(h.held x hx).2, h.sorted⟩
  taken y hy := by
    rcases List.mem_cons.mp hy with rfl | hy
    · exact (h.held y hx).1
    · exact h.taken y hy
  held _ hy := nomatch hy
  record y hy := by
    cases hy
    exact List.mem_cons_self

theorem step (h : s.Ordered) (hstep : s.step policy a = some t) : t.Ordered := by
  cases a <;> rw [SavedInstance.step] at hstep
  case write f =>
    cases hstep
    exact h.uncommitted (fun _ => .inl) (.inr ⟨f, rfl⟩)
  case callPersist =>
    cases hstep
    exact h.uncommitted fun _ => .inl
  case fetch =>
    split at hstep
    · cases hstep
    · split at hstep <;> cases hstep <;> exact h.uncommitted fun _ => .inl
  case lockForeign | unlockForeign | lockCall | lockWorker =>
    split at hstep <;> cases hstep
    exact h.uncommitted nofun
  case takeJob | shutdown | dropJob | stopWorker | removeInstance =>
    split at hstep <;> cases hstep
    exact h.uncommitted fun _ => .inl
  case snapshot =>
    split at hstep <;> cases hstep
    have htrimmed : ({ s with memory := s.memory.change policy.trim, holder := none } :
        SavedInstance α).Ordered := h.uncommitted nofun (.inr ⟨_, rfl⟩)
    unfold takeSnapshot
    dsimp only
    split
    · exact htrimmed.uncommitted fun _ => .inl
    · exact htrimmed.uncommitted fun _ hx => .inr (Option.some.inj hx).symm
  case callSaved =>
    split at hstep <;> cases hstep
    case h_1 x n hholder => exact h.commit (by rw [snapshot?, hholder])
  case callFailed room =>
    split at hstep <;> cases hstep
    case h_1 x n hholder =>
      unfold failCall
      split
      · exact h.uncommitted fun _ hx => .inl (by rw [snapshot?, hholder]; exact hx)
      · split <;> exact h.uncommitted nofun
  case readJob =>
    split at hstep
    · split at hstep <;> cases hstep
      · exact h.uncommitted fun _ hx => .inr (Option.some.inj hx).symm
      · exact h.uncommitted nofun
    · cases hstep
  case jobSaved =>
    split at hstep <;> cases hstep
    case h_1 x n hholder =>
      have hcommitted : (s.commit x).Ordered := h.commit (by rw [snapshot?, hholder])
      exact hcommitted.uncommitted fun _ => .inl
  case jobFailed =>
    split at hstep <;> cases hstep
    unfold failJob
    split
    · exact h.uncommitted nofun
    · split <;> exact h.uncommitted nofun
  case noteExhausted =>
    split at hstep
    · split at hstep <;> cases hstep
      · exact h.uncommitted (fun _ => .inl) (.inr ⟨_, rfl⟩)
      · exact h.uncommitted fun _ => .inl
    · cases hstep
  case drainTimeout committed =>
    split at hstep
    · unfold timeOut at hstep
      split at hstep <;> cases hstep
      · exact h.uncommitted fun _ => .inl
      · exact h.uncommitted nofun
      case h_3 x n hworker hholder =>
        cases committed
        · exact h.uncommitted nofun
        · have hcommitted : (s.commit x).Ordered := h.commit (by rw [snapshot?, hholder])
          exact hcommitted.uncommitted fun _ => .inl
    · cases hstep
  case deleteRecord ok =>
    split at hstep
    · split at hstep <;> cases hstep
      · exact h.uncommitted (fun _ => .inl) (.inl rfl) (.inl rfl)
      · exact h.uncommitted fun _ => .inl
    · cases hstep

end Ordered

/-! ## Nothing is forgotten -/

/-- The parts of the state fit together: the worker knows when it holds the lock, a job is only
given up with a trace, and a deletion has taken the instance out of the map. -/
structure Consistent (s : SavedInstance α) : Prop where
  reading : ∀ n, s.holder = some (.worker n) → s.worker = .holding
  saving : ∀ x n, s.holder = some (.workerSaving x n) → s.worker = .holding
  exhausted : s.worker = .exhausted → s.lost = true
  removed : s.deletion ≠ .none → s.listed = false

theorem Consistent.initial (value : α) : (initial value).Consistent where
  reading _ h := nomatch h
  saving _ _ h := nomatch h
  exhausted h := nomatch h
  removed h := absurd rfl h

theorem Consistent.step (h : s.Consistent) (hstep : s.step policy a = some t) : t.Consistent := by
  obtain ⟨hreading, hsaving, hexhausted, hremoved⟩ := h
  cases a <;> simp only [SavedInstance.step] at hstep
  all_goals constructor <;> grind [SavedInstance.commit, takeSnapshot, failCall, failJob, timeOut]

/-- Somebody is still going to write the memory as it is or as it will be then. -/
inductive Pending (s : SavedInstance α) : Prop where
  | called (h : s.called ≠ 0)
  | fetched (h : s.fetched ≠ 0)
  | locked (h : s.holder = some .call)
  | saving (h : s.snapshot? = some s.memory)
  | queued (h : s.queued ≠ 0)
  | waiting (n : Nat) (h : s.worker = .waiting n)
  | reading (n : Nat) (h : s.holder = some (.worker n))

/-- The stored record is the memory unless it is still to be written, a call or job was given up or
the instance was deleted. -/
structure Covered (s : SavedInstance α) : Prop where
  ordered : s.Ordered
  consistent : s.Consistent
  covered : s.lost = true ∨ s.listed = false ∨ s.record = some s.memory ∨ s.Pending

theorem Covered.initial (value : α) : (initial value).Covered where
  ordered := .initial value
  consistent := .initial value
  covered := .inr (.inr (.inr (.called Nat.one_ne_zero)))

/-- After a commit the record is the memory, or whoever changed it since is still to come. -/
theorem Covered.commit (h : s.Covered) (hx : s.snapshot? = some x)
    (ht : t = { s.commit x with worker := t.worker })
    (hwaiting : ∀ n, s.worker = .waiting n → t.worker = .waiting n) :
    t.lost = true ∨ t.listed = false ∨ t.record = some t.memory ∨ t.Pending := by
  rw [ht]
  rcases h.covered with hlost | hlisted | hrecord | hpending
  · exact .inl hlost
  · exact .inr (.inl hlisted)
  · -- The record is the memory, and the snapshot is at least as new.
    obtain ⟨⟨hle, heq⟩, hlatest⟩ := h.ordered.held x hx
    have hge := hlatest _ (h.ordered.record _ hrecord)
    exact .inr (.inr (.inl (congrArg some (heq (Nat.le_antisymm hle hge)))))
  · refine .inr (.inr ?_)
    cases hpending with
    | called h => exact .inr (.called h)
    | fetched h => exact .inr (.fetched h)
    | locked h =>
      rw [snapshot?, h] at hx
      cases hx
    | saving h => exact .inl (congrArg some (Option.some.inj (hx.symm.trans h)))
    | queued h => exact .inr (.queued h)
    | waiting n h => exact .inr (.waiting n (hwaiting n h))
    | reading n h =>
      rw [snapshot?, h] at hx
      cases hx

theorem Covered.step (h : s.Covered) (hstep : s.step policy a = some t) : t.Covered := by
  refine ⟨h.ordered.step hstep, h.consistent.step hstep, ?_⟩
  have hexhausted := h.consistent.exhausted
  have hremoved := h.consistent.removed
  cases a <;> rw [SavedInstance.step] at hstep
  case write f =>
    cases hstep
    exact .inr (.inr (.inr (.called (Nat.succ_ne_zero _))))
  case callPersist =>
    cases hstep
    exact .inr (.inr (.inr (.called (Nat.succ_ne_zero _))))
  case snapshot =>
    split at hstep <;> cases hstep
    unfold takeSnapshot
    dsimp only
    split
    · exact .inl rfl
    · exact .inr (.inr (.inr (.saving rfl)))
  case callSaved =>
    split at hstep <;> cases hstep
    case h_1 x n hholder => exact h.commit (by rw [snapshot?, hholder]) rfl fun _ hw => hw
  case jobSaved =>
    split at hstep <;> cases hstep
    case h_1 x n hholder =>
      refine h.commit (by rw [snapshot?, hholder]) rfl fun m hwaiting => ?_
      -- The worker has one job at a time, and this is it.
      rw [h.consistent.saving x n hholder] at hwaiting
      cases hwaiting
  case drainTimeout committed =>
    split at hstep
    · unfold timeOut at hstep
      split at hstep <;> cases hstep <;> exact .inl rfl
    · cases hstep
  -- The other steps pass a call or a job on, or give it up with a trace.
  all_goals
    rcases h.covered with hlost | hlisted | hrecord | hpending <;>
      grind [failCall, failJob, snapshot?, Pending]

/-- Nobody has read the instance from the map and still has to write it. -/
structure Unread (s : SavedInstance α) : Prop where
  fetched : s.fetched = 0
  holder : s.holder = none ∨ s.holder = some .foreign ∨ ∃ n, s.holder = some (.worker n)

def DeletesUnread (s : SavedInstance α) : SaveEvent α → Prop
  | .deleteRecord _ => s.Unread
  | _ => True

/-- The instance is deleted and stays so. -/
structure Gone (s : SavedInstance α) : Prop where
  consistent : s.Consistent
  gone : s.deletion = .deleted → s.record = none ∧ s.Unread

theorem Gone.step (h : s.Gone) (hguard : s.DeletesUnread a) (hstep : s.step policy a = some t) :
    t.Gone := by
  refine ⟨h.consistent.step hstep, fun hdeleted => ?_⟩
  by_cases hs : s.deletion = .deleted
  · -- The instance is not in the map, so neither a call nor a job gets hold of it.
    obtain ⟨hrecord, hfetched, hholder⟩ := h.gone hs
    have hlisted : s.listed = false := h.consistent.removed (by rw [hs]; exact nofun)
    have hunread : t.record = none ∧ t.fetched = 0 ∧
        (t.holder = none ∨ t.holder = some .foreign ∨ ∃ n, t.holder = some (.worker n)) := by
      cases a <;> simp only [SavedInstance.step] at hstep
      all_goals grind [timeOut]
    exact ⟨hunread.1, hunread.2.1, hunread.2.2⟩
  · cases a with
    | deleteRecord =>
      rw [SavedInstance.step] at hstep
      split at hstep
      · split at hstep <;> cases hstep
        · exact ⟨rfl, hguard.fetched, hguard.holder⟩
        · cases hdeleted
      · cases hstep
    | _ =>
      simp only [SavedInstance.step] at hstep
      grind [SavedInstance.commit, takeSnapshot, failCall, failJob, timeOut]

theorem deleted_stays_deleted {policy : SavePolicy α} {value : α} {s : SavedInstance α}
    (h : Reaches (step policy) DeletesUnread (initial value) s) (hdeleted : s.deletion = .deleted) :
    s.record = none := by
  have hgone : s.Gone := h.invariant ⟨.initial value, fun h => nomatch h⟩
    fun _ _ _ hs hguard ht => hs.step hguard ht
  exact (hgone.gone hdeleted).1

/-! ## Runs -/

def plainPolicy : SavePolicy String := ⟨id, fun _ => false, id⟩

/-- A call has read the instance from the map before it is deleted, and saves it afterwards. -/
theorem deleted_instance_saved_again :
    (run (step plainPolicy) (initial "a")
      [.fetch, .removeInstance, .deleteRecord true, .lockCall, .snapshot, .callSaved]).map
        (fun s => (s.deletion, s.record, s.called + s.fetched + s.queued)) =
      some (.deleted, some ⟨1, "a"⟩, 0) := by
  decide +kernel

theorem unread_instance_stays_deleted :
    ∃ s, run (step plainPolicy) (initial "a")
        [.fetch, .lockCall, .snapshot, .callSaved, .removeInstance, .deleteRecord true] = some s ∧
      s.record = none := by
  obtain ⟨s, hs⟩ : ∃ s, run (step plainPolicy) (initial "a")
      [.fetch, .lockCall, .snapshot, .callSaved, .removeInstance] = some s := ⟨_, rfl⟩
  have hreach : Reaches (step plainPolicy) DeletesUnread (initial "a") s := by
    refine .of_passing_run hs fun a ha u => ?_
    simp only [List.mem_cons, List.not_mem_nil, or_false] at ha
    rcases ha with rfl | rfl | rfl | rfl | rfl <;> trivial
  have hunread : s.DeletesUnread (.deleteRecord true) := by
    cases hs
    exact ⟨rfl, .inl rfl⟩
  cases hs
  exact ⟨_, rfl, deleted_stays_deleted (hreach.next hunread rfl) rfl⟩

end SavedInstance

end BpmnEngine
