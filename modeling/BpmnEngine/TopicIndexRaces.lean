import BpmnEngine.SharedIndex
import BpmnEngine.GuardedRuns
import BpmnEngine.ServiceTasks

/-!
# Fetching and completing service tasks at the same time

Every access to the table of service tasks and to the topic index is an atomic step of
its own here. A fetch reads the index topic by topic, looks each candidate up in the
table, and drops the index entry of a candidate that it did not find. A completion takes
its task out of the table and then out of the index; when it is rejected or rolled back
it puts the task into the table and then into the index again. A removal that empties
the set of a topic is followed by a second access that removes the set if it is still
empty. Any number of calls run at the same time; the clock, the handlers and the running
invocations are those of a fixed engine.
-/
namespace BpmnEngine

/-! ## The index as sets of tasks by topic -/

abbrev TopicSets := Map String (List Uuid)

namespace TopicSets

def Lists (index : TopicSets) (x : String × Uuid) : Prop :=
  ∃ ids, Map.get? index x.1 = some ids ∧ x.2 ∈ ids

def insert (index : TopicSets) (topic : String) (id : Uuid) : TopicSets :=
  let ids := (Map.get? index topic).getD []
  Map.set index topic (if id ∈ ids then ids else ids ++ [id])

/-- The flag says whether the set of the topic is empty now. -/
def remove (index : TopicSets) (topic : String) (id : Uuid) : TopicSets × Bool :=
  match Map.get? index topic with
  | none => (index, false)
  | some ids =>
    let left := ids.filter fun other => !decide (other = id)
    (Map.set index topic left, left.isEmpty)

def removeIfEmpty (index : TopicSets) (topic : String) : TopicSets :=
  if Map.get? index topic = some [] then Table.erase index topic else index

variable {index : TopicSets} {topic : String} {id : Uuid} {x : String × Uuid}

theorem lists_set {ids : List Uuid} :
    Lists (Map.set index topic ids) x ↔ if x.1 = topic then x.2 ∈ ids else Lists index x := by
  unfold Lists
  split
  · next h => rw [h, Map.get?_set_self]; simp
  · next h => rw [Map.get?_set_of_ne h]

theorem lists_insert : Lists (insert index topic id) x ↔ x = (topic, id) ∨ Lists index x := by
  rw [insert, lists_set, Prod.ext_iff]
  by_cases h : x.1 = topic
  · rw [if_pos h]
    unfold Lists
    rw [h]
    cases Map.get? index topic with
    | none => simp
    | some ids =>
      by_cases hid : id ∈ ids
      · simp only [Option.getD_some, if_pos hid, Option.some.injEq, exists_eq_left']
        exact ⟨.inr, fun hx => hx.elim (fun hx => hx.2 ▸ hid) fun hx => hx⟩
      · simp [hid, or_comm]
  · rw [if_neg h]
    simp [h]

theorem lists_remove : Lists (remove index topic id).1 x ↔ Lists index x ∧ x ≠ (topic, id) := by
  unfold remove
  cases hget : Map.get? index topic with
  | none =>
    refine ⟨fun hx => ⟨hx, ?_⟩, And.left⟩
    rintro rfl
    obtain ⟨ids, hids, _⟩ := hx
    cases hget.symm.trans hids
  | some =>
    dsimp only
    rw [lists_set, ne_eq, Prod.ext_iff]
    by_cases h : x.1 = topic
    · unfold Lists
      simp [h, hget]
    · simp [h]

theorem lists_removeIfEmpty : Lists (removeIfEmpty index topic) x ↔ Lists index x := by
  unfold removeIfEmpty
  split
  · next hempty =>
      unfold Lists
      by_cases h : x.1 = topic
      · rw [h, Map.get?_erase_self, hempty]
        simp
      · rw [Map.get?_erase_of_ne h]
  · rfl

end TopicSets

/-! ## Calls -/

structure FetchRequest where
  workerId : String
  maxTasks : Nat
  topics : List (String × Int)
  audience : Eng.FetchAudience
  deriving DecidableEq

/-- Where a fetch is: before which access to the index or to the table. -/
inductive FetchStage where
  | collecting (topics : List String) (found : List (String × Uuid))
  | visiting (candidates : List (String × Uuid)) (result : List PendingServiceTask)
  | dropping (topic : String) (id : Uuid) (candidates : List (String × Uuid))
      (result : List PendingServiceTask)
  | pruning (topic : String) (candidates : List (String × Uuid))
      (result : List PendingServiceTask)
  | returned (result : List PendingServiceTask)
  deriving DecidableEq

/-- Where a completion is. It decides between the removal and the end whether its task comes
back. -/
inductive CompletionStage where
  | claiming
  | refused
  | unlisting (task : PendingServiceTask)
  | pruning (task : PendingServiceTask)
  | deciding (task : PendingServiceTask)
  | listing (task : PendingServiceTask)
  | returned
  deriving DecidableEq

inductive ServiceCall where
  | fetch (request : FetchRequest) (stage : FetchStage)
  | completion (taskId : Uuid) (workerId : String) (stage : CompletionStage)
  deriving DecidableEq

namespace ServiceCall

def isNew : ServiceCall → Bool
  | .fetch request (.collecting topics []) => decide (topics = request.topics.map Prod.fst)
  | .completion _ _ .claiming => true
  | _ => false

def hasReturned : ServiceCall → Bool
  | .fetch _ (.returned _) => true
  | .completion _ _ .returned => true
  | _ => false

def held : ServiceCall → Option (String × Uuid)
  | .completion _ _ (.unlisting task) | .completion _ _ (.pruning task)
  | .completion _ _ (.deciding task) => some (task.topic, task.id)
  | _ => none

def owed : ServiceCall → Option (String × Uuid)
  | .completion _ _ (.listing task) => some (task.topic, task.id)
  | _ => none

def dropping : ServiceCall → Option (String × Uuid)
  | .fetch _ (.dropping topic id _ _) => some (topic, id)
  | _ => none

end ServiceCall

/-- The table of service tasks, the topic index, and the calls that work on them. -/
structure SharedTasks where
  tasks : Table PendingServiceTask.id
  index : TopicSets
  calls : List ServiceCall

/-- Which call makes its next access, and what a completion decides if it is its turn to. -/
structure Turn where
  call : Nat
  putBack : Bool

namespace SharedTasks

open Eng (claimable lockedBy lockTimeDelta lockSeconds)

variable (env : Env) (e : Engine)

/-- Visits the next candidate: a task that may be locked is locked in the same access. -/
def visit (s : SharedTasks) (request : FetchRequest) (topic : String) (id : Uuid)
    (rest : List (String × Uuid)) (result : List PendingServiceTask) :
    FetchStage × Table PendingServiceTask.id :=
  match s.tasks.find? id with
  | none => (.dropping topic id rest result, s.tasks)
  | some task =>
    if claimable e request.audience task then
      let expiration := e.clock + lockTimeDelta (lockSeconds request.topics topic)
      (.visiting rest (result ++ [lockedBy task request.workerId expiration]),
        s.tasks.modify id fun t => lockedBy t request.workerId expiration)
    else (.visiting rest result, s.tasks)

def fetchStep (s : SharedTasks) (request : FetchRequest) :
    FetchStage → FetchStage × Table PendingServiceTask.id × TopicSets
  | .collecting [] found => (.visiting found [], s.tasks, s.index)
  | .collecting (topic :: rest) found =>
    let ids := env.visit e.nextUuid ((Map.get? s.index topic).getD [])
    let new := ids.filter fun id => !(found.map Prod.snd).contains id
    (.collecting rest (found ++ new.map fun id => (topic, id)), s.tasks, s.index)
  | .visiting [] result => (.returned result, s.tasks, s.index)
  | .visiting ((topic, id) :: rest) result =>
    if request.maxTasks ≤ result.length then (.returned result, s.tasks, s.index)
    else
      let visited := s.visit e request topic id rest result
      (visited.1, visited.2, s.index)
  | .dropping topic id rest result =>
    let removed := s.index.remove topic id
    (if removed.2 then .pruning topic rest result else .visiting rest result, s.tasks, removed.1)
  | .pruning topic rest result => (.visiting rest result, s.tasks, s.index.removeIfEmpty topic)
  | .returned result => (.returned result, s.tasks, s.index)

def completionStep (s : SharedTasks) (taskId : Uuid) (workerId : String) (putBack : Bool) :
    CompletionStage → CompletionStage × Table PendingServiceTask.id × TopicSets
  | .claiming =>
    match s.tasks.find? taskId with
    | none => (.refused, s.tasks, s.index)
    | some task =>
      if task.workerId = some workerId then (.unlisting task, s.tasks.erase taskId, s.index)
      else (.refused, s.tasks, s.index)
  | .refused => (.returned, s.tasks, s.index)
  | .unlisting task =>
    let removed := s.index.remove task.topic task.id
    (if removed.2 then .pruning task else .deciding task, s.tasks, removed.1)
  | .pruning task => (.deciding task, s.tasks, s.index.removeIfEmpty task.topic)
  | .deciding task =>
    if putBack then (.listing task, s.tasks.insert task, s.index)
    else (.returned, s.tasks, s.index)
  | .listing task => (.returned, s.tasks, s.index.insert task.topic task.id)
  | .returned => (.returned, s.tasks, s.index)

def step (s : SharedTasks) (turn : Turn) : Option SharedTasks :=
  match s.calls[turn.call]? with
  | none => none
  | some (.fetch request stage) =>
    let next := s.fetchStep env e request stage
    some ⟨next.2.1, next.2.2, s.calls.set turn.call (.fetch request next.1)⟩
  | some (.completion taskId workerId stage) =>
    let next := s.completionStep taskId workerId turn.putBack stage
    some ⟨next.2.1, next.2.2, s.calls.set turn.call (.completion taskId workerId next.1)⟩

/-! ## What the calls do to the table and the index -/

/-- A fetch that drops an entry finds its task not pending, or a completion that put the task back
has yet to list it. -/
def Careful (s : SharedTasks) (turn : Turn) : Prop :=
  ∀ x, (s.calls[turn.call]?).bind ServiceCall.dropping = some x →
    (∃ t ∈ s.tasks, (t.topic, t.id) = x) → ∃ call ∈ s.calls, call.owed = some x

def view (s : SharedTasks) : SharedIndex (String × Uuid) where
  pending := {x | ∃ t ∈ s.tasks, (t.topic, t.id) = x}
  listed := {x | s.index.Lists x}
  held k := (s.calls[k]?).bind ServiceCall.held
  owed k := (s.calls[k]?).bind ServiceCall.owed

section Views

variable {env e} {s : SharedTasks} {k : Nat} {call call' : ServiceCall}
  {tasks : Table PendingServiceTask.id} {index : TopicSets}

section

variable (hk : s.calls[k]? = some call)

include hk

theorem view_set : view ⟨tasks, index, s.calls.set k call'⟩ =
      ⟨{x | ∃ t ∈ tasks, (t.topic, t.id) = x}, {x | index.Lists x},
        Function.update (view s).held k call'.held, Function.update (view s).owed k call'.owed⟩ :=
          by
  have hbound : k < s.calls.length := (List.getElem?_eq_some_iff.mp hk).1
  have hget (f : ServiceCall → Option (String × Uuid)) (l : Nat) :
      ((s.calls.set k call')[l]?).bind f =
        Function.update (fun m => (s.calls[m]?).bind f) k (f call') l := by
    rw [List.getElem?_set, Function.update_apply]
    by_cases hl : k = l
    · rw [if_pos hl, if_pos hl.symm, if_pos (hl ▸ hbound)]
      rfl
    · rw [if_neg hl, if_neg (Ne.symm hl)]
  unfold view
  congr 1
  · exact funext fun l => hget ServiceCall.held l
  · exact funext fun l => hget ServiceCall.owed l

theorem held_view : (view s).held k = call.held := by
  simp [view, hk]

theorem owed_view : (view s).owed k = call.owed := by
  simp [view, hk]

theorem view_quiet (hheld : call'.held = call.held) (howed : call'.owed = call.owed) :
    view ⟨tasks, index, s.calls.set k call'⟩ =
      { view s with
        pending := {x | ∃ t ∈ tasks, (t.topic, t.id) = x}
        listed := {x | index.Lists x} } := by
  rw [view_set hk, hheld, howed, ← held_view hk, ← owed_view hk, Function.update_eq_self,
    Function.update_eq_self]

theorem access_read (hheld : call'.held = call.held) (howed : call'.owed = call.owed)
    (htasks : ∀ x, (∃ t ∈ tasks, (t.topic, t.id) = x) ↔ ∃ t ∈ s.tasks, (t.topic, t.id) = x)
    (hindex : ∀ x, index.Lists x ↔ s.index.Lists x) :
    (view s).Access (view ⟨tasks, index, s.calls.set k call'⟩) := by
  have hpending : {x | ∃ t ∈ tasks, (t.topic, t.id) = x} = (view s).pending := Set.ext htasks
  have hlisted : {x | index.Lists x} = (view s).listed := Set.ext hindex
  rw [view_quiet hk hheld howed, hpending, hlisted]
  exact .read

theorem access_idle (hheld : call'.held = call.held) (howed : call'.owed = call.owed) :
    (view s).Access (view ⟨s.tasks, s.index, s.calls.set k call'⟩) :=
  access_read hk hheld howed (fun _ => Iff.rfl) fun _ => Iff.rfl

theorem access_set {after : SharedIndex (String × Uuid)} (h : (view s).Access after)
    (hafter : ⟨{x | ∃ t ∈ tasks, (t.topic, t.id) = x}, {x | index.Lists x},
      Function.update (view s).held k call'.held, Function.update (view s).owed k call'.owed⟩ =
        after) : (view s).Access (view ⟨tasks, index, s.calls.set k call'⟩) := by
  rwa [view_set hk, hafter]

theorem view_removed (topic : String) (id : Uuid) (next : ServiceCall)
    (hheld : next.held = call.held) (howed : next.owed = call.owed) :
    view ⟨s.tasks, (s.index.remove topic id).1, s.calls.set k next⟩ =
      { view s with listed := (view s).listed \ {(topic, id)} } := by
  have hlisted : {x | (s.index.remove topic id).1.Lists x} = (view s).listed \ {(topic, id)} :=
    Set.ext fun _ => TopicSets.lists_remove
  rw [view_quiet hk hheld howed, hlisted]
  rfl

end

theorem pending_lock (id : Uuid) (workerId : String) (expiration : Time) (x : String × Uuid) :
    (∃ t ∈ s.tasks.modify id fun t => lockedBy t workerId expiration, (t.topic, t.id) = x) ↔
      ∃ t ∈ s.tasks, (t.topic, t.id) = x := by
  have hmem (t : PendingServiceTask) := Table.mem_modify (t := s.tasks) (k := id)
    (f := fun u => lockedBy u workerId expiration) (fun _ => rfl) (b := t)
  constructor
  · rintro ⟨t, ht, rfl⟩
    rcases (hmem t).mp ht with ⟨ht, _⟩ | ⟨u, hu, _, rfl⟩
    · exact ⟨t, ht, rfl⟩
    · exact ⟨u, hu, rfl⟩
  · rintro ⟨t, ht, rfl⟩
    by_cases hid : t.id = id
    · exact ⟨_, (hmem _).mpr (.inr ⟨t, ht, hid, rfl⟩), rfl⟩
    · exact ⟨t, (hmem t).mpr (.inl ⟨ht, hid⟩), rfl⟩

theorem fetch_access {request : FetchRequest} {stage : FetchStage} {putBack : Bool}
    (hk : s.calls[k]? = some (.fetch request stage)) (hcareful : s.Careful ⟨k, putBack⟩) :
    (view s).Access (view ⟨(s.fetchStep env e request stage).2.1,
      (s.fetchStep env e request stage).2.2,
      s.calls.set k (.fetch request (s.fetchStep env e request stage).1)⟩) := by
  cases stage with
  | collecting topics =>
    cases topics with
    | nil => exact access_idle hk rfl rfl
    | cons => exact access_idle hk rfl rfl
  | visiting candidates =>
    cases candidates with
    | nil => exact access_idle hk rfl rfl
    | cons =>
      refine access_read hk rfl rfl (fun x => ?_) ?_ <;> rw [fetchStep] <;> split
      · rfl
      · rw [visit]
        split
        · rfl
        · split
          · exact pending_lock _ _ _ x
          · rfl
      · exact fun _ => Iff.rfl
      · exact fun _ => Iff.rfl
  | dropping topic id rest result =>
    have hview := view_removed hk topic id
      (.fetch request (s.fetchStep env e request (.dropping topic id rest result)).1) rfl rfl
    refine hview ▸ .drop (topic, id) fun hpending => ?_
    obtain ⟨call, hcall, howed⟩ := hcareful (topic, id) (by simp [hk, ServiceCall.dropping])
      hpending
    obtain ⟨l, hl⟩ := List.mem_iff_getElem?.mp hcall
    exact ⟨l, (owed_view hl).trans howed⟩
  | pruning =>
    exact access_read hk rfl rfl (fun _ => Iff.rfl) fun _ => TopicSets.lists_removeIfEmpty
  | returned => exact access_idle hk rfl rfl

theorem completion_access {taskId : Uuid} {workerId : String} {stage : CompletionStage}
    (putBack : Bool) (hk : s.calls[k]? = some (.completion taskId workerId stage)) :
    (view s).Access (view ⟨(s.completionStep taskId workerId putBack stage).2.1,
      (s.completionStep taskId workerId putBack stage).2.2,
      s.calls.set k (.completion taskId workerId
        (s.completionStep taskId workerId putBack stage).1)⟩) := by
  cases stage with
  | claiming =>
    rw [completionStep]
    cases hfind : s.tasks.find? taskId with
    | none => exact access_idle hk rfl rfl
    | some task =>
      obtain ⟨htask, rfl⟩ := Table.find?_eq_some_iff.mp hfind
      dsimp only
      split
      · apply access_set hk (.take k (task.topic, task.id) ⟨task, htask, rfl⟩)
        have howed : (view s).owed k = none := owed_view hk
        congr 1
        · refine Set.ext fun x => ⟨?_, ?_⟩
          · rintro ⟨t, ht, rfl⟩
            obtain ⟨ht, hid⟩ := Table.mem_erase.mp ht
            exact ⟨⟨t, ht, rfl⟩, fun heq => hid (congrArg Prod.snd heq)⟩
          · rintro ⟨⟨t, ht, rfl⟩, hne⟩
            refine ⟨t, Table.mem_erase.mpr ⟨ht, fun hid => hne ?_⟩, rfl⟩
            rw [Table.eq_of_key_eq ht htask hid]
            rfl
        · exact (Function.update_eq_self_iff).mpr howed.symm
      · exact access_idle hk rfl rfl
  | refused => exact access_idle hk rfl rfl
  | unlisting task =>
    have hheld : (view s).held k = some (task.topic, task.id) := held_view hk
    rw [completionStep]
    dsimp only
    split
    · exact view_removed hk task.topic task.id (.completion taskId workerId (.pruning task)) rfl
        rfl ▸ .unlist k _ hheld
    · exact view_removed hk task.topic task.id (.completion taskId workerId (.deciding task)) rfl
        rfl ▸ .unlist k _ hheld
  | pruning =>
    exact access_read hk rfl rfl (fun _ => Iff.rfl) fun _ => TopicSets.lists_removeIfEmpty
  | deciding task =>
    have hheld : (view s).held k = some (task.topic, task.id) := held_view hk
    have howed : (view s).owed k = none := owed_view hk
    cases putBack with
    | true =>
      apply access_set hk (.putBack k _ hheld howed
        {x | ∃ t ∈ s.tasks, t.id ≠ task.id ∧ (t.topic, t.id) = x} ?_)
      · congr 1
        refine Set.ext fun x => ⟨?_, ?_⟩
        · rintro ⟨t, ht, rfl⟩
          rcases Table.mem_insert.mp ht with rfl | ⟨ht, hid⟩
          · exact .inl rfl
          · exact .inr ⟨t, ht, hid, rfl⟩
        · rintro (rfl | ⟨t, ht, hid, rfl⟩)
          · exact ⟨task, Table.mem_insert.mpr (.inl rfl), rfl⟩
          · exact ⟨t, Table.mem_insert.mpr (.inr ⟨ht, hid⟩), rfl⟩
      · rintro x ⟨t, ht, _, rfl⟩
        exact ⟨t, ht, rfl⟩
    | false =>
      apply access_set hk (.consume k)
      congr 1
      exact Function.update_eq_self_iff.mpr howed.symm
  | listing task =>
    have hheld : (view s).held k = none := held_view hk
    have howed : (view s).owed k = some (task.topic, task.id) := owed_view hk
    apply access_set hk (.list k _ howed)
    congr 1
    · exact Set.ext fun x => TopicSets.lists_insert
    · exact Function.update_eq_self_iff.mpr hheld.symm
  | returned => exact access_idle hk rfl rfl

/-- Every access of a careful call is one of the accesses that keep table and index together. -/
theorem step_access {s' : SharedTasks} {turn : Turn} (hcareful : s.Careful turn)
    (hstep : step env e s turn = some s') : (view s).Access (view s') := by
  unfold step at hstep
  split at hstep
  · cases hstep
  · next hk =>
      cases hstep
      exact fetch_access hk hcareful
  · next hk =>
      cases hstep
      exact completion_access turn.putBack hk

theorem agrees_of_new (hlisted : ∀ t ∈ s.tasks, s.index.Lists (t.topic, t.id))
    (hnew : ∀ call ∈ s.calls, call.isNew = true) : (view s).Agrees := by
  have hheld (k : Nat) : (view s).held k = none := by
    refine Option.bind_eq_none_iff.mpr fun call hcall => ?_
    have := hnew call (List.mem_of_getElem? hcall)
    unfold ServiceCall.isNew at this
    split at this <;> first | rfl | cases this
  refine ⟨?_, fun k x hk => ?_, fun k l x hk => ?_⟩
  · rintro x ⟨t, ht, rfl⟩
    exact .inl (hlisted t ht)
  · cases (hheld k).symm.trans hk
  · cases (hheld k).symm.trans hk

/-- Fetches and completions that run at the same time leave every pending task in the index, if
each fetch that drops an entry is careful. -/
theorem listed_when_all_returned {s₀ : SharedTasks}
    (hlisted : ∀ t ∈ s₀.tasks, s₀.index.Lists (t.topic, t.id))
    (hnew : ∀ call ∈ s₀.calls, call.isNew = true) (h : Reaches (step env e) Careful s₀ s)
    (hreturned : ∀ call ∈ s.calls, call.hasReturned = true) :
    ∀ t ∈ s.tasks, s.index.Lists (t.topic, t.id) := by
  have hagrees : (view s).Agrees :=
    h.invariant (P := fun s => (view s).Agrees) (agrees_of_new hlisted hnew)
      fun _ _ _ hs hcareful hstep => hs.access (step_access hcareful hstep)
  intro t ht
  refine (hagrees.listed (t.topic, t.id) ⟨t, ht, rfl⟩).resolve_right ?_
  rintro ⟨k, hk⟩
  obtain ⟨call, hcall, howed⟩ := Option.bind_eq_some_iff.mp hk
  have := hreturned call (List.mem_of_getElem? hcall)
  unfold ServiceCall.hasReturned at this
  split at this
  · cases howed
  · cases howed
  · cases this

end Views

/-! ## A fetch between removal and return of a task -/

/-- A worker completes the task it has locked while another one fetches. -/
def racing : SharedTasks where
  tasks := (∅ : Table PendingServiceTask.id).insert
    ⟨1, 7, 9, "send", "mail", 5, none, ∅, 0, some "worker", some 100, 3, none, none⟩
  index := (∅ : Map String (List Uuid)).set "mail" [1]
  calls := [.fetch ⟨"other", 1, [("mail", 30)], .externalWorker⟩ (.collecting ["mail"] []),
    .completion 1 "worker" .claiming]

theorem racing_starts : (∀ t ∈ racing.tasks, racing.index.Lists (t.topic, t.id)) ∧
    ∀ call ∈ racing.calls, call.isNew = true := by
  refine ⟨fun t ht => ?_, by decide⟩
  rcases Table.mem_insert.mp ht with rfl | ⟨ht, _⟩
  · exact ⟨[1], by decide, by decide⟩
  · exact absurd ht (Table.notMem_empty t)

def dropsOrphansOnly (s : SharedTasks) : Bool :=
  s.calls.all fun call => call.dropping.all fun x => !s.tasks.contains x.2

theorem careful_of_dropsOrphansOnly (s : SharedTasks) (turn : Turn)
    (h : s.dropsOrphansOnly = true) : s.Careful turn := by
  rintro x hx ⟨t, ht, rfl⟩
  obtain ⟨call, hcall, hdrop⟩ := Option.bind_eq_some_iff.mp hx
  have hall := List.all_eq_true.mp h call (List.mem_of_getElem? hcall)
  rw [hdrop] at hall
  have hcontains : s.tasks.contains t.id = true := Table.contains_iff.mpr ⟨t, ht, rfl⟩
  simp [hcontains] at hall

/-- The fetch drops the entry before the rejected completion puts the task back. -/
theorem put_back_task_is_listed :
    ∃ s, Reaches (step .plain (Engine.new 0)) Careful racing s ∧
      (∀ call ∈ s.calls, call.hasReturned = true) ∧ s.tasks.contains 1 = true ∧
      ∀ t ∈ s.tasks, s.index.Lists (t.topic, t.id) := by
  have hrun : (run (fun s turn => if dropsOrphansOnly s then
      step .plain (Engine.new 0) s turn else none) racing
      [⟨0, false⟩, ⟨0, false⟩, ⟨1, false⟩, ⟨0, false⟩, ⟨0, false⟩, ⟨0, false⟩, ⟨0, false⟩,
        ⟨1, false⟩, ⟨1, true⟩, ⟨1, false⟩]).map
      (fun s => (s.calls.all ServiceCall.hasReturned, s.tasks.contains 1)) = some (true, true) := by
    decide +kernel
  obtain ⟨s, hs, houtcome⟩ := Option.map_eq_some_iff.mp hrun
  obtain ⟨hreturned, htask⟩ := Prod.mk.inj houtcome
  have hreaches : Reaches (step .plain (Engine.new 0)) Careful racing s :=
    .of_checked_run careful_of_dropsOrphansOnly hs
  have hreturned := List.all_eq_true.mp hreturned
  exact ⟨s, hreaches, hreturned, htask,
    listed_when_all_returned racing_starts.1 racing_starts.2 hreaches hreturned⟩

/-- The fetch misses the task, the rejected completion puts it back and lists it, and then the
fetch drops the entry. -/
theorem put_back_task_is_stranded :
    (∀ t ∈ racing.tasks, racing.index.Lists (t.topic, t.id)) ∧
      (∀ call ∈ racing.calls, call.isNew = true) ∧
      ∃ s, Reaches (step .plain (Engine.new 0)) (fun _ _ => True) racing s ∧
        (∀ call ∈ s.calls, call.hasReturned = true) ∧
        ∃ t ∈ s.tasks, ¬s.index.Lists (t.topic, t.id) := by
  refine ⟨racing_starts.1, racing_starts.2, ?_⟩
  have hrun : (run (step .plain (Engine.new 0)) racing
      [⟨0, false⟩, ⟨0, false⟩, ⟨1, false⟩, ⟨0, false⟩, ⟨1, false⟩, ⟨1, false⟩, ⟨1, true⟩,
        ⟨1, false⟩, ⟨0, false⟩, ⟨0, false⟩, ⟨0, false⟩]).map
      (fun s => (s.tasks.entries.map fun t => (t.topic, t.id), Map.get? s.index "mail",
        s.calls.all ServiceCall.hasReturned)) = some ([("mail", 1)], none, true) := by
    decide +kernel
  obtain ⟨s, hs, houtcome⟩ := Option.map_eq_some_iff.mp hrun
  obtain ⟨htasks, hrest⟩ := Prod.mk.inj houtcome
  obtain ⟨hindex, hreturned⟩ := Prod.mk.inj hrest
  have hmem : ("mail", 1) ∈ s.tasks.entries.map fun t => (t.topic, t.id) :=
    htasks ▸ List.mem_cons_self
  obtain ⟨t, ht, heq⟩ := List.mem_map.mp hmem
  refine ⟨s, .of_run hs, List.all_eq_true.mp hreturned, t, ht, ?_⟩
  rw [heq]
  rintro ⟨ids, hids, _⟩
  cases hindex.symm.trans hids

end SharedTasks

end BpmnEngine
