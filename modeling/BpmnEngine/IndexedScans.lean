import BpmnEngine.WaitIndexes

/-!
# Fetching through an index is scanning

A worker that fetches tasks gets what a scan over all pending tasks would give it, and
the timers that are found due are those that a scan over all pending timers finds. The
candidates of a fetch are the indexed tasks of its topics, each once, although a topic
may be named twice and an entry may belong to a task that is gone.
-/
namespace BpmnEngine

open Program

namespace Eng

variable {env : Env} {e : Engine} {audience : FetchAudience} {task : PendingServiceTask}
  {now expiration : Time} {workerId : String} {timer : PendingTimer} {topics : List String}

/-! ## Candidates -/

section Candidates

variable {visit : List Uuid → List Uuid} (hvisit : ∀ ids, (visit ids).Perm ids)
  {index : List (String × Uuid)} {topics : List String} {seen : List Uuid}

variable {x : String × Uuid}

include hvisit

theorem mem_candidateIds :
    x ∈ candidateIds visit index topics seen → x ∈ index ∧ x.1 ∈ topics ∧ x.2 ∉ seen := by
  induction topics generalizing seen with
  | nil => exact nofun
  | cons topic rest ih =>
    intro hx
    rcases List.mem_append.mp hx with hx | hx
    · obtain ⟨id, hid, rfl⟩ := List.mem_map.mp hx
      obtain ⟨hid, hseen⟩ := List.mem_filter.mp hid
      obtain ⟨y, hy, rfl⟩ := List.mem_map.mp ((hvisit _).mem_iff.mp hid)
      obtain ⟨hindex, htopic⟩ := List.mem_filter.mp hy
      have htopic : y.1 = topic := by simpa using htopic
      exact ⟨htopic ▸ hindex, List.mem_cons_self, by simpa using hseen⟩
    · obtain ⟨hindex, htopic, hseen⟩ := ih hx
      exact ⟨hindex, List.mem_cons_of_mem _ htopic, fun h => hseen (List.mem_append_left _ h)⟩

theorem candidateIds_complete (hindex : x ∈ index) (htopic : x.1 ∈ topics) (hseen : x.2 ∉ seen) :
    x.2 ∈ (candidateIds visit index topics seen).map Prod.snd := by
  induction topics generalizing seen with
  | nil => cases htopic
  | cons topic rest ih =>
    rw [candidateIds, List.map_append, List.mem_append, List.map_map]
    by_cases hnew : x.2 ∈ (visit ((index.filter fun y => y.1 == topic).map Prod.snd)).filter
        fun id => !seen.contains id
    · exact .inl (List.mem_map.mpr ⟨x.2, hnew, rfl⟩)
    · refine .inr (ih ?_ ?_)
      · rcases List.mem_cons.mp htopic with htopic | htopic
        · refine absurd (List.mem_filter.mpr ⟨(hvisit _).mem_iff.mpr ?_, by simpa using hseen⟩) hnew
          exact List.mem_map.mpr ⟨x, List.mem_filter.mpr ⟨hindex, by simpa using htopic⟩, rfl⟩
        · exact htopic
      · rw [List.mem_append, not_or]
        exact ⟨hseen, hnew⟩

theorem candidateIds_nodup (hindex : index.Nodup) :
    ((candidateIds visit index topics seen).map Prod.snd).Nodup := by
  induction topics generalizing seen with
  | nil => exact List.nodup_nil
  | cons topic rest ih =>
    rw [candidateIds, List.map_append, List.map_map]
    have hids : (visit ((index.filter fun y => y.1 == topic).map Prod.snd)).Nodup := by
      rw [(hvisit _).nodup_iff]
      refine (hindex.filter _).map_on fun x hx y hy hxy => Prod.ext ?_ hxy
      have hx : x.1 = topic := by simpa using (List.mem_filter.mp hx).2
      have hy : y.1 = topic := by simpa using (List.mem_filter.mp hy).2
      rw [hx, hy]
    refine List.Nodup.append ?_ ih ?_
    · rw [show (Prod.snd ∘ fun id : Uuid => (topic, id)) = id from rfl, List.map_id]
      exact hids.filter _
    · intro id hid hrest
      obtain ⟨id', hid', rfl⟩ := List.mem_map.mp hid
      obtain ⟨y, hy, hyid⟩ := List.mem_map.mp hrest
      exact (mem_candidateIds hvisit hy).2.2 (List.mem_append_right _ (hyid ▸ hid'))

end Candidates

/-! ## Locking -/

def eligible (e : Engine) (audience : FetchAudience) (id : Uuid) : Bool :=
  (e.pendingServiceTasks.find? id).any (claimable e audience)

/-- What a fetch with a given result did. -/
structure Locks (workerId : String) (audience : FetchAudience) (e : Engine)
    (tasks : List PendingServiceTask) (e' : Engine) : Prop where
  locked : ∀ t ∈ tasks, ∃ u ∈ e.pendingServiceTasks, claimable e audience u = true ∧
    ∃ expiration, t = lockedBy u workerId expiration
  pending : ∀ t, t ∈ e'.pendingServiceTasks ↔
    t ∈ tasks ∨ t ∈ e.pendingServiceTasks ∧ t.id ∉ tasks.map PendingServiceTask.id

def lockTask (id : Uuid) (workerId : String) (expiration : Time) (e : Engine) : Engine :=
  { e with pendingServiceTasks :=
      e.pendingServiceTasks.modify id fun t => lockedBy t workerId expiration }

theorem eligible_lockTask_of_ne {id id' : Uuid} (h : id' ≠ id) :
    eligible (lockTask id workerId expiration e) audience id' = eligible e audience id' := by
  have hfind : (lockTask id workerId expiration e).pendingServiceTasks.find? id' =
      e.pendingServiceTasks.find? id' := Table.find?_modify_of_ne (fun _ => rfl) h
  unfold eligible
  rw [hfind]
  rfl

theorem Locks.cons {e' : Engine} {tasks : List PendingServiceTask}
    (htask : task ∈ e.pendingServiceTasks) (hclaim : claimable e audience task = true)
    (h : Locks workerId audience (lockTask task.id workerId expiration e) tasks e')
    (hnew : task.id ∉ tasks.map PendingServiceTask.id) :
    Locks workerId audience e (lockedBy task workerId expiration :: tasks) e' := by
  have hmem (t : PendingServiceTask) :
      t ∈ (lockTask task.id workerId expiration e).pendingServiceTasks ↔
        t ∈ e.pendingServiceTasks ∧ t.id ≠ task.id ∨ t = lockedBy task workerId expiration := by
    have hmodify := Table.mem_modify (t := e.pendingServiceTasks) (k := task.id)
      (f := fun u => lockedBy u workerId expiration) (fun _ => rfl) (b := t)
    refine hmodify.trans (or_congr_right ⟨?_, ?_⟩)
    · rintro ⟨u, hu, hid, rfl⟩
      rw [Table.eq_of_key_eq hu htask hid]
    · rintro rfl
      exact ⟨task, htask, rfl, rfl⟩
  refine ⟨fun t ht => ?_, fun t => ?_⟩
  · rcases List.mem_cons.mp ht with rfl | ht
    · exact ⟨task, htask, hclaim, expiration, rfl⟩
    · obtain ⟨u, hu, hclaim', expiration', rfl⟩ := h.locked t ht
      rcases (hmem u).mp hu with ⟨hu, _⟩ | rfl
      · exact ⟨u, hu, hclaim', expiration', rfl⟩
      · exact absurd (List.mem_map.mpr ⟨_, ht, rfl⟩) hnew
  · rw [h.pending t, hmem, List.mem_cons, List.map_cons, List.mem_cons]
    constructor
    · rintro (ht | ⟨⟨ht, hne⟩ | rfl, hids⟩)
      · exact .inl (.inr ht)
      · exact .inr ⟨ht, not_or.mpr ⟨hne, hids⟩⟩
      · exact .inl (.inl rfl)
    · rintro ((rfl | ht) | ⟨ht, hids⟩)
      · exact .inr ⟨.inr rfl, hnew⟩
      · exact .inl ht
      · obtain ⟨hne, hids⟩ := not_or.mp hids
        exact .inr ⟨.inl ⟨ht, hne⟩, hids⟩

/-- The candidates are visited in their order until enough tasks are locked. -/
theorem exec_lockCandidates (workerId : String) (topics : List (String × Int))
    (audience : FetchAudience) (room : Nat) (candidates : List (String × Uuid)) (e : Engine)
    (hnodup : (candidates.map Prod.snd).Nodup) :
    ∃ tasks e', exec (lockCandidates workerId topics audience room candidates) e = (.ok tasks, e') ∧
      tasks.map PendingServiceTask.id =
        ((candidates.map Prod.snd).filter (eligible e audience)).take room ∧
      Locks workerId audience e tasks e' := by
  have hnothing (e : Engine) : Locks workerId audience e [] e := ⟨nofun, fun t => by simp⟩
  induction candidates generalizing room e with
  | nil =>
    refine ⟨[], e, ?_, by simp, hnothing e⟩
    cases room <;> rfl
  | cons candidate rest ih =>
    obtain ⟨topic, id⟩ := candidate
    cases room with
    | zero => exact ⟨[], e, rfl, by simp, hnothing e⟩
    | succ room =>
      have hread : exec (get : Eng Engine) e = (.ok e, e) := rfl
      rw [List.map_cons, List.nodup_cons] at hnodup
      obtain ⟨hid, hnodup⟩ := hnodup
      rw [lockCandidates, exec_bind_ok hread, List.map_cons]
      cases hfind : e.pendingServiceTasks.find? id with
      | none =>
        -- The entry leaves the index; neither the table nor what is eligible changes.
        have hskip : ¬eligible e audience id = true := by simp [eligible, hfind]
        obtain ⟨tasks, e', hx, hids, hlocks⟩ := ih (room + 1)
          { e with serviceTaskTopicIndex :=
              e.serviceTaskTopicIndex.filter fun x => !decide (x = (topic, id)) } hnodup
        dsimp only
        rw [exec_bind_ok (exec_modify _ e), List.filter_cons_of_neg hskip]
        exact ⟨tasks, e', hx, hids, hlocks.locked, hlocks.pending⟩
      | some task =>
        obtain ⟨htask, rfl⟩ := Table.find?_eq_some_iff.mp hfind
        have helig : eligible e audience task.id = claimable e audience task := by
          simp [eligible, hfind]
        dsimp only
        by_cases hclaim : claimable e audience task = true
        · let expiration := e.clock + lockTimeDelta (lockSeconds topics topic)
          have hlock : exec (modifyServiceTask task.id fun t =>
              lockedBy t workerId expiration) e =
              (.ok ⟨⟩, lockTask task.id workerId expiration e) := rfl
          obtain ⟨tasks, e', hx, hids, hlocks⟩ :=
            ih room (lockTask task.id workerId expiration e) hnodup
          have hsame : (rest.map Prod.snd).filter
              (eligible (lockTask task.id workerId expiration e) audience) =
              (rest.map Prod.snd).filter (eligible e audience) :=
            List.filter_congr fun id' hid' =>
              eligible_lockTask_of_ne fun heq => hid (heq ▸ hid')
          have hnew : task.id ∉ tasks.map PendingServiceTask.id := by
            rw [hids]
            exact fun h => hid (List.mem_filter.mp (List.mem_of_mem_take h)).1
          rw [if_pos hclaim, exec_bind_ok hlock, exec_bind_ok hx,
            List.filter_cons_of_pos (by rwa [helig]), List.take_succ_cons]
          refine ⟨_, e', rfl, ?_, hlocks.cons htask hclaim hnew⟩
          rw [List.map_cons, hids, hsame]
          rfl
        · rw [if_neg hclaim, List.filter_cons_of_neg (by rwa [helig])]
          exact ih (room + 1) e hnodup

/-! ## The scan over the tasks -/

/-- A pending task that a fetch for some topics may lock: it has one of them, it is not an
incident, no handler runs it, the caller may have its topic, and no lock on it is left. -/
structure Fetchable (e : Engine) (audience : FetchAudience) (topics : List String)
    (task : PendingServiceTask) : Prop where
  pending : task ∈ e.pendingServiceTasks
  requested : task.topic ∈ topics
  notIncident : 0 < task.retries
  notInflight : task.id ∉ e.inProcessInflight
  reserved : task.topic ∈ e.taskHandlers ↔ audience = .inProcessDispatcher
  unlocked : ∀ expiration, task.lockExpiration = some expiration → expiration ≤ e.clock

theorem claimable_iff :
    claimable e audience task = true ↔
      0 < task.retries ∧ task.id ∉ e.inProcessInflight ∧
        (task.topic ∈ e.taskHandlers ↔ audience = .inProcessDispatcher) ∧
        ∀ expiration, task.lockExpiration = some expiration → expiration ≤ e.clock := by
  have hlock : (task.lockExpiration.all fun expiration => decide (expiration ≤ e.clock)) = true ↔
      ∀ expiration, task.lockExpiration = some expiration → expiration ≤ e.clock := by
    cases task.lockExpiration <;> simp
  unfold claimable
  rw [Bool.and_eq_true, Bool.and_eq_true, Bool.and_eq_true, hlock]
  cases audience <;> simp [and_assoc]

theorem fetchable_iff : Fetchable e audience topics task ↔
      task ∈ e.pendingServiceTasks ∧ task.topic ∈ topics ∧ claimable e audience task = true := by
  rw [claimable_iff]
  exact ⟨fun h => ⟨h.pending, h.requested, h.notIncident, h.notInflight, h.reserved, h.unlocked⟩,
    fun ⟨hp, ht, hr, hi, ha, hl⟩ => ⟨hp, ht, hr, hi, ha, hl⟩⟩

/-- In an engine whose index lists its tasks, the eligible candidates are the tasks of the scan. -/
theorem mem_eligible_candidates (h : Filed [] e) {visit : List Uuid → List Uuid}
    (hvisit : ∀ ids, (visit ids).Perm ids) (htask : task ∈ e.pendingServiceTasks) :
    task.id ∈ ((candidateIds visit e.serviceTaskTopicIndex topics []).map Prod.snd).filter
        (eligible e audience) ↔ Fetchable e audience topics task := by
  have helig : eligible e audience task.id = claimable e audience task := by
    simp [eligible, Table.find?_of_mem htask]
  rw [List.mem_filter, helig, fetchable_iff]
  constructor
  · rintro ⟨hcandidate, hclaim⟩
    obtain ⟨x, hx, hid⟩ := List.mem_map.mp hcandidate
    obtain ⟨hindex, htopic, _⟩ := mem_candidateIds hvisit hx
    have hsame : x.1 = task.topic := h.topics x (List.mem_append_left _ hindex)
      (task.topic, task.id) (List.mem_append_left _ (h.tasks task htask)) hid
    exact ⟨htask, hsame ▸ htopic, hclaim⟩
  · rintro ⟨_, htopic, hclaim⟩
    exact ⟨candidateIds_complete hvisit (x := (task.topic, task.id)) (h.tasks task htask) htopic
      List.not_mem_nil, hclaim⟩

/-- What a fetch does in an engine whose index lists its tasks. -/
theorem exec_fetchAndLock (h : Filed [] e) (workerId : String) (maxTasks : Nat)
    (topics : List (String × Int)) (audience : FetchAudience) :
    ∃ tasks e', exec (fetchAndLock env workerId maxTasks topics audience) e = (.ok tasks, e') ∧
      tasks.length ≤ maxTasks ∧ (tasks.map PendingServiceTask.id).Nodup ∧
      (tasks.length < maxTasks → ∀ u, Fetchable e audience (topics.map Prod.fst) u →
        u.id ∈ tasks.map PendingServiceTask.id) ∧
      (∀ u ∈ e.pendingServiceTasks, u.id ∈ tasks.map PendingServiceTask.id →
        Fetchable e audience (topics.map Prod.fst) u) ∧
      Locks workerId audience e tasks e' := by
  have hvisit (ids : List Uuid) : (env.visit e.nextUuid ids).Perm ids := env.visit_perm _ ids
  obtain ⟨tasks, e', hx, hids, hlocks⟩ := exec_lockCandidates workerId topics audience maxTasks
    (candidateIds (env.visit e.nextUuid) e.serviceTaskTopicIndex (topics.map Prod.fst) []) e
    (candidateIds_nodup hvisit h.once)
  have hlength := congrArg List.length hids
  rw [List.length_map, List.length_take] at hlength
  refine ⟨tasks, e', hx, ?_, ?_, fun hfewer u hu => ?_, fun u hu hid => ?_, hlocks⟩
  · rw [hlength]
    exact min_le_left _ _
  · rw [hids]
    exact ((candidateIds_nodup hvisit h.once).filter _).sublist (List.take_sublist _ _)
  · rw [hids, List.take_of_length_le (by omega)]
    exact (mem_eligible_candidates h hvisit hu.pending).mpr hu
  · rw [hids] at hid
    exact (mem_eligible_candidates h hvisit hu).mp (List.mem_of_mem_take hid)

/-! ## The scan over the timers -/

/-- A pending timer that has come due and whose instance is not suspended. -/
structure Due (e : Engine) (now : Time) (timer : PendingTimer) : Prop where
  pending : timer ∈ e.pendingTimers
  expired : timer.expiresAt ≤ now
  active : ∀ i, e.instances.find? timer.instanceId = some i → i.state.isSuspended = false

def dueIds (index : List (Time × Uuid)) (now : Time) : List Uuid :=
  (index.filter fun x => decide (x.1 ≤ now)).map Prod.snd

def findActionable (e : Engine) (now : Time) : List Uuid → Bool
  | [] => false
  | id :: rest =>
    match e.pendingTimers.find? id with
    | none => findActionable e now rest
    | some timer =>
      if timer.expiresAt > now then findActionable e now rest
      else if (e.instances.find? timer.instanceId).any fun i => i.state.isSuspended then
        findActionable e now rest
      else true

def hasActionableDueTimer (now : Time) : Eng Bool := do
  let e ← get
  return findActionable e now (dueIds e.timerDueIndex now)

theorem due_iff (h : timer ∈ e.pendingTimers) :
    Due e now timer ↔ timer.expiresAt ≤ now ∧
      ((e.instances.find? timer.instanceId).any fun i => i.state.isSuspended) = false := by
  have hactive : ((e.instances.find? timer.instanceId).any fun i => i.state.isSuspended) = false ↔
      ∀ i, e.instances.find? timer.instanceId = some i → i.state.isSuspended = false := by
    cases e.instances.find? timer.instanceId <;> simp
  rw [hactive]
  exact ⟨fun hdue => ⟨hdue.expired, hdue.active⟩, fun ⟨hexp, hact⟩ => ⟨h, hexp, hact⟩⟩

theorem findActionable_iff {ids : List Uuid} :
    findActionable e now ids = true ↔ ∃ timer, Due e now timer ∧ timer.id ∈ ids := by
  induction ids with
  | nil => simp [findActionable]
  | cons id rest ih =>
    have hskip (h : ∀ timer, Due e now timer → timer.id ≠ id) :
        (∃ timer, Due e now timer ∧ timer.id ∈ id :: rest) ↔
          ∃ timer, Due e now timer ∧ timer.id ∈ rest := by
      refine exists_congr fun timer => and_congr_right fun hdue => ?_
      rw [List.mem_cons, or_iff_right (h timer hdue)]
    rw [findActionable]
    cases hfind : e.pendingTimers.find? id with
    | none =>
      refine ih.trans (hskip fun timer hdue hid => ?_).symm
      exact Table.find?_eq_none_iff.mp hfind timer hdue.pending hid
    | some timer =>
      obtain ⟨htimer, rfl⟩ := Table.find?_eq_some_iff.mp hfind
      have hother (hnot : ¬Due e now timer) (u : PendingTimer) (hu : Due e now u) :
          u.id ≠ timer.id :=
        fun hid => hnot (Table.eq_of_key_eq hu.pending htimer hid ▸ hu)
      rw [due_iff htimer] at hother
      dsimp only
      split
      · next hlate => exact ih.trans (hskip (hother fun h => absurd h.1
          (Int.not_le.mpr hlate))).symm
      · split
        · next hsusp =>
            exact ih.trans (hskip (hother fun h => Bool.false_ne_true (h.2.symm.trans hsusp))).symm
        · next hdue hactive =>
            refine iff_of_true rfl ⟨timer, (due_iff htimer).mpr ⟨Int.not_lt.mp hdue, ?_⟩,
              List.mem_cons_self⟩
            exact Bool.eq_false_iff.mpr hactive

theorem mem_dueIds (h : Filed [] e) (hdue : Due e now timer) :
    timer.id ∈ dueIds e.timerDueIndex now :=
  List.mem_map.mpr ⟨(timer.expiresAt, timer.id), List.mem_filter.mpr
    ⟨h.timers timer hdue.pending, by simpa using hdue.expired⟩, rfl⟩

theorem exec_dueTimers (h : Filed [] e) :
    ∃ due, exec dueTimers e = (.ok due, e) ∧
      ∀ id, id ∈ due ↔ ∃ timer, Due e e.clock timer ∧ timer.id = id := by
  refine ⟨_, rfl, fun id => ?_⟩
  rw [List.mem_filter]
  constructor
  · rintro ⟨_, hid⟩
    cases hfind : e.pendingTimers.find? id with
    | none => simp [hfind] at hid
    | some timer =>
      obtain ⟨htimer, rfl⟩ := Table.find?_eq_some_iff.mp hfind
      simp only [hfind, Bool.and_eq_true, decide_eq_true_eq, Bool.not_eq_true'] at hid
      exact ⟨timer, (due_iff htimer).mpr hid, rfl⟩
  · rintro ⟨timer, hdue, rfl⟩
    refine ⟨mem_dueIds h hdue, ?_⟩
    simp only [Table.find?_of_mem hdue.pending, Bool.and_eq_true, decide_eq_true_eq,
      Bool.not_eq_true']
    exact (due_iff hdue.pending).mp hdue

end Eng

namespace Server

open Eng

variable {env : Env} {s : Server} {r : Records} {clock : Time}

/-- A fetch returns tasks of the scan, each once and not more than asked for, and fewer only if
the scan has no further task. Asked for enough tasks, it returns the whole scan. -/
theorem fetchAndLock_eq_scan
    (h : Reaches (step env) (fun _ _ => True) (boot env r clock) s) (now : Time)
    (workerId : String) (maxTasks : Nat) (topics : List (String × Int))
    (audience : FetchAudience) :
    let e := { s.config.engine with clock := now }
    let scan := Fetchable e audience (topics.map Prod.fst)
    ∃ tasks e', exec (fetchAndLock env workerId maxTasks topics audience) e = (.ok tasks, e') ∧
      tasks.length ≤ maxTasks ∧ (tasks.map PendingServiceTask.id).Nodup ∧
      (∀ t ∈ tasks, ∃ u, scan u ∧ ∃ expiration, t = lockedBy u workerId expiration) ∧
      (tasks.length < maxTasks → ∀ u, scan u → u.id ∈ tasks.map PendingServiceTask.id) ∧
      (e.pendingServiceTasks.entries.length < maxTasks →
        ∀ u ∈ e.pendingServiceTasks, u.id ∈ tasks.map PendingServiceTask.id ↔ scan u) ∧
      ∀ t, t ∈ e'.pendingServiceTasks ↔
        t ∈ tasks ∨ t ∈ e.pendingServiceTasks ∧ t.id ∉ tasks.map PendingServiceTask.id := by
  intro e scan
  have hfiled : Filed [] e := (Filed.stable []).clock _ now (filed_of_reaches h)
  obtain ⟨tasks, e', hx, hmax, hnodup, hall, honly, hlocks⟩ :=
    @exec_fetchAndLock env e hfiled workerId maxTasks topics audience
  have hlocked : ∀ t ∈ tasks, ∃ u, scan u ∧ ∃ expiration, t = lockedBy u workerId expiration := by
    intro t ht
    obtain ⟨u, hu, _, expiration, rfl⟩ := hlocks.locked t ht
    exact ⟨u, honly u hu (List.mem_map.mpr ⟨_, ht, rfl⟩), expiration, rfl⟩
  refine ⟨tasks, e', hx, hmax, hnodup, hlocked, hall, fun henough u hu => ⟨honly u hu, ?_⟩,
    hlocks.pending⟩
  -- The returned tasks are among the pending ones, so there are fewer than asked for.
  have hsub : tasks.map PendingServiceTask.id ⊆
      e.pendingServiceTasks.entries.map PendingServiceTask.id := by
    intro id hid
    obtain ⟨t, ht, rfl⟩ := List.mem_map.mp hid
    obtain ⟨v, hv, _, rfl⟩ := hlocked t ht
    exact List.mem_map.mpr ⟨v, hv.pending, rfl⟩
  have hle := (List.subperm_of_subset hnodup hsub).length_le
  rw [List.length_map, List.length_map] at hle
  exact hall (lt_of_le_of_lt hle henough) u

def sending : PendingServiceTask :=
  ⟨1, 7, 9, "send", "mail", 5, none, ∅, 0, none, none, 3, none, none⟩

def printing : PendingServiceTask :=
  ⟨2, 7, 9, "copy", "print", 6, none, ∅, 0, none, none, 3, none, none⟩

def soon : PendingTimer := ⟨3, 7, "soon", 20, 5, none, none⟩

def late : PendingTimer := ⟨4, 7, "late", 90, 6, none, none⟩

/-- A storage with a task for mails, one for prints, and two timers. -/
def stored : Records where
  definitions := ∅
  instances := ∅
  userTasks := ∅
  serviceTasks := ((∅ : Table PendingServiceTask.id).insert sending).insert printing
  timers := ((∅ : Table PendingTimer.id).insert soon).insert late
  messageCatches := ∅
  signalCatches := ∅
  conditionalCatches := ∅
  nextUuid := 10
  drawn t ht := by
    rcases Table.mem_insert.mp ht with rfl | ⟨ht, _⟩
    · decide
    · rcases Table.mem_insert.mp ht with rfl | ⟨ht, _⟩
      · decide
      · exact absurd ht (Table.notMem_empty t)

/-- A fetch that names a topic twice gets the task of that topic. -/
theorem fetch_of_stored :
    ∃ tasks e', exec (fetchAndLock .plain "worker" 5 [("mail", 30), ("mail", 60)]
        .externalWorker) { (boot .plain stored 0).config.engine with clock := 50 } =
        (.ok tasks, e') ∧
      sending.id ∈ tasks.map PendingServiceTask.id ∧
      printing.id ∉ tasks.map PendingServiceTask.id := by
  obtain ⟨tasks, e', hx, _, _, _, _, henough, _⟩ :=
    fetchAndLock_eq_scan (s := boot .plain stored 0) .start 50 "worker" 5
      [("mail", 30), ("mail", 60)] .externalWorker
  have henough := henough (by decide)
  refine ⟨tasks, e', hx, ?_, fun hprinting => ?_⟩
  · exact (henough sending (by decide)).mpr (fetchable_iff.mpr ⟨by decide, by decide, by decide⟩)
  · exact absurd ((henough printing (by decide)).mp hprinting).requested (by decide)

/-- At every instant the processing of timers selects the timers of the scan, and the scheduler
sees work if there are any. -/
theorem dueTimers_eq_scan
    (h : Reaches (step env) (fun _ _ => True) (boot env r clock) s) (now : Time) :
    let e := { s.config.engine with clock := now }
    ∃ due actionable, exec dueTimers e = (.ok due, e) ∧
      (∀ id, id ∈ due ↔ ∃ timer, Due e now timer ∧ timer.id = id) ∧
      exec (hasActionableDueTimer now) e = (.ok actionable, e) ∧
      (actionable = true ↔ ∃ timer, Due e now timer) := by
  intro e
  have hfiled : Filed [] e := (Filed.stable []).clock _ now (filed_of_reaches h)
  obtain ⟨due, hx, hdue⟩ := exec_dueTimers hfiled
  refine ⟨due, _, hx, hdue, rfl, findActionable_iff.trans (exists_congr fun timer => ?_)⟩
  exact and_iff_left_of_imp fun htimer => mem_dueIds hfiled htimer

/-- One of two timers has come due. -/
theorem due_of_stored :
    ∃ due actionable, exec dueTimers { (boot .plain stored 0).config.engine with clock := 50 } =
        (.ok due, { (boot .plain stored 0).config.engine with clock := 50 }) ∧
      soon.id ∈ due ∧ late.id ∉ due ∧
      exec (hasActionableDueTimer 50) { (boot .plain stored 0).config.engine with clock := 50 } =
        (.ok actionable, { (boot .plain stored 0).config.engine with clock := 50 }) ∧
      actionable = true := by
  obtain ⟨due, actionable, hx, hdue, hx', hactionable⟩ :=
    dueTimers_eq_scan (s := boot .plain stored 0) .start 50
  have hsoon : Due { (boot .plain stored 0).config.engine with clock := 50 } 50 soon :=
    (due_iff (by decide)).mpr (by decide)
  refine ⟨due, actionable, hx, (hdue _).mpr ⟨soon, hsoon, rfl⟩, fun hlate => ?_, hx',
    hactionable.mpr ⟨soon, hsoon⟩⟩
  obtain ⟨timer, htimer, hid⟩ := (hdue _).mp hlate
  obtain rfl : timer = late := Table.eq_of_key_eq htimer.pending (by decide) hid
  exact absurd htimer.expired (by decide)

end Server

end BpmnEngine
