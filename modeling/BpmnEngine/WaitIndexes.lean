import BpmnEngine.Restart
import BpmnEngine.StepOutcomes

/-!
# The topic index and the due index

Workers fetch service tasks through an index by topic, and the due timers are found
through an index by instant. Some code removes service tasks from their table only, so
the topic index may hold entries of tasks that are gone. It never lacks an entry: every
pending task is filed under its topic, and every pending timer under its instant. An
identifier is filed under one topic only, also when its task is taken out and put back.
-/
namespace BpmnEngine

open Program Eng Engine

/-- The two indexes list what is pending. The tasks that were taken out of the table or are about
to enter it are reserved: they have one topic together with the tasks of the index. -/
structure Filed (reserved : List (String × Uuid)) (e : Engine) : Prop where
  once : e.serviceTaskTopicIndex.Nodup
  timers : ∀ t ∈ e.pendingTimers, (t.expiresAt, t.id) ∈ e.timerDueIndex
  tasks : ∀ t ∈ e.pendingServiceTasks, (t.topic, t.id) ∈ e.serviceTaskTopicIndex
  topics : ∀ x ∈ e.serviceTaskTopicIndex ++ reserved, ∀ y ∈ e.serviceTaskTopicIndex ++ reserved,
    x.2 = y.2 → x.1 = y.1
  drawn : ∀ x ∈ e.serviceTaskTopicIndex ++ reserved, x.2 < e.nextUuid

namespace Engine

variable {entry : String × Uuid} {index : List (String × Uuid)}

theorem mem_insertDue {x entry : Time × Uuid} {index : List (Time × Uuid)} :
    x ∈ insertDue entry index ↔ x = entry ∨ x ∈ index := by
  induction index with
  | nil => simp [insertDue]
  | cons other rest ih =>
    rw [insertDue]
    split
    · next h => simp [h]
    · split
      · simp
      · simp only [List.mem_cons, ih]
        exact or_left_comm

theorem mem_insertTopic {x : String × Uuid} :
    x ∈ insertTopic entry index ↔ x = entry ∨ x ∈ index := by
  rw [insertTopic]
  split
  · next h => exact ⟨.inr, fun hx => hx.elim (fun hx => hx ▸ h) id⟩
  · rw [List.mem_append, List.mem_singleton, or_comm]

theorem nodup_insertTopic (h : index.Nodup) : (insertTopic entry index).Nodup := by
  rw [insertTopic]
  split
  · exact h
  · next hnew => exact h.append (List.nodup_singleton entry) (by simpa using hnew)

end Engine

namespace Filed

variable {l l' : List (String × Uuid)} {e e' : Engine}

section

variable (h : Filed l e)

include h

theorem shrink (honce : e'.serviceTaskTopicIndex.Nodup)
    (htimers : ∀ t ∈ e'.pendingTimers, (t.expiresAt, t.id) ∈ e'.timerDueIndex)
    (htasks : ∀ t ∈ e'.pendingServiceTasks, (t.topic, t.id) ∈ e'.serviceTaskTopicIndex)
    (hsub : ∀ x ∈ e'.serviceTaskTopicIndex ++ l', x ∈ e.serviceTaskTopicIndex ++ l)
    (hnext : e.nextUuid ≤ e'.nextUuid) : Filed l' e' :=
  ⟨honce, htimers, htasks, fun x hx y hy => h.topics x (hsub x hx) y (hsub y hy),
    fun x hx => lt_of_lt_of_le (h.drawn x (hsub x hx)) hnext⟩

theorem weaken (hl : ∀ x ∈ l', x ∈ l) : Filed l' e := by
  refine h.shrink h.once h.timers h.tasks (fun x hx => ?_) le_rfl
  exact List.mem_append.mpr ((List.mem_append.mp hx).imp_right (hl x))

theorem unlist (htimers : ∀ t ∈ e'.pendingTimers, (t.expiresAt, t.id) ∈ e'.timerDueIndex)
    (htasks : ∀ t ∈ e'.pendingServiceTasks, (t.topic, t.id) ∈ e'.serviceTaskTopicIndex)
    (hindex : e'.serviceTaskTopicIndex.Sublist e.serviceTaskTopicIndex)
    (hnext : e'.nextUuid = e.nextUuid) : Filed l e' := by
  refine h.shrink (h.once.sublist hindex) htimers htasks (fun x hx => ?_) hnext.ge
  exact List.mem_append.mpr ((List.mem_append.mp hx).imp_left (hindex.subset ·))

theorem file {p : Pending} (hp : p.wait.kind ≠ .serviceTask) : Filed l (e.insertPending p) := by
  cases p with
  | serviceTask => exact absurd rfl hp
  | timer =>
    refine h.unlist (fun u hu => ?_) h.tasks (List.Sublist.refl _) rfl
    rcases Table.mem_insert.mp hu with rfl | ⟨hu, _⟩
    · exact mem_insertDue.mpr (.inl rfl)
    · exact mem_insertDue.mpr (.inr (h.timers u hu))
  | userTask | message | signal | conditional => exact ⟨h.once, h.timers, h.tasks, h.topics,
    h.drawn⟩

theorem fileTask {task : PendingServiceTask} (ht : (task.topic, task.id) ∈ l) :
    Filed l (e.insertPending (.serviceTask task)) := by
  refine h.shrink (Engine.nodup_insertTopic h.once) h.timers (fun u hu => ?_) (fun x hx => ?_)
    le_rfl
  · rcases Table.mem_insert.mp hu with rfl | ⟨hu, _⟩
    · exact Engine.mem_insertTopic.mpr (.inl rfl)
    · exact Engine.mem_insertTopic.mpr (.inr (h.tasks u hu))
  · rcases List.mem_append.mp hx with hx | hx
    · rcases Engine.mem_insertTopic.mp hx with rfl | hx
      · exact List.mem_append_right _ ht
      · exact List.mem_append_left _ hx
    · exact List.mem_append_right _ hx

end

theorem mem_index_retain {α β : Type} [BEq β] [LawfulBEq β] {key : α → Uuid} {table : Table key}
    (entry : α → β) (hkey : ∀ t u, entry t = entry u → key t = key u) {index : List β}
    (hindex : ∀ t ∈ table, entry t ∈ index) {q : α → Bool} {t : α} (ht : t ∈ table.retain q) :
    entry t ∈ index.filter fun x =>
      !decide (x ∈ (table.retain fun t => !q t).entries.map entry) := by
  obtain ⟨ht, hq⟩ := Table.mem_retain.mp ht
  refine List.mem_filter.mpr ⟨hindex t ht, ?_⟩
  rw [Bool.not_eq_true', decide_eq_false_iff_not]
  intro hdropped
  obtain ⟨u, hu, heq⟩ := List.mem_map.mp hdropped
  obtain ⟨hu, hnq⟩ := Table.mem_retain.mp hu
  rw [Table.eq_of_key_eq hu ht (hkey u t heq), hq] at hnq
  cases hnq

theorem retain (h : Filed l e) (kind : WaitKind) (q : Wait → Bool) :
    Filed l (e.retainPending kind q) := by
  cases kind with
  | serviceTask =>
    refine h.unlist h.timers (fun _ ht => ?_) List.filter_sublist rfl
    exact mem_index_retain (q := fun t => q t.wait) (fun t : PendingServiceTask => (t.topic, t.id))
      (fun _ _ heq => congrArg Prod.snd heq) h.tasks ht
  | timer =>
    refine h.unlist (fun _ ht => ?_) h.tasks (List.Sublist.refl _) rfl
    exact mem_index_retain (q := fun t => q t.wait) (fun t : PendingTimer => (t.expiresAt, t.id))
      (fun _ _ heq => congrArg Prod.snd heq) h.timers ht
  | userTask | message | signal | conditional => exact ⟨h.once, h.timers, h.tasks, h.topics,
    h.drawn⟩

theorem migrate (h : Filed l e) (mapping : Map String String) (target i : Uuid) :
    Filed l (migrateWaits mapping target i e) := by
  refine ⟨h.once, fun t ht => ?_, fun t ht => ?_, h.topics, h.drawn⟩
  · rw [migrateWaits, Table.mem_mapEntries] at ht
    obtain ⟨u, hu, rfl⟩ := ht
    exact h.timers u hu
  · rw [migrateWaits, Table.mem_mapEntries] at ht
    obtain ⟨u, hu, rfl⟩ := ht
    exact h.tasks u hu

theorem stable (l : List (String × Uuid)) : Stable (Filed l) where
  draw _ h := ⟨h.once, h.timers, h.tasks, h.topics, fun x hx => Nat.lt_succ_of_lt (h.drawn x hx)⟩
  instances _ _ h := ⟨h.once, h.timers, h.tasks, h.topics, h.drawn⟩
  definitions _ _ h := ⟨h.once, h.timers, h.tasks, h.topics, h.drawn⟩
  clock _ _ h := ⟨h.once, h.timers, h.tasks, h.topics, h.drawn⟩
  taskHandlers _ _ h := ⟨h.once, h.timers, h.tasks, h.topics, h.drawn⟩
  inProcessInflight _ _ h := ⟨h.once, h.timers, h.tasks, h.topics, h.drawn⟩
  file _ _ hp h := h.file hp
  retain _ kind q h := h.retain kind q
  forget _ _ h :=
    ⟨h.once, h.timers, fun t ht => h.tasks t (Table.mem_retain.mp ht).1, h.topics, h.drawn⟩
  rewrite e id f hf h := by
    refine ⟨h.once, h.timers, fun t ht => ?_, h.topics, h.drawn⟩
    rcases (Table.mem_modify fun t => (hf t).1).mp ht with ⟨ht, _⟩ | ⟨u, hu, _, rfl⟩
    · exact h.tasks t ht
    · rw [(hf u).1, (hf u).2]
      exact h.tasks u hu
  unlist e topic id hid h := by
    refine h.unlist h.timers (fun t ht => List.mem_filter.mpr ⟨h.tasks t ht, ?_⟩)
      List.filter_sublist rfl
    rw [Bool.not_eq_true', decide_eq_false_iff_not]
    intro heq
    exact Table.find?_eq_none_iff.mp hid t ht (congrArg Prod.snd heq)
  migrate _ mapping target i h := h.migrate mapping target i

end Filed

/-! ## Programs that open service tasks -/

namespace Filed

variable {l : List (String × Uuid)} {e : Engine}

theorem reserve_mem (h : Filed l e) {x : String × Uuid} (hx : x ∈ e.serviceTaskTopicIndex) :
    Filed (x :: l) e := by
  refine h.shrink h.once h.timers h.tasks (fun y hy => ?_) le_rfl
  rcases List.mem_append.mp hy with hy | hy
  · exact List.mem_append_left _ hy
  · rcases List.mem_cons.mp hy with rfl | hy
    · exact List.mem_append_left _ hx
    · exact List.mem_append_right _ hy

/-- A task may be opened under a topic if its identifier is filed under that topic at most. -/
theorem reserve (h : Filed l e) {topic : String} {id : Uuid} (hid : id < e.nextUuid)
    (honly : ∀ x ∈ e.serviceTaskTopicIndex ++ l, x.2 = id → x.1 = topic) :
    Filed ((topic, id) :: l) e := by
  have hcases : ∀ x ∈ e.serviceTaskTopicIndex ++ (topic, id) :: l,
      x = (topic, id) ∨ x ∈ e.serviceTaskTopicIndex ++ l := by
    intro x hx
    rcases List.mem_append.mp hx with hx | hx
    · exact .inr (List.mem_append_left _ hx)
    · exact (List.mem_cons.mp hx).imp_right (List.mem_append_right _)
  refine ⟨h.once, h.timers, h.tasks, fun x hx y hy hxy => ?_, fun x hx => ?_⟩
  · rcases hcases x hx with rfl | hx <;> rcases hcases y hy with rfl | hy
    · rfl
    · exact (honly y hy hxy.symm).symm
    · exact honly x hx hxy
    · exact h.topics x hx y hy hxy
  · rcases hcases x hx with rfl | hx
    · exact hid
    · exact h.drawn x hx

theorem reserve_next (h : Filed l e) (topic : String) :
    Filed ((topic, e.nextUuid) :: l) { e with nextUuid := e.nextUuid + 1 } := by
  refine ((stable l).draw e h).reserve (Nat.lt_succ_self _) fun x hx hid => ?_
  exact absurd hid (h.drawn x hx).ne

end Filed

def NextAction.opened : NextAction → List PendingServiceTask
  | .waitForServiceTask task => [task]
  | _ => []

def StepOutcome.opened : StepOutcome → List PendingServiceTask
  | .action a => a.opened
  | _ => []

def topicEntries (tasks : List PendingServiceTask) : List (String × Uuid) :=
  tasks.map fun task => (task.topic, task.id)

namespace Eng

variable {env : Env} {i : Uuid} {d : ProcessDefinition} {node topic : String} {token : Token}
  {l : List (String × Uuid)} {e : Engine} {α : Type}

theorem newServiceTask_filed (x : ProcessInstance) (tokenId : Uuid) (vars : Variables) :
    Triple (Filed l) (newServiceTask x d node topic tokenId vars)
      (fun task => Filed ((task.topic, task.id) :: l)) fun _ => Filed l :=
  fun _ h => h.reserve_next topic

/-- What keeps the indexes and the reserved tasks may fail without them. -/
theorem forgetting {m : Eng α} (h : Keeps (Filed l) m) :
    Triple (Filed l) m (fun _ => Filed l) fun _ => Filed [] :=
  h.triple.mono (fun _ => id) (fun _ _ => id) fun _ _ h => h.weaken nofun

theorem itemTasks_filed (x : ProcessInstance) (elementVariable : Option String) (index : Nat)
    (items : List (Option Value)) :
    Triple (Filed l) (itemTasks x d node topic elementVariable token index items)
      (fun new => Filed (topicEntries new ++ l)) fun _ => Filed [] := by
  induction items generalizing index l with
  | nil => exact .pure fun _ h => h
  | cons item rest ih =>
    refine .bind (forgetting (ofResult_keeps _)) fun vars => ?_
    refine .bind ((newServiceTask_filed x token.id vars).mono (fun _ => id) (fun _ _ => id)
      fun _ _ h => h.weaken nofun) fun task => ?_
    refine .bind (ih (index + 1)) fun new => .pure fun e h => h.weaken fun t ht => ?_
    simpa [topicEntries, or_left_comm] using ht

theorem startMultiInstance_filed (mi : MultiInstanceDef) (items : List (Option Value)) :
    Triple (Filed []) (startMultiInstance i token d node topic mi items)
      (fun action => Filed (topicEntries action.opened)) fun _ => Filed [] := by
  have hprogress (l : List (String × Uuid)) (progress : MultiInstanceProgress) :=
    forgetting (m := startProgress i node token progress)
      (modifyInstance_keeps (Filed.stable l).loose _)
  refine .bind getInstance_keeps.triple fun x => .ite (fun _ => ?_) fun _ => ?_
  · refine .bind (ofResult_keeps _).triple fun vars =>
      .bind (newServiceTask_filed x token.id vars) fun first => ?_
    exact .bind (hprogress _ _) fun _ => .pure fun _ h => h
  · refine .bind (itemTasks_filed x _ 0 items) fun new => .bind (hprogress _ _) fun _ => ?_
    rw [List.append_nil]
    split
    · exact .pure fun _ h => h
    case h_2 first rest =>
      have hfile : Keeps (Filed (topicEntries (first :: rest)))
          (rest.forM fun task => insertPending (.serviceTask task)) :=
        .forM fun task ht => .modify fun e h =>
          h.fileTask (List.mem_cons_of_mem _ (List.mem_map_of_mem ht))
      refine .bind (forgetting hfile) fun _ => .pure fun _ h => h.weaken fun x hx => ?_
      exact List.mem_singleton.mp hx ▸ List.mem_cons_self

theorem handleServiceTask_filed (multiInstance : Option MultiInstanceDef) :
    Triple (Filed []) (handleServiceTask env i token d node topic multiInstance)
      (fun action => Filed (topicEntries action.opened)) fun _ => Filed [] := by
  have hP := Filed.stable []
  unfold handleServiceTask
  split
  · refine .bind (ofResult_keeps _).triple fun items => .ite (fun _ => ?_) fun _ => ?_
    · exact .bind (passThrow_keeps hP.calm).triple fun _ => .pure fun _ h => h
    · exact .bind (setupBoundaryEvents_keeps hP).triple fun _ => startMultiInstance_filed _ items
  · refine .bind (setupBoundaryEvents_keeps hP).triple fun _ => .bind getInstance_keeps.triple
      fun x => .bind (newServiceTask_filed x token.id token.vars) fun task => ?_
    exact .bind (forgetting (parkToken_keeps (Filed.stable _).calm)) fun _ => .pure fun _ h => h

theorem dispatch_opened {element : BpmnElement}
    (htask : ∀ topic mi, element ≠ .serviceTask topic mi) :
    Yields (dispatch env i token d node element) fun out => out.opened = [] := by
  intro e t out hx
  have hsuits := dispatch_suits e t out hx
  cases out with
  | throwSignal | compensate => rfl
  | action a =>
    cases a with
    | waitForServiceTask task => exact absurd rfl (hsuits.2 htask task)
    | _ => rfl

/-- The task that a step opens can be filed under its topic. -/
theorem executeStep_filed :
    Triple (Filed []) (executeStep env i token) (fun out => Filed (topicEntries out.opened))
      fun _ => Filed [] := by
  have hP := Filed.stable []
  have hdispatch (token : Token) (d : ProcessDefinition) (node : String) (element : BpmnElement) :
      Triple (Filed []) (dispatch env i token d node element)
        (fun out => Filed (topicEntries out.opened)) fun _ => Filed [] := by
    by_cases htask : ∃ topic mi, element = .serviceTask topic mi
    · obtain ⟨topic, mi, rfl⟩ := htask
      rw [dispatch, map_eq_pure_bind]
      exact .bind (handleServiceTask_filed mi) fun action => .pure fun _ h => h
    · have hother : ∀ topic mi, element ≠ .serviceTask topic mi :=
        fun topic mi h => htask ⟨topic, mi, h⟩
      intro e he
      have hkeeps : Keeps (Filed []) (dispatch env i token d node element) :=
        dispatch_keeps hP hother
      have hkept := hkeeps.triple e he
      rcases hx : exec (dispatch env i token d node element) e with ⟨error | out, e'⟩ <;>
        rw [hx] at hkept
      · exact hkept
      · dsimp only
        rwa [dispatch_opened hother e e' out hx]
  refine .bind definitionOf_keeps.triple fun d => ?_
  split
  · exact .throw fun _ => id
  · refine .bind (ofResult_keeps _).triple fun _ => .bind (ofResult_keeps _).triple fun _ =>
      .ite (fun _ => .bind (modifyInstance_keeps hP.loose _).triple fun _ => hdispatch _ _ _ _)
        fun _ =>
        hdispatch _ _ _ _

theorem handleNextAction_filed {tokenId : Uuid} {queue : List Token} {action : NextAction}
    (h : Filed (topicEntries action.opened) e) :
    Filed [] (after (handleNextAction env i tokenId node queue action) e) := by
  by_cases htask : ∃ task, action = .waitForServiceTask task
  · obtain ⟨task, rfl⟩ := htask
    have hwait : Keeps (Filed [(task.topic, task.id)])
        (onWait i (.waitingOnServiceTask task.id) (.serviceTask task) queue) :=
      .bind (modifyInstance_keeps (Filed.stable _).loose _) fun _ =>
        .bind (.modify fun _ h => h.fileTask List.mem_cons_self) fun _ => .pure _
    exact (hwait e h).weaken nofun
  · exact handleNextAction_keeps (Filed.stable []) (fun task heq => htask ⟨task, heq⟩) e
      (h.weaken nofun)

/-! ## Programs that put service tasks back -/

theorem claimTask_filed (taskId : Uuid) (workerId : String) :
    Triple (Filed []) (claimTask taskId workerId) (fun task => Filed [(task.topic, task.id)])
      fun _ => Filed [] := by
  intro e he
  have hread : exec (get : Eng Engine) e = (.ok e, e) := rfl
  rw [claimTask, exec_bind_ok hread]
  cases hfind : e.pendingServiceTasks.find? taskId with
  | none => exact he
  | some task =>
    have hreserved : Filed [(task.topic, task.id)] e :=
      he.reserve_mem (he.tasks task (Table.mem_of_find? hfind))
    dsimp only
    cases task.workerId with
    | none => exact he
    | some owner =>
      dsimp only
      by_cases howner : owner ≠ workerId
      · rw [if_pos howner]
        exact he
      · rw [if_neg howner]
        exact hreserved.retain .serviceTask _

theorem nextItemTask_filed (task : PendingServiceTask) (progress : MultiInstanceProgress)
    (elementVariable : Option String) (previous : Option ProcessInstance) :
    Triple (Filed l) (nextItemTask d task token progress elementVariable previous)
      (fun next => Filed ((next.topic, next.id) :: l)) fun _ => Filed l :=
  .bind (ofResult_keeps _).triple fun _ _ h => h.reserve_next task.topic

section Reserved

variable {task : PendingServiceTask} (ht : (task.topic, task.id) ∈ l)

include ht

theorem putBack_keeps : Keeps (Filed l) (insertPending (.serviceTask task)) :=
  .modify fun _ h => h.fileTask ht

theorem restoring_filed {m : Eng α} {Q : α → Engine → Prop} (rollback : Token)
    (previous : Option ProcessInstance) (hm : Triple (Filed l) m Q fun _ => Filed l) :
    Triple (Filed l) (restoring task rollback previous m) Q fun _ => Filed l :=
  .orElse hm fun _ => .bind (Keeps.bind (modifyInstance_keeps (Filed.stable l).loose _) fun _ =>
    putBack_keeps ht).triple fun _ => .throw fun _ => id

theorem rejectSuspended_keeps : Keeps (Filed l) (rejectSuspended task) :=
  .bind findInstance_keeps fun _ => .ite (fun _ => .bind (putBack_keeps ht) fun _ => .throw _)
    fun _ => .pure _

theorem leaveServiceTask_keeps (isMulti : Bool) (rollback : Token)
    (previous : Option ProcessInstance) :
    Keeps (Filed l) (leaveServiceTask env d task isMulti rollback token previous) := by
  have hP := Filed.stable l
  have hscripts (token : Token) : Keeps (Filed l) (restoring task rollback previous
      (runEndScripts env task.instanceId token d task.nodeId)) :=
    (restoring_filed ht rollback previous (runEndScripts_keeps hP.calm).triple).keeps
  exact .bind (cancelBoundaryTimers_keeps hP.shrinks) fun _ => .bind
    (cancelBoundaryWaits_keeps hP.shrinks) fun _ =>
    .bind (updateInstance_keeps hP.loose _) fun _ => .bind (hscripts _) fun _ =>
      .bind (resolveNextTarget_keeps _ _) fun _ => .bind (setCurrentNode_keeps hP.calm) fun _ =>
        .pure _

theorem settleItem_filed (progress : Option MultiInstanceProgress)
    (elementVariable : Option String) (sequential : Bool) (rollback : Token)
    (previous : Option ProcessInstance) :
    Keeps (Filed l)
      (settleItem env d task progress elementVariable sequential rollback token previous) := by
  unfold settleItem
  split
  · refine .ite (fun _ => Triple.keeps ?_) fun _ => ?_
    · refine .bind (restoring_filed ht rollback previous (nextItemTask_filed task _ _ _))
        fun next => ?_
      have hrest : Keeps (Filed ((next.topic, next.id) :: l)) (do
          countItem task token next.id
          insertPending (.serviceTask next)
          return Next.done) :=
        .bind (updateInstance_keeps (Filed.stable _).loose _) fun _ =>
          .bind (putBack_keeps List.mem_cons_self) fun _ => .pure _
      exact hrest.triple.mono (fun _ => id) (fun _ _ h => h.weaken fun _ => List.mem_cons_of_mem _)
        fun _ _ h => h.weaken fun _ => List.mem_cons_of_mem _
    · exact .bind (fun _ h => h) fun _ => .bind (updateInstance_keeps (Filed.stable l).loose _)
        fun _ =>
        .pure _
  · exact leaveServiceTask_keeps ht _ _ _

end Reserved

theorem claimed_keeps (taskId : Uuid) (workerId : String) {k : PendingServiceTask → Eng α}
    (h : ∀ task, Keeps (Filed [(task.topic, task.id)]) (k task)) :
    Keeps (Filed []) (claimTask taskId workerId >>= k) :=
  Triple.keeps (.bind (claimTask_filed taskId workerId) fun task =>
    (h task).triple.mono (fun _ => id) (fun _ _ h => h.weaken nofun) fun _ _ h => h.weaken nofun)

theorem completeServiceTask_filed (taskId : Uuid) (workerId : String) (vars : Variables) :
    Keeps (Filed []) (completeServiceTask env taskId workerId vars) := by
  refine claimed_keeps taskId workerId fun task => ?_
  have hmem : (task.topic, task.id) ∈ [(task.topic, task.id)] := List.mem_cons_self
  refine .bind (rejectSuspended_keeps hmem) fun _ => .bind findInstance_keeps fun previous =>
    .bind definitionOf_keeps fun d => .bind (.bind getInstance_keeps fun _ => .pure _)
      fun progress => .bind (acquireToken_keeps (Filed.stable _).calm _ _ _) fun rollback => ?_
  exact .bind (restoring_filed hmem rollback previous (ofResult_keeps _).triple).keeps fun token =>
    settleItem_filed hmem _ _ _ _ _

theorem errorIncident_keeps {task : PendingServiceTask} (ht : (task.topic, task.id) ∈ l)
    (errorCode : String) (errorMessage : Option String) :
    Keeps (Filed l) (errorIncident task errorCode errorMessage) :=
  .bind (newUuid_keeps (Filed.stable l).calm) fun _ => .bind now_keeps fun _ =>
    .bind (modifyInstance_keeps (Filed.stable l).loose _) fun _ => .modify fun _ h => h.fileTask ht

theorem handleBpmnError_filed (taskId : Uuid) (workerId errorCode : String) (vars : Variables)
    (errorMessage : Option String) :
    Keeps (Filed []) (handleBpmnError env taskId workerId errorCode vars errorMessage) := by
  refine claimed_keeps taskId workerId fun task => ?_
  have hP := Filed.stable [(task.topic, task.id)]
  refine .bind (modifyInstance_keeps hP.loose _) fun _ => .bind getInstance_keeps fun _ =>
    .bind (cancelBoundaryTimers_keeps hP.shrinks) fun _ => .bind
      (cancelBoundaryWaits_keeps hP.shrinks) fun _ =>
      .bind (findDefinition_keeps _) fun _ => ?_
  split
  · exact catchAtBoundary_keeps hP _ _ _
  · refine .bind tokenEventContext_keeps fun _ => .bind (tryActivateEventCode_keeps hP _ _ _ _)
      fun _ => ?_
    split
    · exact .pure _
    · exact .pure _
    · exact .bind (errorIncident_keeps List.mem_cons_self _ _) fun _ => .pure _

theorem applyTaskOutcome_filed (taskId : Uuid) (outcome : TaskOutcome) :
    Keeps (Filed []) (applyTaskOutcome env taskId outcome) := by
  cases outcome with
  | complete => exact completeServiceTask_filed _ _ _
  | failure => exact .bind (failServiceTask_keeps (Filed.stable []) _ _ _ _ _ _) fun _ => .pure _
  | bpmnError => exact handleBpmnError_filed _ _ _ _ _

end Eng

/-! ## Every step of the machine -/

namespace Config

variable {env : Env} {c c' : Config} {b : Batch}

/-- The rule for a part of a step that keeps the indexes. -/
theorem exec_filed {α : Type} {m : Eng α} {onError : EngineError → Config → Config}
    {k : α → Config → Config} (h : Filed [] c.engine) (hm : Keeps (Filed []) m)
    (herror : ∀ error c, Filed [] c.engine → Filed [] (onError error c).engine)
    (hk : ∀ a c, Filed [] c.engine → Filed [] (k a c).engine) :
    Filed [] (c.exec m onError k).engine := by
  have hafter := hm c.engine h
  unfold after at hafter
  refine exec_rule (P := fun c => Filed [] c.engine) (fun error e hx => ?_) fun a e hx => ?_
  · rw [hx] at hafter
    exact herror error _ hafter
  · rw [hx] at hafter
    exact hk a _ hafter

theorem fail_filed (error : EngineError) (c : Config) (h : Filed [] c.engine) :
    Filed [] (fail error c).engine := h

theorem failIn_filed (b : Batch) (error : EngineError) (c : Config) (h : Filed [] c.engine) :
    Filed [] (failIn b error c).engine :=
  exec_filed h (failStep_keeps (Filed.stable []).calm error) fail_filed fun _ => fail_filed error

theorem follow_filed (next : Next) (c : Config) (h : Filed [] c.engine) :
    Filed [] (follow next c).engine := by
  cases next <;> exact h

theorem act_filed {tokenId : Uuid} {node : String} {action : NextAction}
    (h : Filed (topicEntries action.opened) c.engine) :
    Filed [] (act env b tokenId node action c).engine := by
  have hafter : Filed [] (after (handleNextAction env b.instanceId tokenId node b.queue
      action) c.engine) := handleNextAction_filed h
  unfold after at hafter
  refine exec_rule (P := fun c => Filed [] c.engine) (fun error e hx => ?_) fun out e hx => ?_
  · rw [hx] at hafter
    exact hafter
  · rw [hx] at hafter
    cases out <;> exact hafter

theorem finishSignalThrow_opened (i : Uuid) (token : Token) (d : ProcessDefinition) (node : String)
    (isEnd : Bool) : Yields (finishSignalThrow env i token d node isEnd)
      fun action => action.opened = [] := by
  unfold finishSignalThrow
  split
  · exact .after fun _ => .pure rfl
  · exact .after fun _ => .pure rfl

theorem finishCompensation_opened (i : Uuid) (token : Token) (d : ProcessDefinition)
    (node : String) (activityRef : Option String) (isEnd : Bool) :
    Yields (finishCompensation env i token d node activityRef isEnd)
      fun action => action.opened = [] := by
  refine .after fun _ => ?_
  split
  · exact .pure rfl
  · exact .after fun _ => .pure rfl

section

variable (h : Filed [] c.engine)

include h

theorem stepToken_filed (token : Token) : Filed [] (stepToken env b token c).engine := by
  refine exec_rule (P := fun c => Filed [] c.engine) (fun error e hx => ?_) fun out e hx => ?_
  · exact failIn_filed b error _ (executeStep_filed.error h hx)
  · have hfiled := executeStep_filed.ok h hx
    cases out with
    | action => exact act_filed hfiled
    | throwSignal => exact exec_filed hfiled (fun _ h => h) (failIn_filed b) fun _ _ h => h
    | compensate => exact hfiled

theorem drain_filed : Filed [] (drain env b c).engine := by
  refine exec_filed h (fireConditionalCatches_keeps (Filed.stable [])) fail_filed
    fun fired c h => ?_
  cases fired with
  | nil => exact exec_filed h (finishBatch_keeps (Filed.stable [])) fail_filed follow_filed
  | cons => exact h

theorem stepBatch_filed : Filed [] (stepBatch env b c).engine := by
  unfold stepBatch
  split
  · exact drain_filed h
  · dsimp only
    split
    · exact exec_filed h (exceedLimit_keeps (Filed.stable [])) fail_filed fun _ _ h => h
    · exact stepToken_filed h _

theorem resumeStep_filed {token : Token} {finish : ProcessDefinition → Eng NextAction}
    (hkeeps : ∀ d, Keeps (Filed []) (finish d))
    (hnone : ∀ d, Yields (finish d) fun action => action.opened = []) :
    Filed [] (resumeStep env b token finish c).engine := by
  have hm : Keeps (Filed []) (Eng.definitionOf b.instanceId >>= finish) :=
    .bind definitionOf_keeps hkeeps
  have hafter := hm c.engine h
  unfold after at hafter
  refine exec_rule (P := fun c => Filed [] c.engine) (fun error e hx => ?_) fun action e hx => ?_
  · rw [hx] at hafter
    exact failIn_filed b error _ hafter
  · rw [hx] at hafter
    have hopened : action.opened = [] := Yields.after hnone _ _ _ hx
    refine act_filed ?_
    rwa [hopened]

theorem resumeSignal_filed (token : Token) (isEnd : Bool) (remaining : List Uuid) :
    Filed [] (resumeSignal env b token isEnd remaining c).engine := by
  cases remaining with
  | nil =>
    exact resumeStep_filed h (fun _ => finishSignalThrow_keeps (Filed.stable []) _)
      fun _ => finishSignalThrow_opened _ _ _ _ _
  | cons =>
    exact exec_filed h (deliverSignal_keeps (Filed.stable []) _ _) (failIn_filed b)
      fun next _ h => follow_filed next _ h

theorem resumeCompensation_filed (token : Token) (activityRef : Option String)
    (isEnd handlerRan : Bool) (remaining : List CompensationRecord) :
    Filed [] (resumeCompensation env b token activityRef isEnd handlerRan remaining c).engine := by
  cases remaining with
  | nil =>
    exact resumeStep_filed h (fun _ => finishCompensation_keeps (Filed.stable []) _ _)
      fun _ => finishCompensation_opened _ _ _ _ _ _
  | cons =>
    refine exec_filed h definitionOf_keeps (failIn_filed b) fun d c h => ?_
    split
    · exact exec_filed h (newToken_keeps (Filed.stable []).calm _) (failIn_filed b) fun _ _ h => h
    · exact h

theorem unwind_filed (s : Suspension) (result : EngineResult Unit) :
    Filed [] (unwind env s result c).engine := by
  cases result with
  | ok =>
    cases s with
    | signalThrow b token isEnd remaining => exact resumeSignal_filed h token isEnd remaining
    | compensation b token ref isEnd ran remaining =>
      exact resumeCompensation_filed h token ref isEnd ran remaining
    | call => exact h
  | error error =>
    cases s with
    | signalThrow b => exact failIn_filed b error c h
    | compensation b => exact failIn_filed b error c h
    | call =>
      have hP := Filed.stable []
      exact exec_filed h (.bind (modifyInstance_keeps hP.loose _) fun _ =>
        failCallActivity_keeps hP _) fail_filed fun _ _ h => h

/-! ### Going on with an operation -/

theorem nextTimer_filed (rest : List Uuid) : Filed [] (nextTimer env rest c).engine := by
  unfold nextTimer
  split
  · exact h
  · split
    · exact h
    · exact exec_filed (c := { c with driver := .timer _ false _ }) h
        (.bind (removePending_keeps (Filed.stable []).shrinks _ _) fun _ =>
          processExpiredTimer_keeps (Filed.stable []) _) fail_filed
        fun next _ h => follow_filed next.1 _ h

theorem settleTimer_filed (timer : PendingTimer) (rearm : Bool) (rest : List Uuid)
    (result : EngineResult Unit) : Filed [] (settleTimer env timer rearm rest result c).engine := by
  cases result with
  | ok =>
    cases rearm with
    | true =>
      exact exec_filed h (rearmTimer_keeps (Filed.stable []) timer) fail_filed fun _ _ h => h
    | false => exact h
  | error error =>
    exact exec_filed h (rescheduleFailedTimer_keeps (Filed.stable []) timer error) fail_filed
      fun _ _ h => h

theorem nextMessageCatch_filed (message : Correlation) (rest : List Uuid) :
    Filed [] (nextMessageCatch env message rest c).engine := by
  cases rest with
  | nil => exact exec_filed h (fun _ h => h) fail_filed fun _ _ h => h
  | cons =>
    exact exec_filed h (deliverMessage_keeps (Filed.stable []) _ _) fail_filed
      fun next _ h => follow_filed next _ h

theorem nextMessageStart_filed (message : Correlation) (started : Option Uuid) (rest : List Uuid) :
    Filed [] (nextMessageStart env message started rest c).engine := by
  refine exec_filed h (.forM fun _ _ => setBusinessKey_keeps (Filed.stable []) _) fail_filed
    fun _ c h => ?_
  cases rest with
  | nil => exact h
  | cons =>
    exact exec_filed h (startInstance_keeps (Filed.stable []) _ _ _ _ _) fail_filed fun _ _ h => h

theorem nextSignalCatch_filed (signalName : String) (vars : Variables) (rest : List Uuid) :
    Filed [] (nextSignalCatch env signalName vars rest c).engine := by
  cases rest with
  | nil => exact exec_filed h (fun _ h => h) fail_filed fun _ _ h => h
  | cons =>
    exact exec_filed h (deliverSignal_keeps (Filed.stable []) _ _) fail_filed
      fun next _ h => follow_filed next _ h

theorem nextSignalStart_filed (vars : Variables) (rest : List Uuid) :
    Filed [] (nextSignalStart env vars rest c).engine := by
  cases rest with
  | nil => exact h
  | cons =>
    exact exec_filed h (startInstance_keeps (Filed.stable []) _ _ _ _ _) fail_filed fun _ _ h => h

theorem drive_filed (result : EngineResult Unit) : Filed [] (drive env result c).engine := by
  unfold drive
  split
  · exact settleTimer_filed h _ _ _ _
  · exact h
  · exact h
  · exact nextTimer_filed h _
  · exact nextMessageCatch_filed h _ _
  · exact nextMessageStart_filed h _ _ _
  · exact nextSignalCatch_filed h _ _ _
  · exact nextSignalStart_filed h _ _

theorem internalStep_filed (hstep : c.internalStep env = some c') : Filed [] c'.engine := by
  unfold internalStep at hstep
  split at hstep
  · cases hstep
  · cases hstep
    exact stepBatch_filed h
  · cases hstep
    have hrest (stack : List Suspension) : Filed [] { c with stack := stack }.engine := h
    exact unwind_filed (hrest _) _ _
  · cases hstep
    exact drive_filed h _

/-! ### Operations -/

theorem operate_filed {m : Eng Next} (hm : Keeps (Filed []) m) : Filed [] (c.operate m).engine :=
  exec_filed h hm fail_filed follow_filed

theorem operateUnit_filed {m : Eng Unit} (hm : Keeps (Filed []) m) :
    Filed [] (c.operateUnit m).engine :=
  exec_filed h hm fail_filed fun _ _ h => h

theorem passDispatched_filed (permitted : Bool) : Filed [] (c.passDispatched permitted).engine := by
  unfold passDispatched
  split
  · exact h
  case h_2 task rest _ =>
    have hrest : Filed [] { c with dispatched := rest }.engine := h
    exact operateUnit_filed hrest (startHandlerInvocation_keeps (Filed.stable []) _ _)

theorem begin_filed (op : Op) : Filed [] (c.begin env op).engine := by
  have hP := Filed.stable []
  cases op with
  | deployDefinition => exact operateUnit_filed h (deployDefinition_keeps hP)
  | deleteDefinition => exact operateUnit_filed h (deleteDefinition_keeps hP _ _)
  | startInstance => exact operate_filed h (startInstanceWithVariables_keeps hP _ _)
  | startInstanceLatest => exact operate_filed h (startInstanceLatest_keeps hP _ _)
  | triggerTimerStart => exact operate_filed h (triggerTimerStart_keeps hP _ _)
  | startTimerInstance => exact operate_filed h (startTimerInstance_keeps hP _ _ _)
  | completeUserTask => exact operate_filed h (completeUserTask_keeps hP _ _)
  | fetchAndLock => exact exec_filed h (fetchAndLock_keeps hP _ _ _ _) fail_filed fun _ _ h => h
  | completeServiceTask => exact operate_filed h (completeServiceTask_filed _ _ _)
  | failServiceTask => exact operateUnit_filed h (failServiceTask_keeps hP _ _ _ _ _ _)
  | extendLock => exact operateUnit_filed h (extendLock_keeps hP _ _ _)
  | handleBpmnError => exact operate_filed h (handleBpmnError_filed _ _ _ _ _)
  | retryIncident => exact operateUnit_filed h (retryIncident_keeps hP _ _)
  | resolveIncident => exact operate_filed h (resolveIncident_keeps hP _ _)
  | dispatchHandlers =>
    exact exec_filed h (fetchAndLockInProcess_keeps hP _) fail_filed fun _ _ h => h
  | startHandlerInvocation permitted => exact passDispatched_filed h permitted
  | applyTaskOutcome =>
    rw [begin]
    split
    · exact operate_filed h (applyTaskOutcome_filed _ _)
    · exact h
  | endHandlerInvocation => exact operateUnit_filed h (endHandlerInvocation_keeps hP _)
  | registerTaskHandler => exact operateUnit_filed h (registerTaskHandler_keeps hP _)
  | unregisterTaskHandler => exact operateUnit_filed h (unregisterTaskHandler_keeps hP _)
  | processTimers => exact exec_filed h (fun _ h => h) fail_filed fun _ _ h => h
  | correlateMessage => exact exec_filed h (fun _ h => h) fail_filed fun _ _ h => h
  | correlateSignal => exact exec_filed h (fun _ h => h) fail_filed fun _ _ h => h
  | updateInstanceVariables => exact operate_filed h (updateInstanceVariables_keeps hP _)
  | suspendInstance => exact operateUnit_filed h (suspendInstance_keeps hP)
  | resumeInstance => exact operateUnit_filed h (resumeInstance_keeps hP)
  | moveToken => exact operate_filed h (moveToken_keeps hP _ _ _)
  | migrateInstance => exact operateUnit_filed h (migrateInstance_keeps hP _ _)
  | resolveInstanceIncident => exact operateUnit_filed h (resolveInstanceIncident_keeps hP _ _)
  | deleteInstance => exact operateUnit_filed h (deleteInstance_keeps hP)
  | tick => exact operateUnit_filed h (.modify fun e h => hP.clock e _ h)

theorem step_filed {move : Move} (hstep : c.step env move = some c') : Filed [] c'.engine := by
  cases move with
  | internal => exact internalStep_filed h hstep
  | op op =>
    obtain ⟨_, rfl⟩ : c.control = .idle ∧ c.begin env op = c' := by simpa [step] using hstep
    exact begin_filed h op

end

end Config

/-! ## Every state of a server -/

theorem Filed.load {l : List (String × Uuid)} {waits : List Pending} {e : Engine} (h : Filed l e)
    (hwaits : ∀ t, Pending.serviceTask t ∈ waits → (t.topic, t.id) ∈ l) :
    Filed l (waits.foldl (fun e p => e.insertPending p) e) := by
  induction waits generalizing e with
  | nil => exact h
  | cons p rest ih =>
    refine ih ?_ fun t ht => hwaits t (List.mem_cons_of_mem _ ht)
    cases p with
    | serviceTask t => exact h.fileTask (hwaits t List.mem_cons_self)
    | userTask | timer | message | signal | conditional => exact h.file nofun

theorem Filed.restore (r : Records) (clock : Time) : Filed [] (Engine.restore r clock) := by
  have hstart : Filed (r.serviceTasks.entries.map fun t => (t.topic, t.id))
      { Engine.new clock with
        definitions := r.definitions
        instances := r.instances
        nextUuid := r.nextUuid } := by
    refine ⟨List.nodup_nil, nofun, nofun, fun x hx y hy hxy => ?_, fun x hx => ?_⟩
    · obtain ⟨t, ht, rfl⟩ := List.mem_map.mp hx
      obtain ⟨u, hu, rfl⟩ := List.mem_map.mp hy
      rw [Table.eq_of_key_eq ht hu hxy]
    · obtain ⟨t, ht, rfl⟩ := List.mem_map.mp hx
      exact r.drawn t ht
  refine Filed.weaken (hstart.load fun t ht => List.mem_map.mpr ⟨t, ?_, rfl⟩) nofun
  simpa [Records.waits] using ht

namespace Server

variable {env : Env} {s s' : Server}

theorem reconcile_filed {c : Config} (h : Filed [] c.engine) (work : List Reconciliation) :
    Filed [] (reconcile env c work).config.engine := by
  cases work with
  | nil => exact h
  | cons first =>
    cases first with
    | examine instanceId =>
      have hafter : Filed [] (after (reconcileInstance env instanceId) c.engine) :=
        reconcileInstance_keeps (Filed.stable []) _ h
      rw [after] at hafter
      rw [reconcile]
      rcases hx : exec (reconcileInstance env instanceId) c.engine with
        ⟨error | tokens, e⟩ <;> rw [hx] at hafter <;> exact hafter
    | rerun =>
      rw [reconcile]
      split <;> exact h

theorem step_filed {move : ServerMove} (h : Filed [] s.config.engine)
    (hstep : s.step env move = some s') : Filed [] s'.config.engine := by
  cases move with
  | reconcile =>
    rw [step, reconcileStep] at hstep
    split at hstep
    · cases hstep
      exact h
    · cases hstep
      exact reconcile_filed h _
    · cases hstep
  | move m =>
    cases m with
    | internal =>
      obtain ⟨c, hc, rfl⟩ := Option.map_eq_some_iff.mp hstep
      exact Config.step_filed h hc
    | op =>
      rw [step] at hstep
      split at hstep
      · obtain ⟨c, hc, rfl⟩ := Option.map_eq_some_iff.mp hstep
        exact Config.step_filed h hc
      · cases hstep

theorem filed_of_reaches {r : Records} {clock : Time}
    (h : Reaches (step env) (fun _ _ => True) (boot env r clock) s) : Filed [] s.config.engine :=
  h.invariant (P := fun s => Filed [] s.config.engine) (Filed.restore r clock)
    fun _ _ _ hs _ hstep => step_filed hs hstep

end Server

end BpmnEngine
