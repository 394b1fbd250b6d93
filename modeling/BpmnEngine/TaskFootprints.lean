import BpmnEngine.ExecutorFootprints
import BpmnEngine.ServiceTasks

/-!
# Footprints of user tasks and service tasks

Completing, failing or resolving a task works for the instance of the task. A
completion that fails puts the task back under its identifier, and with it the state
that the instance had before; this is harmless as long as that instance had not ended.
-/
namespace BpmnEngine

open Effects (Respects)

namespace Eng

variable {env : Env} {fx : Effects} {n i taskId : Uuid} {task : PendingServiceTask}

theorem serviceTask_owner (hh : fx.Handles n i .serviceTask taskId) {e : Engine} (he : fx.Knows e)
    (hfound : e.pendingServiceTasks.find? taskId = some task) :
    task.id = taskId ∧ task.instanceId = i := by
  have hid := Table.key_of_find? hfound
  subst hid
  exact ⟨rfl, hh.owner (p := .serviceTask task) he (Table.mem_of_find? hfound)⟩

theorem continueAt_obeys (hw : fx.writes i) (token : Token) (node : String) :
    Obeys fx n (do
        setCurrentNode i node
        return Next.run i [{ token with currentNode := node }])
      fun _ next => next.Runs i :=
  .returns (setCurrentNode_stays hw _) fun _ _ _ => rfl

theorem respects_running : fx.Respects n i fun x =>
    { x with state := runningUnlessParallel x.state } :=
  .of_rest (.inr fun _ => runningUnlessParallel_awake _) fun _ => rfl

theorem leaveTask_obeys (hw : fx.writes i) (tokenId : Uuid) (node : String)
    (vars : Variables) {scripts : Token → ProcessDefinition → Eng Token}
    (hscripts : ∀ k, n ≤ k → ∀ t d, Stays fx k (scripts t d)) :
    Obeys fx n (leaveTask env i tokenId node vars scripts) fun _ next => next.Runs i := by
  refine .after (takeToken_stays hw _) fun k token hk => ?_
  refine .after (cancelBoundaryTimers_stays hw _) fun l _ hl => ?_
  refine .after (cancelBoundaryWaits_stays hw _) fun m _ hm => ?_
  refine .after (updateInstance_stays hw ?_) fun o _ ho => ?_
  · exact .of_rest (.inr fun _ => runningUnlessParallel_awake _) fun _ => rfl
  refine .after definitionOf_stays fun p d hp => ?_
  have hn : n ≤ p := hk.trans (hl.trans (hm.trans (ho.trans hp)))
  refine .after (hscripts p hn _ _) fun q token hq => ?_
  refine .after (registerCompensationHandler_stays hw _) fun u _ hu => ?_
  exact .after (resolveNextTarget_stays _ _) fun v next hv => continueAt_obeys hw _ _

theorem completeUserTask_obeys (hw : fx.writes i)
    (hh : fx.Handles n i .userTask taskId) (vars : Variables) :
    Obeys fx n (completeUserTask env taskId vars) fun _ next => next.Runs i := by
  rw [completeUserTask_eq]
  refine .bind get_obeys fun k e hk hknow => ?_
  split
  · exact .throw _
  case h_2 pending hfound =>
  have hid := Table.key_of_find? hfound
  subst hid
  have hi : pending.instanceId = i :=
    hh.owner (p := .userTask pending) hknow (Table.mem_of_find? hfound)
  have hfile : ∀ m, n ≤ m → fx.MayFile m (.userTask pending) := fun _ hm =>
    hh.mayFile (p := .userTask pending) hi hm
  refine .after (removePending_stays hh.removes) fun l _ hl => ?_
  refine .after findInstance_stays fun m found hm => ?_
  have hn : n ≤ m := hk.trans (hl.trans hm)
  refine .ite (fun _ => ?_) fun _ => ?_
  · exact .after (insertPending_stays (hfile m hn)) fun _ _ _ => .throw _
  subst hi
  refine leaveTask_obeys hw _ _ _ fun o ho t d => ?_
  refine .orElse (runEndScripts_stays hw) fun error => ?_
  refine .after (modifyInstance_stays hw
    (.of_rest (.inr fun _ => .inr ⟨rfl, rfl⟩) fun _ => rfl)) fun p _ hp => ?_
  exact .after (insertPending_stays (hfile p (hn.trans (ho.trans hp)))) fun _ _ _ =>
    .throw _

/-! ## The sections of a completion -/

theorem claimTask_obeys (hh : fx.Handles n i .serviceTask taskId) (workerId : String) :
    Obeys fx n (claimTask taskId workerId) fun _ task => task.id = taskId ∧ task.instanceId = i :=
      by
  refine .bind get_obeys fun k e hk hknow => ?_
  split
  · exact .throw _
  case h_2 task hfound =>
  split
  · exact .throw _
  refine .ite (fun _ => .throw _) fun _ => ?_
  refine .returns (removePending_stays hh.removes) fun _ _ _ => ?_
  exact serviceTask_owner hh hknow hfound

theorem refile_task (hh : fx.Handles n i .serviceTask taskId)
    (ht : task.id = taskId ∧ task.instanceId = i) {k : Uuid} (hk : n ≤ k) :
    fx.MayFile k (.serviceTask task) := by
  obtain ⟨rfl, hi⟩ := ht
  exact hh.mayFile (p := .serviceTask task) hi hk

theorem rejectSuspended_stays (hf : fx.MayFile n (.serviceTask task)) :
    Stays fx n (rejectSuspended task) := by
  refine .after findInstance_stays fun k found hk => ?_
  refine .ite (fun _ => ?_) fun _ => Stays.pure _
  exact .after (insertPending_stays (hf.mono hk)) fun _ _ _ => .throw _

theorem readProgress_stays (node : String) : Stays fx n (readProgress i node) :=
  getInstance_stays.returns

theorem acquireToken_stays (hw : fx.writes i) (hi : task.instanceId = i)
    (progress : Option MultiInstanceProgress) (elementVariable : Option String) :
    Stays fx n (acquireToken task progress elementVariable) := by
  subst hi
  refine .ite (fun _ => ?_) fun _ => ?_
  · refine .after getInstance_stays fun _ _ _ => ?_
    split
    · exact .throw _
    · exact Stays.pure _
  · exact (takeToken_stays hw _).returns

theorem restoring_obeys {α : Type} {Q : Uuid → α → Prop} (hw : fx.writes i)
    (hi : task.instanceId = i) (hf : fx.MayFile n (.serviceTask task))
    {previous : Option ProcessInstance} (he : fx.ends i) (token : Token) {m : Eng α}
    (hm : Obeys fx n m Q) : Obeys fx n (restoring task token previous m) Q := by
  subst hi
  refine .orElse hm fun error => ?_
  refine .after (.after (modifyInstance_stays hw ?_) fun k _ hk =>
    insertPending_stays (hf.mono hk)) fun _ _ _ => .throw _
  exact .of_rest (.inl he) fun _ => rfl

theorem countItem_stays (hw : fx.writes i) (hi : task.instanceId = i) (token : Token)
    (waitingFor : Uuid) : Stays fx n (countItem task token waitingFor) := by
  subst hi
  exact updateInstance_stays hw (.of_rest (.inr fun _ => .inr ⟨rfl, rfl⟩) fun _ => rfl)

theorem nextItemTask_obeys {d : ProcessDefinition} (task : PendingServiceTask) (token : Token)
    (progress : MultiInstanceProgress) (elementVariable : Option String)
    (previous : Option ProcessInstance) :
    Obeys fx n (nextItemTask d task token progress elementVariable previous)
      fun k t => (Pending.serviceTask t).Waits task.instanceId n k := by
  refine .after (ofResult_stays _) fun k vars hk => ?_
  refine .bind newUuid_obeys fun l id hl hid => ?_
  refine .after now_stays fun m clock hm => .pure fun o ho => ?_
  exact ⟨rfl, hk.trans hid.1, lt_of_lt_of_le hid.2 (hm.trans ho)⟩

theorem nextOpenTask_stays (task : PendingServiceTask) : Stays fx n (nextOpenTask env task) :=
  get_stays.returns

section Completion

variable {d : ProcessDefinition} {task : PendingServiceTask} {previous : Option ProcessInstance}

theorem leaveServiceTask_obeys (hw : fx.writes i) (hi : task.instanceId = i)
    (hf : fx.MayFile n (.serviceTask task)) (he : fx.ends i)
    (isMulti : Bool) (rollback token : Token) :
    Obeys fx n (leaveServiceTask env d task isMulti rollback token previous)
      fun _ next => next.Runs i := by
  subst hi
  refine .after (cancelBoundaryTimers_stays hw _) fun k _ hk => ?_
  refine .after (cancelBoundaryWaits_stays hw _) fun l _ hl => ?_
  refine .after (updateInstance_stays hw ?_) fun m _ hm => ?_
  · exact .of_rest (.inr fun _ => runningUnlessParallel_awake _) fun _ => rfl
  refine .after (restoring_obeys hw rfl (hf.mono (hk.trans (hl.trans hm))) he rollback
    (runEndScripts_stays hw)).stays fun o token ho => ?_
  refine .after (resolveNextTarget_stays _ _) fun p next hp => ?_
  exact continueAt_obeys hw _ _

theorem settleItem_obeys (hw : fx.writes i) (hi : task.instanceId = i)
    (hnew : fx.FilesFrom n i) (hf : fx.MayFile n (.serviceTask task))
    (he : fx.ends i) (progress : Option MultiInstanceProgress)
    (elementVariable : Option String) (sequential : Bool) (rollback token : Token) :
    Obeys fx n (settleItem env d task progress elementVariable sequential rollback token previous)
      fun _ next => next.Runs i := by
  unfold settleItem
  split
  · refine .ite (fun _ => ?_) fun _ => ?_
    · refine .bind (restoring_obeys hw hi hf he rollback
        (nextItemTask_obeys task token _ elementVariable previous)) fun k next hk hnext => ?_
      refine .after (countItem_stays hw hi _ _) fun l _ hl => ?_
      refine .returns (insertPending_stays ?_) fun _ _ _ => trivial
      exact (hnew.mayFile (hi ▸ hnext)).mono hl
    · refine .after (nextOpenTask_stays task) fun k next hk => ?_
      exact .returns (countItem_stays hw hi _ _) fun _ _ _ => trivial
  · exact leaveServiceTask_obeys hw hi hf he _ _ _

theorem completeServiceTask_obeys (hw : fx.writes i) (he : fx.ends i)
    (hnew : fx.FilesFrom n i) (hh : fx.Handles n i .serviceTask taskId) (workerId : String)
    (vars : Variables) :
    Obeys fx n (completeServiceTask env taskId workerId vars) fun _ next => next.Runs i := by
  refine .bind (claimTask_obeys hh workerId) fun k task hk htask => ?_
  have hi := htask.2
  refine .after (rejectSuspended_stays (refile_task hh htask hk)) fun l _ hl => ?_
  rw [hi]
  refine .after findInstance_stays fun m previous hm => ?_
  refine .after definitionOf_stays fun o d ho => ?_
  refine .after (readProgress_stays _) fun p progress hp => ?_
  refine .after (acquireToken_stays hw hi _ _) fun q rollback hq => ?_
  have hn : n ≤ q := hk.trans (hl.trans (hm.trans (ho.trans (hp.trans hq))))
  refine .after (restoring_obeys hw hi (refile_task hh htask hn) he rollback
    (ofResult_stays _)) fun r token hr' => ?_
  have hn' : n ≤ r := hn.trans hr'
  exact settleItem_obeys hw hi (hnew.mono hn') (refile_task hh htask hn') he _ _ _ _ _

end Completion

/-! ## Failing, extending and retrying -/

theorem modifyServiceTask_stays (id : Uuid) (f : PendingServiceTask → PendingServiceTask)
    (hf : ∀ t, (f t).wait = t.wait) : Stays fx n (modifyServiceTask id f) := by
  have hkey : ∀ t, (f t).id = t.id := fun t => congrArg Wait.id (hf t)
  refine .modify fun e _ => .drop (q := fun _ => true) ⟨rfl, rfl, rfl, rfl⟩ (fun w => ?_)
    fun w hw => by cases hw
  simp only [Engine.mem_waits, and_true]
  have hsame : (∃ t ∈ e.pendingServiceTasks.modify id f, t.wait = w) ↔
      ∃ t ∈ e.pendingServiceTasks, t.wait = w := by
    constructor
    · rintro ⟨t, ht, rfl⟩
      rcases (Table.mem_modify hkey).mp ht with ⟨ht, _⟩ | ⟨t', ht', _, rfl⟩
      · exact ⟨t, ht, rfl⟩
      · exact ⟨t', ht', (hf t').symm⟩
    · rintro ⟨t, ht, rfl⟩
      by_cases hid : t.id = id
      · exact ⟨f t, (Table.mem_modify hkey).mpr (.inr ⟨t, ht, hid, rfl⟩), hf t⟩
      · exact ⟨t, (Table.mem_modify hkey).mpr (.inl ⟨ht, hid⟩), rfl⟩
  rw [hsame]

theorem getServiceTask_obeys (hh : fx.Handles n i .serviceTask taskId) :
    Obeys fx n (getServiceTask taskId) fun _ task => task.id = taskId ∧ task.instanceId = i := by
  refine .bind get_obeys fun k e hk hknow => ?_
  split
  · exact .throw _
  case h_2 task hfound => exact .pure fun _ _ => serviceTask_owner hh hknow hfound

theorem verifyLockOwnership_stays (owner : Option String) (workerId : String) :
    Stays fx n (verifyLockOwnership taskId owner workerId) := by
  unfold verifyLockOwnership
  split
  · exact .throw _
  · exact Obeys.ite (fun _ => Obeys.throw _) fun _ => Stays.pure _

theorem failServiceTask_stays (hw : fx.writes i) (hh : fx.Handles n i .serviceTask taskId)
    (workerId : String) (retries : Option Int) (message details : Option String)
    (retryAfter : Nat) :
    Stays fx n (failServiceTask taskId workerId retries message details retryAfter) := by
  refine Obeys.bind (getServiceTask_obeys hh) fun k task hk htask => ?_
  refine .after (verifyLockOwnership_stays _ _) fun l _ hl => ?_
  refine .after now_stays fun m clock hm => ?_
  refine .after (modifyServiceTask_stays _ _ fun _ => rfl) fun o _ ho => ?_
  refine Obeys.ite (fun _ => ?_) fun _ => Stays.pure _
  refine .after newUuid_obeys.stays fun p id hp => ?_
  exact modifyInstance_stays (htask.2 ▸ hw) (respects_pushOrTouchIncident ..)

theorem extendLock_stays (workerId : String) (additional : Int) :
    Stays fx n (extendLock taskId workerId additional) := by
  refine .bind (.bind get_stays fun _ _ _ => ?_) fun k task hk => ?_
  · split
    · exact .throw _
    · exact Stays.pure _
  refine .after (verifyLockOwnership_stays _ _) fun l _ hl => ?_
  exact .after now_stays fun m clock hm => modifyServiceTask_stays _ _ fun _ => rfl

theorem retryIncident_stays (retries : Option Int) : Stays fx n (retryIncident taskId retries) := by
  refine .bind (.bind get_stays fun _ _ _ => ?_) fun k task hk => ?_
  · split
    · exact .throw _
    · exact Stays.pure _
  exact .ite (fun _ => .throw _) fun _ => modifyServiceTask_stays _ _ fun _ => rfl

section

variable (hw : fx.writes i)

include hw

theorem resolveIncident_obeys (hh : fx.Handles n i .serviceTask taskId) (vars : Variables) :
    Obeys fx n (resolveIncident env taskId vars) fun _ next => next.Runs i := by
  rw [resolveIncident_eq]
  refine .bind (getServiceTask_obeys hh) fun k task hk htask => ?_
  refine .ite (fun _ => .throw _) fun _ => ?_
  rw [htask.2]
  refine .after (removePending_stays hh.removes) fun l _ hl => ?_
  exact leaveTask_obeys hw _ _ _ fun _ _ _ _ => runEndScripts_stays hw

/-! ## BPMN errors -/

section

variable (hi : task.instanceId = i)

include hi

theorem recordErrorVariables_stays (vars : Variables) :
    Stays fx n (recordErrorVariables task vars) := by
  subst hi
  exact modifyInstance_stays hw (.of_same fun _ => rfl)

theorem catchAtBoundary_obeys (boundary : String) (vars : Variables) :
    Obeys fx n (catchAtBoundary env task boundary vars) fun _ next => next.Runs i := by
  subst hi
  refine .after (updateInstance_stays hw ?_) fun k _ hk => ?_
  · exact .of_rest (.inr fun _ => .inr ⟨rfl, rfl⟩) fun _ => rfl
  refine .after (takeToken_stays hw _) fun l token hl => ?_
  refine .after definitionOf_stays fun m d hm => ?_
  refine .after (resolveNextTarget_stays _ _) fun o next ho => ?_
  refine .after (updateInstance_stays hw (.of_same fun _ => rfl)) fun _ _ _ =>
    .pure fun _ _ => rfl

theorem errorIncident_stays (hf : fx.MayFile n (.serviceTask task)) (code : String)
    (message : Option String) : Stays fx n (errorIncident task code message) := by
  subst hi
  refine .bind newUuid_obeys.stays fun k id hk => ?_
  refine .after now_stays fun l clock hl => ?_
  refine .after (modifyInstance_stays hw (respects_pushOrTouchIncident ..)) fun m _ hm => ?_
  exact insertPending_stays ⟨hf.files, lt_of_lt_of_le hf.drawn (hk.trans (hl.trans hm))⟩

end

end

theorem handleBpmnError_obeys (hg : fx.Governs i) (hh : fx.Handles n i .serviceTask taskId)
    (workerId code : String) (vars : Variables) (message : Option String) :
    Obeys fx n (handleBpmnError env taskId workerId code vars message)
      fun _ next => next.Runs i := by
  have hw := hg.writes
  refine .bind (claimTask_obeys hh workerId) fun k task hk htask => ?_
  dsimp only
  rw [htask.2]
  refine .after (recordErrorVariables_stays hw htask.2 _) fun l _ hl => ?_
  refine .after getInstance_stays fun m x hm => ?_
  refine .after (cancelBoundaryTimers_stays hw _) fun o _ ho => ?_
  refine .after (cancelBoundaryWaits_stays hw _) fun p _ hp => ?_
  refine .after (findDefinition_stays _) fun q d hq => ?_
  split
  · exact catchAtBoundary_obeys hw htask.2 _ _
  refine .after (tokenEventContext_stays _) fun r context hr' => ?_
  have hn : n ≤ r := hk.trans (hl.trans (hm.trans (ho.trans (hp.trans (hq.trans hr')))))
  refine .after (tryActivateEventCode_stays hg) fun s activation hs => ?_
  split
  · exact .pure fun _ _ => rfl
  · exact .pure fun _ _ => rfl
  · exact .after (errorIncident_stays hw htask.2 (refile_task hh htask (hn.trans hs)) _ _)
      fun _ _ _ => .pure fun _ _ => trivial

/-! ## Fetching and handlers -/

theorem modify_stays {f : Engine → Engine} (hcore : ∀ e, SameCore e (f e))
    (hwaits : ∀ e, (f e).waits = e.waits) : Stays fx n (modify f : Eng PUnit) :=
  .modify fun e _ => .drop (q := fun _ => true) (hcore e) (fun w => by simp [hwaits])
    fun w hw => by cases hw

theorem lockCandidates_stays (workerId : String) (topics : List (String × Int))
    (audience : FetchAudience) (room : Nat) (candidates : List (String × Uuid)) :
    Stays fx n (lockCandidates workerId topics audience room candidates) := by
  induction candidates generalizing n room with
  | nil => cases room <;> exact .pure _
  | cons c rest ih =>
    cases room with
    | zero => exact .pure _
    | succ room =>
      refine .bind get_stays fun k e hk => ?_
      split
      · exact .after (modify_stays (fun _ => ⟨rfl, rfl, rfl, rfl⟩) fun _ => rfl) fun _ _ _ => ih _
      · refine .ite (fun _ => ?_) fun _ => ih _
        refine .after (modifyServiceTask_stays _ _ fun _ => rfl) fun l _ hl => ?_
        exact (ih room).returns

theorem fetchAndLock_stays (workerId : String) (maxTasks : Nat) (topics : List (String × Int))
    (audience : FetchAudience) : Stays fx n (fetchAndLock env workerId maxTasks topics audience) :=
  .bind get_stays fun _ _ _ => lockCandidates_stays _ _ _ _ _

theorem fetchAndLockInProcess_stays (maxTasks : Nat) :
    Stays fx n (fetchAndLockInProcess env maxTasks) := by
  refine .after get_stays fun k e hk => ?_
  exact .ite (fun _ => Stays.pure _) fun _ => fetchAndLock_stays _ _ _ _

theorem startHandlerInvocation_stays (task : PendingServiceTask) (permitted : Bool) :
    Stays fx n (startHandlerInvocation task permitted) := by
  refine .bind get_stays fun k e hk => ?_
  refine .ite (fun _ => ?_) fun _ => ?_
  · exact modify_stays (fun _ => ⟨rfl, rfl, rfl, rfl⟩) fun _ => rfl
  · refine .after get_stays fun l e hl => ?_
    split
    · exact Stays.pure _
    · exact .ite (fun _ => modifyServiceTask_stays _ _ fun _ => rfl) fun _ => Stays.pure _

theorem endHandlerInvocation_stays : Stays fx n (endHandlerInvocation taskId) :=
  modify_stays (fun _ => ⟨rfl, rfl, rfl, rfl⟩) fun _ => rfl

end Eng

end BpmnEngine
