import BpmnEngine.FailedCompletions
import BpmnEngine.InstanceLocks
import BpmnEngine.ScopeInterruption
import BpmnEngine.StablePrograms

/-!
# What a completion does to other activations

A task belongs to the activation of its activity by one token. Completing the task,
resolving it by hand or throwing an error from it ends this activation. The boundary
events are cancelled by the node they are attached to and not by token, so the waits of
another token in the same activity go as well.
-/
namespace BpmnEngine

open Program Eng Engine

/-- The waits of other tokens than that of the task are those of `e` that are not cancelled. -/
structure Others (e : Engine) (task : Pending) (cancelled : Wait → Prop) (s : Engine) : Prop where
  drawn : e.nextUuid ≤ s.nextUuid
  holds : ∀ p, p.wait.tokenId ≠ task.wait.tokenId → (s.Holds p ↔ e.Holds p ∧ ¬cancelled p.wait)

/-- The activity of the task has not been left so far: no wait of another token is gone, and every
instance runs its definition. -/
structure Inside (e : Engine) (task : Pending) (s : Engine) : Prop extends
    Others e task (fun _ => False) s where
  definitions : s.definitions = e.definitions
  keys : ∀ j, (s.instances.find? j).map ProcessInstance.definitionKey =
    (e.instances.find? j).map ProcessInstance.definitionKey

theorem Engine.AtBoundary.of_keys {e s : Engine} {i : Uuid} {activity : String} {w : Wait}
    (hdefinitions : s.definitions = e.definitions)
    (hkeys : (s.instances.find? i).map ProcessInstance.definitionKey =
      (e.instances.find? i).map ProcessInstance.definitionKey) :
    s.AtBoundary i activity w ↔ e.AtBoundary i activity w := by
  have hread (t : Engine) : t.AtBoundary i activity w ↔ w.instanceId = i ∧ ∃ key d,
      (t.instances.find? i).map ProcessInstance.definitionKey = some key ∧
      t.definitions.find? key = some d ∧
      w.nodeId ∈ boundaryNodes d activity w.kind.boundarySort := by
    simp [Engine.AtBoundary]
  rw [hread, hread, hdefinitions, hkeys]

namespace Others

variable {e s : Engine} {task : Pending} {cancelled : Wait → Prop}

theorem modify (h : Others e task cancelled s) (i : Uuid) (f : ProcessInstance → ProcessInstance) :
    Others e task cancelled (s.modifyInstance i f) :=
  ⟨h.drawn, fun p hp => holds_modifyInstance.trans (h.holds p hp)⟩

theorem draw (h : Others e task cancelled s) :
    Others e task cancelled { s with nextUuid := s.nextUuid + 1 } :=
  ⟨Nat.le_succ_of_le h.drawn, fun p hp => by
    have hsame : ({ s with nextUuid := s.nextUuid + 1 } : Engine).Holds p ↔ s.Holds p := by
      cases p <;> rfl
    exact hsame.trans (h.holds p hp)⟩

theorem key_ne (htask : e.Holds task) {p : Pending} (hp : e.Holds p)
    (htoken : p.wait.tokenId ≠ task.wait.tokenId) :
    ¬(p.wait.kind = task.wait.kind ∧ p.wait.id = task.wait.id) := by
  rintro ⟨hkind, hid⟩
  exact htoken (congrArg (·.wait.tokenId) (hp.eq_of_wait htask hkind hid))

section

variable (h : Others e task cancelled s)

include h

theorem remove (htask : e.Holds task) :
    Others e task cancelled (s.removePending task.wait.kind task.wait.id) := by
  refine ⟨?_, fun p hp => ?_⟩
  · rw [Engine.removePending, (sameCore_retainPending s _ _).nextUuid]
    exact h.drawn
  · rw [holds_removePending, h.holds p hp]
    exact and_iff_left_of_imp fun hheld => key_ne htask hheld.1 hp

theorem file (htask : e.Holds task) (hdrawn : e.Drawn) {q : Pending}
    (htoken : q.wait.tokenId = task.wait.tokenId)
    (hkey : q.wait.kind = task.wait.kind ∧ q.wait.id = task.wait.id ∨ e.nextUuid ≤ q.wait.id) :
    Others e task cancelled (s.insertPending q) := by
  refine ⟨s.nextUuid_insertPending q ▸ h.drawn, fun p hp => ?_⟩
  rw [holds_insertPending, h.holds p hp]
  have hne : p ≠ q := by
    rintro rfl
    exact hp htoken
  have hother : e.Holds p → ¬(p.wait.kind = q.wait.kind ∧ p.wait.id = q.wait.id) := by
    rintro hheld ⟨hkind, hid⟩
    rcases hkey with hkey | hkey
    · exact key_ne htask hheld hp ⟨hkind.trans hkey.1, hid.trans hkey.2⟩
    · exact absurd (hdrawn.waits _ hheld.mem_waits) (Nat.not_lt.mpr (hid ▸ hkey))
  constructor
  · rintro (heq | ⟨hheld, -⟩)
    · exact absurd heq hne
    · exact hheld
  · exact fun hheld => .inr ⟨hheld, hother hheld.1⟩

theorem unchanged_iff : (∀ p, p.wait.tokenId ≠ task.wait.tokenId → (s.Holds p ↔ e.Holds p)) ↔
      ∀ w ∈ e.waits, w.tokenId ≠ task.wait.tokenId → ¬cancelled w := by
  constructor
  · intro hall w hw htoken
    obtain ⟨p, hp, rfl⟩ := exists_holds hw
    exact ((h.holds p htoken).mp ((hall p htoken).mpr hp)).2
  · intro hall p htoken
    rw [h.holds p htoken]
    exact and_iff_left_of_imp fun hp => hall _ hp.mem_waits htoken

end

end Others

namespace Inside

variable {e s : Engine} {task : Pending}

theorem start (e : Engine) (task : Pending) : Inside e task e :=
  ⟨⟨le_rfl, fun _ _ => by simp⟩, rfl, fun _ => rfl⟩

theorem modify (h : Inside e task s) (i : Uuid) {f : ProcessInstance → ProcessInstance}
    (hf : ∀ x, (f x).definitionKey = x.definitionKey) : Inside e task (s.modifyInstance i f) := by
  refine ⟨h.toOthers.modify i f, h.definitions, fun j => ?_⟩
  rw [← h.keys j]
  by_cases hj : j = i
  · subst hj
    rw [find?_modifyInstance_self, Option.map_map]
    exact congrArg (fun g => Option.map g _) (funext hf)
  · rw [find?_modifyInstance_of_ne hj]

theorem remove (h : Inside e task s) (htask : e.Holds task) :
    Inside e task (s.removePending task.wait.kind task.wait.id) := by
  have hcore := sameCore_retainPending s task.wait.kind fun w => !decide (w.id = task.wait.id)
  exact ⟨h.toOthers.remove htask, hcore.definitions.trans h.definitions, fun j => by
    rw [Engine.removePending, hcore.instances, h.keys j]⟩

theorem file (h : Inside e task s) (htask : e.Holds task)
    (hdrawn : e.Drawn) : Inside e task (s.insertPending task) :=
  ⟨h.toOthers.file htask hdrawn rfl (.inl ⟨rfl, rfl⟩),
    (s.definitions_insertPending task).trans h.definitions, fun j => by
      rw [s.instances_insertPending, h.keys j]⟩

end Inside

namespace Eng

variable {env : Env} {e s : Engine} {task : Pending} {cancelled : Wait → Prop} {i tokenId : Uuid}
  {d : ProcessDefinition} {node : String} {token rollback : Token} {α β : Type} {m : Eng α}
  {previous : Option ProcessInstance} {elementVariable : Option String}
  {progress : Option MultiInstanceProgress} {handler : EventSubProcess} {vars : Variables}

/-! ## Programs that leave the waits of other tokens alone -/

theorem modifyInstance_others (f : ProcessInstance → ProcessInstance) :
    Keeps (Others e task cancelled) (modifyInstance i f) :=
  .modify fun _ h => h.modify i f

theorem updateInstance_others (f : ProcessInstance → ProcessInstance) :
    Keeps (Others e task cancelled) (updateInstance i f) :=
  .bind getInstance_keeps fun _ => modifyInstance_others f

theorem Others.calm : Calm (Others e task cancelled) where
  draw _ h := h.draw
  write _ j f _ h := h.modify j f

theorem Inside.calm : Calm (Inside e task) where
  draw _ h := ⟨h.toOthers.draw, h.definitions, h.keys⟩
  write _ j _ hf h := h.modify j fun x => (hf x).definitionKey

theorem registerCompensationHandler_others :
    Keeps (Others e task cancelled) (registerCompensationHandler i node d) := by
  unfold registerCompensationHandler
  split
  · exact modifyInstance_others _
  · exact .pure _

theorem goOn_others :
    Keeps (Others e task cancelled) (do
      let next ← resolveNextTarget env d node token.vars
      setCurrentNode i next
      return Next.run i [{ token with currentNode := next }]) :=
  .bind (resolveNextTarget_keeps _ _) fun _ => .bind (updateInstance_others _) fun _ => .pure _

/-! ## Leaving the activity -/

theorem exec_cancelBoundaryEvents_others (hs : Inside e task s) (i : Uuid) (node : String) :
    ∃ s₁ s₂, exec (cancelBoundaryTimers i node) s = (.ok (), s₁) ∧
      exec (cancelBoundaryWaits i node) s₁ = (.ok (), s₂) ∧ SameCore s s₂ ∧
      Others e task (e.AtBoundary i node) s₂ := by
  obtain ⟨s₁, s₂, h₁, h₂, hcore, hholds⟩ := exec_cancelBoundaryEvents i node s
  refine ⟨s₁, s₂, h₁, h₂, hcore, hcore.nextUuid.symm ▸ hs.drawn, fun p hp => ?_⟩
  rw [hholds, hs.holds p hp, Engine.AtBoundary.of_keys hs.definitions (hs.keys i)]
  simp

/-- A program that returns has cancelled the waits of other tokens that satisfy `cancelled`; one
that fails has cancelled no others. -/
def Cancelling (e : Engine) (task : Pending) (cancelled : Wait → Prop) (m : Eng α) : Prop :=
  Triple (Inside e task) m (fun _ => Others e task cancelled) fun _ s =>
    ∃ some, (∀ w, some w → cancelled w) ∧ Others e task some s

namespace Cancelling

variable {f : α → Eng β}

theorem after (hm : Keeps (Inside e task) m) (hf : ∀ a, Cancelling e task cancelled (f a)) :
    Cancelling e task cancelled (m >>= f) :=
  .bind (hm.triple.mono (fun _ h => h) (fun _ _ h => h) fun _ _ h =>
    ⟨_, fun _ hfalse => hfalse.elim, h.toOthers⟩) hf

theorem after_yields {Q : α → Prop} (hm : Keeps (Inside e task) m) (hQ : Yields m Q)
    (hf : ∀ a, Q a → Cancelling e task cancelled (f a)) :
    Cancelling e task cancelled (m >>= f) := by
  intro s hs
  rw [exec_bind]
  have hP := hm s hs
  unfold Program.after at hP
  rcases hx : exec m s with ⟨error | a, t⟩ <;> rw [hx] at hP
  · exact ⟨_, fun _ hfalse => hfalse.elim, hP.toOthers⟩
  · exact hf a (hQ s t a hx) t hP

theorem of_keeps (hm : Keeps (Others e task cancelled) m) (hnone : ∀ w, ¬cancelled w) :
    Cancelling e task cancelled m := by
  have hsame : cancelled = fun _ => False := funext fun w => eq_false (hnone w)
  subst hsame
  exact hm.triple.mono (fun _ h => h.toOthers) (fun _ _ h => h) fun _ _ h => ⟨_, fun _ hw => hw, h⟩

theorem boundary {f : PUnit → PUnit → Eng α}
    (hf : ∀ u v, Keeps (Others e task (e.AtBoundary i node)) (f u v)) :
    Cancelling e task (e.AtBoundary i node) (do
      let u ← cancelBoundaryTimers i node
      let v ← cancelBoundaryWaits i node
      f u v) := by
  intro s hs
  obtain ⟨s₁, s₂, h₁, h₂, _, hothers⟩ := exec_cancelBoundaryEvents_others hs i node
  rw [exec_bind_ok h₁, exec_bind_ok h₂]
  exact (hf _ _).triple.mono (fun _ h => h) (fun _ _ h => h)
    (fun _ _ h => ⟨_, fun _ hw => hw, h⟩) s₂ hothers

end Cancelling

/-- What became of the waits of other tokens when a request returned or failed. -/
def Outcome (e : Engine) (task : Pending) (cancelled : Wait → Prop) (result : EngineResult α)
    (e' : Engine) : Prop :=
  ((∃ a, result = .ok a) → Others e task cancelled e') ∧
    ∃ some, (∀ w, some w → cancelled w) ∧ Others e task some e'

theorem Cancelling.outcome (h : Cancelling e task cancelled m) {e' : Engine}
    {result : EngineResult α} (hs : Inside e task s) (hx : exec m s = (result, e')) :
    Outcome e task cancelled result e' := by
  cases result with
  | error => exact ⟨fun hreturned => absurd hreturned.choose_spec nofun, Triple.error h hs hx⟩
  | ok =>
    have hothers := Triple.ok h hs hx
    exact ⟨fun _ => hothers, _, fun _ hw => hw, hothers⟩

/-! ## User tasks -/

theorem leaveTask_cancels {p : Pending} {scripts : Token → ProcessDefinition → Eng Token}
    (h : ∀ t d, Keeps (Others e p (e.AtBoundary p.wait.instanceId node)) (scripts t d)) :
    Cancelling e p (e.AtBoundary p.wait.instanceId node)
      (leaveTask env p.wait.instanceId tokenId node vars scripts) :=
  .after (takeToken_keeps Inside.calm) fun _ => .boundary fun _ _ => .bind
    (updateInstance_others _) fun _ =>
    .bind definitionOf_keeps fun _ => .bind (h _ _) fun _ =>
      .bind registerCompensationHandler_others fun _ => goOn_others

theorem completeUserTask_cancels {taskId : Uuid} {task : PendingUserTask} {e' : Engine}
    {result : EngineResult Next} (hdrawn : e.Drawn)
    (htask : e.pendingUserTasks.find? taskId = some task)
    (h : exec (completeUserTask env taskId vars) e = (result, e')) :
    Outcome e (.userTask task) (e.AtBoundary task.instanceId task.nodeId) result e' := by
  have hholds : e.Holds (.userTask task) := Table.mem_of_find? htask
  obtain rfl : task.taskId = taskId := Table.key_of_find? htask
  rw [completeUserTask_eq, exec_bind_ok (exec_get e), htask] at h
  have hremove : Keeps (Inside e (.userTask task)) (removePending .userTask task.taskId) :=
    .modify fun _ h => h.remove hholds
  refine Cancelling.outcome (.after hremove fun _ => .after findInstance_keeps fun found => ?_)
    (Inside.start e _) h
  show Cancelling _ _ _ (if _ then _ else _)
  split
  · exact .after (.modify fun _ h => h.file hholds hdrawn) fun _ =>
      .throw fun _ h => ⟨_, fun _ hfalse => hfalse.elim, h.toOthers⟩
  · exact leaveTask_cancels (p := .userTask task) fun _ _ => .orElse
      (runEndScripts_keeps Others.calm) fun _ =>
      .bind (modifyInstance_others _) fun _ =>
        .bind (.modify fun _ h => h.file hholds hdrawn rfl (.inl ⟨rfl, rfl⟩)) fun _ => .throw _

/-! ## Service tasks -/

theorem exec_nextItemTask {task next : PendingServiceTask} {progress : MultiInstanceProgress}
    {t : Engine} (h : exec (restoring task rollback previous
      (nextItemTask d task token progress elementVariable previous)) s = (.ok next, t)) :
    next.tokenId = token.id ∧ next.id = s.nextUuid := by
  rw [restoring, exec_orElse, nextItemTask, exec_bind, exec_ofResult] at h
  cases hvars : itemVariables d task.nodeId elementVariable token.vars
      (progress.completed + 1 + 1) (progress.items[progress.completed + 1]?).join with
  | error error =>
    rw [hvars] at h
    cases h
  | ok vars =>
    rw [hvars] at h
    cases h
    exact ⟨rfl, rfl⟩

section ServiceTask

variable {task : PendingServiceTask} (hdrawn : e.Drawn) (hholds : e.Holds (.serviceTask task))

variable {sequential : Bool}

include hdrawn hholds

theorem restoring_others (hm : Keeps (Others e (.serviceTask task) cancelled) m) :
    Keeps (Others e (.serviceTask task) cancelled) (restoring task rollback previous m) :=
  .orElse hm fun _ => .bind (.bind (modifyInstance_others _) fun _ =>
    .modify fun _ h => h.file hholds hdrawn rfl (.inl ⟨rfl, rfl⟩)) fun _ => .throw _

theorem restoring_inside (hm : Keeps (Inside e (.serviceTask task)) m) :
    Keeps (Inside e (.serviceTask task)) (restoring task rollback previous m) :=
  .orElse hm fun _ => .bind (.bind (.modify fun _ h => h.modify _ fun _ => rfl) fun _ =>
    .modify fun _ h => h.file hholds hdrawn) fun _ => .throw _

theorem leaveServiceTask_cancels (isMulti : Bool) (rollback : Token)
    (previous : Option ProcessInstance) :
    Cancelling e (.serviceTask task) (e.AtBoundary task.instanceId task.nodeId)
      (leaveServiceTask env d task isMulti rollback token previous) :=
  .boundary fun _ _ => .bind (updateInstance_others _) fun _ =>
    .bind (restoring_others hdrawn hholds (runEndScripts_keeps Others.calm)) fun _ => goOn_others

/-- An item that is not the last one opens at most the task of the next item. -/
theorem settleItem_others {progress : MultiInstanceProgress}
    (hlast : isLastItem (some progress) = false) (htoken : token.id = task.tokenId) :
    Keeps (Others e (.serviceTask task) cancelled)
      (settleItem env d task (some progress) elementVariable sequential rollback token previous) :=
        by
  unfold settleItem
  rw [hlast]
  refine .ite (fun _ => ?_) fun _ => ?_
  · have hopen : Keeps (Others e (.serviceTask task) cancelled) (restoring task rollback previous
        (nextItemTask d task token progress elementVariable previous)) :=
      restoring_others hdrawn hholds (.bind (ofResult_keeps _) fun _ =>
        .bind (newUuid_keeps Others.calm) fun _ => .bind now_keeps fun _ => .pure _)
    refine hopen.bind_of fun s next t hs hnext => ?_
    obtain ⟨hsame, hid⟩ := exec_nextItemTask hnext
    have hfile : Keeps (Others e (.serviceTask task) cancelled)
        (insertPending (.serviceTask next)) :=
      .modify fun _ h => h.file hholds hdrawn (hsame.trans htoken)
        (.inr (hs.drawn.trans hid.symm.le))
    exact Keeps.bind (updateInstance_others _) (fun _ => .bind hfile fun _ => .pure _) t
      (hopen.of_exec hs hnext)
  · exact .bind (.bind .get fun _ => .pure _) fun _ =>
      .bind (updateInstance_others _) fun _ => .pure _

theorem settleItem_cancels (htoken : token.id = task.tokenId) :
    Cancelling e (.serviceTask task)
      (fun w => (∀ p, progress = some p → isLastItem progress = true) ∧
        e.AtBoundary task.instanceId task.nodeId w)
      (settleItem env d task progress elementVariable sequential rollback token previous) := by
  cases progress with
  | none =>
    simp only [reduceCtorEq, false_implies, implies_true, true_and]
    exact leaveServiceTask_cancels hdrawn hholds _ _ _
  | some progress =>
    cases hlast : isLastItem (some progress) with
    | true =>
      simp only [implies_true, true_and]
      unfold settleItem
      rw [hlast]
      exact leaveServiceTask_cancels hdrawn hholds _ _ _
    | false => exact .of_keeps (settleItem_others hdrawn hholds hlast htoken) (by simp)

end ServiceTask

theorem acquireToken_yields (task : PendingServiceTask) (progress : Option MultiInstanceProgress)
    (elementVariable : Option String) :
    Yields (acquireToken task progress elementVariable) fun t => t.id = task.tokenId := by
  unfold acquireToken
  split
  · refine .after fun x => ?_
    cases ht : x.tokens.find? task.tokenId with
    | none => exact .throw _
    | some t =>
      have hid : t.id = task.tokenId := Table.key_of_find? ht
      exact .pure hid
  · refine .bind (P := fun t => t.id = task.tokenId) (.after fun x => ?_) fun t ht => .pure ?_
    · cases ht : x.tokens.find? task.tokenId with
      | none => exact .throw _
      | some t => exact .after fun _ => .pure (Table.key_of_find? ht)
    · split <;> exact ht

theorem publishOutputs_same {task : PendingServiceTask} {t : Token}
    (h : publishOutputs d task progress vars token = .ok t) : token.Same t := by
  unfold publishOutputs at h
  split at h
  · exact DataMappings.publishMultiInstanceOutputs_same h
  · cases h
    exact ⟨rfl, rfl, rfl⟩

theorem publishOutputs_yields {task : PendingServiceTask} (h : rollback.id = task.tokenId) :
    Yields (restoring task rollback previous
      (ofResult (publishOutputs d task progress vars rollback))) fun t => t.id = task.tokenId := by
  intro s t a hx
  rw [restoring, exec_orElse, exec_ofResult] at hx
  cases hpublish : publishOutputs d task progress vars rollback with
  | error =>
    rw [hpublish] at hx
    cases hx
  | ok =>
    rw [hpublish] at hx
    cases hx
    exact (publishOutputs_same hpublish).id.trans h

theorem acquireToken_inside {task : PendingServiceTask} :
    Keeps (Inside e (.serviceTask task)) (acquireToken task progress elementVariable) := by
  refine .ite (fun _ => .bind getInstance_keeps fun _ => ?_) fun _ =>
    .bind (takeToken_keeps Inside.calm) fun _ => .pure _
  split
  · exact .throw _
  · exact .pure _

def LastItem (e : Engine) (task : PendingServiceTask) : Prop :=
  ∀ x p, e.instances.find? task.instanceId = some x →
    x.multiInstanceState.get? task.nodeId = some p → isLastItem (some p) = true

section Requests

variable {taskId : Uuid} {task : PendingServiceTask} {e' : Engine} {result : EngineResult Next}
  {vars : Variables}

theorem Outcome.failed {task : Pending} {error : EngineError} (h : Inside e task s) :
    Outcome e task cancelled (.error error : EngineResult Next) s :=
  ⟨fun hreturned => absurd hreturned.choose_spec nofun, _, fun _ hfalse => hfalse.elim, h.toOthers⟩

theorem completeServiceTask_cancels {workerId : String} (hdrawn : e.Drawn)
    (htask : e.pendingServiceTasks.find? taskId = some task)
    (h : exec (completeServiceTask env taskId workerId vars) e = (result, e')) :
    Outcome e (.serviceTask task)
      (fun w => LastItem e task ∧ e.AtBoundary task.instanceId task.nodeId w)
      result e' := by
  have hholds : e.Holds (.serviceTask task) := Table.mem_of_find? htask
  obtain rfl : task.id = taskId := Table.key_of_find? htask
  rw [completeServiceTask] at h
  rcases exec_claimTask_cases task.id workerId e with ⟨task', htask', _, hclaim⟩ | ⟨_, _, hclaim⟩
  · cases htask.symm.trans htask'
    have hinside : Inside e (.serviceTask task) (e.removePending .serviceTask task.id) :=
      (Inside.start e _).remove hholds
    have hinstances : (e.removePending .serviceTask task.id).instances = e.instances :=
      (sameCore_retainPending e _ _).instances
    rw [exec_bind_ok hclaim, rejectSuspended, bind_assoc, exec_bind_ok (exec_findInstance _ _)] at h
    by_cases hsuspended : ((e.removePending .serviceTask task.id).instances.find?
        task.instanceId).map (fun i => i.state.isSuspended) = some true
    · rw [if_pos hsuspended, bind_assoc, exec_bind_ok (exec_insertPending _ _)] at h
      cases h
      exact .failed (hinside.file hholds hdrawn)
    · rw [if_neg hsuspended, pure_bind] at h
      cases hx : e.instances.find? task.instanceId with
      | none =>
        rw [exec_bind_ok (exec_findInstance _ _), definitionOf, bind_assoc,
          exec_bind_error (exec_getInstance_none (hinstances.symm ▸ hx))] at h
        cases h
        exact .failed hinside
      | some x =>
        have hlast : LastItem e task ↔ ∀ p, x.multiInstanceState.get? task.nodeId = some p →
            isLastItem (x.multiInstanceState.get? task.nodeId) = true := by
          constructor
          · exact fun hl p hp => hp ▸ hl x p hx hp
          · intro hl y p hy hp
            cases hx.symm.trans hy
            exact hp ▸ hl p hp
        simp only [hlast]
        rw [exec_bind_ok (exec_findInstance _ _)] at h
        cases hd : (e.removePending .serviceTask task.id).definitions.find? x.definitionKey with
        | none =>
          rw [exec_bind_error (exec_definitionOf_none (hinstances.symm ▸ hx) hd)] at h
          cases h
          exact .failed hinside
        | some =>
          rw [exec_bind_ok (exec_definitionOf (hinstances.symm ▸ hx) hd), readProgress,
            bind_assoc, exec_bind_ok (exec_getInstance (hinstances.symm ▸ hx)),
            pure_bind] at h
          refine Cancelling.outcome (.after_yields acquireToken_inside
            (acquireToken_yields _ _ _) fun rollback hrollback => ?_) hinside h
          exact .after_yields (restoring_inside hdrawn hholds (ofResult_keeps _))
            (publishOutputs_yields hrollback) fun token htoken =>
              settleItem_cancels hdrawn hholds htoken
  · rw [exec_bind_error hclaim] at h
    cases h
    exact .failed (.start e _)

theorem resolveIncident_cancels (htask : e.pendingServiceTasks.find? taskId = some task)
    (h : exec (resolveIncident env taskId vars) e = (result, e')) :
    Outcome e (.serviceTask task) (e.AtBoundary task.instanceId task.nodeId) result e' := by
  have hholds : e.Holds (.serviceTask task) := Table.mem_of_find? htask
  obtain rfl : task.id = taskId := Table.key_of_find? htask
  rw [resolveIncident_eq, exec_bind_ok (exec_getServiceTask htask)] at h
  by_cases hretries : 0 < task.retries
  · rw [if_pos hretries] at h
    cases h
    exact .failed (.start e _)
  · rw [if_neg hretries] at h
    exact Cancelling.outcome (.after (.modify fun _ h => h.remove hholds) fun _ =>
      leaveTask_cancels (p := .serviceTask task) fun _ _ => (runEndScripts_keeps Others.calm))
        (.start e _) h

end Requests

/-! ## Errors -/

/-- The entries that are pending were pending before. -/
structure Drops (e s : Engine) : Prop where
  drawn : e.nextUuid ≤ s.nextUuid
  holds : ∀ p, s.Holds p → e.Holds p

theorem Drops.refl (e : Engine) : Drops e e := ⟨le_rfl, fun _ h => h⟩

theorem drops_loose (e : Engine) : Loose (Drops e) where
  draw _ h := ⟨Nat.le_succ_of_le h.drawn, fun p hp => h.holds p (by cases p <;> exact hp)⟩
  write _ _ _ _ h := ⟨h.drawn, fun p hp => h.holds p (holds_modifyInstance.mp hp)⟩
  retain s _ _ h := ⟨(sameCore_retainPending s _ _).nextUuid ▸ h.drawn,
    fun p hp => h.holds p (holds_retainPending.mp hp).1⟩
  forget _ _ h := ⟨h.drawn, fun p hp => h.holds p (by
    cases p with
    | serviceTask => exact (Table.mem_retain.mp hp).1
    | _ => exact hp)⟩
  rewrite _ _ _ h := ⟨h.drawn, fun p hp => h.holds p (holds_modifyInstance.mp hp)⟩

theorem activateHandler_others (h : handler.isInterrupting = false)
    (subscription : EventSubscription) (vars : Variables) :
    Keeps (Others e task cancelled) (activateHandler env i handler subscription vars .code) := by
  unfold activateHandler
  simp only [h, Bool.false_eq_true, if_false]
  exact .bind now_keeps fun _ => .bind getInstance_keeps fun _ => .ite (fun _ => .pure _) fun _ =>
    .ite (fun _ => .pure _) fun _ => .bind (.bind (newUuid_keeps Others.calm) fun _ => .pure _)
      fun _ =>
      .bind (modifyInstance_others _) fun _ => .bind (.pure _) fun _ => .pure _

theorem exec_abortInterruptedInstance (fuel : Nat) (x : Uuid) (s : Engine) :
    ∃ t, exec (abortInterruptedInstance fuel x) s = (.ok (), t) := by
  obtain ⟨hresult, -⟩ := StoreEng.abortInterruptedInstance_follows fuel x ⟨s, []⟩
  rw [StoreEng.exec_abortInterruptedInstance] at hresult
  exact ⟨_, Prod.ext hresult.symm rfl⟩

/-- An interrupting handler drops the waits of its scope and of the instances called from it. -/
theorem exec_activateHandler_interrupting {x : ProcessInstance} {subscription : EventSubscription}
    (hx : s.instances.find? i = some x) (hactive : x.state.isSuspended = false)
    (hlive : x.state.isTerminal = false) (hinterrupting : handler.isInterrupting = true)
    (hopen : subscription ∈ x.eventSubscriptions) :
    ∃ token t, exec (activateHandler env i handler subscription vars .code) s =
        (.ok (some (.interrupting token)), t) ∧ s.nextUuid ≤ t.nextUuid ∧
      ∀ p, t.Holds p ↔ s.Holds p ∧ ¬(p.wait.instanceId = i ∨ s.Aborts i p.wait.instanceId) := by
  obtain ⟨token, t, ht⟩ : ∃ token t,
      exec (activateHandler env i handler subscription vars .code) s =
        (.ok (some (.interrupting token)), t) := by
    obtain ⟨token, hactivate⟩ := exec_activateHandler_open env handler vars .code hx hactive hlive
      hopen
    rw [if_pos hinterrupting] at hactivate
    obtain ⟨u, hu, -⟩ := exec_forM (P := fun _ => True)
      (fun y s _ => (exec_abortInterruptedInstance _ y s).imp fun _ h => ⟨h, trivial⟩)
      x.outstandingCalls.keys trivial
    exact ⟨token, _, hactivate.trans ((exec_bind_ok (exec_cancelScopeWaits _)).trans
      ((exec_bind_ok (exec_get _)).trans ((exec_bind_ok hu).trans rfl)))⟩
  have hdrops := Keeps.of_exec (activateHandler_keeps (drops_loose s) handler subscription vars
    fun _ => .pure _) (Drops.refl s) ht
  obtain ⟨hresult, hengine⟩ :=
    StoreEng.activateHandler_follows env i handler subscription vars .code ⟨s, []⟩
  rw [ht] at hresult hengine
  have hinterruption := StoreEng.activateHandler_interruption (s := ⟨s, []⟩) (Prod.ext hresult rfl)
  refine ⟨token, t, ht, hdrops.drawn, fun p => ⟨fun hp => ?_, fun hp => ?_⟩⟩
  · have hwait := (hinterruption.waits p.wait).mp (hengine.symm ▸ hp.mem_waits)
    exact ⟨hdrops.holds p hp, not_or.mpr hwait.2⟩
  · have hwait := (hinterruption.waits p.wait).mpr ⟨hp.1.mem_waits, not_or.mp hp.2⟩
    rw [hengine] at hwait
    obtain ⟨q, hq, hsame⟩ := exists_holds hwait
    exact (hdrops.holds q hq).eq_of_wait hp.1 (congrArg Wait.kind hsame)
      (congrArg Wait.id hsame) ▸ hq

end Eng

/-! ## The handler of an error -/

/-- The error of a task is caught by an interrupting event subprocess. -/
def Engine.Interrupts (e : Engine) (task : PendingServiceTask) (code : String) : Prop :=
  ∃ x d c, e.instances.find? task.instanceId = some x ∧
    e.definitions.find? x.definitionKey = some d ∧ x.state.isSuspended = false ∧
    x.state.isTerminal = false ∧ d.findBoundaryErrorEvent task.nodeId code = none ∧
    bestCandidate (codeCandidates d x.eventSubscriptions code false
      (x.eventHandlerTokens.get? task.tokenId)) = some c ∧ c.2.2.isInterrupting = true

/-- The calls of instances that have not ended are read off the states and the calls. -/
theorem Engine.Aborts.of_same {e s : Engine} {i x : Uuid}
    (h : ∀ y, (s.instances.find? y).map (fun z => (z.state, z.outstandingCalls)) =
      (e.instances.find? y).map fun z => (z.state, z.outstandingCalls)) :
    s.Aborts i x → e.Aborts i x := by
  have hlive (y : Uuid) : s.isLive y = e.isLive y := by
    have := congrArg (fun o => o.any fun z : InstanceState × Map Uuid OutstandingCall =>
      !z.1.isTerminal) (h y)
    simpa [Engine.isLive, Option.any_map, Function.comp_def] using this
  have hcalled (y : Uuid) : s.calledBy y = e.calledBy y := by
    have := congrArg (fun o => (o.map fun z : InstanceState × Map Uuid OutstandingCall =>
      z.2.keys).getD []) (h y)
    simpa [Engine.calledBy, Option.map_map, Function.comp_def] using this
  intro haborts
  refine haborts.mem (fun y hy hopen => ?_) fun y z hy hopen hz => ?_
  · exact .root (hlive y ▸ hopen) (hcalled i ▸ hy)
  · exact .edge hy (hlive z ▸ hopen) (hcalled y ▸ hz)

namespace Eng

variable {env : Env} {e e' s : Engine} {task : PendingServiceTask} {taskId i : Uuid}
  {workerId code : String} {vars : Variables} {message exclude : Option String}
  {x : ProcessInstance} {result : EngineResult Next} {C : Wait → Prop}

/-- What an error may cancel: the boundary events of the activity, and the scope of an event
subprocess that it interrupts. -/
def ErrorCancels (e : Engine) (task : PendingServiceTask) (code : String) (w : Wait) : Prop :=
  e.AtBoundary task.instanceId task.nodeId w ∨
    e.Interrupts task code ∧
      (w.instanceId = task.instanceId ∨ e.Aborts task.instanceId w.instanceId)

theorem catchAtBoundary_others (boundary : String) :
    Keeps (Others e (.serviceTask task) C) (catchAtBoundary env task boundary vars) :=
  .bind (updateInstance_others _) fun _ => .bind (takeToken_keeps Others.calm) fun _ =>
    .bind definitionOf_keeps fun _ => .bind (resolveNextTarget_keeps _ _) fun _ =>
      .bind (updateInstance_others _) fun _ => .pure _

theorem errorIncident_others (hdrawn : e.Drawn) (hholds : e.Holds (.serviceTask task)) :
    Keeps (Others e (.serviceTask task) C) (errorIncident task code message) :=
  .bind (newUuid_keeps Others.calm) fun _ => .bind now_keeps fun _ => .bind
    (modifyInstance_others _) fun _ =>
    .modify fun _ h => h.file hholds hdrawn rfl (.inl ⟨rfl, rfl⟩)

/-- Without an interrupting handler the error is handled in its activity. -/
theorem tryActivateEventCode_others {task : Pending} (hx : s.instances.find? i = some x)
    (hquiet : x.state.isSuspended = false → x.state.isTerminal = false →
      ∀ d c, s.definitions.find? x.definitionKey = some d →
      bestCandidate (codeCandidates d x.eventSubscriptions code false exclude) = some c →
      c.2.2.isInterrupting = false)
    (hs : Others e task C s) {result : EngineResult _} {t : Engine}
    (h : exec (tryActivateEventCode env i code false vars exclude) s = (result, t)) :
    Others e task C t := by
  rw [tryActivateEventCode, exec_bind_ok (exec_getInstance hx)] at h
  by_cases hawake : (x.state.isSuspended || x.state.isTerminal) = true
  · rw [if_pos hawake] at h
    cases h
    exact hs
  · rw [if_neg hawake] at h
    obtain ⟨hactive, hlive⟩ := Bool.or_eq_false_iff.mp (Bool.eq_false_iff.mpr hawake)
    cases hd : s.definitions.find? x.definitionKey with
    | none =>
      rw [exec_bind_error (exec_getDefinition_none hd)] at h
      cases h
      exact hs
    | some d =>
      rw [exec_bind_ok (exec_getDefinition hd)] at h
      cases hbest : bestCandidate (codeCandidates d x.eventSubscriptions code false exclude) with
      | none =>
        rw [hbest] at h
        cases h
        exact hs
      | some c =>
        rw [hbest] at h
        exact (activateHandler_others (hquiet hactive hlive d c hd hbest) _ _).of_exec hs h

theorem exec_tryActivateEventCode {d : ProcessDefinition}
    {c : Bool × EventSubscription × EventSubProcess} (hx : s.instances.find? i = some x)
    (hactive : x.state.isSuspended = false) (hlive : x.state.isTerminal = false)
    (hd : s.definitions.find? x.definitionKey = some d)
    (hbest : bestCandidate (codeCandidates d x.eventSubscriptions code false exclude) = some c) :
    exec (tryActivateEventCode env i code false vars exclude) s =
      exec (activateHandler env i c.2.2 c.2.1 vars .code) s := by
  rw [tryActivateEventCode, exec_bind_ok (exec_getInstance hx),
    if_neg (by simp [hactive, hlive]), exec_bind_ok (exec_getDefinition hd), hbest]

/-- Behind the boundary events of the activity an error looks for its handler. -/
theorem handleError_cancels {tokens : Table Token.id} {merged : Variables} (hdrawn : e.Drawn)
    (hholds : e.Holds (.serviceTask task)) (hx : e.instances.find? task.instanceId = some x)
    (hs : Others e (.serviceTask task) (e.AtBoundary task.instanceId task.nodeId) s)
    (hy : s.instances.find? task.instanceId = some { x with tokens := tokens, vars := merged })
    (hothers : ∀ j, j ≠ task.instanceId → s.instances.find? j = e.instances.find? j)
    (hdefinitions : s.definitions = e.definitions) (h : exec (do
      let d ← findDefinition x.definitionKey
      match d.bind fun d => d.findBoundaryErrorEvent task.nodeId code with
      | some boundary => catchAtBoundary env task boundary vars
      | none =>
        let (exclude, handlerVars) ← tokenEventContext task.instanceId task.tokenId
        match ← tryActivateEventCode env task.instanceId code false handlerVars exclude with
        | some (.interrupting token) | some (.parallel token) =>
          return .run task.instanceId [token]
        | none =>
          errorIncident task code message
          return .done) s = (result, e')) :
    Outcome e (.serviceTask task) (ErrorCancels e task code) result e' := by
  have hat (hquiet : ¬e.Interrupts task code)
      (hleft : Others e (.serviceTask task) (e.AtBoundary task.instanceId task.nodeId) e') :
      Outcome e (.serviceTask task) (ErrorCancels e task code) result e' := by
    have hsame : ErrorCancels e task code = e.AtBoundary task.instanceId task.nodeId :=
      funext fun w => propext ⟨fun hw => hw.resolve_right fun h => hquiet h.1, .inl⟩
    rw [hsame]
    exact ⟨fun _ => hleft, _, fun _ hw => hw, hleft⟩
  rw [exec_bind_ok (exec_findDefinition s _), hdefinitions] at h
  cases hboundary : (e.definitions.find? x.definitionKey).bind
      fun d => d.findBoundaryErrorEvent task.nodeId code with
  | some boundary =>
    rw [hboundary] at h
    refine hat ?_ ((catchAtBoundary_others boundary).of_exec hs h)
    rintro ⟨x', d, c, hx', hd, -, -, hnone, -⟩
    cases hx.symm.trans hx'
    simp [hd, hnone] at hboundary
  | none =>
    rw [hboundary] at h
    obtain ⟨handlerVars, hcontext⟩ := exec_tokenEventContext hy task.tokenId
    dsimp only at h
    rw [exec_bind_ok hcontext] at h
    by_cases hinterrupts : e.Interrupts task code
    · obtain ⟨x', d, c, hx', hd, hactive, hlive, -, hbest, hinterrupting⟩ := id hinterrupts
      cases hx.symm.trans hx'
      obtain ⟨token, t, hactivate, hdrawn', hdropped⟩ := exec_activateHandler_interrupting hy
        hactive hlive hinterrupting (subscription_mem_of_candidate (bestCandidate_mem hbest))
      rw [exec_bind_ok ((exec_tryActivateEventCode hy hactive hlive
        (hdefinitions ▸ hd) hbest).trans hactivate)] at h
      cases h
      have hcalls (j : Uuid) : (s.instances.find? j).map (fun z => (z.state, z.outstandingCalls)) =
          (e.instances.find? j).map fun z => (z.state, z.outstandingCalls) := by
        by_cases hj : j = task.instanceId
        · rw [hj, hy, hx]
          rfl
        · rw [hothers j hj]
      have hleft : Others e (.serviceTask task) (ErrorCancels e task code) e' := by
        refine ⟨hs.drawn.trans hdrawn', fun p hp => ?_⟩
        have haborts : s.Aborts task.instanceId p.wait.instanceId ↔
            e.Aborts task.instanceId p.wait.instanceId :=
          ⟨.of_same hcalls, .of_same fun j => (hcalls j).symm⟩
        have hcancels := and_iff_right (b := p.wait.instanceId = task.instanceId ∨
          e.Aborts task.instanceId p.wait.instanceId) hinterrupts
        rw [hdropped, hs.holds p hp, haborts, ErrorCancels, hcancels, and_assoc, ← not_or]
      exact ⟨fun _ => hleft, _, fun _ hw => hw, hleft⟩
    · refine hat hinterrupts ?_
      rw [exec_bind] at h
      rcases hactivate : exec (tryActivateEventCode env task.instanceId code false
        handlerVars (x.eventHandlerTokens.get? task.tokenId)) s with ⟨error | activation, t⟩
      all_goals
        have hquiet := tryActivateEventCode_others hy (fun hactive hlive d c hd hbest => by
          by_contra hinterrupting
          refine hinterrupts ⟨x, d, c, hx, hdefinitions ▸ hd, hactive, hlive, ?_, hbest,
            by simpa using hinterrupting⟩
          simpa [← hdefinitions, hd] using hboundary) hs hactivate
        rw [hactivate] at h
      · cases h
        exact hquiet
      · cases activation with
        | none =>
          exact (Keeps.bind (errorIncident_others hdrawn hholds) fun _ => .pure _).of_exec hquiet h
        | some activation => cases activation <;> cases h <;> exact hquiet

theorem exec_recordErrorVariables (task : PendingServiceTask) (vars : Variables)
    (hs : Inside e (.serviceTask task) s) :
    ∃ t, exec (recordErrorVariables task vars) s = (.ok (), t) ∧
      Inside e (.serviceTask task) t ∧ t.definitions = s.definitions ∧
      (∀ j, j ≠ task.instanceId → t.instances.find? j = s.instances.find? j) ∧
      ∃ tokens merged : ProcessInstance → _, t.instances.find? task.instanceId =
        (s.instances.find? task.instanceId).map fun x =>
          { x with tokens := tokens x, vars := merged x } :=
  ⟨_, rfl, hs.modify _ fun _ => rfl, rfl, fun _ hj => find?_modifyInstance_of_ne hj, _, _,
    find?_modifyInstance_self _ _ _⟩

theorem handleBpmnError_cancels (hdrawn : e.Drawn)
    (htask : e.pendingServiceTasks.find? taskId = some task)
    (h : exec (handleBpmnError env taskId workerId code vars message) e = (result, e')) :
    Outcome e (.serviceTask task) (ErrorCancels e task code) result e' := by
  have hholds : e.Holds (.serviceTask task) := Table.mem_of_find? htask
  obtain rfl : task.id = taskId := Table.key_of_find? htask
  rw [handleBpmnError] at h
  rcases exec_claimTask_cases task.id workerId e with ⟨task', htask', _, hclaim⟩ | ⟨_, _, hclaim⟩
  · cases htask.symm.trans htask'
    have hcore : SameCore e (e.removePending .serviceTask task.id) := sameCore_retainPending e _ _
    have hremoved : Inside e (.serviceTask task) (e.removePending .serviceTask task.id) :=
      (Inside.start e _).remove hholds
    obtain ⟨s, hrecord, hinside, hdefinitions, hothers, tokens, merged, hfound⟩ :=
      exec_recordErrorVariables task vars hremoved
    rw [exec_bind_ok hclaim] at h
    dsimp only at h
    rw [exec_bind_ok hrecord] at h
    rw [hcore.instances] at hfound
    cases hx : e.instances.find? task.instanceId with
    | none =>
      rw [hx] at hfound
      rw [exec_bind_error (exec_getInstance_none hfound)] at h
      cases h
      exact .failed hinside
    | some =>
      rw [hx] at hfound
      obtain ⟨s₁, s₂, h₁, h₂, hcore', hcancelled⟩ :=
        exec_cancelBoundaryEvents_others hinside task.instanceId task.nodeId
      rw [exec_bind_ok (exec_getInstance hfound), exec_bind_ok h₁, exec_bind_ok h₂] at h
      refine handleError_cancels hdrawn hholds hx hcancelled (hcore'.instances ▸ hfound)
        (fun j hj => ?_) ?_ h
      · rw [hcore'.instances, hothers j hj, hcore.instances]
      · exact hcore'.definitions.trans (hdefinitions.trans hcore.definitions)
  · rw [exec_bind_error hclaim] at h
    cases h
    exact .failed (.start e _)

end Eng

/-! ## All requests -/

/-- A request that ends the activation of a task. -/
inductive TaskRequest where
  | completeUser (taskId : Uuid) (vars : Variables)
  | completeService (taskId : Uuid) (workerId : String) (vars : Variables)
  | resolve (taskId : Uuid) (vars : Variables)
  | bpmnError (taskId : Uuid) (workerId code : String) (vars : Variables)
      (message : Option String)

namespace TaskRequest

def run (env : Env) : TaskRequest → Eng Next
  | .completeUser taskId vars => Eng.completeUserTask env taskId vars
  | .completeService taskId workerId vars => Eng.completeServiceTask env taskId workerId vars
  | .resolve taskId vars => Eng.resolveIncident env taskId vars
  | .bpmnError taskId workerId code vars message =>
    Eng.handleBpmnError env taskId workerId code vars message

def task (e : Engine) : TaskRequest → Option Pending
  | .completeUser taskId _ => (e.pendingUserTasks.find? taskId).map .userTask
  | .completeService taskId _ _ | .resolve taskId _ | .bpmnError taskId _ _ _ _ =>
    (e.pendingServiceTasks.find? taskId).map .serviceTask

/-- The waits that go with the activation: those at the boundary events of the activity if it is
left, and those of the whole scope if the error interrupts it. -/
def Cancels (e : Engine) : TaskRequest → Pending → Wait → Prop
  | .completeService .., .serviceTask task => fun w =>
    Eng.LastItem e task ∧ e.AtBoundary task.instanceId task.nodeId w
  | .bpmnError _ _ code _ _, .serviceTask task => Eng.ErrorCancels e task code
  | _, task => e.AtBoundary task.wait.instanceId task.wait.nodeId

def Spares (e : Engine) (request : TaskRequest) : Prop :=
  ∀ task, request.task e = some task →
    ∀ w ∈ e.waits, w.tokenId ≠ task.wait.tokenId → ¬request.Cancels e task w

variable {env : Env} {e e' : Engine} {result : EngineResult Next}

theorem outcome {request : TaskRequest} {task : Pending}
    (hdrawn : e.Drawn) (htask : request.task e = some task)
    (h : exec (request.run env) e = (result, e')) :
    Eng.Outcome e task (request.Cancels e task) result e' := by
  cases request <;> obtain ⟨t, ht, rfl⟩ := Option.map_eq_some_iff.mp htask
  case completeUser => exact completeUserTask_cancels hdrawn ht h
  case completeService => exact completeServiceTask_cancels hdrawn ht h
  case resolve => exact resolveIncident_cancels ht h
  case bpmnError => exact handleBpmnError_cancels hdrawn ht h

/-- A request that returns leaves every task and wait of other tokens as it was exactly if the
waits it cancels belong to the token of its task. In that case a request that fails does so
too. -/
theorem others_unchanged_iff {clock : Time} {c : Config} {request : TaskRequest} {task : Pending}
    (hreach : Reaches (Config.step env) (fun _ _ => True) (.initial clock) c)
    (htask : request.task c.engine = some task)
    (h : exec (request.run env) c.engine = (result, e')) :
    ((∃ next, result = .ok next) →
      ((∀ p, p.wait.tokenId ≠ task.wait.tokenId → (e'.Holds p ↔ c.engine.Holds p)) ↔
        request.Spares c.engine)) ∧
    (request.Spares c.engine →
      ∀ p, p.wait.tokenId ≠ task.wait.tokenId → (e'.Holds p ↔ c.engine.Holds p)) := by
  have hdrawn := (Config.inOrder_of_reaches hreach).ok.sound.drawn
  obtain ⟨hok, cancelled, hsome, hothers⟩ := outcome hdrawn htask h
  have hspares : request.Spares c.engine ↔ ∀ w ∈ c.engine.waits,
      w.tokenId ≠ task.wait.tokenId → ¬request.Cancels c.engine task w := by
    constructor
    · exact fun hs => hs task htask
    · intro hs task' htask'
      cases htask.symm.trans htask'
      exact hs
  rw [hspares]
  constructor
  · exact fun hreturned => (hok hreturned).unchanged_iff
  · exact fun hs => hothers.unchanged_iff.mpr fun w hw htoken hcancelled =>
      hs w hw htoken (hsome w hcancelled)

/-! ## A task that two tokens are in -/

/-- A review that must be done in time; both branches of a fork lead to it. -/
def review (branches : List SequenceFlow) : ProcessDefinition := .ofGraph "review"
  [("start", .startEvent), ("fork", .parallelGateway), ("review", .userTask "clerk"),
    ("late", .boundaryTimerEvent "review" (.duration 60) true), ("end", .endEvent)]
  [("start", [.simple "fork"]), ("fork", branches), ("review", [.simple "end"]),
    ("late", [.simple "end"])]

def reviewRun (branches : List SequenceFlow) : Option Config :=
  Config.performAll .plain 100 (Config.initial 0)
    [.deployDefinition (review branches), .startInstance 1 ∅]

/-- The token of a completed review, whether the completion returns, and the tokens of the timers
before and after. -/
def reviewed (taskId : Uuid) (e : Engine) : Option Uuid × Bool × List Uuid × List Uuid :=
  let (result, e') := exec ((completeUser taskId ∅).run .plain) e
  (((completeUser taskId ∅).task e).map (·.wait.tokenId), result.toOption.isSome,
    e.pendingTimers.entries.map (·.tokenId), e'.pendingTimers.entries.map (·.tokenId))

theorem exists_of_reviewed {taskId tokenId : Uuid} {before after : List Uuid}
    (h : reviewed taskId e = (some tokenId, true, before, after)) :
    ∃ task next e', (completeUser taskId ∅).task e = some task ∧ task.wait.tokenId = tokenId ∧
      exec ((completeUser taskId ∅).run .plain) e = (.ok next, e') ∧
      e.pendingTimers.entries.map (·.tokenId) = before ∧
      e'.pendingTimers.entries.map (·.tokenId) = after := by
  rcases hx : exec ((completeUser taskId ∅).run .plain) e with ⟨_ | next, e'⟩ <;>
    simp only [reviewed, hx, Except.toOption, Option.isSome_none, Option.isSome_some,
      Prod.mk.injEq, Bool.false_eq_true, false_and, and_false, true_and,
      Option.map_eq_some_iff] at h
  obtain ⟨⟨task, htask, htoken⟩, hbefore, hafter⟩ := h
  exact ⟨task, next, e', htask, htoken, rfl, hbefore, hafter⟩

/-- Two tokens are in the review. Completing it for one of them drops the timer of the other. -/
theorem review_drops_other_timer :
    ∃ c, Reaches (Config.step .plain) (fun _ _ => True) (Config.initial 0) c ∧ c.control = .idle ∧
      ∃ (request : TaskRequest) (task : Pending) (next : Next) (e' : Engine),
        request.task c.engine = some task ∧
        exec (request.run .plain) c.engine = (.ok next, e') ∧
        ¬∀ p, p.wait.tokenId ≠ task.wait.tokenId → (e'.Holds p ↔ c.engine.Holds p) := by
  have hrun : (reviewRun [.simple "review", .simple "review"]).map
      (fun c => reviewed 8 c.engine) = some (some 5, true, [5, 6], []) := by
    decide +kernel
  obtain ⟨c, hreach, hidle, hreviewed⟩ := Config.exists_of_performAll hrun
  obtain ⟨task, next, e', htask, htoken, hexec, hbefore, hafter⟩ := exists_of_reviewed hreviewed
  refine ⟨c, hreach, hidle, _, task, next, e', htask, hexec, fun hall => ?_⟩
  obtain ⟨timer, htimer, hother⟩ : ∃ timer ∈ c.engine.pendingTimers.entries, timer.tokenId = 6 :=
    List.mem_map.mp (hbefore ▸ by decide)
  have hne : timer.tokenId ≠ task.wait.tokenId := by
    rw [hother, htoken]
    decide
  have hkept : timer ∈ e'.pendingTimers := (hall (.timer timer) hne).mpr htimer
  have hmem : timer.tokenId ∈ e'.pendingTimers.entries.map (·.tokenId) :=
    List.mem_map.mpr ⟨timer, hkept, rfl⟩
  rw [hafter] at hmem
  cases hmem

/-- With one token in the review, completing it spares everything else. -/
theorem single_review_completed :
    ∃ c task next e', reviewRun [.simple "review"] = some c ∧
      (completeUser 6 ∅).task c.engine = some task ∧
      exec ((completeUser 6 ∅).run .plain) c.engine = (.ok next, e') ∧
      ((∀ p, p.wait.tokenId ≠ task.wait.tokenId → (e'.Holds p ↔ c.engine.Holds p)) ↔
        (completeUser 6 ∅).Spares c.engine) := by
  have hrun : (reviewRun [.simple "review"]).map (fun c => reviewed 6 c.engine) =
      some (some 4, true, [4], []) := by
    decide +kernel
  obtain ⟨c, hc, hreviewed⟩ := Option.map_eq_some_iff.mp hrun
  obtain ⟨hreach, -⟩ := Config.performAll_reaches rfl hc
  obtain ⟨task, next, e', htask, -, hexec, -⟩ := exists_of_reviewed hreviewed
  exact ⟨c, task, next, e', hc, htask, hexec,
    (others_unchanged_iff hreach htask hexec).1 ⟨next, rfl⟩⟩

end TaskRequest

end BpmnEngine
