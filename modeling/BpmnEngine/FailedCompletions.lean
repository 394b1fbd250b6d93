import BpmnEngine.CallReturns

/-!
# What a failed completion leaves behind

Completing a task takes the task and its token out, cancels the boundary waits of the
activity and changes the instance before the output mappings, the end scripts and the
outgoing flows are evaluated. Some of the exits behind these changes put something back,
none of them everything. For each of the two completions this module says from which
states an error leaves the tasks, the waits, the tokens, the variables, the progress and
the state of the instances as they were.
-/
namespace BpmnEngine

open Program Engine

/-! ## As before -/

/-- The same token with the same data; variables are compared by their names. -/
structure Token.Alike (t u : Token) : Prop where
  same : t.Same u
  dataScope : u.dataScope = t.dataScope
  vars : ∀ name, u.vars.get? name = t.vars.get? name

theorem Token.Alike.refl (t : Token) : t.Alike t := ⟨.refl t, rfl, fun _ => rfl⟩

/-- The same tokens, multi-instance progress, variables and state. -/
structure ProcessInstance.Alike (x y : ProcessInstance) : Prop where
  tokens : ∀ id, Option.Rel Token.Alike (x.tokens.find? id) (y.tokens.find? id)
  progress : ∀ node, y.multiInstanceState.get? node = x.multiInstanceState.get? node
  vars : ∀ name, y.vars.get? name = x.vars.get? name
  state : y.state = x.state

/-- Every pending wait and every instance is as it was. -/
structure Restored (e e' : Engine) : Prop where
  pending : ∀ p, e'.Holds p ↔ e.Holds p
  instances : ∀ id, Option.Rel ProcessInstance.Alike (e.instances.find? id) (e'.instances.find? id)

theorem optionRel_refl {α : Type} {r : α → α → Prop} (h : ∀ a, r a a) (o : Option α) :
    Option.Rel r o o := by
  cases o with
  | none => exact .none
  | some a => exact .some (h a)

theorem ProcessInstance.Alike.refl (x : ProcessInstance) : x.Alike x :=
  ⟨fun _ => optionRel_refl Token.Alike.refl _, fun _ => rfl, fun _ => rfl, rfl⟩

theorem Restored.refl (e : Engine) : Restored e e :=
  ⟨fun _ => Iff.rfl, fun _ => optionRel_refl ProcessInstance.Alike.refl _⟩

/-- A call that changed only one instance restores the engine when that instance is as before. -/
theorem restored_iff {e e' : Engine} {i : Uuid} {x y : ProcessInstance}
    (hx : e.instances.find? i = some x) (hy : e'.instances.find? i = some y)
    (hother : ∀ j, j ≠ i → e'.instances.find? j = e.instances.find? j) :
    Restored e e' ↔ (∀ p, e'.Holds p ↔ e.Holds p) ∧ x.Alike y := by
  constructor
  · intro h
    have hi := h.instances i
    rw [hx, hy] at hi
    cases hi with
    | some hi => exact ⟨h.pending, hi⟩
  · rintro ⟨hpending, hi⟩
    refine ⟨hpending, fun j => ?_⟩
    by_cases hj : j = i
    · subst hj
      rw [hx, hy]
      exact .some hi
    · rw [hother j hj]
      exact optionRel_refl ProcessInstance.Alike.refl _

/-- The tokens are as before when one of them was exchanged for a token that is alike. -/
theorem alike_tokens_iff {s s' : Table Token.id} {t u : Token} (ht : s.find? u.id = some t)
    (hs : s'.find? u.id = some u) (hother : ∀ id, id ≠ u.id → s'.find? id = s.find? id) :
    (∀ id, Option.Rel Token.Alike (s.find? id) (s'.find? id)) ↔ t.Alike u := by
  constructor
  · intro h
    have hu := h u.id
    rw [ht, hs] at hu
    cases hu with
    | some hu => exact hu
  · intro h id
    by_cases hid : id = u.id
    · subst hid
      rw [ht, hs]
      exact .some h
    · rw [hother id hid]
      exact optionRel_refl Token.Alike.refl _

/-! ## The tables of waits -/

namespace Engine

/-- An entry that was removed and filed again is back, and nothing else changed. -/
theorem holds_putBack {e e' : Engine} {p : Pending} (hp : e.Holds p)
    (h : ∀ q, e'.Holds q ↔ e.Holds q ∧ ¬(q.wait.kind = p.wait.kind ∧ q.wait.id = p.wait.id))
    (q : Pending) : (e'.insertPending p).Holds q ↔ e.Holds q := by
  rw [holds_insertPending, h]
  constructor
  · rintro (rfl | ⟨⟨hq, -⟩, -⟩)
    · exact hp
    · exact hq
  · intro hq
    by_cases hsame : q.wait.kind = p.wait.kind ∧ q.wait.id = p.wait.id
    · exact .inl (hq.eq_of_wait hp hsame.1 hsame.2)
    · exact .inr ⟨⟨hq, hsame⟩, hsame⟩

end Engine

/-! ## Cancelled boundary waits -/

def WaitKind.boundarySort : WaitKind → BpmnElement → Bool
  | .timer => Eng.isBoundaryTimer
  | .message => Eng.isBoundaryMessage
  | .signal => Eng.isBoundarySignal
  | .conditional => Eng.isBoundaryConditional
  | _ => fun _ => false

def Engine.AtBoundary (e : Engine) (i : Uuid) (activity : String) (w : Wait) : Prop :=
  w.instanceId = i ∧ ∃ x d, e.instances.find? i = some x ∧
    e.definitions.find? x.definitionKey = some d ∧
    w.nodeId ∈ Eng.boundaryNodes d activity w.kind.boundarySort

theorem Engine.AtBoundary.of_sameCore {e e' : Engine} (h : SameCore e e') {i : Uuid}
    {activity : String} {w : Wait} : e'.AtBoundary i activity w ↔ e.AtBoundary i activity w := by
  rw [AtBoundary, AtBoundary, h.instances, h.definitions]

namespace Eng

theorem exec_cancelBoundary (kind : WaitKind) (i : Uuid) (activity : String) (e : Engine) :
    ∃ e', exec (cancelBoundary kind kind.boundarySort i activity) e = (.ok (), e') ∧ SameCore e e' ∧
      ∀ p, e'.Holds p ↔ e.Holds p ∧ ¬(p.wait.kind = kind ∧ e.AtBoundary i activity p.wait) := by
  rw [cancelBoundary, exec_bind_ok (exec_findInstance e i)]
  cases hx : e.instances.find? i with
  | none =>
    refine ⟨e, rfl, ⟨rfl, rfl, rfl, rfl⟩, fun p => ?_⟩
    simp [Engine.AtBoundary, hx]
  | some x =>
    dsimp only
    rw [exec_bind_ok (exec_findDefinition e _)]
    refine ⟨_, exec_retainPending e _ _, sameCore_retainPending e _ _, fun p => ?_⟩
    rw [holds_retainPending]
    refine and_congr_right fun _ => ?_
    by_cases hkind : p.wait.kind = kind
    · cases hd : e.definitions.find? x.definitionKey with
      | none => simp [Engine.AtBoundary, hx, hd]
      | some => simp [Engine.AtBoundary, hx, hd, hkind, imp_iff_not_or]
    · simp [hkind]

theorem exec_cancelBoundaryEvents (i : Uuid) (activity : String) (e : Engine) :
    ∃ e₁ e', exec (cancelBoundaryTimers i activity) e = (.ok (), e₁) ∧
      exec (cancelBoundaryWaits i activity) e₁ = (.ok (), e') ∧ SameCore e e' ∧
      ∀ p, e'.Holds p ↔ e.Holds p ∧ ¬e.AtBoundary i activity p.wait := by
  obtain ⟨e₁, h₁, hcore₁, hp₁⟩ := exec_cancelBoundary .timer i activity e
  obtain ⟨e₂, h₂, hcore₂, hp₂⟩ := exec_cancelBoundary .message i activity e₁
  obtain ⟨e₃, h₃, hcore₃, hp₃⟩ := exec_cancelBoundary .signal i activity e₂
  obtain ⟨e₄, h₄, hcore₄, hp₄⟩ := exec_cancelBoundary .conditional i activity e₃
  have hcore := (hcore₁.trans hcore₂).trans hcore₃
  refine ⟨e₁, e₄, h₁, ?_, hcore.trans hcore₄, fun p => ?_⟩
  · exact (exec_bind_ok h₂).trans ((exec_bind_ok h₃).trans h₄)
  · rw [hp₄, hp₃, hp₂, hp₁, Engine.AtBoundary.of_sameCore hcore,
      Engine.AtBoundary.of_sameCore (hcore₁.trans hcore₂), Engine.AtBoundary.of_sameCore hcore₁]
    -- A task is never a wait of a boundary event.
    cases hkind : p.wait.kind <;>
      simp [Engine.AtBoundary, WaitKind.boundarySort, boundaryNodes, hkind]

end Eng

/-! ## A task that was taken out -/

/-- In `e'` a task of `e` and the waits that satisfy `cancelled` are missing, and the instance `i`
has become `y`. -/
structure Taken (e : Engine) (task : Pending) (cancelled : Wait → Prop) (i : Uuid)
    (y : ProcessInstance) (e' : Engine) : Prop where
  holds : ∀ q, e'.Holds q ↔
    (e.Holds q ∧ ¬(q.wait.kind = task.wait.kind ∧ q.wait.id = task.wait.id)) ∧ ¬cancelled q.wait
  definitions : e'.definitions = e.definitions
  found : e'.instances.find? i = some y
  others : ∀ j, j ≠ i → e'.instances.find? j = e.instances.find? j

namespace Taken

variable {e e₁ : Engine} {task : Pending} {cancelled : Wait → Prop} {i : Uuid}
  {x y : ProcessInstance}

theorem start (hx : e.instances.find? i = some x) :
    Taken e task (fun _ => False) i x (e.removePending task.wait.kind task.wait.id) := by
  have hcore := Eng.sameCore_retainPending e task.wait.kind fun w => !decide (w.id = task.wait.id)
  refine ⟨fun q => ?_, hcore.definitions, ?_, fun j _ => ?_⟩
  · rw [holds_removePending, not_false_iff, and_true]
  · rwa [Engine.removePending, hcore.instances]
  · rw [Engine.removePending, hcore.instances]

theorem modify (h : Taken e task cancelled i y e₁) (f : ProcessInstance → ProcessInstance) :
    Taken e task cancelled i { f y with id := y.id } (e₁.modifyInstance i f) := by
  refine ⟨fun q => ?_, h.definitions, ?_, fun j hj => ?_⟩
  · rw [holds_modifyInstance, h.holds]
  · rw [find?_modifyInstance_self, h.found]
    rfl
  · rw [find?_modifyInstance_of_ne hj, h.others j hj]

theorem cancelBoundaryEvents (h : Taken e task (fun _ => False) i y e₁)
    (hx : e.instances.find? i = some x) (hkey : y.definitionKey = x.definitionKey)
    (activity : String) :
    ∃ e₂ e₃, exec (Eng.cancelBoundaryTimers i activity) e₁ = (.ok (), e₂) ∧
      exec (Eng.cancelBoundaryWaits i activity) e₂ = (.ok (), e₃) ∧
      Taken e task (e.AtBoundary i activity) i y e₃ := by
  obtain ⟨e₂, e₃, h₂, h₃, hcore, hp⟩ := Eng.exec_cancelBoundaryEvents i activity e₁
  refine ⟨e₂, e₃, h₂, h₃, fun q => ?_, hcore.definitions.trans h.definitions, ?_, fun j hj => ?_⟩
  · have hat : e₁.AtBoundary i activity q.wait ↔ e.AtBoundary i activity q.wait := by
      simp [Engine.AtBoundary, hx, h.found, h.definitions, hkey]
    rw [hp, h.holds, hat, not_false_iff, and_true]
  · rw [hcore.instances, h.found]
  · rw [hcore.instances, h.others j hj]

section

variable (h : Taken e task cancelled i y e₁)

include h

theorem lost : ¬e₁.Holds task :=
  fun ht => ((h.holds task).mp ht).1.2 ⟨rfl, rfl⟩

theorem not_restored (htask : e.Holds task) : ¬Restored e e₁ :=
  fun hr => h.lost ((hr.pending task).mpr htask)

/-- Filing the task again undoes the removal, but no cancellation. -/
theorem restored_iff (htask : e.Holds task) (hkept : ¬cancelled task.wait)
    (hx : e.instances.find? i = some x) :
    Restored e (e₁.insertPending task) ↔ (∀ w ∈ e.waits, ¬cancelled w) ∧ x.Alike y := by
  rw [BpmnEngine.restored_iff hx (by rw [instances_insertPending, h.found])
    fun j hj => by rw [instances_insertPending, h.others j hj]]
  refine and_congr_left fun _ => ⟨fun hall w hw => ?_, fun hall q => ?_⟩
  · obtain ⟨q, hq, rfl⟩ := exists_holds hw
    have hback := (hall q).mpr hq
    rw [holds_insertPending, h.holds] at hback
    rcases hback with rfl | hback
    · exact hkept
    · exact hback.1.2
  · refine holds_putBack htask (fun q => ?_) q
    rw [h.holds]
    exact and_iff_left_of_imp fun hq => hall _ hq.1.mem_waits

end

end Taken

theorem not_restored_of_removed {e : Engine} {p : Pending} (hp : e.Holds p) :
    ¬Restored e (e.removePending p.wait.kind p.wait.id) :=
  fun hr => (holds_removePending.mp ((hr.pending p).mpr hp)).2 ⟨rfl, rfl⟩

namespace Eng

variable {env : Env} {e e' e₁ : Engine} {i tokenId taskId : Uuid} {x y : ProcessInstance}
  {error : EngineError} {node : String} {additional vars : Variables}
  {elementVariable : Option String} {cancelled : Wait → Prop}
  {progress : Option MultiInstanceProgress} {isMulti sequential : Bool} {tokens : Table Token.id}

theorem exec_takeToken {t : Token} (hx : e.instances.find? i = some x)
    (ht : x.tokens.find? tokenId = some t) :
    exec (takeToken i tokenId) e =
      (.ok t, e.modifyInstance i fun y => { y with tokens := y.tokens.erase tokenId }) := by
  rw [takeToken, exec_bind_ok (exec_getInstance hx), ht]
  rfl

theorem exec_takeToken_none (hx : e.instances.find? i = some x)
    (ht : x.tokens.find? tokenId = none) :
    exec (takeToken i tokenId) e = (.error (tokenNotFound tokenId), e) := by
  rw [takeToken, exec_bind_ok (exec_getInstance hx), ht]
  rfl

theorem exec_runEndScripts_error {token : Token} {d : ProcessDefinition}
    (hx : e.instances.find? i = some x)
    (h : Scripting.runEndScripts env token d node = .error error) :
    exec (runEndScripts env i token d node) e = (.error error, e) := by
  rw [runEndScripts, exec_bind_ok (exec_getInstance hx), exec_bind, exec_ofResult, h]

theorem exec_runEndScripts_ok {token t : Token} {d : ProcessDefinition}
    (hx : e.instances.find? i = some x) (h : Scripting.runEndScripts env token d node = .ok t) :
    exec (runEndScripts env i token d node) e =
      (.ok t, e.modifyInstance i fun y => { y with vars := t.processVariables }) := by
  rw [runEndScripts, exec_bind_ok (exec_getInstance hx), exec_bind, exec_ofResult, h]
  rfl

theorem exec_definitionOf_none (hx : e.instances.find? i = some x)
    (hd : e.definitions.find? x.definitionKey = none) :
    exec (definitionOf i) e = (.error (.noSuchDefinition x.definitionKey), e) := by
  rw [definitionOf, exec_bind_ok (exec_getInstance hx), exec_getDefinition_none hd]

theorem exec_goOn {d : ProcessDefinition} {token : Token} (hx : e.instances.find? i = some x)
    (h : exec (do
        let next ← resolveNextTarget env d node token.vars
        setCurrentNode i next
        return Next.run i [{ token with currentNode := next }]) e = (.error error, e')) :
    e' = e := by
  rw [exec_bind, resolveNextTarget, exec_ofResult] at h
  cases hnext : d.resolveNextTarget env node token.vars with
  | error =>
    rw [hnext] at h
    cases h
    rfl
  | ok =>
    rw [hnext] at h
    dsimp only at h
    rw [setCurrentNode, exec_bind_ok (exec_updateInstance hx _)] at h
    cases h

theorem exec_registerCompensationHandler {task : Pending} (h : Taken e task cancelled i y e₁)
    (activity : String) (d : ProcessDefinition) :
    ∃ z e₂, exec (registerCompensationHandler i activity d) e₁ = (.ok (), e₂) ∧
      Taken e task cancelled i z e₂ := by
  unfold registerCompensationHandler
  split
  · exact ⟨_, _, exec_modifyInstance _ _ _, h.modify _⟩
  · exact ⟨y, e₁, rfl, h⟩

/-! ## User tasks -/

/-- A failing completion of a user task undoes what it did: the task is refused before it is
taken, or an end script fails and the exit that puts the task back happens to write what was there.
It writes the new variables on the token and the state of an instance that waits for this task, and
it files no boundary wait again. -/
def UserTaskRestorable (env : Env) (e : Engine) (taskId : Uuid) (additional : Variables) : Prop :=
  ∀ task, e.pendingUserTasks.find? taskId = some task →
    ∃ x, e.instances.find? task.instanceId = some x ∧
      (x.state.isSuspended = true ∨
        ∃ d t error, e.definitions.find? x.definitionKey = some d ∧
          x.tokens.find? task.tokenId = some t ∧
          Scripting.runEndScripts env { t with vars := t.vars.extend additional } d task.nodeId =
            .error error ∧
          (∀ w ∈ e.waits, ¬e.AtBoundary task.instanceId task.nodeId w) ∧
          (∀ name value, additional.get? name = some value → t.vars.get? name = some value) ∧
          x.state = .waitingOnUserTask taskId)

theorem extend_alike_iff {t : Token} :
    t.Alike { t with vars := t.vars.extend additional } ↔
      ∀ name value, additional.get? name = some value → t.vars.get? name = some value := by
  constructor
  · intro h name value hname
    have := h.vars name
    rw [Map.get?_extend, hname] at this
    exact this.symm
  · intro h
    refine ⟨⟨rfl, rfl, rfl⟩, rfl, fun name => ?_⟩
    rw [Map.get?_extend]
    cases hname : additional.get? name with
    | none => rfl
    | some value => exact (h name value hname).symm

theorem not_atBoundary_userTask (task : PendingUserTask) (activity : String) :
    ¬e.AtBoundary i activity task.wait := by
  simp [Engine.AtBoundary, PendingUserTask.wait, WaitKind.boundarySort, boundaryNodes]

/-- The state of an instance whose user task was put back by the exit for failed end scripts. -/
theorem alike_putBack_userTask {t : Token} (ht : x.tokens.find? tokenId = some t) :
    x.Alike { x with
        state := .waitingOnUserTask taskId
        currentNode := node
        tokens := (x.tokens.erase tokenId).insert { t with vars := t.vars.extend additional } } ↔
      (∀ name value, additional.get? name = some value → t.vars.get? name = some value) ∧
        x.state = .waitingOnUserTask taskId := by
  have hid : t.id = tokenId := Table.key_of_find? ht
  let u : Token := { t with vars := t.vars.extend additional }
  have hother : ∀ id, id ≠ u.id →
      ((x.tokens.erase tokenId).insert u).find? id = x.tokens.find? id := fun id hne => by
    rw [Table.find?_insert_of_ne hne, Table.find?_erase_of_ne (hid ▸ hne)]
  have htokens := alike_tokens_iff (t := t) (u := u) (hid ▸ ht)
    (Table.find?_insert_self (x.tokens.erase tokenId) u) hother
  rw [extend_alike_iff] at htokens
  constructor
  · exact fun h => ⟨htokens.mp h.tokens, h.state.symm⟩
  · exact fun h => ⟨htokens.mpr h.1, fun _ => rfl, fun _ => rfl, h.2.symm⟩

/-- The part of a completion behind the point where the token is out. -/
theorem finishUserTask_restored_iff {task : PendingUserTask} {t : Token} {d : ProcessDefinition}
    (htask : e.pendingUserTasks.find? task.taskId = some task)
    (hx : e.instances.find? task.instanceId = some x) (ht : x.tokens.find? task.tokenId = some t)
    (htaken : Taken e (.userTask task) (e.AtBoundary task.instanceId task.nodeId) task.instanceId
      y e₁) (hy : y = { x with
      tokens := x.tokens.erase task.tokenId
      state := runningUnlessParallel x.state
      currentNode := task.nodeId }) (h : exec (do
        let token ← userTaskScripts env task.taskId task
          { t with vars := t.vars.extend additional } d
        registerCompensationHandler task.instanceId task.nodeId d
        let next ← resolveNextTarget env d task.nodeId token.vars
        setCurrentNode task.instanceId next
        return Next.run task.instanceId [{ token with currentNode := next }]) e₁ =
      (.error error, e')) :
    Restored e e' ↔
      (∃ error, Scripting.runEndScripts env { t with vars := t.vars.extend additional } d
        task.nodeId = .error error) ∧
      (∀ w ∈ e.waits, ¬e.AtBoundary task.instanceId task.nodeId w) ∧
      (∀ name value, additional.get? name = some value → t.vars.get? name = some value) ∧
      x.state = .waitingOnUserTask task.taskId := by
  have hholds : e.Holds (.userTask task) := Table.mem_of_find? htask
  rw [exec_bind, userTaskScripts, exec_orElse] at h
  cases hscripts : Scripting.runEndScripts env { t with vars := t.vars.extend additional } d
      task.nodeId with
  | error err =>
    rw [exec_runEndScripts_error htaken.found hscripts] at h
    obtain rfl := (Prod.mk.inj h).2
    have hback := (htaken.modify fun i =>
      { i with
        state := .waitingOnUserTask task.taskId
        tokens := i.tokens.insert { t with vars := t.vars.extend additional } }).restored_iff
      hholds (not_atBoundary_userTask task task.nodeId) hx
    subst hy
    refine hback.trans ?_
    rw [alike_putBack_userTask ht]
    exact ⟨fun h => ⟨⟨err, rfl⟩, h⟩, fun h => h.2⟩
  | ok left =>
    rw [exec_runEndScripts_ok htaken.found hscripts] at h
    obtain ⟨z, e₂, hregister, htaken₂⟩ := exec_registerCompensationHandler (htaken.modify _)
      task.nodeId d
    dsimp only at h
    rw [exec_bind_ok hregister] at h
    rw [exec_goOn htaken₂.found h]
    refine iff_of_false (htaken₂.not_restored hholds) ?_
    rintro ⟨⟨_, hfail⟩, -⟩
    cases hfail

theorem completeUserTask_restored_iff
    (h : exec (completeUserTask env taskId additional) e = (.error error, e')) :
    Restored e e' ↔ UserTaskRestorable env e taskId additional := by
  rw [completeUserTask, exec_bind_ok (exec_get e)] at h
  cases htask : e.pendingUserTasks.find? taskId with
  | none =>
    rw [htask] at h
    cases h
    refine iff_of_true (.refl e) fun task hfind => ?_
    rw [htask] at hfind
    cases hfind
  | some task =>
    obtain rfl : task.taskId = taskId := Table.key_of_find? htask
    have hholds : e.Holds (.userTask task) := Table.mem_of_find? htask
    rw [htask] at h
    dsimp only at h
    rw [exec_bind_ok (exec_removePending e _ _), exec_bind_ok (exec_findInstance _ _)] at h
    have hinstances : (e.removePending .userTask task.taskId).instances = e.instances :=
      (sameCore_retainPending e _ _).instances
    rw [hinstances] at h
    simp only [UserTaskRestorable, htask, Option.some.injEq, forall_eq']
    cases hx : e.instances.find? task.instanceId with
    | none =>
      rw [hx] at h
      have hnone := exec_getInstance_none (hinstances.symm ▸ hx)
      rw [takeToken, Option.map_none, if_neg (by simp),
        exec_bind_error (exec_bind_error hnone)] at h
      cases h
      exact iff_of_false (not_restored_of_removed hholds) (by simp)
    | some x =>
      have htaken : Taken e (.userTask task) (fun _ => False) task.instanceId x
        (e.removePending .userTask task.taskId) := Taken.start hx
      rw [hx, Option.map_some] at h
      by_cases hsuspended : x.state.isSuspended = true
      · rw [if_pos (congrArg some hsuspended), exec_bind_ok (exec_insertPending _ _)] at h
        cases h
        refine iff_of_true ?_ ⟨x, rfl, .inl hsuspended⟩
        exact (htaken.restored_iff hholds not_false hx).mpr
          ⟨fun _ _ => not_false, ProcessInstance.Alike.refl x⟩
      · rw [if_neg fun hs => hsuspended (Option.some.inj hs)] at h
        cases ht : x.tokens.find? task.tokenId with
        | none =>
          rw [exec_bind_error (exec_takeToken_none htaken.found ht)] at h
          cases h
          refine iff_of_false (htaken.not_restored hholds) ?_
          simp [hsuspended, ht]
        | some =>
          rw [exec_bind_ok (exec_takeToken htaken.found ht)] at h
          obtain ⟨e₂, e₃, h₂, h₃, htaken₃⟩ := (htaken.modify fun y =>
            { y with tokens := y.tokens.erase task.tokenId }).cancelBoundaryEvents hx rfl
              task.nodeId
          rw [exec_bind_ok h₂, exec_bind_ok h₃,
            exec_bind_ok (exec_updateInstance htaken₃.found _)] at h
          have htaken₄ := htaken₃.modify fun i =>
            { i with state := runningUnlessParallel i.state, currentNode := task.nodeId }
          cases hd : e.definitions.find? x.definitionKey with
          | none =>
            rw [exec_bind_error
              (exec_definitionOf_none htaken₄.found (htaken₄.definitions ▸ hd))] at h
            cases h
            refine iff_of_false (htaken₄.not_restored hholds) ?_
            simp [hsuspended, hd]
          | some =>
            rw [exec_bind_ok (exec_definitionOf htaken₄.found (htaken₄.definitions ▸ hd))] at h
            refine (finishUserTask_restored_iff htask hx ht htaken₄ rfl h).trans ?_
            simp [hsuspended, hd, ht]

/-! ## Service tasks -/

/-- The shared token of a multi-instance activity carries the loop counter and the element of an
item already. -/
def ItemShared (elementVariable : Option String) (snapshot : Variables) (t : Token) : Prop :=
  ∀ name, name = "loopCounter" ∨ elementVariable = some name →
    ∀ value, snapshot.get? name = some value → t.vars.get? name = some value

theorem get?_mergeItem (elementVariable : Option String) (snapshot : Variables) (t : Token)
    (name : String) :
    (mergeItem elementVariable snapshot t).vars.get? name =
      if name = "loopCounter" ∨ elementVariable = some name then
        (snapshot.get? name).or (t.vars.get? name)
      else t.vars.get? name := by
  have hset (m : Variables) (key : String) (value : Value) :
      (m.set key value).get? name = if name = key then some value else m.get? name := by
    split
    case isTrue h => rw [h, Map.get?_set_self]
    case isFalse h => exact Map.get?_set_of_ne h
  unfold mergeItem
  cases hcounter : snapshot.get? "loopCounter" <;> cases elementVariable with
  | none => grind
  | some element => cases hvalue : snapshot.get? element <;> grind

theorem mergeItem_alike_iff {snapshot : Variables} {t : Token} :
    t.Alike (mergeItem elementVariable snapshot t) ↔ ItemShared elementVariable snapshot t := by
  constructor
  · intro h name hname value hvalue
    have := h.vars name
    rw [get?_mergeItem, if_pos hname, hvalue] at this
    exact this.symm
  · intro h
    refine ⟨⟨rfl, rfl, rfl⟩, rfl, fun name => ?_⟩
    rw [get?_mergeItem]
    split
    case isTrue hname =>
      cases hvalue : snapshot.get? name with
      | none => rfl
      | some value => exact (h name hname value hvalue).symm
    case isFalse => rfl

/-- An error behind the point where the token is at hand loses nothing: an activity without
multi-instance progress has no pending boundary wait and its end scripts fail; or an item fails
before the activity is left, and the shared token carried the variables of the item already. -/
def ItemRestorable (env : Env) (e : Engine) (d : ProcessDefinition) (task : PendingServiceTask)
    (elementVariable : Option String) (vars : Variables) (t : Token) :
    Option MultiInstanceProgress → Prop
  | none =>
    (∃ error, Scripting.runEndScripts env { t with vars := t.vars.extend vars } d task.nodeId =
      .error error) ∧
    ∀ w ∈ e.waits, ¬e.AtBoundary task.instanceId task.nodeId w
  | some progress =>
    ItemShared elementVariable task.variablesSnapshot t ∧
    (isLastItem (some progress) = false ∨
      ∃ error, DataMappings.publishMultiInstanceOutputs
        (mergeItem elementVariable task.variablesSnapshot t) d task.nodeId
        task.variablesSnapshot vars = .error error)

/-- A failing completion of a service task undoes what it did: the task is refused before it is
taken, or its item is restorable. -/
def ServiceTaskRestorable (env : Env) (e : Engine) (taskId : Uuid) (workerId : String)
    (vars : Variables) : Prop :=
  ∀ task, e.pendingServiceTasks.find? taskId = some task → task.workerId = some workerId →
    ∃ x, e.instances.find? task.instanceId = some x ∧
      (x.state.isSuspended = true ∨
        ∃ d t, e.definitions.find? x.definitionKey = some d ∧ x.tokens.find? task.tokenId = some t ∧
          ItemRestorable env e d task ((miDefinition d task.nodeId).bind (·.elementVariable)) vars t
            (x.multiInstanceState.get? task.nodeId))

variable {task : PendingServiceTask} {t rollback token : Token} {d : ProcessDefinition}

theorem not_atBoundary_serviceTask (task : PendingServiceTask) (activity : String) :
    ¬e.AtBoundary i activity task.wait := by
  simp [Engine.AtBoundary, PendingServiceTask.wait, WaitKind.boundarySort, boundaryNodes]

/-- What a failed part of a completion is worth after task and token were put back. -/
theorem exec_restoring_error {α : Type} {m : Eng α} {e₂ : Engine}
    (hholds : e.Holds (.serviceTask task)) (hkept : ¬cancelled task.wait)
    (hx : e.instances.find? task.instanceId = some x) (ht : x.tokens.find? rollback.id = some t)
    (htaken : Taken e (.serviceTask task) cancelled task.instanceId y e₂)
    (htokens : ∀ id, id ≠ rollback.id → y.tokens.find? id = x.tokens.find? id)
    (hm : exec m e₁ = (.error error, e₂)) :
    ∃ e₃, exec (restoring task rollback (some x) m) e₁ = (.error error, e₃) ∧
      (Restored e e₃ ↔ (∀ w ∈ e.waits, ¬cancelled w) ∧ t.Alike rollback ∧
        ∀ node, y.multiInstanceState.get? node = x.multiInstanceState.get? node) := by
  refine ⟨_, by rw [restoring, exec_orElse, hm]; rfl, ?_⟩
  have hback := (htaken.modify fun i =>
    { i with vars := x.vars, state := x.state, tokens := i.tokens.insert rollback }).restored_iff
    hholds hkept hx
  refine hback.trans (and_congr_right fun _ => ?_)
  have halike := alike_tokens_iff ht (Table.find?_insert_self y.tokens rollback)
    fun id hid => by rw [Table.find?_insert_of_ne hid, htokens id hid]
  constructor
  · exact fun h => ⟨halike.mp h.tokens, h.progress⟩
  · exact fun h => ⟨halike.mpr h.1, h.2, fun _ => rfl, rfl⟩

theorem id_mergeItem (elementVariable : Option String) (snapshot : Variables) (t : Token) :
    (mergeItem elementVariable snapshot t).id = t.id := rfl

theorem exec_acquireToken (progress : Option MultiInstanceProgress)
    (elementVariable : Option String)
    (htaken : Taken e (.serviceTask task) (fun _ => False) task.instanceId x e₁)
    (ht : x.tokens.find? task.tokenId = some t) :
    ∃ tokens e₂, exec (acquireToken task progress elementVariable) e₁ =
        (.ok (if progress.isSome then mergeItem elementVariable task.variablesSnapshot t else t),
          e₂) ∧
      Taken e (.serviceTask task) (fun _ => False) task.instanceId { x with tokens := tokens } e₂ ∧
      ∀ id, id ≠ t.id → tokens.find? id = x.tokens.find? id := by
  have hid : t.id = task.tokenId := Table.key_of_find? ht
  unfold acquireToken
  split
  case isTrue h =>
    refine ⟨x.tokens, e₁, ?_, htaken, fun _ _ => rfl⟩
    rw [exec_bind_ok (exec_getInstance htaken.found), ht, if_pos (Bool.and_eq_true_iff.mp h).1]
    rfl
  case isFalse =>
    refine ⟨x.tokens.erase task.tokenId, _, ?_, htaken.modify fun y =>
      { y with tokens := y.tokens.erase task.tokenId }, fun id hne => ?_⟩
    · rw [exec_bind_ok (exec_takeToken htaken.found ht)]
      rfl
    · exact Table.find?_erase_of_ne (hid ▸ hne)

theorem exec_acquireToken_none (hx : e₁.instances.find? task.instanceId = some x)
    (ht : x.tokens.find? task.tokenId = none) :
    exec (acquireToken task progress elementVariable) e₁ =
      (.error (tokenNotFound task.tokenId), e₁) := by
  unfold acquireToken
  split
  · rw [exec_bind_ok (exec_getInstance hx), ht]
    rfl
  · rw [exec_bind_error (exec_takeToken_none hx ht)]

theorem dropped_progress_iff {progress : Map String MultiInstanceProgress} :
    (∀ n, Map.get? (if isMulti then progress.erase node else progress) n = progress.get? n) ↔
      (isMulti = true → progress.get? node = none) := by
  cases isMulti with
  | false => exact iff_of_true (fun _ => rfl) nofun
  | true =>
    constructor
    · exact fun hall _ => (hall node).symm.trans (Map.get?_erase_self _ _)
    · intro hnone n
      by_cases hn : n = node
      · rw [hn, hnone rfl]
        exact Map.get?_erase_self _ _
      · exact Map.get?_erase_of_ne hn

section AtHand

variable (hholds : e.Holds (.serviceTask task)) (hx : e.instances.find? task.instanceId = some x)
  (ht : x.tokens.find? rollback.id = some t)
  (htaken : Taken e (.serviceTask task) (fun _ => False) task.instanceId
    { x with tokens := tokens } e₁)
  (htokens : ∀ id, id ≠ rollback.id → tokens.find? id = x.tokens.find? id)

include hholds hx ht htaken htokens

/-- Leaving the activity fails without a loss only if its end scripts fail and there was neither
a boundary wait to cancel nor progress to drop. -/
theorem leaveServiceTask_restored_iff
    (h : exec (leaveServiceTask env d task isMulti rollback token (some x)) e₁ =
      (.error error, e')) :
    Restored e e' ↔ (∃ error, Scripting.runEndScripts env token d task.nodeId = .error error) ∧
      (∀ w ∈ e.waits, ¬e.AtBoundary task.instanceId task.nodeId w) ∧ t.Alike rollback ∧
      (isMulti = true → x.multiInstanceState.get? task.nodeId = none) := by
  obtain ⟨e₂, e₃, h₂, h₃, htaken₃⟩ := htaken.cancelBoundaryEvents hx rfl task.nodeId
  have htaken₄ := htaken₃.modify fun i =>
    { i with
      multiInstanceState := if isMulti then i.multiInstanceState.erase task.nodeId
        else i.multiInstanceState
      state := runningUnlessParallel i.state
      vars := token.processVariables }
  rw [leaveServiceTask, exec_bind_ok h₂, exec_bind_ok h₃,
    exec_bind_ok (exec_updateInstance htaken₃.found _), exec_bind] at h
  cases hscripts : Scripting.runEndScripts env token d task.nodeId with
  | error err =>
    obtain ⟨e₅, hrestoring, hiff⟩ := exec_restoring_error hholds
      (not_atBoundary_serviceTask task task.nodeId) hx ht htaken₄ htokens
      (exec_runEndScripts_error htaken₄.found hscripts)
    rw [hrestoring] at h
    obtain rfl := (Prod.mk.inj h).2
    rw [hiff, ← dropped_progress_iff]
    exact ⟨fun h => ⟨⟨err, rfl⟩, h⟩, fun h => h.2⟩
  | ok left =>
    rw [restoring, exec_orElse, exec_runEndScripts_ok htaken₄.found hscripts] at h
    have htaken₅ := htaken₄.modify fun y => { y with vars := left.processVariables }
    rw [exec_goOn htaken₅.found h]
    refine iff_of_false (htaken₅.not_restored hholds) ?_
    rintro ⟨⟨_, hfail⟩, -⟩
    cases hfail

/-- An item that is not the last one fails only in the inputs of the next item, and then nothing
but the variables of the item stays behind. -/
theorem settleItem_restored_iff {progress : MultiInstanceProgress}
    (hlast : isLastItem (some progress) = false) (h : exec (settleItem env d task (some progress)
      elementVariable sequential rollback
      token (some x)) e₁ = (.error error, e')) : Restored e e' ↔ t.Alike rollback := by
  unfold settleItem at h
  rw [hlast] at h
  dsimp only at h
  cases sequential with
  | false =>
    rw [if_neg Bool.false_ne_true, nextOpenTask, bind_assoc,
      exec_bind_ok (exec_get e₁), pure_bind, countItem,
      exec_bind_ok (exec_updateInstance htaken.found _)] at h
    cases h
  | true =>
    rw [if_pos rfl, exec_bind] at h
    cases hvars : itemVariables d task.nodeId elementVariable token.vars
        (progress.completed + 1 + 1) (progress.items[progress.completed + 1]?).join with
    | error err =>
      have hnext : exec (nextItemTask d task token progress elementVariable (some x))
          e₁ = (.error err, e₁) := by
        rw [nextItemTask, exec_bind, exec_ofResult, hvars]
      obtain ⟨e₂, hrestoring, hiff⟩ := exec_restoring_error hholds not_false hx ht htaken
        htokens hnext
      rw [hrestoring] at h
      cases h
      rw [hiff]
      simp
    | ok vars =>
      obtain ⟨next, e₂, hnext, hsame⟩ : ∃ next e₂, exec
          (nextItemTask d task token progress elementVariable (some x)) e₁ = (.ok next, e₂) ∧
          e₂.instances = e₁.instances := by
        rw [nextItemTask, exec_bind, exec_ofResult, hvars]
        exact ⟨_, _, rfl, rfl⟩
      rw [restoring, exec_orElse, hnext] at h
      dsimp only at h
      rw [countItem, exec_bind_ok (exec_updateInstance (hsame ▸ htaken.found) _)] at h
      cases h

end AtHand

theorem exec_claimTask_cases (taskId : Uuid) (workerId : String) (e : Engine) :
    (∃ task, e.pendingServiceTasks.find? taskId = some task ∧ task.workerId = some workerId ∧
      exec (claimTask taskId workerId) e = (.ok task, e.removePending .serviceTask taskId)) ∨
    ((∀ task, e.pendingServiceTasks.find? taskId = some task → task.workerId ≠ some workerId) ∧
      ∃ error, exec (claimTask taskId workerId) e = (.error error, e)) := by
  rw [claimTask, exec_bind_ok (exec_get e)]
  cases htask : e.pendingServiceTasks.find? taskId with
  | none => exact .inr ⟨nofun, _, rfl⟩
  | some task =>
    dsimp only
    cases howner : task.workerId with
    | none =>
      refine .inr ⟨fun task' h => ?_, _, rfl⟩
      cases h
      simp [howner]
    | some owner =>
      dsimp only
      by_cases hne : owner = workerId
      · subst hne
        rw [if_neg (not_not_intro rfl)]
        exact .inl ⟨task, rfl, howner, rfl⟩
      · rw [if_pos hne]
        refine .inr ⟨fun task' h => ?_, _, rfl⟩
        cases h
        simp [howner, hne]

theorem finishServiceTask_restored_iff
    (hprogress : x.multiInstanceState.get? task.nodeId = progress)
    (hholds : e.Holds (.serviceTask task)) (hx : e.instances.find? task.instanceId = some x)
    (ht : x.tokens.find? task.tokenId = some t)
    (htaken : Taken e (.serviceTask task) (fun _ => False) task.instanceId x e₁) (h : exec (do
        let rollback ← acquireToken task progress elementVariable
        let token ← restoring task rollback (some x)
          (ofResult (publishOutputs d task progress vars rollback))
        settleItem env d task progress elementVariable sequential rollback token (some x)) e₁ =
      (.error error, e')) :
    Restored e e' ↔ ItemRestorable env e d task elementVariable vars t progress := by
  have hid : t.id = task.tokenId := Table.key_of_find? ht
  rw [← hid] at ht
  obtain ⟨tokens, e₂, hacquire, htaken₂, htokens⟩ :=
    exec_acquireToken progress elementVariable htaken (hid ▸ ht)
  rw [exec_bind_ok hacquire] at h
  cases progress with
  | none =>
    have hleave : exec (leaveServiceTask env d task false t
      { t with vars := t.vars.extend vars } (some x)) e₂ = (.error error, e') := h
    refine (leaveServiceTask_restored_iff hholds hx ht htaken₂ htokens hleave).trans ?_
    simp [ItemRestorable, Token.Alike.refl]
  | some p =>
    rw [if_pos Option.isSome_some, exec_bind] at h
    have hid' := id_mergeItem elementVariable task.variablesSnapshot t
    rw [← hid'] at ht htokens
    cases hpublish : DataMappings.publishMultiInstanceOutputs
        (mergeItem elementVariable task.variablesSnapshot t) d task.nodeId
        task.variablesSnapshot vars with
    | error err =>
      obtain ⟨e₃, hrestoring, hiff⟩ := exec_restoring_error hholds not_false hx ht htaken₂
        htokens (exec_ofResult (.error err : EngineResult Token) e₂)
      rw [publishOutputs, if_pos Option.isSome_some, hpublish, hrestoring] at h
      cases h
      rw [hiff, mergeItem_alike_iff, ItemRestorable, hpublish]
      simp
    | ok token =>
      rw [publishOutputs, if_pos Option.isSome_some, hpublish, restoring, exec_orElse,
        exec_ofResult] at h
      dsimp only at h
      cases hlast : isLastItem (some p) with
      | false =>
        rw [settleItem_restored_iff hholds hx ht htaken₂ htokens hlast h,
          mergeItem_alike_iff, ItemRestorable, hlast]
        simp
      | true =>
        unfold settleItem at h
        rw [hlast] at h
        refine (leaveServiceTask_restored_iff hholds hx ht htaken₂ htokens h).trans ?_
        simp [ItemRestorable, hprogress, hlast, hpublish]

theorem completeServiceTask_restored_iff {workerId : String}
    (h : exec (completeServiceTask env taskId workerId vars) e = (.error error, e')) :
    Restored e e' ↔ ServiceTaskRestorable env e taskId workerId vars := by
  rw [completeServiceTask] at h
  rcases exec_claimTask_cases taskId workerId e with
    ⟨task, htask, howner, hclaim⟩ | ⟨hrefused, err, hclaim⟩
  · obtain rfl : task.id = taskId := Table.key_of_find? htask
    have hholds : e.Holds (.serviceTask task) := Table.mem_of_find? htask
    have hinstances : (e.removePending .serviceTask task.id).instances = e.instances :=
      (sameCore_retainPending e _ _).instances
    have hdefinitions : (e.removePending .serviceTask task.id).definitions = e.definitions :=
      (sameCore_retainPending e _ _).definitions
    simp only [ServiceTaskRestorable, htask, Option.some.injEq, forall_eq', howner, true_implies]
    rw [exec_bind_ok hclaim, rejectSuspended, bind_assoc,
      exec_bind_ok (exec_findInstance _ _), hinstances] at h
    cases hx : e.instances.find? task.instanceId with
    | none =>
      have hnone := exec_getInstance_none (hinstances.symm ▸ hx)
      rw [hx, Option.map_none, if_neg (Option.some_ne_none true).symm, pure_bind,
        exec_bind_ok (exec_findInstance _ _), definitionOf,
        exec_bind_error (exec_bind_error hnone)] at h
      cases h
      exact iff_of_false (not_restored_of_removed hholds) (by simp)
    | some x =>
      have htaken : Taken e (.serviceTask task) (fun _ => False) task.instanceId x
        (e.removePending .serviceTask task.id) := Taken.start hx
      rw [hx, Option.map_some] at h
      by_cases hsuspended : x.state.isSuspended = true
      · rw [if_pos (congrArg some hsuspended), bind_assoc,
          exec_bind_ok (exec_insertPending _ _)] at h
        cases h
        refine iff_of_true ?_ ⟨x, rfl, .inl hsuspended⟩
        exact (htaken.restored_iff hholds not_false hx).mpr
          ⟨fun _ _ => not_false, ProcessInstance.Alike.refl x⟩
      · rw [if_neg fun hs => hsuspended (Option.some.inj hs), pure_bind,
          exec_bind_ok (exec_findInstance _ _), htaken.found] at h
        cases hd : e.definitions.find? x.definitionKey with
        | none =>
          rw [exec_bind_error (exec_definitionOf_none htaken.found (hdefinitions ▸ hd))] at h
          cases h
          refine iff_of_false (htaken.not_restored hholds) ?_
          simp [hsuspended, hd]
        | some =>
          rw [exec_bind_ok (exec_definitionOf htaken.found (hdefinitions ▸ hd)),
            readProgress, bind_assoc, exec_bind_ok (exec_getInstance htaken.found),
            pure_bind] at h
          cases ht : x.tokens.find? task.tokenId with
          | none =>
            rw [exec_bind_error (exec_acquireToken_none htaken.found ht)] at h
            cases h
            refine iff_of_false (htaken.not_restored hholds) ?_
            simp [hsuspended, ht]
          | some =>
            refine (finishServiceTask_restored_iff rfl hholds hx ht htaken h).trans ?_
            simp [hsuspended, hd, ht]
  · rw [exec_bind_error hclaim] at h
    cases h
    exact iff_of_true (.refl e) fun task htask howner => absurd howner (hrefused task htask)

end Eng

/-! ## Both completions -/

/-- A request to complete a task. -/
inductive CompletionRequest where
  | userTask (taskId : Uuid) (vars : Variables)
  | serviceTask (taskId : Uuid) (workerId : String) (vars : Variables)

namespace CompletionRequest

def run (env : Env) : CompletionRequest → Eng Next
  | .userTask taskId vars => Eng.completeUserTask env taskId vars
  | .serviceTask taskId workerId vars => Eng.completeServiceTask env taskId workerId vars

def Restorable (env : Env) (e : Engine) : CompletionRequest → Prop
  | .userTask taskId vars => Eng.UserTaskRestorable env e taskId vars
  | .serviceTask taskId workerId vars => Eng.ServiceTaskRestorable env e taskId workerId vars

/-- A completion that fails before its path goes on leaves everything as it was exactly from the
restorable states. -/
theorem failed_restored_iff {env : Env} {e e' : Engine} {error : EngineError}
    (request : CompletionRequest)
    (h : exec (request.run env) e = (.error error, e')) :
    Restored e e' ↔ request.Restorable env e := by
  cases request with
  | userTask => exact Eng.completeUserTask_restored_iff h
  | serviceTask => exact Eng.completeServiceTask_restored_iff h

def consentEnv : Env :=
  { Env.plain with evaluateCondition := fun name vars => vars.get? name == some (.bool true) }

def consent : ProcessDefinition := .ofGraph "consent"
  [("start", .startEvent), ("ask", .userTask "ask"), ("end", .endEvent)]
  [("start", [.simple "ask"]), ("ask", [.conditional "end" "agreed"])]

def consentRun (rest : List Op) : Option Config :=
  Config.performAll consentEnv 100 (Config.initial 0)
    ([.deployDefinition consent, .startInstance 1 ∅] ++ rest)

/-- Whether a completion of the waiting task fails, and whether the task is pending before and
after it. -/
def consentTask (e : Engine) : Bool × Bool × Bool :=
  let result := exec ((userTask 5 ∅).run consentEnv) e
  (result.1.toOption.isNone, (e.pendingUserTasks.find? 5).isSome,
    (result.2.pendingUserTasks.find? 5).isSome)

theorem exists_error {e : Engine} {before after : Bool}
    (h : consentTask e = (true, before, after)) :
    ∃ error e', exec ((userTask 5 ∅).run consentEnv) e = (.error error, e') := by
  rcases hx : exec ((userTask 5 ∅).run consentEnv) e with ⟨error | next, e'⟩
  · exact ⟨error, e', rfl⟩
  · simp [consentTask, hx, Except.toOption] at h

/-- The user completes the task without consent: no flow matches, and the task is gone. -/
theorem task_lost_without_matching_flow :
    ∃ c, Reaches (Config.step consentEnv) (fun _ _ => True) (Config.initial 0) c ∧
      c.control = .idle ∧
      ∃ error e', exec ((userTask 5 ∅).run consentEnv) c.engine = (.error error, e') ∧
        ¬Restored c.engine e' := by
  have hrun : (consentRun []).map (fun c => consentTask c.engine) = some (true, true, false) := by
    decide +kernel
  obtain ⟨c, hreach, hidle, hlost⟩ := Config.exists_of_performAll hrun
  obtain ⟨error, e', hx⟩ := exists_error hlost
  refine ⟨c, hreach, hidle, error, e', hx, fun hr => ?_⟩
  simp only [consentTask, hx, Prod.mk.injEq, Option.isSome_iff_exists] at hlost
  obtain ⟨-, ⟨task, htask⟩, hgone⟩ := hlost
  have hback : task ∈ e'.pendingUserTasks :=
    (hr.pending (.userTask task)).mpr (Table.mem_of_find? htask)
  have hfound : e'.pendingUserTasks.find? 5 = some task :=
    Table.key_of_find? htask ▸ Table.find?_of_mem hback
  rw [hfound] at hgone
  cases hgone

/-- A suspended instance keeps its task. -/
theorem suspended_completion_restored :
    ∃ c error e', consentRun [.suspendInstance 2] = some c ∧
      exec ((userTask 5 ∅).run consentEnv) c.engine = (.error error, e') ∧
      (Restored c.engine e' ↔ (userTask 5 ∅).Restorable consentEnv c.engine) := by
  have hrun : (consentRun [.suspendInstance 2]).map (fun c => consentTask c.engine) =
      some (true, true, true) := by
    decide +kernel
  obtain ⟨c, hc, hkept⟩ := Option.map_eq_some_iff.mp hrun
  obtain ⟨error, e', hx⟩ := exists_error hkept
  exact ⟨c, error, e', hc, hx, failed_restored_iff (userTask 5 ∅) hx⟩

end CompletionRequest

end BpmnEngine
