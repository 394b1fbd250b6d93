import BpmnEngine.MachineMoves

/-!
# For whom an operation works

An operation works for the instance it names, or for the instance whose task it names.
Starting works for new instances only, and the operations that look for waits to serve
work for nobody until they serve the first one. Deleting removes instances and their
waits and leaves all others alone.
-/
namespace BpmnEngine

open Program Eng Engine Effects

/-- The instances that the begin of an operation works for. -/
def Op.Acting (e : Engine) : Op → Uuid → Prop
  | .completeUserTask taskId _, i => e.HasWait i .userTask taskId
  | .completeServiceTask taskId .., i | .failServiceTask taskId .., i
  | .handleBpmnError taskId .., i | .resolveIncident taskId _, i
  | .applyTaskOutcome taskId _, i => e.HasWait i .serviceTask taskId
  | .updateInstanceVariables x _, i | .suspendInstance x, i | .resumeInstance x, i
  | .moveToken x .., i | .migrateInstance x .., i | .deleteInstance x, i => i = x
  | .deleteDefinition key _, i => ∃ y, e.instances.find? i = some y ∧ y.definitionKey = key
  | _, _ => False

def Op.deletes : Op → Bool
  | .deleteInstance _ | .deleteDefinition .. => true
  | _ => false

/-! ## Tasks -/

namespace Engine

variable {e : Engine} {id : Uuid}

theorem hasWait_of_userTask {task : PendingUserTask}
    (h : e.pendingUserTasks.find? id = some task) : e.HasWait task.instanceId .userTask id :=
  have hid : task.taskId = id := Table.key_of_find? h
  ⟨task.wait, Holds.mem_waits (p := .userTask task) (Table.mem_of_find? h), rfl, hid, rfl⟩

theorem hasWait_of_serviceTask {task : PendingServiceTask}
    (h : e.pendingServiceTasks.find? id = some task) :
    e.HasWait task.instanceId .serviceTask id :=
  have hid : task.id = id := Table.key_of_find? h
  ⟨task.wait, Holds.mem_waits (p := .serviceTask task) (Table.mem_of_find? h), rfl, hid, rfl⟩

end Engine

variable {e t : Engine} {r : EngineResult Unit} {A : Uuid → Prop} {fx : Effects}
  {mapping : Map String String} {n i target : Uuid}

theorem exec_getServiceTask_none {id : Uuid} {α : Type} (h : e.pendingServiceTasks.find? id = none)
    (f : PendingServiceTask → Eng α) :
    exec (getServiceTask id >>= f) e = (.error (.serviceTaskNotFound id), e) := by
  rw [exec_bind_error]
  rw [getServiceTask, exec_bind_ok (exec_get e), h]
  rfl

theorem exec_claimTask_none {id : Uuid} {α : Type} (h : e.pendingServiceTasks.find? id = none)
    (workerId : String) (f : PendingServiceTask → Eng α) :
    exec (claimTask id workerId >>= f) e = (.error (.serviceTaskNotFound id), e) := by
  rw [exec_bind_error]
  rw [claimTask, exec_bind_ok (exec_get e), h]
  rfl

theorem Eng.requireActive_stays (x : ProcessInstance) : Stays fx n (requireActive x) :=
  .ite (fun _ => .throw _) fun _ =>
    .ite (fun _ => .throw _) fun _ => Stays.pure _

theorem Eng.checkNodes_stays (d : ProcessDefinition) (mapping : Map String String)
    (nodes : List String) : Stays fx n (checkNodes d mapping nodes) :=
  Stays.forM fun _ _ _ _ => .ite (fun _ => Stays.pure _) fun _ => .throw _

theorem Eng.checkMigration_stays (i target : Uuid) (mapping : Map String String) :
    Stays fx n (checkMigration i target mapping) := by
  refine .bind (getDefinition_stays _) fun k d hk => ?_
  refine .after getInstance_stays fun l x hl => ?_
  refine .after (requireActive_stays x) fun m _ hm => ?_
  refine .after (checkNodes_stays _ _ _) fun o _ ho => ?_
  exact .after (checkNodes_stays _ _ _) fun _ _ _ => checkNodes_stays _ _ _

/-! ## Migration -/

def Wait.migrated (mapping : Map String String) (i : Uuid) (w : Wait) : Wait :=
  { w with nodeId := if w.instanceId = i then remap mapping w.nodeId else w.nodeId }

theorem Engine.mem_waits_migrateWaits {w : Wait} :
    w ∈ (migrateWaits mapping target i e).waits ↔ ∃ v ∈ e.waits, v.migrated mapping i = w := by
  constructor
  · intro hw
    rcases mem_waits.mp hw with ⟨t, ht, rfl⟩ | ⟨t, ht, rfl⟩ | ⟨t, ht, rfl⟩ | ⟨t, ht, rfl⟩ |
      ⟨t, ht, rfl⟩ | ⟨t, ht, rfl⟩ <;> obtain ⟨u, hu, rfl⟩ := List.mem_map.mp ht
    · exact ⟨_, Holds.mem_waits (p := .userTask u) hu, rfl⟩
    · exact ⟨_, Holds.mem_waits (p := .serviceTask u) hu, rfl⟩
    · exact ⟨_, Holds.mem_waits (p := .timer u) hu, rfl⟩
    · exact ⟨_, Holds.mem_waits (p := .message u) hu, rfl⟩
    · exact ⟨_, Holds.mem_waits (p := .signal u) hu, rfl⟩
    · exact ⟨_, Holds.mem_waits (p := .conditional u) hu, rfl⟩
  · rintro ⟨v, hv, rfl⟩
    rw [mem_waits]
    rcases mem_waits.mp hv with ⟨t, ht, rfl⟩ | ⟨t, ht, rfl⟩ | ⟨t, ht, rfl⟩ | ⟨t, ht, rfl⟩ |
      ⟨t, ht, rfl⟩ | ⟨t, ht, rfl⟩
    · exact .inl ⟨_, List.mem_map_of_mem ht, rfl⟩
    · exact .inr (.inl ⟨_, List.mem_map_of_mem ht, rfl⟩)
    · exact .inr (.inr (.inl ⟨_, List.mem_map_of_mem ht, rfl⟩))
    · exact .inr (.inr (.inr (.inl ⟨_, List.mem_map_of_mem ht, rfl⟩)))
    · exact .inr (.inr (.inr (.inr (.inl ⟨_, List.mem_map_of_mem ht, rfl⟩))))
    · exact .inr (.inr (.inr (.inr (.inr ⟨_, List.mem_map_of_mem ht, rfl⟩))))

theorem migrated_moves {env : Env} {e' : Engine} {seed : Uuid} (hs : e.Sound) (hi : A i)
    (he' : e' = migrateWaits mapping target i
      (e.modifyInstance i (Eng.migrated env mapping target seed))) :
    Moves A e e' ∧ FiledFrom e e' := by
  have hother : ∀ x, x ≠ i → e'.instances.find? x = e.instances.find? x :=
    fun x hx => he' ▸ find?_modifyInstance_of_ne hx
  have hself : e'.instances.find? i = (e.instances.find? i).map fun y =>
      { Eng.migrated env mapping target seed y with id := y.id } :=
    he' ▸ find?_modifyInstance_self e i _
  have hfind : ∀ x y, e'.instances.find? x = some y → ∃ z, e.instances.find? x = some z ∧
      y.parentInstanceId = z.parentInstanceId ∧ y.eventSubscriptions = z.eventSubscriptions ∧
      y.outstandingCalls = z.outstandingCalls := by
    intro x y hy
    by_cases hxi : x = i
    · subst hxi
      obtain ⟨z, hz, rfl⟩ := Option.map_eq_some_iff.mp (hself ▸ hy)
      exact ⟨z, hz, rfl, rfl, rfl⟩
    · exact ⟨y, hother x hxi ▸ hy, rfl, rfl, rfl⟩
  have hcalls : ∀ x id, e'.Calls x id → e.Calls x id := by
    rintro x id ⟨y, call, hy, hcall⟩
    obtain ⟨z, hz, _, _, hsame⟩ := hfind x y hy
    exact ⟨z, call, hz, hsame ▸ hcall⟩
  have hsubs : ∀ x id, e'.Subscribed x id → e.Subscribed x id := by
    rintro x id ⟨y, hy, s, hmem, rfl⟩
    obtain ⟨z, hz, _, hsame, _⟩ := hfind x y hy
    exact ⟨z, hz, s, hsame ▸ hmem, rfl⟩
  have hwaits : ∀ w, w ∈ e'.waits ↔ ∃ v ∈ e.waits, v.migrated mapping i = w :=
    fun w => he' ▸ mem_waits_migrateWaits
  have hnext : e'.nextUuid = e.nextUuid := he' ▸ rfl
  refine ⟨⟨hnext.ge, ⟨⟨fun w hw => ?_, fun x y hy => ?_, fun x id h => ?_⟩, fun w hw x h => ?_⟩,
    fun x y hy => ?_, fun x y hx hy => ?_, fun x id h => .inl (hcalls x id h), fun x hx => ?_⟩,
    hnext.ge, fun w hw => ?_, fun x id h => ?_⟩
  · obtain ⟨v, hv, rfl⟩ := (hwaits w).mp hw
    exact hnext ▸ hs.drawn.waits v hv
  · obtain ⟨z, hz, _⟩ := hfind x y hy
    exact hnext ▸ hs.drawn.instances x z hz
  · exact hnext ▸ hs.drawn.subscriptions x id (hsubs x id h)
  · obtain ⟨v, hv, rfl⟩ := (hwaits w).mp hw
    exact hs.subscriptions v hv x (hsubs x _ h)
  · by_cases hxi : x = i
    · subst hxi
      exact ⟨_, hself.trans (congrArg _ hy), rfl⟩
    · exact ⟨y, (hother x hxi).trans hy, rfl⟩
  · obtain ⟨z, hz, _⟩ := hfind x y hy
    rw [hx] at hz
    cases hz
  · have hxi : x ≠ i := fun h => hx (h ▸ hi)
    refine .same (congrArg _ (hother x hxi)) fun w hw => ?_
    have hsame : ∀ v : Wait, v.instanceId = x → v.migrated mapping i = v := by
      intro v hv
      have hne : v.instanceId ≠ i := fun h => hxi (hv.symm.trans h)
      simp [Wait.migrated, hne]
    refine (hwaits w).trans ⟨?_, fun h => ⟨w, h, hsame w hw⟩⟩
    rintro ⟨v, hv, rfl⟩
    rwa [hsame v hw]
  · obtain ⟨v, hv, rfl⟩ := (hwaits w).mp hw
    exact .inl ⟨v, hv, rfl, rfl, rfl⟩
  · exact .inl (hsubs x id h)

/-! ## Deletion -/

/-- Instances in `A` may be gone; all others are as they were. -/
structure Removes (A : Uuid → Prop) (e e' : Engine) : Prop where
  sound : e'.Sound
  filed : FiledFrom e e'
  waits : ∀ w ∈ e'.waits, w ∈ e.waits
  parents : ∀ x y, e'.instances.find? x = some y →
    ∃ z, e.instances.find? x = some z ∧ y.parentInstanceId = z.parentInstanceId
  called : ∀ i id, e'.Calls i id → e.Calls i id
  kept : ∀ x, (e'.instances.find? x = none ∧ A x) ∨ Untouched x e e'

namespace Removes

variable {A : Uuid → Prop} {e e' e'' : Engine}

theorem of_same (hs : e.Sound) (hinstances : e'.instances = e.instances)
    (hwaits : ∀ w, w ∈ e'.waits ↔ w ∈ e.waits) (hn : e.nextUuid ≤ e'.nextUuid) :
    Removes A e e' where
  sound := (Moves.of_same (A := A) hs hinstances hwaits hn).sound
  filed := .of_same hinstances hwaits hn
  waits w := (hwaits w).mp
  parents x y hy := ⟨y, hinstances ▸ hy, rfl⟩
  called := fun i id ⟨y, call, hy, hcall⟩ => ⟨y, call, hinstances ▸ hy, hcall⟩
  kept x := .inr (.same (by rw [hinstances]) fun w _ => hwaits w)

theorem trans (h : Removes A e e') (h' : Removes A e' e'') : Removes A e e'' where
  sound := h'.sound
  filed := h.filed.trans h'.filed
  waits w hw := h.waits w (h'.waits w hw)
  parents x y hy := by
    obtain ⟨y', hy', hp'⟩ := h'.parents x y hy
    obtain ⟨z, hz, hp⟩ := h.parents x y' hy'
    exact ⟨z, hz, hp'.trans hp⟩
  called i id hc := h.called i id (h'.called i id hc)
  kept x := by
    rcases h'.kept x with hgone | hkept
    · exact .inl hgone
    · rcases h.kept x with ⟨hgone, hA⟩ | hold
      · refine .inl ⟨?_, hA⟩
        cases hkept with
        | same h => simpa [hgone] using h
        | interrupted y y' hy => simp [hgone] at hy
      · exact .inr (hold.trans hkept)

theorem ranked (h : Removes A e e') (hr : e.Ranked) : e'.Ranked := by
  intro x y q hy hq
  obtain ⟨z, hz, hp⟩ := h.parents x y hy
  exact hr x z q hz (hp.symm.trans hq)

theorem lineage (h : Removes A e e') (hl : e.Lineage) : e'.Lineage where
  drawn i id hc := lt_of_lt_of_le (hl.drawn i id (h.called i id hc)) h.filed.nextUuid_le
  caller i id y q hc hy hq := by
    obtain ⟨z, hz, hp⟩ := h.parents id y hy
    exact hl.caller i id z q (h.called i id hc) hz (hp.symm.trans hq)

end Removes

theorem deleteInstance_removes (hs : e.Sound) (hi : A i)
    (hx : exec (Eng.deleteInstance i) e = (r, t)) : Removes A e t := by
  cases hfound : e.instances.find? i with
  | none =>
    rw [Eng.deleteInstance, exec_bind_error (exec_getInstance_none hfound)] at hx
    cases hx
    exact .of_same hs rfl (fun _ => Iff.rfl) le_rfl
  | some =>
    rw [Eng.deleteInstance, exec_bind_ok (exec_getInstance hfound),
      exec_bind_ok (exec_modify _ _), Eng.exec_cancelScopeWaits] at hx
    obtain ⟨_, rfl⟩ := Prod.mk.inj hx
    have hcore := sameCore_dropWaits { e with instances := e.instances.erase i } i
    have hwaits : ∀ w, w ∈ (({ e with instances := e.instances.erase i } : Engine).dropWaits
        i).waits ↔ w ∈ e.waits ∧ w.instanceId ≠ i := fun w => mem_waits_dropWaits
    generalize ({ e with instances := e.instances.erase i } : Engine).dropWaits i = e' at *
    have hfind : ∀ x z, e'.instances.find? x = some z → e.instances.find? x = some z := by
      intro x z hz
      rw [hcore.instances] at hz
      by_cases hxi : x = i
      · simp [hxi] at hz
      · simpa [hxi] using hz
    have hsubs : ∀ x id, e'.Subscribed x id → e.Subscribed x id :=
      fun x id ⟨z, hz, h⟩ => ⟨z, hfind x z hz, h⟩
    have hn : e'.nextUuid = e.nextUuid := hcore.nextUuid
    refine ⟨⟨⟨fun w hw => ?_, fun x z hz => ?_, fun x id h => ?_⟩, fun w hw x h => ?_⟩,
      ⟨hn.ge, fun w hw => ?_, fun x id h => .inl (hsubs x id h)⟩,
      fun w hw => ((hwaits w).mp hw).1, fun x z hz => ⟨z, hfind x z hz, rfl⟩,
      fun x id ⟨z, call, hz, hcall⟩ => ⟨z, call, hfind x z hz, hcall⟩, fun x => ?_⟩
    · exact hn ▸ hs.drawn.waits w ((hwaits w).mp hw).1
    · exact hn ▸ hs.drawn.instances x z (hfind x z hz)
    · exact hn ▸ hs.drawn.subscriptions x id (hsubs x id h)
    · exact hs.subscriptions w ((hwaits w).mp hw).1 x (hsubs x _ h)
    · exact .inl ⟨w, ((hwaits w).mp hw).1, rfl, rfl, rfl⟩
    · by_cases hxi : x = i
      · subst hxi
        exact .inl ⟨by rw [hcore.instances]; simp, hi⟩
      · refine .inr (.same ?_ fun w hw => ?_)
        · rw [hcore.instances]
          simp [hxi]
        · rw [hwaits w]
          exact and_iff_left fun h => hxi (hw.symm.trans h)

theorem deleteInstances_removes {ids : List Uuid} (hs : e.Sound) (hA : ∀ i ∈ ids, A i)
    (hx : exec (ids.forM Eng.deleteInstance) e = (r, t)) : Removes A e t := by
  induction ids generalizing e with
  | nil =>
    cases hx
    exact .of_same hs rfl (fun _ => Iff.rfl) le_rfl
  | cons i ids ih =>
    replace hx : exec (Eng.deleteInstance i >>= fun _ => ids.forM Eng.deleteInstance) e =
      (r, t) := hx
    rw [exec_bind] at hx
    split at hx
    case h_2 hfail =>
      cases hx
      exact deleteInstance_removes hs (hA i List.mem_cons_self) hfail
    case h_1 e' hok =>
      have hfirst := deleteInstance_removes hs (hA i List.mem_cons_self) hok
      exact hfirst.trans (ih hfirst.sound (fun j hj => hA j (List.mem_cons_of_mem i hj)) hx)

theorem deleteDefinition_removes {env : Env} {key : Uuid} {cascade : Bool} (hs : e.Sound)
    (hx : exec (Eng.deleteDefinition env key cascade) e = (r, t)) :
    Removes (fun i => ∃ y, e.instances.find? i = some y ∧ y.definitionKey = key) e t := by
  have hsame : Removes (fun i => ∃ y, e.instances.find? i = some y ∧ y.definitionKey = key) e e :=
    .of_same hs rfl (fun _ => Iff.rfl) le_rfl
  have hassociated : ∀ i ∈ ((env.visit e.nextUuid e.instances.entries).filter fun y =>
      y.definitionKey == key).map (·.id),
      ∃ y, e.instances.find? i = some y ∧ y.definitionKey = key := by
    intro i hi
    obtain ⟨y, hy, rfl⟩ := List.mem_map.mp hi
    obtain ⟨hmem, hkey⟩ := List.mem_filter.mp hy
    exact ⟨y, Table.find?_of_mem ((Env.mem_visit ..).mp hmem), by simpa using hkey⟩
  cases hfound : e.definitions.find? key with
  | none =>
    rw [Eng.deleteDefinition, exec_bind_error (exec_getDefinition_none hfound)] at hx
    cases hx
    exact hsame
  | some =>
    rw [Eng.deleteDefinition, exec_bind_ok (exec_getDefinition hfound),
      exec_bind_ok (exec_get e)] at hx
    dsimp only at hx
    split at hx
    · cases hx
      exact hsame
    · rw [exec_bind] at hx
      split at hx
      case h_2 hfail =>
        cases hx
        exact deleteInstances_removes hs hassociated hfail
      case h_1 e' hok =>
        cases hx
        have hgone := deleteInstances_removes hs hassociated hok
        exact hgone.trans (.of_same hgone.sound rfl (fun _ => Iff.rfl) le_rfl)

namespace Config

section Operations

variable {env : Env} {A : Uuid → Prop} {c₀ c : Config} {i taskId : Uuid} {p : Powers} {e : Engine}
  {r : EngineResult Unit} {vars : Variables} {α : Type} {m : Eng Next} {workerId : String}
  {error : EngineError} {message : Option String} {op : Op}

theorem exec_of_error {m : Eng α} {onError : EngineError → Config → Config}
    {k : α → Config → Config} (hx : Program.exec m c.engine = (.error error, e)) :
    c.exec m onError k = onError error { c with engine := e } := by
  rw [exec, hx]

theorem operate_of
    (hm : ∀ r e, Program.exec m c.engine = (r, e) → Steps A c₀ { c with engine := e } ∧
      ∀ next, r = .ok next → next = .done ∨ ∃ j, A j ∧ next.Runs j) :
    Steps A c₀ (c.operate m) := by
  refine .perform hm (fun _ _ h => h.fail _) fun next e hsteps hr => ?_
  rcases hr with rfl | ⟨j, hj, hn⟩
  · exact hsteps.returnWith _
  · exact hsteps.follow hj hn

theorem operateUnit_of {m : Eng Unit}
    (hm : ∀ r e, Program.exec m c.engine = (r, e) → Steps A c₀ { c with engine := e }) :
    Steps A c₀ (c.operateUnit m) :=
  exec_rule (fun _ e hx => (hm _ e hx).fail _) fun _ e hx => (hm _ e hx).returnWith _

section

variable (h : Steps A c₀ c)

include h

theorem operate_refused (hrefused : Program.exec m c.engine = (.error error, c.engine)) :
    Steps A c₀ (c.operate m) := by
  refine operate_of fun r e hx => ?_
  obtain ⟨rfl, rfl⟩ := Prod.mk.inj (hrefused.symm.trans hx)
  exact ⟨h, fun _ hr => by cases hr⟩

theorem operate_works (hi : A i)
    (hm : Obeys (Effects.working c.engine i p) c.engine.nextUuid m fun _ next => next.Runs i) :
    Steps A c₀ (c.operate m) := by
  refine operate_of fun r e hx => ?_
  obtain ⟨hw, hr⟩ := hm.works Works.refl hx
  exact ⟨h.work hi hw, fun next hn => .inr ⟨i, hi, hr next hn⟩⟩

theorem operate_founds (hfresh : ∀ id, c₀.engine.nextUuid ≤ id → A id)
    (hm : Founds (Effects.working c.engine c.engine.nextUuid ⟨False, False, False, False⟩)
      c.engine.nextUuid m fun j _ next => next.Runs j) :
    Steps A c₀ (c.operate m) := by
  refine operate_of fun r e hx => ?_
  obtain ⟨hsteps, hr⟩ := start_steps hfresh h hm hx
  exact ⟨hsteps, fun next hn => .inr (hr next hn)⟩

theorem operateUnit_works (hi : A i) {m : Eng Unit}
    (hm : Stays (Effects.working c.engine i p) c.engine.nextUuid m) :
    Steps A c₀ (c.operateUnit m) :=
  operateUnit_of fun _ _ hx => h.work hi (hm.works Works.refl hx).1

theorem idle_works (hfresh : ∀ id, c₀.engine.nextUuid ≤ id → A id) {m : Eng α} {r : EngineResult α}
    (hm : ∀ fx n, Stays fx n m) (hx : Program.exec m c.engine = (r, e)) :
    Steps A c₀ { c with engine := e } :=
  h.work (p := ⟨False, False, False, False⟩) (hfresh _ h.moves.nextUuid_le)
    ((hm _ _).works Works.refl hx).1

/-! ## Tasks -/

theorem completeUserTask_steps (hA : ∀ q, c.engine.HasWait q .userTask taskId → A q) :
    Steps A c₀ (c.operate (Eng.completeUserTask env taskId vars)) := by
  cases hfound : c.engine.pendingUserTasks.find? taskId with
  | none =>
    have hx : Program.exec (Eng.completeUserTask env taskId vars) c.engine =
        (.error (.taskNotPending taskId "not found in pending tasks"), c.engine) := by
      rw [Eng.completeUserTask, exec_bind_ok (exec_get _), hfound]
      rfl
    exact operate_refused h hx
  | some =>
    have hwait := hasWait_of_userTask hfound
    exact operate_works (p := ⟨True, False, False, False⟩) h (hA _ hwait)
      (completeUserTask_obeys rfl (working_handles trivial h.moves.sound.drawn hwait) vars)

section

variable (hA : ∀ q, c.engine.HasWait q .serviceTask taskId → A q)

include hA

theorem completeServiceTask_steps :
    Steps A c₀ (c.operate (Eng.completeServiceTask env taskId workerId vars)) := by
  cases hfound : c.engine.pendingServiceTasks.find? taskId with
  | none => exact operate_refused h (exec_claimTask_none hfound workerId _)
  | some =>
    have hwait := hasWait_of_serviceTask hfound
    exact operate_works (p := ⟨True, False, True, False⟩) h (hA _ hwait)
      (completeServiceTask_obeys rfl (working_ends trivial) (working_files trivial le_rfl)
        (working_handles trivial h.moves.sound.drawn hwait) workerId vars)

theorem handleBpmnError_steps {code : String} :
    Steps A c₀ (c.operate (Eng.handleBpmnError env taskId workerId code vars message)) := by
  cases hfound : c.engine.pendingServiceTasks.find? taskId with
  | none => exact operate_refused h (exec_claimTask_none hfound workerId _)
  | some =>
    have hwait := hasWait_of_serviceTask hfound
    exact operate_works (p := ⟨True, False, False, True⟩) h (hA _ hwait)
      (handleBpmnError_obeys (working_governs trivial)
        (working_handles trivial h.moves.sound.drawn hwait) workerId code vars message)

theorem resolveIncident_steps : Steps A c₀ (c.operate (Eng.resolveIncident env taskId vars)) := by
  cases hfound : c.engine.pendingServiceTasks.find? taskId with
  | none => exact operate_refused h (exec_getServiceTask_none hfound _)
  | some =>
    have hwait := hasWait_of_serviceTask hfound
    exact operate_works (p := ⟨True, False, False, False⟩) h (hA _ hwait)
      (resolveIncident_obeys rfl (working_handles trivial h.moves.sound.drawn hwait) vars)

theorem failServiceTask_engine {retries : Option Int} {details : Option String} {retryAfter : Nat}
    (hx : Program.exec (Eng.failServiceTask taskId workerId retries message details retryAfter)
      c.engine = (r, e)) :
    Steps A c₀ { c with engine := e } := by
  cases hfound : c.engine.pendingServiceTasks.find? taskId with
  | none =>
    obtain ⟨_, rfl⟩ := Prod.mk.inj (hx.symm.trans (exec_getServiceTask_none hfound _))
    exact h
  | some =>
    have hwait := hasWait_of_serviceTask hfound
    exact h.work (p := ⟨True, False, False, False⟩) (hA _ hwait) (Obeys.works
      (failServiceTask_stays rfl (working_handles trivial h.moves.sound.drawn hwait) _ _ _ _ _)
      Works.refl hx).1

theorem applyTaskOutcome_steps {outcome : Eng.TaskOutcome} :
    Steps A c₀ (c.operate (Eng.applyTaskOutcome env taskId outcome)) := by
  cases outcome with
  | complete => exact completeServiceTask_steps h hA
  | bpmnError => exact handleBpmnError_steps h hA
  | failure =>
    refine operate_of fun r e hx => ?_
    rw [Eng.applyTaskOutcome, exec_bind] at hx
    split at hx
    case h_1 hfail =>
      cases hx
      exact ⟨failServiceTask_engine h hA hfail, fun _ hr => by cases hr; exact .inl rfl⟩
    case h_2 hfail =>
      cases hx
      exact ⟨failServiceTask_engine h hA hfail, fun _ hr => by cases hr⟩

end

/-! ## Instances -/

theorem updateInstanceVariables_steps (hi : A i) {updates : Variables} :
    Steps A c₀ (c.operate (Eng.updateInstanceVariables env i updates)) := by
  have hwrite : ∀ {r e}, Program.exec (updateInstance i fun x =>
      { x with
        vars := applyUpdates updates x.vars
        tokens := x.tokens.mapEntries (updateToken updates) (updateToken_id updates) })
      c.engine = (r, e) → Steps A c₀ { c with engine := e } := by
    intro r e hx
    refine h.work (p := ⟨False, False, False, False⟩) hi
      (Obeys.works (Q := fun _ _ => True) ?_ Works.refl hx).1
    exact updateInstance_stays rfl (.of_rest (.inr fun _ => .inl rfl) fun _ => rfl)
  refine operate_of fun r t hx => ?_
  rw [Eng.updateInstanceVariables, exec_bind] at hx
  split at hx
  case h_2 hfail =>
    cases hx
    exact ⟨hwrite hfail, fun _ hr => by cases hr⟩
  case h_1 e hok =>
    have hsteps := hwrite hok
    rw [exec_bind] at hx
    split at hx
    case h_2 hfail =>
      cases hx
      have hw := (fireConditionalCatches_works hsteps.moves.sound.drawn hfail).1
      exact ⟨hsteps.work hi hw, fun _ hr => by cases hr⟩
    case h_1 fired e' hfired =>
      have hw := (fireConditionalCatches_works hsteps.moves.sound.drawn hfired).1
      have ht : e' = t := by
        split at hx <;> exact (Prod.mk.inj hx).2
      subst ht
      refine ⟨hsteps.work hi hw, fun next hr => ?_⟩
      split at hx
      · exact .inl (by cases hx; cases hr; rfl)
      · exact .inr ⟨i, hi, by cases hx; cases hr; rfl⟩

theorem suspendInstance_steps (hi : A i) : Steps A c₀ (c.operateUnit (Eng.suspendInstance i)) := by
  refine operateUnit_works (p := ⟨False, False, True, False⟩) h hi ?_
  refine .bind getInstance_stays fun k x hk => ?_
  refine .after (requireActive_stays x) fun l _ hl => ?_
  exact modifyInstance_stays rfl (.of_rest (.inl (working_ends trivial)) fun _ => rfl)

theorem resumeInstance_steps (hi : A i) : Steps A c₀ (c.operateUnit (Eng.resumeInstance i)) := by
  refine operateUnit_works (p := ⟨False, False, True, False⟩) h hi ?_
  refine .bind getInstance_stays fun k x hk => ?_
  split
  · exact modifyInstance_stays rfl (.of_rest (.inl (working_ends trivial)) fun _ => rfl)
  · exact .throw _

theorem moveToken_steps (hi : A i) {target : String} {cancelCurrent : Bool} :
    Steps A c₀ (c.operate (Eng.moveToken i target vars cancelCurrent)) := by
  refine operate_works (p := ⟨False, False, False, False⟩) h hi ?_
  refine .after getInstance_stays fun k x hk => ?_
  refine .after (requireActive_stays x) fun l _ hl => ?_
  refine .after (getDefinition_stays _) fun m d hm => ?_
  refine .ite (fun _ => ?_) fun _ => ?_
  · exact .bind (Q := fun _ _ => False) (.throw _) fun _ _ _ h => h.elim
  have hmove : ∀ n, Obeys (Effects.working c.engine i ⟨False, False, False, False⟩) n (do
      let token ← newToken target (applyUpdates vars x.vars)
      Eng.modifyInstance i fun x' =>
        { x' with
          tokens := (∅ : Table Token.id).insert token
          activeTokens := []
          joinBarriers := ∅
          multiInstanceState := ∅
          state := .running
          currentNode := target
          vars := applyUpdates vars x.vars }
      return Next.run i [token]) fun _ next => next.Runs i := fun n =>
    .after (newToken_obeys _ _).stays fun _ _ _ =>
      .after (modifyInstance_stays rfl (.of_rest (.inr fun _ => .inr ⟨rfl, rfl⟩) fun _ => rfl))
        fun _ _ _ => .pure fun _ _ => rfl
  refine .ite (fun _ => ?_) fun _ => hmove m
  exact .after (cancelScopeWaits_stays rfl) fun o _ ho => hmove o

theorem migrateInstance_steps (hfresh : ∀ id, c₀.engine.nextUuid ≤ id → A id) (hi : A i)
    {target : Uuid} {mapping : Map String String} :
    Steps A c₀ (c.operateUnit (Eng.migrateInstance env i target mapping)) := by
  refine operateUnit_of fun r t hx => ?_
  rw [Eng.migrateInstance, exec_bind] at hx
  split at hx
  case h_2 hfail =>
    cases hx
    exact idle_works h hfresh (fun _ _ => checkMigration_stays i target mapping) hfail
  case h_1 e hok =>
    have hsteps := idle_works h hfresh (fun _ _ => checkMigration_stays i target mapping) hok
    cases hx
    obtain ⟨hm, hf⟩ := migrated_moves hsteps.moves.sound hi rfl
    exact hsteps.engine hm hf

theorem resolveInstanceIncident_engine {incidentId : Uuid} {resolvedBy : Option String}
    (hx : Program.exec (Eng.resolveInstanceIncident i incidentId resolvedBy) c.engine = (r, e)) :
    Steps A c₀ { c with engine := e } := by
  cases hfound : c.engine.instances.find? i with
  | none =>
    rw [Eng.resolveInstanceIncident, exec_bind_error (exec_getInstance_none hfound)] at hx
    cases hx
    exact h
  | some =>
    rw [Eng.resolveInstanceIncident, exec_bind_ok (exec_getInstance hfound),
      exec_bind_ok (exec_now _)] at hx
    split at hx
    · cases hx
      exact h
    · split at hx
      · cases hx
        exact h
      · have hm := Prod.mk.inj hx
        obtain ⟨_, rfl⟩ := hm
        exact h.engine (.dress h.moves.sound fun _ => rfl) (FiledFrom.dress fun _ => rfl)

end

/-- An operation that removes nothing works for those that act, and for new instances. -/
theorem begin_steps (h : c.Ok) (hdel : op.deletes = false) :
    Steps (fun x => op.Acting c.engine x ∨ c.engine.nextUuid ≤ x) c (c.begin env op) := by
  have hrefl : Steps (fun x => op.Acting c.engine x ∨ c.engine.nextUuid ≤ x) c c := .refl h
  have hfresh : ∀ x, c.engine.nextUuid ≤ x → op.Acting c.engine x ∨ c.engine.nextUuid ≤ x :=
    fun _ => .inr
  have hidle : ∀ {m : Eng Unit}, (∀ fx n, Stays fx n m) → Steps _ c (c.operateUnit m) :=
    fun hm => operateUnit_of fun _ _ hx => idle_works hrefl hfresh hm hx
  have hsame : ∀ {e : Engine}, e.instances = c.engine.instances →
      (∀ w, w ∈ e.waits ↔ w ∈ c.engine.waits) → c.engine.nextUuid ≤ e.nextUuid →
      Steps _ c { c with engine := e } :=
    fun hinstances hwaits hn => hrefl.engine (.of_same h.sound hinstances hwaits hn)
      (.of_same hinstances hwaits hn)
  cases op with
  | deployDefinition =>
    refine operateUnit_of fun r e hx => ?_
    cases hx
    exact hsame rfl (fun _ => Iff.rfl) (Nat.le_succ _)
  | deleteDefinition => cases hdel
  | startInstance key vars =>
    exact operate_founds hrefl hfresh (startInstanceWithVariables_founds key vars)
  | startInstanceLatest bpmnId vars =>
    exact operate_founds hrefl hfresh (startInstanceLatest_founds bpmnId vars)
  | triggerTimerStart key provided =>
    exact operate_founds hrefl hfresh (triggerTimerStart_founds key provided)
  | startTimerInstance key vars iteration =>
    exact operate_founds hrefl hfresh (startTimerInstance_founds key vars iteration)
  | completeUserTask => exact completeUserTask_steps hrefl fun q hq => .inl hq
  | fetchAndLock workerId maxTasks topics =>
    have hstays : ∀ fx n, Stays fx n
        (Eng.fetchAndLock env workerId maxTasks topics .externalWorker) :=
      fun _ _ => fetchAndLock_stays _ _ _ _
    refine exec_rule (fun error e hx => ?_) fun tasks e hx => ?_
    · exact (idle_works hrefl hfresh hstays hx).fail _
    · exact (idle_works hrefl hfresh hstays hx).answer _
  | completeServiceTask => exact completeServiceTask_steps hrefl fun q hq => .inl hq
  | failServiceTask =>
    exact operateUnit_of fun _ _ hx =>
      failServiceTask_engine hrefl (fun q hq => .inl hq) hx
  | extendLock => exact hidle fun _ _ => extendLock_stays _ _
  | handleBpmnError => exact handleBpmnError_steps hrefl fun q hq => .inl hq
  | retryIncident => exact hidle fun _ _ => retryIncident_stays _
  | resolveIncident => exact resolveIncident_steps hrefl fun q hq => .inl hq
  | dispatchHandlers maxTasks =>
    have hstays : ∀ fx n, Stays fx n (fetchAndLockInProcess env maxTasks) :=
      fun _ _ => fetchAndLockInProcess_stays _
    unfold begin
    refine exec_rule (fun error e hx => ?_) fun tasks e hx => ?_
    · exact (idle_works hrefl hfresh hstays hx).fail _
    · have hsteps := (idle_works hrefl hfresh hstays hx).answer (.tasks tasks)
      exact ⟨hsteps.moves, hsteps.carries, hsteps.opens, hsteps.driver, hsteps.serves⟩
  | startHandlerInvocation permitted =>
    change Steps _ c (c.passDispatched permitted)
    unfold passDispatched
    split
    · exact hrefl.returnWith _
    case h_2 task rest hdispatched =>
      refine operateUnit_of fun r e hx => ?_
      have hsteps := idle_works hrefl hfresh
        (fun _ _ => startHandlerInvocation_stays task permitted) hx
      exact ⟨hsteps.moves, hsteps.carries, hsteps.opens, hsteps.driver, hsteps.serves⟩
  | applyTaskOutcome =>
    unfold begin
    dsimp only
    split
    · exact applyTaskOutcome_steps hrefl fun q hq => .inl hq
    · exact hrefl.returnWith _
  | endHandlerInvocation => exact hidle fun _ _ => endHandlerInvocation_stays
  | registerTaskHandler =>
    refine operateUnit_of fun r e hx => ?_
    obtain ⟨_, rfl⟩ := Prod.mk.inj hx
    dsimp only
    split
    · exact hrefl
    · exact hsame rfl (fun _ => Iff.rfl) le_rfl
  | unregisterTaskHandler =>
    refine operateUnit_of fun r e hx => ?_
    cases hx
    exact hsame rfl (fun _ => Iff.rfl) le_rfl
  | processTimers | correlateMessage | correlateSignal => exact hrefl.resumeWith nofun
  | updateInstanceVariables => exact updateInstanceVariables_steps hrefl (.inl rfl)
  | suspendInstance => exact suspendInstance_steps hrefl (.inl rfl)
  | resumeInstance => exact resumeInstance_steps hrefl (.inl rfl)
  | moveToken => exact moveToken_steps hrefl (.inl rfl)
  | migrateInstance => exact migrateInstance_steps hrefl hfresh (.inl rfl)
  | resolveInstanceIncident =>
    exact operateUnit_of fun r e hx => resolveInstanceIncident_engine hrefl hx
  | deleteInstance => cases hdel
  | tick =>
    refine operateUnit_of fun r e hx => ?_
    cases hx
    exact hsame rfl (fun _ => Iff.rfl) le_rfl

/-- A deletion leaves all but the deleted instances alone and runs nothing. -/
theorem begin_removes (env : Env) (h : c.Ok) (hdel : op.deletes = true) :
    ∃ e r, c.begin env op = returnWith r { c with engine := e } ∧
      Removes (op.Acting c.engine) c.engine e := by
  let Leaves (c' : Config) : Prop := ∃ e r, c' = returnWith r { c with engine := e } ∧
    Removes (op.Acting c.engine) c.engine e
  have hunit : ∀ {m : Eng Unit}, (∀ r e, Program.exec m c.engine = (r, e) →
      Removes (op.Acting c.engine) c.engine e) → Leaves (c.operateUnit m) := fun hm =>
    exec_rule (P := Leaves) (fun error e hx => ⟨e, _, rfl, hm _ e hx⟩)
      fun _ e hx => ⟨e, _, rfl, hm _ e hx⟩
  cases op with
  | deleteInstance => exact hunit fun r e hx => deleteInstance_removes h.sound rfl hx
  | deleteDefinition => exact hunit fun r e hx => deleteDefinition_removes h.sound hx
  | _ => cases hdel

end Operations

end Config

end BpmnEngine
