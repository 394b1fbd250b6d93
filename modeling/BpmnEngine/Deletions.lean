import BpmnEngine.OperationMoves

/-!
# Deletions over a storage that may fail

Deleting an instance takes it out of memory, deletes the records of its files and waits,
deletes its own record and then drops its waits from memory. Deleting a definition
deletes its instances first, then takes the definition out of memory and deletes its
record. What the storage answers to the deletion of files and waits is ignored; its
answer to the deletion of the record of an instance or of a definition is passed on,
after memory has changed.

One deletion asks the storage at most once about each instance and definition, so the
storage is given by its answers. The order in which the files and waits of an instance
are deleted does not matter and is that of the tables.
-/
namespace BpmnEngine

open Program

/-! ## Files -/

namespace Value

def field? (name : String) : Value → Option Value
  | .object fields => (fields.find? fun f => f.1 == name).map (·.2)
  | _ => none

def string? : Value → Option String
  | .string text => some text
  | _ => none

def isU64 : Value → Bool
  | .number (.int n) => 0 ≤ n && n < 2 ^ 64
  | _ => false

/-- The key of the file that a value refers to. A value is a reference to a file if it says so and
has all the fields of one. -/
def fileKey? (value : Value) : Option String := do
  if (value.field? "type").bind string? = some "file" then
    let key ← (value.field? "object_key").bind string?
    let _ ← (value.field? "filename").bind string?
    let _ ← (value.field? "mime_type").bind string?
    let size ← value.field? "size_bytes"
    let _ ← (value.field? "uploaded_at").bind string?
    if size.isU64 then some key else none
  else none

end Value

/-! ## What is gone from the engine -/

namespace Engine

variable {env : Env} {e : Engine} {i j key : Uuid}

def withoutInstance (e : Engine) (i : Uuid) : Engine :=
  ({ e with instances := e.instances.erase i } : Engine).dropWaits i

def associated (env : Env) (e : Engine) (key : Uuid) : List Uuid :=
  ((env.visit e.nextUuid e.instances.entries).filter fun i => i.definitionKey == key).map (·.id)

def withoutDefinition (env : Env) (e : Engine) (key : Uuid) : Engine :=
  { (associated env e key).foldl withoutInstance e with
    definitions := e.definitions.erase key }

theorem find?_withoutInstance (hne : j ≠ i) :
    (e.withoutInstance i).instances.find? j = e.instances.find? j := by
  rw [withoutInstance, (sameCore_dropWaits _ i).instances]
  exact Table.find?_erase_of_ne hne

theorem definitions_withoutInstances (l : List Uuid) (e : Engine) :
    (l.foldl withoutInstance e).definitions = e.definitions := by
  induction l generalizing e with
  | nil => rfl
  | cons i l ih => exact (ih _).trans (sameCore_dropWaits _ i).definitions

theorem found_rest {l : List Uuid} (hi : i ∉ l)
    (hfound : ∀ j ∈ i :: l, ∃ y, e.instances.find? j = some y) :
    ∀ j ∈ l, ∃ y, (e.withoutInstance i).instances.find? j = some y := by
  intro j hj
  obtain ⟨y, hy⟩ := hfound j (List.mem_cons_of_mem i hj)
  have hne : j ≠ i := fun heq => hi (heq ▸ hj)
  exact ⟨y, (find?_withoutInstance hne).trans hy⟩

theorem mem_associated :
    j ∈ associated env e key ↔ ∃ x ∈ e.instances, x.definitionKey = key ∧ x.id = j := by
  simp [associated, Table.mem_def, and_assoc]

theorem associated_nodup (env : Env) (e : Engine) (key : Uuid) : (associated env e key).Nodup := by
  have hperm := (env.visit_perm e.nextUuid e.instances.entries).map ProcessInstance.id
  have hnodup := hperm.nodup_iff.mpr e.instances.keysNodup
  exact hnodup.sublist (List.filter_sublist.map _)

theorem find?_associated (h : j ∈ associated env e key) : ∃ x, e.instances.find? j = some x := by
  obtain ⟨x, hx, -, rfl⟩ := mem_associated.mp h
  exact ⟨x, Table.find?_of_mem hx⟩

end Engine

namespace Eng

open Engine

variable {env : Env} {e : Engine} {i key : Uuid} {cascade : Bool} {d : ProcessDefinition}

theorem exec_deleteInstance {x : ProcessInstance} (hx : e.instances.find? i = some x) :
    exec (deleteInstance i) e = (.ok (), e.withoutInstance i) := by
  rw [deleteInstance, exec_bind_ok (exec_getInstance hx),
    exec_bind_ok (exec_modify _ _), exec_cancelScopeWaits]
  rfl

theorem exec_forM_deleteInstance {l : List Uuid} (hl : l.Nodup)
    (hfound : ∀ j ∈ l, ∃ y, e.instances.find? j = some y) :
    exec (l.forM deleteInstance) e = (.ok ⟨⟩, l.foldl withoutInstance e) := by
  induction l generalizing e with
  | nil => rfl
  | cons j l ih =>
    obtain ⟨hj, hl⟩ := List.nodup_cons.mp hl
    obtain ⟨y, hy⟩ := hfound j List.mem_cons_self
    exact (exec_bind_ok (exec_deleteInstance hy)).trans (ih hl (found_rest hj hfound))

theorem exec_deleteDefinition_refused (hd : e.definitions.find? key = some d)
    (hsome : associated env e key ≠ []) (hcascade : cascade = false) :
    exec (deleteDefinition env key cascade) e =
      (.error (.definitionHasInstances (associated env e key).length), e) := by
  have hguard : (!(associated env e key).isEmpty && !cascade) = true := by
    simpa [hcascade] using hsome
  rw [deleteDefinition, exec_bind_ok (exec_getDefinition hd), exec_bind_ok (exec_get _)]
  exact (congrArg (fun m => exec m e) (if_pos hguard)).trans rfl

theorem exec_deleteDefinition (hd : e.definitions.find? key = some d)
    (hallowed : cascade = true ∨ associated env e key = []) :
    exec (deleteDefinition env key cascade) e = (.ok (), e.withoutDefinition env key) := by
  have hguard : ¬(!(associated env e key).isEmpty && !cascade) = true := by
    rcases hallowed with h | h <;> simp [h]
  have hloop := exec_forM_deleteInstance (associated_nodup env e key) fun j => find?_associated
  rw [deleteDefinition, exec_bind_ok (exec_getDefinition hd), exec_bind_ok (exec_get _)]
  refine (congrArg (fun m => exec m e) (if_neg hguard)).trans ?_
  refine (exec_bind_ok hloop).trans ?_
  rw [exec_modify, definitions_withoutInstances]
  rfl

end Eng

/-! ## The storage -/

/-- What a deletion asks of the storage. -/
inductive StorageCall where
  | fileRecord (key : String)
  | waitRecord (kind : WaitKind) (id : Uuid)
  | instanceRecord (id : Uuid)
  | definitionRecord (key : Uuid)
  deriving DecidableEq

/-- The answers of the storage during one operation, if there is a storage. -/
abbrev Answers := Option (StorageCall → EngineResult Unit)

/-- The answer that counts: nothing fails without a storage. -/
def Answers.to (answers : Answers) (call : StorageCall) : EngineResult Unit :=
  match answers with
  | none => .ok ()
  | some answer => answer call

/-- The engine with its message routes, of whatever kind, and what the storage was asked. -/
structure Memory (ρ : Type) where
  engine : Engine
  routes : ρ
  asked : List StorageCall

/-- Programs that ask the storage. -/
abbrev Deleting (ρ : Type) := Program (Memory ρ) EngineError

namespace Deleting

open Engine

variable {ρ α : Type}

def onEngine (m : Eng α) : Deleting ρ α := fun s =>
  ((exec m s.engine).1, { s with engine := (exec m s.engine).2 })

def ask (answers : Answers) (call : StorageCall) : Deleting ρ Unit := fun s =>
  match answers with
  | none => (.ok (), s)
  | some answer => (answer call, { s with asked := s.asked ++ [call] })

def askQuietly (answers : Answers) (call : StorageCall) : Deleting ρ Unit :=
  orElse (ask answers call) fun _ => pure ()

def deleteInstance (answers : Answers) (instanceId : Uuid) : Deleting ρ Unit := do
  let i ← onEngine (Eng.getInstance instanceId)
  onEngine (modify fun e => { e with instances := e.instances.erase instanceId })
  (i.vars.entries.filterMap fun entry => entry.2.fileKey?).forM fun key =>
    askQuietly answers (.fileRecord key)
  ((← get).engine.waits.filter fun w => w.instanceId == instanceId).forM fun w =>
    askQuietly answers (.waitRecord w.kind w.id)
  ask answers (.instanceRecord instanceId)
  onEngine (Eng.cancelScopeWaits instanceId)

def deleteDefinition (env : Env) (answers : Answers) (key : Uuid) (cascade : Bool) :
    Deleting ρ Unit := do
  let _ ← onEngine (Eng.getDefinition key)
  let e := (← get).engine
  let associated := ((env.visit e.nextUuid e.instances.entries).filter fun i =>
    i.definitionKey == key).map (·.id)
  if !associated.isEmpty && !cascade then
    throw (.definitionHasInstances associated.length)
  associated.forM (deleteInstance answers)
  onEngine (modify fun e => { e with definitions := e.definitions.erase key })
  ask answers (.definitionRecord key)

/-! ## What the programs do -/

variable {answers : Answers} {s : Memory ρ} {i : Uuid} {x : ProcessInstance}

theorem exec_onEngine {m : Eng α} {r : EngineResult α} {e : Engine} (h : exec m s.engine = (r, e)) :
    exec (onEngine m) s = (r, { s with engine := e }) := by
  show ((exec m s.engine).1, { s with engine := (exec m s.engine).2 }) = _
  rw [h]

theorem exec_ask (answers : Answers) (call : StorageCall) (s : Memory ρ) :
    ∃ asked, exec (ask answers call) s = (answers.to call, { s with asked := asked }) := by
  cases answers with
  | none => exact ⟨s.asked, rfl⟩
  | some => exact ⟨s.asked ++ [call], rfl⟩

theorem exec_askQuietly (answers : Answers) (call : StorageCall) (s : Memory ρ) :
    ∃ asked, exec (askQuietly answers call) s = (.ok (), { s with asked := asked }) := by
  obtain ⟨asked, h⟩ := exec_ask answers call s
  refine ⟨asked, ?_⟩
  rw [askQuietly, exec_orElse, h]
  cases answers.to call <;> rfl

theorem exec_forM_askQuietly {β : Type} (answers : Answers) (call : β → StorageCall) (l : List β)
    (s : Memory ρ) :
    ∃ asked, exec (l.forM fun b => askQuietly answers (call b)) s =
      (.ok ⟨⟩, { s with asked := asked }) := by
  obtain ⟨t, ht, asked, rfl⟩ := exec_forM (P := fun t => ∃ asked, t = { s with asked := asked })
    (f := fun b => askQuietly answers (call b))
    (fun b t ⟨asked, ht⟩ => by
      obtain ⟨asked', h⟩ := exec_askQuietly answers (call b) t
      exact ⟨_, h, asked', by rw [ht]⟩)
    l ⟨s.asked, rfl⟩
  exact ⟨asked, ht⟩

theorem exec_deleteInstance_none (h : s.engine.instances.find? i = none) :
    exec (deleteInstance answers i) s = (.error (.noSuchInstance i), s) :=
  exec_bind_error (exec_onEngine (Eng.exec_getInstance_none h))

theorem exec_deleteInstance (answers : Answers) (hx : s.engine.instances.find? i = some x) :
    ∃ t asked, exec (deleteInstance answers i) s =
        exec (do ask answers (.instanceRecord i); onEngine (Eng.cancelScopeWaits i)) t ∧
      exec (ask answers (.instanceRecord i)) t = (answers.to (.instanceRecord i),
        { s with
          engine := { s.engine with instances := s.engine.instances.erase i }
          asked := asked }) := by
  have herase : exec (modify fun e : Engine =>
      { e with instances := e.instances.erase i } : Eng Unit) s.engine =
        (.ok (), { s.engine with instances := s.engine.instances.erase i }) := rfl
  rw [deleteInstance, exec_bind_ok (exec_onEngine (Eng.exec_getInstance hx)),
    exec_bind_ok (exec_onEngine herase)]
  obtain ⟨asked, h⟩ := exec_forM_askQuietly answers StorageCall.fileRecord
    (x.vars.entries.filterMap fun entry => entry.2.fileKey?)
    { s with engine := { s.engine with instances := s.engine.instances.erase i } }
  rw [exec_bind_ok h, exec_bind_ok (exec_get _)]
  obtain ⟨asked', h'⟩ := exec_forM_askQuietly answers (fun w : Wait => .waitRecord w.kind w.id)
    (s.engine.waits.filter fun w => w.instanceId == i)
    { s with
      engine := { s.engine with instances := s.engine.instances.erase i }, asked := asked }
  obtain ⟨asked'', hask⟩ := exec_ask answers (.instanceRecord i) { s with
    engine := { s.engine with instances := s.engine.instances.erase i }, asked := asked' }
  exact ⟨_, asked'', exec_bind_ok h', hask⟩

theorem exec_deleteInstance_ok (hx : s.engine.instances.find? i = some x)
    (hok : answers.to (.instanceRecord i) = .ok ()) :
    ∃ asked, exec (deleteInstance answers i) s =
      (.ok (), { s with engine := s.engine.withoutInstance i, asked := asked }) := by
  obtain ⟨t, asked, h, hask⟩ := exec_deleteInstance answers hx
  rw [hok] at hask
  refine ⟨asked, ?_⟩
  rw [h, exec_bind_ok hask, exec_onEngine (Eng.exec_cancelScopeWaits _)]
  rfl

theorem exec_deleteInstance_error {error : EngineError} (hx : s.engine.instances.find? i = some x)
    (herror : answers.to (.instanceRecord i) = .error error) :
    ∃ asked, exec (deleteInstance answers i) s =
      (.error error, { s with
        engine := { s.engine with instances := s.engine.instances.erase i }
        asked := asked }) := by
  obtain ⟨t, asked, h, hask⟩ := exec_deleteInstance answers hx
  rw [herror] at hask
  exact ⟨asked, by rw [h, exec_bind_error hask]⟩

theorem exec_forM_deleteInstance (answers : Answers) {l : List Uuid} (hl : l.Nodup)
    (hfound : ∀ j ∈ l, ∃ y, s.engine.instances.find? j = some y) :
    (∃ asked, exec (l.forM (deleteInstance answers)) s =
          (.ok ⟨⟩, { s with engine := l.foldl Engine.withoutInstance s.engine, asked := asked }) ∧
        ∀ j ∈ l, answers.to (.instanceRecord j) = .ok ()) ∨
      ∃ error s', exec (l.forM (deleteInstance answers)) s = (.error error, s') ∧
        ∃ j ∈ l, s'.engine.instances.find? j = none ∧ answers.to (.instanceRecord j) ≠ .ok () := by
  induction l generalizing s with
  | nil => exact .inl ⟨s.asked, rfl, nofun⟩
  | cons j l ih =>
    obtain ⟨hj, hl⟩ := List.nodup_cons.mp hl
    obtain ⟨y, hy⟩ := hfound j List.mem_cons_self
    rcases hanswer : answers.to (.instanceRecord j) with error | _
    · obtain ⟨asked, h⟩ := exec_deleteInstance_error hy hanswer
      refine .inr ⟨error, _, exec_bind_error h, j, List.mem_cons_self, ?_, ?_⟩
      · exact Table.find?_erase_self _ _
      · rw [hanswer]
        nofun
    · obtain ⟨asked, h⟩ := exec_deleteInstance_ok hy hanswer
      have hrest := @ih { s with engine := s.engine.withoutInstance j, asked := asked } hl
        (found_rest hj hfound)
      have hcons : exec ((j :: l).forM (deleteInstance answers)) s =
          exec (l.forM (deleteInstance answers))
            { s with engine := s.engine.withoutInstance j, asked := asked } :=
        exec_bind_ok h
      rw [hcons]
      rcases hrest with ⟨asked', hs', hok⟩ | ⟨error, s', hs', k, hk, hgone⟩
      · exact .inl ⟨asked', hs', List.forall_mem_cons.mpr ⟨hanswer, hok⟩⟩
      · exact .inr ⟨error, s', hs', k, List.mem_cons_of_mem j hk, hgone⟩

/-! ## Definitions -/

variable {env : Env} {key : Uuid} {cascade : Bool} {d : ProcessDefinition}

theorem exec_deleteDefinition_none (h : s.engine.definitions.find? key = none) :
    exec (deleteDefinition env answers key cascade) s = (.error (.noSuchDefinition key), s) :=
  exec_bind_error (exec_onEngine (Eng.exec_getDefinition_none h))

theorem exec_deleteDefinition_refused (hd : s.engine.definitions.find? key = some d)
    (hsome : associated env s.engine key ≠ []) (hcascade : cascade = false) :
    exec (deleteDefinition env answers key cascade) s =
      (.error (.definitionHasInstances (associated env s.engine key).length), s) := by
  rw [deleteDefinition, exec_bind_ok (exec_onEngine (Eng.exec_getDefinition hd)),
    exec_bind_ok (exec_get _)]
  have hguard : (!(associated env s.engine key).isEmpty && !cascade) = true := by
    simpa [hcascade] using hsome
  dsimp only
  exact (congrArg (fun m => exec m s) (if_pos hguard)).trans rfl

/-- Once a deletion is not refused, it goes through the instances and then takes the definition
out of memory before the storage is asked for its record. -/
theorem exec_deleteDefinition (answers : Answers) (hd : s.engine.definitions.find? key = some d)
    (hallowed : cascade = true ∨ associated env s.engine key = []) :
    (∃ asked, exec (deleteDefinition env answers key cascade) s =
          (answers.to (.definitionRecord key),
            { s with engine := s.engine.withoutDefinition env key, asked := asked }) ∧
        ∀ j ∈ associated env s.engine key, answers.to (.instanceRecord j) = .ok ()) ∨
      ∃ error s', exec (deleteDefinition env answers key cascade) s = (.error error, s') ∧
        ∃ j ∈ associated env s.engine key,
          s'.engine.instances.find? j = none ∧ answers.to (.instanceRecord j) ≠ .ok () := by
  have hguard : ¬(!(associated env s.engine key).isEmpty && !cascade) = true := by
    rcases hallowed with h | h <;> simp [h]
  have hexec : exec (deleteDefinition env answers key cascade) s =
      exec (do
        (associated env s.engine key).forM (deleteInstance answers)
        onEngine (modify fun e => { e with definitions := e.definitions.erase key })
        ask answers (.definitionRecord key)) s := by
    rw [deleteDefinition, exec_bind_ok (exec_onEngine (Eng.exec_getDefinition hd)),
      exec_bind_ok (exec_get _)]
    exact (congrArg (fun m => exec m s) (if_neg hguard)).trans rfl
  rw [hexec]
  rcases exec_forM_deleteInstance answers (associated_nodup env s.engine key)
      fun j => find?_associated with ⟨asked, h, hok⟩ | ⟨error, s', h, hfails⟩
  · rw [exec_bind_ok h]
    have herase : ∀ e : Engine, exec (modify fun e : Engine =>
        { e with definitions := e.definitions.erase key } : Eng Unit) e =
          (.ok (), { e with definitions := e.definitions.erase key }) := fun _ => rfl
    rw [exec_bind_ok (exec_onEngine (herase _)), Engine.definitions_withoutInstances]
    obtain ⟨asked', hask⟩ := exec_ask answers (.definitionRecord key)
      { s with engine := s.engine.withoutDefinition env key, asked := asked }
    exact .inl ⟨asked', hask, hok⟩
  · exact .inr ⟨error, s', exec_bind_error h, hfails⟩

/-! ## Over a storage that does not fail -/

theorem deleteInstance_follows (hok : ∀ call, answers.to call = .ok ()) (s : Memory ρ) (i : Uuid) :
    ∃ asked, exec (deleteInstance answers i) s =
      ((exec (Eng.deleteInstance i) s.engine).1,
        { s with engine := (exec (Eng.deleteInstance i) s.engine).2, asked := asked }) := by
  cases hx : s.engine.instances.find? i with
  | none =>
    have hengine : exec (Eng.deleteInstance i) s.engine = (.error (.noSuchInstance i), s.engine) :=
      exec_bind_error (Eng.exec_getInstance_none hx)
    rw [exec_deleteInstance_none hx, hengine]
    exact ⟨s.asked, rfl⟩
  | some =>
    rw [Eng.exec_deleteInstance hx]
    exact exec_deleteInstance_ok hx (hok _)

theorem deleteDefinition_follows (hok : ∀ call, answers.to call = .ok ()) (s : Memory ρ)
    (key : Uuid) (cascade : Bool) :
    ∃ asked, exec (deleteDefinition env answers key cascade) s =
      ((exec (Eng.deleteDefinition env key cascade) s.engine).1,
        { s with
          engine := (exec (Eng.deleteDefinition env key cascade) s.engine).2
          asked := asked }) := by
  cases hd : s.engine.definitions.find? key with
  | none =>
    have hengine : exec (Eng.deleteDefinition env key cascade) s.engine =
        (.error (.noSuchDefinition key), s.engine) :=
      exec_bind_error (Eng.exec_getDefinition_none hd)
    rw [exec_deleteDefinition_none hd, hengine]
    exact ⟨s.asked, rfl⟩
  | some =>
    by_cases hallowed : cascade = true ∨ associated env s.engine key = []
    · rw [Eng.exec_deleteDefinition hd hallowed]
      rcases exec_deleteDefinition answers hd hallowed with
        ⟨asked, h, -⟩ | ⟨error, s', -, j, -, -, hfails⟩
      · exact ⟨asked, by rw [h, hok]⟩
      · exact absurd (hok _) hfails
    · obtain ⟨hcascade, hsome⟩ := not_or.mp hallowed
      have hcascade := eq_false_of_ne_true hcascade
      rw [exec_deleteDefinition_refused hd hsome hcascade,
        Eng.exec_deleteDefinition_refused hd hsome hcascade]
      exact ⟨s.asked, rfl⟩

end Deleting

/-! ## All or nothing -/

inductive DeletionRequest where
  | deleteInstance (id : Uuid)
  | deleteDefinition (key : Uuid) (cascade : Bool)

namespace DeletionRequest

open Engine

variable {ρ : Type}

def run (env : Env) (answers : Answers) : DeletionRequest → Deleting ρ Unit
  | .deleteInstance id => Deleting.deleteInstance answers id
  | .deleteDefinition key cascade => Deleting.deleteDefinition env answers key cascade

/-- A deletion that fails leaves the engine and the routes as they were. -/
def AllOrNothing (env : Env) (answers : Answers) (s : Memory ρ) (request : DeletionRequest) :
    Prop :=
  ∀ error s', exec (request.run env answers) s = (.error error, s') →
    s'.engine = s.engine ∧ s'.routes = s.routes

/-- The storage does not fail to delete the record of anything that is deleted: of an instance
that is there, or of a definition that is there and all its instances, unless they forbid the
deletion. -/
def Answered (answers : Answers) (e : Engine) : DeletionRequest → Prop
  | .deleteInstance id => ∀ x, e.instances.find? id = some x → answers.to (.instanceRecord id) =
    .ok ()
  | .deleteDefinition key cascade =>
    ∀ d, e.definitions.find? key = some d →
      (cascade = true ∨ ∀ x ∈ e.instances, x.definitionKey ≠ key) →
        (∀ x ∈ e.instances, x.definitionKey = key → answers.to (.instanceRecord x.id) = .ok ()) ∧
          answers.to (.definitionRecord key) = .ok ()

theorem associated_eq_nil_iff (env : Env) {e : Engine} {key : Uuid} :
    associated env e key = [] ↔ ∀ x ∈ e.instances, x.definitionKey ≠ key := by
  rw [List.eq_nil_iff_forall_not_mem]
  simp only [mem_associated]
  exact ⟨fun h x hx hkey => h x.id ⟨x, hx, hkey, rfl⟩, fun h j ⟨x, hx, hkey, _⟩ => h x hx hkey⟩

theorem deleteInstance_allOrNothing_iff (env : Env) (answers : Answers) (s : Memory ρ) (i : Uuid) :
    AllOrNothing env answers s (.deleteInstance i) ↔ Answered answers s.engine
      (.deleteInstance i) := by
  constructor
  · intro h x hx
    rcases hanswer : answers.to (.instanceRecord i) with error | _
    · obtain ⟨asked, hexec⟩ := Deleting.exec_deleteInstance_error hx hanswer
      have hsame := (h _ _ hexec).1
      rw [← hsame, Table.find?_erase_self] at hx
      cases hx
    · rfl
  · intro h error s' hexec
    cases hx : s.engine.instances.find? i with
    | none =>
      cases hexec.symm.trans (Deleting.exec_deleteInstance_none hx)
      exact ⟨rfl, rfl⟩
    | some x =>
      obtain ⟨asked, hok⟩ := Deleting.exec_deleteInstance_ok hx (h x hx)
      cases hexec.symm.trans hok

theorem deleteDefinition_allOrNothing_iff (env : Env) (answers : Answers) (s : Memory ρ)
    (key : Uuid)
    (cascade : Bool) :
    AllOrNothing env answers s (.deleteDefinition key cascade) ↔
      Answered answers s.engine (.deleteDefinition key cascade) := by
  constructor
  · intro h d hd hallowed
    rw [← associated_eq_nil_iff env] at hallowed
    rcases Deleting.exec_deleteDefinition answers hd hallowed with
      ⟨asked, hexec, hok⟩ | ⟨error, s', hexec, j, hj, hgone, -⟩
    · refine ⟨fun x hx hkey => hok _ (mem_associated.mpr ⟨x, hx, hkey, rfl⟩), ?_⟩
      rcases hanswer : answers.to (.definitionRecord key) with error | _
      · rw [hanswer] at hexec
        have hsame := (h _ _ hexec).1
        rw [← hsame] at hd
        exact absurd hd (by simp [withoutDefinition])
      · rfl
    · -- the instance whose record could not be deleted is gone from memory
      obtain ⟨x, hx⟩ := find?_associated hj
      rw [(h _ _ hexec).1, hx] at hgone
      cases hgone
  · intro h error s' hexec
    cases hd : s.engine.definitions.find? key with
    | none =>
      cases hexec.symm.trans (Deleting.exec_deleteDefinition_none hd)
      exact ⟨rfl, rfl⟩
    | some d =>
      by_cases hallowed : cascade = true ∨ associated env s.engine key = []
      · obtain ⟨hinstances, hdefinition⟩ :=
          h d hd (hallowed.imp_right (associated_eq_nil_iff env).mp)
        rcases Deleting.exec_deleteDefinition answers hd hallowed with
          ⟨asked, hok, -⟩ | ⟨error, s', -, j, hj, -, hfails⟩
        · rw [hdefinition] at hok
          cases hexec.symm.trans hok
        · obtain ⟨x, hx, hkey, rfl⟩ := mem_associated.mp hj
          exact absurd (hinstances x hx hkey) hfails
      · obtain ⟨hcascade, hsome⟩ := not_or.mp hallowed
        cases hexec.symm.trans (Deleting.exec_deleteDefinition_refused hd hsome
          (eq_false_of_ne_true hcascade))
        exact ⟨rfl, rfl⟩

end DeletionRequest

/-- A deletion leaves memory as it was whenever it fails if and only if the storage does not fail
to delete a record that it is asked to. -/
theorem deletion_all_or_nothing_iff {ρ : Type} (env : Env) (answers : Answers) (s : Memory ρ)
    (request : DeletionRequest) :
    request.AllOrNothing env answers s ↔ request.Answered answers s.engine := by
  cases request with
  | deleteInstance i => exact DeletionRequest.deleteInstance_allOrNothing_iff env answers s i
  | deleteDefinition key cascade =>
    exact DeletionRequest.deleteDefinition_allOrNothing_iff env answers s key cascade

def filing : ProcessDefinition := .ofGraph "filing"
  [("start", .startEvent), ("file", .userTask "clerk"), ("end", .endEvent)]
  [("start", [.simple "file"]), ("file", [.simple "end"])]

def filingRun : Option Config :=
  Config.performAll .plain 100 (Config.initial 0) [.deployDefinition filing, .startInstance 1 ∅]

def brokenStorage : Answers := some fun _ => .error (.persistenceError "unreachable")

/-- The storage cannot be reached. The deletion fails, and the instance is gone from memory. -/
theorem filing_half_deleted :
    ∃ c, Reaches (Config.step .plain) (fun _ _ => True) (Config.initial 0) c ∧
      ¬(DeletionRequest.deleteInstance 2).AllOrNothing .plain brokenStorage ⟨c.engine, (), []⟩ := by
  have hrun : filingRun.map (fun c => (c.engine.instances.find? 2).isSome) = some true := by
    decide +kernel
  obtain ⟨c, hreach, -, hsome⟩ := Config.exists_of_performAll hrun
  obtain ⟨x, hx⟩ := Option.isSome_iff_exists.mp hsome
  refine ⟨c, hreach, fun h => ?_⟩
  have hanswered := (DeletionRequest.deleteInstance_allOrNothing_iff _ _ _ _).mp h x hx
  cases hanswered

end BpmnEngine
