import BpmnEngine.Machine

/-!
# Which version of a process is started

Several versions of a process may be deployed under one BPMN identifier. A lookup by that
identifier answers with the highest version. A call activity and the start events of
messages and signals do not use the lookup: they scan the registry themselves, in the
order in which it happens to be visited. They start what the lookup answers, in every
order, only as long as no superseded version can be found by the scan.
-/
namespace BpmnEngine

open Program

/-- What may ask for a new instance without naming a version. -/
inductive StartRequest where
  | calledElement (bpmnId : String)
  | message (name : String)
  | signal (name : String)
  deriving DecidableEq, Repr

/-- The definition is one that the scan of the registry looks for. -/
def StartRequest.asks : StartRequest → ProcessDefinition → Bool
  | .calledElement bpmnId, d => d.id == bpmnId
  | .message messageName, d =>
    match d.startEvent with
    | some (_, .messageStartEvent name) => name == messageName
    | _ => false
  | .signal signalName, d =>
    match d.startEvent with
    | some (_, .signalStartEvent name) => name == signalName
    | _ => false

/-! ## The highest version -/

/-- The last of the definitions with the highest version. -/
def latestOf (definitions : List ProcessDefinition) : Option ProcessDefinition :=
  definitions.foldl
    (fun best d =>
      match best with
      | none => some d
      | some b => if b.version ≤ d.version then some d else some b)
    none

def latestFrom (first : ProcessDefinition) (definitions : List ProcessDefinition) :
    ProcessDefinition :=
  definitions.foldl (fun b d => if b.version ≤ d.version then d else b) first

theorem latestFrom_cons (d x : ProcessDefinition) (rest : List ProcessDefinition) :
    latestFrom d (x :: rest) =
      if d.version ≤ x.version then latestFrom x rest else latestFrom d rest := by
  rw [latestFrom, List.foldl_cons]
  split <;> rfl

theorem latestOf_cons (d : ProcessDefinition) (rest : List ProcessDefinition) :
    latestOf (d :: rest) = some (latestFrom d rest) := by
  unfold latestOf latestFrom
  rw [List.foldl_cons]
  induction rest generalizing d with
  | nil => rfl
  | cons x rest ih =>
    simp only [List.foldl_cons]
    split
    · exact ih x
    · exact ih d

theorem latestFrom_mem (d : ProcessDefinition) (rest : List ProcessDefinition) :
    latestFrom d rest ∈ d :: rest := by
  induction rest generalizing d with
  | nil => exact List.mem_cons_self
  | cons x rest ih =>
    rw [latestFrom_cons]
    split
    · exact List.mem_cons_of_mem d (ih x)
    · rcases List.mem_cons.mp (ih d) with h | h
      · exact List.mem_cons.mpr (.inl h)
      · exact List.mem_cons_of_mem d (List.mem_cons_of_mem x h)

theorem le_latestFrom (d : ProcessDefinition) (rest : List ProcessDefinition) :
    ∀ x ∈ d :: rest, x.version ≤ (latestFrom d rest).version := by
  induction rest generalizing d with
  | nil => exact List.forall_mem_singleton.mpr (Int.le_refl _)
  | cons x rest ih =>
    rw [latestFrom_cons]
    split
    case isTrue hle =>
      have hx := ih x x List.mem_cons_self
      exact List.forall_mem_cons.mpr ⟨Int.le_trans hle hx, ih x⟩
    case isFalse hlt =>
      obtain ⟨hd, hrest⟩ := List.forall_mem_cons.mp (ih d)
      exact List.forall_mem_cons.mpr ⟨hd, List.forall_mem_cons.mpr ⟨by omega, hrest⟩⟩

variable {d : ProcessDefinition} {definitions : List ProcessDefinition}

theorem latestFrom_mem_of_le {x : ProcessDefinition} {rest : List ProcessDefinition} (hx : x ∈ rest)
    (hle : d.version ≤ x.version) : latestFrom d rest ∈ rest := by
  induction rest generalizing d with
  | nil => cases hx
  | cons y rest ih =>
    rw [latestFrom_cons]
    split
    · exact latestFrom_mem y rest
    case isFalse hlt =>
      rcases List.mem_cons.mp hx with rfl | hx
      · exact absurd hle hlt
      · exact List.mem_cons_of_mem y (ih hx hle)

theorem latestOf_eq_some (h : latestOf definitions = some d) :
    d ∈ definitions ∧ ∀ x ∈ definitions, x.version ≤ d.version := by
  cases definitions with
  | nil => cases h
  | cons first rest =>
    rw [latestOf_cons] at h
    cases h
    exact ⟨latestFrom_mem first rest, le_latestFrom first rest⟩

theorem latestOf_of_newest (hd : d ∈ definitions)
    (hnewest : ∀ x ∈ definitions, x = d ∨ x.version < d.version) :
    latestOf definitions = some d := by
  cases hl : latestOf definitions with
  | none =>
    cases definitions with
    | nil => cases hd
    | cons =>
      rw [latestOf_cons] at hl
      cases hl
  | some b =>
    obtain ⟨hb, hmax⟩ := latestOf_eq_some hl
    rcases hnewest b hb with rfl | hlt
    · rfl
    · exact absurd (hmax d hd) (Int.not_le.mpr hlt)

/-! ## What the engine starts -/

namespace Engine

variable (env : Env) (e : Engine)

def visited : List ProcessDefinition := env.visit e.nextUuid e.definitions.entries

def latest (bpmnId : String) : Option ProcessDefinition :=
  latestOf ((e.visited env).filter fun d => d.id == bpmnId)

/-- The definitions that a request starts instances of: a call activity takes the first that the
scan finds, the start events take all. -/
def startedBy : StartRequest → List ProcessDefinition
  | .calledElement bpmnId => ((e.visited env).find? fun d => d.id == bpmnId).toList
  | request => (e.visited env).filter request.asks

/-- Of every process that has a definition the request asks for in its highest version, that one
definition is started, and nothing else. -/
def StartsLatest (request : StartRequest) : Prop :=
  ∀ bpmnId, (e.startedBy env request).filter (fun d => d.id == bpmnId) =
    ((e.latest env bpmnId).filter request.asks).toList

/-- The definitions that the request asks for are newer than the other versions of their
processes. -/
def UpToDate (request : StartRequest) : Prop :=
  ∀ d ∈ e.definitions, request.asks d = true → ∀ x ∈ e.definitions, x.id = d.id →
    x = d ∨ x.version < d.version

end Engine

namespace Eng

variable {env : Env} {e : Engine}

theorem exec_findLatestByBpmnId (bpmnId : String) :
    exec (findLatestByBpmnId env bpmnId) e = (.ok (e.latest env bpmnId), e) := rfl

theorem exec_messageStarts (name : String) :
    exec (messageStarts env name) e =
      (.ok ((e.startedBy env (.message name)).map (·.key)), e) := rfl

theorem exec_signalStarts (name : String) :
    exec (signalStarts env name) e = (.ok ((e.startedBy env (.signal name)).map (·.key)), e) := rfl

theorem exec_onWaitForCallActivity_of_started {d : ProcessDefinition} {i : Uuid} {called : String}
    {token : Token} {queue : List Token} (h : e.startedBy env (.calledElement called) = [d]) :
    exec (onWaitForCallActivity env i called token queue) e =
      exec (orElse
        (do
          let (childId, start) ← spawnCallActivityForParent env d.key i token
          return ActionOutcome.call queue childId start)
        fun _ => do
          failCallActivity i "CALL_ACTIVITY_SPAWN_FAILED"
          return .proceed []) e := by
  have hfound : (e.visited env).find? (fun d => d.id == called) = some d := by
    cases hf : (e.visited env).find? fun d => d.id == called with
    | none => simp [Engine.startedBy, hf] at h
    | some => simpa [Engine.startedBy, hf] using h
  have hall : exec (allDefinitions env) e = (.ok (e.visited env), e) := rfl
  rw [onWaitForCallActivity, exec_bind_ok hall, hfound]

end Eng

/-! ## When the highest version is started -/

namespace Engine

variable {env : Env} {e : Engine} {request : StartRequest} {d : ProcessDefinition}

theorem mem_visited : d ∈ e.visited env ↔ d ∈ e.definitions := by
  rw [visited, Env.mem_visit, Table.mem_def]

theorem visited_nodup : (e.visited env).Nodup :=
  (env.visit_perm _ _).nodup_iff.mpr (List.Nodup.of_map _ e.definitions.keysNodup)

theorem latest_of_newest (hd : d ∈ e.definitions)
    (hnewest : ∀ x ∈ e.definitions, x.id = d.id → x = d ∨ x.version < d.version) :
    e.latest env d.id = some d := by
  refine latestOf_of_newest (List.mem_filter.mpr ⟨mem_visited.mpr hd, by simp⟩) fun x hx => ?_
  obtain ⟨hx, hid⟩ := List.mem_filter.mp hx
  exact hnewest x (mem_visited.mp hx) (by simpa using hid)

theorem latest_eq_some {bpmnId : String} (h : e.latest env bpmnId = some d) :
    d ∈ e.definitions ∧ d.id = bpmnId := by
  obtain ⟨hd, hid⟩ := List.mem_filter.mp (latestOf_eq_some h).1
  exact ⟨mem_visited.mp hd, by simpa using hid⟩

theorem of_mem_startedBy (h : d ∈ e.startedBy env request) :
    d ∈ e.definitions ∧ request.asks d = true := by
  cases request with
  | calledElement =>
    have hfound := Option.mem_toList.mp h
    exact ⟨mem_visited.mp (List.mem_of_find?_eq_some hfound), List.find?_some hfound⟩
  | message name | signal name =>
    obtain ⟨hd, hasks⟩ := List.mem_filter.mp h
    exact ⟨mem_visited.mp hd, hasks⟩

theorem startedBy_nodup : (e.startedBy env request).Nodup := by
  cases request with
  | calledElement =>
    have hsingle : ∀ o : Option ProcessDefinition, o.toList.Nodup := fun o => by cases o <;> simp
    exact hsingle _
  | message name | signal name => exact visited_nodup.filter _

theorem mem_startedBy_of_first {rest : List ProcessDefinition}
    (hfirst : e.visited env = d :: rest) (hasks : request.asks d = true) :
    d ∈ e.startedBy env request := by
  cases request with
  | calledElement bpmnId =>
    have hid : (d.id == bpmnId) = true := hasks
    simp [startedBy, hfirst, hid]
  | message name | signal name => exact List.mem_filter.mpr ⟨hfirst ▸ List.mem_cons_self, hasks⟩

/-- A definition that the request asks for and that is newer than the other versions of its
process is started. -/
theorem mem_startedBy_of_upToDate (h : e.UpToDate request) (hd : d ∈ e.definitions)
    (hasks : request.asks d = true) : d ∈ e.startedBy env request := by
  cases request with
  | calledElement bpmnId =>
    have hid : (d.id == bpmnId) = true := hasks
    cases hf : (e.visited env).find? fun d => d.id == bpmnId with
    | none =>
      have hnone := List.find?_eq_none.mp hf d (mem_visited.mpr hd)
      simp [hid] at hnone
    | some x =>
      have hx : x ∈ e.definitions := mem_visited.mp (List.mem_of_find?_eq_some hf)
      have hxid : (x.id == bpmnId) = true := by simpa using List.find?_some hf
      have hsame : x.id = d.id := (beq_iff_eq.mp hxid).trans (beq_iff_eq.mp hid).symm
      -- Two definitions under the called identifier would each be newer than the other.
      obtain rfl : x = d := by
        rcases h d hd hasks x hx hsame with hxd | hlt
        · exact hxd
        · rcases h x hx hxid d hd hsame.symm with hdx | hgt
          · exact hdx.symm
          · omega
      simp [startedBy, hf]
  | message name | signal name => exact List.mem_filter.mpr ⟨mem_visited.mpr hd, hasks⟩

theorem startsLatest_of_upToDate (h : e.UpToDate request) : e.StartsLatest env request := by
  intro bpmnId
  have hlatest : ∀ d ∈ (e.startedBy env request).filter fun d => d.id == bpmnId,
      e.latest env bpmnId = some d ∧ request.asks d = true := by
    intro d hd
    obtain ⟨hstarted, hid⟩ := List.mem_filter.mp hd
    obtain ⟨hmem, hasks⟩ := of_mem_startedBy hstarted
    exact ⟨beq_iff_eq.mp hid ▸ latest_of_newest hmem (h d hmem hasks), hasks⟩
  cases hl : (e.latest env bpmnId).filter request.asks with
  | none =>
    refine List.eq_nil_iff_forall_not_mem.mpr fun d hd => ?_
    obtain ⟨hsome, hasks⟩ := hlatest d hd
    simp [hsome, hasks] at hl
  | some d =>
    obtain ⟨hsome, hasks⟩ := Option.filter_eq_some_iff.mp hl
    obtain ⟨hmem, hid⟩ := latest_eq_some hsome
    have hd : d ∈ (e.startedBy env request).filter fun d => d.id == bpmnId :=
      List.mem_filter.mpr ⟨mem_startedBy_of_upToDate h hmem hasks, beq_iff_eq.mpr hid⟩
    have hunique : ∀ x ∈ (e.startedBy env request).filter fun d => d.id == bpmnId, x = d :=
      fun x hx => Option.some.inj ((hlatest x hx).1.symm.trans hsome)
    exact List.perm_singleton.mp ((List.perm_ext_iff_of_nodup (startedBy_nodup.filter _)
      (List.nodup_singleton d)).mpr fun x =>
        ⟨fun hx => List.mem_singleton.mpr (hunique x hx), fun hx => List.mem_singleton.mp hx ▸ hd⟩)

/-- A version that is not newer than another one is started by some order of the registry. -/
theorem exists_not_startsLatest {x : ProcessDefinition} (env : Env) (hd : d ∈ e.definitions)
    (hasks : request.asks d = true) (hx : x ∈ e.definitions) (hid : x.id = d.id) (hne : x ≠ d)
    (hle : d.version ≤ x.version) : ∃ k, ¬e.StartsLatest (env.rotated k) request := by
  obtain ⟨k, hk, hget⟩ := List.getElem_of_mem (Table.mem_def.mp hd)
  have hfirst : e.visited (env.rotated k) =
      d :: (e.definitions.entries.drop (k + 1) ++ e.definitions.entries.take k) := by
    have hrotate : e.visited (env.rotated k) = e.definitions.entries.rotate k := rfl
    rw [hrotate, List.rotate_eq_drop_append_take hk.le, List.drop_eq_getElem_cons hk, hget]
    rfl
  generalize e.definitions.entries.drop (k + 1) ++ e.definitions.entries.take k = rest at hfirst
  refine ⟨k, fun h => ?_⟩
  have hstarted : d ∈ (e.startedBy (env.rotated k) request).filter fun y => y.id == d.id :=
    List.mem_filter.mpr ⟨mem_startedBy_of_first hfirst hasks, by simp⟩
  rw [h d.id, Option.mem_toList, Option.filter_eq_some_iff] at hstarted
  have hlatest : e.latest (env.rotated k) d.id =
      some (latestFrom d (rest.filter fun y => y.id == d.id)) := by
    rw [latest, hfirst, List.filter_cons_of_pos (by simp), latestOf_cons]
  have hxrest : x ∈ rest.filter fun y => y.id == d.id := by
    have hvisited : x ∈ e.visited (env.rotated k) := mem_visited.mpr hx
    rw [hfirst] at hvisited
    exact List.mem_filter.mpr ⟨(List.mem_cons.mp hvisited).resolve_left hne, by simp [hid]⟩
  have hdrest : d ∈ rest := by
    have hmem := latestFrom_mem_of_le hxrest hle
    rw [← Option.some.inj (hlatest.symm.trans hstarted.1)]
    exact (List.mem_filter.mp hmem).1
  have hnodup : (e.visited (env.rotated k)).Nodup := visited_nodup
  rw [hfirst] at hnodup
  exact (List.nodup_cons.mp hnodup).1 hdrest

/-- Whatever the order in which the registry is visited, a request starts one instance per
process, of its highest version, if and only if no superseded version is asked for. -/
theorem starts_latest_in_every_order_iff (e : Engine) (request : StartRequest) :
    (∀ env, e.StartsLatest env request) ↔ e.UpToDate request := by
  constructor
  · intro h d hd hasks x hx hid
    by_contra hnot
    obtain ⟨hne, hle⟩ := not_or.mp hnot
    obtain ⟨k, hk⟩ := exists_not_startsLatest Env.plain hd hasks hx hid hne (Int.not_lt.mp hle)
    exact hk (h _)
  · exact fun h env => startsLatest_of_upToDate h

end Engine

def intake : ProcessDefinition := .ofGraph "intake"
  [("start", .messageStartEvent "order"), ("check", .userTask "check"), ("end", .endEvent)]
  [("start", [.simple "check"]), ("check", [.simple "end"])]

def ordering : ProcessDefinition := .ofGraph "ordering"
  [("start", .startEvent), ("call", .callActivity "intake"), ("end", .endEvent)]
  [("start", [.simple "call"]), ("call", [.simple "end"])]

/-- The instances with their definitions and the answer of the lookup, after two versions of
`intake` were deployed and an operation was performed. -/
def withTwoVersions (op : Op) : Option (List (Uuid × Uuid) × Option Uuid) :=
  (Config.performAll .plain 100 (Config.initial 0)
    [.deployDefinition intake, .deployDefinition intake, .deployDefinition ordering, op]).map
    fun c => (c.engine.instances.entries.map fun i => (i.id, i.definitionKey),
      (c.engine.latest .plain "intake").map (·.key))

/-- The lookup answers the second version, under key 2. The call activity starts the first version
instead, and the message starts both. -/
theorem superseded_version_is_started :
    withTwoVersions (.startInstance 3 ∅) = some ([(4, 3), (7, 1)], some 2) ∧
      withTwoVersions (.correlateMessage ⟨"order", none, ∅⟩) = some ([(4, 1), (8, 2)], some 2) := by
  decide +kernel

end BpmnEngine
