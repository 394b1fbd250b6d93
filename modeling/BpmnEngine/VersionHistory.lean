import BpmnEngine.Deletions

/-!
# The versions of a process

A definition is deployed under the key it comes with, and the definitions nested in it are
deployed after it; each gets the version after the highest one of its process. A
collection is first flattened into a list of definitions with fresh keys, numbered
against the registry as it is before the collection, and then entered as a whole. The
registry is filed by key, so a definition that comes with a key in use takes the place
of another one. The message routes of a collection and its commit to the storage come
before it is entered and may fail; they are given by their answer.
-/
namespace BpmnEngine

open Program

/-- A definition with the definitions nested in it. -/
inductive Deployable where
  | mk (definition : ProcessDefinition) (subProcesses : List Deployable)

abbrev Registry := Table ProcessDefinition.key

namespace Registry

def highestVersion (r : Registry) (bpmnId : String) : Option Int :=
  Eng.highestVersion r.entries bpmnId

def normalize (d : ProcessDefinition) (highest : Option Int) : ProcessDefinition :=
  { d with version := (highest.map (· + 1)).getD d.version }

mutual

/-- Enters a definition and then those nested in it, which take over its version unless they have
versions of their own. -/
def deployInner (r : Registry) (version : Option Int) : Deployable → Registry
  | .mk d subProcesses =>
    let d := normalize { d with version := version.getD d.version } (r.highestVersion d.id)
    deployNested (r.insert d) d.version subProcesses

def deployNested (r : Registry) (version : Int) : List Deployable → Registry
  | [] => r
  | sub :: rest => deployNested (deployInner r (some version) sub) version rest

end

def deployDefinition (r : Registry) (definition : Deployable) : Registry :=
  deployInner r none definition

mutual

/-- Appends a definition and those nested in it to a collection. The keys are drawn one after
another. -/
def flatten (r : Registry) (keys : Nat → Uuid) (version : Option Int)
    (out : List ProcessDefinition) : Deployable → EngineResult (List ProcessDefinition)
  | .mk d subProcesses =>
    if out.any fun previous => previous.id == d.id then
      .error (.invalidDefinition s!"Duplicate deployed process ID '{d.id}'")
    else
      let d := normalize { d with version := version.getD d.version } (r.highestVersion d.id)
      flattenNested r keys d.version (out ++ [{ d with key := keys out.length }]) subProcesses

def flattenNested (r : Registry) (keys : Nat → Uuid) (version : Int)
    (out : List ProcessDefinition) : List Deployable → EngineResult (List ProcessDefinition)
  | [] => .ok out
  | sub :: rest => do
    let out ← flatten r keys (some version) out sub
    flattenNested r keys version out rest

end

/-- Enters the definitions of a collection, if it is accepted and committed. -/
def deployCollection (r : Registry) (keys : Nat → Uuid)
    (commit : List ProcessDefinition → EngineResult Unit) (processes : List Deployable) :
    EngineResult Registry := do
  if processes.isEmpty then
    throw (.invalidDefinition "Collection has no executable processes")
  let definitions ← processes.foldlM (flatten r keys none) []
  commit definitions
  return definitions.foldl Table.insert r

theorem definitions_deployDefinition (d : ProcessDefinition) (e : Engine) :
    (exec (Eng.deployDefinition d) e).2.definitions =
      deployDefinition e.definitions (.mk { d with key := e.nextUuid } []) := rfl

/-! ## Entering definitions one by one -/

def Newest (r : Registry) (d : ProcessDefinition) : Prop :=
  ∀ x ∈ r, x.id = d.id → x.version < d.version

/-- The second registry comes from the first by entering definitions one after another, each
newer than every version of its process at that moment. -/
inductive Entered : Registry → List ProcessDefinition → Registry → Prop
  | nil (r : Registry) : Entered r [] r
  | cons {r r' : Registry} {d : ProcessDefinition} {rest : List ProcessDefinition}
      (newest : Newest r d) (entered : Entered (r.insert d) rest r') : Entered r (d :: rest) r'

theorem Entered.append {r r' r'' : Registry} {ds es : List ProcessDefinition}
    (h : Entered r ds r') (h' : Entered r' es r'') : Entered r (ds ++ es) r'' := by
  induction h with
  | nil => exact h'
  | cons newest _ ih => exact .cons newest (ih h')

/-! ## The highest version -/

theorem foldl_highest (l : List ProcessDefinition) (b : Int) :
    ∃ v, l.foldl (fun best d => some (max d.version (best.getD d.version))) (some b) = some v ∧
      b ≤ v ∧ (∀ d ∈ l, d.version ≤ v) ∧ (v = b ∨ ∃ d ∈ l, d.version = v) := by
  induction l generalizing b with
  | nil => exact ⟨b, rfl, Int.le_refl b, nofun, .inl rfl⟩
  | cons d l ih =>
    obtain ⟨v, hv, hb, hl, hfrom⟩ := ih (max d.version b)
    refine ⟨v, hv, by omega, List.forall_mem_cons.mpr ⟨by omega, hl⟩, ?_⟩
    rcases hfrom with hv | ⟨x, hx, hxv⟩
    · rcases Int.le_total d.version b with h | h
      · exact .inl (by omega)
      · exact .inr ⟨d, List.mem_cons_self, by omega⟩
    · exact .inr ⟨x, List.mem_cons_of_mem d hx, hxv⟩

theorem highestVersion_cases (r : Registry) (bpmnId : String) :
    (r.highestVersion bpmnId = none ∧ ∀ x ∈ r, x.id ≠ bpmnId) ∨
      ∃ v, r.highestVersion bpmnId = some v ∧ (∀ x ∈ r, x.id = bpmnId → x.version ≤ v) ∧
        ∃ x ∈ r, x.id = bpmnId ∧ x.version = v := by
  have hmem : ∀ x, x ∈ r.entries.filter (fun d => d.id == bpmnId) ↔ x ∈ r ∧ x.id = bpmnId := by
    intro x
    simp [Table.mem_def]
  rw [highestVersion, Eng.highestVersion]
  cases hfilter : r.entries.filter fun d => d.id == bpmnId with
  | nil =>
    refine .inl ⟨rfl, fun x hx hid => ?_⟩
    have := (hmem x).mpr ⟨hx, hid⟩
    rw [hfilter] at this
    cases this
  | cons d rest =>
    rw [hfilter] at hmem
    obtain ⟨v, hv, hd, hrest, hfrom⟩ := foldl_highest rest (max d.version d.version)
    refine .inr ⟨v, hv, fun x hx hid => ?_, ?_⟩
    · rcases List.mem_cons.mp ((hmem x).mpr ⟨hx, hid⟩) with rfl | hx
      · omega
      · exact hrest x hx
    · rcases hfrom with hv | ⟨x, hx, hxv⟩
      · exact ⟨d, ((hmem d).mp List.mem_cons_self).1, ((hmem d).mp List.mem_cons_self).2, by omega⟩
      · obtain ⟨hr, hid⟩ := (hmem x).mp (List.mem_cons_of_mem d hx)
        exact ⟨x, hr, hid, hxv⟩

theorem newest_normalize (r : Registry) (d : ProcessDefinition) :
    Newest r (normalize d (r.highestVersion d.id)) := by
  intro x hx hid
  rcases highestVersion_cases r d.id with ⟨-, hnone⟩ | ⟨v, hv, hle, -⟩
  · exact absurd hid (hnone x hx)
  · have := hle x hx hid
    rw [hv]
    show x.version < v + 1
    omega

/-! ## Both ways of deploying enter definitions one by one -/

end Registry

mutual

def Deployable.keys : Deployable → List Uuid
  | .mk d subProcesses => d.key :: Deployable.nestedKeys subProcesses

def Deployable.nestedKeys : List Deployable → List Uuid
  | [] => []
  | sub :: rest => sub.keys ++ Deployable.nestedKeys rest

end

namespace Registry

mutual

theorem deployInner_entered (r : Registry) (version : Option Int) :
    ∀ t : Deployable, ∃ ds, Entered r ds (deployInner r version t) ∧
      ds.map ProcessDefinition.key = t.keys
  | .mk d subProcesses => by
    obtain ⟨ds, hds, hkeys⟩ := deployNested_entered
      (r.insert (normalize { d with version := version.getD d.version }
        (r.highestVersion d.id))) _ subProcesses
    refine ⟨_ :: ds, .cons (newest_normalize r _) hds, ?_⟩
    rw [List.map_cons, hkeys]
    rfl

theorem deployNested_entered (r : Registry) (version : Int) :
    ∀ subs : List Deployable, ∃ ds, Entered r ds (deployNested r version subs) ∧
      ds.map ProcessDefinition.key = Deployable.nestedKeys subs
  | [] => ⟨[], .nil r, rfl⟩
  | sub :: rest => by
    obtain ⟨ds, hds, hkeys⟩ := deployInner_entered r (some version) sub
    obtain ⟨es, hes, hrest⟩ := deployNested_entered (deployInner r (some version) sub) version rest
    refine ⟨ds ++ es, hds.append hes, ?_⟩
    rw [List.map_append, hkeys, hrest]
    rfl

end

/-- The definitions of a collection belong to different processes, have the keys drawn for them,
and are newer than what is registered. -/
structure Batch (r : Registry) (keys : Nat → Uuid) (out : List ProcessDefinition) : Prop where
  newest : ∀ d ∈ out, Newest r d
  ids : (out.map (·.id)).Nodup
  keyed : out.map ProcessDefinition.key = (List.range out.length).map keys

variable {r : Registry} {keys : Nat → Uuid}

theorem Batch.snoc {out : List ProcessDefinition} (h : Batch r keys out) {d : ProcessDefinition}
    (hd : Newest r d) (hid : ∀ x ∈ out, x.id ≠ d.id) :
    Batch r keys (out ++ [{ d with key := keys out.length }]) where
  newest x hx := by
    rcases List.mem_append.mp hx with hx | hx
    · exact h.newest x hx
    · rw [List.mem_singleton.mp hx]
      exact hd
  ids := by
    rw [List.map_append, List.nodup_append]
    refine ⟨h.ids, List.nodup_singleton _, ?_⟩
    rintro _ hx _ hy rfl
    obtain ⟨x, hx, hxid⟩ := List.mem_map.mp hx
    exact hid x hx (hxid.trans (List.mem_singleton.mp hy))
  keyed := by
    rw [List.map_append, h.keyed, List.length_append, List.length_singleton, List.range_succ,
      List.map_append]
    rfl

mutual

variable {keys : Nat → Uuid}

theorem flatten_batch {r : Registry} (version : Option Int) {out out' : List ProcessDefinition}
    (h : Batch r keys out) :
    ∀ t : Deployable, flatten r keys version out t = .ok out' → Batch r keys out'
  | .mk d subProcesses, hflat => by
    rw [flatten] at hflat
    split at hflat
    · cases hflat
    · next hnone =>
        refine flattenNested_batch _ (h.snoc (newest_normalize r _) fun x hx hid => ?_)
          subProcesses hflat
        exact hnone (List.any_eq_true.mpr ⟨x, hx, beq_iff_eq.mpr hid⟩)

theorem flattenNested_batch {r : Registry} (version : Int) {out out' : List ProcessDefinition}
    (h : Batch r keys out) :
    ∀ subs : List Deployable, flattenNested r keys version out subs = .ok out' → Batch r keys out'
  | [], hflat => by
    cases hflat
    exact h
  | sub :: rest, hflat => by
    obtain ⟨mid, hmid, hrest⟩ := Returns.bind_eq_ok hflat
    exact flattenNested_batch version (flatten_batch (some version) h sub hmid) rest hrest

end

variable {ds : List ProcessDefinition} {r' : Registry}

def DistinctVersions (r : Registry) : Prop :=
  ∀ d ∈ r, ∀ x ∈ r, d.id = x.id → d.version = x.version → d = x

theorem Entered.distinctVersions (h : Entered r ds r') (hr : r.DistinctVersions) :
    r'.DistinctVersions := by
  induction h with
  | nil => exact hr
  | @cons r _ d _ newest _ ih =>
    refine ih fun x hx y hy hid hversion => ?_
    rcases Table.mem_insert.mp hx with rfl | ⟨hxr, -⟩ <;>
      rcases Table.mem_insert.mp hy with rfl | ⟨hyr, -⟩
    · rfl
    · have := newest y hyr hid.symm
      omega
    · have := newest x hxr hid
      omega
    · exact hr x hxr y hyr hid hversion

theorem Entered.kept (h : Entered r ds r') {x : ProcessDefinition} (hx : x ∈ r)
    (hfresh : ∀ d ∈ ds, d.key ≠ x.key) : x ∈ r' := by
  induction h with
  | nil => exact hx
  | cons _ _ ih =>
    obtain ⟨hd, hfresh⟩ := List.forall_mem_cons.mp hfresh
    exact ih (Table.mem_insert.mpr (.inr ⟨hx, Ne.symm hd⟩)) hfresh

theorem Entered.registered (h : Entered r ds r') (hkeys : (ds.map ProcessDefinition.key).Nodup) :
    ∀ d ∈ ds, d ∈ r' := by
  induction h with
  | nil => exact nofun
  | @cons r _ d rest _ entered ih =>
    obtain ⟨hd, hkeys⟩ := List.nodup_cons.mp hkeys
    refine List.forall_mem_cons.mpr ⟨?_, ih hkeys⟩
    refine entered.kept (Table.mem_insert.mpr (.inl rfl)) fun x hx hkey => ?_
    exact hd (List.mem_map.mpr ⟨x, hx, hkey⟩)

end Registry

/-! ## Without a definition -/

namespace Engine

variable {x : ProcessInstance}

end Engine

/-- What happens to a registry: deployments, deletions, and anything that leaves it alone. -/
inductive DeploymentOp where
  | deployDefinition (definition : Deployable)
  | deployCollection (processes : List Deployable) (keys : Nat → Uuid)
      (commit : List ProcessDefinition → EngineResult Unit)
  | deleteDefinition (key : Uuid) (cascade : Bool)
  | elsewhere (change : Engine → Engine)

namespace DeploymentOp

def step (env : Env) (e : Engine) : DeploymentOp → Option Engine
  | .deployDefinition definition =>
    some { e with definitions := Registry.deployDefinition e.definitions definition }
  | .deployCollection processes keys commit =>
    match Registry.deployCollection e.definitions keys commit processes with
    | .ok r => some { e with definitions := r }
    | .error _ => some e
  | .deleteDefinition key cascade =>
    some (exec (Eng.deleteDefinition env key cascade) e).2
  | .elsewhere change => some { change e with definitions := e.definitions }

/-- A deployment that enters definitions under new keys. -/
structure Extends (e e' : Engine) : Prop where
  entered : ∃ ds, Registry.Entered e.definitions ds e'.definitions ∧ ∀ d ∈ ds, d ∈ e'.definitions
  kept : ∀ d ∈ e.definitions, d ∈ e'.definitions
  instances : e'.instances = e.instances

def isDeploy : DeploymentOp → Bool
  | .deployDefinition _ | .deployCollection .. => true
  | .deleteDefinition .. | .elsewhere _ => false

def isElsewhere : DeploymentOp → Bool
  | .elsewhere _ => true
  | _ => false

/-- What a step owes to the history: a deployment only adds to the registry, and the instances
that are left after a deployment or a deletion have the definitions they had. -/
structure Owed (op : DeploymentOp) (e e' : Engine) : Prop where
  deployed : op.isDeploy = true → Extends e e'
  running : op.isElsewhere = false → ∀ x ∈ e'.instances, ∀ d,
    e.definitions.find? x.definitionKey = some d → e'.definitions.find? x.definitionKey = some d

theorem Extends.owed {e e' : Engine} {op : DeploymentOp} (h : Extends e e') : op.Owed e e' where
  deployed _ := h
  running _ x _ d hd := by
    obtain ⟨hmem, hkey⟩ := Table.find?_eq_some_iff.mp hd
    exact Table.find?_eq_some_iff.mpr ⟨h.kept d hmem, hkey⟩

variable {env : Env} {e e' : Engine} {op : DeploymentOp}

end DeploymentOp

/-- Two versions of a process that come with the same key. -/
def letter (task : String) : ProcessDefinition :=
  { ProcessDefinition.ofGraph "letter"
      [("start", .startEvent), (task, .userTask "clerk"), ("end", .endEvent)]
      [("start", [.simple task]), (task, [.simple "end"])] with
    key := 7 }

end BpmnEngine
