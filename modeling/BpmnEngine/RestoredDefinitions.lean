import BpmnEngine.Compilation
import BpmnEngine.VersionHistory
import BpmnEngine.VersionResolution

/-!
# The versions of a process after a restart

Every deployment leaves two records: the definition with its version, and the document it
was compiled from. After a restart the definitions are entered as they were recorded. If
there are no such records, each document is compiled again, in the order in which the
storage lists them, and deployed anew under its old key. A definition then gets the
version of its place in the listing, which is the version it had only if the documents
of its process are listed in the order in which they were deployed.
-/
namespace BpmnEngine

namespace Registry

def deployAll (ds : List Deployable) : Registry :=
  ds.foldl deployDefinition ∅

def deployedInOrder (ds : List ProcessDefinition) : Registry :=
  deployAll (ds.map fun d => .mk d [])

def restoreFromJson (records : List ProcessDefinition) : Registry :=
  (records.mergeSort fun a b => decide (a.id < b.id ∨ a.id = b.id ∧ a.version ≤ b.version)).foldl
    Table.insert ∅

end Registry

/-- A document and the key under which its definition was deployed. -/
structure Upload where
  key : Uuid
  document : Bpmn.Definitions

/-- The definition of a document that is accepted. -/
def Upload.compiled? (env : ParserEnv) (u : Upload) : Option ProcessDefinition :=
  match Parser.parseDefinitions env u.document with
  | .ok d => some { d with key := u.key }
  | .error _ => none

/-- Compiles documents one after another and deploys what is accepted. -/
def deployUploads (env : ParserEnv) (uploads : List Upload) : Registry :=
  uploads.foldl
    (fun r u =>
      match Parser.parseDefinitions env u.document with
      | .ok d => r.deployDefinition (.mk { d with key := u.key } [])
      | .error _ => r)
    ∅

def restoreFromXml (env : ParserEnv) (listing : List Upload) : Registry :=
  deployUploads env listing

/-- Each key has the version it had, and whatever the order in which a registry is visited, the
latest version of each process is the same definition. -/
structure Registry.SameVersions (r r' : Registry) : Prop where
  versions : ∀ key, (r'.find? key).map (·.version) = (r.find? key).map (·.version)
  latest : ∀ bpmnId (l l' : List ProcessDefinition), l.Perm r.entries → l'.Perm r'.entries →
    latestOf (l'.filter fun d => d.id == bpmnId) = latestOf (l.filter fun d => d.id == bpmnId)

/-! ## Compiled definitions are first versions -/

theorem Parser.build_version (env : ParserEnv) (b : DefinitionBuilder) :
    Returns (b.build env) fun d => d.version = 1 :=
  .after fun _ => .after fun _ => .ok rfl

variable {d : ProcessDefinition} {env : ParserEnv}

theorem Parser.attachEventSubprocess_version (hd : d.version = 1) (handler : EventSubProcess)
    (body : ProcessDefinition) :
    Returns (Parser.attachEventSubprocess d handler body) fun d' => d'.version = 1 := by
  unfold Parser.attachEventSubprocess
  dsimp only
  split
  · exact .error _
  split
  · exact .error _
  split
  · exact .error _
  · exact .ok hd

theorem Parser.compileProcess_version (env : ParserEnv) (defs : Bpmn.Definitions)
    (process : Bpmn.Process) :
    Returns (Parser.compileProcess env defs process) fun d => d.version = 1 := by
  unfold Parser.compileProcess
  dsimp only
  split
  · exact .error _
  · refine .after fun _ => .after fun _ => .after fun _ => .after fun _ => .after fun _ =>
      .after fun _ => .after fun _ => .after fun (b, handlers) => ?_
    refine .bind (Parser.build_version env b) fun d hd => ?_
    exact .foldlM hd fun (handler, body) _ d hd => Parser.attachEventSubprocess_version hd _ _

theorem Upload.compiled?_version {u : Upload} (h : u.compiled? env = some d) : d.version = 1 := by
  unfold Upload.compiled? at h
  split at h
  · next hparse =>
      cases h
      unfold Parser.parseDefinitions at hparse
      split at hparse
      · have hversion := Parser.compileProcess_version _ _ _ _ hparse
        exact hversion
      · cases hparse
  · cases h

theorem Upload.compiled?_key {u : Upload} (h : u.compiled? env = some d) : d.key = u.key := by
  unfold Upload.compiled? at h
  split at h <;> cases h
  rfl

theorem deployUploads_eq (env : ParserEnv) (uploads : List Upload) :
    deployUploads env uploads =
      Registry.deployedInOrder (uploads.filterMap (Upload.compiled? env)) := by
  rw [deployUploads, Registry.deployedInOrder, Registry.deployAll, List.foldl_map,
    List.foldl_filterMap]
  congr 1
  funext r u
  unfold Upload.compiled?
  split <;> rfl

/-! ## Numbering -/

namespace Registry

variable {r : Registry}

def keysOf (ds : List ProcessDefinition) (bpmnId : String) : List Uuid :=
  (ds.filter fun d => d.id == bpmnId).map (·.key)

def place (ds : List ProcessDefinition) (d : ProcessDefinition) : Nat :=
  (keysOf ds d.id).idxOf d.key

variable {ds es : List ProcessDefinition} {d x : ProcessDefinition} {bpmnId : String}

theorem keysOf_concat (ds : List ProcessDefinition) (d : ProcessDefinition) (bpmnId : String) :
    keysOf (ds ++ [d]) bpmnId = keysOf ds bpmnId ++ if d.id = bpmnId then [d.key] else [] := by
  rw [keysOf, List.filter_append, List.map_append]
  by_cases h : d.id = bpmnId <;> simp [keysOf, h]

theorem keysOf_sublist (ds : List ProcessDefinition) (bpmnId : String) :
    (keysOf ds bpmnId).Sublist (ds.map (·.key)) :=
  List.filter_sublist.map _

theorem mem_keysOf {key : Uuid} :
    key ∈ keysOf ds bpmnId ↔ ∃ d ∈ ds, d.id = bpmnId ∧ d.key = key := by
  simp [keysOf, and_assoc]

theorem place_lt (h : d ∈ ds) : place ds d < (keysOf ds d.id).length :=
  List.idxOf_lt_length_iff.mpr (mem_keysOf.mpr ⟨d, h, rfl, rfl⟩)

theorem place_concat_of_mem (h : d ∈ ds) : place (ds ++ [x]) d = place ds d := by
  rw [place, keysOf_concat, List.idxOf_append_of_mem (mem_keysOf.mpr ⟨d, h, rfl, rfl⟩), place]

theorem place_concat_self (h : ((ds ++ [d]).map (·.key)).Nodup) :
    place (ds ++ [d]) d = (keysOf ds d.id).length := by
  have hnot : d.key ∉ keysOf ds d.id := fun hmem => by
    rw [List.map_append, List.nodup_append] at h
    exact h.2.2 d.key ((keysOf_sublist ds d.id).subset hmem) d.key (List.mem_singleton_self _) rfl
  rw [place, keysOf_concat, if_pos rfl, List.idxOf_append_of_notMem hnot, List.idxOf_cons_self,
    Nat.add_zero]

theorem normalize_eq (hkeys : (ds.map (·.key)).Nodup)
    (hr : ∀ x, x ∈ r ↔ ∃ c ∈ ds, x = { c with version := (place ds c : Int) + 1 })
    (hd : d.version = 1) :
    normalize d (r.highestVersion d.id) =
      { d with version := ((keysOf ds d.id).length : Int) + 1 } := by
  have hversion : ((r.highestVersion d.id).map (· + 1)).getD d.version =
      ((keysOf ds d.id).length : Int) + 1 := by
    rcases highestVersion_cases r d.id with ⟨hnone, hempty⟩ | ⟨v, hv, hle, x, hx, hid, hxv⟩
    · have hnil : keysOf ds d.id = [] := by
        refine List.eq_nil_iff_forall_not_mem.mpr fun key hkey => ?_
        obtain ⟨c, hc, hcid, -⟩ := mem_keysOf.mp hkey
        exact hempty _ ((hr _).mpr ⟨c, hc, rfl⟩) hcid
      rw [hnone, hnil]
      simpa using hd
    · -- some definition has the highest number, and the last one has the number of them all
      obtain ⟨c, hc, rfl⟩ := (hr x).mp hx
      have hcid : c.id = d.id := hid
      have hbelow := place_lt hc
      rw [hcid] at hbelow
      obtain ⟨n, hn⟩ : ∃ n, (keysOf ds d.id).length = n + 1 := ⟨_, (Nat.succ_pred (by omega)).symm⟩
      have hlast : (keysOf ds d.id)[n] ∈ keysOf ds d.id := List.getElem_mem (by omega)
      obtain ⟨b, hb, hbid, hbkey⟩ := mem_keysOf.mp hlast
      have hplace : place ds b = n := by
        rw [place, hbid, hbkey]
        exact (hkeys.sublist (keysOf_sublist ds d.id)).idxOf_getElem n (by omega)
      have hnv := hle _ ((hr _).mpr ⟨b, hb, rfl⟩) hbid
      rw [hv]
      simp only [Option.map_some, Option.getD_some]
      have hcv : (place ds c : Int) + 1 = v := hxv
      have hbv : (place ds b : Int) + 1 ≤ v := hnv
      omega
  rw [normalize, hversion]

theorem mem_deployedInOrder (hkeys : (ds.map (·.key)).Nodup) (hds : ∀ d ∈ ds, d.version = 1)
    (x : ProcessDefinition) :
    x ∈ deployedInOrder ds ↔ ∃ d ∈ ds, x = { d with version := (place ds d : Int) + 1 } := by
  induction ds using List.reverseRecOn generalizing x with
  | nil =>
    show x ∈ (∅ : Registry) ↔ _
    simp
  | append_singleton ds d ih =>
    have hkeys' : (ds.map (·.key)).Nodup := by
      rw [List.map_append, List.nodup_append] at hkeys
      exact hkeys.1
    have hds' : ∀ c ∈ ds, c.version = 1 := fun c hc => hds c (List.mem_append_left _ hc)
    have hd : d.version = 1 := hds d (List.mem_append_right _ (List.mem_singleton_self d))
    have hfresh : ∀ c ∈ ds, c.key ≠ d.key := fun c hc heq => by
      rw [List.map_append, List.nodup_append] at hkeys
      exact hkeys.2.2 c.key (List.mem_map_of_mem hc) d.key (List.mem_singleton_self _) heq
    have hdeploy : deployedInOrder (ds ++ [d]) =
        Table.insert (deployedInOrder ds)
          (normalize d ((deployedInOrder ds).highestVersion d.id)) := by
      rw [deployedInOrder, deployAll, List.map_append, List.foldl_append]
      rfl
    rw [hdeploy, normalize_eq hkeys' (ih hkeys' hds') hd, Table.mem_insert, ih hkeys' hds' x]
    constructor
    · rintro (rfl | ⟨⟨c, hc, rfl⟩, -⟩)
      · exact ⟨d, List.mem_append_right _ (List.mem_singleton_self d), by
          rw [place_concat_self hkeys]⟩
      · exact ⟨c, List.mem_append_left _ hc, by rw [place_concat_of_mem hc]⟩
    · rintro ⟨c, hc, rfl⟩
      rcases List.mem_append.mp hc with hc | hc
      · exact .inr ⟨⟨c, hc, by rw [place_concat_of_mem hc]⟩, hfresh c hc⟩
      · rw [List.mem_singleton.mp hc, place_concat_self hkeys]
        exact .inl rfl

/-- All definitions have the same places in both orders if and only if both orders list the
definitions of each process alike. -/
theorem place_eq_iff (hperm : es.Perm ds) (hkeys : (ds.map (·.key)).Nodup) :
    (∀ d ∈ ds, place es d = place ds d) ↔ ∀ bpmnId, keysOf es bpmnId = keysOf ds bpmnId := by
  constructor
  · intro h bpmnId
    have hlength : (keysOf es bpmnId).length = (keysOf ds bpmnId).length :=
      ((hperm.filter _).map _).length_eq
    refine List.ext_getElem hlength fun n hes hds => ?_
    obtain ⟨d, hd, rfl, hkey⟩ := mem_keysOf.mp (List.getElem_mem hds)
    have hplace : place ds d = n := by
      rw [place, hkey]
      exact (hkeys.sublist (keysOf_sublist ds d.id)).idxOf_getElem n hds
    have hplace' : (keysOf es d.id).idxOf (keysOf ds d.id)[n] = n := by
      rw [← hkey]
      exact (h d hd).trans hplace
    have hmem : (keysOf ds d.id)[n] ∈ keysOf es d.id :=
      List.idxOf_lt_length_iff.mp (by rw [hplace']; exact hes)
    have hget := List.getElem_idxOf (List.idxOf_lt_length_iff.mpr hmem)
    simpa only [hplace'] using hget
  · intro h d _
    rw [place, h, place]

/-! ## Registries with the same definitions -/

theorem latestOf_congr (hr : r.DistinctVersions) (bpmnId : String) {l l' : List ProcessDefinition}
    (hl : ∀ x, x ∈ l ↔ x ∈ r ∧ x.id = bpmnId) (hl' : ∀ x, x ∈ l' ↔ x ∈ r ∧ x.id = bpmnId) :
    latestOf l' = latestOf l := by
  cases hlatest : latestOf l with
  | none =>
    have hnil : l = [] := by
      cases l with
      | nil => rfl
      | cons =>
        rw [latestOf_cons] at hlatest
        cases hlatest
    have hnil' : l' = [] := List.eq_nil_iff_forall_not_mem.mpr fun x hx => by
      have hx := (hl x).mpr ((hl' x).mp hx)
      rw [hnil] at hx
      cases hx
    rw [hnil']
    rfl
  | some d =>
    obtain ⟨hd, hmax⟩ := latestOf_eq_some hlatest
    refine latestOf_of_newest ((hl' d).mpr ((hl d).mp hd)) fun x hx => ?_
    have hx := (hl' x).mp hx
    have hle := hmax x ((hl x).mpr hx)
    rcases Int.lt_or_eq_of_le hle with hlt | heq
    · exact .inr hlt
    · exact .inl (hr x hx.1 d ((hl d).mp hd).1 (hx.2.trans ((hl d).mp hd).2.symm) heq)

theorem SameVersions.of_mem_iff {r' : Registry} (hr : r.DistinctVersions)
    (h : ∀ x, x ∈ r' ↔ x ∈ r) : SameVersions r r' where
  versions key := by
    rw [Table.find?_congr fun x _ => (h x)]
  latest bpmnId l l' hl hl' := by
    refine latestOf_congr hr bpmnId (fun x => ?_) fun x => ?_
    · simp [hl.mem_iff, Table.mem_def]
    · rw [List.mem_filter, hl'.mem_iff, ← Table.mem_def, h x]
      simp

theorem mem_restoreFromJson {records : List ProcessDefinition} (h : records.Perm r.entries)
    (x : ProcessDefinition) : x ∈ restoreFromJson records ↔ x ∈ r := by
  have hsorted := List.mergeSort_perm records fun a b =>
    decide (a.id < b.id ∨ a.id = b.id ∧ a.version ≤ b.version)
  have hkeys := ((hsorted.trans h).map ProcessDefinition.key).nodup_iff.mpr r.keysNodup
  rw [restoreFromJson, Table.mem_foldl_insert hkeys, (hsorted.trans h).mem_iff, Table.mem_def]

theorem deployAll_distinctVersions (ds : List Deployable) : (deployAll ds).DistinctVersions := by
  induction ds using List.reverseRecOn with
  | nil => exact fun d hd => absurd hd (Table.notMem_empty d)
  | append_singleton ds d ih =>
    rw [deployAll, List.foldl_append]
    obtain ⟨es, hes, -⟩ := deployInner_entered (deployAll ds) none d
    exact hes.distinctVersions ih

/-- Deployments in two orders lead to the same versions if and only if both orders list the
definitions of each process alike. -/
theorem sameVersions_deployedInOrder_iff (hperm : es.Perm ds) (hkeys : (ds.map (·.key)).Nodup)
    (hds : ∀ d ∈ ds, d.version = 1) :
    SameVersions (deployedInOrder ds) (deployedInOrder es) ↔
      ∀ bpmnId, keysOf es bpmnId = keysOf ds bpmnId := by
  have hkeys' : (es.map (·.key)).Nodup := (hperm.map _).nodup_iff.mpr hkeys
  have hes : ∀ d ∈ es, d.version = 1 := fun d hd => hds d (hperm.mem_iff.mp hd)
  rw [← place_eq_iff hperm hkeys]
  constructor
  · intro h d hd
    have hbefore : (deployedInOrder ds).find? d.key =
        some { d with version := (place ds d : Int) + 1 } :=
      Table.find?_eq_some_iff.mpr ⟨(mem_deployedInOrder hkeys hds _).mpr ⟨d, hd, rfl⟩, rfl⟩
    have hafter : (deployedInOrder es).find? d.key =
        some { d with version := (place es d : Int) + 1 } :=
      Table.find?_eq_some_iff.mpr
        ⟨(mem_deployedInOrder hkeys' hes _).mpr ⟨d, hperm.mem_iff.mpr hd, rfl⟩, rfl⟩
    have hversion := h.versions d.key
    rw [hbefore, hafter] at hversion
    have := Option.some.inj hversion
    dsimp only at this
    omega
  · intro h
    refine .of_mem_iff (deployAll_distinctVersions _) fun x => ?_
    rw [mem_deployedInOrder hkeys hds, mem_deployedInOrder hkeys' hes]
    constructor
    · rintro ⟨d, hd, rfl⟩
      have hd := hperm.mem_iff.mp hd
      exact ⟨d, hd, by rw [h d hd]⟩
    · rintro ⟨d, hd, rfl⟩
      exact ⟨d, hperm.mem_iff.mpr hd, by rw [h d hd]⟩

end Registry

/-- The definitions on record come back with their versions, in whatever order they are listed.
The documents do so if and only if those of each process are listed in the order in which they
were deployed. -/
theorem restart_keeps_versions_iff (env : ParserEnv) {uploads listing : List Upload}
    (hkeys : (uploads.map (·.key)).Nodup) (hlisting : listing.Perm uploads) :
    (∀ ds records, records.Perm (Registry.deployAll ds).entries →
      (Registry.deployAll ds).SameVersions (.restoreFromJson records)) ∧
    (Registry.SameVersions (deployUploads env uploads) (restoreFromXml env listing) ↔
      ∀ bpmnId, Registry.keysOf (listing.filterMap (Upload.compiled? env)) bpmnId =
        Registry.keysOf (uploads.filterMap (Upload.compiled? env)) bpmnId) := by
  refine ⟨fun ds records hrecords => .of_mem_iff (Registry.deployAll_distinctVersions ds)
    (Registry.mem_restoreFromJson hrecords), ?_⟩
  rw [restoreFromXml, deployUploads_eq, deployUploads_eq]
  refine Registry.sameVersions_deployedInOrder_iff (hlisting.filterMap _) ?_ fun d hd => ?_
  · rw [List.Nodup, List.pairwise_map, List.pairwise_filterMap]
    refine (List.pairwise_map.mp hkeys).imp fun hne d hd d' hd' => ?_
    rw [Upload.compiled?_key hd, Upload.compiled?_key hd']
    exact hne
  · obtain ⟨u, -, hu⟩ := List.mem_filterMap.mp hd
    exact Upload.compiled?_version hu

/-- A memo is sent, and in its second version it is signed first. -/
def memo (key : Uuid) (tasks : List String) (flows : List (String × String)) : Upload where
  key
  document :=
    { processes := [{
        id := "memo"
        scope :=
          { startEvents := [{ id := "start" }]
            endEvents := [{ id := "sent" }]
            userTasks := tasks.map fun task => { id := task }
            sequenceFlows := flows.map fun (source, target) =>
              ⟨source ++ target, source, target, none⟩ } }] }

def memos : List Upload :=
  [memo 1 [] [("start", "sent")], memo 2 ["sign"] [("start", "sign"), ("sign", "sent")]]

theorem memos_restored :
    Registry.SameVersions (deployUploads .plain memos) (restoreFromXml .plain memos) :=
  (restart_keeps_versions_iff .plain (by decide) (List.Perm.refl memos)).2.mpr fun _ => rfl

/-- If the newer document is listed first, the older one is the latest version afterwards. -/
theorem memos_renumbered :
    memos.reverse.Perm memos ∧
      ((deployUploads .plain memos).find? 1).map (·.version) = some 1 ∧
      ((restoreFromXml .plain memos.reverse).find? 1).map (·.version) = some 2 ∧
      ¬ Registry.SameVersions (deployUploads .plain memos)
        (restoreFromXml .plain memos.reverse) := by
  have hbefore : ((deployUploads .plain memos).find? 1).map (·.version) = some 1 := by
    decide +kernel
  have hafter : ((restoreFromXml .plain memos.reverse).find? 1).map (·.version) = some 2 := by
    decide +kernel
  refine ⟨List.reverse_perm memos, hbefore, hafter, fun h => ?_⟩
  have hversion := h.versions 1
  rw [hbefore, hafter] at hversion
  cases hversion

end BpmnEngine
