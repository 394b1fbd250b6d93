import BpmnEngine.Gateways

/-!
# The join that closes a split

A fork announces its tokens to the join that a breadth-first search finds behind it. The search
counts how many splits of the same type are open and keeps the count with which a node is reached
first. In a definition that is built from nested blocks the count is the same on every path, so
the search finds the join of its own block. On any definition it ends and visits no node twice.
-/
namespace BpmnEngine

/-- A block-structured piece of a definition: nodes and blocks one behind the other. The branches of
a block lead from its split to its join, and any of them may be empty. -/
inductive Piece where
  | done
  | node (id : String) (rest : Piece)
  | block (split join : String) (n : Nat) (branches : Fin n → Piece) (rest : Piece)

namespace Piece

/-- The first node of a piece that is followed by `next`. -/
def entry (next : String) : Piece → String
  | .done => next
  | .node id _ => id
  | .block split _ _ _ _ => split

def Names (id : String) : Piece → Prop
  | .done => False
  | .node id' rest => id' = id ∨ rest.Names id
  | .block split join _ branches rest =>
    split = id ∨ join = id ∨ (∃ k, (branches k).Names id) ∨ rest.Names id

/-- A block of the piece, at any depth, has this split and this join. -/
def Closes (split join : String) : Piece → Prop
  | .done => False
  | .node _ rest => rest.Closes split join
  | .block split' join' _ branches rest =>
    split' = split ∧ join' = join ∨ (∃ k, (branches k).Closes split join) ∨ rest.Closes split join

/-- The nodes of a piece that is entered at a depth, with the depth at which they are reached.
The splits that count make their branches deeper. -/
def At (counts : String → Bool) (x : String × Nat) : Nat → Piece → Prop
  | _, .done => False
  | depth, .node id rest => x = (id, depth) ∨ rest.At counts x depth
  | depth, .block split join _ branches rest =>
    x = (split, depth) ∨ x = (join, depth + (counts split).toNat) ∨
      (∃ k, (branches k).At counts x (depth + (counts split).toNat)) ∨ rest.At counts x depth

variable {counts : String → Bool}

theorem entry_at {next : String} (piece : Piece) (depth : Nat) :
    piece.At counts (piece.entry next, depth) depth ∨
      (piece.entry next, depth) = (next, depth) := by
  cases piece with
  | done => exact .inr rfl
  | node => exact .inl (.inl rfl)
  | block => exact .inl (.inl rfl)

theorem At.names {id : String} {m depth : Nat} {piece : Piece} (h : piece.At counts (id, m) depth) :
    piece.Names id := by
  induction piece generalizing depth with
  | done => exact h
  | node id' rest ih =>
    rcases h with h | h
    · exact .inl (Prod.mk.inj h).1.symm
    · exact .inr (ih h)
  | block split join n branches rest ihb ih =>
    rcases h with h | h | ⟨k, h⟩ | h
    · exact .inl (Prod.mk.inj h).1.symm
    · exact .inr (.inl (Prod.mk.inj h).1.symm)
    · exact .inr (.inr (.inl ⟨k, ihb k h⟩))
    · exact .inr (.inr (.inr (ih h)))

end Piece

namespace ProcessDefinition

variable (d : ProcessDefinition)

def targets (id : String) : List String := (d.nextNodes id).map SequenceFlow.target

/-- The definition has the piece, and `next` behind it. A split has one incoming flow at most; the
join of its block has its type, has a flow from each branch and is no node of them. -/
def Draws : String → Piece → Prop
  | _, .done => True
  | next, .node id rest =>
    (d.getNode id).all (fun e => !sameGatewayType e e) = true ∧
      d.targets id = [rest.entry next] ∧ Draws next rest
  | next, .block split join n branches rest =>
    (∃ e e', d.getNode split = some e ∧ d.getNode join = some e' ∧ sameGatewayType e e' = true) ∧
      2 ≤ n ∧ d.incomingFlowCount split < 2 ∧ d.incomingFlowCount join = n ∧
      d.targets split = List.ofFn (fun k => (branches k).entry join) ∧
      d.targets join = [rest.entry next] ∧ (∀ k, ¬(branches k).Names join) ∧
      (∀ k, Draws join (branches k)) ∧ Draws next rest

/-- The loop of the search: the nodes it has visited and what it returns. It is over before the fuel
runs out. -/
def searchLoop (split : BpmnElement) :
    Nat → List String → List (String × Nat) → Option (List String × Option String)
  | 0, _, _ => none
  | _ + 1, visited, [] => some (visited, none)
  | fuel + 1, visited, (node, depth) :: queue =>
    if node ∈ visited then searchLoop split fuel visited queue
    else match d.joinDepth split node depth with
      | none => some (node :: visited, some node)
      | some depth => searchLoop split fuel (node :: visited)
          (queue ++ (d.nextNodes node).map fun flow => (flow.target, depth))

variable {d} {root : BpmnElement} {fuel : Nat} {visited seen : List String}
  {queue : List (String × Nat)} {r : Option String}

/-! ## The search ends -/

variable (d) in
/-- The flows that the search has not met yet. -/
def unmetFlows (visited : List String) : Nat :=
  (d.flows.entries.map fun x => if x.1 ∈ visited then 0 else x.2.length).sum

theorem unmetFlows_cons {node : String} (h : node ∉ visited) :
    d.unmetFlows (node :: visited) + (d.nextNodes node).length ≤ d.unmetFlows visited := by
  have hle : ∀ entries : List (String × List SequenceFlow),
      (entries.map fun x => if x.1 ∈ node :: visited then 0 else x.2.length).sum ≤
        (entries.map fun x => if x.1 ∈ visited then 0 else x.2.length).sum := by
    intro entries
    induction entries with
    | nil => exact Nat.le_refl 0
    | cons =>
      simp only [List.map_cons, List.sum_cons, List.mem_cons]
      split <;> split <;> simp_all <;> omega
  unfold unmetFlows nextNodes
  cases hflows : d.flows.get? node with
  | none => exact hle _
  | some =>
    obtain ⟨before, after, hentries⟩ := List.append_of_mem (Map.get?_eq_some_iff.mp hflows)
    have hbefore := hle before
    have hafter := hle after
    simp only [hentries, List.map_append, List.map_cons, List.sum_append, List.sum_cons,
      List.mem_cons_self, if_true, if_neg h, Option.getD_some] at hbefore hafter ⊢
    omega

theorem searchLoop_ends (h : queue.length + d.unmetFlows visited < fuel)
    (hvisited : visited.Nodup) :
    ∃ seen, d.searchLoop root fuel visited queue =
      some (seen, d.searchJoin root fuel visited queue) ∧ seen.Nodup := by
  induction fuel generalizing visited queue with
  | zero => omega
  | succ fuel ih =>
    cases queue with
    | nil => exact ⟨visited, rfl, hvisited⟩
    | cons x =>
      obtain ⟨node, depth⟩ := x
      simp only [searchLoop, searchJoin, List.length_cons] at h ⊢
      by_cases hnode : node ∈ visited
      · simp only [if_pos hnode]
        exact ih (by omega) hvisited
      · simp only [if_neg hnode]
        have hnodup := List.nodup_cons.mpr ⟨hnode, hvisited⟩
        cases d.joinDepth root node depth with
        | none => exact ⟨_, rfl, hnodup⟩
        | some =>
          apply ih _ hnodup
          have := unmetFlows_cons hnode (d := d)
          simp only [List.length_append, List.length_map]
          omega

variable (d) in
theorem unmetFlows_nil : d.unmetFlows [] = d.flowCount := by
  simp [unmetFlows, flowCount, List.length_flatMap]

/-- The search ends, and it visits each node at most once. -/
theorem findDownstreamJoin_ends {start : String} (hstart : d.getNode start = some root) :
    ∃ seen, d.searchLoop root (2 * d.flowCount + 1) []
      ((d.nextNodes start).map fun flow => (flow.target, 1)) =
        some (seen, d.findDownstreamJoin start) ∧ seen.Nodup := by
  have hfirst := unmetFlows_cons (d := d) (List.not_mem_nil (a := start))
  rw [unmetFlows_nil] at hfirst
  have hfind : d.findDownstreamJoin start = d.searchJoin root (2 * d.flowCount + 1) []
      ((d.nextNodes start).map fun flow => (flow.target, 1)) := by
    simp [findDownstreamJoin, hstart]
  rw [hfind]
  apply searchLoop_ends
  · rw [List.length_map, unmetFlows_nil]
    omega
  · exact List.nodup_nil

/-! ## What the search finds -/

variable {join : String}

/-- A search among good entries, from which only good entries follow, finds the join, or it ends
with nodes from which no flow leads out. -/
theorem searchLoop_finds {Good : String × Nat → Prop}
    (hstop : ∀ m, Good (join, m) → d.joinDepth root join m = none)
    (hgo : ∀ id m, id ≠ join → Good (id, m) →
      ∃ m', d.joinDepth root id m = some m' ∧ ∀ t ∈ d.targets id, Good (t, m'))
    (hqueue : ∀ x ∈ queue, Good x) (hjoin : join ∉ visited)
    (hclosed : ∀ v ∈ visited, d.targets v ⊆ visited ++ queue.map Prod.fst)
    (h : d.searchLoop root fuel visited queue = some (seen, r)) :
    r = some join ∨ join ∉ seen ∧ visited ++ queue.map Prod.fst ⊆ seen ∧
      ∀ v ∈ seen, d.targets v ⊆ seen := by
  induction fuel generalizing visited queue with
  | zero => cases h
  | succ fuel ih =>
    cases queue with
    | nil =>
      cases h
      rw [List.map_nil, List.append_nil] at hclosed ⊢
      exact .inr ⟨hjoin, List.Subset.refl _, hclosed⟩
    | cons x queue =>
      obtain ⟨node, depth⟩ := x
      have hrest : ∀ x ∈ queue, Good x := fun x hx => hqueue x (List.mem_cons_of_mem _ hx)
      simp only [searchLoop] at h
      rw [List.map_cons] at hclosed ⊢
      by_cases hnode : node ∈ visited
      · rw [if_pos hnode] at h
        have hknown : visited ++ node :: queue.map Prod.fst ⊆ visited ++ queue.map Prod.fst := by
          simp [hnode]
        exact (ih hrest hjoin (fun v hv => List.Subset.trans (hclosed v hv) hknown) h).imp_right
          fun ⟨hnot, hall, hends⟩ => ⟨hnot, List.Subset.trans hknown hall, hends⟩
      · rw [if_neg hnode] at h
        by_cases heq : node = join
        · subst heq
          rw [hstop depth (hqueue _ List.mem_cons_self)] at h
          cases h
          exact .inl rfl
        · obtain ⟨m, hdepth, hgood⟩ := hgo node depth heq (hqueue _ List.mem_cons_self)
          rw [hdepth] at h
          have hknown : visited ++ node :: queue.map Prod.fst ⊆ (node :: visited) ++
              (queue ++ (d.nextNodes node).map fun flow => (flow.target, m)).map Prod.fst := by
            intro x
            simp
            tauto
          refine (ih ?_ (by simp [hjoin, Ne.symm heq]) ?_ h).imp_right fun ⟨hnot, hall, hends⟩ =>
            ⟨hnot, List.Subset.trans hknown hall, hends⟩
          · intro x hx
            rcases List.mem_append.mp hx with hx | hx
            · exact hrest x hx
            · obtain ⟨flow, hflow, rfl⟩ := List.mem_map.mp hx
              exact hgood _ (List.mem_map_of_mem hflow)
          · intro v hv
            rcases List.mem_cons.mp hv with rfl | hv
            · intro t ht
              simp [targets] at ht ⊢
              tauto
            · exact List.Subset.trans (hclosed v hv) hknown

variable {next : String} {piece : Piece}

/-- A set of nodes that no flow leads out of has the node behind a piece if it has the first one. -/
theorem Draws.mem_of_closed (h : d.Draws next piece) (hclosed : ∀ v ∈ seen, d.targets v ⊆ seen)
    (hentry : piece.entry next ∈ seen) : next ∈ seen := by
  induction piece generalizing next with
  | done => exact hentry
  | node id rest ih =>
    obtain ⟨_, htargets, hrest⟩ := h
    exact ih hrest (hclosed id hentry (by simp [htargets]))
  | block split join n branches rest ihb ih =>
    obtain ⟨_, hn, _, _, hsplit, hjoin, _, hbranches, hrest⟩ := h
    have hfirst : (branches ⟨0, by omega⟩).entry join ∈ seen :=
      hclosed split hentry (by rw [hsplit]; exact List.mem_ofFn.mpr ⟨_, rfl⟩)
    exact ih hrest (hclosed join (ihb _ (hbranches _) hfirst) (by simp [hjoin]))

/-! ## Blocks -/

theorem sameGatewayType_cases {a b : BpmnElement} (h : sameGatewayType a b = true) :
    (∃ x y, a = .exclusiveGateway x ∧ b = .exclusiveGateway y) ∨
      (a = .inclusiveGateway ∧ b = .inclusiveGateway) ∨
      (a = .parallelGateway ∧ b = .parallelGateway) := by
  unfold sameGatewayType at h
  split at h
  · exact .inl ⟨_, _, rfl, rfl⟩
  · exact .inr (.inl ⟨rfl, rfl⟩)
  · exact .inr (.inr ⟨rfl, rfl⟩)
  · cases h

theorem sameGatewayType_congr {a b : BpmnElement} (h : sameGatewayType a b = true)
    (root : BpmnElement) : sameGatewayType root a = sameGatewayType root b := by
  rcases sameGatewayType_cases h with ⟨x, y, rfl, rfl⟩ | ⟨rfl, rfl⟩ | ⟨rfl, rfl⟩ <;>
    cases root <;> rfl

theorem sameGatewayType_self {a b : BpmnElement} (h : sameGatewayType a b = true) :
    sameGatewayType b b = true := by
  rcases sameGatewayType_cases h with ⟨x, y, rfl, rfl⟩ | ⟨rfl, rfl⟩ | ⟨rfl, rfl⟩ <;> rfl

variable (d) in
/-- The node is a gateway of the type that the search counts. -/
def counts (root : BpmnElement) (id : String) : Bool := (d.getNode id).any (sameGatewayType root)

section Depth

variable {id : String} {e : BpmnElement} {m : Nat}

theorem joinDepth_plain (h : (d.getNode id).all (fun e => !sameGatewayType e e) = true) :
    d.joinDepth root id m = some m := by
  unfold joinDepth
  cases hnode : d.getNode id with
  | none => rfl
  | some e =>
    cases hsame : sameGatewayType root e with
    | false => simp [hsame]
    | true => simp [hnode, sameGatewayType_self hsame] at h

theorem joinDepth_split (hnode : d.getNode id = some e) (hone : d.incomingFlowCount id < 2)
    (htwo : 2 ≤ (d.targets id).length) :
    d.joinDepth root id m = some (m + (d.counts root id).toNat) := by
  have hjoin : d.isJoinGateway id = false := decide_eq_false (Nat.not_le.mpr hone)
  rw [targets, List.length_map] at htwo
  cases hsame : sameGatewayType root e with
  | false => simp [joinDepth, counts, hnode, hsame]
  | true =>
    have hgateway : e.isGateway = true := by
      rcases sameGatewayType_cases hsame with ⟨x, y, _, rfl⟩ | ⟨_, rfl⟩ | ⟨_, rfl⟩ <;> rfl
    simp [joinDepth, counts, isSplitGateway, hnode, hsame, hjoin, hgateway, htwo]

theorem joinDepth_join (hnode : d.getNode id = some e) (hmany : 2 ≤ d.incomingFlowCount id)
    (hm : 0 < m) :
    d.joinDepth root id (m + (d.counts root id).toNat) = some m := by
  have hjoin : d.isJoinGateway id = true := decide_eq_true hmany
  cases hsame : sameGatewayType root e with
  | false => simp [joinDepth, counts, hnode, hsame]
  | true => simp [joinDepth, counts, hnode, hsame, hjoin, Nat.ne_of_gt hm]

end Depth

/-- From a node of a piece the search goes on at the depth of the nodes behind it. -/
theorem Draws.joinDepth_eq {id : String} {m depth : Nat} (h : d.Draws next piece)
    (hdepth : 0 < depth) (hx : piece.At (d.counts root) (id, m) depth) :
    ∃ m', d.joinDepth root id m = some m' ∧ ∀ t ∈ d.targets id,
      piece.At (d.counts root) (t, m') depth ∨ (t, m') = (next, depth) := by
  induction piece generalizing next depth with
  | done => cases hx
  | node id' rest ih =>
    obtain ⟨hplain, htargets, hrest⟩ := h
    rcases hx with hx | hx
    · obtain ⟨rfl, rfl⟩ := Prod.mk.inj hx
      refine ⟨m, joinDepth_plain hplain, fun t ht => ?_⟩
      rw [htargets, List.mem_singleton] at ht
      exact ht ▸ (rest.entry_at m).imp_left .inr
    · obtain ⟨m', hm, hall⟩ := ih hrest hdepth hx
      exact ⟨m', hm, fun t ht => (hall t ht).imp_left .inr⟩
  | block split join n branches rest ihb ih =>
    obtain ⟨⟨e, e', hsplit, hjoin, hsame⟩, hn, hone, hmany, htargets, hbehind, _, hbranches,
      hrest⟩ := h
    have hcounts : d.counts root join = d.counts root split := by
      simp [counts, hsplit, hjoin, sameGatewayType_congr hsame]
    rcases hx with hx | hx | ⟨k, hx⟩ | hx
    · obtain ⟨rfl, rfl⟩ := Prod.mk.inj hx
      refine ⟨_, joinDepth_split hsplit hone (by simpa [htargets] using hn), fun t ht => ?_⟩
      rw [htargets, List.mem_ofFn] at ht
      obtain ⟨k, rfl⟩ := ht
      exact .inl (.inr (((branches k).entry_at _).elim (fun h => .inr (.inl ⟨k, h⟩)) .inl))
    · obtain ⟨rfl, rfl⟩ := Prod.mk.inj hx
      refine ⟨depth, hcounts ▸ joinDepth_join hjoin (hmany ▸ hn) hdepth, ?_⟩
      intro t ht
      rw [hbehind, List.mem_singleton] at ht
      exact ht ▸ (rest.entry_at depth).imp_left fun h => .inr (.inr (.inr h))
    · obtain ⟨m', hm, hall⟩ := ihb k (hbranches k) (by omega) hx
      refine ⟨m', hm, fun t ht => .inl (.inr ?_)⟩
      exact (hall t ht).elim (fun h => .inr (.inl ⟨k, h⟩)) .inl
    · obtain ⟨m', hm, hall⟩ := ih hrest hdepth hx
      exact ⟨m', hm, fun t ht => (hall t ht).imp_left fun h => .inr (.inr (.inr h))⟩

variable {split : String}

/-- The search from the split of a block finds the join of the block. -/
theorem findDownstreamJoin_block {n : Nat} {branches : Fin n → Piece} {rest : Piece}
    (h : d.Draws next (.block split join n branches rest)) :
    d.findDownstreamJoin split = some join := by
  obtain ⟨⟨e, e', hsplit, hjoin, hsame⟩, hn, _, hmany, htargets, _, hown, hbranches, _⟩ := h
  obtain ⟨seen, hloop, _⟩ := findDownstreamJoin_ends hsplit
  let Good (x : String × Nat) : Prop := x = (join, 1) ∨ ∃ k, (branches k).At (d.counts e) x 1
  have hstop : ∀ m, Good (join, m) → d.joinDepth e join m = none := by
    rintro m (hm | ⟨k, hk⟩)
    · obtain ⟨-, rfl⟩ := Prod.mk.inj hm
      have hmany' : d.isJoinGateway join = true := decide_eq_true (hmany ▸ hn)
      simp [joinDepth, hjoin, hmany', hsame]
    · exact absurd hk.names (hown k)
  have hgo : ∀ id m, id ≠ join → Good (id, m) →
      ∃ m', d.joinDepth e id m = some m' ∧ ∀ t ∈ d.targets id, Good (t, m') := by
    rintro id m hid (hm | ⟨k, hk⟩)
    · exact absurd (Prod.mk.inj hm).1 hid
    · obtain ⟨m', hm', hall⟩ := (hbranches k).joinDepth_eq Nat.one_pos hk
      exact ⟨m', hm', fun t ht => (hall t ht).symm.imp_right fun h => ⟨k, h⟩⟩
  have hqueue : ∀ x ∈ (d.nextNodes split).map fun flow => (flow.target, 1), Good x := by
    intro x hx
    obtain ⟨flow, hflow, rfl⟩ := List.mem_map.mp hx
    have hmem : flow.target ∈ d.targets split := List.mem_map_of_mem hflow
    rw [htargets, List.mem_ofFn] at hmem
    obtain ⟨k, hk⟩ := hmem
    exact hk ▸ ((branches k).entry_at 1).symm.imp_right fun h => ⟨k, h⟩
  rcases searchLoop_finds hstop hgo hqueue List.not_mem_nil nofun hloop with
    hfound | ⟨hnot, hall, hclosed⟩
  · exact hfound
  · obtain ⟨k⟩ : Nonempty (Fin n) := ⟨⟨0, by omega⟩⟩
    have hfirst : (branches k).entry join ∈ d.targets split := by
      rw [htargets, List.mem_ofFn]
      exact ⟨k, rfl⟩
    have hmem : (branches k).entry join ∈ seen := hall (by simpa [targets] using hfirst)
    exact absurd ((hbranches k).mem_of_closed hclosed hmem) hnot

theorem Draws.exists_block (h : d.Draws next piece) (hblock : piece.Closes split join) :
    ∃ next n branches rest, d.Draws next (.block split join n branches rest) := by
  induction piece generalizing next with
  | done => cases hblock
  | node id rest ih => exact ih h.2.2 hblock
  | block split' join' n branches rest ihb ih =>
    rcases hblock with ⟨rfl, rfl⟩ | ⟨k, hblock⟩ | hblock
    · exact ⟨next, n, branches, rest, h⟩
    · exact ihb k (h.2.2.2.2.2.2.2.1 k) hblock
    · exact ih h.2.2.2.2.2.2.2.2 hblock

/-- In a block-structured definition the search from a split finds the join that closes it. On every
definition, also one with cycles, it ends and has visited each node at most once. -/
theorem findDownstreamJoin_closes (d : ProcessDefinition) :
    (∀ next piece split join, d.Draws next piece → piece.Closes split join →
      d.findDownstreamJoin split = some join) ∧
    ∀ start split, d.getNode start = some split →
      ∃ seen, d.searchLoop split (2 * d.flowCount + 1) []
        ((d.nextNodes start).map fun flow => (flow.target, 1)) =
          some (seen, d.findDownstreamJoin start) ∧ seen.Nodup := by
  constructor
  · intro next piece split join h hblock
    obtain ⟨_, _, _, _, hdraws⟩ := h.exists_block hblock
    exact findDownstreamJoin_block hdraws
  · intro start split hstart
    exact findDownstreamJoin_ends hstart

/-- A fork whose first branch has a fork of the same type, behind a task. -/
def nestedForks : ProcessDefinition :=
  .ofGraph "nested" [("start", .startEvent), ("fork", .parallelGateway), ("a", .userTask ""),
      ("inner", .parallelGateway), ("b", .userTask ""), ("meet", .parallelGateway),
      ("join", .parallelGateway), ("end", .endEvent)]
    [("start", [.simple "fork"]), ("fork", [.simple "a", .simple "join"]),
      ("a", [.simple "inner"]), ("inner", [.simple "meet", .simple "b"]), ("b", [.simple "meet"]),
      ("meet", [.simple "join"]), ("join", [.simple "end"])]

theorem nestedForks_join :
    ∃ piece, nestedForks.Draws "end" piece ∧ piece.Closes "fork" "join" ∧
      nestedForks.findDownstreamJoin "fork" = some "join" := by
  let inner : Piece := .block "inner" "meet" 2 ![.done, .node "b" .done] .done
  let piece : Piece := .node "start" (.block "fork" "join" 2 ![.node "a" inner, .done] .done)
  have hinner : nestedForks.Draws "join" inner := by
    refine ⟨⟨_, _, rfl, rfl, rfl⟩, by decide, by decide, by decide, rfl, rfl, ?_, ?_, trivial⟩
    · simp [Fin.forall_fin_two, Piece.Names]
    · exact Fin.forall_fin_two.mpr ⟨trivial, rfl, rfl, trivial⟩
  have hdraws : nestedForks.Draws "end" piece := by
    refine ⟨rfl, rfl, ⟨_, _, rfl, rfl, rfl⟩, by decide, by decide, by decide, rfl, rfl, ?_, ?_,
      trivial⟩
    · simp [inner, Fin.forall_fin_two, Piece.Names]
    · exact Fin.forall_fin_two.mpr ⟨⟨rfl, rfl, hinner⟩, trivial⟩
  exact ⟨piece, hdraws, .inl ⟨rfl, rfl⟩,
    (findDownstreamJoin_closes nestedForks).1 _ _ _ _ hdraws (.inl ⟨rfl, rfl⟩)⟩

/-! ## Any definition -/

variable (d) in
/-- Some path from the split meets the node with so many splits of its type open. -/
inductive Meets (root : BpmnElement) (split : String) : String → Nat → Prop where
  | first {t : String} (ht : t ∈ d.targets split) : Meets root split t 1
  | next {id t : String} {m m' : Nat} (h : Meets root split id m)
      (hdepth : d.joinDepth root id m = some m') (ht : t ∈ d.targets id) : Meets root split t m'

theorem searchJoin_meets {split : String} (hqueue : ∀ x ∈ queue, d.Meets root split x.1 x.2)
    (h : d.searchJoin root fuel visited queue = some join) :
    ∃ m, d.Meets root split join m ∧ d.joinDepth root join m = none := by
  fun_induction searchJoin d root fuel visited queue with
  | case1 | case2 => cases h
  | case3 _ _ _ _ _ _ ih => exact ih (List.forall_mem_cons.mp hqueue).2 h
  | case4 _ _ _ _ _ _ hstop =>
    cases h
    exact ⟨_, hqueue _ List.mem_cons_self, hstop⟩
  | case5 _ _ _ _ _ _ _ hdepth ih =>
    obtain ⟨hfirst, hrest⟩ := List.forall_mem_cons.mp hqueue
    refine ih (fun x hx => ?_) h
    rcases List.mem_append.mp hx with hx | hx
    · exact hrest x hx
    · obtain ⟨flow, hflow, rfl⟩ := List.mem_map.mp hx
      exact hfirst.next hdepth (List.mem_map_of_mem hflow)

/-- What the search returns is a join of the type of the split, and some path leads there on which
every other split of the type is closed. -/
theorem findDownstreamJoin_meets {split : String} (h : d.findDownstreamJoin split = some join) :
    ∃ e e', d.getNode split = some e ∧ d.getNode join = some e' ∧ sameGatewayType e e' = true ∧
      2 ≤ d.incomingFlowCount join ∧ d.Meets e split join 1 := by
  obtain ⟨e, he, h⟩ := Option.bind_eq_some_iff.mp h
  have hqueue : ∀ x ∈ (d.nextNodes split).map fun flow => (flow.target, 1),
      d.Meets e split x.1 x.2 := by
    intro x hx
    obtain ⟨flow, hflow, rfl⟩ := List.mem_map.mp hx
    exact .first (List.mem_map_of_mem hflow)
  obtain ⟨m, hmeets, hstop⟩ := searchJoin_meets hqueue h
  obtain ⟨e', he', hsame, hjoin, rfl⟩ : ∃ e', d.getNode join = some e' ∧
      sameGatewayType e e' = true ∧ 2 ≤ d.incomingFlowCount join ∧ m = 1 := by
    grind [joinDepth, isJoinGateway]
  exact ⟨e, e', he, he', hsame, hjoin, hmeets⟩

theorem nestedForks_meets : ∃ e, nestedForks.Meets e "fork" "join" 1 := by
  have hfound : nestedForks.findDownstreamJoin "fork" = some "join" := by decide
  obtain ⟨e, _, _, _, _, _, hmeets⟩ := findDownstreamJoin_meets hfound
  exact ⟨e, hmeets⟩

end ProcessDefinition

end BpmnEngine
