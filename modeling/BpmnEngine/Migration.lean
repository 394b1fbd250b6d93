import BpmnEngine.OperationMoves

/-!
# Migrating an instance to another definition

A migration checks the current node and the tokens of an instance against the target
definition, and then sends these, the keys of its join barriers and of its
multi-instance progress, and the nodes of its waits through the mapping. What is filed
below those keys, the outstanding calls, the open data scopes and the compensation
records keep the nodes they had, and the barriers of two nodes that are sent to one
become one. We say what an instance refers to, and give the exact condition under
which a migration leaves no reference behind and loses nothing.
-/
namespace BpmnEngine

open Program

/-! ## The nodes an instance refers to -/

def Token.nodeIds (t : Token) : List String :=
  t.currentNode :: (t.dataScope.map (·.nodeId)).toList

def JoinBarrier.nodeIds (b : JoinBarrier) : List String :=
  b.gatewayNodeId :: b.arrivedTokens.flatMap Token.nodeIds

def MultiInstanceProgress.nodeIds (p : MultiInstanceProgress) : List String :=
  p.nodeId :: p.sequentialToken.toList.flatMap Token.nodeIds

def OutstandingCall.nodeIds (call : OutstandingCall) : List String :=
  call.nodeId :: call.token.nodeIds

def CompensationRecord.nodeIds (r : CompensationRecord) : List String :=
  [r.activityId, r.handlerNodeId]

def InstanceState.token? : InstanceState → Option Token
  | .waitingOnCallActivity _ token => some token
  | _ => none

def ProcessDefinition.HasNode (d : ProcessDefinition) (node : String) : Prop :=
  d.nodes.contains node = true

/-- What an instance has beside the parts that a migration checks or sends through its mapping
refers to the nodes of a definition only. -/
structure ProcessInstance.RestWithin (d : ProcessDefinition) (x : ProcessInstance) : Prop where
  calls : ∀ id call, (id, call) ∈ x.outstandingCalls → ∀ n ∈ call.nodeIds, d.HasNode n
  state : ∀ t, x.state.token? = some t → ∀ n ∈ t.nodeIds, d.HasNode n
  compensations : ∀ r ∈ x.compensationLog, ∀ n ∈ r.nodeIds, d.HasNode n

/-- An instance refers to the nodes of a definition only. -/
structure ProcessInstance.Within (d : ProcessDefinition) (x : ProcessInstance) : Prop
    extends x.RestWithin d where
  current : d.HasNode x.currentNode
  tokens : ∀ t ∈ x.tokens, ∀ n ∈ t.nodeIds, d.HasNode n
  forks : ∀ a ∈ x.activeTokens, a.completed = false → ∀ n ∈ a.token.nodeIds, d.HasNode n
  barriers : ∀ node b, (node, b) ∈ x.joinBarriers → ∀ n ∈ node :: b.nodeIds, d.HasNode n
  progress : ∀ node p, (node, p) ∈ x.multiInstanceState → ∀ n ∈ node :: p.nodeIds, d.HasNode n

/-- The waits of an instance are at nodes of a definition. The wait of a scope listener, under the
nil token, names a definition in place of a node. -/
def Engine.WaitsWithin (e : Engine) (i : Uuid) (d : ProcessDefinition) : Prop :=
  ∀ w ∈ e.waits, w.instanceId = i → w.tokenId ≠ 0 → d.HasNode w.nodeId

/-! ## What must not be lost -/

def JoinBarrier.Holds (b b' : JoinBarrier) : Prop :=
  ∀ t ∈ b'.arrivedTokens, ∃ t' ∈ b.arrivedTokens, t'.id = t.id

def MultiInstanceProgress.counts (p : MultiInstanceProgress) : Nat × Nat × List (Option Value) :=
  (p.total, p.completed, p.items)

/-- The barriers and the progress of an instance are at the nodes they were sent to. -/
structure ProcessInstance.Carried (mapping : Map String String) (x x' : ProcessInstance) :
    Prop where
  barriers : ∀ node b, (node, b) ∈ x.joinBarriers →
    ∃ b', (Eng.remap mapping node, b') ∈ x'.joinBarriers ∧ b'.Holds b
  progress : ∀ node p, (node, p) ∈ x.multiInstanceState →
    ∃ p', (Eng.remap mapping node, p') ∈ x'.multiInstanceState ∧ p'.counts = p.counts

/-- A failed migration changes nothing. After one that succeeds the instance refers to nodes of
its new definition only, and no arrived token and no progress is lost. -/
def Engine.MigratesWhole (env : Env) (e : Engine) (i target : Uuid) (mapping : Map String String) :
    Prop :=
  match exec (Eng.migrateInstance env i target mapping) e with
  | (.error _, e') => e' = e
  | (.ok _, e') => ∃ d x x', e.definitions.find? target = some d ∧ e.instances.find? i = some x ∧
      e'.instances.find? i = some x' ∧ x'.definitionKey = target ∧ x'.Within d ∧
      e'.WaitsWithin i d ∧ x.Carried mapping x'

/-! ## The condition -/

/-- What a migration checks. -/
structure Engine.Accepts (e : Engine) (i target : Uuid) (mapping : Map String String)
    (d : ProcessDefinition) (x : ProcessInstance) : Prop where
  definition : e.definitions.find? target = some d
  found : e.instances.find? i = some x
  active : ¬x.state.isTerminal ∧ ¬x.state.isSuspended
  current : d.HasNode (Eng.remap mapping x.currentNode)
  tokens : ∀ t ∈ x.tokens, d.HasNode (Eng.remap mapping t.currentNode)
  forks : ∀ a ∈ x.activeTokens, d.HasNode (Eng.remap mapping a.token.currentNode)

/-- What a migration does not check: the keys of barriers and progress and the nodes of the waits
are sent to nodes of the target, all that keeps its node refers to nodes of the target as it is,
and nodes with different arrived tokens or different progress are not sent to one. -/
structure Engine.Movable (e : Engine) (i : Uuid) (mapping : Map String String)
    (d : ProcessDefinition) (x : ProcessInstance) : Prop where
  rest : x.RestWithin d
  scopes : ∀ t ∈ x.tokens, ∀ s, t.dataScope = some s → d.HasNode s.nodeId
  forkScopes : ∀ a ∈ x.activeTokens, a.completed = false → ∀ s, a.token.dataScope = some s →
    d.HasNode s.nodeId
  barriers : ∀ node b, (node, b) ∈ x.joinBarriers →
    ∀ n ∈ Eng.remap mapping node :: b.nodeIds, d.HasNode n
  progress : ∀ node p, (node, p) ∈ x.multiInstanceState →
    ∀ n ∈ Eng.remap mapping node :: p.nodeIds, d.HasNode n
  waits : ∀ w ∈ e.waits, w.instanceId = i → w.tokenId ≠ 0 → d.HasNode (Eng.remap mapping w.nodeId)
  merged : ∀ node b node' b', (node, b) ∈ x.joinBarriers → (node', b') ∈ x.joinBarriers →
    Eng.remap mapping node = Eng.remap mapping node' → b'.Holds b
  mergedProgress : ∀ node p node' p', (node, p) ∈ x.multiInstanceState →
    (node', p') ∈ x.multiInstanceState → Eng.remap mapping node = Eng.remap mapping node' →
    p'.counts = p.counts

/-! ## The checks -/

namespace Eng

variable {env : Env} {e : Engine} {i target : Uuid} {mapping : Map String String}
  {d : ProcessDefinition} {x : ProcessInstance} {β : Type} {node : String} {m : Map String β}
  {b : β}

theorem exec_checkNodes (d : ProcessDefinition) (mapping : Map String String)
    (nodes : List String) (e : Engine) :
    (exec (checkNodes d mapping nodes) e = (.ok ⟨⟩, e) ∧ ∀ n ∈ nodes, d.HasNode (remap mapping n)) ∨
      (∃ error, exec (checkNodes d mapping nodes) e = (.error error, e)) ∧
        ¬∀ n ∈ nodes, d.HasNode (remap mapping n) := by
  induction nodes with
  | nil => exact .inl ⟨rfl, by simp⟩
  | cons n nodes =>
    have hunfold : checkNodes d mapping (n :: nodes) =
        ((if d.nodes.contains (remap mapping n) then pure ()
          else throw (.orphanedToken (remap mapping n)) : Eng PUnit) >>= fun _ =>
            checkNodes d mapping nodes) := rfl
    rw [hunfold]
    by_cases hn : d.nodes.contains (remap mapping n) = true
    · rw [if_pos hn, exec_bind_ok (exec_pure _ e)]
      have hiff : (∀ m ∈ n :: nodes, d.HasNode (remap mapping m)) ↔
          ∀ m ∈ nodes, d.HasNode (remap mapping m) := by
        simp [ProcessDefinition.HasNode, hn]
      rwa [hiff]
    · rw [if_neg hn]
      exact .inr ⟨⟨_, exec_bind_error (exec_throw _ e)⟩, fun h => hn (h n List.mem_cons_self)⟩

/-- The checks pass exactly for what a migration accepts, and change nothing. -/
theorem exec_checkMigration (i target : Uuid) (mapping : Map String String) (e : Engine) :
    (exec (checkMigration i target mapping) e = (.ok ⟨⟩, e) ∧
        ∃ d x, e.Accepts i target mapping d x) ∨
      (∃ error, exec (checkMigration i target mapping) e = (.error error, e)) ∧
        ∀ d x, ¬e.Accepts i target mapping d x := by
  unfold checkMigration
  cases hd : e.definitions.find? target with
  | none =>
    refine .inr ⟨⟨_, exec_bind_error (exec_getDefinition_none hd)⟩, fun d x h => ?_⟩
    cases hd.symm.trans h.definition
  | some d =>
  rw [exec_bind_ok (exec_getDefinition hd)]
  cases hx : e.instances.find? i with
  | none =>
    refine .inr ⟨⟨_, exec_bind_error (exec_getInstance_none hx)⟩, fun d x h => ?_⟩
    cases hx.symm.trans h.found
  | some x =>
  rw [exec_bind_ok (exec_getInstance hx)]
  have hsame : ∀ {d' x'}, e.Accepts i target mapping d' x' → d = d' ∧ x = x' := fun h =>
    ⟨Option.some.inj (hd.symm.trans h.definition), Option.some.inj (hx.symm.trans h.found)⟩
  by_cases hterminal : x.state.isTerminal = true
  · refine .inr ⟨⟨.alreadyCompleted, exec_bind_error ?_⟩, fun d' x' h => ?_⟩
    · rw [requireActive, if_pos hterminal]
      rfl
    · obtain ⟨rfl, rfl⟩ := hsame h
      exact h.active.1 hterminal
  by_cases hsuspended : x.state.isSuspended = true
  · refine .inr ⟨⟨.instanceSuspended x.id, exec_bind_error ?_⟩, fun d' x' h => ?_⟩
    · rw [requireActive, if_neg hterminal, if_pos hsuspended]
      rfl
    · obtain ⟨rfl, rfl⟩ := hsame h
      exact h.active.2 hsuspended
  have hactive : exec (requireActive x) e = (.ok (), e) := by
    rw [requireActive, if_neg hterminal, if_neg hsuspended]
    rfl
  rw [exec_bind_ok hactive]
  rcases exec_checkNodes d mapping [x.currentNode] e with ⟨h₁, hcurrent⟩ | ⟨⟨error, h₁⟩, hnot⟩
  swap
  · refine .inr ⟨⟨error, exec_bind_error h₁⟩, fun d' x' h => ?_⟩
    obtain ⟨rfl, rfl⟩ := hsame h
    exact hnot fun n hn => List.mem_singleton.mp hn ▸ h.current
  rw [exec_bind_ok h₁]
  rcases exec_checkNodes d mapping (x.tokens.entries.map (·.currentNode)) e with
    ⟨h₂, htokens⟩ | ⟨⟨error, h₂⟩, hnot⟩
  swap
  · refine .inr ⟨⟨error, exec_bind_error h₂⟩, fun d' x' h => ?_⟩
    obtain ⟨rfl, rfl⟩ := hsame h
    exact hnot (List.forall_mem_map.mpr h.tokens)
  rw [exec_bind_ok h₂]
  rcases exec_checkNodes d mapping (x.activeTokens.map (·.token.currentNode)) e with
    ⟨h₃, hforks⟩ | ⟨herror, hnot⟩
  · exact .inl ⟨h₃, d, x, hd, hx, ⟨hterminal, hsuspended⟩,
      hcurrent _ (List.mem_singleton_self _), fun t ht => htokens _ (List.mem_map_of_mem ht),
      fun a ha => hforks _ (List.mem_map_of_mem ha)⟩
  · refine .inr ⟨herror, fun d' x' h => ?_⟩
    obtain ⟨rfl, rfl⟩ := hsame h
    exact hnot (List.forall_mem_map.mpr h.forks)

def migratedEngine (env : Env) (i target : Uuid) (mapping : Map String String) (e : Engine) :
    Engine :=
  migrateWaits mapping target i (e.modifyInstance i (migrated env mapping target e.nextUuid))

theorem exec_migrateInstance (h : e.Accepts i target mapping d x) :
    exec (migrateInstance env i target mapping) e =
      (.ok ⟨⟩, migratedEngine env i target mapping e) := by
  rcases exec_checkMigration i target mapping e with ⟨hok, _⟩ | ⟨_, hnone⟩
  · rw [migrateInstance, exec_bind_ok hok, exec_bind_ok (exec_get e),
      exec_bind_ok (exec_modifyInstance e i _)]
    rfl
  · exact absurd h (hnone d x)

theorem exec_migrateInstance_refused (env : Env) (h : ∀ d x, ¬e.Accepts i target mapping d x) :
    ∃ error, exec (migrateInstance env i target mapping) e = (.error error, e) := by
  rcases exec_checkMigration i target mapping e with ⟨_, d, x, hx⟩ | ⟨⟨error, herror⟩, _⟩
  · exact absurd hx (h d x)
  · exact ⟨error, exec_bind_error herror⟩

theorem find?_migratedEngine (hx : e.instances.find? i = some x) :
    (migratedEngine env i target mapping e).instances.find? i =
      some (migrated env mapping target e.nextUuid x) := by
  show (e.modifyInstance i _).instances.find? i = _
  rw [Engine.find?_modifyInstance_self, hx]
  rfl

/-! ## What is sent through the mapping -/

theorem nodeIds_remapToken (mapping : Map String String) (t : Token) :
    (remapToken mapping t).nodeIds =
      remap mapping t.currentNode :: (t.dataScope.map (·.nodeId)).toList := rfl

theorem mem_rekeyed {n : Nat}
    (h : (node, b) ∈ Map.ofList
      ((env.visit n m.entries).map fun (node, b) => (remap mapping node, b))) :
    ∃ node', (node', b) ∈ m ∧ remap mapping node' = node := by
  obtain ⟨⟨node', b'⟩, hmem, heq⟩ := List.mem_map.mp (Map.mem_of_mem_ofList h)
  cases heq
  exact ⟨node', (env.mem_visit n _ _).mp hmem, rfl⟩

/-- Each key is sent somewhere, with the value of a key that is sent there too. -/
theorem exists_mem_rekeyed (n : Nat) (h : (node, b) ∈ m) :
    ∃ node' b', (node', b') ∈ m ∧ remap mapping node' = remap mapping node ∧
      (remap mapping node, b') ∈ Map.ofList ((env.visit n m.entries).map
        fun (node, b) => (remap mapping node, b)) := by
  have hsent : (remap mapping node, b) ∈ (env.visit n m.entries).map
      fun (node, b) => (remap mapping node, b) :=
    List.mem_map.mpr ⟨(node, b), (env.mem_visit n _ _).mpr h, rfl⟩
  obtain ⟨b', hb'⟩ := Map.exists_mem_ofList hsent
  obtain ⟨node', hmem, hnode'⟩ := mem_rekeyed hb'
  exact ⟨node', b', hmem, hnode', hb'⟩

theorem exists_wins (env : Env) (n : Nat) (h : (node, b) ∈ m) :
    ∃ k, (remap mapping node, b) ∈ Map.ofList (((env.rotated k).visit n m.entries).map
      fun (node, b) => (remap mapping node, b)) := by
  obtain ⟨k, l, hlast⟩ := env.exists_rotated_last n (Table.mem_def.mp h)
  refine ⟨k, ?_⟩
  rw [hlast, List.map_append]
  exact Map.mem_ofList_concat _ _

end Eng

/-! ## Migrations that leave nothing behind -/

namespace Engine

open Eng

variable {env : Env} {e : Engine} {i target : Uuid} {mapping : Map String String}
  {d : ProcessDefinition} {x : ProcessInstance}

theorem Movable.within (h : e.Movable i mapping d x) (ha : e.Accepts i target mapping d x)
    (n : Nat) : (migrated env mapping target n x).Within d where
  calls := h.rest.calls
  state := h.rest.state
  compensations := h.rest.compensations
  current := ha.current
  tokens := by
    intro t ht m hm
    obtain ⟨u, hu, rfl⟩ := List.mem_map.mp (Table.mem_def.mp ht)
    rw [nodeIds_remapToken, List.mem_cons, Option.mem_toList, Option.map_eq_some_iff] at hm
    rcases hm with rfl | ⟨s, hs, rfl⟩
    · exact ha.tokens u hu
    · exact h.scopes u hu s hs
  forks := by
    intro a hmem hopen m hm
    obtain ⟨b, hb, rfl⟩ := List.mem_map.mp hmem
    rw [nodeIds_remapToken, List.mem_cons, Option.mem_toList, Option.map_eq_some_iff] at hm
    rcases hm with rfl | ⟨s, hs, rfl⟩
    · exact ha.forks b hb
    · exact h.forkScopes b hb hopen s hs
  barriers := by
    intro node b hb
    obtain ⟨node', hmem, rfl⟩ := mem_rekeyed hb
    exact h.barriers node' b hmem
  progress := by
    intro node p hp
    obtain ⟨node', hmem, rfl⟩ := mem_rekeyed hp
    exact h.progress node' p hmem

theorem Movable.carried (h : e.Movable i mapping d x) (target : Uuid) (n : Nat) :
    x.Carried mapping (migrated env mapping target n x) where
  barriers := by
    intro node b hb
    obtain ⟨node', b', hmem, hsame, hb'⟩ := exists_mem_rekeyed n hb
    exact ⟨b', hb', h.merged node b node' b' hb hmem hsame.symm⟩
  progress := by
    intro node p hp
    obtain ⟨node', p', hmem, hsame, hp'⟩ := exists_mem_rekeyed n hp
    exact ⟨p', hp', h.mergedProgress node p node' p' hp hmem hsame.symm⟩

/-- The waits are those from before, at the nodes they are sent to. -/
theorem waitsWithin_migratedEngine :
    (migratedEngine env i target mapping e).WaitsWithin i d ↔
      ∀ w ∈ e.waits, w.instanceId = i → w.tokenId ≠ 0 → d.HasNode (remap mapping w.nodeId) := by
  have hmem : ∀ w, w ∈ (migratedEngine env i target mapping e).waits ↔
      ∃ v ∈ e.waits, v.migrated mapping i = w := fun w => mem_waits_migrateWaits
  constructor
  · intro h w hw hi htoken
    have hnode := h _ ((hmem _).mpr ⟨w, hw, rfl⟩) hi htoken
    simpa [Wait.migrated, hi] using hnode
  · intro h w hw hi htoken
    obtain ⟨v, hv, rfl⟩ := (hmem w).mp hw
    have hi' : v.instanceId = i := hi
    simpa [Wait.migrated, hi'] using h v hv hi htoken

theorem migratesWhole_of_refused (h : ∀ d x, ¬e.Accepts i target mapping d x) :
    e.MigratesWhole env i target mapping := by
  obtain ⟨error, herror⟩ := exec_migrateInstance_refused env h
  rw [MigratesWhole, herror]

theorem migratesWhole_iff_of_accepts (env : Env) (ha : e.Accepts i target mapping d x) :
    e.MigratesWhole env i target mapping ↔
      (migrated env mapping target e.nextUuid x).Within d ∧
        (migratedEngine env i target mapping e).WaitsWithin i d ∧
        x.Carried mapping (migrated env mapping target e.nextUuid x) := by
  rw [MigratesWhole, exec_migrateInstance ha]
  constructor
  · rintro ⟨d', y, y', hd', hy, hy', -, hwithin, hwaits, hcarried⟩
    cases hd'.symm.trans ha.definition
    cases hy.symm.trans ha.found
    cases hy'.symm.trans (find?_migratedEngine ha.found)
    exact ⟨hwithin, hwaits, hcarried⟩
  · rintro ⟨hwithin, hwaits, hcarried⟩
    exact ⟨d, x, _, ha.definition, ha.found, find?_migratedEngine ha.found, rfl, hwithin, hwaits,
      hcarried⟩

/-- What every order of visiting the barriers and the progress leaves whole was movable: each
barrier and each progress wins its new node in some order. -/
theorem Movable.of_migratesWhole (ha : e.Accepts i target mapping d x)
    (h : ∀ env, e.MigratesWhole env i target mapping) : e.Movable i mapping d x := by
  have hwhole := fun env => (migratesWhole_iff_of_accepts env ha).mp (h env)
  obtain ⟨hwithin, hwaits, -⟩ := hwhole .plain
  refine ⟨⟨hwithin.calls, hwithin.state, hwithin.compensations⟩, fun t ht s hs => ?_, fun a hmem
    hopen s hs => ?_,
    fun node b hb => ?_, fun node p hp => ?_, waitsWithin_migratedEngine.mp hwaits,
    fun node b node' b' hb hb' hsame => ?_, fun node p node' p' hp hp' hsame => ?_⟩
  · refine hwithin.tokens _ (Table.mem_def.mpr (List.mem_map.mpr ⟨t, ht, rfl⟩)) _ ?_
    rw [nodeIds_remapToken, hs]
    exact List.mem_cons_of_mem _ (List.mem_singleton_self _)
  · refine hwithin.forks _ (List.mem_map.mpr ⟨a, hmem, rfl⟩) hopen _ ?_
    rw [nodeIds_remapToken, hs]
    exact List.mem_cons_of_mem _ (List.mem_singleton_self _)
  · obtain ⟨k, hk⟩ := exists_wins .plain e.nextUuid hb
    exact (hwhole (Env.plain.rotated k)).1.barriers _ b hk
  · obtain ⟨k, hk⟩ := exists_wins .plain e.nextUuid hp
    exact (hwhole (Env.plain.rotated k)).1.progress _ p hk
  · obtain ⟨k, hk⟩ := exists_wins .plain e.nextUuid hb'
    obtain ⟨c, hc, hholds⟩ := (hwhole (Env.plain.rotated k)).2.2.barriers node b hb
    rw [hsame] at hc
    cases Table.eq_of_key_eq hc hk rfl
    exact hholds
  · obtain ⟨k, hk⟩ := exists_wins .plain e.nextUuid hp'
    obtain ⟨c, hc, hcounts⟩ := (hwhole (Env.plain.rotated k)).2.2.progress node p hp
    rw [hsame] at hc
    cases Table.eq_of_key_eq hc hk rfl
    exact hcounts

end Engine

/-- Whatever the order in which barriers and progress are visited: a migration that fails changes
nothing, and one that passes its checks leaves the instance within its new definition, with all
arrived tokens and all progress, if and only if what it does not check was in order before. -/
theorem migration_whole_iff (e : Engine) (i target : Uuid) (mapping : Map String String) :
    (∀ env, e.MigratesWhole env i target mapping) ↔
      ∀ d x, e.Accepts i target mapping d x → e.Movable i mapping d x := by
  constructor
  · intro h d x ha
    exact Engine.Movable.of_migratesWhole ha h
  · intro h env
    by_cases haccepts : ∃ d x, e.Accepts i target mapping d x
    · obtain ⟨d, x, ha⟩ := haccepts
      have hm := h d x ha
      exact (Engine.migratesWhole_iff_of_accepts env ha).mpr
        ⟨hm.within ha _, Engine.waitsWithin_migratedEngine.mpr hm.waits, hm.carried _ _⟩
    · exact Engine.migratesWhole_of_refused fun d x ha => haccepts ⟨d, x, ha⟩

def seating : ProcessDefinition := .ofGraph "seating"
  [("start", .startEvent), ("choose", .userTask "guest"), ("end", .endEvent)]
  [("start", [.simple "choose"]), ("choose", [.simple "end"])]

def booking (call : String) : ProcessDefinition := .ofGraph "booking"
  [("start", .startEvent), (call, .callActivity "seating"), ("end", .endEvent)]
  [("start", [.simple call]), (call, [.simple "end"])]

/-- The call activity is renamed in the second version. -/
def bookingRun : Option Config :=
  Config.performAll .plain 100 (Config.initial 0)
    [.deployDefinition seating, .deployDefinition (booking "reserve"),
      .deployDefinition (booking "hold"), .startInstance 2 ∅]

def bookingRenaming : Map String String := Map.ofList [("reserve", "hold")]

/-- The instance is moved while its call runs. The call still names the activity `reserve`, which
the second version does not have. -/
theorem booking_call_left_behind :
    ∃ c, Reaches (Config.step .plain) (fun _ _ => True) (Config.initial 0) c ∧
      ¬c.engine.MigratesWhole .plain 4 3 bookingRenaming := by
  have hrun : bookingRun.map (fun c =>
      let after := exec (Eng.migrateInstance .plain 4 3 bookingRenaming) c.engine
      (after.1.toOption.isSome,
        (after.2.instances.find? 4).map fun x => x.outstandingCalls.entries.map (·.2.nodeId),
        (c.engine.definitions.find? 3).map (·.nodes.contains "reserve"))) =
      some (true, some ["reserve"], some false) := by
    decide +kernel
  obtain ⟨c, hreach, -, hfacts⟩ := Config.exists_of_performAll hrun
  simp only [Prod.mk.injEq] at hfacts
  obtain ⟨hok, hcalls, hnode⟩ := hfacts
  refine ⟨c, hreach, fun h => ?_⟩
  unfold Engine.MigratesWhole at h
  split at h
  · next hexec =>
      rw [hexec] at hok
      cases hok
  · next hexec =>
      obtain ⟨d, -, x', hd, -, hx', -, hwithin, -⟩ := h
      rw [hexec, hx', Option.map_some, Option.some_inj] at hcalls
      rw [hd, Option.map_some, Option.some_inj] at hnode
      obtain ⟨⟨id, call⟩, hmem, hcall⟩ := List.mem_map.mp
        (hcalls ▸ List.mem_singleton_self "reserve" : "reserve" ∈ x'.outstandingCalls.entries.map _)
      have hhas : d.HasNode call.nodeId := hwithin.calls id call hmem _ List.mem_cons_self
      rw [hcall] at hhas
      exact Bool.false_ne_true (hnode.symm.trans hhas)

end BpmnEngine
