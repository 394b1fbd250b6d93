import BpmnEngine.BoundaryFirings
import BpmnEngine.ComplexJoins

/-!
# Conditional events

The conditions of an instance's conditional events are evaluated in rounds: when a batch has
nothing left to do, and when the variables are updated from outside. An event fires when its
condition is true and was not true in the round before. An intermediate or interrupting
event is withdrawn when it fires; another one stays and remembers that it was true.

A round takes a snapshot of the waiting events and works through it. An interrupting event
withdraws the other events of its token, also those whose turn has not come yet. If an event
that should fire has no flow to leave by, or its token is not in the token table, which is so
for every call activity, the round fails: the event is lost, and with it the tokens that
earlier events of the round have set free.
-/
namespace BpmnEngine

open Program

/-! ## Kinds of conditional events -/

namespace BpmnElement

def isInterruptingCondition : BpmnElement → Bool
  | .boundaryConditionalEvent _ _ true => true
  | _ => false

def firesOnce : BpmnElement → Bool
  | .conditionalCatchEvent _ => true
  | element => element.isInterruptingCondition

def firesAgain : BpmnElement → Bool
  | .boundaryConditionalEvent _ _ false => true
  | _ => false

end BpmnElement

namespace PendingConditionalCatch

variable (d : ProcessDefinition) (c : PendingConditionalCatch)

def interrupts : Bool := (d.getNode c.nodeId).any (·.isInterruptingCondition)

def firesOnce : Bool := (d.getNode c.nodeId).any (·.firesOnce)

def firesAgain : Bool := (d.getNode c.nodeId).any (·.firesAgain)

def isTrue (env : Env) (vars : Variables) : Bool := env.evaluateCondition c.condition vars

def fires : Bool := c.firesOnce d || c.firesAgain d

def rises (env : Env) (vars : Variables) : Bool := c.isTrue env vars && !c.lastResult

variable {d c}

theorem kinds_eq {element : BpmnElement} (h : d.getNode c.nodeId = some element) :
    c.interrupts d = element.isInterruptingCondition ∧ c.firesOnce d = element.firesOnce ∧
      c.firesAgain d = element.firesAgain := by
  rw [interrupts, firesOnce, firesAgain, h]
  exact ⟨rfl, rfl, rfl⟩

end PendingConditionalCatch

/-! ## One turn -/

namespace Eng

variable {env : Env} {d : ProcessDefinition} {i : Uuid} {vars : Variables} {e e' : Engine}
  {c c' : PendingConditionalCatch} {x : ProcessInstance}

/-- What the turn of an event that can fire does to the engine. -/
structure Turned (env : Env) (d : ProcessDefinition) (i : Uuid) (vars : Variables)
    (c : PendingConditionalCatch) (e e' : Engine) : Prop where
  definitions : e'.definitions = e.definitions
  host : ∀ x, e.instances.find? i = some x → ∃ x', e'.instances.find? i = some x' ∧
    x'.definitionKey = x.definitionKey ∧ ∀ t, (x.tokens.find? t).isSome →
      (c ∈ e.pendingConditionalCatches → c.rises env vars → c.firesOnce d → t ≠ c.tokenId) →
      (x'.tokens.find? t).isSome
  own : ∀ c', c'.id = c.id → (c' ∈ e'.pendingConditionalCatches ↔
    c ∈ e.pendingConditionalCatches ∧ c' = { c with lastResult := c.isTrue env vars } ∧
      (c.rises env vars → c.firesAgain d))
  others : ∀ c', c'.id ≠ c.id → (c' ∈ e'.pendingConditionalCatches ↔
    c' ∈ e.pendingConditionalCatches ∧ ¬(c ∈ e.pendingConditionalCatches ∧ c.rises env vars ∧
      c.interrupts d ∧ c'.instanceId = i ∧ c'.tokenId = c.tokenId))

/-- The turn of an event succeeds with these tokens. -/
def TakesTurn (env : Env) (d : ProcessDefinition) (i : Uuid) (vars : Variables)
    (c : PendingConditionalCatch) (e : Engine) (tokens : List Token) : Prop :=
  ∃ e', exec (evaluateCatch env d i vars c) e = (.ok tokens, e') ∧ Turned env d i vars c e e'

theorem exec_releaseCaught {tokenId : Uuid} {t : Token} (hx : e.instances.find? i = some x)
    (ht : x.tokens.find? tokenId = some t) (target : String) (vars : Variables) :
    exec (releaseCaught i tokenId target vars) e =
      (.ok { t with vars := vars, currentNode := target },
        (e.modifyInstance i fun y => { y with tokens := y.tokens.erase tokenId }).modifyInstance i
          fun y => { y with currentNode := target, state := runningUnlessParallel y.state }) := by
  rw [releaseCaught, exec_bind_ok (exec_takeToken hx ht)]
  rfl

theorem exec_conditionalTarget {target : String} {label node : String}
    (htarget : d.resolveNextTarget env node vars = .ok target) (e : Engine) :
    exec (conditionalTarget env d label node vars) e = (.ok target, e) := by
  rw [conditionalTarget, htarget]
  rfl

theorem takesTurn_of_find?_eq_none (hnone : e.pendingConditionalCatches.find? c.id = none) :
    TakesTurn env d i vars c e [] := by
  have hnot : ∀ c' ∈ e.pendingConditionalCatches, c'.id ≠ c.id := Table.find?_eq_none_iff.mp hnone
  have hout : c ∉ e.pendingConditionalCatches := fun hmem => hnot c hmem rfl
  refine ⟨e, ?_, rfl, fun x hx => ⟨x, hx, rfl, fun t ht _ => ht⟩, fun c' hid => ?_,
    fun c' hid => ?_⟩
  · rw [evaluateCatch, exec_bind_ok (exec_get e), hnone]
    split
    · cases c.lastResult <;> rfl
    · cases c.lastResult <;> rfl
  · exact iff_of_false (fun hmem => hnot c' hmem hid) fun h => hout h.1
  · simp [hout]

theorem takesTurn_of_not_rises (hmem : c ∈ e.pendingConditionalCatches)
    (hrises : c.rises env vars = false) : TakesTurn env d i vars c e [] := by
  have hfind := Table.find?_of_mem hmem
  have hown : ∀ c', c'.id = c.id → (c' ∈ e.pendingConditionalCatches ↔ c' = c) := fun c' hid =>
    ⟨fun h => Table.eq_of_key_eq h hmem hid, fun h => h ▸ hmem⟩
  have hsame (hlast : c.lastResult = c.isTrue env vars) : Turned env d i vars c e e := by
    refine ⟨rfl, fun x hx => ⟨x, hx, rfl, fun t ht _ => ht⟩, fun c' hid => ?_, fun c' hid => ?_⟩
    · rw [hown c' hid, ← hlast]
      simp [hmem, hrises]
    · simp [hrises]
  have hexec : exec (evaluateCatch env d i vars c) e =
      (.ok [], if c.lastResult = c.isTrue env vars then e
        else e.insertPending (.conditional { c with lastResult := false })) := by
    rw [evaluateCatch, exec_bind_ok (exec_get e), hfind]
    unfold PendingConditionalCatch.rises PendingConditionalCatch.isTrue at hrises
    unfold PendingConditionalCatch.isTrue
    cases hlast : c.lastResult <;> cases htrue : env.evaluateCondition c.condition vars
    case false.true => simp [hlast, htrue] at hrises
    all_goals simp only [Bool.false_eq_true, ↓reduceIte, reduceCtorEq]; rfl
  refine ⟨_, hexec, ?_⟩
  split
  next hlast => exact hsame hlast
  next hlast =>
    obtain ⟨hlast, htrue⟩ : c.lastResult = true ∧ c.isTrue env vars = false := by
      unfold PendingConditionalCatch.rises at hrises
      cases h : c.lastResult <;> cases h' : c.isTrue env vars <;> simp_all
    refine ⟨rfl, fun x hx => ⟨x, hx, rfl, fun t ht _ => ht⟩, fun c' hid => ?_, fun c' hid => ?_⟩
    · change c' ∈ e.pendingConditionalCatches.insert _ ↔ _
      rw [Table.mem_insert, htrue]
      simp [hmem, hrises, hid]
    · change c' ∈ e.pendingConditionalCatches.insert _ ↔ _
      rw [Table.mem_insert_of_ne]
      · simp [hrises]
      · exact hid

theorem exec_evaluateCatch_of_rises (hmem : c ∈ e.pendingConditionalCatches)
    (hrises : c.rises env vars = true) :
    exec (evaluateCatch env d i vars c) e = exec (fireCatch env d i vars c) e := by
  unfold PendingConditionalCatch.rises PendingConditionalCatch.isTrue at hrises
  rw [Bool.and_eq_true, Bool.not_eq_true'] at hrises
  rw [evaluateCatch, exec_bind_ok (exec_get e), Table.find?_of_mem hmem, if_pos hrises.1, hrises.2]

theorem mem_removed : c' ∈ (e.removePending .conditional c.id).pendingConditionalCatches ↔
    c' ∈ e.pendingConditionalCatches ∧ c'.id ≠ c.id := by
  have hholds : (e.removePending .conditional c.id).Holds (.conditional c') ↔ _ :=
    Engine.holds_removePending
  simpa [Engine.Holds, Pending.wait, PendingConditionalCatch.wait] using hholds

theorem released_host {tokenId : Uuid} {target : String} (hx : e.instances.find? i = some x) :
    ∃ x',
      ((e.modifyInstance i fun y => { y with tokens := y.tokens.erase tokenId }).modifyInstance i
        fun y => { y with
          currentNode := target
          state := runningUnlessParallel y.state }).instances.find? i = some x' ∧
      x'.definitionKey = x.definitionKey ∧ ∀ t, (x.tokens.find? t).isSome → t ≠ tokenId →
        (x'.tokens.find? t).isSome := by
  rw [Engine.find?_modifyInstance_self, Engine.find?_modifyInstance_self, hx]
  refine ⟨_, rfl, rfl, fun t ht hne => ?_⟩
  change ((x.tokens.erase tokenId).find? t).isSome
  rwa [Table.find?_erase_of_ne hne]

theorem turned_released {e₂ : Engine} {target : String} (hmem : c ∈ e.pendingConditionalCatches)
    (hrises : c.rises env vars = true) (honce : c.firesOnce d = true)
    (hagain : c.firesAgain d = false)
    (hdefinitions : e₂.definitions = e.definitions) (hinstances : e₂.instances = e.instances)
    (htable : ∀ c', c' ∈ e₂.pendingConditionalCatches ↔ c' ∈ e.pendingConditionalCatches ∧
      c'.id ≠ c.id ∧ ¬(c.interrupts d = true ∧ c'.instanceId = i ∧ c'.tokenId = c.tokenId)) :
    Turned env d i vars c e
      ((e₂.modifyInstance i fun y => { y with tokens := y.tokens.erase c.tokenId }).modifyInstance i
        fun y => { y with currentNode := target, state := runningUnlessParallel y.state }) := by
  refine ⟨hdefinitions, fun x hx => ?_, fun c' hid => ?_, fun c' hid => ?_⟩
  · rw [← hinstances] at hx
    obtain ⟨x', hx', hkey, htokens⟩ := @released_host i e₂ x c.tokenId target hx
    exact ⟨x', hx', hkey, fun t ht hne => htokens t ht (hne hmem hrises honce)⟩
  · refine iff_of_false (fun h => ((htable c').mp h).2.1 hid) fun h => ?_
    have hfires := h.2.2 hrises
    rw [hagain] at hfires
    cases hfires
  · refine (htable c').trans ?_
    simp [hmem, hrises, hid]

section Firing

variable {target activity condition : String} {t : Token}
  (hmem : c ∈ e.pendingConditionalCatches) (hrises : c.rises env vars = true)
  (hx : e.instances.find? i = some x) (ht : x.tokens.find? c.tokenId = some t)
  (htarget : d.resolveNextTarget env c.nodeId vars = .ok target)

include hmem hrises hx ht htarget

theorem takesTurn_intermediate
    (hnode : d.getNode c.nodeId = some (.conditionalCatchEvent condition)) :
    ∃ token, TakesTurn env d i vars c e [token] := by
  obtain ⟨hnot, honce, hagain⟩ := c.kinds_eq hnode
  unfold TakesTurn
  rw [exec_evaluateCatch_of_rises hmem hrises, fireCatch,
    exec_bind_ok (exec_removePending e _ _), hnode]
  dsimp only
  rw [exec_bind_ok (exec_conditionalTarget htarget _),
    exec_bind_ok (exec_releaseCaught (e := e.removePending .conditional c.id) hx ht _ _)]
  refine ⟨_, _, rfl, turned_released hmem hrises honce hagain rfl rfl fun c' => ?_⟩
  simp [mem_removed, hnot, BpmnElement.isInterruptingCondition]

theorem takesTurn_interrupting
    (hnode : d.getNode c.nodeId = some (.boundaryConditionalEvent activity condition true)) :
    ∃ token, TakesTurn env d i vars c e [token] := by
  obtain ⟨hinterrupts, honce, hagain⟩ := c.kinds_eq hnode
  unfold TakesTurn
  rw [exec_evaluateCatch_of_rises hmem hrises, fireCatch,
    exec_bind_ok (exec_removePending e _ _), hnode]
  dsimp only
  have hcancel (u : Engine) : ∃ u', exec (cancelPendingActivity i c.tokenId) u = (.ok (), u') ∧
      u'.definitions = u.definitions ∧ u'.instances = u.instances ∧
      u'.pendingConditionalCatches = u.pendingConditionalCatches := ⟨_, rfl, rfl, rfl, rfl⟩
  obtain ⟨u, hu, hdefinitions, hinstances, htable⟩ :=
    hcancel (withoutEvents i c.tokenId (e.removePending .conditional c.id))
  have hx₂ : u.instances.find? i = some x := by
    rw [hinstances]
    exact hx
  rw [exec_bind_ok (exec_clearWaits _ _ _), exec_bind_ok hu,
    exec_bind_ok (exec_conditionalTarget htarget _),
    exec_bind_ok (exec_releaseCaught hx₂ ht _ _)]
  refine ⟨_, _, rfl, turned_released hmem hrises honce hagain hdefinitions hinstances fun c' => ?_⟩
  have hholds :=
    @holds_withoutEvents (e.removePending .conditional c.id) i c.tokenId (.conditional c')
  rw [htable, hinterrupts]
  refine hholds.trans ?_
  change c' ∈ (e.removePending .conditional c.id).pendingConditionalCatches ∧ _ ↔ _
  rw [mem_removed, and_assoc]
  simp [Wait.IsEventOf, WaitKind.awaitsEvent, Pending.wait, PendingConditionalCatch.wait,
    BpmnElement.isInterruptingCondition]

theorem takesTurn_again
    (hnode : d.getNode c.nodeId = some (.boundaryConditionalEvent activity condition false)) :
    ∃ token, TakesTurn env d i vars c e [token] := by
  obtain ⟨hnot, -, hagain⟩ := c.kinds_eq hnode
  have htrue : c.isTrue env vars = true := by
    rw [PendingConditionalCatch.rises, Bool.and_eq_true] at hrises
    exact hrises.1
  unfold TakesTurn
  rw [exec_evaluateCatch_of_rises hmem hrises, fireCatch,
    exec_bind_ok (exec_removePending e _ _), hnode]
  dsimp only
  rw [exec_bind_ok (exec_conditionalTarget htarget _),
    exec_bind_ok (exec_cloneToken (e := e.removePending .conditional c.id) hx ht _ _)]
  refine ⟨_, _, rfl, rfl, fun x' hx' => ?_, fun c' hid => ?_, fun c' hid => ?_⟩
  · obtain rfl : x = x' := Option.some.inj (hx.symm.trans hx')
    refine ⟨_, (Engine.find?_modifyInstance_self _ _ _).trans (congrArg _ hx), rfl,
      fun t ht _ => ?_⟩
    exact Table.isSome_find?_insert _ ht
  · change c' ∈ (e.removePending .conditional c.id).pendingConditionalCatches.insert _ ↔ _
    rw [Table.mem_insert, mem_removed]
    simp [hmem, hid, hagain, htrue, BpmnElement.firesAgain]
  · change c' ∈ (e.removePending .conditional c.id).pendingConditionalCatches.insert _ ↔ _
    rw [Table.mem_insert_of_ne, mem_removed]
    · simp [hnot, hid, BpmnElement.isInterruptingCondition]
    · exact hid

end Firing

theorem takesTurn_dropped (hmem : c ∈ e.pendingConditionalCatches)
    (hrises : c.rises env vars = true)
    (hfires : c.fires d = false) : TakesTurn env d i vars c e [] := by
  obtain ⟨honce, hagain⟩ : c.firesOnce d = false ∧ c.firesAgain d = false := by
    simpa [PendingConditionalCatch.fires] using hfires
  have hnot : c.interrupts d = false := by
    unfold PendingConditionalCatch.firesOnce at honce
    unfold PendingConditionalCatch.interrupts
    cases hnode : d.getNode c.nodeId with
    | none => rfl
    | some element =>
      rw [hnode] at honce
      cases element <;> first | rfl | exact honce
  refine ⟨e.removePending .conditional c.id, ?_, rfl, fun x hx => ⟨x, hx, rfl, fun t ht _ => ht⟩,
    fun c' hid => ?_, fun c' hid => ?_⟩
  · rw [exec_evaluateCatch_of_rises hmem hrises, fireCatch, exec_bind_ok (exec_removePending e _ _)]
    unfold PendingConditionalCatch.firesOnce at honce
    unfold PendingConditionalCatch.firesAgain at hagain
    split
    next hnode => rw [hnode] at honce; cases honce
    next hnode => rw [hnode] at honce; cases honce
    next hnode => rw [hnode] at hagain; cases hagain
    · rfl
  · refine iff_of_false (fun h => (mem_removed.mp h).2 hid) fun h => ?_
    have hfires := h.2.2 hrises
    rw [hagain] at hfires
    cases hfires
  · rw [mem_removed]
    simp [hnot, hid]

/-- The turn of an event that can fire if it should. -/
theorem evaluateCatch_turned
    (hknown : c ∈ e.pendingConditionalCatches ∨ e.pendingConditionalCatches.find? c.id = none)
    (hx : e.instances.find? i = some x)
    (hflow : c.rises env vars = true → c.fires d = true →
      ∃ target, d.resolveNextTarget env c.nodeId vars = .ok target)
    (htoken : c ∈ e.pendingConditionalCatches → c.rises env vars = true → c.fires d = true →
      (x.tokens.find? c.tokenId).isSome) :
    ∃ tokens, TakesTurn env d i vars c e tokens ∧
      (c ∈ e.pendingConditionalCatches → (!tokens.isEmpty) = (c.rises env vars && c.fires d)) := by
  rcases hknown with hmem | hnone
  · cases hrises : c.rises env vars with
    | false => exact ⟨[], takesTurn_of_not_rises hmem hrises, fun _ => rfl⟩
    | true =>
      cases hfires : c.fires d with
      | false => exact ⟨[], takesTurn_dropped hmem hrises hfires, fun _ => rfl⟩
      | true =>
        obtain ⟨target, htarget⟩ := hflow hrises hfires
        obtain ⟨t, ht⟩ := Option.isSome_iff_exists.mp (htoken hmem hrises hfires)
        obtain ⟨token, hturns⟩ : ∃ token, TakesTurn env d i vars c e [token] := by
          unfold PendingConditionalCatch.fires PendingConditionalCatch.firesOnce
            PendingConditionalCatch.firesAgain at hfires
          cases hnode : d.getNode c.nodeId with
          | none => rw [hnode] at hfires; cases hfires
          | some element =>
            rw [hnode] at hfires
            cases element with
            | conditionalCatchEvent => exact takesTurn_intermediate hmem hrises hx ht htarget hnode
            | boundaryConditionalEvent activity condition cancel =>
              cases cancel with
              | true => exact takesTurn_interrupting hmem hrises hx ht htarget hnode
              | false => exact takesTurn_again hmem hrises hx ht htarget hnode
            | _ => cases hfires
        exact ⟨[token], hturns, fun _ => rfl⟩
  · refine ⟨[], takesTurn_of_find?_eq_none hnone, fun hmem => ?_⟩
    exact absurd (Table.find?_of_mem hmem) (by rw [hnone]; nofun)

/-! ## One round -/

/-- The turns of the events that are still registered when their turn comes, with whether they fire.
The last one may be the turn at which the round fails. -/
def turns (env : Env) (d : ProcessDefinition) (i : Uuid) (vars : Variables) :
    List PendingConditionalCatch → Engine → List (PendingConditionalCatch × Bool)
  | [], _ => []
  | c :: rest, e =>
    match exec (evaluateCatch env d i vars c) e with
    | (.ok tokens, e') =>
      (if e.pendingConditionalCatches.contains c.id then [(c, !tokens.isEmpty)] else []) ++
        turns env d i vars rest e'
    | (.error _, _) => [(c, false)]

/-- The events of a snapshot are as they were or withdrawn, and those that are due can fire. -/
structure Ready (env : Env) (d : ProcessDefinition) (i : Uuid) (vars : Variables)
    (catches : List PendingConditionalCatch) (e : Engine) : Prop where
  ids : (catches.map (·.id)).Nodup
  here : ∀ c ∈ catches, c.instanceId = i
  known : ∀ c ∈ catches,
    c ∈ e.pendingConditionalCatches ∨ e.pendingConditionalCatches.find? c.id = none
  flows : ∀ c ∈ catches, c.rises env vars → c.fires d →
    ∃ target, d.resolveNextTarget env c.nodeId vars = .ok target
  alone : ∀ c ∈ catches, c.rises env vars → c.firesOnce d → ¬ c.interrupts d →
    ∀ c' ∈ catches, c'.tokenId = c.tokenId → c' = c
  host : ∃ x, e.instances.find? i = some x ∧ ∀ c ∈ catches, c ∈ e.pendingConditionalCatches →
    c.rises env vars → c.fires d → (x.tokens.find? c.tokenId).isSome

variable {catches rest : List PendingConditionalCatch} {tokens : List Token} {e₁ : Engine}

theorem Ready.id_ne (h : Ready env d i vars (c :: rest) e) (hmem : c' ∈ rest) : c'.id ≠ c.id := by
  have hids := h.ids
  rw [List.map_cons, List.nodup_cons] at hids
  exact fun heq => hids.1 (heq ▸ List.mem_map_of_mem hmem)

/-- The other events of the snapshot are left alone by a turn, or withdrawn. -/
theorem Ready.turn (h : Ready env d i vars (c :: rest) e) (ht : Turned env d i vars c e e') :
    Ready env d i vars rest e' where
  ids := (List.nodup_cons.mp h.ids).2
  here c' hc' := h.here c' (List.mem_cons_of_mem _ hc')
  known c' hc' := by
    have hne := h.id_ne hc'
    by_cases hmem : c' ∈ e'.pendingConditionalCatches
    · exact .inl hmem
    · refine .inr (Table.find?_eq_none_iff.mpr fun c'' hc'' hid => hmem ?_)
      have hold := ((ht.others c'' (hid ▸ hne)).mp hc'').1
      rcases h.known c' (List.mem_cons_of_mem _ hc') with hknown | hnone
      · exact Table.eq_of_key_eq hold hknown hid ▸ hc''
      · exact absurd hid (Table.find?_eq_none_iff.mp hnone c'' hold)
  flows c' hc' := h.flows c' (List.mem_cons_of_mem _ hc')
  alone c' hc' hrises honce hnot c'' hc'' :=
    h.alone c' (List.mem_cons_of_mem _ hc') hrises honce hnot c'' (List.mem_cons_of_mem _ hc'')
  host := by
    obtain ⟨x, hx, htokens⟩ := h.host
    obtain ⟨x', hx', -, hkept⟩ := ht.host x hx
    refine ⟨x', hx', fun c' hc' hmem hrises hfires => ?_⟩
    obtain ⟨hold, hspared⟩ := (ht.others c' (h.id_ne hc')).mp hmem
    refine hkept c'.tokenId (htokens c' (List.mem_cons_of_mem _ hc') hold hrises hfires) ?_
    intro hc hrises' honce htoken
    by_cases hinterrupts : c.interrupts d = true
    · exact hspared ⟨hc, hrises', hinterrupts, h.here c' (List.mem_cons_of_mem _ hc'), htoken⟩
    · have heq := h.alone c List.mem_cons_self hrises' honce hinterrupts c'
        (List.mem_cons_of_mem _ hc') htoken
      exact h.id_ne hc' (congrArg PendingConditionalCatch.id heq)

/-- What a round comes to for one event of the snapshot. -/
inductive RoundOutcome (env : Env) (d : ProcessDefinition) (vars : Variables) (e : Engine)
    (turns : List (PendingConditionalCatch × Bool)) (c : PendingConditionalCatch) : Prop where
  | withdrawn (hturn : turns.filter (·.1.id == c.id) = [])
      (hafter : e.pendingConditionalCatches.find? c.id = none)
  | evaluated (hturn : turns.filter (·.1.id == c.id) = [(c, c.rises env vars && c.fires d)])
      (hafter : ∀ c' ∈ e.pendingConditionalCatches, c'.id = c.id →
        c' = { c with lastResult := c.isTrue env vars } ∧ (c.rises env vars → c.firesAgain d))

/-- What a round comes to. -/
structure Rounded (env : Env) (d : ProcessDefinition) (i : Uuid) (vars : Variables)
    (catches : List PendingConditionalCatch) (e e' : Engine) : Prop where
  definitions : e'.definitions = e.definitions
  host : ∀ x, e.instances.find? i = some x →
    ∃ x', e'.instances.find? i = some x' ∧ x'.definitionKey = x.definitionKey
  outside : ∀ c' ∈ e'.pendingConditionalCatches, (∀ c ∈ catches, c'.id ≠ c.id) →
    c' ∈ e.pendingConditionalCatches
  mem : ∀ t ∈ turns env d i vars catches e, t.1 ∈ catches ∧ t.1 ∈ e.pendingConditionalCatches
  gone : ∀ c ∈ catches, e.pendingConditionalCatches.find? c.id = none →
    e'.pendingConditionalCatches.find? c.id = none
  each : ∀ c ∈ catches, RoundOutcome env d vars e' (turns env d i vars catches e) c
  spared : (turns env d i vars catches e).Pairwise fun t t' =>
    ¬(t.2 = true ∧ t.1.interrupts d = true ∧ t'.2 = true ∧ t'.1.tokenId = t.1.tokenId)

theorem turns_cons (hexec : exec (evaluateCatch env d i vars c) e = (.ok tokens, e')) :
    turns env d i vars (c :: rest) e =
      (if e.pendingConditionalCatches.contains c.id then [(c, !tokens.isEmpty)] else []) ++
        turns env d i vars rest e' := by
  rw [turns, hexec]

/-- The turns are those behind the first event, and before them the one of the first event itself
if it is registered. -/
theorem Ready.turns_cons_cases (h : Ready env d i vars (c :: rest) e)
    (hexec : exec (evaluateCatch env d i vars c) e = (.ok tokens, e'))
    (hfired : c ∈ e.pendingConditionalCatches →
      (!tokens.isEmpty) = (c.rises env vars && c.fires d)) :
    c ∈ e.pendingConditionalCatches ∧ turns env d i vars (c :: rest) e =
        (c, c.rises env vars && c.fires d) :: turns env d i vars rest e' ∨
      e.pendingConditionalCatches.find? c.id = none ∧
        turns env d i vars (c :: rest) e = turns env d i vars rest e' := by
  rw [turns_cons hexec, Table.contains]
  rcases h.known c List.mem_cons_self with hmem | hnone
  · rw [Table.find?_of_mem hmem, hfired hmem]
    exact .inl ⟨hmem, rfl⟩
  · rw [hnone]
    exact .inr ⟨rfl, rfl⟩

theorem Rounded.filter_eq_nil (hround : Rounded env d i vars rest e₁ e')
    (hne : ∀ c' ∈ rest, c'.id ≠ c.id) : (turns env d i vars rest e₁).filter (·.1.id == c.id) = [] :=
  List.filter_eq_nil_iff.mpr fun t ht => by simpa using hne t.1 (hround.mem t ht).1

theorem Rounded.cons (h : Ready env d i vars (c :: rest) e)
    (hexec : exec (evaluateCatch env d i vars c) e = (.ok tokens, e₁))
    (hfired : c ∈ e.pendingConditionalCatches → (!tokens.isEmpty) = (c.rises env vars && c.fires d))
    (hturned : Turned env d i vars c e e₁) (hround : Rounded env d i vars rest e₁ e') :
    Rounded env d i vars (c :: rest) e e' := by
  have hne {c' : PendingConditionalCatch} (hc' : c' ∈ rest) : c'.id ≠ c.id := h.id_ne hc'
  -- An entry with the identifier of the first event can only be what its turn has left.
  have hown {c' : PendingConditionalCatch} (hc' : c' ∈ e'.pendingConditionalCatches)
      (hid : c'.id = c.id) : c ∈ e.pendingConditionalCatches ∧
        c' = { c with lastResult := c.isTrue env vars } ∧ (c.rises env vars → c.firesAgain d) :=
    (hturned.own c' hid).mp (hround.outside c' hc' fun c'' hc'' heq => hne hc'' (heq ▸ hid))
  have hcases := h.turns_cons_cases hexec hfired
  have hgone (hnone : e.pendingConditionalCatches.find? c.id = none) :
      e'.pendingConditionalCatches.find? c.id = none :=
    Table.find?_eq_none_iff.mpr fun c' hc' hid =>
      Table.find?_eq_none_iff.mp hnone c (hown hc' hid).1 rfl
  refine ⟨hround.definitions.trans hturned.definitions, fun x hx => ?_, fun c' hc' hids => ?_,
    fun t ht => ?_, fun c' hc' hnone => ?_, fun c' hc' => ?_, ?_⟩
  · obtain ⟨x₁, hx₁, hkey₁, -⟩ := hturned.host x hx
    obtain ⟨x', hx', hkey⟩ := hround.host x₁ hx₁
    exact ⟨x', hx', hkey.trans hkey₁⟩
  · have hold := hround.outside c' hc' fun c'' hc'' => hids c'' (List.mem_cons_of_mem _ hc'')
    exact ((hturned.others c' (hids c List.mem_cons_self)).mp hold).1
  · have hrest (hmem : t ∈ turns env d i vars rest e₁) :
        t.1 ∈ c :: rest ∧ t.1 ∈ e.pendingConditionalCatches := by
      obtain ⟨hin, hold⟩ := hround.mem t hmem
      exact ⟨List.mem_cons_of_mem _ hin, ((hturned.others t.1 (hne hin)).mp hold).1⟩
    rcases hcases with ⟨hmem, hturns⟩ | ⟨-, hturns⟩ <;> rw [hturns] at ht
    · rcases List.mem_cons.mp ht with rfl | ht
      · exact ⟨List.mem_cons_self, hmem⟩
      · exact hrest ht
    · exact hrest ht
  · rcases List.mem_cons.mp hc' with rfl | hc'
    · exact hgone hnone
    · refine hround.gone c' hc' (Table.find?_eq_none_iff.mpr fun c'' hc'' hid => ?_)
      have hold := ((hturned.others c'' (hid ▸ hne hc')).mp hc'').1
      exact Table.find?_eq_none_iff.mp hnone c'' hold hid
  · rcases List.mem_cons.mp hc' with rfl | hc'
    · rcases hcases with ⟨hmem, hturns⟩ | ⟨hnone, hturns⟩ <;> rw [hturns]
      · refine .evaluated ?_ fun c'' hc'' hid => (hown hc'' hid).2
        rw [List.filter_cons_of_pos (by simp), hround.filter_eq_nil fun c'' hc'' => hne hc'']
      · exact .withdrawn (hround.filter_eq_nil fun c'' hc'' => hne hc'') (hgone hnone)
    · have hfilter : (turns env d i vars (c :: rest) e).filter (·.1.id == c'.id) =
          (turns env d i vars rest e₁).filter (·.1.id == c'.id) := by
        rcases hcases with ⟨-, hturns⟩ | ⟨-, hturns⟩ <;> rw [hturns]
        rw [List.filter_cons_of_neg (by simpa using (hne hc').symm)]
      cases hround.each c' hc' with
      | withdrawn hturn hafter => exact .withdrawn (hfilter.trans hturn) hafter
      | evaluated hturn hafter => exact .evaluated (hfilter.trans hturn) hafter
  · rcases hcases with ⟨hmem, hturns⟩ | ⟨-, hturns⟩ <;> rw [hturns]
    · refine List.pairwise_cons.mpr ⟨fun t ht => ?_, hround.spared⟩
      rintro ⟨hfires, hinterrupts, -, htoken⟩
      obtain ⟨hin, hold⟩ := hround.mem t ht
      rw [Bool.and_eq_true] at hfires
      exact ((hturned.others t.1 (hne hin)).mp hold).2
        ⟨hmem, hfires.1, hinterrupts, h.here t.1 (List.mem_cons_of_mem _ hin), htoken⟩
    · exact hround.spared

/-- If all events that are due can fire, a round succeeds, and its outcome is known. -/
theorem evaluateCatches_rounded (h : Ready env d i vars catches e) :
    ∃ tokens e', exec (evaluateCatches env d i vars catches) e = (.ok tokens, e') ∧
      Rounded env d i vars catches e e' := by
  induction catches generalizing e with
  | nil =>
    exact ⟨[], e, rfl, rfl, fun x hx => ⟨x, hx, rfl⟩, fun c' hc' _ => hc', nofun, nofun, nofun,
      .nil⟩
  | cons c rest ih =>
    obtain ⟨x, hx, htokens⟩ := h.host
    obtain ⟨tokens, ⟨e₁, hexec, hturned⟩, hfired⟩ := evaluateCatch_turned
      (h.known c List.mem_cons_self) hx (h.flows c List.mem_cons_self)
      (htokens c List.mem_cons_self)
    obtain ⟨others, e', hrest, hround⟩ := ih (h.turn hturned)
    refine ⟨tokens ++ others, e', ?_, .cons h hexec hfired hturned hround⟩
    rw [evaluateCatches, exec_bind_ok hexec, exec_bind_ok hrest]
    rfl

end Eng

/-! ## Evaluations -/

namespace Engine

variable {env : Env} {i k : Uuid} {e e' : Engine} {x : ProcessInstance} {d : ProcessDefinition}
  {c : PendingConditionalCatch} {element : BpmnElement}

def conditions (env : Env) (i : Uuid) (e : Engine) : List PendingConditionalCatch :=
  env.visit e.nextUuid (e.pendingConditionalCatches.retain fun c => c.instanceId == i).entries

/-- The conditions of an instance are not evaluated while it is suspended or when it has ended. -/
def evaluates (i : Uuid) (e : Engine) : Option (ProcessInstance × ProcessDefinition) :=
  match e.instances.find? i with
  | none => none
  | some x =>
    if x.state.isSuspended || x.state.isTerminal then none
    else (e.definitions.find? x.definitionKey).map fun d => (x, d)

/-- The turns of a round. If the round fails, no token is set free. -/
def round (env : Env) (i : Uuid) (e : Engine) : List (PendingConditionalCatch × Bool) :=
  match e.evaluates i with
  | none => []
  | some (x, d) =>
    let turns := Eng.turns env d i x.vars (e.conditions env i) e
    match (exec (Eng.fireConditionalCatches env i) e).1 with
    | .ok _ => turns
    | .error _ => turns.map fun turn => (turn.1, false)

/-- The entry of a conditional event of an instance, with the event itself. -/
def conditionalEvent (i k : Uuid) (e : Engine) : Option (PendingConditionalCatch × BpmnElement) :=
  match e.pendingConditionalCatches.find? k, e.instances.find? i with
  | some c, some x =>
    if c.instanceId = i then
      ((e.definitions.find? x.definitionKey).bind fun d => d.getNode c.nodeId).map fun element =>
        (c, element)
    else none
  | _, _ => none

/-- The evaluation of an event in a round: whether its condition is true, and whether it fires.
There is none if the event is withdrawn before its turn. -/
def evaluation (env : Env) (i k : Uuid) (e : Engine) : List (Bool × Bool) :=
  match e.evaluates i, e.conditionalEvent i k with
  | some (x, _), some _ =>
    ((e.round env i).filter (·.1.id == k)).map fun turn => (turn.1.isTrue env x.vars, turn.2)
  | _, _ => []

/-- Every event that is due can fire: it has a flow to leave by, and its token is in the token
table. If the event is an intermediate one, no other event waits with its token. -/
def Unhindered (env : Env) (i : Uuid) (e : Engine) : Prop :=
  ∀ x d, e.evaluates i = some (x, d) → ∀ c ∈ e.pendingConditionalCatches, c.instanceId = i →
    c.rises env x.vars → c.fires d →
    (∃ target, d.resolveNextTarget env c.nodeId x.vars = .ok target) ∧
    (x.tokens.find? c.tokenId).isSome ∧
    (c.firesOnce d → ¬ c.interrupts d → ∀ c' ∈ e.pendingConditionalCatches, c'.instanceId = i →
      c'.tokenId = c.tokenId → c' = c)

theorem isOk_iff {α β : Type} {r : Except α β} : r.isOk = true ↔ ∃ b, r = .ok b := by
  cases r with
  | error => simp [Except.isOk, Except.toBool]
  | ok => simp [Except.isOk, Except.toBool]

instance (env : Env) (i : Uuid) (e : Engine) : Decidable (e.Unhindered env i) :=
  match he : e.evaluates i with
  | none => .isTrue fun x d h => by
    rw [he] at h
    cases h
  | some (x, d) =>
    decidable_of_iff (∀ c ∈ e.pendingConditionalCatches.entries, c.instanceId = i →
      c.rises env x.vars → c.fires d →
      (d.resolveNextTarget env c.nodeId x.vars).isOk ∧ (x.tokens.find? c.tokenId).isSome ∧
      (c.firesOnce d → ¬ c.interrupts d → ∀ c' ∈ e.pendingConditionalCatches.entries,
        c'.instanceId = i → c'.tokenId = c.tokenId → c' = c)) <| by
      simp only [Unhindered, he, Option.some.injEq, Prod.mk.injEq, and_imp, isOk_iff]
      constructor
      · rintro h x d rfl rfl
        exact h
      · exact fun h => h x d rfl rfl

theorem mem_conditions :
    c ∈ e.conditions env i ↔ c ∈ e.pendingConditionalCatches ∧ c.instanceId = i := by
  rw [conditions, Env.mem_visit, ← Table.mem_def, Table.mem_retain, beq_iff_eq]

theorem evaluates_eq_some (h : e.evaluates i = some (x, d)) :
    e.instances.find? i = some x ∧ (x.state.isSuspended || x.state.isTerminal) = false ∧
      e.definitions.find? x.definitionKey = some d := by
  unfold evaluates at h
  split at h
  · cases h
  next y hy =>
    split at h
    · cases h
    next hactive =>
      obtain ⟨d', hd', heq⟩ := Option.map_eq_some_iff.mp h
      cases heq
      exact ⟨hy, by simpa using hactive, hd'⟩

theorem exec_fireConditionalCatches (h : e.evaluates i = some (x, d)) :
    exec (Eng.fireConditionalCatches env i) e =
      exec (Eng.evaluateCatches env d i x.vars (e.conditions env i)) e := by
  obtain ⟨hx, hactive, hd⟩ := evaluates_eq_some h
  rw [Eng.fireConditionalCatches, exec_bind_ok (exec_get e)]
  rw [← conditions]
  cases hcatches : e.conditions env i with
  | nil => rfl
  | cons =>
    rw [hx]
    dsimp only
    rw [hactive, if_neg Bool.false_ne_true, hd]

theorem exec_fireConditionalCatches_none (h : e.evaluates i = none) :
    exec (Eng.fireConditionalCatches env i) e = (.ok [], e) := by
  unfold evaluates at h
  rw [Eng.fireConditionalCatches, exec_bind_ok (exec_get e)]
  rw [← conditions]
  cases e.conditions env i with
  | nil => rfl
  | cons =>
    cases hx : e.instances.find? i with
    | none => rfl
    | some x =>
      rw [hx] at h
      dsimp only at h ⊢
      by_cases hactive : (x.state.isSuspended || x.state.isTerminal) = true
      · rw [if_pos hactive]
        rfl
      · rw [if_neg hactive, Option.map_eq_none_iff] at h
        rw [if_neg hactive, h]
        rfl

theorem Unhindered.ready (h : e.Unhindered env i) (he : e.evaluates i = some (x, d)) :
    Eng.Ready env d i x.vars (e.conditions env i) e where
  ids := by
    have hperm := (env.visit_perm e.nextUuid
      (e.pendingConditionalCatches.retain fun c => c.instanceId == i).entries).map (·.id)
    exact hperm.nodup_iff.mpr (Table.keysNodup _)
  here c hc := (mem_conditions.mp hc).2
  known c hc := .inl (mem_conditions.mp hc).1
  flows c hc hrises hfires :=
    (h x d he c (mem_conditions.mp hc).1 (mem_conditions.mp hc).2 hrises hfires).1
  alone c hc hrises honce hnot c' hc' := by
    obtain ⟨hmem, hi⟩ := mem_conditions.mp hc
    have hfires : c.fires d = true := by rw [PendingConditionalCatch.fires, honce]; rfl
    exact (h x d he c hmem hi hrises hfires).2.2 honce hnot c' (mem_conditions.mp hc').1
      (mem_conditions.mp hc').2
  host := ⟨x, (evaluates_eq_some he).1, fun c hc hmem hrises hfires =>
    (h x d he c hmem (mem_conditions.mp hc).2 hrises hfires).2.1⟩

theorem conditionalEvent_eq_some : e.conditionalEvent i k = some (c, element) ↔
      c ∈ e.pendingConditionalCatches ∧ c.id = k ∧ c.instanceId = i ∧
        ∃ x d, e.instances.find? i = some x ∧ e.definitions.find? x.definitionKey = some d ∧
          d.getNode c.nodeId = some element := by
  unfold conditionalEvent
  constructor
  · intro h
    split at h
    next c' x hc hx =>
      split at h
      next hi =>
        obtain ⟨element', helement, heq⟩ := Option.map_eq_some_iff.mp h
        cases heq
        obtain ⟨d, hd, hnode⟩ := Option.bind_eq_some_iff.mp helement
        exact ⟨Table.mem_of_find? hc, Table.key_of_find? hc, hi, x, d, hx, hd, hnode⟩
      · cases h
    · cases h
  · rintro ⟨hmem, rfl, hi, x, d, hx, hd, hnode⟩
    rw [Table.find?_of_mem hmem, hx]
    dsimp only
    rw [if_pos hi, hd]
    simp [hnode]

theorem Unhindered.rounded (h : e.Unhindered env i) (he : e.evaluates i = some (x, d)) :
    ∃ e', (exec (Eng.fireConditionalCatches env i) e).2 = e' ∧
      e.round env i = Eng.turns env d i x.vars (e.conditions env i) e ∧
      Eng.Rounded env d i x.vars (e.conditions env i) e e' := by
  obtain ⟨tokens, e', hexec, hround⟩ := Eng.evaluateCatches_rounded (h.ready he)
  rw [← exec_fireConditionalCatches he] at hexec
  refine ⟨e', by rw [hexec], ?_, hround⟩
  rw [round, he]
  dsimp only
  rw [hexec]

theorem evaluation_eq (he : e.evaluates i = some (x, d))
    (hc : e.conditionalEvent i c.id = some (c, element))
    {turns : List (PendingConditionalCatch × Bool)}
    (hturns : (e.round env i).filter (·.1.id == c.id) = turns) :
    e.evaluation env i c.id = turns.map fun turn => (turn.1.isTrue env x.vars, turn.2) := by
  rw [evaluation, he, hc]
  dsimp only
  rw [hturns]

/-- An event is not evaluated, or evaluated once. -/
theorem Unhindered.evaluation_cases (h : e.Unhindered env i) :
    e.evaluation env i k = [] ∨ ∃ c element vars, ∃ d : ProcessDefinition,
      e.conditionalEvent i k = some (c, element) ∧ d.getNode c.nodeId = some element ∧
      e.evaluation env i k = [(c.isTrue env vars, c.rises env vars && c.fires d)] := by
  cases he : e.evaluates i with
  | none =>
    left
    rw [evaluation, he]
  | some evaluated =>
    obtain ⟨x, d⟩ := evaluated
    cases hc : e.conditionalEvent i k with
    | none =>
      left
      rw [evaluation, he, hc]
    | some found =>
      obtain ⟨c, element⟩ := found
      obtain ⟨hmem, rfl, hi, x', d', hx', hd', hnode⟩ := conditionalEvent_eq_some.mp hc
      obtain ⟨hx, -, hd⟩ := evaluates_eq_some he
      obtain rfl : x = x' := Option.some.inj (hx.symm.trans hx')
      obtain rfl : d = d' := Option.some.inj (hd.symm.trans hd')
      obtain ⟨e', -, hturns, hround⟩ := h.rounded he
      cases hround.each c (mem_conditions.mpr ⟨hmem, hi⟩) with
      | withdrawn hturn => exact .inl (evaluation_eq he hc (hturns ▸ hturn))
      | evaluated hturn =>
        exact .inr ⟨c, element, x.vars, d, rfl, hnode, evaluation_eq he hc (hturns ▸ hturn)⟩

/-- An event that is there after a round was there before. It was not evaluated, or its own turn
has left it. -/
theorem Unhindered.conditionalEvent_after {c' : PendingConditionalCatch} (h : e.Unhindered env i)
    (hafter : (exec (Eng.fireConditionalCatches env i) e).2.conditionalEvent i k =
      some (c', element)) :
    ∃ c, e.conditionalEvent i k = some (c, element) ∧
      (e.evaluation env i k = [] ∧ c' = c ∨
        ∃ vars, ∃ d : ProcessDefinition, d.getNode c.nodeId = some element ∧
          c' = { c with lastResult := c.isTrue env vars } ∧
          (c.rises env vars → c.firesAgain d) ∧
          e.evaluation env i k = [(c.isTrue env vars, c.rises env vars && c.fires d)]) := by
  cases he : e.evaluates i with
  | none =>
    rw [exec_fireConditionalCatches_none he] at hafter
    refine ⟨c', hafter, .inl ⟨?_, rfl⟩⟩
    rw [evaluation, he]
  | some evaluated =>
    obtain ⟨x, d⟩ := evaluated
    obtain ⟨hx, -, hd⟩ := evaluates_eq_some he
    obtain ⟨e', he', hturns, hround⟩ := h.rounded he
    rw [he', conditionalEvent_eq_some] at hafter
    obtain ⟨hmem, rfl, hi, x', d', hx', hd', hnode⟩ := hafter
    obtain ⟨y, hy, hkey⟩ := hround.host x hx
    obtain rfl : y = x' := Option.some.inj (hy.symm.trans hx')
    rw [hround.definitions, hkey, hd] at hd'
    cases hd'
    obtain ⟨c, hc, hid⟩ : ∃ c ∈ e.conditions env i, c'.id = c.id := by
      by_contra hnone
      have hold := hround.outside c' hmem fun c hc hid => hnone ⟨c, hc, hid⟩
      exact hnone ⟨c', mem_conditions.mpr ⟨hold, hi⟩, rfl⟩
    cases hround.each c hc with
    | withdrawn _ hgone => exact absurd hid (Table.find?_eq_none_iff.mp hgone c' hmem)
    | evaluated hturn hleft =>
      obtain ⟨rfl, hagain⟩ := hleft c' hmem hid
      have hevent : e.conditionalEvent i c.id = some (c, element) :=
        conditionalEvent_eq_some.mpr ⟨(mem_conditions.mp hc).1, rfl, hi, x, d, hx, hd, hnode⟩
      exact ⟨c, hevent, .inr ⟨x.vars, d, hnode, rfl, hagain,
        evaluation_eq he hevent (hturns ▸ hturn)⟩⟩

end Engine

/-! ## Any sequence of rounds -/

/-- A record of evaluations in which an event fires whenever its condition is true and was not
true before. -/
inductive EdgeTriggered : List (Bool × Bool) → Prop where
  | nil : EdgeTriggered []
  | concat {evals : List (Bool × Bool)} (h : EdgeTriggered evals) (now : Bool) :
      EdgeTriggered (evals ++ [(now, now && !evals.getLast?.any (·.1))])

/-- A record of evaluations in which an event fires when its condition is true for the first
time. -/
inductive FiresFirst : List (Bool × Bool) → Prop where
  | nil : FiresFirst []
  | concat {evals : List (Bool × Bool)} (h : FiresFirst evals) (now : Bool) :
      FiresFirst (evals ++ [(now, now && !evals.any (·.1))])

/-- What can happen to a waiting conditional event: a round, or anything else, given by the state
it leads to. -/
inductive ConditionMove where
  | round
  | other (e : Engine)

def ConditionMove.Unhindered (env : Env) (i : Uuid) (e : Engine) : ConditionMove → Prop
  | .round => e.Unhindered env i
  | .other _ => True

instance (env : Env) (i : Uuid) (e : Engine) :
    (move : ConditionMove) → Decidable (move.Unhindered env i e)
  | .round => inferInstanceAs (Decidable (e.Unhindered env i))
  | .other _ => inferInstanceAs (Decidable True)

def Engine.memory (i k : Uuid) (e : Engine) : Option (Bool × Bool × Bool) :=
  (e.conditionalEvent i k).map fun event =>
    (event.1.lastResult, event.2.firesOnce, event.2.firesAgain)

/-- The evaluations of an event are recorded. What happens between the rounds may withdraw the
event or move it to another one of its kind, but leaves what it remembers. -/
def conditionStep (env : Env) (i k : Uuid) (s : Engine × List (Bool × Bool)) :
    ConditionMove → Option (Engine × List (Bool × Bool))
  | .round =>
    some ((exec (Eng.fireConditionalCatches env i) s.1).2, s.2 ++ s.1.evaluation env i k)
  | .other e =>
    if e.memory i k = none ∨ e.memory i k = s.1.memory i k then some (e, s.2) else none

/-- What the record says about the entry of the event. -/
structure Recorded (i k : Uuid) (element : BpmnElement) (s : Engine × List (Bool × Bool)) :
    Prop where
  law : if element.firesOnce then FiresFirst s.2 else EdgeTriggered s.2
  memory : ∀ memory, s.1.memory i k = some memory →
    memory = (s.2.getLast?.any (·.1), element.firesOnce, element.firesAgain) ∧
      (element.firesOnce → s.2.any (·.1) = false)

variable {element : BpmnElement} {s : Engine × List (Bool × Bool)} {c : PendingConditionalCatch}
  {evals : List (Bool × Bool)}

theorem PendingConditionalCatch.fires_eq {d : ProcessDefinition}
    (h : d.getNode c.nodeId = some element) :
    c.fires d = (element.firesOnce || element.firesAgain) := by
  rw [fires, (kinds_eq h).2.1, (kinds_eq h).2.2]

theorem BpmnElement.firesAgain_of_firesOnce (h : element.firesOnce = true) :
    element.firesAgain = false := by
  cases element with
  | boundaryConditionalEvent activity condition cancel =>
    cases cancel with
    | true => rfl
    | false => cases h
  | _ => rfl

theorem getLast?_any_eq_false (h : evals.any (·.1) = false) : evals.getLast?.any (·.1) = false := by
  cases hlast : evals.getLast? with
  | none => rfl
  | some v => simpa using List.any_eq_false.mp h v (List.mem_of_getLast? hlast)

theorem Recorded.entry {i k : Uuid} {element' : BpmnElement} (h : Recorded i k element s)
    (hc : s.1.conditionalEvent i k = some (c, element')) :
    c.lastResult = s.2.getLast?.any (·.1) ∧ element'.firesOnce = element.firesOnce ∧
      element'.firesAgain = element.firesAgain ∧ (element.firesOnce → s.2.any (·.1) = false) := by
  have hmemory : s.1.memory i k = some (c.lastResult, element'.firesOnce, element'.firesAgain) := by
    rw [Engine.memory, hc]
    rfl
  obtain ⟨heq, hfalse⟩ := h.memory _ hmemory
  simp only [Prod.mk.injEq] at heq
  exact ⟨heq.1, heq.2.1, heq.2.2, hfalse⟩

theorem Recorded.round {env : Env} {i k : Uuid} (h : Recorded i k element s)
    (hkind : element.firesOnce = true ∨ element.firesAgain = true) (hround : s.1.Unhindered env i) :
    Recorded i k element ((exec (Eng.fireConditionalCatches env i) s.1).2,
      s.2 ++ s.1.evaluation env i k) := by
  obtain ⟨e, evals⟩ := s
  dsimp only at hround ⊢
  rcases hround.evaluation_cases (k := k) with hnone | ⟨c, element', vars, d, hc, hnode, heval⟩
  · rw [hnone, List.append_nil]
    refine ⟨h.law, fun memory hmemory => ?_⟩
    obtain ⟨⟨c', element'⟩, hafter, rfl⟩ := Option.map_eq_some_iff.mp hmemory
    obtain ⟨c, hc, ⟨-, rfl⟩ | ⟨vars, d, -, -, -, heval⟩⟩ := hround.conditionalEvent_after hafter
    · refine h.memory _ ?_
      rw [Engine.memory, hc]
      rfl
    · rw [hnone] at heval
      cases heval
  · obtain ⟨hlast, honce', hagain', hfalse⟩ := h.entry hc
    dsimp only at hlast hfalse
    have hfires : c.fires d = true := by
      rw [PendingConditionalCatch.fires_eq hnode, honce', hagain', Bool.or_eq_true]
      exact hkind
    have hrises : (c.rises env vars && c.fires d) =
        (c.isTrue env vars && !evals.getLast?.any (·.1)) := by
      rw [hfires, Bool.and_true, PendingConditionalCatch.rises, hlast]
    rw [heval]
    refine ⟨?_, fun memory hmemory => ?_⟩
    · have hlaw := h.law
      split
      next honce =>
        rw [if_pos honce] at hlaw
        rw [hrises, getLast?_any_eq_false (hfalse honce), ← hfalse honce]
        exact .concat hlaw _
      next honce =>
        rw [if_neg honce] at hlaw
        rw [hrises]
        exact .concat hlaw _
    · obtain ⟨⟨c', element''⟩, hafter, rfl⟩ := Option.map_eq_some_iff.mp hmemory
      obtain ⟨c₁, hc₁, hleft⟩ := hround.conditionalEvent_after hafter
      rw [hc] at hc₁
      cases hc₁
      rcases hleft with ⟨hnone, -⟩ | ⟨vars', d', hnode', rfl, hagain, heval'⟩
      · rw [hnone] at heval
        cases heval
      · have htrue : c.isTrue env vars' = c.isTrue env vars := by
          rw [heval] at heval'
          injection heval' with hpair
          exact (Prod.mk.inj hpair).1.symm
        refine ⟨by simp [htrue, honce', hagain'], fun honce => ?_⟩
        -- An event of this kind that rises does not stay, so the condition was false again.
        have hnow : c.isTrue env vars = false := by
          by_contra hnow
          have hup : c.rises env vars' = true := by
            rw [PendingConditionalCatch.rises, htrue, hlast, getLast?_any_eq_false (hfalse honce)]
            simpa using hnow
          have hstays := hagain hup
          rw [PendingConditionalCatch.firesAgain, hnode', Option.any_some, hagain',
            BpmnElement.firesAgain_of_firesOnce honce] at hstays
          cases hstays
        simp [hfalse honce, hnow]

/-- From its registration on, and whatever happens between the rounds, a non-interrupting event
fires in every round in which its condition is true and was not true in the round before, and
any other event when its condition is true for the first time; and within a round no event of a
token fires behind an interrupting one. This is so as long as nothing hinders the events that
are due. -/
theorem conditional_events_edge_triggered {env : Env} {i k : Uuid} {e₀ e : Engine}
    {c : PendingConditionalCatch} {element : BpmnElement} {evals : List (Bool × Bool)}
    (hregistered : e₀.conditionalEvent i k = some (c, element)) (hfirst : c.lastResult = false)
    (hkind : element.firesOnce = true ∨ element.firesAgain = true)
    (hrun : Reaches (conditionStep env i k) (fun s move => move.Unhindered env i s.1)
      (e₀, []) (e, evals)) :
    (if element.firesOnce then FiresFirst evals else EdgeTriggered evals) ∧
      (e.Unhindered env i → ∀ x d, e.evaluates i = some (x, d) →
        (e.round env i).Pairwise fun turn later =>
          ¬(turn.2 = true ∧ turn.1.interrupts d = true ∧ later.2 = true ∧
            later.1.tokenId = turn.1.tokenId)) := by
  refine ⟨?_, fun hround x d he => ?_⟩
  · have hrecorded : Recorded i k element (e, evals) := by
      refine hrun.invariant (P := Recorded i k element) ⟨?_, ?_⟩ fun s move t hs hguard hstep => ?_
      · split
        · exact .nil
        · exact .nil
      · intro memory hmemory
        dsimp only at hmemory
        rw [Engine.memory, hregistered] at hmemory
        cases hmemory
        refine ⟨?_, fun _ => rfl⟩
        exact congrArg (fun last => (last, element.firesOnce, element.firesAgain)) hfirst
      · cases move with
        | round =>
          cases hstep
          exact hs.round hkind hguard
        | other =>
          simp only [conditionStep, Option.ite_none_right_eq_some, Option.some.injEq] at hstep
          obtain ⟨hsame, rfl⟩ := hstep
          refine ⟨hs.law, fun memory hmemory => ?_⟩
          dsimp only at hmemory
          rcases hsame with hnone | hsame
          · rw [hnone] at hmemory
            cases hmemory
          · exact hs.memory memory (hsame ▸ hmemory)
    exact hrecorded.law
  · obtain ⟨e', -, hturns, hrounded⟩ := hround.rounded he
    rw [hturns]
    exact hrounded.spared

/-! ## A task that is late -/

/-- When the work is late, someone is notified. The work may be a task or a called process. -/
def overdue (work : BpmnElement) : ProcessDefinition := .ofGraph "overdue"
  [("start", .startEvent), ("work", work), ("late", .boundaryConditionalEvent "work" "late" false),
    ("notify", .userTask "notify"), ("end", .endEvent)]
  [("start", [.simple "work"]), ("work", [.simple "end"]), ("late", [.simple "notify"]),
    ("notify", [.simple "end"])]

def late : Variables := Map.ofList [("late", .bool true)]

def workBegun (work : BpmnElement) : Option Config :=
  Config.performAll .named 100 (Config.initial 0)
    [.deployDefinition approval, .deployDefinition (overdue work), .startInstance 2 ∅]

def Engine.setLate (e : Engine) : Engine := e.modifyInstance 3 fun x => { x with vars := late }

/-- The boundary event as it is registered, and its evaluations in one round before the work is
late and in some rounds after it. Where it is asked for, nothing may hinder a round. -/
def lateWork (work : BpmnElement) (checked : Bool) (rounds : Nat) :
    Option (Option (Bool × BpmnElement) × List (Bool × Bool) × Bool) := do
  let c ← workBegun work
  let s ← run (fun s move =>
      if !checked || decide (ConditionMove.Unhindered .named 3 s.1 move) then
        conditionStep .named 3 6 s move
      else none) (c.engine, [])
    ([.round, .other c.engine.setLate] ++ List.replicate rounds .round)
  return ((c.engine.conditionalEvent 3 6).map fun event => (event.1.lastResult, event.2), s.2,
    (s.1.conditionalEvent 3 6).isSome)

theorem lateWork_reaches {work : BpmnElement} {checked remains : Bool} {rounds : Nat}
    (h : lateWork work checked rounds = some (some (false, element), evals, remains)) :
    ∃ c event e, workBegun work = some c ∧ c.engine.conditionalEvent 3 6 = some (event, element) ∧
      event.lastResult = false ∧
      Reaches (conditionStep .named 3 6)
        (fun s move => checked = true → move.Unhindered .named 3 s.1) (c.engine, []) (e, evals) ∧
      (e.conditionalEvent 3 6).isSome = remains := by
  rw [lateWork] at h
  obtain ⟨c, hc, h⟩ := Option.bind_eq_some_iff.mp h
  obtain ⟨s, hs, h⟩ := Option.bind_eq_some_iff.mp h
  obtain ⟨hfirst, hlast⟩ := Prod.mk.inj (Option.some.inj h)
  obtain ⟨rfl, rfl⟩ := Prod.mk.inj hlast
  obtain ⟨⟨event, element'⟩, hevent, heq⟩ := Option.map_eq_some_iff.mp hfirst
  obtain ⟨hfalse, rfl⟩ := Prod.mk.inj heq
  refine ⟨c, event, s.1, hc, hevent, hfalse,
    .of_checked_run (fun s move hcheck hchecked => ?_) hs, rfl⟩
  rw [hchecked] at hcheck
  simpa using hcheck

theorem late_task_notified_once :
    ∃ c e, workBegun (.userTask "work") = some c ∧
      Reaches (conditionStep .named 3 6) (fun s move => move.Unhindered .named 3 s.1) (c.engine, [])
        (e, [(false, false), (true, true), (true, false)]) ∧
      EdgeTriggered [(false, false), (true, true), (true, false)] := by
  have h : lateWork (.userTask "work") true 2 =
      some (some (false, .boundaryConditionalEvent "work" "late" false),
        [(false, false), (true, true), (true, false)], true) := by decide +kernel
  obtain ⟨c, event, e, hc, hevent, hfalse, hreach, -⟩ := lateWork_reaches h
  have hrun := hreach.mono fun s move hguard => hguard rfl
  exact ⟨c, e, hc, hrun, (conditional_events_edge_triggered hevent hfalse (.inr rfl) hrun).1⟩

theorem EdgeTriggered.last (evals : List (Bool × Bool)) {now fired : Bool}
    (h : EdgeTriggered (evals ++ [(now, fired)])) :
    fired = (now && !evals.getLast?.any (·.1)) := by
  generalize heq : evals ++ [(now, fired)] = l at h
  cases h with
  | nil => simp at heq
  | concat =>
    obtain ⟨rfl, heq⟩ := List.append_inj' heq rfl
    cases heq
    rfl

/-- A called process is late: its token is not in the token table, so nobody is notified, the update
of the variables fails, and the boundary event is lost. -/
theorem late_call_not_notified :
    ∃ c e, workBegun (.callActivity "approval") = some c ∧
      (c.engine.conditionalEvent 3 6).map (·.2) =
        some (.boundaryConditionalEvent "work" "late" false) ∧
      Reaches (conditionStep .named 3 6) (fun _ _ => True) (c.engine, [])
        (e, [(false, false), (true, false)]) ∧
      e.conditionalEvent 3 6 = none ∧ ¬ EdgeTriggered [(false, false), (true, false)] := by
  have h : lateWork (.callActivity "approval") false 2 =
      some (some (false, .boundaryConditionalEvent "work" "late" false),
        [(false, false), (true, false)], false) := by decide +kernel
  obtain ⟨c, event, e, hc, hevent, hfalse, hreach, hgone⟩ := lateWork_reaches h
  refine ⟨c, e, hc, ?_, hreach.mono fun _ _ _ => trivial, by simpa using hgone, fun hedge => ?_⟩
  · rw [hevent]
    rfl
  · have hfired := EdgeTriggered.last [(false, false)] hedge
    cases hfired

end BpmnEngine
