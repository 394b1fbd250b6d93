import BpmnEngine.BranchEnds
import BpmnEngine.Joins

/-!
# How often a complex gateway fires

The tokens of one activation arrive at a complex gateway one after another. The gateway is
meant to fire once: when its join condition holds over the tokens that have arrived, or
else with the last of them. It does so by removing its barrier, and with the barrier it
forgets that it has fired. A token that comes later finds none, and opens a new one: it
fires the gateway again, or it waits there for tokens that never come. So an activation is
joined as intended only if the first token that makes the gateway fire is the last one.
-/
namespace BpmnEngine

open Program Eng ProcessInstance

/-! ## One arrival -/

namespace Eng

variable {env : Env} {d : ProcessDefinition} {gateway : String} {i : Uuid}

def passes (env : Env) (d : ProcessDefinition) (gateway : String) (expected : Nat)
    (arrived : List Token) : Prop :=
  expected ≤ arrived.length ∨ joinConditionMet env d gateway arrived = true

instance (expected : Nat) (arrived : List Token) :
    Decidable (passes env d gateway expected arrived) :=
  inferInstanceAs (Decidable (_ ∨ _))

def barrierFor (d : ProcessDefinition) (gateway : String) (x : ProcessInstance) : JoinBarrier :=
  (x.joinBarriers.get? gateway).getD ⟨gateway, d.incomingFlowCount gateway, []⟩

def joined (gateway : String) (arrived : List Token) (x : ProcessInstance) : ProcessInstance :=
  arrived.foldl (fun i t => i.completeActive t.id)
    { x with joinBarriers := x.joinBarriers.erase gateway }

def waiting (gateway : String) (barrier : JoinBarrier) (x : ProcessInstance) : ProcessInstance :=
  { x with joinBarriers := x.joinBarriers.set gateway barrier }

theorem exists_joined (gateway : String) (arrived : List Token) (x : ProcessInstance) :
    ∃ active, joined gateway arrived x =
      { x with joinBarriers := x.joinBarriers.erase gateway, activeTokens := active } := by
  have hfold : ∀ y : ProcessInstance, ∃ active,
      arrived.foldl (fun i t => i.completeActive t.id) y = { y with activeTokens := active } := by
    induction arrived with
    | nil => exact fun y => ⟨y.activeTokens, rfl⟩
    | cons t rest ih => exact fun y => ih (y.completeActive t.id)
  exact hfold _

theorem joined_branches (gateway : String) (arrived : List Token) {x : ProcessInstance}
    (hnodup : (x.branches.map Prod.fst).Nodup) :
    (joined gateway arrived x).branches =
      ProcessInstance.tickOff (arrived.map (·.id)) x.branches := by
  have hfold : ∀ y : ProcessInstance, (y.branches.map Prod.fst).Nodup →
      (arrived.foldl (fun i t => i.completeActive t.id) y).branches =
        ProcessInstance.tickOff (arrived.map (·.id)) y.branches := by
    induction arrived with
    | nil => exact fun y _ => (tickOff_nil y.branches).symm
    | cons t rest ih =>
      intro y hy
      have hstep : (y.completeActive t.id).branches = ProcessInstance.tickOff [t.id] y.branches :=
        branches_completeActive hy
      rw [List.foldl_cons, ih _ (by rwa [hstep, map_fst_tickOff]), hstep, tickOff_tickOff]
      rfl
  exact hfold _ hnodup

end Eng

/-- An instance of `d`, with one entry at most for each token in its fork registry. -/
structure Engine.Forked (i : Uuid) (d : ProcessDefinition) (x : ProcessInstance) (e : Engine) :
    Prop where
  found : e.instances.find? i = some x
  definition : e.definitions.find? x.definitionKey = some d
  single : (x.branches.map Prod.fst).Nodup

section Arrival


variable {env : Env} {i : Uuid} {d : ProcessDefinition} {gateway : String} {x : ProcessInstance}
  {e e' : Engine} {token : Token}

theorem Engine.Forked.modify (hx : e.Forked i d x) {f : ProcessInstance → ProcessInstance}
    (hid : (f x).id = x.id) (hkey : (f x).definitionKey = x.definitionKey)
    (hsingle : ((f x).branches.map Prod.fst).Nodup) : (e.modifyInstance i f).Forked i d (f x) where
  found := by
    rw [Engine.find?_modifyInstance_self, hx.found, Option.map_some, ← hid]
  definition := by
    rw [hkey]
    exact hx.definition
  single := hsingle

theorem Engine.Forked.arrival_cases (hx : e.Forked i d x) {out : Option Token}
    {arrived : List Token} (harrived : (barrierFor d gateway x).arrivedTokens ++ [token] = arrived)
    (h : exec (arriveAtJoin env i gateway token) e = (.ok out, e')) :
    (passes env d gateway (barrierFor d gateway x).expectedCount arrived ∧
      (∃ merged, out = some merged) ∧ e'.Forked i d (joined gateway arrived x)) ∨
    (¬ passes env d gateway (barrierFor d gateway x).expectedCount arrived ∧ out = none ∧
      e'.Forked i d (waiting gateway { barrierFor d gateway x with arrivedTokens := arrived }
        x)) := by
  subst harrived
  rw [arriveAtJoin, exec_bind_ok (exec_definitionOf hx.found hx.definition),
    exec_bind_ok (exec_getInstance hx.found)] at h
  change exec (if passes env d gateway (barrierFor d gateway x).expectedCount
    ((barrierFor d gateway x).arrivedTokens ++ [token]) then _ else _) e = _ at h
  split at h
  next hpasses =>
    refine .inl ⟨hpasses, ?_⟩
    rw [exec_bind_ok (exec_modifyInstance e i _)] at h
    cases h
    refine ⟨⟨_, rfl⟩, ?_⟩
    obtain ⟨active, hjoined⟩ := exists_joined gateway
      ((barrierFor d gateway x).arrivedTokens ++ [token]) x
    have hforked := hx.modify (f := joined gateway _) (by rw [hjoined]) (by rw [hjoined])
      (by rw [joined_branches _ _ hx.single, map_fst_tickOff]; exact hx.single)
    exact ⟨hforked.found, hforked.definition, hforked.single⟩
  next hpasses =>
    refine .inr ⟨hpasses, ?_⟩
    rw [exec_bind_ok (exec_modifyInstance e i _)] at h
    cases h
    exact ⟨rfl, hx.modify (f := waiting gateway _) rfl rfl hx.single⟩

end Arrival

/-! ## One activation -/

/-- Whatever else happens leaves the barrier alone and does not open an entry of the fork registry
again for a token that has arrived. -/
def Elsewhere (i : Uuid) (d : ProcessDefinition) (gateway : String) (arrived : List Token)
    (e e' : Engine) : Prop :=
  ∀ x, e.Forked i d x → ∃ x', e'.Forked i d x' ∧
    x'.joinBarriers.get? gateway = x.joinBarriers.get? gateway ∧
    ∀ t ∈ arrived, (t.id, false) ∈ x'.branches → (t.id, false) ∈ x.branches

/-- The tokens of one activation arrive in some order, and other things happen in between. What
comes of each arrival is recorded: the merged token if the gateway fires. -/
inductive Activation (env : Env) (i : Uuid) (d : ProcessDefinition) (gateway : String)
    (start : Engine) : List Token → List (Option Token) → Engine → Prop
  | start : Activation env i d gateway start [] [] start
  | elsewhere {ts outs e e'} (h : Activation env i d gateway start ts outs e)
      (hmove : Elsewhere i d gateway ts e e') : Activation env i d gateway start ts outs e'
  | arrives {ts outs e e' token out} (h : Activation env i d gateway start ts outs e)
      (harrival : exec (arriveAtJoin env i gateway token) e = (.ok out, e')) :
      Activation env i d gateway start (ts ++ [token]) (outs ++ [out]) e'

/-- The join condition first holds over `k` tokens, or it does not hold earlier and `k` are all. -/
structure FiresAt (env : Env) (d : ProcessDefinition) (gateway : String) (ts : List Token)
    (k : Nat) : Prop where
  pos : 0 < k
  le : k ≤ ts.length
  reached : joinConditionMet env d gateway (ts.take k) = true ∨ k = ts.length
  first : ∀ j, 0 < j → j < k → joinConditionMet env d gateway (ts.take j) = false

/-- The gateway fires once, at the right time, and no token of the activation stays behind: there
is none at the gateway, and none is open in the fork registry. -/
structure JoinedOnce (env : Env) (d : ProcessDefinition) (gateway : String) (ts : List Token)
    (outs : List (Option Token)) (x : ProcessInstance) : Prop where
  fires : ∃ k merged, FiresAt env d gateway ts k ∧
    outs = List.replicate (k - 1) none ++ some merged :: List.replicate (ts.length - k) none
  noneWaits : x.joinBarriers.get? gateway = none
  ticked : ∀ t ∈ ts, (t.id, false) ∉ x.branches

/-- How far an activation has come. -/
inductive JoinPhase (env : Env) (d : ProcessDefinition) (gateway : String) (ts : List Token)
    (outs : List (Option Token)) (x : ProcessInstance) : Prop
  | gathering (houts : outs = List.replicate ts.length none)
      (hbarrier : barrierFor d gateway x = ⟨gateway, d.incomingFlowCount gateway, ts⟩)
      (hbefore : ∀ k, 0 < k → k ≤ ts.length →
        ¬ Eng.passes env d gateway (d.incomingFlowCount gateway) (ts.take k))
  | fired {merged : Token} (hne : ts ≠ [])
      (houts : outs = List.replicate (ts.length - 1) none ++ [some merged])
      (hbarrier : x.joinBarriers.get? gateway = none)
      (hpasses : Eng.passes env d gateway (d.incomingFlowCount gateway) ts)
      (hbefore : ∀ k, 0 < k → k < ts.length →
        ¬ Eng.passes env d gateway (d.incomingFlowCount gateway) (ts.take k))
      (hticked : ∀ t ∈ ts, (t.id, false) ∉ x.branches)
  | late (hearly : ∃ k, 0 < k ∧ k < ts.length ∧
        Eng.passes env d gateway (d.incomingFlowCount gateway) (ts.take k))
      (hfired : 1 ≤ outs.countP Option.isSome)
      (hwrong : x.joinBarriers.get? gateway ≠ none ∨ 2 ≤ outs.countP Option.isSome)

section Activation

variable {env : Env} {i : Uuid} {d : ProcessDefinition} {gateway : String} {x : ProcessInstance}
  {start e e' : Engine} {token : Token} {ts : List Token} {outs : List (Option Token)}
  {out : Option Token}

theorem Eng.take_concat_of_le {k : Nat} (h : k ≤ ts.length) (token : Token) :
    (ts ++ [token]).take k = ts.take k := by
  rw [List.take_append_of_le_length h]

theorem Engine.Forked.fires_or_waits (hx : e.Forked i d x)
    (h : exec (arriveAtJoin env i gateway token) e = (.ok out, e')) :
    ∃ x', e'.Forked i d x' ∧ (x'.joinBarriers.get? gateway ≠ none ∨ out.isSome = true) := by
  rcases hx.arrival_cases rfl h with ⟨-, ⟨merged, rfl⟩, hx'⟩ | ⟨-, rfl, hx'⟩
  · exact ⟨_, hx', .inr rfl⟩
  · exact ⟨_, hx', .inl (by simp [Eng.waiting])⟩

theorem JoinPhase.arrives (h : JoinPhase env d gateway ts outs x) (hx : e.Forked i d x)
    (harrival : exec (arriveAtJoin env i gateway token) e = (.ok out, e')) :
    ∃ x', e'.Forked i d x' ∧ JoinPhase env d gateway (ts ++ [token]) (outs ++ [out]) x' := by
  have hlength : (ts ++ [token]).length = ts.length + 1 := by simp
  have hafter (k : Nat) (hk : 0 < k) (hle : k ≤ ts.length)
      (hpasses : Eng.passes env d gateway (d.incomingFlowCount gateway) (ts.take k))
      (hfired : 1 ≤ outs.countP Option.isSome) :
      ∃ x', e'.Forked i d x' ∧ JoinPhase env d gateway (ts ++ [token]) (outs ++ [out]) x' := by
    obtain ⟨x', hx', hnow⟩ := hx.fires_or_waits harrival
    refine ⟨x', hx', .late ⟨k, hk, by omega, ?_⟩ ?_ (hnow.imp_right fun hout => ?_)⟩
    · rw [take_concat_of_le hle]
      exact hpasses
    · rw [List.countP_append]
      omega
    · rw [List.countP_append, List.countP_singleton, if_pos hout]
      omega
  cases h with
  | gathering houts hbarrier hbefore =>
    have hcases := hx.arrival_cases rfl harrival
    rw [hbarrier] at hcases
    rcases hcases with ⟨hpasses, ⟨merged, rfl⟩, hx'⟩ | ⟨hpasses, rfl, hx'⟩
    · have houts' : outs ++ [some merged] =
          List.replicate ((ts ++ [token]).length - 1) none ++ [some merged] := by
        rw [houts, hlength, Nat.add_sub_cancel]
      refine ⟨_, hx', .fired (by simp) houts' ?_ hpasses ?_ ?_⟩
      · obtain ⟨active, hjoined⟩ := exists_joined gateway (ts ++ [token]) x
        rw [hjoined]
        simp
      · intro k hk hlt
        rw [take_concat_of_le (by omega)]
        exact hbefore k hk (by omega)
      · intro t ht hopen
        rw [joined_branches _ _ hx.single, mem_tickOff_open] at hopen
        exact hopen.2 (List.mem_map_of_mem ht)
    · refine ⟨_, hx', .gathering ?_ ?_ ?_⟩
      · rw [houts, hlength, List.replicate_succ']
      · simp [barrierFor, Eng.waiting]
      · intro k hk hle
        rcases Nat.lt_or_ge ts.length k with hlt | hge
        · rw [List.take_of_length_le (by omega)]
          exact hpasses
        · rw [take_concat_of_le hge]
          exact hbefore k hk hge
  | fired hne houts hbarrier hpasses =>
    refine hafter ts.length (List.length_pos_of_ne_nil hne) le_rfl ?_ ?_
    · rw [List.take_length]
      exact hpasses
    · rw [houts, List.countP_append]
      simp
  | late hearly hfired =>
    obtain ⟨k, hk, hlt, hpasses⟩ := hearly
    exact hafter k hk hlt.le hpasses hfired

theorem JoinPhase.elsewhere {x' : ProcessInstance} (h : JoinPhase env d gateway ts outs x)
    (hbarrier : x'.joinBarriers.get? gateway = x.joinBarriers.get? gateway)
    (hopen : ∀ t ∈ ts, (t.id, false) ∈ x'.branches → (t.id, false) ∈ x.branches) :
    JoinPhase env d gateway ts outs x' := by
  cases h with
  | gathering houts hx hbefore =>
    refine .gathering houts ?_ hbefore
    rw [barrierFor, hbarrier]
    exact hx
  | fired hne houts hx hpasses hbefore hticked =>
    exact .fired hne houts (hbarrier.trans hx) hpasses hbefore fun t ht hmem =>
      hticked t ht (hopen t ht hmem)
  | late hearly hfired hwrong =>
    rw [← hbarrier] at hwrong
    exact .late hearly hfired hwrong

theorem Activation.phase (hstart : start.Forked i d x) (hnone : x.joinBarriers.get? gateway = none)
    (h : Activation env i d gateway start ts outs e) :
    ∃ x', e.Forked i d x' ∧ JoinPhase env d gateway ts outs x' := by
  induction h with
  | start =>
    refine ⟨x, hstart, .gathering rfl ?_ fun k hk hle => absurd hk (by simpa using hle)⟩
    rw [barrierFor, hnone]
    rfl
  | elsewhere h hmove ih =>
    obtain ⟨y, hy, hphase⟩ := ih
    obtain ⟨z, hz, hbarrier, hopen⟩ := hmove y hy
    exact ⟨z, hz, hphase.elsewhere hbarrier hopen⟩
  | arrives h harrival ih =>
    obtain ⟨y, hy, hphase⟩ := ih
    exact hphase.arrives hy harrival

/-- An activation is joined as intended if and only if the gateway lets its tokens through when the
last of them has arrived, and not before. -/
theorem joined_once_iff (hstart : start.Forked i d x) (hnone : x.joinBarriers.get? gateway = none)
    (hne : ts ≠ []) (h : Activation env i d gateway start ts outs e) :
    (∃ x', e.instances.find? i = some x' ∧ JoinedOnce env d gateway ts outs x') ↔
      (∀ k, 0 < k → k < ts.length →
        ¬ Eng.passes env d gateway (d.incomingFlowCount gateway) (ts.take k)) ∧
      Eng.passes env d gateway (d.incomingFlowCount gateway) ts := by
  obtain ⟨y, hy, hphase⟩ := h.phase hstart hnone
  have hpos := List.length_pos_of_ne_nil hne
  constructor
  · rintro ⟨y', hy', ⟨k, merged, -, houts⟩, hwaits, -⟩
    obtain rfl := Option.some.inj (hy.found.symm.trans hy')
    have hcount : outs.countP Option.isSome = 1 := by
      rw [houts]
      simp [List.countP_replicate]
    cases hphase with
    | gathering hnot =>
      rw [hnot] at hcount
      simp [List.countP_replicate] at hcount
    | fired _ _ _ hpasses hbefore => exact ⟨hbefore, hpasses⟩
    | late _ _ hwrong =>
      rcases hwrong with hbarrier | hcount'
      · exact absurd hwaits hbarrier
      · omega
  · rintro ⟨hbefore, hpasses⟩
    refine ⟨y, hy.found, ?_⟩
    cases hphase with
    | gathering _ _ hnot =>
      refine absurd hpasses ?_
      have := hnot ts.length hpos le_rfl
      rwa [List.take_length] at this
    | @fired merged _ houts hbarrier _ _ hticked =>
      refine ⟨⟨ts.length, merged, ⟨hpos, le_rfl, .inr rfl, fun j hj hlt => ?_⟩, ?_⟩, hbarrier,
        hticked⟩
      · exact Bool.eq_false_iff.mpr fun hmet => hbefore j hj hlt (.inr hmet)
      · rw [houts, Nat.sub_self]
        rfl
    | late hearly =>
      obtain ⟨k, hk, hlt, hk'⟩ := hearly
      exact absurd hk' (hbefore k hk hlt)

end Activation

/-! ## A vote -/

/-- A vote of three is closed as soon as it is decided. -/
def vote : ProcessDefinition := .ofGraph "vote"
  [("start", .startEvent), ("split", .parallelGateway), ("first", .userTask "a"),
    ("second", .userTask "b"), ("third", .userTask "c"),
    ("join", .complexGateway (some "decided") none), ("close", .userTask "d"), ("end", .endEvent)]
  [("start", [.simple "split"]), ("split", [.simple "first", .simple "second", .simple "third"]),
    ("first", [.simple "join"]), ("second", [.simple "join"]), ("third", [.simple "join"]),
    ("join", [.simple "close"]), ("close", [.simple "end"])]

def Env.named : Env :=
  { Env.plain with evaluateCondition := fun name vars => (vars.get? name).isSome }

def decided : Variables := Map.ofList [("decided", .bool true)]

/-- The open tasks, the number of tokens at the join and whether the instance has ended, after the
votes have been cast in order. -/
def afterVotes (ops : List Op) : Option (List String × Option Nat × Bool) :=
  (Config.performAll .named 100 (Config.initial 0)
    ([.deployDefinition vote, .startInstance 1 ∅] ++ ops)).bind fun c =>
      (c.engine.instances.find? 2).map fun x =>
        (c.engine.pendingUserTasks.entries.map (·.nodeId),
          (x.joinBarriers.get? "join").map (·.arrivedTokens.length), x.state.isTerminal)

def voter (id : Uuid) (vars : Variables) : Token := ⟨id, "join", vars, false, none⟩

def voting : ProcessInstance :=
  { ProcessInstance.initial 2 1 "" none "split" ∅ with
    activeTokens := [5, 6, 7].map fun id => ⟨voter id ∅, some "split", 0, false⟩ }

def votingEngine : Engine :=
  { Engine.new 0 with
    definitions := (∅ : Table ProcessDefinition.key).insert { vote with key := 1 }
    instances := (∅ : Table ProcessInstance.id).insert voting
    nextUuid := 8 }

theorem votingEngine_forked : votingEngine.Forked 2 { vote with key := 1 } voting :=
  ⟨rfl, rfl, by decide⟩

theorem votes_joined_once :
    ∃ outs e, Activation .named 2 { vote with key := 1 } "join" votingEngine
        [voter 5 ∅, voter 6 ∅, voter 7 decided] outs e ∧
      ∃ x, e.instances.find? 2 = some x ∧
        JoinedOnce .named { vote with key := 1 } "join" [voter 5 ∅, voter 6 ∅, voter 7 decided]
          outs x := by
  have h : Activation .named 2 { vote with key := 1 } "join" votingEngine
      [voter 5 ∅, voter 6 ∅, voter 7 decided] _ _ :=
    .arrives (.arrives (.arrives .start rfl) rfl) rfl
  refine ⟨_, _, h, (joined_once_iff votingEngine_forked rfl (List.cons_ne_nil _ _) h).mpr
    ⟨fun k hk hlt => ?_, by decide⟩⟩
  obtain rfl | rfl : k = 1 ∨ k = 2 := by
    have : k < 3 := hlt
    omega
  all_goals decide

/-- The first vote decides. If the second one does, too, the gateway fires again. Otherwise the
second and the third one are left at the gateway, and when the vote is closed no task is open but
the instance has not ended. -/
theorem votes_not_joined_once :
    afterVotes [.completeUserTask 8 decided, .completeUserTask 9 decided] =
        some (["third", "close", "close"], none, false) ∧
      afterVotes [.completeUserTask 8 decided, .completeUserTask 9 ∅, .completeUserTask 10 ∅,
        .completeUserTask 12 ∅] = some ([], some 2, false) ∧
      ∃ outs e x, Activation .named 2 { vote with key := 1 } "join" votingEngine
          [voter 5 decided, voter 6 ∅, voter 7 ∅] outs e ∧ e.instances.find? 2 = some x ∧
        ¬ JoinedOnce .named { vote with key := 1 } "join" [voter 5 decided, voter 6 ∅, voter 7 ∅]
          outs x := by
  refine ⟨by decide +kernel, by decide +kernel, ?_⟩
  have h : Activation .named 2 { vote with key := 1 } "join" votingEngine
      [voter 5 decided, voter 6 ∅, voter 7 ∅] _ _ :=
    .arrives (.arrives (.arrives .start rfl) rfl) rfl
  refine ⟨_, _, _, h, rfl, fun hjoined => ?_⟩
  exact absurd hjoined.noneWaits (by decide)

end BpmnEngine
