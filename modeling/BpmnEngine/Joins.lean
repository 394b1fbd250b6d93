import BpmnEngine.Machine

/-!
# What a join makes of its branches

Every branch of a fork carries a copy of the variables the forking token had. The join
overwrites in the order of arrival, so of several values of one variable the last one
wins, whether its branch has set it or has only carried it along from the fork.
-/
namespace BpmnEngine

open Program

namespace Eng

variable {name : String}

theorem get?_mergedVariables_append (first last : List Token) (name : String) :
    (mergedVariables (first ++ last)).get? name =
      ((mergedVariables last).get? name).or ((mergedVariables first).get? name) := by
  induction last using List.reverseRecOn with
  | nil => simp [mergedVariables]
  | append_singleton last token ih =>
    have hsplit : ∀ tokens : List Token, mergedVariables (tokens ++ [token]) =
        (mergedVariables tokens).extend token.vars := fun tokens => by
      simp [mergedVariables, List.foldl_append]
    rw [← List.append_assoc, hsplit, hsplit, Map.get?_extend, Map.get?_extend, ih, Option.or_assoc]

theorem get?_mergedVariables_singleton (token : Token) (name : String) :
    (mergedVariables [token]).get? name = token.vars.get? name := by
  simp [mergedVariables, Map.get?_extend]

theorem get?_mergedVariables_of_same {tokens : List Token} {value : Option Value}
    (hne : tokens ≠ []) (h : ∀ t ∈ tokens, t.vars.get? name = value) :
    (mergedVariables tokens).get? name = value := by
  induction tokens using List.reverseRecOn with
  | nil => exact absurd rfl hne
  | append_singleton tokens token ih =>
    have htoken : token.vars.get? name = value := h token (by simp)
    rw [get?_mergedVariables_append, get?_mergedVariables_singleton, htoken]
    by_cases hnil : tokens = []
    · simp [hnil, mergedVariables]
    · rw [ih hnil fun t ht => h t (List.mem_append_left _ ht), Option.or_self]

/-- One branch has changed a variable that the others have as it was at the fork. Its value is the
merged one if the branch is alone, or if it has a value and either arrives last or the variable is
new. -/
theorem get?_mergedVariables_iff {before after : List Token} {branch : Token} {split : Variables}
    (hothers : ∀ t ∈ before ++ after, t.vars.get? name = split.get? name)
    (hchanged : branch.vars.get? name ≠ split.get? name) :
    (mergedVariables (before ++ branch :: after)).get? name = branch.vars.get? name ↔
      (before = [] ∧ after = []) ∨
        ((branch.vars.get? name).isSome ∧ (after = [] ∨ split.get? name = none)) := by
  have hmerged : (mergedVariables (before ++ branch :: after)).get? name =
      ((mergedVariables after).get? name).or
        ((branch.vars.get? name).or ((mergedVariables before).get? name)) := by
    rw [show before ++ branch :: after = (before ++ [branch]) ++ after by simp,
      get?_mergedVariables_append, get?_mergedVariables_append, get?_mergedVariables_singleton]
  have hside : ∀ {tokens : List Token}, tokens ≠ [] → (∀ t ∈ tokens, t ∈ before ++ after) →
      (mergedVariables tokens).get? name = split.get? name := fun hne hsub =>
    get?_mergedVariables_of_same hne fun t ht => hothers t (hsub t ht)
  rw [hmerged]
  by_cases hafter : after = []
  · -- The branch is the last one: only a removed variable can be lost.
    subst hafter
    by_cases hbefore : before = []
    · subst hbefore
      simp [mergedVariables]
    · rw [hside hbefore fun t ht => by simpa using ht]
      cases hb : branch.vars.get? name with
      | some => simp [mergedVariables]
      | none =>
        rw [hb] at hchanged
        simpa [mergedVariables, hbefore] using fun h : split.get? name = none => hchanged h.symm
  · rw [hside hafter fun t ht => List.mem_append_right _ ht]
    cases hs : split.get? name with
    | some =>
      rw [hs] at hchanged
      simpa [hafter] using fun h => hchanged h.symm
    | none =>
      rw [hs] at hchanged
      obtain ⟨value, hb⟩ := Option.ne_none_iff_exists'.mp hchanged
      simp [hb]

def arrivedWith (i : ProcessInstance) (gateway : String) (token : Token) : List Token :=
  ((i.joinBarriers.get? gateway).map (·.arrivedTokens)).getD [] ++ [token]

theorem vars_of_arriveAtJoin {env : Env} {e t : Engine} {instanceId : Uuid} {gateway : String}
    {token merged : Token} {i : ProcessInstance} (hi : e.instances.find? instanceId = some i)
    (hx : exec (arriveAtJoin env instanceId gateway token) e = (.ok (some merged), t)) :
    merged.vars = mergedVariables (arrivedWith i gateway token) := by
  obtain ⟨d, e₁, hd, hx₁⟩ := exec_bind_eq_ok hx
  have he : e₁ = e := by
    cases hdef : e.definitions.find? i.definitionKey with
    | none =>
      rw [definitionOf, exec_bind_ok (exec_getInstance hi), exec_getDefinition_none hdef] at hd
      cases hd
    | some =>
      rw [exec_definitionOf hi hdef] at hd
      cases hd
      rfl
  subst he
  rw [exec_bind_ok (exec_getInstance hi)] at hx₁
  have hbarrier : ((i.joinBarriers.get? gateway).getD
      ⟨gateway, d.incomingFlowCount gateway, []⟩).arrivedTokens ++ [token] =
      arrivedWith i gateway token := by
    unfold arrivedWith
    cases i.joinBarriers.get? gateway <;> rfl
  dsimp only at hx₁
  rw [hbarrier] at hx₁
  split at hx₁
  · cases hx₁
    rfl
  · cases hx₁

/-- A variable that one of the merged branches has changed, and that the others have as it was at
the split, has the changed value in the merged token exactly if that branch is the only one, or it
has not removed the variable and is the last to arrive or the variable is new. -/
theorem arriveAtJoin_keeps_change_iff {env : Env} {e t : Engine} {instanceId : Uuid}
    {gateway name : String} {token merged branch : Token} {before after : List Token}
    {i : ProcessInstance} {split : Variables}
    (hi : e.instances.find? instanceId = some i)
    (hx : exec (arriveAtJoin env instanceId gateway token) e = (.ok (some merged), t))
    (harrived : arrivedWith i gateway token = before ++ branch :: after)
    (hothers : ∀ t ∈ before ++ after, t.vars.get? name = split.get? name)
    (hchanged : branch.vars.get? name ≠ split.get? name) :
    merged.vars.get? name = branch.vars.get? name ↔
      (before = [] ∧ after = []) ∨
        ((branch.vars.get? name).isSome ∧ (after = [] ∨ split.get? name = none)) := by
  rw [vars_of_arriveAtJoin hi hx, harrived]
  exact get?_mergedVariables_iff hothers hchanged

end Eng

/-- Two user tasks between a parallel split and its join, and one more behind it. -/
def twoBranches : ProcessDefinition := .ofGraph "two-branches"
  [("start", .startEvent), ("split", .parallelGateway), ("left", .userTask "left"),
    ("right", .userTask "right"), ("join", .parallelGateway), ("check", .userTask "check"),
    ("end", .endEvent)]
  [("start", [.simple "split"]), ("split", [.simple "left", .simple "right"]),
    ("left", [.simple "join"]), ("right", [.simple "join"]), ("join", [.simple "check"]),
    ("check", [.simple "end"])]

def stock (n : Int) : Variables := Map.ofList [("stock", .number (.int n))]

/-- The node and the stock of every token of the instance after some operations. -/
def stockAfter (ops : List Op) : Option (List (String × Option Value)) :=
  (Config.performAll .plain 100 (Config.initial 0)
    ([.deployDefinition twoBranches, .startInstance 1 (stock 0)] ++ ops)).bind fun c =>
      (c.engine.instances.find? 2).map fun i =>
        i.tokens.entries.map fun t => (t.currentNode, t.vars.get? "stock")

/-- The left branch sets the stock and arrives first, the right one has it as it was at the split:
the token that leaves the join has the old stock. The other order keeps the new one. -/
theorem first_change_is_lost :
    stockAfter [] = some [("left", some (.number (.int 0))), ("right", some (.number (.int 0)))] ∧
      stockAfter [.completeUserTask 7 (stock 1), .completeUserTask 8 ∅] =
        some [("check", some (.number (.int 0)))] ∧
      stockAfter [.completeUserTask 8 ∅, .completeUserTask 7 (stock 1)] =
        some [("check", some (.number (.int 1)))] := by
  decide +kernel

def leftToken : Token := ⟨5, "join", stock 1, false, none⟩

def rightToken : Token := ⟨6, "join", stock 0, false, none⟩

def leftArrived : ProcessInstance :=
  { ProcessInstance.initial 2 1 "" none "start" (stock 0) with
    joinBarriers := Map.ofList [("join", ⟨"join", 2, [leftToken]⟩)] }

def leftArrivedEngine : Engine :=
  { Engine.new 0 with
    definitions := (∅ : Table ProcessDefinition.key).insert { twoBranches with key := 1 }
    instances := (∅ : Table ProcessInstance.id).insert leftArrived
    nextUuid := 9 }

theorem arriveAtJoin_loses_stock :
    ∃ merged t, exec (Eng.arriveAtJoin .plain 2 "join" rightToken) leftArrivedEngine =
        (.ok (some merged), t) ∧
      (merged.vars.get? "stock" = leftToken.vars.get? "stock" ↔
        (([] : List Token) = [] ∧ [rightToken] = []) ∨
          ((leftToken.vars.get? "stock").isSome ∧
            ([rightToken] = [] ∨ (stock 0).get? "stock" = none))) := by
  have hi : leftArrivedEngine.instances.find? 2 = some leftArrived := rfl
  have harrived : Eng.arrivedWith leftArrived "join" rightToken = [] ++ leftToken :: [rightToken] :=
    rfl
  obtain ⟨merged, t, hx⟩ : ∃ merged t,
      exec (Eng.arriveAtJoin .plain 2 "join" rightToken) leftArrivedEngine =
        (.ok (some merged), t) := ⟨_, _, rfl⟩
  exact ⟨merged, t, hx, Eng.arriveAtJoin_keeps_change_iff hi hx harrived (by decide) (by decide)⟩

end BpmnEngine
