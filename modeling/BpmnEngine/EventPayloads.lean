import BpmnEngine.FailedDeliveries
import BpmnEngine.DataScopes

/-!
# The variables of an event

A message or a signal lays its variables over those of the token it moves, and a
conditional event replaces them by the variables of the instance. The token of a boundary
event still is in the data scope of its activity, and the next node closes a scope of
another activity by going back to the variables from before it. So the variables of the
event are lost behind an activity with data mappings. What an error boundary event and a
called instance do is to close the scope first, or to write below it.
-/
namespace BpmnEngine

open Program

/-! ## What a node sees on entering -/

namespace DataMappings

variable {d : ProcessDefinition} {name : String} {t t' : Token}

/-- The value that the inputs of a node give to a name when the token enters it. -/
def ownInput (d : ProcessDefinition) (t : Token) (name : String) : Option Value :=
  if t.dataScope.any fun scope => scope.nodeId == t.currentNode then none
  else (evaluateMappings (d.localInputs t.currentNode) t.outerVariables).toOption.bind (·.get? name)

/-- A node has its own inputs; the other variables are those of the token if it already is in the
scope of the node, and the outer ones otherwise. -/
theorem get?_vars_enter_eq (h : enter t d t.currentNode = .ok t') (name : String) :
    (t.Inside t.currentNode → t'.vars.get? name = t.vars.get? name ∧ ownInput d t name = none) ∧
    (¬t.Inside t.currentNode →
      t'.vars.get? name = (ownInput d t name).or (t.outerVariables.get? name)) := by
  have hany : (t.dataScope.any fun scope => scope.nodeId == t.currentNode) = true ↔
      t.Inside t.currentNode := by
    simp [Option.any_eq_true, Token.Inside]
  constructor
  · intro hinside
    rw [enter_of_inside hinside] at h
    cases h
    exact ⟨rfl, by rw [ownInput, if_pos (hany.mpr hinside)]⟩
  · intro houtside
    obtain ⟨inputs, hinputs, hvars, -⟩ := get?_vars_enter h houtside
    rw [ownInput, if_neg fun hin => houtside (hany.mp hin), hinputs, hvars]
    rfl

end DataMappings

/-! ## The token that an event moves -/

def Next.Each (Q : Token → Prop) (next : Next) : Prop :=
  ∀ i tokens, next = .run i tokens → ∀ t ∈ tokens, Q t

theorem Next.each_run {Q : Token → Prop} {i : Uuid} {t : Token} (h : Q t) :
    (Next.run i [t]).Each Q := by
  intro j tokens hrun t' ht'
  cases hrun
  cases List.mem_singleton.mp ht'
  exact h

def Engine.heldScope (e : Engine) (i tokenId : Uuid) : Option DataScope :=
  (e.instances.find? i).bind fun x => (x.tokens.find? tokenId).bind Token.dataScope

def Engine.Waiting (e : Engine) (i tokenId : Uuid) (token : Token) : Prop :=
  ∃ x, e.instances.find? i = some x ∧ x.tokens.find? tokenId = some token

variable {e : Engine} {d : ProcessDefinition}

theorem Engine.Waiting.heldScope {i tokenId : Uuid} {token : Token}
    (h : e.Waiting i tokenId token) : e.heldScope i tokenId = token.dataScope := by
  obtain ⟨x, hx, htoken⟩ := h
  rw [Engine.heldScope, hx, Option.bind_some, htoken, Option.bind_some]

theorem SameCore.heldScope {e' : Engine} (h : SameCore e e') (i tokenId : Uuid) :
    e'.heldScope i tokenId = e.heldScope i tokenId := by
  rw [Engine.heldScope, Engine.heldScope, h.instances]

namespace Eng

variable {env : Env} {e s : Engine} {i tokenId : Uuid} {token : Token} {vars : Variables}
  {name : String} {value : Value} {interrupting : Bool}

theorem takeToken_found (h : exec (takeToken i tokenId) e = (.ok token, s)) :
    e.Waiting i tokenId token := by
  obtain ⟨x, u, hx, hrest⟩ := exec_bind_eq_ok h
  obtain ⟨hfound, rfl⟩ := exec_getInstance_eq_ok hx
  cases htoken : x.tokens.find? tokenId with
  | none => rw [htoken] at hrest; cases hrest
  | some =>
    rw [htoken] at hrest
    cases hrest
    exact ⟨x, hfound, htoken⟩

theorem cloneToken_found {change : Token → Token} {forkId : Token → String}
    (h : exec (cloneToken i tokenId change forkId) e = (.ok token, s)) :
    ∃ original n, e.Waiting i tokenId original ∧ token = { change original with id := n } := by
  obtain ⟨x, u, hx, hrest⟩ := exec_bind_eq_ok h
  obtain ⟨hfound, rfl⟩ := exec_getInstance_eq_ok hx
  cases htoken : x.tokens.find? tokenId with
  | none => rw [htoken] at hrest; cases hrest
  | some original =>
    rw [htoken] at hrest
    cases hrest
    exact ⟨original, _, ⟨x, hfound, htoken⟩, rfl⟩

section

variable (h : exec (eventToken interrupting i tokenId) e = (.ok token, s))

include h

theorem eventToken_found :
    ∃ original n, e.Waiting i tokenId original ∧ token = { original with id := n } := by
  cases interrupting with
  | true => exact ⟨token, token.id, takeToken_found h, rfl⟩
  | false => exact cloneToken_found h

theorem eventToken_heldScope : token.dataScope = e.heldScope i tokenId := by
  obtain ⟨original, n, hwaiting, rfl⟩ := eventToken_found h
  exact hwaiting.heldScope.symm

end

theorem activateHandler_token (handler : EventSubProcess) (subscription : EventSubscription)
    (consumption : EventConsumption) (hvalue : vars.get? name = some value) :
    Yields (activateHandler env i handler subscription vars consumption) fun activation =>
      ∀ a, activation = some a → a.token.dataScope = none ∧
        a.token.vars.get? name = some value := by
  refine .after fun _ => .after fun x => ?_
  split
  · exact .pure fun _ h => by cases h
  · split
    · exact .pure fun _ h => by cases h
    · have hmerged : (x.vars.extend vars).get? name = some value := by
        rw [Map.get?_extend, hvalue]
        rfl
      refine .bind (P := fun t => t.dataScope = none ∧ t.vars.get? name = some value)
        (.after fun _ => .pure ⟨rfl, hmerged⟩) fun t ht => .after fun _ => ?_
      split
      · refine .after fun _ => .after fun _ => .after fun _ => .pure ?_
        intro a ha
        cases ha
        exact ht
      · refine .after fun _ => .pure ?_
        intro a ha
        cases ha
        exact ht

theorem activateEventSubscription_token (consumption : EventConsumption)
    (hvalue : vars.get? name = some value) :
    Yields (activateEventSubscription env i consumption vars) fun activation =>
      ∀ a, activation = some a → a.token.dataScope = none ∧
        a.token.vars.get? name = some value := by
  refine .after fun x => ?_
  split
  · exact .after fun _ => .pure fun _ h => by cases h
  · split
    · exact .pure fun _ h => by cases h
    · split
      · exact .pure fun _ h => by cases h
      · refine .after fun d => ?_
        split
        · exact .throw _
        · exact activateHandler_token _ _ consumption hvalue

theorem each_runActivation {Q : Token → Prop} {activation : Option ScopeActivation}
    (h : ∀ a, activation = some a → Q a.token) : (runActivation i activation).Each Q := by
  match activation, h with
  | none, _ => exact nofun
  | some (.interrupting t), h => exact Next.each_run (h _ rfl)
  | some (.parallel t), h => exact Next.each_run (h _ rfl)

theorem takeBusinessKey_erases (vars : Variables) :
    Yields (takeBusinessKey vars) fun r => r.2 = vars.erase "business_key" := by
  unfold takeBusinessKey
  split
  · exact .pure rfl
  · exact .after fun _ => .pure rfl

theorem startInstance_token (key : Uuid) (parent : Option Uuid) (allowSignalStart : Bool)
    (hvalue : vars.get? name = some value) :
    Yields (startInstance env key vars parent none allowSignalStart) fun r =>
      r.2.dataScope = none ∧
        r.2.vars.get? name = if name = "business_key" then none else some value := by
  refine .after fun (d, start) => .after fun id => .bind ?_ fun t ht => .pure ht
  refine .bind (takeBusinessKey_erases _) fun r hr => .after fun _ => ?_
  refine .bind (P := fun t => t.dataScope = none ∧ t.vars = r.2) (.after fun _ => .pure ⟨rfl, rfl⟩)
    fun t ht => .after fun _ => .after fun _ => .pure ⟨ht.1, ?_⟩
  rw [ht.2, hr]
  split
  case isTrue hname => rw [hname, Map.get?_erase_self]
  case isFalse hname =>
    rw [Map.get?_erase_of_ne hname, Map.get?_extend, hvalue]
    rfl

theorem startScopeListener_token (bpmnId : String) (hvalue : vars.get? name = some value) :
    Yields (startScopeListener env i bpmnId vars) (Next.Each fun t =>
      t.dataScope = none ∧
        t.vars.get? name = if name = "business_key" then none else some value) := by
  refine .after fun found => ?_
  split
  · exact .throw _
  · refine .after fun x => .bind (startInstance_token _ _ false ?_) fun r hr =>
      .pure (Next.each_run hr)
    rw [Map.get?_extend, hvalue]
    rfl

end Eng

/-! ## One event -/

/-- The event starts a new token instead of moving one that waits. -/
def Engine.startsAnew (e : Engine) (p : Pending) : Bool :=
  match p with
  | .message c => e.isSubscription c.instanceId c.id || c.tokenId == 0
  | .signal c => e.isSubscription c.instanceId c.id
  | _ => false

def Engine.carriedScope (e : Engine) (p : Pending) : Option DataScope :=
  if e.startsAnew p then none else e.heldScope p.wait.instanceId p.wait.tokenId

/-- The message is for a scope listener, which starts an instance of its own. -/
def Engine.startsInstance (e : Engine) (p : Pending) : Bool :=
  match p with
  | .message c => !e.isSubscription c.instanceId c.id && c.tokenId == 0
  | _ => false

theorem Engine.carriedScope_of_startsInstance {p : Pending} (h : e.startsInstance p = true) :
    e.carriedScope p = none := by
  cases p with
  | message c =>
    have hnil : c.tokenId = 0 := by
      simp only [startsInstance, Bool.and_eq_true, beq_iff_eq] at h
      exact h.2
    exact if_pos (by simp [startsAnew, hnil])
  | _ => cases h

/-- What the token that goes on has of a variable of the event. -/
structure Engine.Carried (e : Engine) (p : Pending) (name : String) (value : Value) (t : Token) :
    Prop where
  dataScope : t.dataScope = e.carriedScope p
  vars : t.vars.get? name =
    if e.startsInstance p = true ∧ name = "business_key" then none else some value

namespace Eng

variable {env : Env} {e s : Engine} {vars : Variables} {name : String} {value : Value} {next : Next}
  {i tokenId : Uuid} {token : Token} {c : PendingMessageCatch}

theorem clearWaitStatesForToken_core (i tokenId : Uuid) :
    Keeps (SameCore e) (clearWaitStatesForToken i tokenId) :=
  fun s h => h.trans (sameCore_withoutEvents s i tokenId)

theorem cancelPendingActivity_core (i tokenId : Uuid) :
    Keeps (SameCore e) (cancelPendingActivity i tokenId) :=
  .forM fun kind _ => .modify fun s h => h.trans (sameCore_retainPending s kind _)

theorem continueBehind_merged (d : ProcessDefinition) (node : String)
    (hscope : token.dataScope = e.heldScope i tokenId) (hvalue : vars.get? name = some value) :
    Yields (continueBehind env d i node { token with vars := token.vars.extend vars })
      (Next.Each fun t => t.dataScope = e.heldScope i tokenId ∧ t.vars.get? name = some value) := by
  have hmerged : (token.vars.extend vars).get? name = some value := by
    rw [Map.get?_extend, hvalue]
    rfl
  exact .after fun _ => .after fun _ => .pure (Next.each_run ⟨hscope, hmerged⟩)

theorem resumeMessageCatch_each (hvalue : vars.get? name = some value)
    (h : exec (resumeMessageCatch env c vars) e = (.ok next, s)) :
    next.Each fun t => t.dataScope = e.heldScope c.instanceId c.tokenId ∧
      t.vars.get? name = some value := by
  obtain ⟨d, u, hd, hrest⟩ := exec_bind_eq_ok h
  obtain rfl : u = e := definitionOf_keeps.of_exec (P := (· = e)) rfl hd
  obtain ⟨token, v, htoken, hlast⟩ := exec_bind_eq_ok hrest
  have hgoes : Yields (continueBehind env d c.instanceId c.nodeId _) _ :=
    continueBehind_merged d c.nodeId (eventToken_heldScope htoken) hvalue
  refine (?_ : Yields _ _) _ _ _ hlast
  split
  · exact .after fun _ => .after fun _ => .after fun _ => hgoes
  · exact .after fun _ => hgoes

theorem resumeSignalCatch_each {c : PendingSignalCatch} (hvalue : vars.get? name = some value)
    (h : exec (resumeSignalCatch env c vars) e = (.ok next, s)) :
    next.Each fun t => t.dataScope = e.heldScope c.instanceId c.tokenId ∧
      t.vars.get? name = some value := by
  obtain ⟨d, u, hd, hrest⟩ := exec_bind_eq_ok h
  obtain rfl : u = e := definitionOf_keeps.of_exec (P := (· = e)) rfl hd
  -- dropping the waits and tasks of the token leaves the instances alone
  have hgoes : ∀ v interrupting, SameCore u v →
      exec (do
        let token ← eventToken interrupting c.instanceId c.tokenId
        updateInstance c.instanceId fun i => { i with state := runningUnlessParallel i.state }
        continueBehind env d c.instanceId c.nodeId
          { token with vars := token.vars.extend vars }) v = (.ok next, s) →
      next.Each fun t => t.dataScope = u.heldScope c.instanceId c.tokenId ∧
        t.vars.get? name = some value := by
    intro v interrupting hcore hv
    obtain ⟨token, w, htoken, hlast⟩ := exec_bind_eq_ok hv
    have hscope : token.dataScope = u.heldScope c.instanceId c.tokenId := by
      rw [eventToken_heldScope htoken, hcore.heldScope]
    exact Yields.after (fun _ => continueBehind_merged d c.nodeId hscope hvalue) _ _ _ hlast
  cases hinterrupting : !isNonInterrupting d c.nodeId isBoundarySignal with
  | true =>
    rw [hinterrupting] at hrest
    obtain ⟨_, v, hclear, hrest⟩ := exec_bind_eq_ok hrest
    obtain ⟨_, w, hcancel, hrest⟩ := exec_bind_eq_ok hrest
    have hcore := (clearWaitStatesForToken_core _ _).of_exec (SameCore.refl u) hclear
    exact hgoes w true ((cancelPendingActivity_core _ _).of_exec hcore hcancel) hrest
  | false =>
    rw [hinterrupting] at hrest
    exact hgoes u false (SameCore.refl u) hrest

theorem releaseCaught_each {target : String}
    (h : exec (releaseCaught i tokenId target vars) e = (.ok token, s)) :
    token.dataScope = e.heldScope i tokenId ∧ token.vars = vars := by
  obtain ⟨caught, u, hcaught, hrest⟩ := exec_bind_eq_ok h
  have hscope := (takeToken_found hcaught).heldScope.symm
  cases hrest
  exact ⟨hscope, rfl⟩

theorem fireCatch_each {d : ProcessDefinition} {c : PendingConditionalCatch} {tokens : List Token}
    (h : exec (fireCatch env d c.instanceId vars c) e = (.ok tokens, s)) :
    ∀ t ∈ tokens, t.dataScope = e.heldScope c.instanceId c.tokenId ∧ t.vars = vars := by
  obtain ⟨_, u, hu, hrest⟩ := exec_bind_eq_ok h
  have hcore : SameCore e u := by
    cases hu
    exact sameCore_removePending e .conditional c.id
  have hkeeps : ∀ {label : String} {target : String} {v w : Engine}, SameCore e v →
      exec (conditionalTarget env d label c.nodeId vars) v = (.ok target, w) → SameCore e w :=
    fun hv hw => (conditionalTarget_keeps _ _).of_exec hv hw
  split at hrest
  · obtain ⟨target, v, hv, hrest⟩ := exec_bind_eq_ok hrest
    obtain ⟨token, w, hw, hrest⟩ := exec_bind_eq_ok hrest
    cases hrest
    rw [← (hkeeps hcore hv).heldScope]
    simpa using releaseCaught_each hw
  · obtain ⟨_, v, hclear, hrest⟩ := exec_bind_eq_ok hrest
    obtain ⟨_, w, hcancel, hrest⟩ := exec_bind_eq_ok hrest
    have hcleared := (clearWaitStatesForToken_core _ _).of_exec hcore hclear
    have hcancelled := (cancelPendingActivity_core _ _).of_exec hcleared hcancel
    obtain ⟨target, v', hv, hrest⟩ := exec_bind_eq_ok hrest
    obtain ⟨token, w', hw, hrest⟩ := exec_bind_eq_ok hrest
    cases hrest
    rw [← (hkeeps hcancelled hv).heldScope]
    simpa using releaseCaught_each hw
  · obtain ⟨target, v, hv, hrest⟩ := exec_bind_eq_ok hrest
    obtain ⟨token, w, hw, hrest⟩ := exec_bind_eq_ok hrest
    cases hrest
    obtain ⟨original, n, hwaiting, rfl⟩ := cloneToken_found hw
    rw [← (hkeeps hcore hv).heldScope, hwaiting.heldScope]
    simp
  · cases hrest
    exact nofun

theorem deliverMessage_carried (hc : e.Holds (.message c)) (hvalue : vars.get? name = some value)
    (h : exec (deliverMessage env vars c.id) e = (.ok next, s)) :
    next.Each (e.Carried (.message c) name value) := by
  have hcore := sameCore_cleared e .message c.id c.instanceId c.tokenId
  rw [exec_deliverMessage hc] at h
  cases hb' : e.isSubscription c.instanceId c.id with
  | true =>
    rw [hb', if_pos rfl] at h
    obtain ⟨activation, u, hu, hrest⟩ := exec_bind_eq_ok h
    cases hrest
    refine each_runActivation fun a ha => ?_
    obtain ⟨hscope, hvars⟩ := activateEventSubscription_token _ hvalue _ _ _ hu a ha
    exact ⟨by simp [hscope, Engine.carriedScope, Engine.startsAnew, hb'],
      by simp [hvars, Engine.startsInstance, hb']⟩
  | false =>
    rw [hb', if_neg Bool.false_ne_true] at h
    split at h
    case isTrue hnil =>
      intro i tokens hrun t ht
      obtain ⟨hscope, hvars⟩ := startScopeListener_token _ hvalue _ _ _ h i tokens hrun t ht
      exact ⟨by simp [hscope, Engine.carriedScope, Engine.startsAnew, hnil],
        by simp [hvars, Engine.startsInstance, hb', hnil]⟩
    case isFalse hnil =>
      intro i tokens hrun t ht
      obtain ⟨hscope, hvars⟩ := resumeMessageCatch_each hvalue h i tokens hrun t ht
      rw [hcore.heldScope] at hscope
      have hmoves : ¬e.startsAnew (.message c) = true := by simp [Engine.startsAnew, hb', hnil]
      exact ⟨by rw [Engine.carriedScope, if_neg hmoves]; exact hscope,
        by simp [hvars, Engine.startsInstance, hb', hnil]⟩

theorem deliverSignal_carried {c : PendingSignalCatch} (hc : e.Holds (.signal c))
    (hvalue : vars.get? name = some value)
    (h : exec (deliverSignal env vars c.id) e = (.ok next, s)) :
    next.Each (e.Carried (.signal c) name value) := by
  have hcore := sameCore_removePending e .signal c.id
  rw [exec_deliverSignal hc] at h
  cases hb' : e.isSubscription c.instanceId c.id with
  | true =>
    rw [hb', if_pos rfl] at h
    obtain ⟨activation, u, hu, hrest⟩ := exec_bind_eq_ok h
    cases hrest
    refine each_runActivation fun a ha => ?_
    obtain ⟨hscope, hvars⟩ := activateEventSubscription_token _ hvalue _ _ _ hu a ha
    exact ⟨by simp [hscope, Engine.carriedScope, Engine.startsAnew, hb'],
      by simp [hvars, Engine.startsInstance]⟩
  | false =>
    rw [hb', if_neg Bool.false_ne_true] at h
    intro i tokens hrun t ht
    obtain ⟨hscope, hvars⟩ := resumeSignalCatch_each hvalue h i tokens hrun t ht
    rw [hcore.heldScope] at hscope
    have hmoves : ¬e.startsAnew (.signal c) = true := by simp [Engine.startsAnew, hb']
    exact ⟨by rw [Engine.carriedScope, if_neg hmoves]; exact hscope,
      by simp [hvars, Engine.startsInstance]⟩

end Eng

theorem Pending.fire_carried {env : Env} {s : Engine} {p : Pending} {vars : Variables} {next : Next}
    {rearm : Bool} {name : String} {value : Value} (hp : e.Holds p)
    (hkind : p.wait.kind = .message ∨ p.wait.kind = .signal ∨ p.wait.kind = .conditional)
    (hvalue : vars.get? name = some value)
    (hx : exec (p.fire env d vars) e = (.ok (next, rearm), s)) :
    next.Each (e.Carried p name value) := by
  cases p with
  | message =>
    obtain ⟨next', u, hu, hrest⟩ := exec_bind_eq_ok hx
    cases hrest
    exact Eng.deliverMessage_carried hp hvalue hu
  | signal =>
    obtain ⟨next', u, hu, hrest⟩ := exec_bind_eq_ok hx
    cases hrest
    exact Eng.deliverSignal_carried hp hvalue hu
  | conditional =>
    obtain ⟨tokens, u, hu, hrest⟩ := exec_bind_eq_ok hx
    cases hrest
    intro i tokens' hrun t ht
    cases hrun
    obtain ⟨hscope, hvars⟩ := Eng.fireCatch_each hu t ht
    exact ⟨hscope, by simp [hvars, hvalue, Engine.startsInstance]⟩
  | timer => rcases hkind with hkind | hkind | hkind <;> cases hkind
  | userTask => rcases hkind with hkind | hkind | hkind <;> cases hkind
  | serviceTask => rcases hkind with hkind | hkind | hkind <;> cases hkind

/-- Nothing takes a variable of the event away before the next node: the token goes on in no scope
or in that of the node itself, or the variable was there before the scope; and it is not the
business key of a new instance. -/
def Engine.Brings (e : Engine) (p : Pending) (node name : String) (value : Value) : Prop :=
  ¬(e.startsInstance p = true ∧ name = "business_key") ∧
    ∀ scope, e.carriedScope p = some scope →
      scope.nodeId = node ∨ scope.originalVariables.get? name = some value

/-- Every message, signal or conditional event, with its variables, at every state of the engine:
the node that the token executes next finds a variable of the event exactly if an input of that
node gives it this value, or no input of the node has the name and nothing took it away. -/
theorem Pending.payload_reaches_iff {env : Env} {e s : Engine} {p : Pending}
    {d d' : ProcessDefinition} {vars : Variables} {i : Uuid} {tokens : List Token} {rearm : Bool}
    {t t' : Token} {name : String} {value : Value} (hp : e.Holds p)
    (hkind : p.wait.kind = .message ∨ p.wait.kind = .signal ∨ p.wait.kind = .conditional)
    (hx : exec (p.fire env d vars) e = (.ok (.run i tokens, rearm), s)) (ht : t ∈ tokens)
    (henter : DataMappings.enter t d' t.currentNode = .ok t')
    (hvalue : vars.get? name = some value) :
    t'.vars.get? name = some value ↔
      DataMappings.ownInput d' t name = some value ∨
        DataMappings.ownInput d' t name = none ∧ e.Brings p t.currentNode name value := by
  obtain ⟨hscope, hvars⟩ := Pending.fire_carried hp hkind hvalue hx i tokens rfl t ht
  obtain ⟨hin, hout⟩ := DataMappings.get?_vars_enter_eq henter name
  by_cases hinside : t.Inside t.currentNode
  · obtain ⟨hsame, hown⟩ := hin hinside
    obtain ⟨scope, htscope, hnode⟩ := hinside
    have hcarried : e.carriedScope p = some scope := hscope.symm.trans htscope
    simp [hsame, hown, hvars, Engine.Brings, hcarried, hnode]
  · rw [hout hinside]
    cases hown : DataMappings.ownInput d' t name with
    | some => simp
    | none =>
      cases htscope : t.dataScope with
      | none =>
        have hcarried : e.carriedScope p = none := hscope.symm.trans htscope
        simp [Token.outerVariables_of_none htscope, hvars, Engine.Brings, hcarried]
      | some scope =>
        have hcarried : e.carriedScope p = some scope := hscope.symm.trans htscope
        have hmoves : e.startsInstance p = false := by
          rw [← Bool.not_eq_true]
          intro hstarts
          rw [Engine.carriedScope_of_startsInstance hstarts] at hcarried
          cases hcarried
        have hnode : scope.nodeId ≠ t.currentNode :=
          fun hnode => hinside ⟨scope, htscope, hnode⟩
        simp [Token.outerVariables_of_scope htscope, Engine.Brings, hcarried, hmoves, hnode]

/-! ## A note on an offer with mappings -/

def mappedOffer (mappings : Map String ActivityMappings) : ProcessDefinition :=
  { offer [] with dataMappings := mappings }

def amountInput : Map String ActivityMappings :=
  Map.ofList [("offer", ⟨[⟨"amount", .literal (.number (.int 5))⟩], [], none, none⟩)]

def noteText : Variables := Map.ofList [("text", .string "urgent")]

/-- The messages that are waited for, the scope of the token of the offer, and the text that each
token that a note sets free finds in its next node. -/
def noteFate (d : ProcessDefinition) (e : Engine) :
    List PendingMessageCatch × Bool × List (Option Value) :=
  (e.pendingMessageCatches.entries, (e.carriedScope awaitedNote).isSome,
    match (exec (awaitedNote.fire .plain d noteText) e).1 with
    | .ok (.run _ tokens, _) => tokens.filterMap fun t =>
      (DataMappings.enter t d t.currentNode).toOption.map fun t' => t'.vars.get? "text"
    | _ => [])

theorem exists_of_noteFate {inScope : Bool} {text : Option Value}
    (h : noteFate d e = ([⟨5, 2, "note", "note", 4⟩], inScope, [text])) :
    e.Holds awaitedNote ∧ (e.carriedScope awaitedNote).isSome = inScope ∧
      ∃ i tokens rearm s t t',
        exec (awaitedNote.fire .plain d noteText) e = (.ok (.run i tokens, rearm), s) ∧
        t ∈ tokens ∧ DataMappings.enter t d t.currentNode = .ok t' ∧
        t'.vars.get? "text" = text := by
  simp only [noteFate, Prod.mk.injEq] at h
  obtain ⟨hmessages, hscope, hfate⟩ := h
  have hheld : e.Holds awaitedNote := by
    show _ ∈ e.pendingMessageCatches.entries
    rw [hmessages]
    exact List.mem_singleton.mpr rfl
  refine ⟨hheld, hscope, ?_⟩
  rcases hx : exec (awaitedNote.fire .plain d noteText) e with ⟨_ | ⟨_ | ⟨i, tokens⟩, rearm⟩, s⟩
  · rw [hx] at hfate
    cases hfate
  · rw [hx] at hfate
    cases hfate
  · rw [hx] at hfate
    dsimp only at hfate
    have hmem : text ∈ tokens.filterMap fun t =>
        (DataMappings.enter t d t.currentNode).toOption.map fun t' => t'.vars.get? "text" := by
      rw [hfate]
      exact List.mem_singleton.mpr rfl
    obtain ⟨t, ht, hentered⟩ := List.mem_filterMap.mp hmem
    cases henter : DataMappings.enter t d t.currentNode with
    | error => rw [henter] at hentered; cases hentered
    | ok t' =>
      rw [henter] at hentered
      exact ⟨i, tokens, rearm, s, t, t', rfl, ht, henter, Option.some.inj hentered⟩

def mappedOfferRun (mappings : Map String ActivityMappings) : Option Config :=
  Config.performAll .plain 100 (Config.initial 0)
    [.deployDefinition (mappedOffer mappings), .startInstance 1 ∅]

/-- The clerk's task has an input. What a note says is gone when the next node executes. -/
theorem note_text_lost :
    ∃ c i tokens rearm s t t', Reaches (Config.step .plain) (fun _ _ => True) (.initial 0) c ∧
      c.engine.Holds awaitedNote ∧
      exec (awaitedNote.fire .plain (mappedOffer amountInput) noteText) c.engine =
        (.ok (.run i tokens, rearm), s) ∧
      t ∈ tokens ∧
      DataMappings.enter t (mappedOffer amountInput) t.currentNode = .ok t' ∧
      noteText.get? "text" = some (.string "urgent") ∧ t'.vars.get? "text" = none := by
  have hrun : (mappedOfferRun amountInput).map
      (fun c => noteFate (mappedOffer amountInput) c.engine) =
      some ([⟨5, 2, "note", "note", 4⟩], true, [none]) := by
    decide +kernel
  obtain ⟨c, hreach, -, hfate⟩ := Config.exists_of_performAll hrun
  obtain ⟨hheld, -, i, tokens, rearm, s, t, t', hx, ht, henter, htext⟩ := exists_of_noteFate hfate
  exact ⟨c, i, tokens, rearm, s, t, t', hreach, hheld, hx, ht, henter, rfl, htext⟩

/-- Without mappings the next node finds what a note says. -/
theorem note_text_found :
    ∃ c i tokens rearm s t t', Reaches (Config.step .plain) (fun _ _ => True) (.initial 0) c ∧
      c.engine.Holds awaitedNote ∧
      exec (awaitedNote.fire .plain (mappedOffer ∅) noteText) c.engine =
        (.ok (.run i tokens, rearm), s) ∧
      t ∈ tokens ∧
      DataMappings.enter t (mappedOffer ∅) t.currentNode = .ok t' ∧
      t'.vars.get? "text" = some (.string "urgent") := by
  have hrun : (mappedOfferRun ∅).map (fun c => noteFate (mappedOffer ∅) c.engine) =
      some ([⟨5, 2, "note", "note", 4⟩], false, [some (.string "urgent")]) := by
    decide +kernel
  obtain ⟨c, hreach, -, hfate⟩ := Config.exists_of_performAll hrun
  obtain ⟨hheld, hscope, i, tokens, rearm, s, t, t', hx, ht, henter, -⟩ := exists_of_noteFate hfate
  refine ⟨c, i, tokens, rearm, s, t, t', hreach, hheld, hx, ht,
    henter, (Pending.payload_reaches_iff hheld (.inl rfl) hx ht henter rfl).mpr (.inr ⟨?_, ?_⟩)⟩
  · have hlocal : (mappedOffer ∅).localInputs t.currentNode = [] := ite_self _
    rw [DataMappings.ownInput, hlocal]
    split <;> rfl
  · refine ⟨fun hstarts => ?_, fun scope hcarried => ?_⟩
    · exact absurd hstarts.2 (by decide)
    · rw [hcarried] at hscope
      cases hscope

end BpmnEngine
