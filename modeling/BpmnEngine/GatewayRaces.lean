import BpmnEngine.FailedDeliveries

/-!
# Events that reach an event-based gateway at the same time

An event-based gateway files one wait for each of its alternatives, all for the same token.
Whoever serves one of them takes the wait out of its table, drops the other waits of the
token, takes the token out of its instance and goes on behind the event. Each of these is an
atomic access of its own here, and any number of deliveries run at the same time, also while
the gateway is still filing. As long as a delivery takes its wait out when all alternatives
are filed and no other delivery has one in hand, and no timer is filed again after it has
taken the token, the token is resumed once and no alternative is left. Two deliveries that
have both taken out their waits can both take the token: the first one parks it at the next
activity, where the second one finds it.
-/
namespace BpmnEngine

open Program Eng Engine

/-! ## Deliveries -/

namespace EventAlternative

def wait (a : EventAlternative) : Wait := a.pending.wait

def isSignal : EventAlternative → Bool
  | .signal _ => true
  | _ => false

def interrupts (a : EventAlternative) (d : ProcessDefinition) : Bool :=
  !isNonInterrupting d a.wait.nodeId a.wait.kind.boundarySort

def lookup (e : Engine) : EventAlternative → Option EventAlternative
  | .timer t => (e.pendingTimers.find? t.id).map .timer
  | .message c => (e.pendingMessageCatches.find? c.id).map .message
  | .signal c => (e.pendingSignalCatches.find? c.id).map .signal

/-- The event may be served: the wait is filed, and a timer is due in an instance that is not
suspended. -/
def deliverable (e : Engine) (a : EventAlternative) : Bool :=
  (a.lookup e).isSome && match a with
    | .timer t => match exec dueTimers e with
        | (.ok due, _) => due.contains t.id
        | (.error _, _) => false
    | .message c => (e.instances.find? c.instanceId).isSome
    | .signal _ => true

end EventAlternative

/-- Where a delivery is: before which access. -/
inductive DeliveryStage where
  | collected
  | clearing (d : Option ProcessDefinition) (left : List WaitKind)
  | examining
  | marking
  | reading
  | cancelling (d : ProcessDefinition)
  | taking (d : ProcessDefinition)
  | moving (d : ProcessDefinition) (token : Token)
  | running
  | failed (error : EngineError)
  | ended

/-- The service of one wait by one of the three processors. -/
structure Delivery where
  alternative : EventAlternative
  vars : Variables
  stage : DeliveryStage

namespace Delivery

variable (env : Env)

def tables : List WaitKind := [.timer, .message, .signal, .conditional]

/-- The delivery has taken its wait out of the table and has not ended. -/
def inHand (δ : Delivery) : Bool :=
  match δ.stage with
  | .collected | .ended => false
  | _ => true

def at_ (δ : Delivery) (stage : DeliveryStage) : Delivery := { δ with stage := stage }

/-- A failed timer is filed again; the others only end. -/
def fail (δ : Delivery) (error : EngineError) : Delivery :=
  match δ.alternative with
  | .timer _ => δ.at_ (.failed error)
  | _ => δ.at_ .ended

def perform {α : Type} (δ : Delivery) (m : Eng α) (e : Engine) (k : α → DeliveryStage) :
    Delivery × Engine :=
  match exec m e with
  | (.ok a, e) => (δ.at_ (k a), e)
  | (.error error, e) => (δ.fail error, e)

/-- What is done with the token once it is taken, up to the batch that follows. -/
def leave (δ : Delivery) (d : ProcessDefinition) (token : Token) : Eng Next := do
  let w := δ.alternative.wait
  match δ.alternative with
  | .timer _ =>
    if δ.alternative.interrupts d then
      cancelTasksAt w.instanceId w.tokenId token.currentNode .userTask
      dropServiceTasksAt w.instanceId w.tokenId token.currentNode
    continueBehind env d w.instanceId w.nodeId token
  | .message _ =>
    if δ.alternative.interrupts d then
      cancelTasksAt w.instanceId w.tokenId token.currentNode .userTask
      cancelTasksAt w.instanceId w.tokenId token.currentNode .serviceTask
    updateInstance w.instanceId fun i => { i with state := runningUnlessParallel i.state }
    continueBehind env d w.instanceId w.nodeId { token with vars := token.vars.extend δ.vars }
  | .signal _ =>
    updateInstance w.instanceId fun i => { i with state := runningUnlessParallel i.state }
    continueBehind env d w.instanceId w.nodeId { token with vars := token.vars.extend δ.vars }

/-- Where the service of a wait that is no event subscription goes on. -/
def examined (a : EventAlternative) : DeliveryStage :=
  match a with
  | .timer _ => .marking
  | .message _ => if a.wait.tokenId = 0 then .ended else .reading
  | .signal _ => .reading

/-- The next access. What follows when the wait is an event subscription or a scope listener is
for other tokens and happens elsewhere. -/
def access (δ : Delivery) (e : Engine) : Delivery × Engine :=
  let w := δ.alternative.wait
  match δ.stage with
  | .collected =>
    match δ.alternative.lookup e with
    | none => (δ.at_ .ended, e)
    | some a =>
      ({ δ with
          alternative := a
          stage := if a.isSignal then .examining else .clearing none tables },
        e.removePending a.wait.kind a.wait.id)
  | .clearing d (kind :: left) =>
    (δ.at_ (.clearing d left), e.retainPending kind fun v =>
      !(v.instanceId == w.instanceId && v.tokenId == w.tokenId))
  | .clearing none [] => (δ.at_ .examining, e)
  | .clearing (some d) [] => (δ.at_ (.cancelling d), e)
  | .examining =>
    δ.perform (isEventSubscription w.instanceId w.id) e fun subscribed =>
      if subscribed then .ended else examined δ.alternative
  | .marking =>
    δ.perform (updateInstance w.instanceId fun i => { i with state := .running }) e fun _ =>
      if w.tokenId = 0 then .ended else .reading
  | .reading =>
    δ.perform (Eng.definitionOf w.instanceId) e fun d =>
      if δ.alternative.isSignal && δ.alternative.interrupts d then .clearing (some d) tables
      else .taking d
  | .cancelling d =>
    δ.perform (cancelPendingActivity w.instanceId w.tokenId) e fun _ => .taking d
  | .taking d =>
    δ.perform (eventToken (δ.alternative.interrupts d) w.instanceId w.tokenId) e
      fun token => .moving d token
  | .moving d token => δ.perform (δ.leave env d token) e fun _ => .running
  | .failed error =>
    match δ.alternative with
    | .timer t => (δ.at_ .ended, after (rescheduleFailedTimer t error) e)
    | _ => (δ.at_ .ended, e)
  | .running | .ended => (δ, e)

/-- The access resumes the waiting token. -/
def resumes (δ δ' : Delivery) : Bool :=
  match δ.stage, δ'.stage with
  | .taking d, .moving _ _ => δ.alternative.interrupts d
  | _, _ => false

/-- The batch of the resumed token has returned. A recurring timer is filed once more. -/
def returned (δ : Delivery) (result : EngineResult Unit) (e : Engine) : Delivery × Engine :=
  match result, δ.alternative with
  | .error error, _ => (δ.fail error, e)
  | .ok _, .timer t => (δ.at_ .ended, after (rearmTimer env t) e)
  | .ok _, _ => (δ.at_ .ended, e)

end Delivery

/-! ## A delivery that nobody interferes with -/

namespace Delivery

/-- The delivery has gone as far as it can before its batch returns. -/
def atRest (δ : Delivery) : Bool :=
  match δ.stage with
  | .running | .failed _ | .ended => true
  | _ => false

def settle (env : Env) : Nat → Delivery × Engine → Delivery × Engine
  | 0, x => x
  | fuel + 1, x => if x.1.atRest then x else settle env fuel (x.1.access env x.2)

section Alone

variable {env : Env} {δ : Delivery} {e : Engine} {fuel : Nat}

variable {vars : Variables} {a : EventAlternative}

end Alone

end Delivery

/-! ## The race -/

/-- A token that waits at an event-based gateway, and the waits of the alternatives. -/
structure GatewayVisit where
  instanceId : Uuid
  tokenId : Uuid
  alternatives : List EventAlternative

namespace GatewayVisit

variable (g : GatewayVisit)

def ids : List Uuid := g.alternatives.map fun a => a.wait.id

def Elsewhere (e e' : Engine) : Prop :=
  ∀ w ∈ e'.waits, w.id ∈ g.ids → w ∈ e.waits

instance (e e' : Engine) : Decidable (g.Elsewhere e e') :=
  inferInstanceAs (Decidable (∀ w ∈ e'.waits, w.id ∈ g.ids → w ∈ e.waits))

def Closed (e : Engine) : Prop := ∀ w ∈ e.waits, w.id ∉ g.ids

end GatewayVisit

/-- The engine, the alternatives that the gateway has still to file, the deliveries that have
begun, and the alternatives that have resumed the token so far. -/
structure GatewayRace where
  engine : Engine
  arming : List EventAlternative
  deliveries : List Delivery
  resumed : List EventAlternative

/-- One access: by the gateway, by a processor that collects a wait or has a batch returned to
it, by a delivery, or by anyone else. -/
inductive RaceMove where
  | arm
  | collect (a : EventAlternative) (vars : Variables)
  | access (k : Nat)
  | returns (k : Nat) (result : EngineResult Unit)
  | elsewhere (e : Engine)

namespace GatewayRace

variable (env : Env) (g : GatewayVisit)

def opened (e : Engine) : GatewayRace := ⟨e, g.alternatives, [], []⟩

def advance (s : GatewayRace) (k : Nat) (δ : Delivery) (next : Delivery × Engine) : GatewayRace :=
  { s with
    engine := next.2
    deliveries := s.deliveries.set k next.1
    resumed := if δ.resumes next.1 then s.resumed ++ [δ.alternative] else s.resumed }

def step (s : GatewayRace) : RaceMove → Option GatewayRace
  | .arm =>
    match s.arming with
    | [] => none
    | a :: rest => some { s with engine := s.engine.insertPending a.pending, arming := rest }
  | .collect a vars =>
    if a ∈ g.alternatives ∧ a.deliverable s.engine = true then
      some { s with deliveries := s.deliveries ++ [⟨a, vars, .collected⟩] }
    else none
  | .access k => (s.deliveries[k]?).map fun δ => s.advance k δ (δ.access env s.engine)
  | .returns k result =>
    (s.deliveries[k]?).bind fun δ =>
      match δ.stage with
      | .running => some (s.advance k δ (δ.returned env result s.engine))
      | _ => none
  | .elsewhere e => if g.Elsewhere s.engine e then some { s with engine := e } else none

/-- A delivery takes its wait out when the gateway has filed all alternatives and nobody else has
one in hand, and a timer that has resumed the token is not filed again: its flow leads on, its
batch succeeds, and it does not recur. -/
def Orderly (s : GatewayRace) : RaceMove → Prop
  | .access k => ∀ δ, s.deliveries[k]? = some δ →
      match δ.stage, δ.alternative with
      | .collected, a => (a.lookup s.engine).isSome = true →
          s.arming = [] ∧ ∀ δ' ∈ s.deliveries, δ'.inHand = false
      | .moving d token, .timer t =>
        (∃ target, d.resolveNextTarget env t.nodeId token.vars = .ok target) ∧
          (s.engine.instances.find? t.instanceId).isSome = true
      | _, _ => True
  | .returns k result => ∀ δ t, s.deliveries[k]? = some δ → δ.alternative = .timer t →
      result = .ok () ∧ t.recurs = false
  | _ => True

end GatewayRace

/-! ## What the accesses do to the alternatives -/

namespace GatewayVisit

variable {g : GatewayVisit} {e e' : Engine}

theorem Elsewhere.refl (e : Engine) : g.Elsewhere e e := fun _ hw _ => hw

theorem Elsewhere.closed (h : g.Elsewhere e e') (hclosed : g.Closed e) : g.Closed e' :=
  fun w hw hid => hclosed w (h w hw hid) hid

theorem elsewhere_of_gone {α : Type} {m : Eng α} (h : ∀ p : Pending, Keeps p.Gone m) (e : Engine) :
    g.Elsewhere e (after m e) := by
  intro w hw _
  obtain ⟨p, hp, rfl⟩ := exists_holds hw
  by_contra hgone
  exact h p e (fun hheld => hgone hheld.mem_waits) hp

end GatewayVisit

namespace Delivery

variable {env : Env} {g : GatewayVisit} {δ : Delivery} {e e' : Engine} {α : Type}
  {d : ProcessDefinition} {token : Token} {k : α → DeliveryStage}

def hasTaken (δ : Delivery) : Bool :=
  match δ.stage with
  | .moving .. | .running => true
  | _ => false

/-- What a delivery has cleared so far. -/
def Cleared (g : GatewayVisit) (δ : Delivery) (e : Engine) : Prop :=
  match δ.stage with
  | .clearing _ left => ∀ w ∈ e.waits, w.id ∈ g.ids → w.kind ∈ left
  | .examining | .marking | .reading => δ.alternative.isSignal = false → g.Closed e
  | .cancelling _ => g.Closed e
  | .taking d => δ.alternative.interrupts d = true → g.Closed e
  | _ => True

theorem Cleared.elsewhere (h : δ.Cleared g e) (he : g.Elsewhere e e') : δ.Cleared g e' := by
  unfold Cleared at h ⊢
  split
  case h_1 hstage =>
    rw [hstage] at h
    exact fun w hw hid => h w (he w hw hid) hid
  case h_2 hstage | h_3 hstage | h_4 hstage =>
    rw [hstage] at h
    exact fun hsignal => he.closed (h hsignal)
  case h_5 hstage =>
    rw [hstage] at h
    exact he.closed h
  case h_6 d hstage =>
    rw [hstage] at h
    exact fun hinterrupts => he.closed (h hinterrupts)
  case h_7 => trivial

theorem cleared_of_not_inHand (h : δ.inHand = false) : δ.Cleared g e := by
  unfold inHand at h
  unfold Cleared
  split at h
  · next hstage => rw [hstage]; trivial
  · next hstage => rw [hstage]; trivial
  · cases h

theorem perform_engine {m : Eng α} : (δ.perform m e k).2 = after m e := by
  unfold perform after
  split <;> next h => rw [h]

theorem perform_cases (m : Eng α) (k : α → DeliveryStage) :
    (∃ a, (δ.perform m e k).1 = δ.at_ (k a) ∧ (exec m e).1 = .ok a) ∨
      ∃ error, (δ.perform m e k).1 = δ.fail error ∧ (exec m e).1 = .error error := by
  unfold perform
  rcases exec m e with ⟨error | a, t⟩
  · exact .inr ⟨error, rfl, rfl⟩
  · exact .inl ⟨a, rfl, rfl⟩

/-- A step of a delivery that has its wait in hand and does not file it again. -/
structure Progress (g : GatewayVisit) (δ : Delivery) (e : Engine) (next : Delivery × Engine) :
    Prop where
  alternative : next.1.alternative = δ.alternative
  elsewhere : g.Elsewhere e next.2
  cleared : next.1.Cleared g next.2
  taken : δ.hasTaken = true → next.1.inHand = true → next.1.hasTaken = true
  resumed : δ.resumes next.1 = true → g.Closed next.2

theorem alternative_fail (error : EngineError) : (δ.fail error).alternative = δ.alternative := by
  unfold fail
  split <;> rfl

theorem cleared_fail (error : EngineError) : (δ.fail error).Cleared g e := by
  unfold fail
  split <;> trivial

theorem resumes_fail (error : EngineError) : δ.resumes (δ.fail error) = false := by
  unfold resumes fail
  split
  · next hmoving => split at hmoving <;> cases hmoving
  · rfl

theorem of_resumes {δ' : Delivery} (h : δ.resumes δ' = true) :
    ∃ d, δ.stage = .taking d ∧ δ.alternative.interrupts d = true ∧ δ'.hasTaken = true := by
  unfold resumes at h
  split at h
  · next d _ _ hstage hnext => exact ⟨d, hstage, h, by rw [hasTaken, hnext]⟩
  · cases h

/-- A step that performs a program: what is left to show is what its values lead to. -/
theorem Progress.perform {m : Eng α} (hm : ∀ p : Pending, Keeps p.Gone m)
    (htaken : δ.hasTaken = false)
    (hk : g.Elsewhere e (after m e) → ∀ a, (δ.at_ (k a)).Cleared g (after m e))
    (hresumed : ∀ d, δ.stage = .taking d → δ.alternative.interrupts d = true → g.Closed e) :
    Progress g δ e (δ.perform m e k) := by
  have helsewhere : g.Elsewhere e (after m e) := GatewayVisit.elsewhere_of_gone hm e
  rcases δ.perform_cases (e := e) m k with ⟨a, ha, _⟩ | ⟨error, herror, _⟩
  · refine ⟨by rw [ha]; rfl, perform_engine ▸ helsewhere, ?_, by simp [htaken], fun h => ?_⟩
    · rw [ha, perform_engine]
      exact hk helsewhere a
    · rw [ha] at h
      rw [perform_engine]
      obtain ⟨d, hstage, hinterrupts, _⟩ := of_resumes h
      exact helsewhere.closed (hresumed d hstage hinterrupts)
  · refine ⟨by rw [herror, alternative_fail], perform_engine ▸ helsewhere, ?_, by simp [htaken],
      fun h => ?_⟩
    · rw [herror]
      exact cleared_fail error
    · rw [herror, resumes_fail] at h
      cases h

def Owned (g : GatewayVisit) (e : Engine) : Prop :=
  ∀ w ∈ e.waits, w.id ∈ g.ids →
    w.instanceId = g.instanceId ∧ w.tokenId = g.tokenId ∧ w.kind ∈ tables

def IsOf (g : GatewayVisit) (a : EventAlternative) : Prop :=
  a.wait.id ∈ g.ids ∧ a.wait.instanceId = g.instanceId ∧ a.wait.tokenId = g.tokenId

theorem clearing_progress {d : Option ProcessDefinition} {kind : WaitKind} {left : List WaitKind}
    (hstage : δ.stage = .clearing d (kind :: left)) (hof : IsOf g δ.alternative)
    (howned : Owned g e) (hcleared : δ.Cleared g e) : Progress g δ e (δ.access env e) := by
  have haccess : δ.access env e = (δ.at_ (.clearing d left), e.retainPending kind fun v =>
      !(v.instanceId == δ.alternative.wait.instanceId &&
        v.tokenId == δ.alternative.wait.tokenId)) := by
    rw [access, hstage]
  rw [haccess]
  refine ⟨rfl, fun w hw _ => (mem_waits_retainPending.mp hw).1, fun w hw hid => ?_,
    fun htaken => ?_, fun hresumes => ?_⟩
  · obtain ⟨hold, hkept⟩ := mem_waits_retainPending.mp hw
    obtain ⟨hi, ht, _⟩ := howned w hold hid
    rw [Cleared, hstage] at hcleared
    refine (List.mem_cons.mp (hcleared w hold hid)).resolve_left fun hkind => ?_
    have hq := hkept hkind
    rw [hof.2.1, hof.2.2, hi, ht] at hq
    simp at hq
  · simp [hasTaken, hstage] at htaken
  · simp [resumes, hstage] at hresumes

theorem Progress.at_ {stage : DeliveryStage} (htaken : δ.hasTaken = false)
    (hcleared : (δ.at_ stage).Cleared g e) (hresumes : δ.resumes (δ.at_ stage) = false) :
    Progress g δ e (δ.at_ stage, e) :=
  ⟨rfl, .refl e, hcleared, by simp [htaken], by simp [hresumes]⟩

theorem access_progress (hof : IsOf g δ.alternative) (howned : Owned g e)
    (hcleared : δ.Cleared g e) (hin : δ.inHand = true) (htaken : δ.hasTaken = false)
    (hfailed : ∀ error, δ.stage ≠ .failed error) : Progress g δ e (δ.access env e) := by
  cases hstage : δ.stage
  case collected | ended => simp [inHand, hstage] at hin
  case moving | running => simp [hasTaken, hstage] at htaken
  case failed error => exact absurd hstage (hfailed error)
  case clearing d left =>
    cases left with
    | cons => exact clearing_progress hstage hof howned hcleared
    | nil =>
      rw [Cleared, hstage] at hcleared
      have hclosed : g.Closed e := fun w hw hid => absurd (hcleared w hw hid) List.not_mem_nil
      cases d with
      | none =>
        have haccess : δ.access env e = (δ.at_ .examining, e) := by rw [access, hstage]
        rw [haccess]
        exact .at_ htaken (fun _ => hclosed) (by rw [resumes, hstage])
      | some d =>
        have haccess : δ.access env e = (δ.at_ (.cancelling d), e) := by rw [access, hstage]
        rw [haccess]
        exact .at_ htaken hclosed (by rw [resumes, hstage])
  all_goals rw [Cleared, hstage] at hcleared
  all_goals rw [access, hstage]
  case examining =>
    refine .perform (fun _ => isEventSubscription_keeps _) htaken (fun he _ => ?_)
      (by simp [hstage])
    have hclosed (hsignal : δ.alternative.isSignal = false) := he.closed (hcleared hsignal)
    unfold examined
    split
    · trivial
    · split
      · exact hclosed
      · split
        · trivial
        · exact hclosed
      · exact hclosed
  case marking =>
    refine .perform (fun p => updateInstance_calm (gone_shrinks p).toCalm fun _ => ⟨rfl, rfl⟩)
      htaken (fun he _ => ?_) (by simp [hstage])
    split
    · trivial
    · exact fun hsignal => he.closed (hcleared hsignal)
  case reading =>
    refine .perform (fun _ => definitionOf_keeps) htaken (fun he d => ?_) (by simp [hstage])
    split
    · exact fun w hw hid => (howned w (he w hw hid) hid).2.2
    · next hnot =>
        intro hinterrupts
        refine he.closed (hcleared ?_)
        -- a signal that interrupts would have gone back to clearing
        have hinterrupts : δ.alternative.interrupts d = true := hinterrupts
        rw [hinterrupts, Bool.and_true] at hnot
        exact Bool.eq_false_iff.mpr hnot
  case cancelling d =>
    exact .perform (fun p => cancelPendingActivity_keeps (gone_shrinks p)) htaken
      (fun he _ _ => he.closed hcleared) (by simp [hstage])
  case taking d =>
    refine .perform (fun p => eventToken_keeps (gone_shrinks p).toCalm _) htaken
      (fun _ _ => trivial) fun d' hd => ?_
    cases hstage.symm.trans hd
    exact hcleared

theorem leave_gone (d : ProcessDefinition) (token : Token) (p : Pending) :
    Keeps p.Gone (δ.leave env d token) := by
  have hP := gone_shrinks p
  have hgo (i : Uuid) (node : String) (changed : Token) : Keeps p.Gone (do
      updateInstance i fun i => { i with state := runningUnlessParallel i.state }
      continueBehind env d i node changed) :=
    .bind (updateInstance_calm hP.toCalm fun _ => ⟨rfl, rfl⟩) fun _ =>
      continueBehind_keeps hP.toCalm
  unfold leave
  dsimp only
  split
  · exact .ite (fun _ => .bind (cancelTasksAt_keeps hP _) fun _ =>
      .bind (dropServiceTasksAt_keeps hP) fun _ => continueBehind_keeps hP.toCalm)
      fun _ => continueBehind_keeps hP.toCalm
  · exact .ite (fun _ => .bind (cancelTasksAt_keeps hP _) fun _ =>
      .bind (cancelTasksAt_keeps hP _) fun _ => hgo _ _ _) fun _ => hgo _ _ _
  · exact hgo _ _ _

theorem exec_leave_timer {t : PendingTimer} {target : String} (htimer : δ.alternative = .timer t)
    (htarget : d.resolveNextTarget env t.nodeId token.vars = .ok target)
    (hfound : (e.instances.find? t.instanceId).isSome = true) :
    ∃ next, (exec (δ.leave env d token) e).1 = .ok next := by
  obtain ⟨x, hx⟩ := Option.isSome_iff_exists.mp hfound
  have hgo (s : Engine) (hs : s.instances = e.instances) : ∃ next, (exec
      (continueBehind env d t.instanceId t.nodeId token) s).1 = .ok next := by
    have htarget : exec (Eng.resolveNextTarget env d t.nodeId token.vars) s = (.ok target, s) := by
      rw [Eng.resolveNextTarget, htarget]
      rfl
    have hset : exec (setCurrentNode t.instanceId target) s =
        (.ok (), s.modifyInstance t.instanceId fun i => { i with currentNode := target }) :=
      exec_updateInstance (hs ▸ hx) _
    rw [continueBehind, exec_bind_ok htarget, exec_bind_ok hset]
    exact ⟨_, rfl⟩
  unfold leave
  rw [htimer]
  dsimp only
  split
  · exact hgo _ rfl
  · exact hgo _ rfl

theorem moving_progress (hstage : δ.stage = .moving d token)
    (hguard : ∀ t, δ.alternative = .timer t →
      (∃ target, d.resolveNextTarget env t.nodeId token.vars = .ok target) ∧
        (e.instances.find? t.instanceId).isSome = true) : Progress g δ e (δ.access env e) := by
  have haccess : δ.access env e = δ.perform (δ.leave env d token) e fun _ => .running := by
    rw [access, hstage]
  have helsewhere : g.Elsewhere e (after (δ.leave env d token) e) :=
    GatewayVisit.elsewhere_of_gone (leave_gone d token) e
  have hresumes {δ' : Delivery} {e' : Engine} (h : δ.resumes δ' = true) : g.Closed e' := by
    simp [resumes, hstage] at h
  rw [haccess]
  rcases δ.perform_cases (e := e) (δ.leave env d token) fun _ => .running with
    ⟨next, hnext, _⟩ | ⟨error, herror, hexec⟩
  · exact ⟨by rw [hnext]; rfl, perform_engine ▸ helsewhere, by rw [hnext]; trivial,
      fun _ _ => by rw [hnext]; rfl, hresumes⟩
  · refine ⟨by rw [herror, alternative_fail], perform_engine ▸ helsewhere,
      by rw [herror]; exact cleared_fail error, fun _ hin => ?_, hresumes⟩
    -- only a timer is in hand after a failure, and its flow leads on
    rw [herror, fail] at hin
    split at hin
    · next t htimer =>
        obtain ⟨⟨target, htarget⟩, hfound⟩ := hguard t htimer
        obtain ⟨next, hok⟩ := exec_leave_timer htimer htarget hfound
        cases hok.symm.trans hexec
    · cases hin

/-- A batch that succeeds ends the delivery, and so does any batch of a message or a signal. -/
theorem returned_progress {result : EngineResult Unit} (hstage : δ.stage = .running)
    (hguard : ∀ t, δ.alternative = .timer t → result = .ok () ∧ t.recurs = false) :
    Progress g δ e (δ.returned env result e) := by
  have hends : Progress g δ e (δ.at_ .ended, e) :=
    ⟨rfl, .refl e, trivial, fun _ hin => (nomatch hin), fun h => by simp [resumes, hstage] at h⟩
  cases halternative : δ.alternative with
  | timer t =>
    obtain ⟨rfl, hrecurs⟩ := hguard t halternative
    have hreturned : δ.returned env (.ok ()) e = (δ.at_ .ended, after (rearmTimer env t) e) := by
      simp only [returned, halternative]
    have hrearm : after (rearmTimer env t) e = e := by
      rw [after, Config.exec_rearmTimer hrecurs]
    rw [hreturned, hrearm]
    exact hends
  | message c | signal c =>
    have hfail (error : EngineError) : δ.fail error = δ.at_ .ended := by
      rw [fail, halternative]
    have hreturned : δ.returned env result e = (δ.at_ .ended, e) := by
      cases result <;> simp only [returned, halternative, hfail]
    rw [hreturned]
    exact hends

end Delivery

/-! ## The invariant -/

namespace GatewayRace

variable {env : Env} {g : GatewayVisit} {s s' : GatewayRace} {k : Nat} {δ δ' : Delivery}
  {a : EventAlternative} {e : Engine}

/-- One alternative has resumed the token, none is filed, and whoever has a wait in hand has the
token. -/
structure Resumed (g : GatewayVisit) (s : GatewayRace) : Prop where
  once : ∃ a, s.resumed = [a] ∧ Delivery.IsOf g a
  closed : g.Closed s.engine
  armed : s.arming = []
  taken : ∀ δ ∈ s.deliveries, δ.inHand = true → δ.hasTaken = true

structure Inv (g : GatewayVisit) (s : GatewayRace) : Prop where
  owned : Delivery.Owned g s.engine
  arming : ∀ a ∈ s.arming, a ∈ g.alternatives
  isOf : ∀ δ ∈ s.deliveries, Delivery.IsOf g δ.alternative
  alone : ∀ (k l : Nat) (δ δ' : Delivery), s.deliveries[k]? = some δ → s.deliveries[l]? = some δ' →
    δ.inHand = true → δ'.inHand = true → k = l
  armed : ∀ δ ∈ s.deliveries, δ.inHand = true → s.arming = []
  cleared : ∀ δ ∈ s.deliveries, δ.Cleared g s.engine
  resumed : s.resumed = [] ∨ s.Resumed g

theorem opened_inv (hclosed : g.Closed e) : (opened g e).Inv g where
  owned w hw hid := absurd hid (hclosed w hw)
  arming _ ha := ha
  isOf _ hδ := absurd hδ List.not_mem_nil
  alone _ _ _ _ hk := nomatch hk
  armed _ hδ := absurd hδ List.not_mem_nil
  cleared _ hδ := absurd hδ List.not_mem_nil
  resumed := .inl rfl

theorem Inv.elsewhere (h : s.Inv g) (he : g.Elsewhere s.engine e) :
    ({ s with engine := e } : GatewayRace).Inv g where
  owned w hw hid := h.owned w (he w hw hid) hid
  arming := h.arming
  isOf := h.isOf
  alone := h.alone
  armed := h.armed
  cleared δ hδ := (h.cleared δ hδ).elsewhere he
  resumed := h.resumed.imp_right fun hr => ⟨hr.once, he.closed hr.closed, hr.armed, hr.taken⟩

theorem mem_set {δ'' : Delivery} (h : δ'' ∈ s.deliveries.set k δ') :
    δ'' = δ' ∨ ∃ l, l ≠ k ∧ s.deliveries[l]? = some δ'' := by
  obtain ⟨l, hl⟩ := List.mem_iff_getElem?.mp h
  rw [List.getElem?_set] at hl
  split at hl
  · split at hl
    · exact .inl (Option.some.inj hl).symm
    · cases hl
  · next hne => exact .inr ⟨l, Ne.symm hne, hl⟩

theorem Inv.others (h : s.Inv g) (hk : s.deliveries[k]? = some δ) (hin : δ.inHand = true)
    {l : Nat} (hl : l ≠ k) (hl' : s.deliveries[l]? = some δ') : δ'.inHand = false :=
  Bool.eq_false_iff.mpr fun hin' => hl (h.alone l k δ' δ hl' hk hin' hin)

theorem Inv.replace (h : s.Inv g) {resumed : List EventAlternative} (howned : Delivery.Owned g e)
    (hof : Delivery.IsOf g δ'.alternative) (harming : s.arming = []) (hcleared : δ'.Cleared g e)
    (hothers : ∀ l ≠ k, ∀ δ'', s.deliveries[l]? = some δ'' → δ''.inHand = false)
    (hresumed : resumed = [] ∨ (∃ a, resumed = [a] ∧ Delivery.IsOf g a) ∧ g.Closed e ∧
      (δ'.inHand = true → δ'.hasTaken = true)) :
    (⟨e, s.arming, s.deliveries.set k δ', resumed⟩ : GatewayRace).Inv g := by
  have hset (l : Nat) (δ'' : Delivery) (hl : (s.deliveries.set k δ')[l]? = some δ'')
      (hin : δ''.inHand = true) : l = k ∧ δ'' = δ' := by
    rw [List.getElem?_set] at hl
    split at hl
    · next hlk =>
        split at hl
        · exact ⟨hlk.symm, (Option.some.inj hl).symm⟩
        · cases hl
    · next hne =>
        rw [hothers l (Ne.symm hne) δ'' hl] at hin
        cases hin
  refine ⟨howned, h.arming, fun δ'' hmem => ?_, fun l m δ₁ δ₂ hl hm h₁ h₂ => ?_, fun _ _ _ =>
    harming,
    fun δ'' hmem => ?_, ?_⟩
  · rcases mem_set hmem with rfl | ⟨l, _, hl⟩
    · exact hof
    · exact h.isOf δ'' (List.mem_of_getElem? hl)
  · exact (hset l δ₁ hl h₁).1.trans (hset m δ₂ hm h₂).1.symm
  · rcases mem_set hmem with rfl | ⟨l, hne, hl⟩
    · exact hcleared
    · exact Delivery.cleared_of_not_inHand (hothers l hne δ'' hl)
  · refine hresumed.imp_right fun ⟨honce, hclosed, htaken⟩ =>
      ⟨honce, hclosed, harming, fun δ'' hmem hin => ?_⟩
    obtain ⟨l, hl⟩ := List.mem_iff_getElem?.mp hmem
    obtain ⟨_, rfl⟩ := hset l δ'' hl hin
    exact htaken hin

theorem Inv.advance (h : s.Inv g) (hk : s.deliveries[k]? = some δ) (hin : δ.inHand = true)
    {next : Delivery × Engine} (hnext : δ.Progress g s.engine next) :
    (s.advance k δ next).Inv g := by
  have hmem := List.mem_of_getElem? hk
  have hof := h.isOf δ hmem
  refine h.replace (fun w hw hid => h.owned w (hnext.elsewhere w hw hid) hid)
    (hnext.alternative ▸ hof) (h.armed δ hmem hin) hnext.cleared
      (fun l hl δ'' => h.others hk hin hl)
    ?_
  cases hresumes : δ.resumes next.1 with
  | true =>
    rw [if_pos rfl]
    obtain ⟨d, hstage, _, htook⟩ := Delivery.of_resumes hresumes
    -- the delivery has not had the token before, so nobody has
    have hnone : s.resumed = [] := h.resumed.resolve_right fun hr => by
      have htaken := hr.taken δ hmem hin
      simp [Delivery.hasTaken, hstage] at htaken
    rw [hnone]
    exact .inr ⟨⟨δ.alternative, rfl, hof⟩, hnext.resumed hresumes, fun _ => htook⟩
  | false =>
    rw [if_neg Bool.false_ne_true]
    exact h.resumed.imp_right fun hr => ⟨hr.once, hnext.elsewhere.closed hr.closed,
      hnext.taken (hr.taken δ hmem hin)⟩

theorem Inv.relist (h : s.Inv g) {ds : List Delivery}
    (hof : ∀ δ ∈ ds, δ ∈ s.deliveries ∨ Delivery.IsOf g δ.alternative ∧ δ.inHand = false)
    (hget : ∀ (l : Nat) (δ : Delivery), ds[l]? = some δ → δ.inHand = true →
      s.deliveries[l]? = some δ) : ({ s with deliveries := ds } : GatewayRace).Inv g := by
  have hold (δ : Delivery) (hδ : δ ∈ ds) (hin : δ.inHand = true) : δ ∈ s.deliveries := by
    obtain ⟨l, hl⟩ := List.mem_iff_getElem?.mp hδ
    exact List.mem_of_getElem? (hget l δ hl hin)
  refine ⟨h.owned, h.arming, fun δ hδ => (hof δ hδ).elim (h.isOf δ) And.left,
    fun l m δ₁ δ₂ hl hm h₁ h₂ => h.alone l m δ₁ δ₂ (hget l δ₁ hl h₁) (hget m δ₂ hm h₂) h₁ h₂,
    fun δ hδ hin => h.armed δ (hold δ hδ hin) hin, fun δ hδ => (hof δ hδ).elim (h.cleared δ)
      fun hidle => Delivery.cleared_of_not_inHand hidle.2, h.resumed.imp_right fun hr => ?_⟩
  exact ⟨hr.once, hr.closed, hr.armed, fun δ hδ hin => hr.taken δ (hold δ hδ hin) hin⟩

theorem Inv.idle (h : s.Inv g) (hof : Delivery.IsOf g δ'.alternative) (hidle : δ'.inHand = false) :
    ({ s with deliveries := s.deliveries.set k δ' } : GatewayRace).Inv g := by
  refine h.relist (fun δ'' hmem => ?_) fun l δ'' hl hin => ?_
  · rcases mem_set hmem with rfl | ⟨l, _, hl⟩
    · exact .inr ⟨hof, hidle⟩
    · exact .inl (List.mem_of_getElem? hl)
  · rw [List.getElem?_set] at hl
    split at hl
    · split at hl
      · cases hl
        rw [hidle] at hin
        cases hin
      · cases hl
    · exact hl

section

variable (hg : ∀ a ∈ g.alternatives, a.wait.instanceId = g.instanceId ∧ a.wait.tokenId = g.tokenId)

include hg

theorem Inv.arm (h : s.Inv g) {rest : List EventAlternative} (harming : s.arming = a :: rest) :
    ({ s with engine := s.engine.insertPending a.pending, arming := rest } : GatewayRace).Inv g :=
      by
  have hidle (δ : Delivery) (hδ : δ ∈ s.deliveries) : δ.inHand = false :=
    Bool.eq_false_iff.mpr fun hin => List.cons_ne_nil a rest (harming.symm.trans (h.armed δ hδ hin))
  have ha : a ∈ g.alternatives := h.arming a (harming ▸ List.mem_cons_self)
  refine ⟨fun w hw hid => ?_, fun b hb => h.arming b (harming ▸ List.mem_cons_of_mem a hb), h.isOf,
    h.alone, fun δ hδ hin => ?_, fun δ hδ => Delivery.cleared_of_not_inHand (hidle δ hδ),
    .inl (h.resumed.resolve_right fun hr => List.cons_ne_nil a rest (harming.symm.trans hr.armed))⟩
  · rcases mem_waits_insertPending.mp hw with rfl | ⟨hold, _⟩
    · refine ⟨(hg a ha).1, (hg a ha).2, ?_⟩
      cases a <;> simp [EventAlternative.pending, Pending.wait, PendingTimer.wait,
        PendingMessageCatch.wait, PendingSignalCatch.wait, Delivery.tables]
    · exact h.owned w hold hid
  · rw [hidle δ hδ] at hin
    cases hin

theorem Inv.collect (h : s.Inv g) (ha : a ∈ g.alternatives) (vars : Variables) :
    ({ s with deliveries := s.deliveries ++ [⟨a, vars, .collected⟩] } : GatewayRace).Inv g := by
  refine h.relist (fun δ hδ => ?_) fun l δ hl hin => ?_
  · rcases List.mem_append.mp hδ with hδ | hδ
    · exact .inl hδ
    · rw [List.mem_singleton.mp hδ]
      exact .inr ⟨⟨List.mem_map.mpr ⟨a, ha, rfl⟩, hg a ha⟩, rfl⟩
  · rw [List.getElem?_append] at hl
    split at hl
    · exact hl
    · rw [List.mem_singleton.mp (List.mem_of_getElem? hl)] at hin
      cases hin

end

theorem lookup_holds {b : EventAlternative} (h : a.lookup e = some b) :
    e.Holds b.pending ∧ b.wait.id = a.wait.id := by
  cases a <;> obtain ⟨t, ht, rfl⟩ := Option.map_eq_some_iff.mp h <;>
    have hid := Table.key_of_find? ht <;>
    exact ⟨Table.mem_of_find? ht, hid⟩

/-- A delivery takes its wait out when the gateway has filed all alternatives and nobody else has
one in hand. -/
theorem Inv.takeOut (h : s.Inv g) (hk : s.deliveries[k]? = some δ) (hstage : δ.stage = .collected)
    (hguard : (δ.alternative.lookup s.engine).isSome = true →
      s.arming = [] ∧ ∀ δ' ∈ s.deliveries, δ'.inHand = false) :
    (s.advance k δ (δ.access env s.engine)).Inv g := by
  have hof := h.isOf δ (List.mem_of_getElem? hk)
  have hresumes (δ' : Delivery) : δ.resumes δ' = false := by rw [Delivery.resumes, hstage]
  rw [GatewayRace.advance, hresumes, if_neg Bool.false_ne_true, Delivery.access, hstage]
  dsimp only
  split
  · exact h.idle hof rfl
  · next a ha =>
      obtain ⟨hheld, hid⟩ := lookup_holds ha
      obtain ⟨harming, hothers⟩ := hguard (by rw [ha]; rfl)
      have hids : a.wait.id ∈ g.ids := hid ▸ hof.1
      have howns := h.owned _ hheld.mem_waits hids
      have helsewhere : g.Elsewhere s.engine (s.engine.removePending a.wait.kind a.wait.id) :=
        fun w hw _ => (mem_waits_retainPending.mp hw).1
      have howned : Delivery.Owned g (s.engine.removePending a.wait.kind a.wait.id) :=
        fun w hw hid => h.owned w (helsewhere w hw hid) hid
      -- a wait that is filed has not been cleared by an alternative that resumed the token
      have hnone : s.resumed = [] :=
        h.resumed.resolve_right fun hr => hr.closed _ hheld.mem_waits hids
      refine h.replace howned ⟨hids, howns.1, howns.2.1⟩ harming ?_
        (fun l _ δ'' hl => hothers δ'' (List.mem_of_getElem? hl)) (.inl hnone)
      cases hsignal : a.isSignal with
      | true => exact fun h => absurd (hsignal.symm.trans h) Bool.true_eq_false.mp
      | false => exact fun w hw hid => (howned w hw hid).2.2

theorem Inv.refile (h : s.Inv g) (hk : s.deliveries[k]? = some δ) {error : EngineError}
    (hstage : δ.stage = .failed error) : (s.advance k δ (δ.access env s.engine)).Inv g := by
  have hmem := List.mem_of_getElem? hk
  have hof := h.isOf δ hmem
  have hin : δ.inHand = true := by rw [Delivery.inHand, hstage]
  have hresumes (δ' : Delivery) : δ.resumes δ' = false := by rw [Delivery.resumes, hstage]
  have hnone : s.resumed = [] := h.resumed.resolve_right fun hr => by
    simpa [Delivery.hasTaken, hstage] using hr.taken δ hmem hin
  rw [GatewayRace.advance, hresumes, if_neg Bool.false_ne_true, Delivery.access, hstage]
  dsimp only
  split
  · next t htimer =>
      refine h.replace (fun w hw hid => ?_) hof (h.armed δ hmem hin) trivial
        (fun l hl δ'' => h.others hk hin hl) (.inl hnone)
      obtain ⟨e₁, expiresAt, hafter, hwaits⟩ : ∃ (e₁ : Engine) (expiresAt : Time),
          after (rescheduleFailedTimer t error) s.engine =
            e₁.insertPending (.timer { t with expiresAt := expiresAt }) ∧
          e₁.waits = s.engine.waits := ⟨_, _, rfl, rfl⟩
      rw [hafter] at hw
      rcases mem_waits_insertPending.mp hw with rfl | ⟨hold, _⟩
      · rw [htimer] at hof
        exact ⟨hof.2.1, hof.2.2, List.mem_cons_self⟩
      · exact h.owned w (hwaits ▸ hold) hid
  · exact h.idle hof rfl

theorem Inv.access (h : s.Inv g) (hguard : s.Orderly env (.access k))
    (hk : s.deliveries[k]? = some δ) : (s.advance k δ (δ.access env s.engine)).Inv g := by
  have hmem := List.mem_of_getElem? hk
  have hδ := hguard δ hk
  cases hstage : δ.stage with
  | collected =>
    rw [hstage] at hδ
    exact h.takeOut hk hstage hδ
  | failed => exact h.refile hk hstage
  | ended =>
    have hresumes : δ.resumes δ = false := by rw [Delivery.resumes, hstage]
    rw [GatewayRace.advance, Delivery.access, hstage]
    dsimp only
    rw [hresumes, if_neg Bool.false_ne_true]
    exact h.idle (h.isOf δ hmem) (by rw [Delivery.inHand, hstage])
  | running =>
    refine h.advance hk (by rw [Delivery.inHand, hstage]) ?_
    rw [Delivery.access, hstage]
    exact ⟨rfl, .refl _, h.cleared δ hmem, fun htaken _ => htaken, fun hresumes => by
      simp [Delivery.resumes, hstage] at hresumes⟩
  | moving =>
    refine h.advance hk (by rw [Delivery.inHand, hstage])
      (Delivery.moving_progress hstage fun t htimer => ?_)
    rw [hstage, htimer] at hδ
    exact hδ
  | _ =>
    refine h.advance hk (by rw [Delivery.inHand, hstage]) (Delivery.access_progress
      (h.isOf δ hmem) h.owned (h.cleared δ hmem) (by rw [Delivery.inHand, hstage])
      (by rw [Delivery.hasTaken, hstage]) fun error => ?_)
    rw [hstage]
    exact nofun

theorem Inv.step (hg : ∀ a ∈ g.alternatives, a.wait.instanceId = g.instanceId ∧
      a.wait.tokenId = g.tokenId) (h : s.Inv g) {move : RaceMove} (hguard : s.Orderly env move)
    (hstep : s.step env g move = some s') : s'.Inv g := by
  cases move with
  | arm =>
    rw [GatewayRace.step] at hstep
    split at hstep
    · cases hstep
    · next harming =>
        cases hstep
        exact h.arm hg harming
  | collect a vars =>
    obtain ⟨⟨ha, _⟩, heq⟩ := Option.ite_none_right_eq_some.mp hstep
    cases heq
    exact h.collect hg ha vars
  | access =>
    obtain ⟨δ, hk, rfl⟩ := Option.map_eq_some_iff.mp hstep
    exact h.access hguard hk
  | returns =>
    obtain ⟨δ, hk, hδ⟩ := Option.bind_eq_some_iff.mp hstep
    split at hδ
    · next hstage =>
        cases hδ
        exact h.advance hk (by rw [Delivery.inHand, hstage])
          (Delivery.returned_progress hstage fun t htimer => hguard δ t hk htimer)
    · cases hδ
  | elsewhere =>
    obtain ⟨he, heq⟩ := Option.ite_none_right_eq_some.mp hstep
    cases heq
    exact h.elsewhere he

end GatewayRace

/-! ## The gateway -/

namespace Eng

variable {env : Env} {e e₁ : Engine} {i : Uuid} {token : Token} {d : ProcessDefinition}
  {node : String} {alternatives : List EventAlternative}

theorem eventAlternative_token (target : String) :
    Yields (eventAlternative env d i token target)
      fun as => ∀ a ∈ as, a.wait.tokenId = token.id := by
  unfold eventAlternative
  split
  · exact .pure nofun
  · exact .after fun _ => .after fun _ => .pure (List.forall_mem_singleton.mpr rfl)
  · exact .after fun _ => .pure (List.forall_mem_singleton.mpr rfl)
  · exact .after fun _ => .pure (List.forall_mem_singleton.mpr rfl)
  · exact .throw _

theorem handleEventBasedGateway_token :
    Yields (handleEventBasedGateway env i token d node)
      fun a => ∀ p ∈ a.pendings, p.wait.tokenId = token.id := by
  have hend : Yields (runEndScripts env i token d node) token.Same :=
    .after fun _ => .bind (fun _ _ _ hx => Scripting.runEndScripts_same (Prod.mk.inj hx).1)
      fun _ ht => .after fun _ => .pure ht
  refine hend.bind fun t ht => ?_
  refine .bind (.mapM fun flow _ => eventAlternative_token flow.target) fun groups hgroups => ?_
  refine .after fun _ => .pure fun p hp => ?_
  obtain ⟨a, ha, rfl⟩ := List.mem_map.mp hp
  obtain ⟨as, has, ha⟩ := List.mem_flatten.mp ha
  exact (hgroups as has a ha).trans ht.id

/-- The alternatives of a gateway are waits of its token under identifiers that no wait has. -/
theorem handleEventBasedGateway_opens (hdrawn : e.Drawn)
    (h : exec (handleEventBasedGateway env i token d node) e =
      (.ok (.waitForEventGroup alternatives), e₁)) :
    (∀ a ∈ alternatives, a.wait.instanceId = i ∧ a.wait.tokenId = token.id) ∧
      (⟨i, token.id, alternatives⟩ : GatewayVisit).Closed e₁ := by
  obtain ⟨hworks, hfits⟩ := Obeys.works (p := ⟨False, False, False, False⟩)
    (handleEventBasedGateway_obeys rfl) Works.refl h
  have hpending (a : EventAlternative) (ha : a ∈ alternatives) :
      a.pending ∈ (NextAction.waitForEventGroup alternatives).pendings :=
    List.mem_map.mpr ⟨a, ha, rfl⟩
  have hnew (a : EventAlternative) (ha : a ∈ alternatives) :
      a.pending.Waits i e.nextUuid e₁.nextUuid := (hfits _ rfl).1 _ (hpending a ha)
  refine ⟨fun a ha => ⟨(hnew a ha).instanceId, ?_⟩, fun w hw hid => ?_⟩
  · exact handleEventBasedGateway_token _ _ _ h _ (hpending a ha)
  obtain ⟨a, ha, hid⟩ := List.mem_map.mp hid
  have hold : w ∈ e.waits := by
    -- the gateway founds no instance, in particular none that the wait could be of
    have hhosts := Works.hosts (j := max e.nextUuid (w.instanceId + 1)) hworks (le_max_left _ _)
    rcases hhosts.mem_waits hw with hold | ⟨hfiles, _⟩ | ⟨hj, _⟩
    · exact hold
    · exact hfiles.elim
    · exact absurd ((le_max_right _ _).trans_eq hj.symm) (Nat.not_succ_le_self w.instanceId)
  exact absurd (hdrawn.waits w hold) (not_lt_of_ge (hid ▸ (hnew a ha).drawn.1))

end Eng

/-- For every event-based gateway and every interleaving in which a delivery takes its wait out
only when all alternatives are filed and nobody else has one in hand, and no timer is filed again
after it has taken the token: the token is resumed at most once, by an alternative of the gateway,
and then no alternative is filed. -/
theorem gateway_exclusive {env : Env} {e e₁ : Engine} {i : Uuid} {token : Token}
    {d : ProcessDefinition} {node : String} {alternatives : List EventAlternative}
    {s : GatewayRace} (hdrawn : e.Drawn)
    (hgateway : exec (handleEventBasedGateway env i token d node) e =
      (.ok (.waitForEventGroup alternatives), e₁))
    (hrun : Reaches (GatewayRace.step env ⟨i, token.id, alternatives⟩) (GatewayRace.Orderly env)
      (.opened ⟨i, token.id, alternatives⟩ e₁) s) :
    s.resumed.length ≤ 1 ∧ (∀ a ∈ s.resumed, a.wait.id ∈ alternatives.map fun a => a.wait.id) ∧
      (s.resumed ≠ [] → ∀ w ∈ s.engine.waits, w.id ∉ alternatives.map fun a => a.wait.id) := by
  obtain ⟨hg, hclosed⟩ := handleEventBasedGateway_opens hdrawn hgateway
  have hinv : s.Inv ⟨i, token.id, alternatives⟩ := by
    exact hrun.invariant (GatewayRace.opened_inv hclosed)
      fun s move s' hs hguard hstep => hs.step hg hguard hstep
  rcases hinv.resumed with hnone | hresumed
  · simp [hnone]
  · obtain ⟨a, ha, hof⟩ := hresumed.once
    refine ⟨by rw [ha]; exact le_rfl, fun b hb => ?_, fun _ => hresumed.closed⟩
    rw [ha, List.mem_singleton] at hb
    exact hb ▸ hof.1

/-! ## Two deliveries at once -/

/-- A payment is awaited for some time; a clerk sees to what follows. -/
def payment : ProcessDefinition := .ofGraph "payment"
  [("start", .startEvent), ("gate", .eventBasedGateway), ("late", .timerCatchEvent (.duration 5)),
    ("paid", .messageCatchEvent "paid"), ("remind", .userTask "clerk"), ("ship", .userTask "clerk"),
    ("end", .endEvent)]
  [("start", [.simple "gate"]), ("gate", [.simple "late", .simple "paid"]),
    ("late", [.simple "remind"]), ("paid", [.simple "ship"]), ("remind", [.simple "end"]),
    ("ship", [.simple "end"])]

def toGate : List Move :=
  [.op (.deployDefinition payment), .internal, .op (.startInstance 1 ∅), .internal]

def paymentToken (node : String) : Token := .withVariables 4 node ∅

def awaitPayment (e : Engine) : EngineResult NextAction × Engine :=
  exec (handleEventBasedGateway .plain 2 (paymentToken "gate") payment "gate") e

def latePayment : EventAlternative := .timer ⟨5, 2, "late", 5, 4, some (.duration 5), none⟩

def paidPayment : EventAlternative := .message ⟨6, 2, "paid", "paid", 4⟩

def paymentVisit : GatewayVisit := ⟨2, 4, [latePayment, paidPayment]⟩

/-- The batch that goes on behind the payment comes to its end. -/
def shipping (e : Engine) : Engine :=
  ((Config.settle .plain 10
    { Config.idle e with control := .running ⟨2, [paymentToken "ship"], 0⟩ }).map
      Config.engine).getD e

/-- A race for the payment, by moves that pass a check. Each part of the moves may depend on the
engine it starts from. -/
def race (check : GatewayRace → RaceMove → Bool) (s : GatewayRace) :
    List (Engine → List RaceMove) → Option GatewayRace
  | [] => some s
  | moves :: rest =>
    (run (fun s move => if check s move then s.step .plain paymentVisit move else none) s
      (moves s.engine)).bind fun s => race check s rest

variable {check : GatewayRace → RaceMove → Bool} {moves : List (Engine → List RaceMove)}
  {s : GatewayRace}

theorem race_reaches {guard : GatewayRace → RaceMove → Prop}
    (hcheck : ∀ s move, check s move = true → guard s move) {t : GatewayRace}
    (h : race check s moves = some t) :
    Reaches (GatewayRace.step .plain paymentVisit) guard s t := by
  induction moves generalizing s with
  | nil =>
    cases h
    exact .start
  | cons part rest ih =>
    obtain ⟨u, hu, hrest⟩ := Option.bind_eq_some_iff.mp h
    exact (Reaches.of_checked_run hcheck hu).trans (ih hrest)

/-- The race after the gateway was reached in a new engine. -/
def paymentRace (check : GatewayRace → RaceMove → Bool) (moves : List (Engine → List RaceMove)) :
    Option GatewayRace :=
  (run (Config.step .plain) (.initial 0) toGate).bind fun c =>
    match awaitPayment c.engine with
    | (.ok (.waitForEventGroup alternatives), e) =>
      if alternatives = paymentVisit.alternatives then race check (.opened paymentVisit e) moves
      else none
    | _ => none

theorem paymentRace_reaches (guard : GatewayRace → RaceMove → Prop)
    (hcheck : ∀ s move, check s move = true → guard s move) (h : paymentRace check moves = some s) :
    ∃ c e, Reaches (Config.step .plain) (fun _ _ => True) (.initial 0) c ∧
      awaitPayment c.engine = (.ok (.waitForEventGroup paymentVisit.alternatives), e) ∧
      Reaches (GatewayRace.step .plain paymentVisit) guard (.opened paymentVisit e) s := by
  obtain ⟨c, hc, hs⟩ := Option.bind_eq_some_iff.mp h
  split at hs
  · next alternatives e hgateway =>
      obtain ⟨rfl, hs⟩ := Option.ite_none_right_eq_some.mp hs
      exact ⟨c, e, .of_run hc, hgateway, race_reaches hcheck hs⟩
  · cases hs

/-- The payment comes in when the time is up. Both deliveries take out their waits; the first one
goes on to the shipping, where the second one finds the token. -/
def bothTakeOut : List (Engine → List RaceMove) :=
  [fun _ => [.arm, .arm], fun e => [.elsewhere { e with clock := 5 }],
    fun _ => [.collect paidPayment ∅, .collect latePayment ∅, .access 0, .access 1] ++
      List.replicate 9 (.access 0),
    fun e => .elsewhere (shipping e) :: List.replicate 9 (.access 1)]

theorem payment_resumed_twice :
    ∃ c e s, Reaches (Config.step .plain) (fun _ _ => True) (.initial 0) c ∧
      exec (handleEventBasedGateway .plain 2 (paymentToken "gate") payment "gate")
        c.engine = (.ok (.waitForEventGroup paymentVisit.alternatives), e) ∧
      Reaches (GatewayRace.step .plain paymentVisit) (fun _ _ => True) (.opened paymentVisit e) s ∧
      s.resumed = [paidPayment, latePayment] := by
  obtain ⟨s, hs, hresumed⟩ := Option.map_eq_some_iff.mp
    (show (paymentRace (fun _ _ => true) bothTakeOut).map GatewayRace.resumed =
      some [paidPayment, latePayment] by decide +kernel)
  obtain ⟨c, e, hreach, hgateway, hrun⟩ :=
    paymentRace_reaches (fun _ _ => True) (fun _ _ _ => trivial) hs
  exact ⟨c, e, s, hreach, hgateway, hrun, hresumed⟩

/-- Moves that are orderly whatever the timers are. -/
def GatewayRace.tidy (s : GatewayRace) : RaceMove → Bool
  | .access k => (s.deliveries[k]?).all fun δ =>
    match δ.stage, δ.alternative with
    | .collected, _ => s.arming.isEmpty && s.deliveries.all fun δ' => !δ'.inHand
    | .moving .., .timer _ => false
    | _, _ => true
  | .returns k _ => (s.deliveries[k]?).all fun δ =>
    match δ.alternative with
    | .timer _ => false
    | _ => true
  | _ => true

theorem GatewayRace.orderly_of_tidy {env : Env} {move : RaceMove} (h : s.tidy move = true) :
    s.Orderly env move := by
  cases move with
  | arm | collect | elsewhere => trivial
  | access =>
    intro δ hk
    rw [tidy, hk, Option.all_some] at h
    split
    · next hstage =>
        rw [hstage] at h
        obtain ⟨harming, hdeliveries⟩ := Bool.and_eq_true_iff.mp h
        refine fun _ => ⟨List.isEmpty_iff.mp harming, fun δ' hδ' => ?_⟩
        exact Bool.not_eq_true' _ ▸ List.all_eq_true.mp hdeliveries δ' hδ'
    · next hstage htimer =>
        rw [hstage, htimer] at h
        cases h
    · trivial
  | returns =>
    intro δ t hk htimer
    rw [tidy, hk, Option.all_some, htimer] at h
    cases h

/-- Here the timer looks for its wait after the payment was served. -/
def oneTakesOut : List (Engine → List RaceMove) :=
  [fun _ => [.arm, .arm], fun e => [.elsewhere { e with clock := 5 }],
    fun _ => [.collect paidPayment ∅, .collect latePayment ∅] ++ List.replicate 10 (.access 0),
    fun e => [.elsewhere (shipping e), .returns 0 (.ok ()), .access 1]]

theorem payment_resumed_once :
    ∃ c e s, Reaches (Config.step .plain) (fun _ _ => True) (.initial 0) c ∧
      exec (handleEventBasedGateway .plain 2 (paymentToken "gate") payment "gate")
        c.engine = (.ok (.waitForEventGroup paymentVisit.alternatives), e) ∧
      Reaches (GatewayRace.step .plain paymentVisit) (GatewayRace.Orderly .plain)
        (.opened paymentVisit e) s ∧
      s.resumed = [paidPayment] ∧ ∀ w ∈ s.engine.waits, w.id ∉ paymentVisit.ids := by
  obtain ⟨s, hs, hresumed⟩ := Option.map_eq_some_iff.mp
    (show (paymentRace GatewayRace.tidy oneTakesOut).map GatewayRace.resumed =
      some [paidPayment] by decide +kernel)
  obtain ⟨c, e, hreach, hgateway, hrun⟩ :=
    paymentRace_reaches (GatewayRace.Orderly .plain) (fun _ _ => GatewayRace.orderly_of_tidy) hs
  have hdrawn := (Config.inOrder_of_reaches hreach).ok.sound.drawn
  obtain ⟨_, _, hclosed⟩ := gateway_exclusive hdrawn hgateway hrun
  exact ⟨c, e, s, hreach, hgateway, hrun, hresumed, hclosed (by simp [hresumed])⟩

end BpmnEngine
