import BpmnEngine.HandlerFootprints
import BpmnEngine.Starting

/-!
# Footprints of starting and of returning from calls

Starting an instance founds one new instance and files its listeners and subscriptions.
Which identifier it gets is known only when it is drawn, so the permissions of these
programs are stated for some identifier that was not drawn before. Returning from a
call works for the caller.
-/
namespace BpmnEngine

open Program

open Effects (Respects)

/-- From every state within the permissions the program stays within them, except that it may
found one instance `j`. -/
def Founds {α : Type} (fx : Effects) (n : Uuid) (m : Eng α) (Q : Uuid → Uuid → α → Prop) : Prop :=
  ∀ e₀, Triple (Within fx n e₀) m
    (fun a e => ∃ j, n ≤ j ∧ Within (fx.hosting n j) n e₀ e ∧ Q j e.nextUuid a)
    fun _ e => ∃ j, n ≤ j ∧ Within (fx.hosting n j) n e₀ e

section Rules

variable {fx : Effects} {n : Uuid} {α β : Type} {Q : Uuid → Uuid → α → Prop} {m : Eng α}
  {Q' : Uuid → Uuid → β → Prop} {f : α → Eng β}

theorem Obeys.founds (h : Obeys fx n m fun k a => ∀ j, n ≤ j → Q j k a) :
    Founds fx n m Q := fun e₀ =>
  (h e₀).mono (fun _ hs => hs)
    (fun _ _ he => ⟨n, le_rfl, he.1.le (fx.le_hosting n n), he.2 n le_rfl⟩)
    fun _ _ he => ⟨n, le_rfl, he.le (fx.le_hosting n n)⟩

/-- The second part may found an instance. -/
theorem Obeys.bind_founds {P : Uuid → α → Prop} (hm : Obeys fx n m P)
    (hf : ∀ k a, n ≤ k → P k a → Founds fx k (f a) Q') : Founds fx n (m >>= f) Q' := by
  intro e₀
  refine .bind ((hm e₀).mono (fun _ h => h) (fun _ _ h => h)
    fun _ e h => ⟨n, le_rfl, h.le (fx.le_hosting n n)⟩) fun a t ht => ?_
  have hraise : Within fx t.nextUuid e₀ t := ⟨le_rfl, ht.1.known, ht.1.touches⟩
  have hk := ht.1.drawn
  have hlower : ∀ {j u}, Within (fx.hosting t.nextUuid j) t.nextUuid e₀ u →
      Within (fx.hosting n j) n e₀ u := fun h => (h.mono hk).le (fx.hosting_le hk _)
  exact ((hf t.nextUuid a hk ht.2 e₀).mono (fun _ h => h)
    (fun _ _ ⟨j, hj, h, hq⟩ => ⟨j, hk.trans hj, hlower h, hq⟩)
    fun _ _ ⟨j, hj, h⟩ => ⟨j, hk.trans hj, hlower h⟩) t hraise

theorem Stays.bind_founds (hm : Stays fx n m) (hf : ∀ k a, n ≤ k → Founds fx k (f a) Q') :
    Founds fx n (m >>= f) Q' :=
  Obeys.bind_founds hm fun k a hk _ => hf k a hk

/-- After an instance was founded, the program goes on for it too. -/
theorem Founds.bind (hm : Founds fx n m Q)
    (hf : ∀ j k a, n ≤ j → n ≤ k → Q j k a → Obeys (fx.hosting n j) k (f a) (Q' j)) :
    Founds fx n (m >>= f) Q' := by
  intro e₀
  refine .bind (hm e₀) fun a t ht => ?_
  obtain ⟨j, hj, hwithin, hq⟩ := ht
  have hk := hwithin.drawn
  have hraise : Within (fx.hosting n j) t.nextUuid e₀ t :=
    ⟨le_rfl, hwithin.known, hwithin.touches⟩
  exact ((hf j t.nextUuid a hj hk hq e₀).mono (fun _ h => h)
    (fun _ _ h => ⟨j, hj, h.1.mono hk, h.2⟩) fun _ _ h => ⟨j, hj, h.mono hk⟩) t hraise

theorem Founds.orElse {handler : EngineError → Eng α} (hm : Founds fx n m Q)
    (hh : ∀ error j, n ≤ j → Obeys (fx.hosting n j) n (handler error) (Q j)) :
    Founds fx n (orElse m handler) Q := fun e₀ =>
  .orElse (hm e₀) fun error s ⟨j, hj, hs⟩ =>
    ((hh error j hj e₀).mono (fun _ h => h) (fun _ _ h => ⟨j, hj, h.1, h.2⟩)
      fun _ _ h => ⟨j, hj, h⟩) s hs

end Rules

/-! ## Starting -/

def Next.Runs (i : Uuid) : Next → Prop
  | .done => True
  | .run instanceId _ => instanceId = i

/-- What founding an instance needs. -/
structure Effects.HostsFrom (fx : Effects) (n j : Uuid) : Prop where
  writes : fx.writes j
  founds : fx.founds j
  files : fx.FilesFrom n j
  opens : ∀ id, n ≤ id → fx.opens j id

theorem Effects.hosting_hosts (fx : Effects) {n k : Uuid} (hk : n ≤ k) (j : Uuid) :
    (fx.hosting n j).HostsFrom k j :=
  ⟨.inr rfl, .inr rfl, fun _ hid _ => .inr ⟨rfl, hk.trans hid⟩,
    fun _ hid => .inr ⟨rfl, hk.trans hid⟩⟩

theorem Effects.HostsFrom.mono {fx : Effects} {n k j : Uuid} (h : fx.HostsFrom n j) (hk : n ≤ k) :
    fx.HostsFrom k j :=
  ⟨h.writes, h.founds, h.files.mono hk, fun id hid => h.opens id (hk.trans hid)⟩

namespace Eng

variable {env : Env} {fx : Effects} {n i : Uuid} {d : ProcessDefinition}

theorem allDefinitions_stays : Stays fx n (allDefinitions env) :=
  get_stays.returns

theorem findLatestByBpmnId_stays (bpmnId : String) : Stays fx n (findLatestByBpmnId env bpmnId) :=
  allDefinitions_stays.returns

theorem validateStartRequest_stays (key : Uuid) (allowSignalStart : Bool) :
    Stays fx n (validateStartRequest key allowSignalStart) := by
  refine .bind (getDefinition_stays _) fun k d hk => ?_
  split
  · exact .throw _
  · exact .throw _
  · exact .ite (fun _ => Stays.pure _) fun _ => .throw _
  · exact Stays.pure _

theorem takeBusinessKey_stays (vars : Variables) : Stays fx n (takeBusinessKey vars) := by
  unfold takeBusinessKey
  split
  · exact .pure _
  · exact newUuid_obeys.stays.returns

theorem scopeListenerWait_waits {clock : Time} {id k : Uuid} {listener : ScopeEventListener}
    (hid : n ≤ id ∧ id < k) {p : Pending}
    (hp : p ∈ scopeListenerWait env clock i id listener) : p.Waits i n k := by
  unfold scopeListenerWait at hp
  split at hp <;> cases hp <;> exact ⟨rfl, hid⟩

theorem insertInstance_stays {x : ProcessInstance} (hx : fx.writes x.id) (hfound : fx.founds x.id)
    (hid : x.id < n) (hcalls : x.outstandingCalls = ∅) (hsubs : x.eventSubscriptions = [])
    (hparent : ∀ p, x.parentInstanceId = some p → fx.writes p ∧ p < x.id) :
    Stays fx n (insertInstance x) :=
  Stays.modify fun _ he => .create hx hfound (lt_of_lt_of_le hid he) hcalls hsubs hparent

theorem setUpInstance_stays (hh : fx.HostsFrom n i) (hi : i < n) (key : Uuid) (start : String)
    (vars : Variables) (parent : Option Uuid)
    (hparent : ∀ p, parent = some p → fx.writes p ∧ p < i) :
    Stays fx n (setUpInstance env d key start vars parent i) := by
  refine .bind (takeBusinessKey_stays _) fun k r hk => ?_
  refine .after (insertInstance_stays hh.writes hh.founds (lt_of_lt_of_le hi hk) rfl rfl hparent)
    fun l _ hl => ?_
  refine .after (newToken_obeys _ _).stays fun m t hm => ?_
  have hn : n ≤ m := hk.trans (hl.trans hm)
  refine .after (Stays.forM fun o ho listener _ => ?_) fun o _ ho => ?_
  · refine Obeys.bind newUuid_obeys fun p id hp hid => ?_
    refine .after now_stays fun q clock hq => ?_
    refine Stays.forM fun r hr w hw => insertPending_stays ?_
    have hwaits := scopeListenerWait_waits hid (Option.mem_toList.mp hw)
    exact ((hh.files.mono (hn.trans ho)).mayFile hwaits).mono (hq.trans hr)
  · have hno := hn.trans ho
    exact .after (openEventScope_stays hh.writes (hh.files.mono hno)
      fun id hid => hh.opens id (hno.trans hid)) fun _ _ _ => Stays.pure _

theorem newUuid_founds : Founds fx n newUuid fun j k id => id = j ∧ j < k := by
  intro e₀ s hs
  have hdraw : Within fx n e₀ { s with nextUuid := s.nextUuid + 1 } := hs.touch .draw
  exact ⟨s.nextUuid, hs.drawn, hdraw.le (fx.le_hosting _ _), rfl, Nat.lt_succ_self _⟩

theorem startInstance_obeys (hh : fx.HostsFrom n i) (hi : i < n) (key : Uuid) (vars : Variables)
    (parent : Option Uuid) (hparent : ∀ p, parent = some p → fx.writes p ∧ p < i)
    (allowSignalStart : Bool) :
    Obeys fx n (startInstance env key vars parent (some i) allowSignalStart)
      fun _ r => r.1 = i := by
  refine Stays.bind (validateStartRequest_stays _ _) fun k r hk => ?_
  refine .bind (Q := fun _ id => id = i) (.pure fun _ _ => rfl) fun l id hl hid => ?_
  subst hid
  have hkl := hk.trans hl
  exact Stays.bind (setUpInstance_stays (hh.mono hkl) (lt_of_lt_of_le hi hkl) _ _ _ _ hparent)
    fun _ _ _ => .pure fun _ _ => rfl

theorem startInstance_founds (key : Uuid) (vars : Variables) (parent : Option Uuid)
    (hparent : ∀ p, parent = some p → fx.writes p ∧ p < n) (allowSignalStart : Bool) :
    Founds fx n (startInstance env key vars parent none allowSignalStart) fun j _ r => r.1 = j := by
  refine Stays.bind_founds (validateStartRequest_stays _ _) fun k r hk => ?_
  refine Founds.bind newUuid_founds fun j l id hj hl hid => ?_
  rw [hid.1]
  exact Stays.bind (setUpInstance_stays (fx.hosting_hosts hl j) hid.2 _ _ _ _
    fun p hp => ⟨.inl (hparent p hp).1, lt_of_lt_of_le (hparent p hp).2 (hk.trans hj)⟩)
    fun _ _ _ => .pure fun _ _ => rfl

theorem startInstanceWithVariables_founds (key : Uuid) (vars : Variables) :
    Founds fx n (startInstanceWithVariables env key vars) fun j _ next => next.Runs j :=
  Founds.bind (startInstance_founds _ _ _ (fun _ h => by cases h) _) fun _ _ _ _ _ hr =>
    .pure fun _ _ => hr

theorem startInstanceLatest_founds (bpmnId : String) (vars : Variables) :
    Founds fx n (startInstanceLatest env bpmnId vars) fun j _ next => next.Runs j := by
  refine Stays.bind_founds (findLatestByBpmnId_stays _) fun k found hk => ?_
  split
  · exact (Obeys.throw _).founds
  · exact startInstanceWithVariables_founds _ _

theorem startNodeOfTimer_stays (d : ProcessDefinition) : Stays fx n (startNodeOfTimer d) := by
  unfold startNodeOfTimer
  split
  · exact .throw _
  · exact .pure _
  · exact .throw _

theorem createTimerInstance_founds (key : Uuid) (start businessKey : String) (vars : Variables) :
    Founds fx n (createTimerInstance env key start businessKey vars) fun j _ next => next.Runs j :=
      by
  refine Founds.bind newUuid_founds fun j k id hj hk hid => ?_
  rw [hid.1]
  have hh := fx.hosting_hosts hk j
  refine .after (insertInstance_stays hh.writes hh.founds hid.2 rfl rfl
    fun p hp => by cases hp) fun l _ hl => ?_
  refine .after (newToken_obeys _ _).stays fun m t hm => ?_
  exact .after (openEventScope_stays hh.writes (hh.files.mono (hl.trans hm))
    fun id hid => hh.opens id ((hl.trans hm).trans hid)) fun _ _ _ => .pure fun _ _ => rfl

theorem triggerTimerStart_founds (key : Uuid) (provided : Nat) :
    Founds fx n (triggerTimerStart env key provided) fun j _ next => next.Runs j := by
  refine Stays.bind_founds (getDefinition_stays _) fun k d hk => ?_
  refine Stays.bind_founds (startNodeOfTimer_stays _) fun l r hl => ?_
  dsimp only
  split
  · split
    · exact (Obeys.throw _).founds
    · exact Stays.bind_founds newUuid_obeys.stays fun _ _ _ => createTimerInstance_founds _ _ _ _
  · exact (Obeys.throw _).founds

theorem spawnTimerInstance_founds (key : Uuid) (start : String) (vars : Variables)
    (iteration total : Nat) (interval : Option Nat) :
    Founds fx n (spawnTimerInstance env key start vars iteration total interval)
      fun j _ next => next.Runs j :=
  Stays.bind_founds (getDefinition_stays _) fun _ _ _ =>
    Stays.bind_founds (takeBusinessKey_stays _) fun _ _ _ => createTimerInstance_founds _ _ _ _

theorem startTimerInstance_founds (key : Uuid) (vars : Variables) (iteration : Nat) :
    Founds fx n (startTimerInstance env key vars iteration) fun j _ next => next.Runs j :=
  Stays.bind_founds (getDefinition_stays _) fun _ _ _ =>
    Stays.bind_founds (startNodeOfTimer_stays _) fun _ _ _ => spawnTimerInstance_founds _ _ _ _ _ _

/-! ## Calling -/

theorem respects_eraseCall (childId : Uuid) :
    fx.Respects n i fun x => { x with outstandingCalls := x.outstandingCalls.erase childId } where
  state _ _ _ := rfl
  parent _ := rfl
  calls x id call h := by
    by_cases hid : id = childId
    · simp [hid] at h
    · exact .inl (by rwa [Map.get?_erase_of_ne hid] at h)
  opened _ s hs := .inl ⟨s, hs, rfl⟩

theorem respects_parkCall (hc : fx.calls i) {childId : Uuid} (hfound : fx.founds childId)
    (hid : childId < n) (token : Token) :
    fx.Respects n i fun x =>
      { x with
        outstandingCalls := x.outstandingCalls.set childId ⟨token.currentNode, token⟩
        state := if x.state.isParallel then x.state
          else .waitingOnCallActivity childId token } where
  state _ x h := by
    dsimp only at h ⊢
    split
    · rfl
    case isFalse hpar => simp [hpar, InstanceState.isTerminal, InstanceState.isSuspended] at h
  parent _ := rfl
  calls x id call h := by
    by_cases hsame : id = childId
    · exact .inr ⟨⟨hc, hsame ▸ hfound⟩, hsame ▸ hid⟩
    · exact .inl (by rwa [Map.get?_set_of_ne hsame] at h)
  opened _ s hs := .inl ⟨s, hs, rfl⟩

theorem spawnCallActivityForParent_founds (hw : fx.writes i) (hc : fx.calls i) (hi : i < n)
    (key : Uuid) (token : Token) :
    Founds fx n (spawnCallActivityForParent env key i token) fun j _ r => r.1 = j := by
  refine Founds.bind newUuid_founds fun j k id hj hk hid => ?_
  obtain ⟨rfl, hid⟩ := hid
  have hw' : (fx.hosting n id).writes i := .inl hw
  have hc' : (fx.hosting n id).calls i := hc
  refine .after definitionOf_stays fun l d hl => ?_
  have hspawn : ∀ m vars, l ≤ m → Obeys (fx.hosting n id) m
      (do
        modifyInstance i fun parent =>
          { parent with
            outstandingCalls := parent.outstandingCalls.set id ⟨token.currentNode, token⟩
            state := if parent.state.isParallel then parent.state
              else .waitingOnCallActivity id token }
        orElse (startInstance env key vars (some i) (some id) false) fun e => do
          modifyInstance i fun parent =>
            { parent with outstandingCalls := parent.outstandingCalls.erase id }
          throw e)
      fun _ r => r.1 = id := by
    intro m vars hm
    refine .after (modifyInstance_stays hw' (respects_parkCall hc' (Or.inr rfl)
      (lt_of_lt_of_le hid (hl.trans hm)) token)) fun o _ ho => ?_
    have hno : k ≤ o := hl.trans (hm.trans ho)
    refine .orElse ?_ fun error => ?_
    · refine startInstance_obeys (fx.hosting_hosts (hk.trans hno) id) (lt_of_lt_of_le hid hno) _ _
        _ (fun p hp => ?_) _
      exact Option.some.inj hp ▸ ⟨Or.inl hw, lt_of_lt_of_le hi hj⟩
    · exact .after (modifyInstance_stays hw' (respects_eraseCall id)) fun _ _ _ =>
        .throw _
  dsimp only
  split
  · exact .after (ofResult_stays _) fun m vars hm => hspawn m vars hm
  · exact .after (Stays.pure _) fun m vars hm => hspawn m vars hm

/-! ## Returning from a call -/

theorem stateAfterCall_awake (s : InstanceState) (remaining : Nat) :
    stateAfterCall s remaining = s ∨ (stateAfterCall s remaining).Awake := by
  unfold stateAfterCall
  split
  · exact Or.inr ⟨rfl, rfl⟩
  split
  · exact Or.inl rfl
  · exact Or.inr ⟨rfl, rfl⟩

theorem pushOrTouchIncident_same (x : ProcessInstance) (clock : Time) (id : Uuid)
    (kind : IncidentKind) (node : Option String) (taskId : Option Uuid) (message : String)
    (details : Option String) :
    x.pushOrTouchIncident clock id kind node taskId message details =
      { x with incidents :=
          (x.pushOrTouchIncident clock id kind node taskId message details).incidents } := by
  unfold ProcessInstance.pushOrTouchIncident
  dsimp only
  split <;> rfl

theorem respects_pushOrTouchIncident (clock : Time) (id : Uuid) (kind : IncidentKind)
    (node : Option String) (taskId : Option Uuid) (message : String) (details : Option String) :
    fx.Respects n i fun x => x.pushOrTouchIncident clock id kind node taskId message details := by
  rw [funext fun x => pushOrTouchIncident_same x ..]
  exact .of_same fun _ => rfl

section

variable (hw : fx.writes i)

include hw

theorem takeUpCall_stays (childId : Uuid) (call : OutstandingCall) (failed : Bool)
    (childVars : Variables) : Stays fx n (takeUpCall i childId call failed childVars) := by
  refine .after getInstance_stays fun k parent hk => ?_
  have hstate : fx.Respects k i fun x =>
      { x with state := stateAfterCall x.state (x.outstandingCalls.erase childId).entries.length }
        :=
    .of_rest (.inr fun x => stateAfterCall_awake _ _) fun _ => rfl
  refine .after (modifyInstance_stays hw ((respects_eraseCall childId).comp hstate)) ?_
  intro l _ hl
  refine .after (findDefinition_stays _) fun m d hm => ?_
  refine .after (ofResult_stays _) fun o results ho => ?_
  split
  · refine .after (modifyInstance_stays hw (.of_same fun _ => rfl)) fun _ _ _ =>
      Stays.pure _
  · exact Stays.pure _

theorem leaveCall_stays (he : fx.ends i) (node : String) (failed : Bool) (token : Token) :
    Stays fx n (leaveCall env i d node failed token) := by
  refine .ite (fun _ => Stays.pure _) fun _ => ?_
  refine .orElse (runEndScripts_stays hw) fun error => ?_
  exact .after (modifyInstance_stays hw (.of_rest (.inl he) fun _ => rfl)) fun _ _ _ => .throw _

theorem continueCaller_obeys (token : Token) (node : String) :
    Obeys fx n (continueCaller i token node) fun _ next => next.Runs i := by
  refine .after (modifyInstance_stays hw (.of_same fun _ => rfl)) fun _ _ _ =>
    .pure fun _ _ => rfl

theorem reportCallError_obeys (childId : Uuid) (node code : String) (token : Token) :
    Obeys fx n (reportCallError i childId node code token) fun _ next => next.Runs i := by
  refine .after newUuid_obeys.stays fun k id hk => ?_
  refine .after now_stays fun l clock hl => ?_
  refine .returns (updateInstance_stays hw ?_) fun _ _ _ => trivial
  refine (respects_pushOrTouchIncident ..).comp
    (.of_rest (.inr fun _ => .inr ⟨rfl, rfl⟩) fun _ => rfl)

end

theorem eventHandlerForToken_stays (tokenId : Uuid) :
    Stays fx n (eventHandlerForToken i tokenId) := by
  refine .bind findInstance_stays fun _ _ _ => ?_
  split <;> exact Stays.pure _

theorem resumeCaller_obeys (hg : fx.Governs i) (he : fx.ends i) (childId : Uuid)
    (childVars : Variables) (errorCode : Option String) :
    Obeys fx n (resumeCaller env i childId childVars errorCode) fun _ next => next.Runs i := by
  refine .after getInstance_stays fun k parent hk => ?_
  split
  · exact .pure fun _ _ => trivial
  refine .after (takeUpCall_stays hg.writes _ _ _ _) fun l token hl => ?_
  refine .after (getDefinition_stays _) fun m d hm => ?_
  refine .after (leaveCall_stays hg.writes he _ _ _) fun o token ho => ?_
  split
  · exact .after (resolveNextTarget_stays _ _) fun _ _ _ => continueCaller_obeys hg.writes _ _
  split
  · exact continueCaller_obeys hg.writes _ _
  refine .after (eventHandlerForToken_stays _) fun p exclude hp => ?_
  refine .after (tryActivateEventCode_stays hg) fun q r hq => ?_
  split
  · exact .pure fun _ _ => rfl
  · exact .pure fun _ _ => rfl
  · exact reportCallError_obeys hg.writes _ _ _ _

end Eng

end BpmnEngine
