import BpmnEngine.Footprints
import BpmnEngine.Handlers

/-!
# Footprints of the element handlers

Executing a node writes the instance it belongs to and files waits for that instance
only. Event subprocesses may in addition reset the scope and interrupt the instances
that were called from it.
-/
namespace BpmnEngine

open Program

open Effects (Respects)

def NextAction.pendings : NextAction → List Pending
  | .waitForUser p => [.userTask p]
  | .waitForServiceTask p => [.serviceTask p]
  | .waitForTimer p => [.timer p]
  | .waitForMessage p => [.message p]
  | .waitForSignal p => [.signal p]
  | .waitForCondition p => [.conditional p]
  | .waitForEventGroup alternatives => alternatives.map EventAlternative.pending
  | _ => []

def NextAction.isCall : NextAction → Bool
  | .waitForCallActivity .. => true
  | _ => false

/-- Neither a call nor the opening of a service task. -/
def NextAction.isPlain : NextAction → Bool
  | .waitForServiceTask _ => false
  | a => !a.isCall

/-- A plain action that files no wait. -/
def NextAction.isQuiet (a : NextAction) : Bool := a.pendings.isEmpty && a.isPlain

/-- The elements at which a step may start another batch. -/
def BpmnElement.startsBatch : BpmnElement → Bool
  | .callActivity _ | .signalThrowEvent _ | .signalEndEvent _ | .compensationThrowEvent _
  | .compensationEndEvent _ => true
  | _ => false

/-- Calls and throws come from elements that may start a batch, service tasks from such. -/
def StepOutcome.Suits (element : BpmnElement) : StepOutcome → Prop
  | .action a => (element.startsBatch = false → a.isCall = false) ∧
      ((∀ topic mi, element ≠ .serviceTask topic mi) → ∀ task, a ≠ .waitForServiceTask task)
  | _ => element.startsBatch = true

variable {a : NextAction}

theorem StepOutcome.suits_of_isPlain {element : BpmnElement} (h : a.isPlain = true) :
    (StepOutcome.action a).Suits element := by
  refine ⟨fun _ => ?_, fun _ task heq => ?_⟩
  · cases a with
    | waitForCallActivity => cases h
    | _ => rfl
  · subst heq
    cases h

/-- A new wait of an instance. -/
structure Pending.Waits (i n k : Uuid) (p : Pending) : Prop where
  instanceId : p.wait.instanceId = i
  drawn : n ≤ p.wait.id ∧ p.wait.id < k

theorem Pending.Waits.mono {i n n' k k' : Uuid} {p : Pending} (h : p.Waits i n' k) (hn : n ≤ n')
    (hk : k ≤ k') : p.Waits i n k' :=
  ⟨h.instanceId, hn.trans h.drawn.1, lt_of_lt_of_le h.drawn.2 hk⟩

/-- An action that files new waits of an instance. -/
def NextAction.Fits (i n k : Uuid) (action : NextAction) : Prop :=
  ∀ p ∈ action.pendings, p.Waits i n k

theorem NextAction.Fits.mono {i n n' k k' : Uuid} (h : a.Fits i n' k) (hn : n ≤ n') (hk : k ≤ k') :
    a.Fits i n k' := fun p hp => (h p hp).mono hn hk

/-- A plain action that files new waits of an instance. -/
def NextAction.Parks (i n k : Uuid) (a : NextAction) : Prop := a.Fits i n k ∧ a.isPlain

theorem NextAction.parks_of_isQuiet {i n k : Uuid} (h : a.isQuiet) : a.Parks i n k := by
  obtain ⟨hnone, hplain⟩ := Bool.and_eq_true_iff.mp h
  refine ⟨fun p hp => ?_, hplain⟩
  rw [List.isEmpty_iff.mp hnone] at hp
  cases hp

def StepOutcome.Fits (i n k : Uuid) : StepOutcome → Prop
  | .action a => a.Fits i n k
  | _ => True

theorem StepOutcome.Fits.mono {i n n' k : Uuid} {out : StepOutcome} (h : out.Fits i n' k)
    (hn : n ≤ n') : out.Fits i n k := by
  cases out with
  | action => exact NextAction.Fits.mono h hn le_rfl
  | throwSignal | compensate => trivial

def Effects.FilesFrom (fx : Effects) (n i : Uuid) : Prop :=
  ∀ id, n ≤ id → ∀ kind, fx.files kind i id

theorem Effects.FilesFrom.mono {fx : Effects} {n k i : Uuid} (h : fx.FilesFrom n i)
    (hk : n ≤ k) : fx.FilesFrom k i := fun id hid => h id (hk.trans hid)

theorem Effects.FilesFrom.mayFile {fx : Effects} {n k i : Uuid} {p : Pending}
    (h : fx.FilesFrom n i) (hp : p.Waits i n k) : fx.MayFile k p :=
  ⟨hp.instanceId ▸ h _ hp.drawn.1 _, hp.drawn.2⟩

/-- Everything an event subprocess may do to its scope. -/
structure Effects.Governs (fx : Effects) (i : Uuid) : Prop where
  writes : fx.writes i
  closes : fx.closes i
  aborts : fx.aborts

namespace Eng

variable {env : Env} {fx : Effects} {n i k tokenId id m : Uuid} {d : ProcessDefinition}
  {node : String} {token t : Token} {a : NextAction} {p : Pending} {clock : Time}
  {consumption : EventConsumption} {vars : Variables} {element : BpmnElement} {α : Type}
  {handler : EventSubProcess} {subscription : EventSubscription} {m : Eng NextAction}

theorem ofResult_obeys {r : EngineResult α} {Q : Uuid → α → Prop}
    (h : ∀ a, r = .ok a → ∀ k, n ≤ k → Q k a) : Obeys fx n (ofResult r) Q := by
  intro e₀ s hs
  cases r with
  | error => exact hs
  | ok a => exact ⟨hs, h a rfl _ hs.drawn⟩

theorem ofResult_stays (r : EngineResult α) : Stays fx n (ofResult r) :=
  ofResult_obeys fun _ _ _ _ => trivial

theorem runEndScripts_stays (hi : fx.writes i) : Stays fx n (runEndScripts env i token d node) :=
  .bind getInstance_stays fun _ _ _ => .after (ofResult_stays _) fun _ _ _ =>
    Stays.returns (modifyInstance_stays hi (.of_same fun _ => rfl))

/-! ## Gateways -/

theorem forkMultiple_obeys (targets : List String) (vars : Variables) :
    Obeys fx n (do return NextAction.continueMultiple (← forkTokens targets vars))
      fun _ a => a.isQuiet := by
  have hfork : Stays fx n (forkTokens targets vars) :=
    (Obeys.mapM (Q := fun _ _ => True) (fun _ _ target _ => (newToken_obeys target vars).stays)
      fun _ _ _ _ _ => trivial).stays
  exact .bind hfork fun _ _ _ _ => .pure fun _ _ => rfl

theorem forkOrContinue_obeys (targets : List String) :
    Obeys fx n (forkOrContinue t targets) fun _ a => a.isQuiet := by
  unfold forkOrContinue
  split
  · exact .pure fun _ _ => rfl
  · exact forkMultiple_obeys _ _

theorem executeParallelGateway_obeys :
    Obeys fx n (executeParallelGateway d node t) fun _ a => a.isQuiet := by
  unfold executeParallelGateway
  refine .ite (fun _ => .pure fun _ _ => rfl) fun _ => ?_
  dsimp only
  split
  · exact .pure fun _ _ => rfl
  · exact forkMultiple_obeys _ _

theorem executeExclusiveGateway_stays (default : Option String) :
    Stays fx n (executeExclusiveGateway env d node t default) := by
  unfold executeExclusiveGateway
  split
  · exact .pure _
  · exact .throw _

theorem executeInclusiveGateway_obeys :
    Obeys fx n (executeInclusiveGateway env d node t) fun _ a => a.isQuiet := by
  unfold executeInclusiveGateway
  refine .ite (fun _ => .pure fun _ _ => rfl) fun _ => ?_
  dsimp only
  exact .ite (fun _ => .throw _) fun _ => forkOrContinue_obeys _

theorem executeComplexGateway_obeys (default : Option String) :
    Obeys fx n (executeComplexGateway env d node t default) fun _ a => a.isQuiet := by
  unfold executeComplexGateway
  refine .ite (fun _ => .pure fun _ _ => rfl) fun _ => ?_
  dsimp only
  split
  · exact .throw _
  · exact forkOrContinue_obeys _
  · exact forkOrContinue_obeys _

theorem registerJoinBarrierIfNeeded_stays (hi : fx.writes i) (split : String) (count : Nat) :
    Stays fx n (registerJoinBarrierIfNeeded i split count) := by
  refine .bind definitionOf_stays fun _ d _ => ?_
  split
  · exact Stays.pure _
  · exact modifyInstance_stays hi (.of_same fun _ => rfl)

theorem registerActiveToken_stays (hi : fx.writes i) (forkId : String) (index : Nat)
    (t : Token) : Stays fx n (registerActiveToken i forkId index t) :=
  updateInstance_stays hi (.of_same fun _ => rfl)

theorem respects_completeActive (id : Uuid) : fx.Respects n i fun x => x.completeActive id :=
  .of_same fun _ => rfl

theorem respects_completeAll (tokens : List Token) :
    fx.Respects n i fun x => tokens.foldl (fun x t => x.completeActive t.id) x := by
  induction tokens with
  | nil => exact .of_same fun _ => rfl
  | cons t tokens ih => exact ih.comp (respects_completeActive t.id)

theorem arriveAtJoin_stays (hi : fx.writes i) (gateway : String) (t : Token) :
    Stays fx n (arriveAtJoin env i gateway t) := by
  refine .bind definitionOf_stays fun k d hk => .after getInstance_stays fun l x hl => ?_
  dsimp only
  split
  · have herase : fx.Respects l i fun x =>
        { x with joinBarriers := x.joinBarriers.erase gateway } :=
      .of_same fun _ => rfl
    refine .after (modifyInstance_stays hi ((respects_completeAll _).comp herase)) ?_
    exact fun _ _ _ => .after (newToken_obeys _ _).stays fun _ _ _ => Stays.pure _
  · exact Stays.returns (modifyInstance_stays hi (.of_same fun _ => rfl))

theorem completeBranchToken_stays (hi : fx.writes i) (id : Uuid) :
    Stays fx n (completeBranchToken i id) :=
  updateInstance_stays hi (respects_completeActive id)

theorem allTokensCompleted_stays : Stays fx n (allTokensCompleted i) :=
  getInstance_stays.returns

/-! ## Event subprocesses -/

theorem subscriptionFor_waits {s : EventSubscription} {p : Option Pending}
    (h : subscriptionFor env i clock handler id = some (s, p)) :
    s.id = id ∧ ∀ q ∈ p, q.wait.instanceId = i ∧ q.wait.id = id := by
  unfold subscriptionFor at h
  split at h
  · obtain ⟨expiresAt, -, h⟩ := Option.map_eq_some_iff.mp h
    cases h
    exact ⟨rfl, fun q hq => by cases hq; exact ⟨rfl, rfl⟩⟩
  all_goals
    cases h
    exact ⟨rfl, fun q hq => by cases hq <;> exact ⟨rfl, rfl⟩⟩

theorem openEventScope_stays (hw : fx.writes i) (hf : fx.FilesFrom n i)
    (ho : ∀ id, n ≤ id → fx.opens i id) : Stays fx n (openEventScope env i) := by
  refine .after getInstance_stays fun k x hk => ?_
  refine .ite (fun _ => Stays.pure _) fun _ => ?_
  refine .after (getDefinition_stays _) fun l d hl => ?_
  refine .ite (fun _ => Stays.pure _) fun _ => ?_
  refine .after now_stays fun m clock hm => ?_
  have hopened : Obeys fx m (d.eventSubprocesses.mapM fun handler => do
      let id ← newUuid
      return subscriptionFor env i clock handler id) fun k opened => ∀ o ∈ opened, ∀ r ∈ o,
        m ≤ r.1.id ∧ r.1.id < k ∧ ∀ q ∈ r.2, q.wait.instanceId = i ∧ q.wait.id = r.1.id := by
    refine .mapM (fun k hk handler _ => ?_) fun k k' o hk h r hr =>
      ⟨(h r hr).1, lt_of_lt_of_le (h r hr).2.1 hk, (h r hr).2.2⟩
    refine .bind newUuid_obeys fun l id _ hid => .pure fun m' hm' r hr => ?_
    obtain ⟨hs, hp⟩ := subscriptionFor_waits (s := r.1) (p := r.2) hr
    rw [hs]
    exact ⟨hk.trans hid.1, lt_of_lt_of_le hid.2 hm', hp⟩
  refine .bind hopened fun o opened ho' hres => ?_
  have hn : n ≤ m := hk.trans (hl.trans hm)
  refine .after (modifyInstance_stays hw ?_) fun p _ hp => ?_
  · refine ⟨fun _ _ _ => rfl, fun _ => rfl, fun _ _ _ h => Or.inl h, fun x s hs => Or.inr ?_⟩
    obtain ⟨r, hr, rfl⟩ := List.mem_map.mp hs
    obtain ⟨_, hmem, rfl⟩ := List.mem_filterMap.mp hr
    have := hres _ hmem r rfl
    exact ⟨ho _ (hn.trans this.1), this.2.1⟩
  · refine Stays.forM fun k hk q hq => insertPending_stays ?_
    obtain ⟨r, hr, hrq⟩ := List.mem_filterMap.mp hq
    obtain ⟨_, hmem, rfl⟩ := List.mem_filterMap.mp hr
    have := hres _ hmem r rfl
    obtain ⟨hi, hid⟩ := this.2.2 q hrq
    refine ⟨?_, ?_⟩
    · rw [hi, hid]
      exact hf _ (hn.trans this.1) _
    · rw [hid]
      exact lt_of_lt_of_le this.2.1 (hp.trans hk)

theorem findInstance_obeys (hc : fx.closes i) : Obeys fx n (findInstance i)
    fun _ found => ∀ x ∈ found, ∀ s ∈ x.eventSubscriptions, ∀ kind, fx.removes kind s.id :=
  fun _ _ hs => ⟨hs, fun x hx => hs.known.subscriptions i x hc hx⟩

theorem closeEventScope_stays (hw : fx.writes i) (hc : fx.closes i) :
    Stays fx n (closeEventScope i) := by
  refine Obeys.bind (findInstance_obeys hc) fun k found hk hfound => ?_
  split
  · exact Stays.pure _
  case h_2 x =>
    refine Obeys.ite (fun _ => Stays.pure _) fun _ => ?_
    refine .after (modifyInstance_stays hw ?_) fun l _ _ => ?_
    · exact ⟨fun _ _ _ => rfl, fun _ => rfl, fun _ _ _ h => Or.inl h,
        fun _ s hs => absurd hs List.not_mem_nil⟩
    · refine Stays.forM fun m _ id hid => ?_
      obtain ⟨s, hs, rfl⟩ := List.mem_map.mp hid
      have hremove := hfound x rfl s hs
      exact .after (removePending_stays (hremove _)) fun _ _ _ =>
        .after (removePending_stays (hremove _)) fun _ _ _ => removePending_stays (hremove _)

theorem abortInterruptedInstance_stays (ha : fx.aborts) (fuel : Nat) (j : Uuid) :
    Stays fx n (abortInterruptedInstance fuel j) := by
  induction fuel generalizing n j with
  | zero => exact .pure _
  | succ fuel ih =>
    intro e₀ s hs
    rw [abortInterruptedInstance, exec_bind_ok (exec_findInstance s j)]
    cases hx : s.instances.find? j with
    | none => exact ⟨hs, trivial⟩
    | some x =>
      dsimp only
      by_cases hend : x.state.isTerminal = true
      · rw [if_pos hend]
        exact ⟨hs, trivial⟩
      -- The instance is rewritten and its waits are dropped in one touch.
      · rw [if_neg hend, exec_bind_ok (exec_now s), exec_bind_ok (exec_modifyInstance s j _),
          exec_bind_ok (exec_cancelScopeWaits _)]
        have htouch : Touch fx s
            ((s.modifyInstance j (ProcessInstance.interrupted s.clock)).dropWaits j) :=
          .abort ha hx (by simpa using hend) (Engine.sameCore_dropWaits _ _)
            fun w => Engine.mem_waits_dropWaits
        exact Stays.forM (fun k _ child _ => ih child) e₀ _ (hs.touch htouch)

theorem retainConsumption_stays {reschedule : Option TimerReschedule}
    (hc : ∀ p ∈ consumption.pending?, fx.MayFile n p) :
    Stays fx n (retainConsumption consumption subscription reschedule) := by
  unfold retainConsumption
  split
  · exact insertPending_stays (hc _ rfl)
  · exact insertPending_stays (hc _ rfl)
  case h_3 timer next =>
    exact insertPending_stays ⟨(hc (.timer timer) rfl).files, (hc (.timer timer) rfl).drawn⟩
  · exact .pure _

theorem respects_startHandler (handler : EventSubProcess) (subscription : EventSubscription)
    (reschedule : Option TimerReschedule) (vars : Variables) (t : Token) : fx.Respects n i
      (startHandler handler subscription reschedule vars t) where
  state _ x h := by
    unfold startHandler at h ⊢
    dsimp only at h ⊢
    split at h
    · simp [InstanceState.isTerminal, InstanceState.isSuspended] at h
    · rename_i hint
      split at h
      · simp [InstanceState.isTerminal, InstanceState.isSuspended] at h
      · rename_i hpar
        simp [hint, hpar]
  parent x := by
    unfold startHandler
    dsimp only
    split <;> rfl
  calls x id call h := by
    unfold startHandler at h
    dsimp only at h
    split at h
    · simp [ProcessInstance.clearScope] at h
    · exact .inl h
  opened x s hs := by
    unfold startHandler at hs
    dsimp only at hs
    split at hs
    · exact absurd hs List.not_mem_nil
    · exact .inl (keepSubscriptions_ids hs)

theorem activateHandler_stays (hg : fx.Governs i)
    (hc : ∀ p ∈ consumption.pending?, fx.MayFile n p) :
    Stays fx n (activateHandler env i handler subscription vars consumption) := by
  refine .bind now_stays fun k clock hk => .after getInstance_stays fun l x hl => ?_
  refine .ite (fun _ => Stays.pure _) fun _ => ?_
  refine .ite (fun _ => Stays.pure _) fun _ => ?_
  refine .after (newToken_obeys _ _).stays fun m t hm => ?_
  refine .after (modifyInstance_stays hg.writes (respects_startHandler ..)) fun o _ ho => ?_
  refine .ite (fun _ => ?_) fun _ => ?_
  · refine .after (cancelScopeWaits_stays hg.writes) fun _ _ _ => ?_
    refine .after get_stays fun _ _ _ => ?_
    exact .after (Stays.forM fun _ _ j _ => abortInterruptedInstance_stays hg.aborts _ j)
      fun _ _ _ => Stays.pure _
  · have hn : n ≤ o := hk.trans (hl.trans (hm.trans ho))
    exact .after (retainConsumption_stays fun p hp => (hc p hp).mono hn) fun _ _ _ => Stays.pure _

theorem activateEventSubscription_stays (hg : fx.Governs i)
    (hc : ∀ p ∈ consumption.pending?, fx.MayFile n p) :
    Stays fx n (activateEventSubscription env i consumption vars) := by
  refine .bind getInstance_stays fun k x hk => .ite (fun _ => ?_) fun _ => ?_
  · refine .after (Stays.forM fun l hl p hp => insertPending_stays ?_) fun _ _ _ =>
      Stays.pure _
    exact (hc p (by simpa using hp)).mono (hk.trans hl)
  refine .ite (fun _ => Stays.pure _) fun _ => ?_
  split
  · exact Stays.pure _
  · refine .after (getDefinition_stays _) fun l d hl => ?_
    split
    · exact .throw _
    · exact activateHandler_stays hg fun p hp => (hc p hp).mono (hk.trans hl)

theorem tryActivateEventCode_stays (hg : fx.Governs i) {code : String} {escalation : Bool}
    {exclude : Option String} :
    Stays fx n (tryActivateEventCode env i code escalation vars exclude) := by
  refine .bind getInstance_stays fun k x hk => .ite (fun _ => Stays.pure _) fun _ => ?_
  refine .after (getDefinition_stays _) fun l d hl => ?_
  split
  · exact Stays.pure _
  · exact activateHandler_stays hg fun p hp => by cases hp

/-! ## Elements -/

theorem setCurrentNode_stays (hw : fx.writes i) (node : String) :
    Stays fx n (setCurrentNode i node) :=
  updateInstance_stays hw (.of_same fun _ => rfl)

theorem parkToken_stays (hw : fx.writes i) (node : String) : Stays fx n (parkToken i node t) :=
  updateInstance_stays hw (.of_same fun _ => rfl)

theorem resolveNextTarget_stays (source : String) (vars : Variables) :
    Stays fx n (resolveNextTarget env d source vars) :=
  ofResult_stays _

theorem boundaryWait_waits (hid : n ≤ id ∧ id < k)
    (hp : p ∈ boundaryWait env clock i tokenId node element id) : p.Waits i n k := by
  unfold boundaryWait at hp
  split at hp <;> cases hp <;> exact ⟨rfl, hid⟩

theorem setupBoundaryEvents_stays (hf : fx.FilesFrom n i) (activity : String) (t : Token) :
    Stays fx n (setupBoundaryEvents env d activity i t) := by
  refine Stays.forM fun k hk entry _ => ?_
  refine .ite (fun _ => ?_) fun _ => Stays.pure _
  refine .bind newUuid_obeys fun l id hl hid => ?_
  refine .after now_stays fun m clock hm => ?_
  refine Stays.forM fun o ho p hp => insertPending_stays ?_
  have hwaits := boundaryWait_waits hid (Option.mem_toList.mp hp)
  exact ((hf.mono hk).mayFile hwaits).mono (hm.trans ho)

theorem handleStartEvent_obeys (hw : fx.writes i) :
    Obeys fx n (handleStartEvent env i token d node) fun _ a => a.isQuiet := by
  refine .after (resolveNextTarget_stays _ _) fun _ _ _ => ?_
  refine .after (runEndScripts_stays hw) fun _ _ _ => ?_
  exact .returns (setCurrentNode_stays hw _) fun _ _ _ => rfl

theorem handleEnd_obeys (hw : fx.writes i) (action : NextAction) (hp : action.isQuiet) :
    Obeys fx n (handleEnd env i token d node action) fun _ a => a.isQuiet := by
  refine .after (runEndScripts_stays hw) fun _ _ _ => ?_
  exact .returns (setCurrentNode_stays hw _) fun _ _ _ => hp

theorem fits_wait (ha : a.pendings = [p]) (hp : p.Waits i n k) : a.Fits i n k := by
  intro q hq
  rw [ha, List.mem_singleton] at hq
  exact hq ▸ hp

section

variable (hw : fx.writes i)

include hw

theorem parkNew_obeys {wait : Uuid → NextAction}
    (hwait : ∀ id, (wait id).isPlain ∧ ∃ p : Pending, (wait id).pendings = [p] ∧
      p.wait.instanceId = i ∧ p.wait.id = id) :
    Obeys fx n (do
      let id ← newUuid
      parkToken i node token
      return wait id) fun k a => a.Parks i n k := by
  refine .bind newUuid_obeys fun k id hk hid => ?_
  refine .after (parkToken_stays hw _) fun l _ hl => .pure fun m hm => ?_
  obtain ⟨hplain, p, ha, hi, rfl⟩ := hwait id
  exact ⟨fits_wait ha ⟨hi, hid.1, lt_of_lt_of_le hid.2 (hl.trans hm)⟩, hplain⟩

theorem handleTimerCatchEvent_obeys (timer : TimerDefinition) :
    Obeys fx n (handleTimerCatchEvent env i token node timer) fun k a => a.Parks i n k :=
  .after now_stays fun _ _ hk => (parkNew_obeys hw fun _ => ⟨rfl, _, rfl, rfl, rfl⟩).mono
    fun _ _ _ h => ⟨h.1.mono hk le_rfl, h.2⟩

theorem handleMessageCatchEvent_obeys (messageName : String) :
    Obeys fx n (handleMessageCatchEvent i token node messageName) fun k a => a.Parks i n k :=
  parkNew_obeys hw fun _ => ⟨rfl, _, rfl, rfl, rfl⟩

theorem handleSignalCatchEvent_obeys (signalName : String) :
    Obeys fx n (handleSignalCatchEvent i token node signalName) fun k a => a.Parks i n k :=
  parkNew_obeys hw fun _ => ⟨rfl, _, rfl, rfl, rfl⟩

theorem handleConditionalCatchEvent_obeys (condition : String) :
    Obeys fx n (handleConditionalCatchEvent i token node condition) fun k a => a.Parks i n k :=
  parkNew_obeys hw fun _ => ⟨rfl, _, rfl, rfl, rfl⟩

theorem handleLinkThrowEvent_obeys (target : String) :
    Obeys fx n (handleLinkThrowEvent env i token d node target) fun _ a => a.isQuiet := by
  refine .after (runEndScripts_stays hw) fun _ _ _ => ?_
  exact .returns (setCurrentNode_stays hw _) fun _ _ _ => rfl

theorem passThrow_stays : Stays fx n (passThrow env i t d node) :=
  .bind (resolveNextTarget_stays _ _) fun _ _ _ =>
    (setCurrentNode_stays hw _).returns

theorem continuePassed_obeys :
    Obeys fx n (do return NextAction.continue (← passThrow env i t d node)) fun _ a => a.isQuiet :=
  .returns (passThrow_stays hw) fun _ _ _ => rfl

theorem spawnPassed_obeys {handler : Token} :
    Obeys fx n (do return NextAction.spawnAndContinue (← passThrow env i t d node) [handler])
      fun _ a => a.isQuiet :=
  .returns (passThrow_stays hw) fun _ _ _ => rfl

end

theorem handleEscalationThrowEvent_obeys (hg : fx.Governs i) (code : String) :
    Obeys fx n (handleEscalationThrowEvent env i token d node code) fun _ a => a.isQuiet := by
  refine .after (runEndScripts_stays hg.writes) fun _ _ _ => ?_
  split
  · refine .after (resolveNextTarget_stays _ _) fun _ _ _ => .ite (fun _ => ?_) fun _ => ?_
    · exact .returns (setCurrentNode_stays hg.writes _) fun _ _ _ => rfl
    · exact .after (newToken_obeys _ _).stays fun _ _ _ => spawnPassed_obeys hg.writes
  · refine .after (.after findInstance_stays fun _ _ _ => ?_) fun _ _ _ => ?_
    · split <;> exact Stays.pure _
    refine .after (tryActivateEventCode_stays hg) fun _ _ _ => ?_
    split
    · exact .pure fun _ _ => rfl
    · exact spawnPassed_obeys hg.writes
    · exact continuePassed_obeys hg.writes

section

variable (hw : fx.writes i)

include hw

theorem handleSignalThrowEvent_obeys (signalName : String) (isEnd : Bool)
    (hstarts : element.startsBatch) :
    Obeys fx n (handleSignalThrowEvent env i token d node signalName isEnd)
      fun k o => o.Fits i n k ∧ o.Suits element :=
  .returns (runEndScripts_stays hw) fun _ _ _ => ⟨trivial, hstarts⟩

theorem finishSignalThrow_obeys (isEnd : Bool) :
    Obeys fx n (finishSignalThrow env i token d node isEnd) fun _ a => a.isQuiet := by
  refine .ite (fun _ => ?_) fun _ => continuePassed_obeys hw
  exact .returns (setCurrentNode_stays hw _) fun _ _ _ => rfl

theorem handleCompensationThrowEvent_obeys (activityRef : Option String) (isEnd : Bool)
    (hstarts : element.startsBatch) :
    Obeys fx n (handleCompensationThrowEvent env i token d node activityRef isEnd)
      fun k o => o.Fits i n k ∧ o.Suits element := by
  refine .after (runEndScripts_stays hw) fun _ _ _ => ?_
  refine .after getInstance_stays fun _ _ _ => ?_
  exact .returns (setCurrentNode_stays hw _) fun _ _ _ => ⟨trivial, hstarts⟩

theorem finishCompensation_obeys (activityRef : Option String) (isEnd : Bool) :
    Obeys fx n (finishCompensation env i token d node activityRef isEnd) fun _ a => a.isQuiet :=
  .after (updateInstance_stays hw (.of_same fun _ => rfl)) fun _ _ _ =>
    .ite (fun _ => .pure fun _ _ => rfl) fun _ => continuePassed_obeys hw

theorem registerCompensationHandler_stays (activity : String) :
    Stays fx n (registerCompensationHandler i activity d) := by
  unfold registerCompensationHandler
  split
  · exact modifyInstance_stays hw (.of_same fun _ => rfl)
  · exact .pure _

/-! ## Tasks -/

theorem handleUserTask_obeys (hf : fx.FilesFrom n i) (assignee : String) :
    Obeys fx n (handleUserTask env i token d node assignee) fun k a => a.Parks i n k := by
  refine .after (setupBoundaryEvents_stays hf _ _) fun k _ hk => ?_
  refine .after getInstance_stays fun l x hl => ?_
  refine .bind newUuid_obeys fun m id hm hid => ?_
  refine .after (parkToken_stays hw _) fun o _ ho => ?_
  refine .after now_stays fun p clock hp => .pure fun q hq => ?_
  exact ⟨fits_wait rfl ⟨rfl, (hk.trans hl).trans hid.1,
    lt_of_lt_of_le hid.2 (ho.trans (hp.trans hq))⟩, rfl⟩

theorem handleScriptTask_obeys (script : String) :
    Obeys fx n (handleScriptTask env i token d node script) fun _ a => a.isQuiet := by
  refine .after (ofResult_stays _) fun _ _ _ => ?_
  refine .after (runEndScripts_stays hw) fun _ _ _ => ?_
  refine .after (registerCompensationHandler_stays hw _) fun _ _ _ => ?_
  refine .after (resolveNextTarget_stays _ _) fun _ _ _ => ?_
  exact .returns (updateInstance_stays hw (.of_same fun _ => rfl)) fun _ _ _ => rfl

theorem handleSendTask_obeys :
    Obeys fx n (handleSendTask env i token d node) fun _ a => a.isQuiet :=
  .after (runEndScripts_stays hw) fun _ _ _ => continuePassed_obeys hw

end

theorem newServiceTask_obeys (x : ProcessInstance) (topic : String) (tokenId : Uuid)
    (vars : Variables) :
    Obeys fx n (newServiceTask x d node topic tokenId vars)
      fun k t => (Pending.serviceTask t).Waits x.id n k := by
  refine .bind newUuid_obeys fun k id hk hid => ?_
  refine .after now_stays fun l clock hl => .pure fun m hm => ?_
  exact ⟨rfl, hid.1, lt_of_lt_of_le hid.2 (hl.trans hm)⟩

theorem itemTasks_obeys (x : ProcessInstance) (topic : String) (elementVariable : Option String)
    (t : Token) (index : Nat) (items : List (Option Value)) :
    Obeys fx n (itemTasks x d node topic elementVariable t index items) fun k tasks =>
      ∀ task ∈ tasks, (Pending.serviceTask task).Waits x.id n k := by
  induction items generalizing n index with
  | nil => exact .pure fun _ _ _ h => absurd h List.not_mem_nil
  | cons item rest ih =>
    refine .after (ofResult_stays _) fun k vars hk => ?_
    refine .bind (newServiceTask_obeys x topic t.id vars) fun l task hl htask => ?_
    refine .bind (ih (index + 1)) fun m tasks hm htasks => .pure fun o ho u hu => ?_
    rcases List.mem_cons.mp hu with rfl | hu
    · exact htask.mono hk (hm.trans ho)
    · exact (htasks u hu).mono (hk.trans hl) ho

theorem startProgress_stays (hw : fx.writes i) (progress : MultiInstanceProgress) :
    Stays fx n (startProgress i node token progress) :=
  modifyInstance_stays hw (.of_same fun _ => rfl)

theorem getInstance_obeys : Obeys fx n (getInstance i) fun _ x => x.id = i := by
  intro e₀ s hs
  rw [getInstance, exec_bind_ok (exec_get s)]
  cases hx : s.instances.find? i with
  | none => exact hs
  | some => exact ⟨hs, Table.key_of_find? hx⟩

theorem startMultiInstance_obeys (hw : fx.writes i) (hf : fx.FilesFrom n i) (topic : String)
    (mi : MultiInstanceDef) (items : List (Option Value)) :
    Obeys fx n (startMultiInstance i token d node topic mi items)
      fun k a => a.Fits i n k ∧ a.isCall = false := by
  refine .bind getInstance_obeys fun k x hk hx => ?_
  subst hx
  refine .ite (fun _ => ?_) fun _ => ?_
  · refine .after (ofResult_stays _) fun l vars hl => ?_
    refine .bind (newServiceTask_obeys x topic _ vars) fun m task hm htask => ?_
    refine .after (startProgress_stays hw _) fun o _ ho => .pure fun p hp => ?_
    exact ⟨fits_wait rfl (htask.mono (hk.trans hl) (ho.trans hp)), rfl⟩
  · refine .bind (itemTasks_obeys x topic _ token 0 items) fun l tasks hl htasks => ?_
    refine .after (startProgress_stays hw _) fun m _ hm => ?_
    split
    · exact .pure fun _ _ => ⟨fun _ hp => absurd hp List.not_mem_nil, rfl⟩
    case h_2 first rest =>
      refine .after (Stays.forM fun o ho task htask => insertPending_stays ?_) ?_
      · have hwaits := (htasks task (List.mem_cons_of_mem _ htask)).mono hk le_rfl
        exact (hf.mayFile hwaits).mono (hm.trans ho)
      · intro o _ ho
        refine .pure fun p hp => ⟨fits_wait rfl ?_, rfl⟩
        exact (htasks first (List.mem_cons_self ..)).mono hk (hm.trans (ho.trans hp))

theorem handleServiceTask_obeys (hw : fx.writes i) (hf : fx.FilesFrom n i) (topic : String)
    (multiInstance : Option MultiInstanceDef) :
    Obeys fx n (handleServiceTask env i token d node topic multiInstance)
      fun k a => a.Fits i n k ∧ a.isCall = false := by
  unfold handleServiceTask
  split
  · refine .after (ofResult_stays _) fun k items hk => .ite (fun _ => ?_) fun _ => ?_
    · exact .after (passThrow_stays hw) fun _ _ _ => .pure fun _ _ =>
        ⟨fun _ hp => absurd hp List.not_mem_nil, rfl⟩
    refine .after (setupBoundaryEvents_stays (hf.mono hk) _ _) fun l _ hl => ?_
    refine (startMultiInstance_obeys hw (hf.mono (hk.trans hl)) topic _ items).mono ?_
    exact fun _ _ _ h => ⟨h.1.mono (hk.trans hl) le_rfl, h.2⟩
  · refine .after (setupBoundaryEvents_stays hf _ _) fun k _ hk => ?_
    refine .bind getInstance_obeys fun l x hl hx => ?_
    subst hx
    refine .bind (newServiceTask_obeys x topic _ _) fun m task hm htask => ?_
    refine .after (parkToken_stays hw _) fun o _ ho => .pure fun p hp => ?_
    exact ⟨fits_wait rfl (htask.mono (hk.trans hl) (ho.trans hp)), rfl⟩

theorem handleCallActivity_obeys (hw : fx.writes i) (hf : fx.FilesFrom n i) (called : String) :
    Obeys fx n (handleCallActivity env i token d node called) fun _ a => a.pendings = [] :=
  .after (setupBoundaryEvents_stays hf _ _) fun _ _ _ =>
    .returns (setCurrentNode_stays hw _) fun _ _ _ => rfl

theorem handleSubProcessEndEvent_obeys (subProcess : String) :
    Obeys fx n (handleSubProcessEndEvent env token d subProcess) fun _ a => a.isQuiet :=
  .returns (resolveNextTarget_stays _ _) fun _ _ _ => rfl

/-! ## Gateways as elements -/

section

variable (hw : fx.writes i)

include hw

theorem noteFork_obeys {action : NextAction} (ha : action.isQuiet) :
    Obeys fx n (noteFork i node action) fun _ a => a.isQuiet := by
  unfold noteFork
  split
  · exact .returns (setCurrentNode_stays hw _) fun _ _ _ => ha
  · exact .pure fun _ _ => ha

theorem handleParallelGateway_obeys :
    Obeys fx n (handleParallelGateway env i token d node) fun _ a => a.isQuiet :=
  .after (runEndScripts_stays hw) fun _ _ _ =>
    .bind executeParallelGateway_obeys fun _ _ _ ha => noteFork_obeys hw ha

theorem handleExclusiveGateway_obeys (default : Option String) :
    Obeys fx n (handleExclusiveGateway env i token d node default) fun _ a => a.isQuiet := by
  refine .after (runEndScripts_stays hw) fun _ _ _ => ?_
  refine .after (executeExclusiveGateway_stays default) fun _ _ _ => ?_
  exact .returns (setCurrentNode_stays hw _) fun _ _ _ => rfl

theorem handleInclusiveGateway_obeys :
    Obeys fx n (handleInclusiveGateway env i token d node) fun _ a => a.isQuiet :=
  .after (runEndScripts_stays hw) fun _ _ _ =>
    .bind executeInclusiveGateway_obeys fun _ _ _ ha => noteFork_obeys hw ha

theorem handleComplexGateway_obeys (default : Option String) :
    Obeys fx n (handleComplexGateway env i token d node default) fun _ a => a.isQuiet := by
  refine .after (runEndScripts_stays hw) fun _ _ _ => ?_
  refine .bind (executeComplexGateway_obeys default) fun _ a _ ha => ?_
  dsimp only
  split
  · exact .returns (setCurrentNode_stays hw _) fun _ _ _ => ha
  · exact .returns (setCurrentNode_stays hw _) fun _ _ _ => ha
  · exact .pure fun _ _ => ha

end

theorem eventAlternative_obeys (target : String) :
    Obeys fx n (eventAlternative env d i t target) fun k as => ∀ a ∈ as, a.pending.Waits i n k := by
  unfold eventAlternative
  split
  · exact .pure fun _ _ _ h => absurd h List.not_mem_nil
  · refine .after now_stays fun k clock hk => ?_
    refine .bind newUuid_obeys fun l id hl h => .pure fun m hm a ha => ?_
    rw [List.mem_singleton.mp ha]
    exact ⟨rfl, hk.trans h.1, lt_of_lt_of_le h.2 hm⟩
  · refine .bind newUuid_obeys fun l id hl h => .pure fun m hm a ha => ?_
    rw [List.mem_singleton.mp ha]
    exact ⟨rfl, h.1, lt_of_lt_of_le h.2 hm⟩
  · refine .bind newUuid_obeys fun l id hl h => .pure fun m hm a ha => ?_
    rw [List.mem_singleton.mp ha]
    exact ⟨rfl, h.1, lt_of_lt_of_le h.2 hm⟩
  · exact .throw _

theorem handleEventBasedGateway_obeys (hw : fx.writes i) :
    Obeys fx n (handleEventBasedGateway env i token d node) fun k a => a.Parks i n k := by
  refine .after (runEndScripts_stays hw) fun k t hk => ?_
  refine .bind (.mapM (fun l hl flow _ =>
      (eventAlternative_obeys flow.target).mono fun m as _ h a ha =>
        (h a ha).mono (hk.trans hl) le_rfl)
    fun l l' as hl h a ha => (h a ha).mono le_rfl hl) fun l groups hl hgroups => ?_
  refine .after (parkToken_stays hw _) fun m _ hm => .pure fun o ho =>
    ⟨fun p hp => ?_, rfl⟩
  obtain ⟨a, ha, rfl⟩ := List.mem_map.mp hp
  obtain ⟨as, has, ha⟩ := List.mem_flatten.mp ha
  exact (hgroups as has a ha).mono le_rfl (hm.trans ho)

/-! ## Dispatch -/

theorem action_obeys {Q : Uuid → NextAction → Prop} (h : Obeys fx n m Q)
    (hQ : ∀ k a, Q k a → a.Fits i n k ∧ (StepOutcome.action a).Suits element) :
    Obeys fx n (StepOutcome.action <$> m) fun k o => o.Fits i n k ∧ o.Suits element := by
  rw [map_eq_pure_bind]
  exact .bind h fun k a _ ha => .pure fun l hl =>
    ⟨NextAction.Fits.mono (hQ k a ha).1 le_rfl hl, (hQ k a ha).2⟩

theorem parks_obeys (h : Obeys fx n m fun k a => a.Parks i n k) :
    Obeys fx n (StepOutcome.action <$> m) fun k o => o.Fits i n k ∧ o.Suits element :=
  action_obeys h fun _ _ ha => ⟨ha.1, StepOutcome.suits_of_isPlain ha.2⟩

theorem quiet_obeys (h : Obeys fx n m fun _ a => a.isQuiet) :
    Obeys fx n (StepOutcome.action <$> m) fun k o => o.Fits i n k ∧ o.Suits element :=
  parks_obeys (h.mono fun _ _ _ ha => NextAction.parks_of_isQuiet ha)

theorem dispatch_obeys (hg : fx.Governs i) (hf : fx.FilesFrom n i) :
    Obeys fx n (dispatch env i token d node element) fun k o => o.Fits i n k ∧ o.Suits element := by
  have hw := hg.writes
  cases element <;> unfold dispatch
  case startEvent | timerStartEvent | messageStartEvent | signalStartEvent =>
    exact quiet_obeys (handleStartEvent_obeys hw)
  case endEvent | terminateEndEvent | errorEndEvent | escalationEndEvent =>
    exact quiet_obeys (handleEnd_obeys hw _ rfl)
  case userTask => exact parks_obeys (handleUserTask_obeys hw hf _)
  case scriptTask => exact quiet_obeys (handleScriptTask_obeys hw _)
  case sendTask => exact quiet_obeys (handleSendTask_obeys hw)
  case serviceTask =>
    exact action_obeys (handleServiceTask_obeys hw hf _ _) fun _ _ ha =>
      ⟨ha.1, fun _ => ha.2, fun hother => absurd rfl (hother _ _)⟩
  case parallelGateway => exact quiet_obeys (handleParallelGateway_obeys hw)
  case exclusiveGateway => exact quiet_obeys (handleExclusiveGateway_obeys hw _)
  case inclusiveGateway => exact quiet_obeys (handleInclusiveGateway_obeys hw)
  case complexGateway => exact quiet_obeys (handleComplexGateway_obeys hw _)
  case eventBasedGateway => exact parks_obeys (handleEventBasedGateway_obeys hw)
  case timerCatchEvent => exact parks_obeys (handleTimerCatchEvent_obeys hw _)
  case messageCatchEvent => exact parks_obeys (handleMessageCatchEvent_obeys hw _)
  case signalCatchEvent => exact parks_obeys (handleSignalCatchEvent_obeys hw _)
  case conditionalCatchEvent => exact parks_obeys (handleConditionalCatchEvent_obeys hw _)
  case signalThrowEvent | signalEndEvent => exact handleSignalThrowEvent_obeys hw _ _ rfl
  case callActivity =>
    refine action_obeys (handleCallActivity_obeys hw hf _) fun _ a ha => ⟨?_, nofun, fun _ => ?_⟩
    · exact fun _ hp => absurd (ha ▸ hp) List.not_mem_nil
    · rintro task rfl
      cases ha
  case embeddedSubProcess | boundaryCompensationEvent =>
    exact .pure fun _ _ => NextAction.parks_of_isQuiet rfl |>.imp_right StepOutcome.suits_of_isPlain
  case subProcessEndEvent => exact quiet_obeys (handleSubProcessEndEvent_obeys _)
  case escalationThrowEvent => exact quiet_obeys (handleEscalationThrowEvent_obeys hg _)
  case compensationThrowEvent | compensationEndEvent =>
    exact handleCompensationThrowEvent_obeys hw _ _ rfl
  case linkThrowEvent => exact quiet_obeys (handleLinkThrowEvent_obeys hw _)
  case boundaryTimerEvent | boundaryMessageEvent | boundarySignalEvent | boundaryConditionalEvent
      | boundaryErrorEvent | boundaryEscalationEvent =>
    exact quiet_obeys (handleStartEvent_obeys hw)

theorem executeStep_obeys (hg : fx.Governs i) (hf : fx.FilesFrom n i) :
    Obeys fx n (executeStep env i token) fun k o => o.Fits i n k := by
  have hdispatch : ∀ {k token d node element}, n ≤ k →
      Obeys fx k (dispatch env i token d node element) fun k o => o.Fits i n k := fun hk =>
    (dispatch_obeys hg (hf.mono hk)).mono fun _ _ _ h => h.1.mono hk
  refine .after definitionOf_stays fun k d hk => ?_
  split
  · exact .throw _
  · refine .after (ofResult_stays _) fun l _ hl => ?_
    refine .after (ofResult_stays _) fun m _ hm => ?_
    refine .ite (fun _ => ?_) fun _ => hdispatch (hk.trans (hl.trans hm))
    exact .after (modifyInstance_stays hg.writes (.of_same fun _ => rfl)) fun o _ ho =>
      hdispatch (hk.trans (hl.trans (hm.trans ho)))

end Eng

end BpmnEngine
