import BpmnEngine.StartFootprints
import BpmnEngine.Executor

/-!
# Footprints of the batch executor

Acting on the outcome of a step works for the instance of the batch; a call founds one
more instance. Only the ending actions and a call that cannot start may end the
instance.
-/
namespace BpmnEngine

open Program

open Effects (Respects)

def NextAction.mayEnd : NextAction → Bool
  | .complete | .errorEnd _ | .escalationEnd _ | .terminate | .waitForCallActivity .. => true
  | _ => false

def ActionOutcome.Proceeds : ActionOutcome → Prop
  | .proceed _ => True
  | .call .. => False

def ActionOutcome.Calls (j : Uuid) : ActionOutcome → Prop
  | .proceed _ => True
  | .call _ childId _ => childId = j

/-- A wait of an instance that may be taken out and filed again. -/
structure Effects.Handles (fx : Effects) (n i : Uuid) (kind : WaitKind) (id : Uuid) : Prop where
  removes : fx.removes kind id
  files : fx.files kind i id
  owns : fx.owns kind id i
  drawn : id < n

variable {fx : Effects}

theorem Effects.Handles.mono {n i : Uuid} {kind : WaitKind} {id k : Uuid}
    (h : fx.Handles n i kind id) (hk : n ≤ k) : fx.Handles k i kind id :=
  { h with drawn := lt_of_lt_of_le h.drawn hk }

theorem Effects.Handles.owner {n i : Uuid} {p : Pending} (h : fx.Handles n i p.wait.kind p.wait.id)
    {e : Engine} (he : fx.Knows e) (hp : e.Holds p) : p.wait.instanceId = i :=
  he.owner _ hp.mem_waits i h.owns

theorem Effects.Handles.mayFile {n i : Uuid} {p : Pending}
    (h : fx.Handles n i p.wait.kind p.wait.id) (hi : p.wait.instanceId = i) {k : Uuid}
    (hk : n ≤ k) : fx.MayFile k p :=
  ⟨hi ▸ h.files, lt_of_lt_of_le h.drawn hk⟩

namespace Eng

variable {env : Env} {fx : Effects} {n i tokenId : Uuid} {queue : List Token}
  {d : ProcessDefinition} {vars : Variables} {state : InstanceState} {c : PendingConditionalCatch}

theorem nodeIsInclusiveSplit_stays (node : String) : Stays fx n (nodeIsInclusiveSplit i node) :=
  definitionOf_stays.returns

theorem setWaiting_stays (hw : fx.writes i) (hs : state.Awake) :
    Stays fx n (setWaiting i state) := by
  refine modifyInstance_stays hw (.of_rest (.inr fun x => ?_) fun _ => rfl)
  dsimp only
  split
  · exact .inl rfl
  · exact .inr hs

theorem registerForked_stays (hw : fx.writes i) (forkId : String) (index : Nat)
    (tokens : List Token) : Stays fx n (registerForked i forkId index tokens) := by
  induction tokens generalizing n index with
  | nil => exact .pure _
  | cons t rest ih => exact .bind (registerActiveToken_stays hw _ _ _) fun _ _ _ => ih (index + 1)

theorem failCallActivity_stays (hw : fx.writes i) (he : fx.ends i) (code : String) :
    Stays fx n (failCallActivity i code) :=
  .bind now_stays fun _ _ _ => modifyInstance_stays hw (.of_rest (.inl he) fun _ => rfl)

theorem tokenEventContext_stays (id : Uuid) : Stays fx n (tokenEventContext i id) := by
  refine .bind findInstance_stays fun _ _ _ => ?_
  split
  · exact Stays.pure _
  · split <;> exact Stays.pure _

section

variable (hw : fx.writes i)

include hw

theorem removeToken_stays : Stays fx n (removeToken i tokenId) :=
  modifyInstance_stays hw (.of_same fun _ => rfl)

theorem markEnded_stays (he : fx.ends i) (state : InstanceState) : Stays fx n (markEnded i state) :=
  .bind now_stays fun _ _ _ => modifyInstance_stays hw (.of_rest (.inl he) fun _ => rfl)

/-! ## The actions -/

theorem onContinueMultiple_obeys (gateway : String) (tokens : List Token) :
    Obeys fx n (onContinueMultiple i tokenId gateway queue tokens) fun _ out => out.Proceeds := by
  refine .after (registerJoinBarrierIfNeeded_stays hw _ _) fun k _ hk => ?_
  have hfork : fx.Respects k i fun x =>
      { x.completeActive tokenId with
        state := .parallelExecution (x.activeTokens.length + tokens.length)
        currentNode := gateway } :=
    .of_rest (.inr fun _ => .inr ⟨rfl, rfl⟩) fun _ => rfl
  refine .after (modifyInstance_stays hw hfork) fun l _ hl => ?_
  exact .returns (registerForked_stays hw _ _ _) fun _ _ _ => trivial

theorem onWaitForJoin_obeys (gateway : String) (token : Token) :
    Obeys fx n (onWaitForJoin env i gateway token queue) fun _ out => out.Proceeds := by
  refine .after (arriveAtJoin_stays hw gateway token) fun k merged hk => ?_
  split
  · exact .pure fun _ _ => trivial
  · exact .after (modifyInstance_stays hw (.of_rest (.inr fun _ => .inr ⟨rfl, rfl⟩) fun _ => rfl))
      fun _ _ _ => .pure fun _ _ => trivial

theorem onWait_obeys (hs : state.Awake) {p : Pending} (hp : fx.MayFile n p) :
    Obeys fx n (onWait i state p queue) fun _ out => out.Proceeds :=
  .after (setWaiting_stays hw hs) fun _ _ hk =>
    .returns (insertPending_stays (hp.mono hk)) fun _ _ _ => trivial

theorem onWaitForEventGroup_obeys {alternatives : List EventAlternative}
    (hp : ∀ a ∈ alternatives, fx.MayFile n a.pending) :
    Obeys fx n (onWaitForEventGroup i alternatives queue) fun _ out => out.Proceeds := by
  refine .after (setWaiting_stays hw ⟨rfl, rfl⟩) fun k _ hk => ?_
  refine Stays.bind (Stays.forM fun l hl a ha => ?_) fun _ _ _ => .pure fun _ _ => trivial
  exact insertPending_stays ((hp a ha).mono (hk.trans hl))

theorem abandonStart_obeys (he : fx.ends i) (code : String) : Obeys fx n (do
        failCallActivity i code
        return ActionOutcome.proceed []) fun _ out => ∀ j, out.Calls j :=
  Stays.bind (failCallActivity_stays hw he code) fun _ _ _ => .pure fun _ _ _ => trivial

theorem onWaitForCallActivity_founds (hc : fx.calls i) (he : fx.ends i) (hi : i < n)
    (called : String) (token : Token) : Founds fx n (onWaitForCallActivity env i called token queue)
      fun j _ out => out.Calls j := by
  refine Stays.bind_founds allDefinitions_stays fun k ds hk => ?_
  split
  · refine Founds.orElse (Founds.bind (spawnCallActivityForParent_founds hw hc
      (lt_of_lt_of_le hi hk) _ token)
      fun j l r hj hl hr => .pure fun m hm => hr) fun error j hj => ?_
    have hw' : (fx.hosting k j).writes i := .inl hw
    exact (abandonStart_obeys hw' he _).mono fun _ _ _ h => h j
  · exact ((abandonStart_obeys hw he _).mono fun _ _ _ h j _ => h j).founds

end

theorem exec_onWaitForCallActivity_none {e : Engine} (h : e.instances.find? i = none)
    (called : String) (token : Token) :
    ∃ e₁ code, (e₁ = e ∨ e₁ = { e with nextUuid := e.nextUuid + 1 }) ∧
      exec (onWaitForCallActivity env i called token queue) e =
        exec (do
          failCallActivity i code
          return ActionOutcome.proceed []) e₁ := by
  obtain ⟨ds, hds⟩ : ∃ ds, exec (allDefinitions env) e = (.ok ds, e) := ⟨_, rfl⟩
  rw [onWaitForCallActivity, exec_bind_ok hds]
  split
  case h_2 => exact ⟨e, _, .inl rfl, rfl⟩
  case h_1 d _ =>
    obtain ⟨e₁, he₁⟩ : ∃ e₁, e₁ = { e with nextUuid := e.nextUuid + 1 } := ⟨_, rfl⟩
    have hnone : exec (definitionOf i) e₁ = (.error (.noSuchInstance i), e₁) := by
      rw [definitionOf, exec_bind_error (exec_getInstance_none (by rw [he₁]; exact h))]
    refine ⟨e₁, "CALL_ACTIVITY_SPAWN_FAILED", .inr he₁, ?_⟩
    rw [he₁] at hnone ⊢
    rw [exec_orElse, spawnCallActivityForParent, exec_bind,
      exec_bind_ok (exec_newUuid e), exec_bind_error hnone]

theorem onComplete_obeys (hg : fx.Governs i) (he : fx.ends i) :
    Obeys fx n (onComplete i tokenId queue) fun _ out => out.Proceeds := by
  refine .after (completeBranchToken_stays hg.writes _) fun k _ hk => ?_
  refine .after (removeToken_stays hg.writes) fun l _ hl => ?_
  refine .after allTokensCompleted_stays fun m done hm => ?_
  refine .ite (fun _ => ?_) fun _ => .pure fun _ _ => trivial
  refine .after (closeEventScope_stays hg.writes hg.closes) fun o _ ho => ?_
  exact .returns (markEnded_stays hg.writes he _) fun _ _ _ => trivial

theorem completeWithError_stays (hw : fx.writes i) (he : fx.ends i) (code : String) :
    Stays fx n (completeWithError i code) := by
  refine .bind newUuid_obeys.stays fun k id hk => ?_
  refine .after now_stays fun l clock hl => modifyInstance_stays hw ?_
  refine .of_rest (.inl he) fun x => ?_
  dsimp only
  rw [pushOrTouchIncident_same]
  rfl

theorem onCodeEnd_obeys (hg : fx.Governs i) (code : String)
    (escalation : Bool) {finish : Eng Unit} (hfinish : ∀ k, Stays fx k finish) :
    Obeys fx n (onCodeEnd env i tokenId code escalation finish queue) fun _ out => out.Proceeds :=
      by
  refine .after (completeBranchToken_stays hg.writes _) fun k _ hk => ?_
  refine .after (tokenEventContext_stays _) fun l r hl => ?_
  refine .after (removeToken_stays hg.writes) fun m _ hm => ?_
  refine .after (tryActivateEventCode_stays hg) fun o activation ho => ?_
  split
  · exact .pure fun _ _ => trivial
  refine .after allTokensCompleted_stays fun p done hp => ?_
  refine .ite (fun _ => ?_) fun _ => .pure fun _ _ => trivial
  refine .after (hfinish _) fun q _ hq => ?_
  exact .returns (closeEventScope_stays hg.writes hg.closes) fun _ _ _ => trivial

theorem onTerminate_obeys (hg : fx.Governs i) (he : fx.ends i) : Obeys fx n (onTerminate i)
    fun _ out => out.Proceeds := by
  refine .after (closeEventScope_stays hg.writes hg.closes) fun k _ hk => ?_
  refine .after (cancelScopeWaits_stays hg.writes) fun l _ hl => ?_
  exact .after (modifyInstance_stays hg.writes (.of_same fun _ => rfl)) fun _ _ _ =>
      .returns (markEnded_stays hg.writes he _) fun _ _ _ => trivial

theorem onMultiInstanceFork_obeys (hw : fx.writes i) (node : String) (tokens : List Token) :
    Obeys fx n (onMultiInstanceFork i tokenId node queue tokens) fun _ out => out.Proceeds := by
  refine .after (updateInstance_stays hw (.of_rest (.inr fun _ => .inr ⟨rfl, rfl⟩) fun _ => rfl)) ?_
  exact fun _ _ _ => .after (registerForked_stays hw _ _ _) fun _ _ _ =>
    .pure fun _ _ => trivial

theorem handleNextAction_obeys (hg : fx.Governs i) {node : String}
    {action : NextAction} (hp : ∀ p ∈ action.pendings, fx.MayFile n p)
    (hc : action.isCall = false) (he : action.mayEnd = true → fx.ends i) :
    Obeys fx n (handleNextAction env i tokenId node queue action) fun _ out => out.Proceeds := by
  have hw := hg.writes
  have hdone : ∀ {m : Uuid} {q : List Token},
      Obeys fx m (pure (ActionOutcome.proceed q)) fun _ out => out.Proceeds :=
    .pure fun _ _ => trivial
  cases action <;> unfold handleNextAction
  case «continue» token =>
    refine .after (nodeIsInclusiveSplit_stays node) fun k split hk => ?_
    refine .ite (fun _ => ?_) fun _ => hdone
    exact .after (registerJoinBarrierIfNeeded_stays hw _ _) fun _ _ _ => hdone
  case continueMultiple => exact onContinueMultiple_obeys hw _ _
  case waitForJoin => exact onWaitForJoin_obeys hw _ _
  case waitForUser | waitForServiceTask | waitForTimer | waitForMessage | waitForSignal
      | waitForCondition =>
    exact onWait_obeys hw ⟨rfl, rfl⟩ (hp _ (List.mem_singleton.mpr rfl))
  case waitForEventGroup alternatives =>
    refine onWaitForEventGroup_obeys hw fun a ha => hp _ ?_
    exact List.mem_map.mpr ⟨a, ha, rfl⟩
  case waitForCallActivity => cases hc
  case complete => exact onComplete_obeys hg (he rfl)
  case errorEnd code =>
    exact onCodeEnd_obeys hg code false fun _ => completeWithError_stays hw (he rfl) code
  case escalationEnd code =>
    exact onCodeEnd_obeys hg code true fun _ => markEnded_stays hw (he rfl) _
  case spawnAndContinue | interruptScope | multiInstanceNext => exact hdone
  case terminate => exact onTerminate_obeys hg (he rfl)
  case multiInstanceFork => exact onMultiInstanceFork_obeys hw _ _

/-! ## Conditional events -/

theorem get_obeys : Obeys fx n (get : Eng Engine) fun _ e => fx.Knows e :=
  fun _ _ hs => ⟨hs, hs.known⟩

theorem cancelPendingActivity_stays (hw : fx.writes i) (id : Uuid) :
    Stays fx n (cancelPendingActivity i id) := by
  refine .forM fun k _ kind _ => retainPending_stays fun w _ h => .inl ?_
  simp only [Bool.not_eq_false', Bool.and_eq_true, beq_iff_eq] at h
  exact h.1 ▸ hw

theorem takeToken_stays (hw : fx.writes i) (id : Uuid) : Stays fx n (takeToken i id) := by
  refine .bind getInstance_stays fun k x hk => ?_
  split
  · exact .throw _
  · refine (modifyInstance_stays hw ?_).returns
    exact .of_same fun _ => rfl

theorem runningUnlessParallel_awake (s : InstanceState) :
    runningUnlessParallel s = s ∨ (runningUnlessParallel s).Awake := by
  unfold runningUnlessParallel
  split
  · exact .inl rfl
  · exact .inr ⟨rfl, rfl⟩

theorem cloneToken_stays (hw : fx.writes i) (id : Uuid)
    (change : Token → Token) (forkId : Token → String) :
    Stays fx n (cloneToken i id change forkId) := by
  refine .bind getInstance_stays fun k x hk => ?_
  split
  · exact .throw _
  · refine .after newUuid_obeys.stays fun l cloneId hl => ?_
    refine (modifyInstance_stays hw ?_).returns
    refine .of_rest (.inr fun y => ?_) fun _ => rfl
    dsimp only
    split
    · exact .inl rfl
    · exact .inr ⟨rfl, rfl⟩

theorem conditionalTarget_stays (label node : String) (vars : Variables) :
    Stays fx n (conditionalTarget env d label node vars) := by
  unfold conditionalTarget
  split
  · exact .pure _
  · exact .throw _

section

variable (hw : fx.writes i)

include hw

theorem releaseCaught_stays (id : Uuid) (target : String) (vars : Variables) :
    Stays fx n (releaseCaught i id target vars) := by
  refine .bind (takeToken_stays hw id) fun k token hk => ?_
  refine (modifyInstance_stays hw ?_).returns
  exact .of_rest (.inr fun _ => runningUnlessParallel_awake _) fun _ => rfl

theorem fireCatch_stays (hc : fx.Handles n i .conditional c.id) (hi : c.instanceId = i) :
    Stays fx n (fireCatch env d i vars c) := by
  refine .bind (removePending_stays hc.removes) fun k _ hk => ?_
  split
  · refine .after (conditionalTarget_stays _ _ _) fun l target hl => ?_
    exact (releaseCaught_stays hw _ _ _).returns
  · refine .after (clearWaitStatesForToken_stays hw _) fun l _ hl => ?_
    refine .after (cancelPendingActivity_stays hw _) fun m _ hm => ?_
    refine .after (conditionalTarget_stays _ _ _) fun o target ho => ?_
    exact (releaseCaught_stays hw _ _ _).returns
  · refine .after (conditionalTarget_stays _ _ _) fun l target hl => ?_
    refine .after (cloneToken_stays hw _ _ _) fun m spawned hm => ?_
    have hn : n ≤ m := hk.trans (hl.trans hm)
    refine .after (insertPending_stays ⟨?_, lt_of_lt_of_le hc.drawn hn⟩) fun _ _ _ =>
      Stays.pure _
    have hfiles : fx.files .conditional c.instanceId c.id := hi ▸ hc.files
    exact hfiles
  · exact Stays.pure _

theorem evaluateCatch_stays (hc : fx.Handles n i .conditional c.id) :
    Stays fx n (evaluateCatch env d i vars c) := by
  refine Obeys.bind get_obeys fun k e hk hknow => ?_
  have hcurrent : ∀ c', e.pendingConditionalCatches.find? c.id = some c' →
      fx.Handles n i .conditional c'.id ∧ c'.instanceId = i := by
    intro c' hc'
    have hh : fx.Handles n i .conditional c'.id := Table.key_of_find? hc' ▸ hc
    exact ⟨hh, hh.owner (p := .conditional c') hknow (Table.mem_of_find? hc')⟩
  refine Obeys.ite (fun _ => ?_) fun _ => ?_
  · split
    case h_1 c' _ hfound =>
      obtain ⟨hh, hi⟩ := hcurrent c' hfound
      exact fireCatch_stays hw (hh.mono hk) hi
    · exact Stays.pure _
  · split
    case h_1 c' _ hfound =>
      obtain ⟨hh, hi⟩ := hcurrent c' hfound
      have hfile : fx.MayFile k (.conditional { c' with lastResult := false }) :=
        Effects.Handles.mayFile (p := .conditional { c' with lastResult := false }) hh hi hk
      exact (insertPending_stays hfile).returns
    · exact Stays.pure _

theorem evaluateCatches_stays {catches : List PendingConditionalCatch}
    (hc : ∀ c ∈ catches, fx.Handles n i .conditional c.id) :
    Stays fx n (evaluateCatches env d i vars catches) := by
  induction catches generalizing n with
  | nil => exact .pure _
  | cons c rest ih =>
    refine .bind (evaluateCatch_stays hw (hc c (List.mem_cons_self ..))) fun k fired hk => ?_
    refine (ih fun c' h => ?_).returns
    exact (hc c' (List.mem_cons_of_mem _ h)).mono hk

end

end Eng

end BpmnEngine
