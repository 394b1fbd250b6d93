import BpmnEngine.Machine
import BpmnEngine.Footprints

/-!
# How an instance ends when its branches end

A parallel split enters its branches into the fork registry. A branch that reaches an
end event is ticked off there, and only the end that ticks off the last one looks at
the outcome: an instance is in error exactly if the last branch to finish ends in an
error that nobody handles. An error of an earlier branch leaves no trace.
-/
namespace BpmnEngine

open Program Engine ProcessInstance

namespace ProcessInstance

def branches (i : ProcessInstance) : List (Uuid × Bool) :=
  i.activeTokens.map fun a => (a.token.id, a.completed)

def tickOff (finished : List Uuid) (branches : List (Uuid × Bool)) : List (Uuid × Bool) :=
  branches.map fun branch => (branch.1, branch.2 || decide (branch.1 ∈ finished))

@[simp] theorem tickOff_nil (branches : List (Uuid × Bool)) : tickOff [] branches = branches := by
  simp [tickOff]

theorem tickOff_tickOff (l l' : List Uuid) (branches : List (Uuid × Bool)) :
    tickOff l' (tickOff l branches) = tickOff (l ++ l') branches := by
  simp [tickOff, Bool.or_assoc]

@[simp] theorem map_fst_tickOff (l : List Uuid) (branches : List (Uuid × Bool)) :
    (tickOff l branches).map Prod.fst = branches.map Prod.fst := by
  simp [tickOff]

variable {branches : List (Uuid × Bool)} {l : List (Incident × Nat)} {i : ProcessInstance}
  {new : Incident}

theorem mem_tickOff_open {l : List Uuid} {token : Uuid} :
    (token, false) ∈ tickOff l branches ↔ (token, false) ∈ branches ∧ token ∉ l := by
  simp [tickOff, Prod.ext_iff]

/-- The registry has one entry for each token: completing it ticks it off. -/
theorem branches_completeActive {token : Uuid} (hnodup : (i.branches.map Prod.fst).Nodup) :
    (i.completeActive token).branches = tickOff [token] i.branches := by
  have hgo : ∀ l : List ActiveToken, (l.map fun a => a.token.id).Nodup →
      (completeActive.go token l).map (fun a => (a.token.id, a.completed)) =
        tickOff [token] (l.map fun a => (a.token.id, a.completed)) := by
    intro l
    induction l with
    | nil => intro _; rfl
    | cons a rest ih =>
      intro hl
      obtain ⟨ha, hrest⟩ := List.nodup_cons.mp hl
      rw [completeActive.go]
      split
      case isTrue h =>
        -- No further entry has the identifier of the token.
        have hsame : tickOff [token] (rest.map fun a => (a.token.id, a.completed)) =
            rest.map fun a => (a.token.id, a.completed) := by
          rw [tickOff, List.map_map]
          refine List.map_congr_left fun b hb => ?_
          have hne : b.token.id ≠ token := fun hid =>
            ha (List.mem_map.mpr ⟨b, hb, hid.trans h.symm⟩)
          simp [hne]
        rw [List.map_cons, List.map_cons, ← hsame]
        simp [tickOff, h]
      case isFalse h =>
        simp only [List.map_cons, ih hrest]
        simp [tickOff, h]
  exact hgo i.activeTokens (by simpa [branches, Function.comp_def] using hnodup)

/-! ## Incidents -/

def Reports (i : ProcessInstance) (code : String) : Prop :=
  ∃ x ∈ i.incidents, x.kind = .bpmnError ∧ x.resolvedAt = none ∧
    x.message = s!"Unhandled BPMN error '{code}'"

def DatedBy (clock : Time) (l : List Incident) : Prop := ∀ x ∈ l, x.createdAt ≤ clock

instance (clock : Time) (l : List Incident) : Decidable (DatedBy clock l) :=
  inferInstanceAs (Decidable (∀ x ∈ l, x.createdAt ≤ clock))

private def older (best : Option (Incident × Nat)) (c : Incident × Nat) : Option (Incident × Nat) :=
  match best with
  | none => some c
  | some b => if c.1.createdAt < b.1.createdAt then some c else some b

private theorem oldestIncident_eq (p : Incident → Bool) (l : List Incident) :
    oldestIncident p l = ((l.zipIdx.filter fun c => p c.1).foldl older none).map Prod.snd := rfl

private theorem mem_of_foldl_older {acc : Option (Incident × Nat)} {b : Incident × Nat}
    (h : l.foldl older acc = some b) : b ∈ l ∨ acc = some b := by
  induction l generalizing acc with
  | nil => exact .inr h
  | cons c rest ih =>
    rcases ih h with hrest | hacc
    · exact .inl (List.mem_cons_of_mem c hrest)
    · unfold older at hacc
      split at hacc
      · cases hacc
        exact .inl List.mem_cons_self
      · split at hacc <;> cases hacc
        · exact .inl List.mem_cons_self
        · exact .inr rfl

private theorem foldl_older_isSome (h : l ≠ []) : ∃ b, l.foldl older none = some b := by
  have hsome : ∀ (l : List (Incident × Nat)) c, ∃ b, l.foldl older (some c) = some b := by
    intro l
    induction l with
    | nil => intro c; exact ⟨c, rfl⟩
    | cons d rest ih =>
      intro c
      rw [List.foldl_cons, older]
      split
      · exact ih d
      · exact ih c
  cases l with
  | nil => exact absurd rfl h
  | cons c rest => exact hsome rest c

/-- The newest of several incidents is not the one to drop. -/
theorem oldestIncident_append_lt {l : List Incident} {p : Incident → Bool} {index : Nat}
    (hdated : DatedBy new.createdAt l) (hother : p new = true → ∃ x ∈ l, p x = true)
    (h : oldestIncident p (l ++ [new]) = some index) : index < l.length := by
  have hplace : ∀ b ∈ l.zipIdx.filter fun c => p c.1, b.2 < l.length ∧ b.1 ∈ l := by
    intro b hb
    have hmem := List.mem_zipIdx' (List.mem_filter.mp hb).1
    exact ⟨hmem.1, hmem.2 ▸ List.getElem_mem hmem.1⟩
  rw [oldestIncident_eq, List.zipIdx_append, List.filter_append, List.foldl_append] at h
  obtain ⟨b, hb, rfl⟩ := Option.map_eq_some_iff.mp h
  by_cases hnew : p new = true
  · -- Some other incident is a candidate, and the new one is not older than it.
    obtain ⟨x, hx, hpx⟩ := hother hnew
    obtain ⟨n, hn, hxn⟩ := List.mem_iff_getElem.mp hx
    have hne : (l.zipIdx.filter fun c => p c.1) ≠ [] := by
      refine List.ne_nil_of_mem (a := (x, n)) (List.mem_filter.mpr ⟨?_, hpx⟩)
      exact List.mem_zipIdx_iff_getElem?.mpr (hxn ▸ List.getElem?_eq_getElem hn)
    obtain ⟨best, hbest⟩ := foldl_older_isSome hne
    have hmem := hplace best ((mem_of_foldl_older hbest).resolve_right (by simp))
    have hnot : ¬new.createdAt < best.1.createdAt := Int.not_lt.mpr (hdated best.1 hmem.2)
    rw [hbest] at hb
    have hsame : best = b := by simpa [hnew, older, hnot] using hb
    exact hsame ▸ hmem.1
  · have hb' : (l.zipIdx.filter fun c => p c.1).foldl older none = some b := by
      simpa [hnew] using hb
    exact (hplace b ((mem_of_foldl_older hb').resolve_right (by simp))).1

/-- Trimming keeps an open incident that is the newest. -/
theorem mem_trimIncidents_append {l : List Incident} (hdated : DatedBy new.createdAt l)
    (hopen : new.resolvedAt = none) : new ∈ trimIncidents (l ++ [new]) := by
  have hgo : ∀ n (l : List Incident), n ≤ l.length → DatedBy new.createdAt l →
      new ∈ trimIncidents.go n (l ++ [new]) := by
    intro n
    induction n with
    | zero => intro l _ _; simp [trimIncidents.go]
    | succ n ih =>
      intro l hn hdated
      rw [trimIncidents.go]
      split
      case h_2 => simp
      case h_1 index hindex =>
        have hlt : index < l.length := by
          rcases Option.or_eq_some_iff.mp hindex with h | ⟨_, h⟩
          · exact oldestIncident_append_lt hdated (by simp [hopen]) h
          · refine oldestIncident_append_lt hdated (fun _ => ?_) h
            exact ⟨l[0], List.getElem_mem _, rfl⟩
        rw [List.eraseIdx_append_of_lt_length hlt]
        refine ih _ ?_ fun x hx => hdated x (List.mem_of_mem_eraseIdx hx)
        rw [List.length_eraseIdx_of_lt hlt]
        omega
  refine hgo _ l ?_ hdated
  have hmax : maxIncidentsPerInstance = 100 := rfl
  simp only [List.length_append, List.length_singleton, hmax]
  omega

/-- Reporting an error that nobody handled leaves an open incident about it. -/
theorem reports_pushOrTouchIncident {clock : Time} {id : Uuid} {node : Option String}
    {code : String} (hdated : DatedBy clock i.incidents) :
    (i.pushOrTouchIncident clock id .bpmnError node none s!"Unhandled BPMN error '{code}'"
      none).Reports code := by
  unfold pushOrTouchIncident
  dsimp only
  split
  case h_1 index hindex =>
    obtain ⟨hlt, hsame, _⟩ := List.findIdx?_eq_some_iff_getElem.mp hindex
    simp only [Bool.and_eq_true, Option.isNone_iff_eq_none, decide_eq_true_eq] at hsame
    refine ⟨_, List.mem_iff_getElem.mpr ⟨index, by simpa using hlt, rfl⟩, ?_, ?_, ?_⟩
    · simp [hsame]
    · simp [hsame]
    · simp
  case h_2 => exact ⟨_, mem_trimIncidents_append hdated rfl, rfl, rfl, rfl⟩

end ProcessInstance

/-! ## The end of one branch -/

/-- How a branch ends. -/
inductive BranchEnd where
  | plain
  | error (code : String)
  | escalation (code : String)
  deriving DecidableEq

namespace BranchEnd

def action : BranchEnd → NextAction
  | plain => .complete
  | error code => .errorEnd code
  | escalation code => .escalationEnd code

def state : BranchEnd → InstanceState
  | error code => .completedWithError code
  | _ => .completed

/-- No event subprocess of the instance handles the end of the branch. -/
def Uncaught (e : Engine) (i : ProcessInstance) (token : Uuid) : BranchEnd → Prop
  | plain => True
  | error code => Unhandled code false
  | escalation code => Unhandled code true
where
  Unhandled (code : String) (isEscalation : Bool) : Prop :=
    ∃ d, e.definitions.find? i.definitionKey = some d ∧
      Eng.bestCandidate (Eng.codeCandidates d i.eventSubscriptions code isEscalation
        (i.eventHandlerTokens.get? token)) = none

end BranchEnd

namespace Eng

variable {env : Env} {e : Engine} {x token : Uuid} {i : ProcessInstance} {k : BranchEnd}
  {d : ProcessDefinition} {isEscalation : Bool} {code : String}

section

variable (hi : e.instances.find? x = some i)

include hi

theorem exec_closeEventScope : ∃ e' i', exec (closeEventScope x) e = (.ok (), e') ∧
      e'.instances.find? x = some i' ∧ i'.state = i.state ∧
      i'.branches = i.branches ∧ i'.incidents = i.incidents := by
  rw [closeEventScope, exec_bind_ok (exec_findInstance e x), hi]
  dsimp only
  split
  case isTrue => exact ⟨e, i, rfl, hi, rfl, rfl, rfl⟩
  case isFalse =>
    rw [exec_bind_ok (exec_modifyInstance e x _)]
    let closed := e.modifyInstance x fun i =>
      { i with eventScope := false, eventSubscriptions := [], eventHandlerTokens := ∅ }
    obtain ⟨e', he', hinst⟩ := exec_forM (P := fun t : Engine => t.instances = closed.instances)
      (f := fun id => do
        removePending .timer id
        removePending .message id
        removePending .signal id)
      (fun id t ht => ⟨_, rfl, ht⟩) (i.eventSubscriptions.map (·.id)) rfl
    have hclosed : e'.instances.find? x = some
        { i with eventScope := false, eventSubscriptions := [], eventHandlerTokens := ∅ } := by
      rw [hinst, find?_modifyInstance_self, hi]
      rfl
    exact ⟨e', _, he', hclosed, rfl, rfl, rfl⟩

theorem exec_tryActivateEventCode_none {vars : Variables} {exclude : Option String}
    (hd : e.definitions.find? i.definitionKey = some d)
    (hnone : bestCandidate (codeCandidates d i.eventSubscriptions code isEscalation exclude) =
      none) :
    exec (tryActivateEventCode env x code isEscalation vars exclude) e = (.ok none, e) := by
  rw [tryActivateEventCode, exec_bind_ok (exec_getInstance hi)]
  split
  · rfl
  · rw [exec_bind_ok (exec_getDefinition hd), hnone]
    rfl

theorem exec_allTokensCompleted : exec (allTokensCompleted x) e =
      (.ok (i.tokens.isEmpty && i.branches.all (·.2)), e) := by
  rw [allTokensCompleted, exec_bind_ok (exec_getInstance hi)]
  simp [ProcessInstance.branches, Function.comp_def]

end

def tick (i : ProcessInstance) (token : Uuid) : ProcessInstance :=
  { i.completeActive token with tokens := i.tokens.erase token }

def LastBranch (i : ProcessInstance) (token : Uuid) : Prop :=
  ((tick i token).tokens.isEmpty && (tick i token).branches.all (·.2)) = true

/-- What the end of a branch makes of its instance. -/
structure EndedBranch (i : ProcessInstance) (token : Uuid) (k : BranchEnd)
    (i' : ProcessInstance) : Prop where
  branches : i'.branches = (i.completeActive token).branches
  state : LastBranch i token → i'.state = k.state
  reported : LastBranch i token → ∀ code, k = .error code → i'.Reports code

theorem EndedBranch.of_more (h : ¬LastBranch i token) : EndedBranch i token k (tick i token) :=
  ⟨rfl, fun h' => absurd h' h, fun h' => absurd h' h⟩

section

variable (hi : e.instances.find? x = some i)

include hi

theorem exec_completeBranchToken (token : Uuid) :
    ∃ e', exec (completeBranchToken x token) e = (.ok (), e') ∧
      e'.instances.find? x = some (i.completeActive token) ∧ e'.definitions = e.definitions ∧
      e'.clock = e.clock := by
  refine ⟨_, exec_updateInstance hi _, ?_, rfl, rfl⟩
  rw [find?_modifyInstance_self, hi]
  rfl

theorem exec_removeToken (token : Uuid) : ∃ e', exec (removeToken x token) e = (.ok (), e') ∧
      e'.instances.find? x = some { i with tokens := i.tokens.erase token } ∧
      e'.definitions = e.definitions ∧ e'.clock = e.clock := by
  refine ⟨_, exec_modifyInstance e x _, ?_, rfl, rfl⟩
  rw [find?_modifyInstance_self, hi]
  rfl

theorem exec_markEnded (state : InstanceState) :
    ∃ e' i', exec (markEnded x state) e = (.ok (), e') ∧
      e'.instances.find? x = some i' ∧ i'.state = state ∧ i'.branches = i.branches := by
  have hmarked : (e.modifyInstance x fun i =>
      { i with state := state, completedAt := some e.clock }).instances.find? x =
        some { i with state := state, completedAt := some e.clock } := by
    rw [find?_modifyInstance_self, hi]
    rfl
  exact ⟨_, _, rfl, hmarked, rfl, rfl⟩

theorem exec_completeWithError (code : String)
    (hdated : ProcessInstance.DatedBy e.clock i.incidents) :
    ∃ e' i', exec (completeWithError x code) e = (.ok (), e') ∧
      e'.instances.find? x = some i' ∧ i'.state = .completedWithError code ∧
      i'.branches = i.branches ∧ i'.Reports code := by
  let ended : ProcessInstance :=
    { i with state := .completedWithError code, completedAt := some e.clock }
  let reported := ended.pushOrTouchIncident e.clock e.nextUuid .bpmnError (some i.currentNode) none
    s!"Unhandled BPMN error '{code}'" none
  have hsame : reported.id = i.id ∧ reported.state = .completedWithError code ∧
      reported.branches = i.branches := by
    simp only [reported, ProcessInstance.pushOrTouchIncident]
    split <;> exact ⟨rfl, rfl, rfl⟩
  have hreports : reported.Reports code :=
    reports_pushOrTouchIncident (i := ended) hdated
  refine ⟨_, reported, rfl, ?_, hsame.2.1, hsame.2.2, hreports⟩
  rw [find?_modifyInstance_self]
  change (e.instances.find? x).map _ = some reported
  have hid : ({ reported with id := i.id } : ProcessInstance) = reported := by rw [← hsame.1]
  rw [hi, Option.map_some]
  exact congrArg some hid

theorem exec_onComplete (token : Uuid) (queue : List Token) :
    ∃ e' i', exec (onComplete x token queue) e = (.ok (.proceed queue), e') ∧
      e'.instances.find? x = some i' ∧ EndedBranch i token .plain i' := by
  obtain ⟨e₁, hx₁, hi₁, _⟩ := exec_completeBranchToken hi token
  obtain ⟨e₂, hx₂, hi₂, _⟩ := exec_removeToken hi₁ token
  rw [onComplete, exec_bind_ok hx₁, exec_bind_ok hx₂, exec_bind_ok (exec_allTokensCompleted hi₂)]
  split
  case isTrue =>
    obtain ⟨e₃, i₃, hx₃, hi₃, _, hbranches₃, _⟩ := exec_closeEventScope hi₂
    obtain ⟨e₄, i₄, hx₄, hi₄, hstate, hbranches₄⟩ := exec_markEnded hi₃ .completed
    rw [exec_bind_ok hx₃, exec_bind_ok hx₄]
    exact ⟨e₄, i₄, rfl, hi₄, hbranches₄.trans hbranches₃, fun _ => hstate,
      fun _ _ h => by cases h⟩
  case isFalse hmore => exact ⟨e₂, _, rfl, hi₂, .of_more hmore⟩

theorem exec_onCodeEnd {finish : Eng Unit} {queue : List Token}
    (hd : e.definitions.find? i.definitionKey = some d)
    (hnone : bestCandidate (codeCandidates d i.eventSubscriptions code isEscalation
      (i.eventHandlerTokens.get? token)) = none)
    (hfinish : ∀ e₁ i₁, e₁.instances.find? x = some i₁ → e₁.clock = e.clock →
      i₁.incidents = i.incidents →
      ∃ e₂ i₂, exec finish e₁ = (.ok (), e₂) ∧ e₂.instances.find? x = some i₂ ∧ i₂.state = k.state ∧
      i₂.branches = i₁.branches ∧ ∀ code, k = .error code → i₂.Reports code) :
    ∃ e' i', exec (onCodeEnd env x token code isEscalation finish queue) e =
        (.ok (.proceed queue), e') ∧
      e'.instances.find? x = some i' ∧ EndedBranch i token k i' := by
  obtain ⟨e₁, hx₁, hi₁, hd₁, hclock₁⟩ := exec_completeBranchToken hi token
  obtain ⟨vars, hcontext⟩ := exec_tokenEventContext hi₁ token
  obtain ⟨e₂, hx₂, hi₂, hd₂, hclock₂⟩ := exec_removeToken hi₁ token
  have hdefinition : e₂.definitions.find? i.definitionKey = some d := by rw [hd₂, hd₁, hd]
  have htry : exec (tryActivateEventCode env x code isEscalation vars
      ((i.completeActive token).eventHandlerTokens.get? token)) e₂ = (.ok none, e₂) :=
    exec_tryActivateEventCode_none hi₂ hdefinition hnone
  rw [onCodeEnd, exec_bind_ok hx₁, exec_bind_ok hcontext]
  dsimp only
  rw [exec_bind_ok hx₂, exec_bind_ok htry]
  dsimp only
  rw [exec_bind_ok (exec_allTokensCompleted hi₂)]
  split
  case isTrue =>
    obtain ⟨e₃, i₃, hx₃, hi₃, hstate₃, hbranches₃, hreports₃⟩ :=
      hfinish e₂ _ hi₂ (hclock₂.trans hclock₁) rfl
    obtain ⟨e₄, i₄, hx₄, hi₄, hstate₄, hbranches₄, hincidents₄⟩ := exec_closeEventScope hi₃
    rw [exec_bind_ok hx₃, exec_bind_ok hx₄]
    refine ⟨e₄, i₄, rfl, hi₄, hbranches₄.trans hbranches₃, fun _ => hstate₄.trans hstate₃, ?_⟩
    intro _ code hk
    unfold ProcessInstance.Reports
    rw [hincidents₄]
    exact hreports₃ code hk
  case isFalse hmore => exact ⟨e₂, _, rfl, hi₂, .of_more hmore⟩

/-- The end of a branch that nobody handles ticks it off; the last one decides the outcome. -/
theorem exec_handleNextAction_end (huncaught : k.Uncaught e i token)
    (hdated : ProcessInstance.DatedBy e.clock i.incidents) (node : String) (queue : List Token) :
    ∃ e' i', exec (handleNextAction env x token node queue k.action) e =
        (.ok (.proceed queue), e') ∧
      e'.instances.find? x = some i' ∧ EndedBranch i token k i' := by
  cases k with
  | plain => exact exec_onComplete hi token queue
  | error code =>
    obtain ⟨d, hd, hnone⟩ := huncaught
    refine exec_onCodeEnd hi hd hnone fun e₁ i₁ hi₁ hclock hincidents => ?_
    obtain ⟨e₂, i₂, hx, hi₂, hstate, hbranches, hreports⟩ :=
      exec_completeWithError hi₁ code (by rw [hclock, hincidents]; exact hdated)
    refine ⟨e₂, i₂, hx, hi₂, hstate, hbranches, fun code' hk => ?_⟩
    cases hk
    exact hreports
  | escalation =>
    obtain ⟨d, hd, hnone⟩ := huncaught
    refine exec_onCodeEnd hi hd hnone fun e₁ i₁ hi₁ _ _ => ?_
    obtain ⟨e₂, i₂, hx, hi₂, hstate, hbranches⟩ := exec_markEnded hi₁ .completed
    exact ⟨e₂, i₂, hx, hi₂, hstate, hbranches, fun _ hk => nomatch hk⟩

end

end Eng

/-! ## All orders of the branches -/

namespace Config

variable {env : Env} {x : Uuid}

def branches (c : Config) (x : Uuid) : Option (List (Uuid × Bool)) :=
  (c.engine.instances.find? x).map ProcessInstance.branches

/-- The next step ends one of the open branches of an instance, and `c₁` is the state in which its
end is acted on. Whatever waits in the instance is one of its open branches, and nobody handles
the end. -/
structure Finishes (env : Env) (x : Uuid) (c : Config) (token : Uuid) (k : BranchEnd)
    (batch : Batch) (node : String) (c₁ : Config) (i : ProcessInstance) : Prop where
  step : c.internalStep env = some (c₁.act env batch token node k.action)
  batch : batch.instanceId = x
  keeps : c₁.branches x = c.branches x
  found : c₁.engine.instances.find? x = some i
  waiting : ∀ t ∈ i.tokens, (t.id, false) ∈ i.branches
  uncaught : k.Uncaught c₁.engine i token
  dated : ProcessInstance.DatedBy c₁.engine.clock i.incidents

/-- Runs of the engine in which branches of an instance end, in the order of the list. The other
steps may be anything that leaves the fork registry of the instance alone. -/
inductive FinishRun (env : Env) (x : Uuid) (c₀ : Config) :
    List (Uuid × BranchEnd) → Config → Prop where
  | start : FinishRun env x c₀ [] c₀
  | other {ends : List (Uuid × BranchEnd)} {c c' : Config} {m : Move}
      (hrun : FinishRun env x c₀ ends c) (hstep : c.step env m = some c')
      (hkeeps : c'.branches x = c.branches x) : FinishRun env x c₀ ends c'
  | finish {ends : List (Uuid × BranchEnd)} {c c₁ c' : Config} {token : Uuid} {k : BranchEnd}
      {batch : Batch} {node : String} {i : ProcessInstance}
      (hrun : FinishRun env x c₀ ends c) (hfinishes : Finishes env x c token k batch node c₁ i)
      (hstep : c.step env .internal = some c') :
      FinishRun env x c₀ (ends ++ [(token, k)]) c'

theorem Finishes.ended {c c₁ c' : Config} {token : Uuid} {k : BranchEnd} {batch : Batch}
    {node : String} {i : ProcessInstance} (h : Finishes env x c token k batch node c₁ i)
    (hstep : c.step env .internal = some c') :
    ∃ i', c'.engine.instances.find? x = some i' ∧ Eng.EndedBranch i token k i' := by
  obtain ⟨e', i', hx, hi', hended⟩ :=
    Eng.exec_handleNextAction_end h.found h.uncaught h.dated node batch.queue
  have hc' : c' = c₁.act env batch token node k.action :=
    Option.some.inj (hstep.symm.trans h.step)
  refine ⟨i', ?_, hended⟩
  rw [hc', act, exec, h.batch, hx]
  exact hi'

/-- The branches that have ended are ticked off, and no others. -/
theorem FinishRun.branches {c₀ c : Config} {ends : List (Uuid × BranchEnd)}
    {bs : List (Uuid × Bool)} (h : FinishRun env x c₀ ends c) (h₀ : c₀.branches x = some bs)
    (hnodup : (bs.map Prod.fst).Nodup) :
    c.branches x = some (ProcessInstance.tickOff (ends.map Prod.fst) bs) := by
  induction h with
  | start => simp [h₀]
  | other _ _ hkeeps ih => rw [hkeeps, ih]
  | @finish ends c c₁ c' token k batch node i _ hfinishes hstep ih =>
    obtain ⟨i', hi', hended⟩ := hfinishes.ended hstep
    have hi : some i.branches = some (ProcessInstance.tickOff (ends.map Prod.fst) bs) := by
      rw [← ih, ← hfinishes.keeps, Config.branches, hfinishes.found]
      rfl
    have hbranches : i.branches = ProcessInstance.tickOff (ends.map Prod.fst) bs :=
      Option.some.inj hi
    rw [Config.branches, hi', Option.map_some, hended.branches,
      branches_completeActive (by simpa [hbranches] using hnodup), hbranches,
      tickOff_tickOff, List.map_append]
    rfl

end Config

end BpmnEngine
