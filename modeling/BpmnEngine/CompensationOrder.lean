import BpmnEngine.CompensationRecords
import BpmnEngine.StepOutcomes

/-!
# The order of compensation

A compensation throw reads the records of its activities from the log, runs their
handlers one after another in batches of their own, and takes the records out of the log
when all of them have run. A ledger beside the machine says what should happen: each
record that is registered is due once, and the records of one throw are due in the reverse
order of their registration. The machine keeps to the ledger as long as no throw reads a
record that an open throw has read, the records of a single activity read the same in both
directions, and no handler fails. A throw inside a handler breaks the first of these.
-/
namespace BpmnEngine

open Program Engine

/-! ## Records and throws -/

def CompensationRecord.isFor (r : CompensationRecord) : Option String → Bool
  | some activity => r.activityId == activity
  | none => true

def Engine.logOf (e : Engine) (i : Uuid) : List CompensationRecord :=
  ((e.instances.find? i).map ProcessInstance.compensationLog).getD []

def handlersIn (log : List CompensationRecord) : Option String → List CompensationRecord
  | some activity => log.filter fun record => record.activityId == activity
  | none => log.reverse

def Suspension.throwOf (i : Uuid) : Suspension → Option (Option String × List CompensationRecord)
  | .compensation b _ ref _ _ remaining => if b.instanceId = i then some (ref, remaining) else none
  | _ => none

namespace Config

def throws (i : Uuid) (c : Config) : List (Option String × List CompensationRecord) :=
  c.stack.filterMap (Suspension.throwOf i)

def handlerAt (i : Uuid) (c : Config) : Option CompensationRecord :=
  match c.control, c.stack with
  | .returning (.ok _), .compensation b _ _ _ _ (r :: _) :: _ =>
    if b.instanceId = i then some r else none
  | _, _ => none

/-- The next step is one of a token of the instance at a compensation event. -/
def throwsNext (i : Uuid) (c : Config) : Option (Option String) :=
  match c.control with
  | .running b =>
    match b.queue with
    | token :: _ =>
      if b.instanceId = i then
        match c.engine.elementAt i token.currentNode with
        | some (.compensationThrowEvent ref) | some (.compensationEndEvent ref) => some ref
        | _ => none
      else none
    | [] => none
  | _ => none

/-- The innermost throw cannot go on: a handler has failed, or the definition is gone. -/
def GivesUp (i : Uuid) (ref : Option String) (c : Config) : Prop :=
  (∃ s rest, c.stack = s :: rest ∧ (∃ left, s.throwOf i = some (ref, left))) ∧
    ((∃ error, c.control = .returning (.error error)) ∨
      (∃ result, c.control = .returning result) ∧
        ∀ x, c.engine.instances.find? i = some x →
          c.engine.definitions.find? x.definitionKey = none)

end Config

/-! ## The ledger -/

/-- What happens to the compensation of an instance in a step. -/
inductive CompensationEvent where
  | throws (ref : Option String)
  | turn (record : CompensationRecord) (runs : Bool)
  | ends
  | none

/-- How often each record was registered and executed, and which records are due in the open
throws, the innermost first. -/
structure Ledger where
  registered : CompensationRecord → Nat
  executed : CompensationRecord → Nat
  due : List (List CompensationRecord)

namespace Ledger

def empty : Ledger := ⟨fun _ => 0, fun _ => 0, []⟩

/-- A record that comes into the log is registered. A throw makes the records of its activities
due in reverse order; the one whose turn it is leaves the list. -/
def enter (log log' : List CompensationRecord) (event : CompensationEvent) (l : Ledger) :
    Ledger where
  registered r := l.registered r + (log'.count r - log.count r)
  executed r := match event with
    | .turn record true => l.executed r + if record = r then 1 else 0
    | _ => l.executed r
  due := match event with
    | .throws ref => (log'.filter fun r => r.isFor ref).reverse :: l.due
    | .turn _ _ => l.due.modifyHead List.tail
    | .ends => l.due.tail
    | .none => l.due

end Ledger

namespace Config

/-- What a step from one configuration to another does to the compensation of an instance. -/
def compensationEvent (i : Uuid) (c c' : Config) : CompensationEvent :=
  if (c.throws i).length < (c'.throws i).length then
    .throws ((c'.throws i).head?.bind Prod.fst)
  else if (c'.throws i).length < (c.throws i).length then .ends
  else
    match c.handlerAt i, c'.control with
    | some r, .running _ => .turn r true
    | some r, _ => .turn r false
    | none, _ => .none

/-- The machine with the ledger of an instance beside it. -/
def ledgerStep (env : Env) (i : Uuid) (s : Config × Ledger) (move : Move) :
    Option (Config × Ledger) :=
  (s.1.step env move).map fun c' =>
    (c', s.2.enter (s.1.engine.logOf i) (c'.engine.logOf i) (s.1.compensationEvent i c'))

/-- No throw of the instance reads a record of an open throw or records of one activity that
differ, and no open throw is abandoned. -/
structure CompensatesInOrder (i : Uuid) (c : Config) : Prop where
  apart : ∀ ref, c.throwsNext i = some ref → ∀ open_ ∈ c.throws i, ∀ r ∈ c.engine.logOf i,
    r.isFor ref = true → r.isFor open_.1 = false
  mirrored : ∀ activity, c.throwsNext i = some (some activity) →
    (handlersIn (c.engine.logOf i) (some activity)).reverse =
      handlersIn (c.engine.logOf i) (some activity)
  completed : ∀ ref, c.GivesUp i ref → ∀ r ∈ c.engine.logOf i, r.isFor ref = false

end Config

/-! ## What a step does to the open throws -/

/-- The ways in which a step treats the open throws of an instance. -/
inductive Compensates (i : Uuid) (c c' : Config) : Prop where
  | quiet (hsame : c'.throws i = c.throws i) (hturn : c.handlerAt i = none)
  | throws (ref : Option String) (hnext : c.throwsNext i = some ref)
      (hlog : c'.engine.logOf i = c.engine.logOf i)
      (hpushed : c'.throws i = (ref, handlersIn (c.engine.logOf i) ref) :: c.throws i)
  | turn (ref : Option String) (r : CompensationRecord) (rest : List CompensationRecord)
      (others : List (Option String × List CompensationRecord))
      (hturn : c.handlerAt i = some r) (hbefore : c.throws i = (ref, r :: rest) :: others)
      (hafter : c'.throws i = (ref, rest) :: others)
  | ends (ref : Option String) (left : List CompensationRecord)
      (others : List (Option String × List CompensationRecord))
      (hbefore : c.throws i = (ref, left) :: others) (hafter : c'.throws i = others)
      (hcleared : c.GivesUp i ref ∨ ∀ r ∈ c'.engine.logOf i, r.isFor ref = false)

/-! ## Programs that leave the log alone -/

theorem Engine.logOf_property (i : Uuid) (Q : List CompensationRecord → Prop) :
    LogProperty fun e => Q (e.logOf i) where
  write := by
    intro e j f hf hQ
    have hsame : (e.modifyInstance j f).logOf i = e.logOf i := by
      by_cases hij : i = j
      · subst hij
        rw [logOf, logOf, find?_modifyInstance_self]
        cases e.instances.find? i with
        | none => rfl
        | some x => exact (hf x).compensationLog
      · rw [logOf, logOf, find?_modifyInstance_of_ne hij]
    exact hsame ▸ hQ
  other := by
    intro e e' hinstances _ hQ
    rw [logOf, hinstances]
    exact hQ

namespace Eng

variable {log : List CompensationRecord}

section Property

variable {env : Env} {P : Engine → Prop} {i tokenId : Uuid} {node : String} {queue : List Token}

variable (hP : LogProperty P)

include hP

namespace LogProperty

theorem handleNextAction {action : NextAction}
    (h : action = .complete ∨ ∃ t, action = .continue t) :
    Keeps P (handleNextAction env i tokenId node queue action) := by
  rcases h with rfl | ⟨t, rfl⟩
  · refine .bind (updateInstance_calm hP.calm fun _ => ⟨rfl, rfl⟩) fun _ =>
      .bind (modifyInstance_calm hP.calm fun _ => ⟨rfl, rfl⟩) fun _ => .bind
        allTokensCompleted_keeps fun _ =>
        ?_
    exact .ite (fun _ => .bind (closeEventScope_keeps hP.shrinks) fun _ => .bind (markEnded_keeps
      hP.calm _) fun _ => .pure _)
      fun _ => .pure _
  · exact .bind nodeIsInclusiveSplit_keeps fun _ =>
      .ite (fun _ => .bind (registerJoinBarrierIfNeeded_keeps hP.calm _) fun _ => .pure _) fun _ =>
        .pure _

end LogProperty

end Property

variable {env : Env} {e e' : Engine} {i : Uuid} {d : ProcessDefinition} {node : String}
  {token : Token} {ref : Option String} {isEnd : Bool}

/-- A throw that is over leaves none of its records, whether the token goes on or fails. -/
theorem finishCompensation_clears (e : Engine) :
    ∀ r ∈ (after (finishCompensation env i token d node ref isEnd) e).logOf i,
      r.isFor ref = false := by
  cases hx : e.instances.find? i with
  | none =>
    rw [after, finishCompensation, exec_bind_error (exec_updateInstance_none hx _)]
    simp [Engine.logOf, hx]
  | some =>
    rw [after, finishCompensation, exec_bind_ok (exec_updateInstance hx _)]
    have hP := logOf_property i fun log => ∀ r ∈ log, r.isFor ref = false
    refine (?_ : Keeps (fun e : Engine => ∀ r ∈ e.logOf i, r.isFor ref = false) _) _ ?_
    · exact .ite (fun _ => .pure _) fun _ => .bind (passThrow_keeps hP.calm) fun _ => .pure _
    · dsimp only
      rw [Engine.logOf, find?_modifyInstance_self, hx]
      cases ref with
      | none => simp
      | some => simp [CompensationRecord.isFor]

theorem finishCompensation_yields :
    Yields (finishCompensation env i token d node ref isEnd) fun action =>
      action = .complete ∨ ∃ t, action = .continue t := by
  refine .after fun _ => ?_
  split
  · exact .pure (.inl rfl)
  · exact .after fun _ => .pure (.inr ⟨_, rfl⟩)

/-- A throw is made at a compensation event and reads its records from the log. -/
def ReadsLog (i : Uuid) (log : List CompensationRecord) (element : BpmnElement) :
    StepOutcome → Engine → Prop
  | .compensate _ ref _ handlers, e =>
    (element = .compensationThrowEvent ref ∨ element = .compensationEndEvent ref) ∧
      e.logOf i = log ∧ handlers = handlersIn log ref
  | _, _ => True

theorem handleCompensationThrowEvent_readsLog {element : BpmnElement}
    (h : element = .compensationThrowEvent ref ∨ element = .compensationEndEvent ref) :
    Triple (fun e => e.logOf i = log)
      (handleCompensationThrowEvent env i token d node ref isEnd) (ReadsLog i log element)
      fun _ _ => True := by
  intro e hlog
  split
  case h_2 => trivial
  case h_1 out e' hexec =>
    have hP := logOf_property i (· = log)
    obtain ⟨thrown, e₁, hend, hread⟩ := exec_bind_eq_ok hexec
    obtain ⟨x, e₂, hget, hwrite⟩ := exec_bind_eq_ok hread
    obtain ⟨hx, rfl⟩ := exec_getInstance_eq_ok hget
    obtain ⟨_, e₃, hset, hreturn⟩ := exec_bind_eq_ok hwrite
    cases hreturn
    have hlog₁ := (runEndScripts_keeps hP.calm).of_exec hlog hend
    refine ⟨h, (setCurrentNode_keeps hP.calm).of_exec hlog₁ hset, ?_⟩
    rw [← hlog₁, Engine.logOf, hx]
    cases ref <;> rfl

theorem dispatch_readsLog (element : BpmnElement) :
    Triple (fun e => e.logOf i = log) (dispatch env i token d node element)
      (ReadsLog i log element) fun _ _ => True := by
  have hplain {m : Eng StepOutcome} (h : Yields m fun out => ∀ e, ReadsLog i log element out e) :
      Triple (fun e => e.logOf i = log) m (ReadsLog i log element) fun _ _ => True := by
    intro e _
    split
    case h_1 out e' hexec => exact h _ _ _ hexec e'
    case h_2 => trivial
  have haction (m : Eng NextAction) :
      Triple (fun e => e.logOf i = log) (StepOutcome.action <$> m) (ReadsLog i log element)
        fun _ _ => True :=
    hplain (.map fun _ _ _ _ _ => trivial)
  cases element with
  | compensationThrowEvent => exact handleCompensationThrowEvent_readsLog (.inl rfl)
  | compensationEndEvent => exact handleCompensationThrowEvent_readsLog (.inr rfl)
  | signalThrowEvent => exact hplain (.after fun _ => .pure fun _ => trivial)
  | signalEndEvent => exact hplain (.after fun _ => .pure fun _ => trivial)
  | embeddedSubProcess => exact hplain (.pure fun _ => trivial)
  | boundaryCompensationEvent => exact hplain (.pure fun _ => trivial)
  | _ => exact haction _

theorem executeStep_compensate {thrown : Token} {handlers : List CompensationRecord}
    (h : exec (executeStep env i token) e = (.ok (.compensate thrown ref isEnd handlers), e')) :
    (e.elementAt i token.currentNode = some (.compensationThrowEvent ref) ∨
      e.elementAt i token.currentNode = some (.compensationEndEvent ref)) ∧
      e'.logOf i = e.logOf i ∧ handlers = handlersIn (e.logOf i) ref := by
  obtain ⟨x, d, element, hx, hd, hnode, hexec⟩ := executeStep_eq_ok h
  have hP := logOf_property i (· = e.logOf i)
  have hreads : Triple (fun e' => e'.logOf i = e.logOf i)
      (executeNode env i token d token.currentNode element) (ReadsLog i (e.logOf i) element)
      fun _ _ => True := by
    have hkeeps {α : Type} {m : Eng α} (hm : Keeps (fun e' => e'.logOf i = e.logOf i) m) :
        Triple (fun e' => e'.logOf i = e.logOf i) m (fun _ e' => e'.logOf i = e.logOf i)
          fun _ _ => True :=
      hm.triple.mono (fun _ h => h) (fun _ _ h => h) fun _ _ _ => trivial
    refine .bind (hkeeps (ofResult_keeps _)) fun _ => .bind (hkeeps (ofResult_keeps _)) fun _ => ?_
    split
    · exact .bind (hkeeps (modifyInstance_calm hP.calm fun _ => ⟨rfl, rfl⟩)) fun _ =>
        dispatch_readsLog element
    · exact dispatch_readsLog element
  have helement : e.elementAt i token.currentNode = some element := by
    simp [Engine.elementAt, hx, hd, hnode]
  rw [helement]
  obtain ⟨hsort, hlog, hhandlers⟩ := hreads.ok rfl hexec
  exact ⟨hsort.imp (congrArg some) (congrArg some), hlog, hhandlers⟩

end Eng

/-! ## Every step is one of these -/

namespace Config

section Steps

variable {env : Env} {i : Uuid} {b : Batch} {token : Token} {c c' : Config}

theorem throws_follow (next : Next) : (follow next c).throws i = c.throws i := by
  rw [throws, follow_stack, throws]

theorem throws_failIn (error : EngineError) : (failIn b error c).throws i = c.throws i :=
  exec_rule (P := fun c' => c'.throws i = c.throws i) (fun _ _ _ => rfl) fun _ _ _ => rfl

theorem throws_act (tokenId : Uuid) (node : String) (action : NextAction) :
    (act env b tokenId node action c).throws i = c.throws i := by
  refine exec_rule (P := fun c' => c'.throws i = c.throws i) (fun _ _ _ => rfl) fun out _ _ => ?_
  cases out <;> rfl

theorem throws_resumeStep (finish : ProcessDefinition → Eng NextAction) :
    (resumeStep env b token finish c).throws i = c.throws i :=
  exec_rule (P := fun c' => c'.throws i = c.throws i) (fun _ _ _ => throws_failIn _)
    fun _ _ _ => throws_act _ _ _

theorem throws_resumeSignal (isEnd : Bool) (remaining : List Uuid) :
    (resumeSignal env b token isEnd remaining c).throws i = c.throws i := by
  cases remaining with
  | nil => exact throws_resumeStep _
  | cons =>
    exact exec_rule (P := fun c' => c'.throws i = c.throws i) (fun _ _ _ => throws_failIn _)
      fun _ _ _ => throws_follow _

theorem throws_drain : (drain env b c).throws i = c.throws i := by
  refine exec_rule (P := fun c' => c'.throws i = c.throws i) (fun _ _ _ => rfl) fun fired _ _ => ?_
  cases fired with
  | nil =>
    exact exec_rule (P := fun c' => c'.throws i = c.throws i) (fun _ _ _ => rfl)
      fun _ _ _ => throws_follow _
  | cons => rfl

/-- A throw is made by a token at a compensation event. -/
theorem stepToken_compensates {b₀ : Batch} {queue : List Token} (hcontrol : c.control = .running b₀)
    (hqueue : b₀.queue = token :: queue) (hb : b.instanceId = b₀.instanceId) :
    Compensates i c (stepToken env b token c) := by
  have hturn : c.handlerAt i = none := by rw [handlerAt, hcontrol]
  refine exec_rule (P := Compensates i c) (fun _ _ _ => .quiet (throws_failIn _) hturn)
    fun out e hexec => ?_
  cases out with
  | action => exact .quiet (throws_act _ _ _) hturn
  | throwSignal =>
    exact exec_rule (P := Compensates i c) (fun _ _ _ => .quiet (throws_failIn _) hturn)
      fun _ _ _ => .quiet rfl hturn
  | compensate thrown ref =>
    by_cases hi : b.instanceId = i
    · rw [hi] at hexec
      obtain ⟨helement, hlog, rfl⟩ := Eng.executeStep_compensate hexec
      refine .throws ref ?_ hlog ?_
      · rw [throwsNext, hcontrol]
        dsimp only
        rw [hqueue]
        dsimp only
        rw [if_pos (hb.symm.trans hi)]
        rcases helement with helement | helement <;> rw [helement]
      · show List.filterMap _ (_ :: _) = _
        rw [List.filterMap_cons, Suspension.throwOf, if_pos hi]
        rfl
    · refine .quiet ?_ hturn
      show List.filterMap _ (_ :: _) = _
      rw [List.filterMap_cons, Suspension.throwOf, if_neg hi]
      rfl

theorem stepBatch_compensates (hcontrol : c.control = .running b) :
    Compensates i c (stepBatch env b c) := by
  have hturn : c.handlerAt i = none := by rw [handlerAt, hcontrol]
  unfold stepBatch
  split
  · exact .quiet throws_drain hturn
  case h_2 token queue hqueue =>
    dsimp only
    split
    · exact exec_rule (P := Compensates i c) (fun _ _ _ => .quiet rfl hturn)
        fun _ _ _ => .quiet rfl hturn
    · exact stepToken_compensates hcontrol hqueue rfl

/-! ### Returning to a throw -/

section Return

variable {s : Suspension} {ref : Option String} {isEnd ran : Bool} {rest : List Suspension}
  {result : EngineResult Unit} {remaining : List CompensationRecord} {P : Engine → Prop}

theorem failIn_keeps (hP : LogProperty P) (error : EngineError) (h : P c.engine) :
    P (failIn b error c).engine :=
  exec_rule (P := fun c' => P c'.engine)
    (fun _ _ hx => (Eng.failStep_keeps hP.calm error).of_exec h hx)
    fun _ _ hx => (Eng.failStep_keeps hP.calm error).of_exec h hx

theorem act_keeps (hP : LogProperty P) {tokenId : Uuid} {node : String} {action : NextAction}
    (haction : action = .complete ∨ ∃ t, action = .continue t) (h : P c.engine) :
    P (act env b tokenId node action c).engine := by
  have hkeeps : Keeps P (Eng.handleNextAction env b.instanceId tokenId node b.queue action) :=
    Eng.LogProperty.handleNextAction hP haction
  refine exec_rule (P := fun c' => P c'.engine) (fun _ _ hx => hkeeps.of_exec h hx)
    fun out _ hx => ?_
  cases out <;> exact hkeeps.of_exec h hx

theorem givesUp_of_error {error : EngineError} {e : Engine} (hb : b.instanceId = i)
    (hcontrol : c.control = .returning result)
    (hstack : c.stack = .compensation b token ref isEnd ran remaining :: rest)
    (h : Program.exec (Eng.definitionOf b.instanceId) c.engine = (.error error, e)) :
    c.GivesUp i ref := by
  refine ⟨⟨_, rest, hstack, remaining, by rw [Suspension.throwOf, if_pos hb]⟩,
    .inr ⟨⟨result, hcontrol⟩, fun x hx => ?_⟩⟩
  cases hd : c.engine.definitions.find? x.definitionKey with
  | none => rfl
  | some =>
    rw [Eng.exec_definitionOf (hb ▸ hx) hd] at h
    cases h

/-- A throw whose handlers have run takes its records out of the log, unless it is abandoned. -/
theorem resumeStep_clears (hb : b.instanceId = i) (hcontrol : c.control = .returning result)
    (hstack : c.stack = .compensation b token ref isEnd ran remaining :: rest) (thrown : Token) :
    c.GivesUp i ref ∨ ∀ r ∈ (resumeStep env b thrown (fun d =>
      Eng.finishCompensation env b.instanceId thrown d thrown.currentNode ref isEnd)
        { c with stack := rest }).engine.logOf i, r.isFor ref = false := by
  have hP := logOf_property i fun log => ∀ r ∈ log, r.isFor ref = false
  rcases hdef : Program.exec (Eng.definitionOf b.instanceId) c.engine with ⟨error | d, e⟩
  · exact .inl (givesUp_of_error hb hcontrol hstack hdef)
  · right
    subst hb
    have hcleared : ∀ r ∈ (after (Eng.finishCompensation env b.instanceId thrown d
        thrown.currentNode ref isEnd) e).logOf b.instanceId, r.isFor ref = false :=
      Eng.finishCompensation_clears e
    have hexec : Program.exec (Eng.definitionOf b.instanceId >>= fun d => Eng.finishCompensation env
        b.instanceId thrown d thrown.currentNode ref isEnd) c.engine = Program.exec
          (Eng.finishCompensation env b.instanceId thrown d thrown.currentNode ref isEnd) e :=
      exec_bind_ok hdef
    refine exec_rule (P := fun c' => ∀ r ∈ c'.engine.logOf b.instanceId, r.isFor ref = false)
      (fun error t hx => failIn_keeps hP error ?_) fun action t hx => act_keeps hP ?_ ?_
    · rwa [after, ← hexec, hx] at hcleared
    · exact Eng.finishCompensation_yields e t action (hexec.symm.trans hx)
    · rwa [after, ← hexec, hx] at hcleared

/-- A return to a throw of the instance ends it or gives the next record its turn. -/
theorem resumeCompensation_compensates (hb : b.instanceId = i)
    (hcontrol : c.control = .returning (.ok ()))
    (hstack : c.stack = .compensation b token ref isEnd ran remaining :: rest) :
    Compensates i c
      (resumeCompensation env b token ref isEnd ran remaining { c with stack := rest }) := by
  have hbefore : c.throws i = (ref, remaining) :: rest.filterMap (Suspension.throwOf i) := by
    rw [throws, hstack, List.filterMap_cons, Suspension.throwOf, if_pos hb]
  cases remaining with
  | nil =>
    exact .ends ref [] _ hbefore (throws_resumeStep _) (resumeStep_clears hb hcontrol hstack _)
  | cons r others =>
    have hturn : c.handlerAt i = some r := by
      rw [handlerAt, hcontrol, hstack]
      exact if_pos hb
    have hpushed (thrown : Token) (ran : Bool) (e : Engine) (control : Control) :
        (({ c with stack := rest, engine := e, control := control } : Config).push
          (.compensation b thrown ref isEnd ran others)).throws i =
            (ref, others) :: rest.filterMap (Suspension.throwOf i) := by
      show List.filterMap _ (_ :: _) = _
      rw [List.filterMap_cons, Suspension.throwOf, if_pos hb]
    unfold resumeCompensation
    refine exec_rule (P := Compensates i c) (fun error e hx => ?_) fun d e _ => ?_
    · exact .ends ref _ _ hbefore (throws_failIn _) (.inl (givesUp_of_error hb hcontrol hstack hx))
    · dsimp only
      split
      · refine exec_rule (P := Compensates i c) (fun error t hx => ?_) fun start t _ => ?_
        · cases hx
        · exact .turn ref r others _ hturn hbefore (hpushed _ _ t _)
      · exact .turn ref r others _ hturn hbefore (hpushed _ _ e _)

theorem throws_resumeCompensation_of_ne (hb : b.instanceId ≠ i) :
    (resumeCompensation env b token ref isEnd ran remaining c).throws i = c.throws i := by
  cases remaining with
  | nil => exact throws_resumeStep _
  | cons r others =>
    have hpushed (thrown : Token) (ran : Bool) (e : Engine) (control : Control) :
        (({ c with engine := e, control := control } : Config).push
          (.compensation b thrown ref isEnd ran others)).throws i = c.throws i := by
      show List.filterMap _ (_ :: _) = _
      rw [List.filterMap_cons, Suspension.throwOf, if_neg hb]
      rfl
    unfold resumeCompensation
    refine exec_rule (P := fun c' => c'.throws i = c.throws i) (fun _ _ _ => throws_failIn _)
      fun d e _ => ?_
    split
    · exact exec_rule (P := fun c' => c'.throws i = c.throws i) (fun _ _ _ => throws_failIn _)
        fun _ t _ => hpushed _ _ t _
    · exact hpushed _ _ e _

theorem quiet_of_stack (hcontrol : c.control = .returning result) (hstack : c.stack = s :: rest)
    (hs : s.throwOf i = none) (hafter : c'.throws i = rest.filterMap (Suspension.throwOf i)) :
    Compensates i c c' := by
  refine .quiet ?_ ?_
  · rw [hafter, throws, hstack, List.filterMap_cons, hs]
  · rw [handlerAt, hcontrol, hstack]
    cases result with
    | error => rfl
    | ok =>
      cases s with
      | signalThrow | call => rfl
      | compensation b _ _ _ _ remaining =>
        have hb : b.instanceId ≠ i := by
          intro hb
          rw [Suspension.throwOf, if_pos hb] at hs
          cases hs
        cases remaining with
        | nil => rfl
        | cons => exact if_neg hb

theorem unwind_compensates (hcontrol : c.control = .returning result)
    (hstack : c.stack = s :: rest) :
    Compensates i c (unwind env s result { c with stack := rest }) := by
  cases s with
  | signalThrow =>
    refine quiet_of_stack hcontrol hstack rfl ?_
    cases result with
    | ok => exact throws_resumeSignal _ _
    | error => exact throws_failIn _
  | call =>
    refine quiet_of_stack hcontrol hstack rfl ?_
    cases result with
    | ok => rfl
    | error =>
      exact exec_rule (P := fun c' => c'.throws i = rest.filterMap (Suspension.throwOf i))
        (fun _ _ _ => rfl) fun _ _ _ => rfl
  | compensation b token ref isEnd ran remaining =>
    by_cases hb : b.instanceId = i
    · have hthrow : (Suspension.compensation b token ref isEnd ran remaining).throwOf i =
          some (ref, remaining) := if_pos hb
      cases result with
      | ok => exact resumeCompensation_compensates hb hcontrol hstack
      | error error =>
        refine .ends ref remaining _ ?_ (throws_failIn _) (.inl
          ⟨⟨_, rest, hstack, remaining, hthrow⟩, .inl ⟨error, hcontrol⟩⟩)
        rw [throws, hstack, List.filterMap_cons, hthrow]
        rfl
    · refine quiet_of_stack hcontrol hstack (if_neg hb) ?_
      cases result with
      | ok => exact throws_resumeCompensation_of_ne hb
      | error => exact throws_failIn _

theorem step_compensates {move : Move} (hstep : c.step env move = some c') :
    Compensates i c c' := by
  cases move with
  | op op =>
    simp only [step, Option.ite_none_right_eq_some, Option.some.injEq] at hstep
    obtain ⟨hidle, rfl⟩ := hstep
    refine .quiet ?_ (by rw [handlerAt, hidle])
    have hbegun : Begun c.stack (c.begin env op) := begin_begun op
    rw [throws, throws, hbegun.1]
  | internal =>
    have hinternal : c.internalStep env = some c' := hstep
    unfold internalStep at hinternal
    split at hinternal
    · cases hinternal
    case h_2 b hcontrol =>
      cases hinternal
      exact stepBatch_compensates hcontrol
    case h_3 result s rest hcontrol hstack =>
      cases hinternal
      exact unwind_compensates hcontrol hstack
    case h_4 result hcontrol hstack =>
      cases hinternal
      have hempty : (drive env result c).stack = [] := by
        have hdriven : Driven c.driver result (drive env result c) := drive_driven hstack
        cases hdriven <;> assumption
      refine .quiet (by rw [throws, throws, hempty, hstack]) ?_
      rw [handlerAt, hcontrol, hstack]
      cases result <;> rfl

end Return

end Steps

end Config

/-! ## The ledger is kept -/

theorem count_handlersIn (log : List CompensationRecord) (ref : Option String)
    (r : CompensationRecord) :
    (handlersIn log ref).count r = if r.isFor ref = true then log.count r else 0 := by
  cases ref with
  | none => simp [handlersIn, CompensationRecord.isFor]
  | some activity =>
    by_cases h : (r.activityId == activity) = true
    · rw [CompensationRecord.isFor, if_pos h]
      exact List.count_filter h
    · rw [CompensationRecord.isFor, if_neg h, List.count_eq_zero]
      exact fun hmem => h (List.mem_filter.mp hmem).2

/-- A throw for all activities reads its records in reverse, one for a single activity only if they
read the same in both directions. -/
theorem handlersIn_eq_due {log : List CompensationRecord} {ref : Option String}
    (h : ∀ activity, ref = some activity →
      (handlersIn log (some activity)).reverse = handlersIn log (some activity)) :
    handlersIn log ref = (log.filter fun r => r.isFor ref).reverse := by
  cases ref with
  | none => simp [handlersIn, CompensationRecord.isFor]
  | some activity => exact (h activity rfl).symm

namespace Config

variable {r : CompensationRecord}

def covers (throws : List (Option String × List CompensationRecord)) (r : CompensationRecord) :
    Bool :=
  throws.any fun p => r.isFor p.1

def left (throws : List (Option String × List CompensationRecord)) (r : CompensationRecord) : Nat :=
  (throws.map fun p => p.2.count r).sum

/-- The machine has left what is due, and every record in the log that no open throw is for may
still be executed. -/
structure Balanced (i : Uuid) (c : Config) (l : Ledger) : Prop where
  due : l.due = (c.throws i).map Prod.snd
  balance : ∀ r, l.executed r + left (c.throws i) r +
    (if covers (c.throws i) r then 0 else (c.engine.logOf i).count r) ≤ l.registered r

@[simp] theorem left_cons (p : Option String × List CompensationRecord)
    (throws : List (Option String × List CompensationRecord)) (r : CompensationRecord) :
    left (p :: throws) r = p.2.count r + left throws r := by
  simp [left]

@[simp] theorem covers_cons (p : Option String × List CompensationRecord)
    (throws : List (Option String × List CompensationRecord)) (r : CompensationRecord) :
    covers (p :: throws) r = (r.isFor p.1 || covers throws r) := by
  simp [covers]

section Enter

variable {i : Uuid} {c c' : Config} {l : Ledger} {ref : Option String}
  {others : List (Option String × List CompensationRecord)}

section

variable (h : c.Balanced i l)

include h

theorem Balanced.quiet (hsame : c'.throws i = c.throws i) (hturn : c.handlerAt i = none) :
    c'.Balanced i (l.enter (c.engine.logOf i) (c'.engine.logOf i) (c.compensationEvent i c')) := by
  have hevent : c.compensationEvent i c' = .none := by
    rw [compensationEvent, hsame, if_neg (lt_irrefl _), if_neg (lt_irrefl _), hturn]
  rw [hevent]
  refine ⟨by rw [hsame]; exact h.due, fun r => ?_⟩
  have hr := h.balance r
  rw [hsame]
  simp only [Ledger.enter]
  split
  case isTrue hcovers => rw [if_pos hcovers] at hr; omega
  case isFalse hcovers => rw [if_neg hcovers] at hr; omega

theorem Balanced.throws (hguard : c.CompensatesInOrder i) (hnext : c.throwsNext i = some ref)
    (hlog : c'.engine.logOf i = c.engine.logOf i)
    (hpushed : c'.throws i = (ref, handlersIn (c.engine.logOf i) ref) :: c.throws i) : c'.Balanced i
      (l.enter (c.engine.logOf i) (c'.engine.logOf i) (c.compensationEvent i c')) := by
  have hevent : c.compensationEvent i c' = .throws ref := by
    rw [compensationEvent, hpushed, if_pos (by simp)]
    rfl
  rw [hevent, hlog]
  refine ⟨?_, fun r => ?_⟩
  · rw [hpushed, List.map_cons, ← h.due, handlersIn_eq_due]
    · rfl
    · rintro activity rfl
      exact hguard.mirrored activity hnext
  · have hr := h.balance r
    rw [hpushed, hlog, left_cons, covers_cons, count_handlersIn]
    simp only [Ledger.enter, Nat.sub_self, Nat.add_zero]
    cases hfor : r.isFor ref with
    | false => simpa using hr
    | true =>
      -- what the new throw reads has been in the log for nobody else
      have hfree : covers (c.throws i) r = true → (c.engine.logOf i).count r = 0 := by
        intro hcovers
        obtain ⟨p, hp, hpfor⟩ := List.any_eq_true.mp hcovers
        refine List.count_eq_zero.mpr fun hmem => ?_
        exact Bool.false_ne_true ((hguard.apart ref hnext p hp r hmem hfor).symm.trans hpfor)
      simp only [if_true, Bool.true_or]
      split at hr
      case isTrue hcovers => rw [hfree hcovers]; omega
      case isFalse => omega

theorem Balanced.turn {rest : List CompensationRecord} (hturn : c.handlerAt i = some r)
    (hbefore : c.throws i = (ref, r :: rest) :: others)
    (hafter : c'.throws i = (ref, rest) :: others) : c'.Balanced i
      (l.enter (c.engine.logOf i) (c'.engine.logOf i) (c.compensationEvent i c')) := by
  obtain ⟨runs, hevent⟩ : ∃ runs, c.compensationEvent i c' = .turn r runs := by
    rw [compensationEvent, hbefore, hafter, if_neg (by simp), if_neg (by simp), hturn]
    cases c'.control <;> exact ⟨_, rfl⟩
  rw [hevent]
  have hdue := h.due
  rw [hbefore] at hdue
  refine ⟨by rw [hafter]; simp [Ledger.enter, hdue], fun s => ?_⟩
  have hs := h.balance s
  rw [hbefore, left_cons, covers_cons, List.count_cons] at hs
  rw [hafter, left_cons, covers_cons]
  dsimp only at hs ⊢
  have hexecuted : (l.enter (c.engine.logOf i) (c'.engine.logOf i) (.turn r runs)).executed s ≤
      l.executed s + if (r == s) = true then 1 else 0 := by
    cases runs <;> simp [Ledger.enter]
  have hregistered : (l.enter (c.engine.logOf i) (c'.engine.logOf i) (.turn r runs)).registered s =
      l.registered s + ((c'.engine.logOf i).count s - (c.engine.logOf i).count s) := rfl
  by_cases hcovers : (s.isFor ref || covers others s) = true
  · rw [if_pos hcovers] at hs ⊢
    omega
  · rw [if_neg hcovers] at hs ⊢
    omega

theorem Balanced.ends {remaining : List CompensationRecord} (hguard : c.CompensatesInOrder i)
    (hbefore : c.throws i = (ref, remaining) :: others) (hafter : c'.throws i = others)
    (hcleared : c.GivesUp i ref ∨ ∀ r ∈ c'.engine.logOf i, r.isFor ref = false) : c'.Balanced i
      (l.enter (c.engine.logOf i) (c'.engine.logOf i) (c.compensationEvent i c')) := by
  have hevent : c.compensationEvent i c' = .ends := by
    rw [compensationEvent, hbefore, hafter, if_neg (by simp), if_pos (by simp)]
  rw [hevent]
  have hdue := h.due
  rw [hbefore] at hdue
  refine ⟨by rw [hafter]; simp [Ledger.enter, hdue], fun r => ?_⟩
  have hr := h.balance r
  rw [hbefore, left_cons, covers_cons] at hr
  rw [hafter]
  simp only [Ledger.enter]
  split
  case isTrue hcovers =>
    rw [hcovers, Bool.or_true, if_pos rfl] at hr
    omega
  case isFalse hcovers =>
    rw [Bool.eq_false_iff.mpr hcovers, Bool.or_false] at hr
    split at hr
    case isFalse => omega
    case isTrue hfor =>
      -- the records of the throw were in no log before it ended, or are in none after
      have hnone : ∀ log : List CompensationRecord, (∀ r ∈ log, r.isFor ref = false) →
          log.count r = 0 := fun log hlog => List.count_eq_zero.mpr fun hmem =>
        Bool.false_ne_true ((hlog r hmem).symm.trans hfor)
      rcases hcleared with hgives | hcleared
      · rw [hnone _ (hguard.completed ref hgives)]
        omega
      · rw [hnone _ hcleared]
        omega

theorem Balanced.enter (hguard : c.CompensatesInOrder i) (hstep : Compensates i c c') :
    c'.Balanced i (l.enter (c.engine.logOf i) (c'.engine.logOf i) (c.compensationEvent i c')) := by
  cases hstep with
  | quiet hsame hturn => exact h.quiet hsame hturn
  | throws ref hnext hlog hpushed => exact h.throws hguard hnext hlog hpushed
  | turn ref r rest others hturn hbefore hafter => exact h.turn hturn hbefore hafter
  | ends ref remaining others hbefore hafter hcleared => exact h.ends hguard hbefore hafter hcleared

end

end Enter

/-! ## Whole runs -/

theorem throws_of_handlerAt {i : Uuid} {c : Config} (h : c.handlerAt i = some r) :
    ∃ ref rest others, c.throws i = (ref, r :: rest) :: others := by
  unfold handlerAt at h
  split at h
  case h_2 => cases h
  case h_1 b token ref isEnd ran r' rest others hcontrol hstack =>
    obtain ⟨hb, hr⟩ := Option.ite_none_right_eq_some.mp h
    cases hr
    refine ⟨ref, rest, others.filterMap (Suspension.throwOf i), ?_⟩
    rw [throws, hstack, List.filterMap_cons, Suspension.throwOf, if_pos hb]

theorem initial_balanced (clock : Time) (i : Uuid) : (initial clock).Balanced i .empty where
  due := rfl
  balance r := by
    have hlog : (initial clock).engine.logOf i = [] := rfl
    rw [hlog]
    simp [Ledger.empty, throws, initial, idle, left, covers]

/-- In a run in which no throw reads a record of an open throw or records of one activity that
differ, and no open throw is abandoned while a record of it is in the log, every record is executed
at most as often as it was registered, the open throws have left what is due in reverse order, and
the record whose turn it is is the first one due. -/
theorem compensates_in_order {env : Env} {i : Uuid} {clock : Time} {c : Config} {l : Ledger}
    (h : Reaches (ledgerStep env i) (fun s _ => s.1.CompensatesInOrder i)
      (initial clock, .empty) (c, l)) :
    (∀ r, l.executed r ≤ l.registered r) ∧ l.due = (c.throws i).map Prod.snd ∧
      ∀ r, c.handlerAt i = some r → ∃ rest others, l.due = (r :: rest) :: others := by
  have hbalanced : c.Balanced i l := by
    refine h.invariant (P := fun s => s.1.Balanced i s.2) (initial_balanced clock i) ?_
    rintro ⟨c, l⟩ move ⟨c', l'⟩ hbalanced hguard hstep
    obtain ⟨_, hmove, heq⟩ := Option.map_eq_some_iff.mp hstep
    cases heq
    exact hbalanced.enter hguard (step_compensates hmove)
  refine ⟨fun r => ?_, hbalanced.due, fun r hr => ?_⟩
  · have hr := hbalanced.balance r
    omega
  · obtain ⟨ref, rest, others, hthrows⟩ := throws_of_handlerAt hr
    refine ⟨rest, others.map Prod.snd, ?_⟩
    rw [hbalanced.due, hthrows]
    rfl

/-- A throw of the instance is for all activities and made while no other is open, and no open
throw fails or loses its definition. -/
def calm (i : Uuid) (c : Config) : Bool :=
  ((c.throwsNext i).all fun ref => ref.isNone && (c.throws i).isEmpty) &&
    match c.control, c.stack with
    | .returning (.error _), s :: _ => (s.throwOf i).isNone
    | .returning (.ok _), s :: _ => (s.throwOf i).isNone ||
        ((c.engine.instances.find? i).any fun x =>
          (c.engine.definitions.find? x.definitionKey).isSome)
    | _, _ => true

theorem compensatesInOrder_of_calm {i : Uuid} {c : Config} (h : c.calm i = true) :
    c.CompensatesInOrder i := by
  rw [calm, Bool.and_eq_true] at h
  obtain ⟨hnext, htop⟩ := h
  refine ⟨fun ref href p hp => ?_, fun activity hactivity => ?_, fun ref hgives => ?_⟩
  · rw [href, Option.all_some, Bool.and_eq_true, List.isEmpty_iff] at hnext
    rw [hnext.2] at hp
    cases hp
  · rw [hactivity] at hnext
    cases hnext
  · obtain ⟨⟨s, rest, hstack, left, hs⟩, hwhy⟩ := hgives
    rcases hwhy with ⟨error, hcontrol⟩ | ⟨⟨result, hcontrol⟩, hgone⟩
    · simp [hcontrol, hstack, hs] at htop
    · cases result with
      | error => simp [hcontrol, hstack, hs] at htop
      | ok =>
        simp only [hcontrol, hstack, hs, Option.isNone_some, Bool.false_or,
          Option.any_eq_true] at htop
        obtain ⟨x, hx, hd⟩ := htop
        rw [hgone x hx] at hd
        cases hd

end Config

/-! ## A throw inside a handler -/

/-- A booking with a handler; `behind` says what follows the handler's task. -/
def reservation (behind : BpmnElement) : ProcessDefinition := .ofGraph "reservation"
  [("start", .startEvent), ("book", .scriptTask "" none),
    ("booked", .boundaryCompensationEvent "book"), ("undo", .compensationEndEvent none),
    ("cancel", .scriptTask "" none), ("cancelled", behind)]
  [("start", [.simple "book"]), ("book", [.simple "undo"]), ("booked", [.simple "cancel"]),
    ("cancel", [.simple "cancelled"])]

def reservationMoves (d : ProcessDefinition) (n : Nat) : List Move :=
  [.op (.deployDefinition d), .internal, .op (.startInstance 1 ∅)] ++ List.replicate n .internal

/-- The one record is executed twice: the throw inside its handler reads it again. -/
theorem reservation_cancelled_twice :
    ∃ c l, Reaches (Config.ledgerStep .plain 2) (fun _ _ => True) (Config.initial 0, .empty)
      (c, l) ∧
      l.registered ⟨"book", "cancel"⟩ = 1 ∧ l.executed ⟨"book", "cancel"⟩ = 2 := by
  have hrun : (run (Config.ledgerStep .plain 2) (Config.initial 0, .empty)
      (reservationMoves (reservation (.compensationEndEvent (some "book"))) 7)).map
        (fun s => (s.2.registered ⟨"book", "cancel"⟩, s.2.executed ⟨"book", "cancel"⟩)) =
      some (1, 2) := by
    decide +kernel
  obtain ⟨⟨c, l⟩, hreach, hcounts⟩ := Option.map_eq_some_iff.mp hrun
  exact ⟨c, l, .of_run hreach, congrArg Prod.fst hcounts, congrArg Prod.snd hcounts⟩

theorem reservation_cancelled_once :
    ∃ (c : Config) (l : Ledger), (∀ r, l.executed r ≤ l.registered r) ∧
      l.due = (c.throws 2).map Prod.snd ∧
      (∀ r, c.handlerAt 2 = some r → ∃ rest others, l.due = (r :: rest) :: others) ∧
      l.registered ⟨"book", "cancel"⟩ = 1 ∧ l.executed ⟨"book", "cancel"⟩ = 1 := by
  have hrun : (run (fun s a => if s.1.calm 2 then Config.ledgerStep .plain 2 s a else none)
      (Config.initial 0, .empty) (reservationMoves (reservation .endEvent) 10)).map
        (fun s => (s.2.registered ⟨"book", "cancel"⟩, s.2.executed ⟨"book", "cancel"⟩)) =
      some (1, 1) := by
    decide +kernel
  obtain ⟨⟨c, l⟩, hreach, hcounts⟩ := Option.map_eq_some_iff.mp hrun
  have hguarded : Reaches (Config.ledgerStep .plain 2) (fun s _ => s.1.CompensatesInOrder 2)
      (Config.initial 0, .empty) (c, l) :=
    .of_checked_run (fun _ _ => Config.compensatesInOrder_of_calm) hreach
  obtain ⟨hexecuted, hdue, hturn⟩ := Config.compensates_in_order hguarded
  exact ⟨c, l, hexecuted, hdue, hturn, congrArg Prod.fst hcounts, congrArg Prod.snd hcounts⟩

end BpmnEngine
