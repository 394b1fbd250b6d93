import BpmnEngine.EventPayloads
import BpmnEngine.Subprocesses

/-!
# The first variables of an instance

Three operations start an instance: the plain start, the start of a timer cycle and
the trigger of a timer start. The plain start lays the caller's variables over the
defaults of the definition, takes the business key out and gives the result to the
instance and to its first token. The two timer starts build the instance from what
their caller gave and the first token without variables. The start event then writes
the variables of the token onto the instance. We say with which variables the first
node should run, and when it does.
-/
namespace BpmnEngine

open Program

/-- The variables an instance should start with: those of the caller over the defaults, without
the business key. -/
def ProcessDefinition.firstVariables (d : ProcessDefinition) (vars : Variables) : Variables :=
  Table.erase (d.variableDefaults.extend vars) "business_key"

def ProcessDefinition.Bare (d : ProcessDefinition) (node : String) : Prop :=
  d.listeners.get? node = none ∧ d.dataMappings.get? node = none

/-- A token at the start event of an instance runs it with the expected variables, and a bare
start event leaves the instance with all of them. -/
structure RunsFirstWith (env : Env) (d : ProcessDefinition) (expected : Variables)
    (instanceId : Uuid) (token : Token) (e : Engine) : Prop where
  first : ∀ name, token.vars.get? name = expected.get? name
  kept : d.Bare token.currentNode → ∀ outcome e',
    exec (Eng.executeStep env instanceId token) e = (.ok outcome, e') →
      ∃ x, e'.instances.find? instanceId = some x ∧
        ∀ name value, expected.get? name = some value → x.vars.get? name = some value

/-! ## The start event -/

namespace Eng

variable {env : Env} {e e' : Engine} {key i : Uuid} {d : ProcessDefinition} {token : Token}
  {node start : String} {allowSignalStart : Bool}

/-- A token at the start event of an instance. -/
structure AtStart (key : Uuid) (d : ProcessDefinition) (i : Uuid) (token : Token) (e : Engine) :
    Prop where
  defined : Defined key d i e
  start : ∃ element, d.startEvent = some (token.currentNode, element)
  scope : token.dataScope = none

theorem entered_of_bare (hscope : token.dataScope = none) (hbare : d.Bare token.currentNode) :
    token.entered env d = .ok token := by
  obtain ⟨hlisteners, hmappings⟩ := hbare
  have henter : DataMappings.enter token d token.currentNode = .ok token := by
    unfold DataMappings.enter
    rw [hscope]
    dsimp only
    split
    · rfl
    · rw [hmappings]
      rfl
  rw [Token.entered, henter]
  show Scripting.runNodeScripts env token d token.currentNode .start = _
  rw [Scripting.runNodeScripts, hlisteners]
  rfl

theorem runEndScripts_of_bare (hscope : token.dataScope = none) (hbare : d.Bare node) :
    Scripting.runEndScripts env token d node = .ok token := by
  rw [Scripting.runEndScripts, DataMappings.leave_of_none hscope]
  show Scripting.runNodeScripts env token d node .end = _
  rw [Scripting.runNodeScripts, hbare.1]
  rfl

theorem dispatch_start {element : BpmnElement} (h : element.isStart = true) :
    dispatch env i token d node element = .action <$> handleStartEvent env i token d node := by
  cases element <;> first | rfl | cases h

theorem exec_handleStartEvent_ok {x : ProcessInstance} {action : NextAction}
    (hx : e.instances.find? i = some x) (hscope : token.dataScope = none) (hbare : d.Bare node)
    (h : exec (handleStartEvent env i token d node) e = (.ok action, e')) :
    ∃ y, e'.instances.find? i = some y ∧ y.vars = token.vars := by
  obtain ⟨next, s, hnext, hrest⟩ := exec_bind_eq_ok h
  obtain rfl : s = e := (Prod.mk.inj ((exec_ofResult _ e).symm.trans hnext)).2.symm
  rw [exec_bind_ok (exec_runEndScripts_ok hx (runEndScripts_of_bare hscope hbare))] at hrest
  have hfound : (s.modifyInstance i fun y =>
      { y with vars := token.processVariables }).instances.find? i =
        some { x with vars := token.processVariables } := by
    rw [Engine.find?_modifyInstance_self, hx]
    rfl
  rw [setCurrentNode, exec_bind_ok (exec_updateInstance hfound _)] at hrest
  obtain ⟨-, rfl⟩ := Prod.mk.inj hrest
  refine ⟨{ x with vars := token.processVariables, currentNode := next }, ?_, ?_⟩
  · rw [Engine.find?_modifyInstance_self, hfound]
    rfl
  · show token.processVariables = token.vars
    rw [Token.processVariables, hscope]

/-- A bare start event writes the variables of its token onto the instance. -/
theorem AtStart.vars_of_step (h : AtStart key d i token e) (hbare : d.Bare token.currentNode)
    {outcome : StepOutcome} (hexec : exec (executeStep env i token) e = (.ok outcome, e')) :
    ∃ x, e'.instances.find? i = some x ∧ x.vars = token.vars := by
  obtain ⟨hd, x, hx, hkey⟩ := h.defined
  obtain ⟨element, hstart⟩ := h.start
  have hnode : d.getNode token.currentNode = some element :=
    Map.get?_eq_some_iff.mpr (Table.mem_def.mpr (List.mem_of_find?_eq_some hstart))
  have hisStart : element.isStart = true := by
    have hfound := List.find?_some hstart
    simp only [Bool.and_eq_true] at hfound
    exact hfound.2
  have hnote : e.noteEntry i d token.currentNode token = e := by
    have hnone : d.listeners.contains token.currentNode = false := by
      simpa [Table.contains, Map.get?] using hbare.1
    rw [Engine.noteEntry, hnone]
    rfl
  rw [executeStep, exec_bind_ok (exec_definitionOf hx (hkey ▸ hd)), hnode] at hexec
  dsimp only at hexec
  rw [Config.exec_executeNode (entered_of_bare h.scope hbare), hnote, dispatch_start hisStart]
    at hexec
  obtain ⟨action, s, haction, hrest⟩ := exec_bind_eq_ok hexec
  obtain ⟨-, rfl⟩ := Prod.mk.inj hrest
  exact exec_handleStartEvent_ok hx h.scope hbare haction

theorem AtStart.runsFirstWith (h : AtStart key d i token e) {expected : Variables}
    (hfirst : ∀ name, token.vars.get? name = expected.get? name) :
    RunsFirstWith env d expected i token e where
  first := hfirst
  kept hbare outcome e' hexec := by
    obtain ⟨x, hx, hvars⟩ := h.vars_of_step hbare hexec
    exact ⟨x, hx, fun name value hvalue => by rw [hvars, hfirst, hvalue]⟩

/-! ## The plain start -/

theorem setUpInstance_token (start : String) (vars : Variables) (parent : Option Uuid) :
    Yields (setUpInstance env d key start vars parent i) fun t =>
      t.dataScope = none ∧ t.currentNode = start ∧ t.vars = Table.erase vars "business_key" := by
  refine .bind (takeBusinessKey_erases _) fun r hr => .after fun _ => ?_
  refine .bind (P := fun t => t.dataScope = none ∧ t.currentNode = start ∧ t.vars = r.2)
    (.after fun _ => .pure ⟨rfl, rfl, rfl⟩) fun t ht => .after fun _ => .after fun _ => ?_
  exact .pure ⟨ht.1, ht.2.1, ht.2.2.trans hr⟩

theorem validateStartRequest_start {t : Engine}
    (h : exec (validateStartRequest key allowSignalStart) e = (.ok (d, start), t)) :
    ∃ element, d.startEvent = some (start, element) := by
  have hd := validateStartRequest_defined h
  rw [validateStartRequest, exec_bind_ok (exec_getDefinition hd)] at h
  split at h
  · cases h
  · cases h
  · next hstart =>
      split at h <;> cases h
      exact ⟨_, hstart⟩
  · next hstart =>
      cases h
      exact ⟨_, hstart⟩

theorem startInstance_atStart {vars : Variables} {parent : Option Uuid}
    (hd : e.definitions.find? key = some d)
    (h : exec (startInstance env key vars parent none allowSignalStart) e = (.ok (i, token), e')) :
    AtStart key d i token e' ∧ token.vars = d.firstVariables vars := by
  obtain ⟨⟨d', start⟩, s, hvalid, hrest⟩ := exec_bind_eq_ok h
  obtain rfl : s = e := by
    rw [← validateStartRequest_keeps_state key allowSignalStart e, after, hvalid]
  cases (validateStartRequest_defined hvalid).symm.trans hd
  have hnew : exec newUuid s = (.ok s.nextUuid, { s with nextUuid := s.nextUuid + 1 }) := rfl
  obtain ⟨t, v, ht, hdefined⟩ := @setUpInstance_succeeds env { s with nextUuid := s.nextUuid + 1 }
    s.nextUuid key d start (d.variableDefaults.extend vars) parent hd
  dsimp only at hrest
  rw [exec_bind_ok hnew, exec_bind_ok ht] at hrest
  cases hrest
  obtain ⟨hscope, hnode, hvars⟩ := setUpInstance_token _ _ _ _ _ _ ht
  exact ⟨⟨hdefined, hnode ▸ validateStartRequest_start hvalid, hscope⟩, hvars⟩

/-! ## The timer starts -/

def noteCycle (start : String) (iteration total : Nat) (intervalSeconds : Option Nat)
    (vars : Variables) : Variables :=
  let vars := vars.set "_timer_iteration" (.number (.int iteration))
  let vars := vars.set "_timer_total" (.number (.int total))
  let vars := vars.set "_timer_start_node" (.string start)
  match intervalSeconds with
  | some seconds => vars.set "_timer_interval_secs" (.number (.int seconds))
  | none => vars

def cycleOf : TimerDefinition → Nat × Option Nat
  | .repeatingInterval repetitions interval => (repetitions.getD 1, some (wholeSeconds interval))
  | _ => (1, none)

theorem spawnTimerInstance_eq (key : Uuid) (start : String) (vars : Variables)
    (iteration total : Nat) (intervalSeconds : Option Nat) :
    spawnTimerInstance env key start vars iteration total intervalSeconds = (do
      let _ ← getDefinition key
      let (businessKey, vars) ← takeBusinessKey vars
      createTimerInstance env key start businessKey
        (noteCycle start iteration total intervalSeconds vars)) := rfl

theorem startTimerInstance_eq (key : Uuid) (vars : Variables) (iteration : Nat) :
    startTimerInstance env key vars iteration = (do
      let d ← getDefinition key
      let (start, timer) ← startNodeOfTimer d
      spawnTimerInstance env key start vars iteration (cycleOf timer).1 (cycleOf timer).2) := rfl

/-- The first token of a timer start carries no variables. -/
theorem exec_createTimerInstance {businessKey : String} {element : BpmnElement} (vars : Variables)
    (hd : e.definitions.find? key = some d) (hstart : d.startEvent = some (start, element)) :
    ∃ i token e', exec (createTimerInstance env key start businessKey vars) e =
      (.ok (.run i [token]), e') ∧ AtStart key d i token e' ∧ token.vars = ∅ := by
  have hdefined : Defined key d e.nextUuid { e with
      nextUuid := e.nextUuid + 1 + 1
      instances := e.instances.insert (.initial e.nextUuid key businessKey none start vars) } :=
    ⟨hd, _, Table.find?_insert_self e.instances _, rfl⟩
  obtain ⟨_, e', hopen, hdefined'⟩ := @openEventScope_defined env _ _ _ _ hdefined
  refine ⟨e.nextUuid, Token.withVariables (e.nextUuid + 1) start ∅, e', ?_,
    ⟨hdefined', ⟨element, hstart⟩, rfl⟩, rfl⟩
  show exec (openEventScope env e.nextUuid >>= fun _ => _) _ = _
  rw [exec_bind_ok hopen]
  rfl

end Eng

/-- A request to start an instance of a process with a timer start. -/
inductive TimerStart where
  | trigger (provided : Nat)
  | cycle (vars : Variables) (iteration : Nat)

namespace TimerStart

open Eng

variable {env : Env} {e e' : Engine} {key : Uuid} {d : ProcessDefinition} {start : String}
  {timer : TimerDefinition}

def run (env : Env) (key : Uuid) : TimerStart → Eng Next
  | .trigger provided => triggerTimerStart env key provided
  | .cycle vars iteration => startTimerInstance env key vars iteration

def expected (d : ProcessDefinition) (start : String) (timer : TimerDefinition) :
    TimerStart → Variables
  | .trigger _ => d.firstVariables ∅
  | .cycle vars iteration =>
    noteCycle start iteration (cycleOf timer).1 (cycleOf timer).2 (d.firstVariables vars)

theorem exec_startNodeOfTimer (hstart : d.startEvent = some (start, .timerStartEvent timer)) :
    exec (startNodeOfTimer d) e = (.ok (start, timer), e) := by
  rw [startNodeOfTimer, hstart]
  rfl

theorem exec_triggerTimerStart_ok {provided : Nat} {next : Next}
    (hd : e.definitions.find? key = some d)
    (hstart : d.startEvent = some (start, .timerStartEvent timer))
    (h : exec (triggerTimerStart env key provided) e = (.ok next, e')) :
    exec (createTimerInstance env key start (toString e.nextUuid) ∅)
      { e with nextUuid := e.nextUuid + 1 } = (.ok next, e') := by
  have hnew : exec newUuid e = (.ok e.nextUuid, { e with nextUuid := e.nextUuid + 1 }) := rfl
  rw [triggerTimerStart, exec_bind_ok (exec_getDefinition hd),
    exec_bind_ok (exec_startNodeOfTimer hstart)] at h
  dsimp only at h
  split at h
  · split at h
    · rw [exec_bind_error (exec_throw _ e)] at h
      cases h
    · rwa [exec_bind_ok hnew] at h
  · rw [exec_bind_error (exec_throw _ e)] at h
    cases h

theorem atStart_of_run (request : TimerStart) (hd : e.definitions.find? key = some d)
    (hstart : d.startEvent = some (start, .timerStartEvent timer)) {next : Next}
    (h : exec (request.run env key) e = (.ok next, e')) :
    ∃ i token, next = .run i [token] ∧ AtStart key d i token e' ∧ token.vars = ∅ := by
  cases request with
  | trigger =>
    have hcreate := exec_triggerTimerStart_ok hd hstart h
    obtain ⟨i, token, s, hs, hat, hvars⟩ := @exec_createTimerInstance env
      { e with nextUuid := e.nextUuid + 1 } key d start _ _ ∅ hd hstart
    cases hcreate.symm.trans hs
    exact ⟨i, token, rfl, hat, hvars⟩
  | cycle vars iteration =>
    rw [run, startTimerInstance_eq, exec_bind_ok (exec_getDefinition hd),
      exec_bind_ok (exec_startNodeOfTimer hstart)] at h
    dsimp only at h
    rw [spawnTimerInstance_eq, exec_bind_ok (exec_getDefinition hd)] at h
    obtain ⟨⟨businessKey, left⟩, s, hkey, hcreate⟩ := exec_bind_eq_ok h
    have hs : s.definitions = e.definitions := by
      unfold takeBusinessKey at hkey
      split at hkey <;> cases hkey <;> rfl
    obtain ⟨i, token, t, ht, hat, hvars⟩ := @exec_createTimerInstance env s key d start
      businessKey _ (noteCycle start iteration (cycleOf timer).1 (cycleOf timer).2 left)
      (hs ▸ hd) hstart
    cases hcreate.symm.trans ht
    exact ⟨i, token, rfl, hat, hvars⟩

theorem cycle_expected (vars : Variables) (iteration : Nat) :
    (expected d start timer (.cycle vars iteration)).get? "_timer_start_node" =
      some (.string start) := by
  unfold expected noteCycle
  dsimp only
  split
  · rw [Map.get?_set_of_ne (by decide), Map.get?_set_self]
  · rw [Map.get?_set_self]

theorem trigger_expected (provided : Nat) (name : String) :
    (expected d start timer (.trigger provided)).get? name =
      if name = "business_key" then none else d.variableDefaults.get? name := by
  rw [expected, ProcessDefinition.firstVariables]
  split
  case isTrue h => rw [h, Map.get?_erase_self]
  case isFalse h => rw [Map.get?_erase_of_ne h, Map.get?_extend, Map.get?_empty, Option.none_or]

end TimerStart

/-- A plain start runs the first node with the caller's variables over the defaults. A timer start
does so if and only if it is a trigger and the definition has no defaults beside a business
key. -/
theorem start_paths_agree_iff {env : Env} {e : Engine} {key : Uuid} {d : ProcessDefinition}
    (hd : e.definitions.find? key = some d) :
    (∀ vars i token e',
      exec (Eng.startInstanceWithVariables env key vars) e = (.ok (.run i [token]), e') →
        RunsFirstWith env d (d.firstVariables vars) i token e') ∧
    ∀ (request : TimerStart) start timer i token e',
      d.startEvent = some (start, .timerStartEvent timer) →
      exec (request.run env key) e = (.ok (.run i [token]), e') →
        (RunsFirstWith env d (request.expected d start timer) i token e' ↔
          (∃ provided, request = .trigger provided) ∧
            ∀ name, name ≠ "business_key" → d.variableDefaults.get? name = none) := by
  constructor
  · intro vars i token e' h
    obtain ⟨⟨j, t⟩, s, hstart, hrest⟩ := exec_bind_eq_ok h
    cases hrest
    obtain ⟨hat, hvars⟩ := Eng.startInstance_atStart hd hstart
    exact hat.runsFirstWith fun name => by rw [hvars]
  · intro request start timer i token e' hstart h
    obtain ⟨j, t, hnext, hat, hvars⟩ := request.atStart_of_run hd hstart h
    cases hnext
    constructor
    · intro hruns
      have hnone : ∀ name, (request.expected d start timer).get? name = none := fun name => by
        rw [← hruns.first name, hvars, Map.get?_empty]
      cases request with
      | trigger provided =>
        refine ⟨⟨provided, rfl⟩, fun name hname => ?_⟩
        have := hnone name
        rwa [TimerStart.trigger_expected, if_neg hname] at this
      | cycle =>
        have := hnone "_timer_start_node"
        rw [TimerStart.cycle_expected] at this
        cases this
    · rintro ⟨⟨provided, rfl⟩, hdefaults⟩
      refine hat.runsFirstWith fun name => ?_
      rw [hvars, Map.get?_empty, TimerStart.trigger_expected]
      split
      · rfl
      · next hname => exact (hdefaults name hname).symm

def billing : ProcessDefinition := .ofGraph "billing"
  [("start", .timerStartEvent (.duration 60)), ("write", .userTask "clerk"), ("end", .endEvent)]
  [("start", [.simple "write"]), ("write", [.simple "end"])]

def billingRun : Option Config :=
  Config.performAll .plain 100 (Config.initial 0) [.deployDefinition billing]

def billedAmount : Variables := Map.ofList [("amount", .number (.int 5))]

/-- The caller gives an amount. The first token of the instance does not have it. -/
theorem billing_cycle_loses_amount :
    ∃ c d i token e', Reaches (Config.step .plain) (fun _ _ => True) (Config.initial 0) c ∧
      c.engine.definitions.find? 1 = some d ∧
      d.startEvent = some ("start", .timerStartEvent (.duration 60)) ∧
      exec ((TimerStart.cycle billedAmount 1).run .plain 1) c.engine = (.ok (.run i [token]), e') ∧
      ¬RunsFirstWith .plain d
        ((TimerStart.cycle billedAmount 1).expected d "start" (.duration 60)) i token e' := by
  have hrun : billingRun.map (fun c =>
      ((c.engine.definitions.find? 1).map fun d => (d.startEvent,
          ((TimerStart.cycle billedAmount 1).expected d "start" (.duration 60)).get? "amount"),
        (exec ((TimerStart.cycle billedAmount 1).run .plain 1) c.engine).1.toOption.isSome)) =
      some (some (some ("start", .timerStartEvent (.duration 60)), some (.number (.int 5))),
        true) := by
    decide +kernel
  obtain ⟨c, hreach, -, hfacts⟩ := Config.exists_of_performAll hrun
  obtain ⟨hdefinition, hstarts⟩ := Prod.mk.inj hfacts
  obtain ⟨d, hd, hdfacts⟩ := Option.map_eq_some_iff.mp hdefinition
  obtain ⟨hstart, hamount⟩ := Prod.mk.inj hdfacts
  rcases hexec : exec ((TimerStart.cycle billedAmount 1).run .plain 1) c.engine with
    ⟨error | next, e'⟩
  · rw [hexec] at hstarts
    cases hstarts
  · obtain ⟨i, token, rfl, -, hvars⟩ := TimerStart.atStart_of_run _ hd hstart hexec
    refine ⟨c, d, i, token, e', hreach, hd, hstart, hexec, fun hruns => ?_⟩
    have hfirst := hruns.first "amount"
    rw [hvars, hamount] at hfirst
    cases hfirst

/-- A trigger of the same process has no variables to lose. -/
theorem billing_trigger_agrees :
    ∃ c d i token e', billingRun = some c ∧
      exec ((TimerStart.trigger 60).run .plain 1) c.engine = (.ok (.run i [token]), e') ∧
      RunsFirstWith .plain d ((TimerStart.trigger 60).expected d "start" (.duration 60)) i token
        e' := by
  have hrun : billingRun.map (fun c =>
      ((c.engine.definitions.find? 1).map fun d => (d.startEvent, d.variableDefaults.isEmpty),
        (exec ((TimerStart.trigger 60).run .plain 1) c.engine).1.toOption.isSome)) =
      some (some (some ("start", .timerStartEvent (.duration 60)), true), true) := by
    decide +kernel
  obtain ⟨c, hc, hfacts⟩ := Option.map_eq_some_iff.mp hrun
  obtain ⟨hdefinition, hstarts⟩ := Prod.mk.inj hfacts
  obtain ⟨d, hd, hdfacts⟩ := Option.map_eq_some_iff.mp hdefinition
  obtain ⟨hstart, hdefaults⟩ := Prod.mk.inj hdfacts
  rcases hexec : exec ((TimerStart.trigger 60).run .plain 1) c.engine with
    ⟨error | next, e'⟩
  · rw [hexec] at hstarts
    cases hstarts
  · obtain ⟨i, token, rfl, -⟩ := TimerStart.atStart_of_run _ hd hstart hexec
    refine ⟨c, d, i, token, e', hc, hexec, ?_⟩
    refine ((start_paths_agree_iff hd).2 _ _ _ _ _ _ hstart hexec).mpr ⟨⟨60, rfl⟩, fun name _ => ?_⟩
    refine Option.eq_none_iff_forall_ne_some.mpr fun value hvalue => ?_
    exact Table.isEmpty_iff.mp hdefaults _ (Map.get?_eq_some_iff.mp hvalue)

end BpmnEngine
