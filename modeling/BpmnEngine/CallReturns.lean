import BpmnEngine.Machine
import BpmnEngine.Footprints

/-!
# How a caller takes up a call that has ended

The token that made a call is stored under the identifier of the called instance. When
that instance ends, the caller does not go on with the stored token if its fork registry
has an open token at the call activity: it takes the first of these, as it was when it
was forked. The boundary events of the call activity stay armed.
-/
namespace BpmnEngine

open Program

namespace Eng

variable {env : Env} {e e' : Engine} {parentId childId : Uuid} {parent : ProcessInstance}
  {d : ProcessDefinition} {call : OutstandingCall} {childVars results : Variables} {failed : Bool}
  {token left : Token} {α : Type} {node : String}

def registryToken (node : String) (active : List ActiveToken) : Option Token :=
  (active.find? fun a => decide (a.token.currentNode = node ∧ a.completed = false)).map (·.token)

theorem transferToActive_eq (node : String) (results : Variables) (active : List ActiveToken) :
    (transferToActive node results active).map Prod.fst =
      (registryToken node active).map fun t => DataMappings.applyCallTransfer t results := by
  induction active with
  | nil => rfl
  | cons a rest ih =>
    unfold registryToken at ih ⊢
    rw [transferToActive, List.find?_cons]
    by_cases h : a.token.currentNode = node ∧ a.completed = false
    · simp [h]
    · rw [if_neg h, decide_eq_false h]
      simpa [Function.comp_def] using ih

theorem exec_ofResult (r : EngineResult α) (e : Engine) : exec (ofResult r) e = (r, e) := rfl

theorem ofResult_eq_ok {r : EngineResult α} {a : α} (h : exec (ofResult r) e = (.ok a, e')) :
    r = .ok a ∧ e' = e := by
  rw [exec_ofResult] at h
  exact ⟨congrArg Prod.fst h, (congrArg Prod.snd h).symm⟩

def callTaken (childId : Uuid) (i : ProcessInstance) : ProcessInstance :=
  { i with
    outstandingCalls := i.outstandingCalls.erase childId
    state := stateAfterCall i.state (i.outstandingCalls.erase childId).entries.length }

theorem exec_takeUpCall (hparent : e.instances.find? parentId = some parent)
    (hx : exec (takeUpCall parentId childId call failed childVars) e = (.ok token, e')) :
    ∃ results,
      callResults (e.definitions.find? parent.definitionKey) call.nodeId failed childVars =
        .ok results ∧
      token = DataMappings.applyCallTransfer
        ((registryToken call.nodeId parent.activeTokens).getD call.token) results ∧
      e'.waits = e.waits ∧ e'.definitions = e.definitions ∧
      ∃ active, e'.instances.find? parentId =
        some { callTaken childId parent with activeTokens := active } := by
  rw [takeUpCall, exec_bind_ok (exec_getInstance hparent),
    exec_bind_ok (exec_modifyInstance e parentId _),
    exec_bind_ok (exec_findDefinition _ _)] at hx
  obtain ⟨results, e₁, hresults, hx⟩ := exec_bind_eq_ok hx
  obtain ⟨hok, rfl⟩ := ofResult_eq_ok hresults
  have hfound : (e.modifyInstance parentId (callTaken childId)).instances.find? parentId =
      some (callTaken childId parent) := by
    rw [Engine.find?_modifyInstance_self, hparent]
    rfl
  have hregistry := transferToActive_eq call.nodeId results parent.activeTokens
  refine ⟨results, hok, ?_⟩
  split at hx
  case h_1 t active htransfer =>
    cases hx
    rw [htransfer] at hregistry
    obtain ⟨t', ht', rfl⟩ := Option.map_eq_some_iff.mp hregistry.symm
    refine ⟨by rw [ht', Option.getD_some], rfl, rfl, active, ?_⟩
    rw [Engine.find?_modifyInstance_self]
    exact congrArg _ hfound
  case h_2 htransfer =>
    cases hx
    rw [htransfer] at hregistry
    have hnone : registryToken call.nodeId parent.activeTokens = none :=
      Option.map_eq_none_iff.mp hregistry.symm
    exact ⟨by rw [hnone, Option.getD_none], rfl, rfl, parent.activeTokens, hfound⟩

def leftToken (env : Env) (d : ProcessDefinition) (node : String) (failed : Bool) (token : Token) :
    EngineResult Token :=
  if failed && d.dataMappings.contains node then .ok token.discardDataScope
  else Scripting.runEndScripts env token d node

theorem exec_leaveCall (hparent : e.instances.find? parentId = some parent)
    (hx : exec (leaveCall env parentId d node failed token) e = (.ok left, e')) :
    leftToken env d node failed token = .ok left ∧ e'.waits = e.waits ∧
      e'.definitions = e.definitions ∧
      ∃ vars, e'.instances.find? parentId = some { parent with vars := vars } := by
  unfold leaveCall at hx
  unfold leftToken
  split at hx
  case isTrue h =>
    cases hx
    rw [if_pos h]
    exact ⟨rfl, rfl, rfl, parent.vars, hparent⟩
  case isFalse h =>
    rw [if_neg h]
    rw [exec_orElse, runEndScripts, exec_bind_ok (exec_getInstance hparent),
      exec_bind, exec_ofResult] at hx
    cases hscripts : Scripting.runEndScripts env token d node with
    | error =>
      rw [hscripts] at hx
      cases hx
    | ok =>
      rw [hscripts] at hx
      cases hx
      refine ⟨rfl, rfl, rfl, left.processVariables, ?_⟩
      rw [Engine.find?_modifyInstance_self, hparent]
      rfl

theorem id_of_leftToken (h : leftToken env d node failed token = .ok left) :
    left.id = token.id := by
  unfold leftToken at h
  split at h
  · cases h
    exact token.discardDataScope_same.id
  · exact (Scripting.runEndScripts_same h).id

/-- Where a caller goes on: behind the call activity, or at the boundary event that catches the
error of the called instance. -/
def returnTarget (env : Env) (d : ProcessDefinition) (node : String) (vars : Variables) :
    Option String → EngineResult String
  | none => d.resolveNextTarget env node vars
  | some code =>
    match d.findBoundaryErrorEvent node code with
    | some boundary => .ok boundary
    | none => .error (.noSuchNode node)

/-- A wait of a boundary event of an activity for one token in it. -/
def HasBoundaryWait (e : Engine) (d : ProcessDefinition) (instanceId tokenId : Uuid)
    (activity : String) : Prop :=
  ∃ w ∈ e.waits, w.instanceId = instanceId ∧ w.tokenId = tokenId ∧
    ∃ element, d.getNode w.nodeId = some element ∧ element.attachedTo? = some activity

/-- The token `t` goes on from a call activity that was left by the token `returned`. -/
def GoesOn (env : Env) (d : ProcessDefinition) (node : String) (errorCode : Option String)
    (returned t : Token) : Prop :=
  ∃ left target, leftToken env d node errorCode.isSome returned = .ok left ∧
    returnTarget env d node left.vars errorCode = .ok target ∧ t =
      { left with currentNode := target }

/-- What taking up a call does when its end lets the caller go on. -/
theorem exec_resumeCaller {errorCode : Option String} {next : Next}
    (hparent : e.instances.find? parentId = some parent)
    (hd : e.definitions.find? parent.definitionKey = some d)
    (hcall : endedCall parent childId = some call)
    (hcaught : ∀ code, errorCode = some code → (d.findBoundaryErrorEvent call.nodeId code).isSome)
    (hx : exec (resumeCaller env parentId childId childVars errorCode) e = (.ok next, e')) :
    ∃ results returned t e₁,
      callResults (some d) call.nodeId errorCode.isSome childVars = .ok results ∧
      exec (takeUpCall parentId childId call errorCode.isSome childVars) e = (.ok returned, e₁) ∧
      returned = DataMappings.applyCallTransfer
        ((registryToken call.nodeId parent.activeTokens).getD call.token) results ∧
      GoesOn env d call.nodeId errorCode returned t ∧ next = .run parentId [t] ∧
      e'.waits = e.waits ∧ ∃ p, e'.instances.find? parentId = some p ∧
        p.outstandingCalls = parent.outstandingCalls.erase childId := by
  rw [resumeCaller, exec_bind_ok (exec_getInstance hparent), hcall] at hx
  obtain ⟨returned, e₁, hx₁, hx⟩ := exec_bind_eq_ok hx
  obtain ⟨results, hresults, hreturned, hwaits₁, hdefs₁, active, hp₁⟩ :=
    exec_takeUpCall hparent hx₁
  rw [hd] at hresults
  rw [exec_bind_ok (exec_getDefinition (hdefs₁ ▸ hd))] at hx
  obtain ⟨left, e₂, hx₂, hx⟩ := exec_bind_eq_ok hx
  obtain ⟨hleft, hwaits₂, _, vars, hp₂⟩ := exec_leaveCall hp₁ hx₂
  -- Both ways to go on end in `continueCaller`.
  have hfinal : ∀ {e₃ : Engine} {target : String},
      returnTarget env d call.nodeId left.vars errorCode = .ok target → e₃ = e₂ →
      exec (continueCaller parentId left target) e₃ = (.ok next, e') →
      GoesOn env d call.nodeId errorCode returned { left with currentNode := target } ∧
        next = .run parentId [{ left with currentNode := target }] ∧
        e'.waits = e.waits ∧ ∃ p, e'.instances.find? parentId = some p ∧
          p.outstandingCalls = parent.outstandingCalls.erase childId := by
    rintro e₃ target htarget rfl hx₃
    cases hx₃
    refine ⟨⟨left, target, hleft, htarget, rfl⟩, rfl, hwaits₂.trans hwaits₁, ?_⟩
    rw [Engine.find?_modifyInstance_self, hp₂]
    exact ⟨_, rfl, rfl⟩
  cases errorCode with
  | none =>
    obtain ⟨target, e₃, hx₃, hx⟩ := exec_bind_eq_ok hx
    obtain ⟨htarget, he₃⟩ := ofResult_eq_ok hx₃
    exact ⟨results, returned, _, e₁, hresults, hx₁, hreturned, hfinal htarget he₃ hx⟩
  | some code =>
    obtain ⟨boundary, hboundary⟩ := Option.isSome_iff_exists.mp (hcaught code rfl)
    have htarget : returnTarget env d call.nodeId left.vars (some code) = .ok boundary := by
      rw [returnTarget, hboundary]
    dsimp only at hx
    rw [hboundary] at hx
    exact ⟨results, returned, _, e₁, hresults, hx₁, hreturned, hfinal htarget rfl hx⟩

/-- The end of a called instance resumes exactly the token that is stored for it, once, with its
own variables and data scope and the results of the call, and the boundary events of the call are
disarmed. Without a stored token nothing is resumed. -/
def ResumesStored (env : Env) (e : Engine) (d : ProcessDefinition) (parentId childId : Uuid)
    (parent : ProcessInstance) (childVars : Variables) (errorCode : Option String) (next : Next)
    (e' : Engine) : Prop :=
  match parent.outstandingCalls.get? childId with
  | none => next = .done
  | some call => ∃ results t,
      callResults (some d) call.nodeId errorCode.isSome childVars = .ok results ∧
      (exec (takeUpCall parentId childId call errorCode.isSome childVars) e).1 =
        .ok (DataMappings.applyCallTransfer call.token results) ∧
      GoesOn env d call.nodeId errorCode (DataMappings.applyCallTransfer call.token results) t ∧
      t.id = call.token.id ∧ next = .run parentId [t] ∧
      (∃ p, e'.instances.find? parentId = some p ∧ p.outstandingCalls.get? childId = none) ∧
      ¬HasBoundaryWait e' d parentId call.token.id call.nodeId

/-- The first open token that the fork registry has at the call activity, if there is one, differs
from the stored token at most in variables that the results overwrite, and no boundary event of the
call waits for the stored token. Without a stored token the caller does not wait for a call. -/
def ReturnsSafely (e : Engine) (d : ProcessDefinition) (parentId childId : Uuid)
    (parent : ProcessInstance) (childVars : Variables) (failed : Bool) : Prop :=
  match parent.outstandingCalls.get? childId with
  | none => ∀ id token, parent.state ≠ .waitingOnCallActivity id token
  | some call =>
    (∀ results token, callResults (some d) call.nodeId failed childVars = .ok results →
      registryToken call.nodeId parent.activeTokens = some token →
      DataMappings.applyCallTransfer token results =
        DataMappings.applyCallTransfer call.token results) ∧
    ¬HasBoundaryWait e d parentId call.token.id call.nodeId

theorem resumeParentIfNeeded_resumes_stored_iff {child : ProcessInstance}
    {errorCode : Option String} {next : Next}
    (hchild : e.instances.find? childId = some child)
    (hcaller : child.parentInstanceId = some parentId)
    (hparent : e.instances.find? parentId = some parent)
    (hd : e.definitions.find? parent.definitionKey = some d)
    (hcaught : ∀ call code, endedCall parent childId = some call → errorCode = some code →
      (d.findBoundaryErrorEvent call.nodeId code).isSome)
    (hx : exec (resumeParentIfNeeded env childId errorCode) e = (.ok next, e')) :
    ResumesStored env e d parentId childId parent child.vars errorCode next e' ↔
      ReturnsSafely e d parentId childId parent child.vars errorCode.isSome := by
  rw [resumeParentIfNeeded, exec_bind_ok (exec_getInstance hchild), hcaller] at hx
  dsimp only at hx
  unfold ResumesStored ReturnsSafely
  cases hstored : parent.outstandingCalls.get? childId with
  | none =>
    dsimp only
    cases hcall : endedCall parent childId with
    | none =>
      rw [resumeCaller, exec_bind_ok (exec_getInstance hparent), hcall] at hx
      cases hx
      refine iff_of_true rfl fun id token hstate => ?_
      rw [endedCall, hstored, hstate] at hcall
      cases hcall
    | some call =>
      -- The caller waits for a call that is not the one of this child.
      obtain ⟨_, _, t, _, _, _, _, _, hnext, _⟩ :=
        exec_resumeCaller hparent hd hcall (hcaught call · hcall) hx
      have hwaiting : ∃ id token, parent.state = .waitingOnCallActivity id token := by
        unfold endedCall at hcall
        rw [hstored] at hcall
        split at hcall
        case h_1 h => cases h
        case h_2 id token _ hstate => exact ⟨id, token, hstate⟩
        case h_3 => cases hcall
      obtain ⟨id, token, hstate⟩ := hwaiting
      exact iff_of_false (fun h => by rw [h] at hnext; cases hnext) fun h => h id token hstate
  | some call =>
    have hcall : endedCall parent childId = some call := by rw [endedCall, hstored]
    obtain ⟨results, returned, t, e₁, hresults, hx₁, hreturned, hgoes, hnext, hwaits, p, hp,
      hcalls⟩ := exec_resumeCaller hparent hd hcall (hcaught call · hcall) hx
    have hboundary : HasBoundaryWait e' d parentId call.token.id call.nodeId ↔
        HasBoundaryWait e d parentId call.token.id call.nodeId := by
      rw [HasBoundaryWait, hwaits, HasBoundaryWait]
    dsimp only
    constructor
    · rintro ⟨results', t', hresults', hreturned', _, _, _, _, hgone⟩
      refine ⟨fun results'' token hresults'' htoken => ?_, fun h => hgone (hboundary.mpr h)⟩
      rw [hresults] at hresults' hresults''
      cases hresults'
      cases hresults''
      rw [hx₁] at hreturned'
      rw [htoken, Option.getD_some] at hreturned
      rw [← hreturned]
      exact Except.ok.inj hreturned'
    · rintro ⟨hsame, hgone⟩
      have hright : returned = DataMappings.applyCallTransfer call.token results := by
        rw [hreturned]
        cases htoken : registryToken call.nodeId parent.activeTokens with
        | none => rfl
        | some token => exact hsame results token hresults htoken
      obtain ⟨left, target, hleft, htarget, rfl⟩ := hgoes
      have hid : left.id = call.token.id := by
        rw [id_of_leftToken hleft, hright]
        rfl
      refine ⟨results, { left with currentNode := target }, hresults, ?_, ?_, hid, hnext,
        ⟨p, hp, ?_⟩, fun h => hgone (hboundary.mp h)⟩
      · rw [hx₁, hright]
      · exact ⟨left, target, hright ▸ hleft, htarget, rfl⟩
      · rw [hcalls]
        exact Map.get?_erase_self _ _

end Eng

def approval : ProcessDefinition := .ofGraph "approval"
  [("start", .startEvent), ("approve", .userTask "approve"), ("end", .endEvent)]
  [("start", [.simple "approve"]), ("approve", [.simple "end"])]

/-- A fork that calls `approval` twice from one node, which a message may cancel. -/
def twoCalls : ProcessDefinition := .ofGraph "two-calls"
  [("start", .startEvent), ("split", .parallelGateway), ("call", .callActivity "approval"),
    ("cancel", .boundaryMessageEvent "call" "cancel" true), ("review", .userTask "review"),
    ("end", .endEvent)]
  [("start", [.simple "split"]), ("split", [.simple "call", .simple "call"]),
    ("call", [.simple "review"]), ("review", [.simple "end"]), ("cancel", [.simple "end"])]

/-- The two calls of the caller with the tokens stored for them, and the nodes at which its tokens
wait, after some tasks are completed. -/
def callsAfter (tasks : List Uuid) : Option (List (Uuid × Uuid) × List (String × Uuid)) :=
  (Config.performAll .plain 100 (Config.initial 0)
    ([.deployDefinition approval, .deployDefinition twoCalls, .startInstance 2 ∅] ++
      tasks.map fun task => .completeUserTask task ∅)).bind fun c =>
        (c.engine.instances.find? 3).map fun i =>
          (i.outstandingCalls.entries.map fun call => (call.1, call.2.token.id),
            (c.engine.waits.filter fun w => w.instanceId == 3).map fun w => (w.nodeId, w.tokenId))

/-- The second call, made by token 7, ends first: token 6 goes on in its place, and the boundary
events of both tokens stay armed. -/
theorem wrong_token_resumes :
    callsAfter [] = some ([(9, 6), (14, 7)], [("cancel", 6), ("cancel", 7)]) ∧
      callsAfter [17] = some ([(9, 6)], [("review", 6), ("cancel", 6), ("cancel", 7)]) := by
  decide +kernel

/-- A caller without a fork whose only call has ended. -/
def oneCall : Engine :=
  { Engine.new 0 with
    definitions := (∅ : Table ProcessDefinition.key).insert { twoCalls with key := 2 }
    instances := ((∅ : Table ProcessInstance.id).insert
      { ProcessInstance.initial 3 2 "" none "call" ∅ with
        state := .waitingOnCallActivity 9 ⟨6, "call", ∅, false, none⟩
        outstandingCalls := Map.ofList [(9, ⟨"call", ⟨6, "call", ∅, false, none⟩⟩)] }).insert
      { ProcessInstance.initial 9 1 "" (some 3) "end" ∅ with state := .completed }
    nextUuid := 12 }

theorem oneCall_resumes_stored :
    ∃ parent next e', oneCall.instances.find? 3 = some parent ∧
      exec (Eng.resumeParentIfNeeded .plain 9 none) oneCall = (.ok next, e') ∧
      (Eng.ResumesStored .plain oneCall { twoCalls with key := 2 } 3 9 parent ∅ none next e' ↔
        Eng.ReturnsSafely oneCall { twoCalls with key := 2 } 3 9 parent ∅ false) := by
  obtain ⟨parent, hparent⟩ : ∃ parent, oneCall.instances.find? 3 = some parent := ⟨_, rfl⟩
  obtain ⟨next, e', hx⟩ : ∃ next e',
      exec (Eng.resumeParentIfNeeded .plain 9 none) oneCall = (.ok next, e') := ⟨_, _, rfl⟩
  have hd : oneCall.definitions.find? parent.definitionKey = some { twoCalls with key := 2 } := by
    cases hparent
    rfl
  have hchild : oneCall.instances.find? 9 = some
      { ProcessInstance.initial 9 1 "" (some 3) "end" ∅ with state := .completed } := rfl
  exact ⟨parent, next, e', hparent, hx,
    Eng.resumeParentIfNeeded_resumes_stored_iff hchild rfl hparent hd (by simp) hx⟩

end BpmnEngine
