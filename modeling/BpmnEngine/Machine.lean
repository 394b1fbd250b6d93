import BpmnEngine.Administration
import BpmnEngine.GuardedRuns

/-!
# The engine as a machine

One operation runs at a time. An operation may start a batch, a batch may start
another one inside a step (a called instance, a signal throw, a compensation throw),
and a batch whose instance has ended resumes the caller's instance in its place. The
machine makes the suspended parts explicit: a stack of interrupted batches, and a
driver that holds what the operation still has to do when its batch returns. Every
step of the machine is one step of a token or one return.
-/
namespace BpmnEngine

/-- The tokens of one instance that are run together. -/
structure Batch where
  instanceId : Uuid
  queue : List Token
  stepCount : Nat
  deriving DecidableEq

/-- A batch that waits for another one to return. The thrown token is not in the queue of its
batch. -/
inductive Suspension where
  | signalThrow (batch : Batch) (token : Token) (isEnd : Bool) (remaining : List Uuid)
  | compensation (batch : Batch) (token : Token) (activityRef : Option String) (isEnd : Bool)
      (handlerRan : Bool) (remaining : List CompensationRecord)
  | call (batch : Batch) (childId : Uuid)
  deriving DecidableEq

def Suspension.batch : Suspension → Batch
  | .signalThrow b .. => b
  | .compensation b .. => b
  | .call b _ => b

/-- The token whose step is interrupted. -/
def Suspension.thrown? : Suspension → Option Token
  | .signalThrow _ t .. => some t
  | .compensation _ t .. => some t
  | .call .. => none

inductive Control where
  | idle
  | running (batch : Batch)
  | returning (result : EngineResult Unit)
  deriving DecidableEq

/-- A message that is being correlated. -/
structure Correlation where
  messageName : String
  businessKey : Option String
  vars : Variables
  deriving DecidableEq

/-- What an operation still has to do. -/
inductive Driver where
  | finish
  | timers (rest : List Uuid)
  | timer (current : PendingTimer) (rearm : Bool) (rest : List Uuid)
  | messageCatches (message : Correlation) (rest : List Uuid)
  | messageStarts (message : Correlation) (started : Option Uuid) (rest : List Uuid)
  | signalCatches (signalName : String) (vars : Variables) (rest : List Uuid)
  | signalStarts (vars : Variables) (rest : List Uuid)
  deriving DecidableEq

/-- What the last operation answered. -/
inductive Reply where
  | result (result : EngineResult Unit)
  | tasks (tasks : List PendingServiceTask)
  deriving DecidableEq

/-- The state of the machine. The tasks that the in-process dispatcher has fetched and not yet
given to a handler are `dispatched`. -/
structure Config where
  engine : Engine
  control : Control
  stack : List Suspension
  driver : Driver
  dispatched : List PendingServiceTask
  reply : Reply

namespace Config

variable (env : Env)

def idle (e : Engine) : Config := ⟨e, .idle, [], .finish, [], .result (.ok ())⟩

def run (b : Batch) (c : Config) : Config := { c with control := .running b }

def returnWith (result : EngineResult Unit) (c : Config) : Config :=
  { c with control := .returning result }

def push (s : Suspension) (c : Config) : Config := { c with stack := s :: c.stack }

def exec {α : Type} (c : Config) (m : Eng α) (onError : EngineError → Config → Config)
    (k : α → Config → Config) : Config :=
  match Program.exec m c.engine with
  | (.ok a, e) => k a { c with engine := e }
  | (.error error, e) => onError error { c with engine := e }

def fail (error : EngineError) (c : Config) : Config := c.returnWith (.error error)

def failIn (b : Batch) (error : EngineError) (c : Config) : Config :=
  c.exec (Eng.failStep b.instanceId error) fail fun _ => fail error

def follow (next : Next) (c : Config) : Config :=
  match next with
  | .done => c.returnWith (.ok ())
  | .run instanceId tokens => c.run ⟨instanceId, tokens, 0⟩

/-! ## Batches -/

/-- Acts on the outcome of a step of a token that was at a node. -/
def act (b : Batch) (tokenId : Uuid) (node : String) (action : NextAction) (c : Config) : Config :=
  c.exec (Eng.handleNextAction env b.instanceId tokenId node b.queue action) fail fun
    | .proceed queue => run { b with queue := queue }
    | .call queue childId start => fun c =>
      (c.push (.call { b with queue := queue } childId)).run ⟨childId, [start], 0⟩

/-- One token makes a step. The queue of `b` holds the other tokens. -/
def stepToken (b : Batch) (token : Token) (c : Config) : Config :=
  c.exec (Eng.executeStep env b.instanceId token) (failIn b) fun
    | .action action => act env b token.id token.currentNode action
    | .throwSignal thrown signalName isEnd => fun c =>
      c.exec (Eng.signalCatches env signalName) (failIn b) fun catches c =>
        (c.push (.signalThrow b thrown isEnd catches)).returnWith (.ok ())
    | .compensate thrown activityRef isEnd handlers => fun c =>
      (c.push (.compensation b thrown activityRef isEnd false handlers)).returnWith (.ok ())

/-- The queue is empty: conditional events may fill it, or the batch is over. -/
def drain (b : Batch) (c : Config) : Config :=
  c.exec (Eng.fireConditionalCatches env b.instanceId) fail fun
    | [] => fun c => c.exec (Eng.finishBatch env b.instanceId) fail follow
    | fired => run { b with queue := fired }

def stepBatch (b : Batch) (c : Config) : Config :=
  match b.queue with
  | [] => drain env b c
  | token :: queue =>
    let b := { b with queue := queue, stepCount := b.stepCount + 1 }
    if maxExecutionSteps < b.stepCount then
      c.exec (Eng.exceedLimit b.instanceId) fail fun _ => run b
    else
      stepToken env b token c

/-! ## Returning to an interrupted batch -/

/-- The definition of the instance whose step is interrupted. -/
def resumeStep (b : Batch) (token : Token) (finish : ProcessDefinition → Eng NextAction)
    (c : Config) : Config :=
  c.exec (Eng.definitionOf b.instanceId >>= finish) (failIn b)
    fun action => act env b token.id token.currentNode action

/-- Serves the next catch of a signal, or ends the throw. -/
def resumeSignal (b : Batch) (token : Token) (isEnd : Bool) (remaining : List Uuid) (c : Config) :
    Config :=
  match remaining with
  | [] => resumeStep env b token
      (fun d => Eng.finishSignalThrow env b.instanceId token d token.currentNode isEnd) c
  | catchId :: rest =>
    c.exec (Eng.deliverSignal env token.vars catchId) (failIn b) fun next c =>
      follow next (c.push (.signalThrow b token isEnd rest))

/-- After a handler the token carries the variables of the instance. -/
def afterHandler (b : Batch) (token : Token) (handlerRan : Bool) (e : Engine) : Token :=
  match handlerRan, e.instances.find? b.instanceId with
  | true, some i => { token with vars := i.vars }
  | _, _ => token

/-- Runs the next compensation handler, or ends the throw. -/
def resumeCompensation (b : Batch) (token : Token) (activityRef : Option String) (isEnd : Bool)
    (handlerRan : Bool) (remaining : List CompensationRecord) (c : Config) : Config :=
  let token := afterHandler b token handlerRan c.engine
  match remaining with
  | [] => resumeStep env b token (fun d =>
    Eng.finishCompensation env b.instanceId token d token.currentNode activityRef isEnd) c
  | record :: rest =>
    c.exec (Eng.definitionOf b.instanceId) (failIn b) fun d c =>
      if d.nodes.contains record.handlerNodeId then
        c.exec (Eng.newToken record.handlerNodeId token.vars) (failIn b) fun start c =>
          (c.push (.compensation b token activityRef isEnd true rest)).run
            ⟨b.instanceId, [start], 0⟩
      else
        (c.push (.compensation b token activityRef isEnd false rest)).returnWith (.ok ())

/-- A call whose first batch failed ends the caller. -/
def abandonCall (b : Batch) (childId : Uuid) : Eng Unit := do
  Eng.modifyInstance b.instanceId fun i =>
    { i with outstandingCalls := i.outstandingCalls.erase childId }
  Eng.failCallActivity b.instanceId "CALL_ACTIVITY_SPAWN_FAILED"

/-- A batch has returned to the one it interrupted. -/
def unwind (s : Suspension) (result : EngineResult Unit) (c : Config) : Config :=
  match s, result with
  | .signalThrow b token isEnd remaining, .ok _ => resumeSignal env b token isEnd remaining c
  | .compensation b token activityRef isEnd handlerRan remaining, .ok _ =>
    resumeCompensation env b token activityRef isEnd handlerRan remaining c
  | .call b _, .ok _ => c.run b
  | .signalThrow b .., .error error | .compensation b .., .error error => failIn b error c
  | .call b childId, .error _ =>
    c.exec (abandonCall b childId) fail fun _ => run { b with queue := [] }

/-! ## Going on with an operation -/

def answer (reply : Reply) (c : Config) : Config :=
  { c with control := .idle, driver := .finish, reply := reply }

def resumeWith (driver : Driver) (c : Config) : Config :=
  { c with driver := driver, control := .returning (.ok ()) }

/-- Takes the next due timer out of its table and serves it. -/
def nextTimer (rest : List Uuid) (c : Config) : Config :=
  match rest with
  | [] => c.answer (.result (.ok ()))
  | id :: rest =>
    match c.engine.pendingTimers.find? id with
    | none => c.resumeWith (.timers rest)
    | some timer =>
      let c := { c with driver := .timer timer false rest }
      c.exec (do Eng.removePending .timer id; Eng.processExpiredTimer env timer) fail
        fun (next, rearm) c => follow next { c with driver := .timer timer rearm rest }

/-- The batch of a timer has returned. -/
def settleTimer (timer : PendingTimer) (rearm : Bool) (rest : List Uuid)
    (result : EngineResult Unit) (c : Config) : Config :=
  match result with
  | .ok _ =>
    if rearm then c.exec (Eng.rearmTimer env timer) fail fun _ => resumeWith (.timers rest)
    else c.resumeWith (.timers rest)
  | .error error =>
    c.exec (Eng.rescheduleFailedTimer timer error) fail fun _ => resumeWith (.timers rest)

def nextMessageCatch (message : Correlation) (rest : List Uuid) (c : Config) : Config :=
  match rest with
  | [] => c.exec (Eng.messageStarts env message.messageName) fail fun starts =>
    resumeWith (.messageStarts message none starts)
  | id :: rest =>
    c.exec (Eng.deliverMessage env message.vars id) fail fun next c =>
      follow next { c with driver := .messageCatches message rest }

def nextMessageStart (message : Correlation) (started : Option Uuid) (rest : List Uuid)
    (c : Config) : Config :=
  c.exec (started.toList.forM fun id => Eng.setBusinessKey id message.businessKey) fail fun _ c =>
    match rest with
    | [] => c.answer (.result (.ok ()))
    | key :: rest =>
      c.exec (Eng.startInstance env key message.vars none none false) fail
        fun (instanceId, token) c =>
          follow (.run instanceId [token])
            { c with driver := .messageStarts message (some instanceId) rest }

def nextSignalCatch (signalName : String) (vars : Variables) (rest : List Uuid) (c : Config) :
    Config :=
  match rest with
  | [] => c.exec (Eng.signalStarts env signalName) fail fun starts =>
    resumeWith (.signalStarts vars starts)
  | id :: rest =>
    c.exec (Eng.deliverSignal env vars id) fail fun next c =>
      follow next { c with driver := .signalCatches signalName vars rest }

def nextSignalStart (vars : Variables) (rest : List Uuid) (c : Config) : Config :=
  match rest with
  | [] => c.answer (.result (.ok ()))
  | key :: rest =>
    c.exec (Eng.startInstance env key vars none none true) fail fun (instanceId, token) c =>
      follow (.run instanceId [token]) { c with driver := .signalStarts vars rest }

/-- No batch is left: the operation goes on or answers. Only the timers survive a failure. -/
def drive (result : EngineResult Unit) (c : Config) : Config :=
  match c.driver, result with
  | .timer timer rearm rest, result => settleTimer env timer rearm rest result c
  | _, .error error => c.answer (.result (.error error))
  | .finish, .ok _ => c.answer (.result (.ok ()))
  | .timers rest, .ok _ => nextTimer env rest c
  | .messageCatches message rest, .ok _ => nextMessageCatch env message rest c
  | .messageStarts message started rest, .ok _ => nextMessageStart env message started rest c
  | .signalCatches signalName vars rest, .ok _ => nextSignalCatch env signalName vars rest c
  | .signalStarts vars rest, .ok _ => nextSignalStart env vars rest c

def internalStep (c : Config) : Option Config :=
  match c.control, c.stack with
  | .idle, _ => none
  | .running b, _ => some (stepBatch env b c)
  | .returning result, s :: rest => some (unwind env s result { c with stack := rest })
  | .returning result, [] => some (drive env result c)

end Config

/-! ## Operations -/

/-- The operations of the engine. -/
inductive Op where
  | deployDefinition (definition : ProcessDefinition)
  | deleteDefinition (key : Uuid) (cascade : Bool)
  | startInstance (key : Uuid) (vars : Variables)
  | startInstanceLatest (bpmnId : String) (vars : Variables)
  | triggerTimerStart (key : Uuid) (provided : Nat)
  | startTimerInstance (key : Uuid) (vars : Variables) (iteration : Nat)
  | completeUserTask (taskId : Uuid) (vars : Variables)
  | fetchAndLock (workerId : String) (maxTasks : Nat) (topics : List (String × Int))
  | completeServiceTask (taskId : Uuid) (workerId : String) (vars : Variables)
  | failServiceTask (taskId : Uuid) (workerId : String) (retries : Option Int)
      (errorMessage errorDetails : Option String) (retryAfter : Nat)
  | extendLock (taskId : Uuid) (workerId : String) (additional : Int)
  | handleBpmnError (taskId : Uuid) (workerId errorCode : String) (vars : Variables)
      (errorMessage : Option String)
  | retryIncident (taskId : Uuid) (retries : Option Int)
  | resolveIncident (taskId : Uuid) (vars : Variables)
  | dispatchHandlers (maxTasks : Nat)
  | startHandlerInvocation (permitted : Bool)
  | applyTaskOutcome (taskId : Uuid) (outcome : Eng.TaskOutcome)
  | endHandlerInvocation (taskId : Uuid)
  | registerTaskHandler (topic : String)
  | unregisterTaskHandler (topic : String)
  | processTimers
  | correlateMessage (message : Correlation)
  | correlateSignal (signalName : String) (vars : Variables)
  | updateInstanceVariables (instanceId : Uuid) (updates : Variables)
  | suspendInstance (instanceId : Uuid)
  | resumeInstance (instanceId : Uuid)
  | moveToken (instanceId : Uuid) (target : String) (vars : Variables) (cancelCurrent : Bool)
  | migrateInstance (instanceId target : Uuid) (mapping : Map String String)
  | resolveInstanceIncident (instanceId incidentId : Uuid) (resolvedBy : Option String)
  | deleteInstance (instanceId : Uuid)
  | tick (duration : Nat)

namespace Config

variable (env : Env)

/-- An operation that may end in a batch. -/
def operate (m : Eng Next) (c : Config) : Config := c.exec m fail follow

def operateUnit (m : Eng Unit) (c : Config) : Config :=
  c.exec m fail fun _ => Config.returnWith (.ok ())

/-- The dispatcher passes the next fetched task to its handler or gives it back. -/
def passDispatched (permitted : Bool) (c : Config) : Config :=
  match c.dispatched with
  | [] => c.returnWith (.ok ())
  | task :: rest =>
    operateUnit (Eng.startHandlerInvocation task permitted) { c with dispatched := rest }

/-- Begins an operation. -/
def begin (c : Config) : Op → Config
  | .deployDefinition d => c.operateUnit (Eng.deployDefinition d)
  | .deleteDefinition key cascade => c.operateUnit (Eng.deleteDefinition env key cascade)
  | .startInstance key vars => c.operate (Eng.startInstanceWithVariables env key vars)
  | .startInstanceLatest bpmnId vars => c.operate (Eng.startInstanceLatest env bpmnId vars)
  | .triggerTimerStart key provided => c.operate (Eng.triggerTimerStart env key provided)
  | .startTimerInstance key vars iteration =>
    c.operate (Eng.startTimerInstance env key vars iteration)
  | .completeUserTask taskId vars => c.operate (Eng.completeUserTask env taskId vars)
  | .fetchAndLock workerId maxTasks topics =>
    c.exec (Eng.fetchAndLock env workerId maxTasks topics .externalWorker) fail
      fun tasks => answer (.tasks tasks)
  | .completeServiceTask taskId workerId vars =>
    c.operate (Eng.completeServiceTask env taskId workerId vars)
  | .failServiceTask taskId workerId retries errorMessage errorDetails retryAfter =>
    c.operateUnit (Eng.failServiceTask taskId workerId retries errorMessage errorDetails retryAfter)
  | .extendLock taskId workerId additional =>
    c.operateUnit (Eng.extendLock taskId workerId additional)
  | .handleBpmnError taskId workerId errorCode vars errorMessage =>
    c.operate (Eng.handleBpmnError env taskId workerId errorCode vars errorMessage)
  | .retryIncident taskId retries => c.operateUnit (Eng.retryIncident taskId retries)
  | .resolveIncident taskId vars => c.operate (Eng.resolveIncident env taskId vars)
  | .dispatchHandlers maxTasks =>
    c.exec (Eng.fetchAndLockInProcess env maxTasks) fail fun tasks c =>
      answer (.tasks tasks) { c with dispatched := c.dispatched ++ tasks }
  | .startHandlerInvocation permitted => c.passDispatched permitted
  | .applyTaskOutcome taskId outcome =>
    if taskId ∈ c.engine.inProcessInflight then
      c.operate (Eng.applyTaskOutcome env taskId outcome)
    else c.returnWith (.ok ())
  | .endHandlerInvocation taskId => c.operateUnit (Eng.endHandlerInvocation taskId)
  | .registerTaskHandler topic => c.operateUnit (Eng.registerTaskHandler topic)
  | .unregisterTaskHandler topic => c.operateUnit (Eng.unregisterTaskHandler topic)
  | .processTimers => c.exec Eng.dueTimers fail fun due => resumeWith (.timers due)
  | .correlateMessage message =>
    c.exec (Eng.messageCatches env message.messageName message.businessKey) fail
      fun catches => resumeWith (.messageCatches message catches)
  | .correlateSignal signalName vars =>
    c.exec (Eng.signalCatches env signalName) fail
      fun catches => resumeWith (.signalCatches signalName vars catches)
  | .updateInstanceVariables instanceId updates =>
    c.operate (Eng.updateInstanceVariables env instanceId updates)
  | .suspendInstance instanceId => c.operateUnit (Eng.suspendInstance instanceId)
  | .resumeInstance instanceId => c.operateUnit (Eng.resumeInstance instanceId)
  | .moveToken instanceId target vars cancelCurrent =>
    c.operate (Eng.moveToken instanceId target vars cancelCurrent)
  | .migrateInstance instanceId target mapping =>
    c.operateUnit (Eng.migrateInstance env instanceId target mapping)
  | .resolveInstanceIncident instanceId incidentId resolvedBy =>
    c.operateUnit (Eng.resolveInstanceIncident instanceId incidentId resolvedBy)
  | .deleteInstance instanceId => c.operateUnit (Eng.deleteInstance instanceId)
  | .tick duration =>
    c.operateUnit (modify fun e => { e with clock := e.clock + duration })

end Config

/-- A step of the machine: an internal one, or the begin of an operation when none runs. -/
inductive Move where
  | internal
  | op (op : Op)

namespace Config

variable {fuel : Nat}

def step (env : Env) (c : Config) : Move → Option Config
  | .internal => c.internalStep env
  | .op op => if c.control = .idle then some (c.begin env op) else none

def initial (clock : Time) : Config := idle (Engine.new clock)

/-! ## Whole operations -/

variable (env : Env)

/-- Makes internal steps until the machine is idle, at most as many as the fuel says. -/
def settle : Nat → Config → Option Config
  | 0, c => if c.control = .idle then some c else none
  | fuel + 1, c =>
    match c.internalStep env with
    | none => some c
    | some c => settle fuel c

/-- Performs operations one after another, each to its end. -/
def performAll (fuel : Nat) : Config → List Op → Option Config
  | c, [] => some c
  | c, op :: rest => (settle env fuel (c.begin env op)).bind fun c => performAll fuel c rest

variable {env} {c c' : Config}

theorem internalStep_eq_none_iff : c.internalStep env = none ↔ c.control = .idle := by
  unfold internalStep
  cases c.control with
  | idle => simp
  | running => simp
  | returning => cases c.stack <;> simp

theorem settle_reaches (h : settle env fuel c = some c') :
    Reaches (step env) (fun _ _ => True) c c' ∧ c'.control = .idle := by
  induction fuel generalizing c with
  | zero =>
    obtain ⟨hidle, rfl⟩ : c.control = .idle ∧ c = c' := by simpa [settle] using h
    exact ⟨.start, hidle⟩
  | succ fuel ih =>
    rw [settle] at h
    split at h
    case h_1 hnone =>
      cases h
      exact ⟨.start, internalStep_eq_none_iff.mp hnone⟩
    case h_2 d hd =>
      obtain ⟨hreach, hidle⟩ := ih h
      have hstep : step env c .internal = some d := hd
      exact ⟨(Reaches.next .start trivial hstep).trans hreach, hidle⟩

/-- Whole operations are runs of the machine. -/
theorem performAll_reaches {ops : List Op} (hidle : c.control = .idle)
    (h : performAll env fuel c ops = some c') :
    Reaches (step env) (fun _ _ => True) c c' ∧ c'.control = .idle := by
  induction ops generalizing c with
  | nil =>
    cases h
    exact ⟨.start, hidle⟩
  | cons op rest ih =>
    obtain ⟨d, hd, hrest⟩ := Option.bind_eq_some_iff.mp h
    obtain ⟨hsettle, hdidle⟩ := settle_reaches hd
    obtain ⟨hreach, hcidle⟩ := ih hdidle hrest
    have hstep : step env c (.op op) = some (c.begin env op) := by simp [step, hidle]
    exact ⟨((Reaches.next .start trivial hstep).trans hsettle).trans hreach, hcidle⟩

theorem exists_of_performAll {ops : List Op} {clock : Time} {α : Type} {facts : Config → α} {a : α}
    (h : (performAll env fuel (.initial clock) ops).map facts = some a) :
    ∃ c, Reaches (step env) (fun _ _ => True) (.initial clock) c ∧ c.control = .idle ∧
      facts c = a := by
  obtain ⟨c, hc, hfacts⟩ := Option.map_eq_some_iff.mp h
  obtain ⟨hreach, hidle⟩ := performAll_reaches rfl hc
  exact ⟨c, hreach, hidle, hfacts⟩

end Config

end BpmnEngine
