import BpmnEngine.EngineMoves
import BpmnEngine.EventFootprints
import BpmnEngine.Machine

/-!
# For whom a step of the machine works

From the state before a step one can tell for which instances the step works: the
instance of the running or resumed batch, the caller that an ended instance returns to,
and the instance whose wait is served. Every other instance is left alone, and no token
of it starts to run.
-/
namespace BpmnEngine

open Program Eng Effects

namespace Engine

/-- The instance takes up the call of an instance that has ended. -/
def Resumes (e : Engine) (child i : Uuid) : Prop :=
  ∃ x y, e.instances.find? child = some x ∧ x.state.isTerminal = true ∧
    x.parentInstanceId = some i ∧ e.instances.find? i = some y ∧
    (endedCall y child).isSome = true

end Engine

def PendingTimer.recurs (t : PendingTimer) : Bool :=
  t.timerDef.any TimerDefinition.isRecurring &&
    !(t.remainingRepetitions == some 0 || t.remainingRepetitions == some 1)

namespace Config

def Carries (c : Config) (x : Uuid) : Prop :=
  (∃ b, c.control = .running b ∧ b.instanceId = x ∧ b.queue ≠ []) ∨
    ∃ s ∈ c.stack, s.batch.instanceId = x ∧ (s.batch.queue ≠ [] ∨ s.thrown?.isSome = true)

def Opens (c : Config) (x : Uuid) : Prop :=
  (∃ b, c.control = .running b ∧ b.instanceId = x) ∨ ∃ s ∈ c.stack, s.batch.instanceId = x

variable {r : EngineResult Unit}

theorem opens_returnWith {c : Config} {e : Engine} {x : Uuid}
    (h : (returnWith r { c with engine := e }).Opens x) : c.Opens x :=
  .inr (h.resolve_left fun ⟨_, hb, _⟩ => by cases hb)

def ServesTimer (c : Config) (x : Uuid) : Prop :=
  ∃ t rearm rest, c.driver = .timer t rearm rest ∧ t.instanceId = x

/-- The instances that a running batch works for. -/
def ActingBatch (c : Config) (b : Batch) (i : Uuid) : Prop :=
  if b.queue = [] then
    (i = b.instanceId ∧ ∃ id, c.engine.HasWait i .conditional id) ∨ c.engine.Resumes b.instanceId i
  else i = b.instanceId

/-- The instances that a return to an interrupted batch works for. -/
def ActingReturn (c : Config) : Suspension → EngineResult Unit → Uuid → Prop
  | .call .., .ok _, _ => False
  | .signalThrow b _ _ (id :: _), .ok _, i => i = b.instanceId ∨ c.engine.HasWait i .signal id
  | s, _, i => i = s.batch.instanceId

/-- The instances that the next part of an operation works for. -/
def ActingDriver (c : Config) : Driver → EngineResult Unit → Uuid → Prop
  | .timer t rearm _, .ok _, i => rearm = true ∧ t.recurs = true ∧ i = t.instanceId
  | .timer t _ _, .error _, i => i = t.instanceId
  | .timers (id :: _), .ok _, i => c.engine.HasWait i .timer id
  | .messageCatches _ (id :: _), .ok _, i => c.engine.HasWait i .message id
  | .signalCatches _ _ (id :: _), .ok _, i => c.engine.HasWait i .signal id
  | _, _, _ => False

/-- The instances that the next internal step works for. -/
def Acting (c : Config) (i : Uuid) : Prop :=
  match c.control, c.stack with
  | .idle, _ => False
  | .running b, _ => c.ActingBatch b i
  | .returning result, s :: _ => c.ActingReturn s result i
  | .returning result, [] => c.ActingDriver c.driver result i

/-- The identifier of a timer that is being served is still its own. -/
structure TimerOk (e : Engine) (t : PendingTimer) : Prop where
  drawn : t.id < e.nextUuid
  waits : ∀ w ∈ e.waits, w.kind = .timer → w.id = t.id → w.instanceId = t.instanceId
  subscriptions : ∀ i, e.Subscribed i t.id → i = t.instanceId

def DriverOk (c : Config) : Prop :=
  ∀ t rearm rest, c.driver = .timer t rearm rest → TimerOk c.engine t

/-- What every step of the machine relies on. -/
structure Ok (c : Config) : Prop where
  sound : c.engine.Sound
  driver : c.DriverOk

/-- The machine has come from one configuration to another by work for the instances in `A`. -/
structure Steps (A : Uuid → Prop) (c c' : Config) : Prop where
  moves : Moves A c.engine c'.engine
  carries : ∀ x, c'.Carries x → c.Carries x ∨ A x
  opens : ∀ x, c'.Opens x → c.Opens x ∨ A x
  driver : c'.DriverOk
  serves : ∀ x, c'.ServesTimer x → c.ServesTimer x ∨ A x

/-! ## How the parts of a step compose -/

section Compose

variable {env : Env} {A : Uuid → Prop} {c₀ c c' : Config} {i tokenId q : Uuid} {p : Powers}
  {e t : Engine} {rest : List Uuid} {α : Type} {token : Token} {timer : PendingTimer}
  {node : String} {r result : EngineResult Unit} {onError : EngineError → Config → Config}
  {s : Suspension} {action : NextAction} {isEnd : Bool} {message : Correlation} {vars : Variables}
  {k : α → Config → Config}

theorem exec_rule {P : Config → Prop} {m : Eng α}
    (herror : ∀ error e, Program.exec m c.engine = (.error error, e) →
      P (onError error { c with engine := e }))
    (hok : ∀ a e, Program.exec m c.engine = (.ok a, e) → P (k a { c with engine := e })) :
    P (c.exec m onError k) := by
  unfold exec
  rcases hx : Program.exec m c.engine with ⟨error | a, e⟩
  · exact herror error e hx
  · exact hok a e hx

theorem exec_of_ok {m : Eng α} {a : α} (hx : Program.exec m c.engine = (.ok a, e)) :
    c.exec m onError k = k a { c with engine := e } := by
  rw [exec, hx]

theorem TimerOk.filedFrom {e' : Engine} {t : PendingTimer} (h : TimerOk e t) (hf : FiledFrom e e') :
    TimerOk e' t where
  drawn := lt_of_lt_of_le h.drawn hf.nextUuid_le
  waits w hw hkind hid := by
    rcases hf.waits w hw with ⟨v, hv, hvkind, hvid, hvi⟩ | hnew
    · exact hvi ▸ h.waits v hv (hvkind.trans hkind) (hvid.trans hid)
    · exact absurd h.drawn (not_lt_of_ge (hid ▸ hnew))
  subscriptions i hs := by
    rcases hf.subscriptions i t.id hs with hs | hnew
    · exact h.subscriptions i hs
    · exact absurd h.drawn (not_lt_of_ge hnew)

namespace Steps

variable {d : Driver}

theorem refl (h : c.Ok) : Steps A c c :=
  ⟨.refl h.sound, fun _ => .inl, fun _ => .inl, h.driver, fun _ => .inl⟩

theorem engine (h : Steps A c₀ c) (hm : Moves A c.engine e) (hf : FiledFrom c.engine e) :
    Steps A c₀ { c with engine := e } :=
  { h with
    moves := h.moves.trans hm
    driver := fun t rearm rest ht => (h.driver t rearm rest ht).filedFrom hf }

theorem work (h : Steps A c₀ c) (hi : A i) (hw : Works p i c.engine e) :
    Steps A c₀ { c with engine := e } :=
  h.engine (hw.moves h.moves.sound hi) (hw.hosts le_rfl).filedFrom

/-- A program in the place of a step, which makes only steps and says what it returns. -/
theorem perform {m : Eng α} {Q : Engine → α → Prop} {k : α → Config → Config}
    (hm : ∀ r e, Program.exec m c.engine = (r, e) →
      Steps A c₀ { c with engine := e } ∧ ∀ a, r = .ok a → Q e a)
    (herror : ∀ error {c'}, Steps A c₀ c' → Steps A c₀ (onError error c'))
    (hok : ∀ a e, Steps A c₀ { c with engine := e } → Q e a →
      Steps A c₀ (k a { c with engine := e })) : Steps A c₀ (c.exec m onError k) := by
  refine exec_rule (fun error e hx => ?_) fun a e hx => ?_
  · exact herror error (hm _ e hx).1
  · exact hok a e (hm _ e hx).1 ((hm _ e hx).2 a rfl)

theorem obey {m : Eng α} {Q : Uuid → α → Prop} (h : Steps A c₀ c) (hi : A i)
    (hm : Obeys (Effects.working c.engine i p) c.engine.nextUuid m Q)
    (herror : ∀ error {c'}, Steps A c₀ c' → Steps A c₀ (onError error c'))
    (hok : ∀ a e, Steps A c₀ { c with engine := e } → Q e.nextUuid a →
      Steps A c₀ (k a { c with engine := e })) : Steps A c₀ (c.exec m onError k) :=
  .perform (fun _ _ hx => (hm.works Works.refl hx).imp_left (h.work hi)) herror hok

section Fresh

variable (hfresh : ∀ id, c₀.engine.nextUuid ≤ id → A id)

include hfresh

theorem host (h : Steps A c₀ c) (hi : A i) (hp : ¬p.files) {j : Uuid}
    (hw : Hosts p i j c.engine e) : Steps A c₀ { c with engine := e } ∧ A j := by
  have hj := hfresh j (h.moves.nextUuid_le.trans hw.1)
  exact ⟨h.engine (hw.moves hp h.moves.sound hi hj) hw.filedFrom, hj⟩

/-- A served wait has been worked for, and what runs next belongs to `A`. -/
theorem served {next : α → Next} {r : EngineResult α} (h : Steps A c₀ c) (hq : A q)
    (hs : Served next q c.engine e r) :
    Steps A c₀ { c with engine := e } ∧ ∀ a, r = .ok a → ∃ j, A j ∧ (next a).Runs j := by
  cases hs with
  | works hw hr => exact ⟨h.work hq hw, fun a ha => ⟨q, hq, hr a ha⟩⟩
  | hosts j hw hr =>
    obtain ⟨hsteps, hj⟩ := h.host hfresh hq (fun h => h) hw
    exact ⟨hsteps, fun a ha => ⟨j, hj, hr a ha⟩⟩

theorem delivered {r : EngineResult Next} {kind : WaitKind} {id : Uuid} (h : Steps A c₀ c)
    (hA : ∀ q, c.engine.HasWait q kind id → A q)
    (hs : (e = c.engine ∧ ∀ next, r = .ok next → next = .done) ∨
      ∃ q, c.engine.HasWait q kind id ∧ Served (fun next => next) q c.engine e r) :
    Steps A c₀ { c with engine := e } ∧ ∀ next, r = .ok next → ∃ j, A j ∧ next.Runs j := by
  rcases hs with ⟨rfl, hdone⟩ | ⟨q, hq, hs⟩
  · refine ⟨h, fun next hr => ⟨_, hfresh _ le_rfl, ?_⟩⟩
    rw [hdone next hr]
    trivial
  · exact h.served hfresh (hA q hq) hs

end Fresh

section

variable (h : Steps A c₀ c)

include h

/-- A suspended batch is as it was, or works for an instance in `A`. -/
theorem restack {stack : List Suspension}
    (hstack : ∀ s ∈ stack, s ∈ c.stack ∨ A s.batch.instanceId) :
    Steps A c₀ { c with stack := stack } := by
  refine { h with carries := fun x hx => ?_, opens := fun x hx => ?_ }
  · rcases hx with hx | ⟨s, hs, rfl, hq⟩
    · exact h.carries x (.inl hx)
    · exact (hstack s hs).elim (fun hs => h.carries _ (.inr ⟨s, hs, rfl, hq⟩)) .inr
  · rcases hx with hx | ⟨s, hs, rfl⟩
    · exact h.opens x (.inl hx)
    · exact (hstack s hs).elim (fun hs => h.opens _ (.inr ⟨s, hs, rfl⟩)) .inr

theorem stop {control : Control} (hcontrol : ∀ b, control ≠ .running b) :
    Steps A c₀ { c with control := control } := by
  refine { h with carries := fun x hx => ?_, opens := fun x hx => ?_ }
  · exact h.carries x (.inr (hx.resolve_left fun ⟨b, hb, _⟩ => hcontrol b hb))
  · exact h.opens x (.inr (hx.resolve_left fun ⟨b, hb, _⟩ => hcontrol b hb))

theorem returnWith (r : EngineResult Unit) : Steps A c₀ (c.returnWith r) :=
  h.stop nofun

theorem resume {b : Batch} (hopen : c₀.Opens b.instanceId ∨ A b.instanceId)
    (hcarry : b.queue ≠ [] → c₀.Carries b.instanceId ∨ A b.instanceId) : Steps A c₀ (c.run b) := by
  refine { h with carries := fun x hx => ?_, opens := fun x hx => ?_ }
  · rcases hx with ⟨b', hb', rfl, hq⟩ | hx
    · cases hb'
      exact hcarry hq
    · exact h.carries x (.inr hx)
  · rcases hx with ⟨b', hb', rfl⟩ | hx
    · cases hb'
      exact hopen
    · exact h.opens x (.inr hx)

theorem run {b : Batch} (hb : A b.instanceId) : Steps A c₀ (c.run b) :=
  h.resume (.inr hb) fun _ => .inr hb

theorem push (hs : A s.batch.instanceId) : Steps A c₀ (c.push s) := by
  refine h.restack fun s' hs' => ?_
  rcases List.mem_cons.mp hs' with rfl | hs'
  · exact .inr hs
  · exact .inl hs'

theorem follow {next : Next} (hi : A i) (hn : next.Runs i) : Steps A c₀ (c.follow next) := by
  cases next with
  | done => exact h.returnWith _
  | run => exact h.run (hn ▸ hi)

theorem withDriver
    (hd : ∀ t rearm rest, d = .timer t rearm rest → TimerOk c.engine t ∧ A t.instanceId) :
    Steps A c₀ { c with driver := d } :=
  { h with
    driver := fun t rearm rest ht => (hd t rearm rest ht).1
    serves := fun _ ⟨t, rearm, rest, ht, hx⟩ => .inr (hx ▸ (hd t rearm rest ht).2) }

theorem fail (error : EngineError) : Steps A c₀ (Config.fail error c) :=
  h.returnWith _

theorem resumeWith
    (hd : ∀ t rearm rest, d = .timer t rearm rest → TimerOk c.engine t ∧ A t.instanceId) :
    Steps A c₀ (c.resumeWith d) :=
  (h.withDriver hd).stop nofun

theorem answer (reply : Reply) : Steps A c₀ (c.answer reply) :=
  have hidle : Steps A c₀ { c with driver := .finish, control := .idle } :=
    (h.withDriver (d := .finish) nofun).stop fun _ => nofun
  ⟨hidle.moves, hidle.carries, hidle.opens, hidle.driver, hidle.serves⟩

end

end Steps

def stepPowers : Powers := ⟨True, False, True, True⟩

variable {b : Batch}

theorem failIn_steps (h : Steps A c₀ c) (hb : A b.instanceId) (error : EngineError) :
    Steps A c₀ (failIn b error c) := by
  refine h.obey (p := stepPowers) (Q := fun _ _ => True) hb ?_ (fun _ _ h => h.fail _)
    fun _ _ h _ => h.fail _
  unfold failStep
  split
  · exact markEnded_stays rfl (working_ends trivial) _
  · exact Stays.pure _

section Fresh

variable (hfresh : ∀ id, c₀.engine.nextUuid ≤ id → A id)

include hfresh

theorem callStep_steps (h : Steps A c₀ c) (hb : A b.instanceId) {called : String} :
    Steps A c₀ (act env b tokenId node (.waitForCallActivity called token) c) := by
  cases hcaller : c.engine.instances.find? b.instanceId with
  | none =>
    obtain ⟨e₁, code, hdrawn, hexec⟩ := @exec_onWaitForCallActivity_none env b.instanceId
      b.queue c.engine hcaller called token
    have hstart : Works stepPowers b.instanceId c.engine e₁ := by
      rcases hdrawn with rfl | rfl
      · exact Works.refl
      · exact Works.refl.touch .draw
    have hobeys : Obeys (Effects.working c.engine b.instanceId stepPowers) c.engine.nextUuid (do
        failCallActivity b.instanceId code
        return ActionOutcome.proceed []) fun _ out => out.Proceeds :=
      .after (failCallActivity_stays rfl (working_ends trivial) code)
        fun _ _ _ => .pure fun _ _ => trivial
    refine .perform (fun r t hx => (hobeys.works hstart (hexec.symm.trans hx)).imp_left
      (h.work hb)) (fun _ _ h => h.fail _) fun out t ht hout => ?_
    cases out with
    | proceed => exact ht.run hb
    | call => exact hout.elim
  | some caller =>
    have hlt := h.moves.sound.drawn.instances b.instanceId caller hcaller
    refine .perform (Q := fun _ out => ∃ j, A j ∧ out.Calls j)
      (fun r t hx => ?_) (fun _ _ h => h.fail _) fun out t hsteps hout => ?_
    · obtain ⟨j, hj, hout⟩ := Founds.hosts (p := ⟨False, True, True, False⟩)
        (onWaitForCallActivity_founds rfl (working_calls trivial) (working_ends trivial) hlt _ _)
        Works.refl hx
      obtain ⟨hsteps, hAj⟩ := h.host hfresh hb (fun h => h) hj
      exact ⟨hsteps, fun out hr => ⟨j, hAj, hout out hr⟩⟩
    · cases out with
      | proceed => exact hsteps.run hb
      | call queue childId =>
        obtain ⟨_, hAj, rfl⟩ := hout
        exact (hsteps.push (s := .call { b with queue := queue } childId) hb).run hAj

omit hfresh in
theorem handleNextAction_works {e₀ : Engine} {queue : List Token} {r : EngineResult ActionOutcome}
    (hw : Works stepPowers i e₀ e) (hfits : action.Fits i e₀.nextUuid e.nextUuid)
    (hcall : action.isCall = false)
    (hx : Program.exec (handleNextAction env i tokenId node queue action) e = (r, t)) :
    Works stepPowers i e₀ t ∧ ∀ out, r = .ok out → out.Proceeds := by
  have hstart : Within (Effects.working e₀ i stepPowers) e.nextUuid e₀ e :=
    ⟨le_rfl, hw.known, hw.touches⟩
  obtain ⟨ht, hout⟩ := Obeys.works (handleNextAction_obeys (working_governs trivial)
    (fun q hq => (working_files trivial le_rfl).mayFile (hfits q hq)) hcall
    fun _ => working_ends trivial) hstart hx
  exact ⟨ht.mono hw.drawn, hout⟩

theorem act_steps (h : Steps A c₀ c) (hb : A b.instanceId)
    (hw : Works stepPowers b.instanceId c.engine e)
    (hfits : action.Fits b.instanceId c.engine.nextUuid e.nextUuid) :
    Steps A c₀ (act env b tokenId node action { c with engine := e }) := by
  cases hcall : action.isCall with
  | false =>
    refine .perform (fun r t hx => (handleNextAction_works hw hfits hcall hx).imp_left
      (h.work hb)) (fun _ _ h => h.fail _) fun out t ht hout => ?_
    cases out with
    | proceed => exact ht.run hb
    | call => exact hout.elim
  | true =>
    cases action with
    | waitForCallActivity => exact callStep_steps hfresh (h.work hb hw) hb
    | _ => cases hcall

omit hfresh in
theorem executeStep_works {r : EngineResult StepOutcome}
    (hx : Program.exec (Eng.executeStep env i token) e = (r, t)) :
    Works stepPowers i e t ∧ ∀ out, r = .ok out → out.Fits i e.nextUuid t.nextUuid :=
  Obeys.works (executeStep_obeys (working_governs trivial) (working_files trivial le_rfl))
    Works.refl hx

theorem stepToken_steps (h : Steps A c₀ c) (hb : A b.instanceId) (token : Token) :
    Steps A c₀ (stepToken env b token c) := by
  refine exec_rule (fun error e hx => ?_) fun out e hx => ?_
  · exact failIn_steps (h.work hb (executeStep_works hx).1) hb error
  obtain ⟨hw, hfits⟩ := executeStep_works hx
  cases out with
  | action => exact act_steps hfresh h hb hw (hfits _ rfl)
  | throwSignal thrown name isEnd =>
    have hstart := h.work hb hw
    refine exec_rule (fun error t hx => ?_) fun catches t hx => ?_
    · cases hx
    · cases hx
      exact (hstart.push (s := .signalThrow b thrown isEnd _) hb).returnWith _
  | compensate thrown ref isEnd handlers =>
    exact ((h.work hb hw).push (s := .compensation b thrown ref isEnd false handlers)
      hb).returnWith _

end Fresh

/-- Conditional events are evaluated for the instance; without any of them nothing happens. -/
theorem fireConditionalCatches_works (hd : e.Drawn) {r : EngineResult (List Token)}
    (hx : Program.exec (fireConditionalCatches env i) e = (r, t)) :
    Works ⟨True, False, False, False⟩ i e t ∧
      ((∀ id, ¬e.HasWait i .conditional id) → r = .ok [] ∧ t = e) := by
  unfold fireConditionalCatches at hx
  rw [exec_bind_ok (exec_get e)] at hx
  have hcatch : ∀ c ∈ env.visit e.nextUuid
      (e.pendingConditionalCatches.retain fun c => c.instanceId == i).entries,
      e.HasWait i .conditional c.id := by
    intro c hc
    have hmem := Table.mem_retain.mp ((Env.mem_visit ..).mp hc)
    have hi : c.instanceId = i := by simpa using hmem.2
    exact ⟨c.wait, Engine.Holds.mem_waits (p := .conditional c) hmem.1, rfl, rfl, hi⟩
  have hnone : (∀ id, ¬e.HasWait i .conditional id) → env.visit e.nextUuid
      (e.pendingConditionalCatches.retain fun c => c.instanceId == i).entries = [] := by
    intro hno
    exact List.eq_nil_iff_forall_not_mem.mpr fun c hc => hno _ (hcatch c hc)
  dsimp only at hx
  split at hx
  · cases hx
    exact ⟨Works.refl, fun _ => ⟨rfl, rfl⟩⟩
  · cases hx
    exact ⟨Works.refl, fun _ => ⟨rfl, rfl⟩⟩
  case h_3 x hfound hnil =>
    refine ⟨?_, fun hno => (hnil (hnone hno)).elim⟩
    split at hx
    · cases hx
      exact Works.refl
    · split at hx
      · cases hx
        exact Works.refl
      · have hhandles := fun c hc => working_handles (p := ⟨True, False, False, False⟩)
          trivial hd (hcatch c hc)
        exact (Obeys.works (evaluateCatches_stays rfl hhandles) Works.refl hx).1

/-- The end of a batch works for the caller of an instance that has ended, if it takes the call
up. -/
theorem finishBatch_works {r : EngineResult Next}
    (hx : Program.exec (finishBatch env i) e = (r, t)) :
    (t = e ∧ ∀ next, r = .ok next → next = .done) ∨
      ∃ q, e.Resumes i q ∧ Works ⟨False, False, True, True⟩ q e t ∧
        ∀ next, r = .ok next → next.Runs q := by
  have hresume : ∀ code, (∃ x, e.instances.find? i = some x ∧ x.state.isTerminal = true) →
      Program.exec (resumeParentIfNeeded env i code) e = (r, t) →
      (t = e ∧ ∀ next, r = .ok next → next = .done) ∨
        ∃ q, e.Resumes i q ∧ Works ⟨False, False, True, True⟩ q e t ∧
          ∀ next, r = .ok next → next.Runs q := by
    rintro code ⟨x, hfound, hend⟩ hx
    rw [resumeParentIfNeeded, exec_bind_ok (exec_getInstance hfound)] at hx
    cases hparent : x.parentInstanceId with
    | none =>
      rw [hparent] at hx
      cases hx
      exact .inl ⟨rfl, fun _ h => by cases h; rfl⟩
    | some q =>
      rw [hparent] at hx
      replace hx : Program.exec (resumeCaller env q i x.vars code) e = (r, t) := hx
      have hworks := Obeys.works (p := ⟨False, False, True, True⟩)
        (resumeCaller_obeys (working_governs trivial) (working_ends trivial) i x.vars code)
        Works.refl hx
      cases hq : e.instances.find? q with
      | none =>
        rw [resumeCaller, exec_bind_error (exec_getInstance_none hq)] at hx
        cases hx
        exact .inl ⟨rfl, fun _ h => by cases h⟩
      | some y =>
        cases hcall : endedCall y i with
        | none =>
          rw [resumeCaller, exec_bind_ok (exec_getInstance hq)] at hx
          simp only [hcall] at hx
          cases hx
          exact .inl ⟨rfl, fun _ h => by cases h; rfl⟩
        | some => exact .inr ⟨q, ⟨x, y, hfound, hend, hparent, hq, by rw [hcall]; rfl⟩, hworks⟩
  rw [finishBatch, exec_bind_ok (exec_findInstance e i)] at hx
  cases hfound : e.instances.find? i with
  | none =>
    rw [hfound] at hx
    cases hx
    exact .inl ⟨rfl, fun _ h => by cases h; rfl⟩
  | some x =>
    rw [hfound] at hx
    dsimp only [Option.map_some] at hx
    split at hx
    case h_1 hstate =>
      refine hresume none ⟨x, hfound, ?_⟩ hx
      rw [Option.some.inj hstate]
      rfl
    case h_2 code hstate =>
      refine hresume (some code) ⟨x, hfound, ?_⟩ hx
      rw [Option.some.inj hstate]
      rfl
    · cases hx
      exact .inl ⟨rfl, fun _ h => by cases h; rfl⟩

/-- Work without power over a scope does not change who resumes whom. -/
theorem resumes_of_works (h : Works p i e t) (hs : e.Sound) (he : ¬p.ends) (hp : ¬p.scope)
    (hr : t.Resumes i q) : q = i ∨ e.Resumes i q := by
  obtain ⟨x, y, hx, hend, hparent, hy, hcall⟩ := hr
  by_cases hqi : q = i
  · exact .inl hqi
  refine .inr ?_
  cases hx₀ : e.instances.find? i with
  | none =>
    rw [h.absent hx₀] at hx
    cases hx
  | some x₀ =>
    obtain ⟨x', hx', hkept⟩ := h.kept (hs.drawn.instances i x₀ hx₀) hx₀
    obtain rfl : x = x' := Option.some.inj (hx.symm.trans hx')
    have hstate := hkept.state he hp (.inl hend)
    have hy₀ : e.instances.find? q = some y := by
      cases h.fate hqi with
      | same hsame => exact hsame.symm.trans hy
      | interrupted _ hscope => exact absurd hscope hp
    exact ⟨x₀, y, hx₀, hstate ▸ hend, hkept.parent ▸ hparent, hy₀, hcall⟩

theorem finish_steps (h : Steps A c₀ c) (hr : ∀ q, c.engine.Resumes b.instanceId q → A q) :
    Steps A c₀ (c.exec (finishBatch env b.instanceId) Config.fail Config.follow) := by
  refine .perform (Q := fun _ next => next = .done ∨ ∃ q, A q ∧ next.Runs q)
    (fun r e hx => ?_) (fun _ _ h => h.fail _) fun next e h hnext => ?_
  · rcases finishBatch_works hx with ⟨rfl, hdone⟩ | ⟨q, hq, hw, hruns⟩
    · exact ⟨h, fun next hr => .inl (hdone next hr)⟩
    · exact ⟨h.work (hr q hq) hw, fun next h => .inr ⟨q, hr q hq, hruns next h⟩⟩
  · rcases hnext with rfl | ⟨q, hq, hruns⟩
    · exact h.returnWith _
    · exact h.follow hq hruns

theorem drain_steps (h : Steps A c₀ c)
    (hwait : ∀ id, c.engine.HasWait b.instanceId .conditional id → A b.instanceId)
    (hr : ∀ q, c.engine.Resumes b.instanceId q → A q) : Steps A c₀ (drain env b c) := by
  have hs := h.moves.sound
  by_cases hno : ∀ id, ¬c.engine.HasWait b.instanceId .conditional id
  · refine exec_rule (fun error e hx => ?_) fun fired e hx => ?_
    · cases ((fireConditionalCatches_works hs.drawn hx).2 hno).1
    · obtain ⟨hfired, rfl⟩ := (fireConditionalCatches_works hs.drawn hx).2 hno
      cases hfired
      exact finish_steps h hr
  · obtain ⟨id, hid⟩ := not_forall.mp hno
    have hb := hwait id (not_not.mp hid)
    refine exec_rule (fun error e hx => ?_) fun fired e hx => ?_
    · exact (h.work hb (fireConditionalCatches_works hs.drawn hx).1).fail _
    · have hw := (fireConditionalCatches_works hs.drawn hx).1
      have hsteps := h.work hb hw
      cases fired with
      | nil =>
        refine finish_steps hsteps fun q hq => ?_
        rcases resumes_of_works hw hs (fun h => h) (fun h => h) hq with rfl | hq
        · exact hb
        · exact hr q hq
      | cons => exact hsteps.run hb

section Fresh

variable (hfresh : ∀ id, c₀.engine.nextUuid ≤ id → A id)

include hfresh

section

variable (h : Steps A c₀ c)

include h

theorem stepBatch_steps (hA : ∀ q, c.ActingBatch b q → A q) : Steps A c₀ (stepBatch env b c) := by
  unfold stepBatch
  split
  case h_1 hq =>
    have hact : ∀ q, (q = b.instanceId ∧ ∃ id, c.engine.HasWait q .conditional id) ∨
        c.engine.Resumes b.instanceId q → A q := fun q h => hA q (by rwa [ActingBatch, if_pos hq])
    exact drain_steps h (fun id hid => hact _ (.inl ⟨rfl, id, hid⟩)) fun q h => hact q (.inr h)
  case h_2 token queue hq =>
    have hb : A b.instanceId := hA _ (by rw [ActingBatch, if_neg (by simp [hq])])
    dsimp only
    split
    · exact h.obey (p := stepPowers) (Q := fun _ _ => True) hb
        (Stays.bind (markEnded_stays rfl (working_ends trivial) _) fun _ _ _ => .throw _)
        (fun _ _ h => h.fail _) fun _ _ h _ => h.run hb
    · exact stepToken_steps (b := { b with queue := queue, stepCount := b.stepCount + 1 })
        hfresh h hb token

/-! ## Returning to an interrupted batch -/

theorem resumeStep_steps (hb : A b.instanceId) {finish : ProcessDefinition → Eng NextAction}
    (hfinish : ∀ d n, Obeys (Effects.working c.engine b.instanceId stepPowers) n (finish d)
      fun _ a => a.isQuiet) :
    Steps A c₀ (resumeStep env b token finish c) := by
  have hobeys : Obeys (Effects.working c.engine b.instanceId stepPowers) c.engine.nextUuid
      (Eng.definitionOf b.instanceId >>= finish) fun k a =>
        a.Fits b.instanceId c.engine.nextUuid k :=
    .after definitionOf_stays fun n d _ => (hfinish d n).mono fun _ _ _ ha =>
      (NextAction.parks_of_isQuiet ha).1
  refine exec_rule (fun error e hx => ?_) fun action e hx => ?_
  · exact failIn_steps (h.work hb (hobeys.works Works.refl hx).1) hb error
  · obtain ⟨hw, hfits⟩ := hobeys.works Works.refl hx
    exact act_steps hfresh h hb hw (hfits _ rfl)

theorem resumeSignal_steps (hb : A b.instanceId) {remaining : List Uuid}
    (hA : ∀ id ∈ remaining.head?, ∀ q, c.engine.HasWait q .signal id → A q) :
    Steps A c₀ (resumeSignal env b token isEnd remaining c) := by
  cases remaining with
  | nil => exact resumeStep_steps hfresh h hb fun d n => finishSignalThrow_obeys rfl isEnd
  | cons id rest =>
    unfold resumeSignal
    refine .perform (fun r e hx => h.delivered hfresh (hA id rfl)
      (deliverSignal_served h.moves.sound.drawn hx)) (fun error _ h => failIn_steps h hb error)
      fun next e hsteps hruns => ?_
    obtain ⟨j, hj, hn⟩ := hruns
    exact (hsteps.push (s := .signalThrow b token isEnd rest) hb).follow hj hn

theorem resumeCompensation_steps (hb : A b.instanceId) {activityRef : Option String}
    {handlerRan : Bool} {remaining : List CompensationRecord} :
    Steps A c₀ (resumeCompensation env b token activityRef isEnd handlerRan remaining c) := by
  unfold resumeCompensation
  dsimp only
  generalize afterHandler b token handlerRan c.engine = token
  cases remaining with
  | nil =>
    exact resumeStep_steps hfresh h hb fun d n =>
      finishCompensation_obeys rfl activityRef isEnd
  | cons record rest =>
    refine h.obey (p := stepPowers) hb definitionOf_stays
      (fun error _ h => failIn_steps h hb error) fun d e hsteps _ => ?_
    split
    · refine hsteps.obey (p := stepPowers) hb (newToken_obeys _ _).stays
        (fun error _ h => failIn_steps h hb error) fun start t hsteps _ => ?_
      exact (hsteps.push (s := .compensation b token activityRef isEnd true rest) hb).run hb
    · exact (hsteps.push (s := .compensation b token activityRef isEnd false rest) hb).returnWith _

theorem unwind_steps (hopens : c₀.Opens s.batch.instanceId)
    (hcarries : s.batch.queue ≠ [] → c₀.Carries s.batch.instanceId)
    (hA : ∀ q, c.ActingReturn s result q → A q) : Steps A c₀ (unwind env s result c) := by
  cases result with
  | error error =>
    cases s with
    | signalThrow b token isEnd remaining =>
      exact failIn_steps h (hA _ (by cases remaining <;> rfl)) error
    | compensation => exact failIn_steps h (hA _ rfl) error
    | call =>
      unfold unwind
      exact h.obey (p := stepPowers) (hA _ rfl)
        (Stays.bind (modifyInstance_stays rfl (respects_eraseCall _)) fun _ _ _ =>
          failCallActivity_stays rfl (working_ends trivial) _)
        (fun _ _ h => h.fail _) fun _ _ h _ => h.run (hA _ rfl)
  | ok =>
    cases s with
    | signalThrow b token isEnd remaining =>
      refine resumeSignal_steps hfresh h (hA _ ?_) fun id hid q hq => ?_
      · cases remaining with
        | nil => rfl
        | cons => exact .inl rfl
      · obtain ⟨rest, rfl⟩ := List.head?_eq_some_iff.mp hid
        exact hA q (.inr hq)
    | compensation => exact resumeCompensation_steps hfresh h (hA _ rfl)
    | call => exact h.resume (.inl hopens) fun hq => .inl (hcarries hq)

end

/-! ## Going on with an operation -/

omit hfresh in
theorem timerOk_of_find? (hs : e.Sound) (hfound : e.pendingTimers.find? timer.id = some timer) :
    TimerOk e timer := by
  have hmem : timer.wait ∈ e.waits :=
    Engine.Holds.mem_waits (p := .timer timer) (Table.mem_of_find? hfound)
  have hwait : e.HasWait timer.instanceId .timer timer.id := ⟨timer.wait, hmem, rfl, rfl, rfl⟩
  exact ⟨hs.drawn.waits _ hmem, fun w hw => hwait.owner hw,
    fun i hi => (hs.subscriptions _ hmem i hi).symm⟩

theorem nextTimer_steps (h : Steps A c₀ c)
    (hA : ∀ id ∈ rest.head?, ∀ q, c.engine.HasWait q .timer id → A q) :
    Steps A c₀ (nextTimer env rest c) := by
  cases rest with
  | nil => exact h.answer _
  | cons id rest =>
    cases hfound : c.engine.pendingTimers.find? id with
    | none =>
      simp only [nextTimer, hfound]
      exact h.resumeWith nofun
    | some timer =>
      simp only [nextTimer, hfound]
      obtain rfl : timer.id = id := Table.key_of_find? hfound
      have hs := h.moves.sound
      have hq : A timer.instanceId := hA _ rfl _
        ⟨timer.wait, Engine.Holds.mem_waits (p := .timer timer) (Table.mem_of_find? hfound),
          rfl, rfl, rfl⟩
      have hsteps : Steps A c₀ { c with driver := .timer timer false rest } :=
        h.withDriver fun _ _ _ ht => by cases ht; exact ⟨timerOk_of_find? hs hfound, hq⟩
      refine .perform (fun _ _ hx => hsteps.served hfresh hq
        (processExpiredTimer_served hs.drawn hfound hx)) (fun _ _ h => h.fail _)
        fun a e hsteps hruns => ?_
      obtain ⟨j, hj, hn⟩ := hruns
      refine (hsteps.withDriver (d := .timer timer a.2 rest) fun _ _ _ ht => ?_).follow hj hn
      cases ht
      exact ⟨hsteps.driver _ _ _ rfl, hq⟩

end Fresh

theorem exec_rearmTimer (h : timer.recurs = false) :
    Program.exec (rearmTimer env timer) e = (.ok (), e) := by
  unfold rearmTimer
  split
  · rfl
  case h_2 definition hdef =>
    rw [if_neg]
    · rfl
    · simpa [PendingTimer.recurs, hdef] using h

theorem rescheduleFailedTimer_moves (hs : e.Sound) (ht : TimerOk e timer)
    (hi : A timer.instanceId) (error : EngineError) :
    ∃ e', Program.exec (rescheduleFailedTimer timer error) e = (.ok (), e') ∧ Moves A e e' := by
  obtain ⟨e₁, hx⟩ : ∃ e₁, Program.exec (reportFailedTimer timer error) e = (.ok (), e₁) :=
    ⟨_, rfl⟩
  have hw : Works ⟨False, False, False, False⟩ timer.instanceId e e₁ :=
    (Obeys.works (reportFailedTimer_stays rfl error) Works.refl hx).1
  have hm : Moves A e e₁ := hw.moves hs hi
  have ht' := ht.filedFrom (hw.hosts le_rfl).filedFrom
  refine ⟨_, exec_bind_ok hx, ?_⟩
  exact hm.trans (.refile hm.sound ht'.drawn ht'.waits ht'.subscriptions hi)

theorem settleTimer_steps (h : Steps A c₀ c) {rearm : Bool} (ht : TimerOk c.engine timer)
    (hA : ∀ q, c.ActingDriver (.timer timer rearm rest) result q → A q) :
    Steps A c₀ (settleTimer env timer rearm rest result c) := by
  cases result with
  | error error =>
    obtain ⟨e, hx, hm⟩ := rescheduleFailedTimer_moves h.moves.sound ht (hA _ rfl) error
    rw [settleTimer, exec_of_ok hx]
    exact { h.resumeWith (d := .timers rest) nofun with moves := h.moves.trans hm, driver := nofun }
  | ok =>
    unfold settleTimer
    dsimp only
    split
    case isTrue hrearm =>
      cases hrecurs : timer.recurs with
      | false =>
        rw [exec_of_ok (exec_rearmTimer hrecurs)]
        exact h.resumeWith nofun
      | true =>
        have hi : A timer.instanceId := hA _ ⟨hrearm, hrecurs, rfl⟩
        exact h.obey (p := ⟨True, False, False, False⟩) hi
          (rearmTimer_stays (working_files trivial le_rfl)) (fun _ _ h => h.fail _)
          fun _ _ h _ => h.resumeWith nofun
    · exact h.resumeWith nofun

section Fresh

variable (hfresh : ∀ id, c₀.engine.nextUuid ≤ id → A id)

include hfresh

theorem nextMessageCatch_steps (h : Steps A c₀ c)
    (hA : ∀ id ∈ rest.head?, ∀ q, c.engine.HasWait q .message id → A q) :
    Steps A c₀ (nextMessageCatch env message rest c) := by
  cases rest with
  | nil => exact h.resumeWith nofun
  | cons id rest =>
    unfold nextMessageCatch
    refine .perform (fun r e hx => h.delivered hfresh (hA id rfl)
      (deliverMessage_served h.moves.sound.drawn hx)) (fun _ _ h => h.fail _)
      fun next e hsteps hruns => ?_
    obtain ⟨j, hj, hn⟩ := hruns
    exact (hsteps.withDriver (d := .messageCatches message rest) nofun).follow hj hn

theorem nextSignalCatch_steps (h : Steps A c₀ c) {signalName : String}
    (hA : ∀ id ∈ rest.head?, ∀ q, c.engine.HasWait q .signal id → A q) :
    Steps A c₀ (nextSignalCatch env signalName vars rest c) := by
  cases rest with
  | nil => exact h.resumeWith nofun
  | cons id rest =>
    unfold nextSignalCatch
    refine .perform (fun r e hx => h.delivered hfresh (hA id rfl)
      (deliverSignal_served h.moves.sound.drawn hx)) (fun _ _ h => h.fail _)
      fun next e hsteps hruns => ?_
    obtain ⟨j, hj, hn⟩ := hruns
    exact (hsteps.withDriver (d := .signalCatches signalName vars rest) nofun).follow hj hn

theorem start_steps (h : Steps A c₀ c) {m : Eng α} {Q : Uuid → Uuid → α → Prop} {r : EngineResult α}
    (hm : Founds (Effects.working c.engine c.engine.nextUuid ⟨False, False, False, False⟩)
      c.engine.nextUuid m Q) (hx : Program.exec m c.engine = (r, e)) :
    Steps A c₀ { c with engine := e } ∧ ∀ a, r = .ok a → ∃ j, A j ∧ Q j e.nextUuid a := by
  obtain ⟨j, hj, hr⟩ := hm.hosts Works.refl hx
  obtain ⟨hsteps, hAj⟩ := h.host hfresh (hfresh _ h.moves.nextUuid_le) (fun h => h) hj
  exact ⟨hsteps, fun a ha => ⟨j, hAj, hr a ha⟩⟩

omit hfresh in
theorem setBusinessKeys_moves (hs : e.Sound) (ids : List Uuid) (key : Option String) :
    ∃ e', Program.exec (ids.forM fun id => setBusinessKey id key) e = (.ok (), e') ∧
      Moves A e e' ∧ FiledFrom e e' := by
  induction ids generalizing e with
  | nil => exact ⟨e, rfl, .refl hs, (Works.refl (i := 0)
      (p := ⟨False, False, False, False⟩).hosts le_rfl).filedFrom⟩
  | cons id ids ih =>
    obtain ⟨e₁, hx, hm⟩ : ∃ e₁, Program.exec (setBusinessKey id key) e = (.ok (), e₁) ∧
        Moves A e e₁ := by
      cases key with
      | none => exact ⟨e, rfl, .refl hs⟩
      | some => exact ⟨_, rfl, .dress hs fun _ => rfl⟩
    have hw : Works ⟨False, False, False, False⟩ id e e₁ :=
      (Obeys.works (setBusinessKey_stays rfl key) Works.refl hx).1
    obtain ⟨e₂, hx₂, hm₂, hf₂⟩ := ih hm.sound
    exact ⟨e₂, (exec_bind_ok hx).trans hx₂, hm.trans hm₂, (hw.hosts le_rfl).filedFrom.trans hf₂⟩

section

variable (h : Steps A c₀ c)

include h

theorem startNext_steps {key : Uuid} {d : Uuid → Driver} {starting : Bool}
    (hd : ∀ id t rearm rest, d id ≠ .timer t rearm rest) :
    Steps A c₀ (c.exec (Eng.startInstance env key vars none none starting) Config.fail
      fun started c => run ⟨started.1, [started.2], 0⟩ { c with driver := d started.1 }) := by
  refine .perform (fun _ _ hx => start_steps hfresh h
    (startInstance_founds _ _ _ (fun _ hp => by cases hp) _) hx) (fun _ _ h => h.fail _)
    fun a t hsteps hruns => ?_
  obtain ⟨j, hj, hid⟩ := hruns
  exact (hsteps.withDriver fun t rearm rest ht => (hd _ t rearm rest ht).elim).run (hid ▸ hj)

theorem nextMessageStart_steps {started : Option Uuid} :
    Steps A c₀ (nextMessageStart env message started rest c) := by
  obtain ⟨e, hx, hm, hf⟩ := setBusinessKeys_moves (A := A) h.moves.sound started.toList
    message.businessKey
  have hsteps := h.engine hm hf
  rw [nextMessageStart, exec_of_ok hx]
  cases rest with
  | nil => exact hsteps.answer _
  | cons key rest =>
    exact startNext_steps hfresh hsteps (d := fun id => .messageStarts message (some id) rest) nofun

theorem nextSignalStart_steps : Steps A c₀ (nextSignalStart env vars rest c) := by
  cases rest with
  | nil => exact h.answer _
  | cons key rest => exact startNext_steps hfresh h (d := fun _ => .signalStarts vars rest) nofun

theorem drive_steps (hA : ∀ q, c.ActingDriver c.driver result q → A q) :
    Steps A c₀ (drive env result c) := by
  unfold drive
  split
  case h_1 timer rearm rest hdriver =>
    exact settleTimer_steps h (h.driver _ _ _ hdriver) (hdriver ▸ hA)
  · exact h.answer _
  · exact h.answer _
  case h_4 rest hdriver =>
    refine nextTimer_steps hfresh h fun id hid q hq => hA q ?_
    obtain ⟨tail, rfl⟩ := List.head?_eq_some_iff.mp hid
    rw [hdriver]
    exact hq
  case h_5 message rest hdriver =>
    refine nextMessageCatch_steps hfresh h fun id hid q hq => hA q ?_
    obtain ⟨tail, rfl⟩ := List.head?_eq_some_iff.mp hid
    rw [hdriver]
    exact hq
  · exact nextMessageStart_steps hfresh h
  case h_7 signalName vars rest hdriver =>
    refine nextSignalCatch_steps hfresh h fun id hid q hq => hA q ?_
    obtain ⟨tail, rfl⟩ := List.head?_eq_some_iff.mp hid
    rw [hdriver]
    exact hq
  · exact nextSignalStart_steps hfresh h

end

end Fresh

/-- Every internal step works for those that act, and for new instances. -/
theorem internalStep_steps (h : c.Ok) (hstep : c.internalStep env = some c') :
    Steps (fun i => c.Acting i ∨ c.engine.nextUuid ≤ i) c c' := by
  have hrefl : Steps (fun i => c.Acting i ∨ c.engine.nextUuid ≤ i) c c := .refl h
  have hfresh : ∀ id, c.engine.nextUuid ≤ id → c.Acting id ∨ c.engine.nextUuid ≤ id :=
    fun _ h => .inr h
  unfold internalStep at hstep
  split at hstep
  · cases hstep
  case h_2 b hcontrol =>
    cases hstep
    exact stepBatch_steps hfresh hrefl fun q hq => .inl (by rw [Acting, hcontrol]; exact hq)
  case h_3 result s rest hcontrol hstack =>
    cases hstep
    have hpop : Steps (fun i => c.Acting i ∨ c.engine.nextUuid ≤ i) c { c with stack := rest } := by
      exact hrefl.restack fun s' hs' => .inl (hstack ▸ List.mem_cons_of_mem s hs')
    refine unwind_steps hfresh hpop (.inr ?_) (fun hq => .inr ?_) fun q hq => .inl ?_
    · exact ⟨s, hstack ▸ List.mem_cons_self, rfl⟩
    · exact ⟨s, hstack ▸ List.mem_cons_self, rfl, .inl hq⟩
    · rw [Acting, hcontrol, hstack]
      exact hq
  case h_4 result hcontrol hstack =>
    cases hstep
    exact drive_steps hfresh hrefl fun q hq => .inl (by rw [Acting, hcontrol, hstack]; exact hq)

end Compose

end Config

end BpmnEngine
