import BpmnEngine.OperationMoves

/-!
# Instances that have ended

An ended instance is woken by what is left of it: a pending wait, an outstanding call,
a token in a queue or in an interrupted step, or a timer that the timer processing puts
back. If nothing of the sort is left, no step of the machine works for the instance any
more, and it stays ended until it is deleted.
-/
namespace BpmnEngine

open Program Eng Engine

/-- The state of an instance and where its tokens are. -/
def ProcessInstance.standing (x : ProcessInstance) : InstanceState × List (Uuid × String) :=
  (x.state, x.tokens.entries.map fun t => (t.id, t.currentNode))

namespace Engine

variable {e e' e'' : Engine} {x : Uuid}

theorem Waitless.not_hasWait (h : e.Waitless x) {kind : WaitKind} {id : Uuid} :
    ¬e.HasWait x kind id :=
  fun ⟨w, hw, _, _, hx⟩ => h w hw hx

theorem isTerminal_of_not_live (h : ¬e.Live x) {y : ProcessInstance}
    (hy : e.instances.find? x = some y) : y.state.isTerminal = true := by
  cases hend : y.state.isTerminal with
  | true => rfl
  | false => exact (h ⟨y, hy, hend⟩).elim

/-- The instance has ended, has no wait and has made no new call; unless it is gone, it is in the
state and its tokens are in the places from before. -/
structure Rests (e e' : Engine) (x : Uuid) : Prop where
  ended : ¬e'.Live x
  waitless : e'.Waitless x
  calls : ∀ y, e'.Calls x y → e.Calls x y
  standing : ∀ y', e'.instances.find? x = some y' →
    ∃ y, e.instances.find? x = some y ∧ y'.standing = y.standing

theorem Rests.refl (h : ¬e.Live x) (hw : e.Waitless x) : e.Rests e x :=
  ⟨h, hw, fun _ => id, fun y hy => ⟨y, hy, rfl⟩⟩

theorem Rests.trans (h : e.Rests e' x) (h' : e'.Rests e'' x) : e.Rests e'' x := by
  refine ⟨h'.ended, h'.waitless, fun y hy => h.calls y (h'.calls y hy), fun z hz => ?_⟩
  obtain ⟨y', hy', hstanding'⟩ := h'.standing z hz
  obtain ⟨y, hy, hstanding⟩ := h.standing y' hy'
  exact ⟨y, hy, hstanding'.trans hstanding⟩

theorem Rests.of_untouched (h : ¬e.Live x) (hw : e.Waitless x) (hu : Untouched x e e') :
    e.Rests e' x := by
  cases hu with
  | interrupted y _ hy hlive => exact (h ⟨y, hy, hlive⟩).elim
  | same hcore hwaits =>
    refine ⟨?_, fun v hv hx => hw v ((hwaits v hx).mp hv) hx, ?_, fun y hy => ?_⟩
    · rintro ⟨y, hy, hlive⟩
      obtain ⟨z, hz, hzcore⟩ := Untouched.find?_of_core hcore.symm hy
      exact h ⟨z, hz, ProcessInstance.state_of_core hzcore ▸ hlive⟩
    · rintro id ⟨y, call, hy, hcall⟩
      obtain ⟨z, hz, hzcore⟩ := Untouched.find?_of_core hcore.symm hy
      exact ⟨z, call, hz, ProcessInstance.calls_of_core hzcore ▸ hcall⟩
    · obtain ⟨z, hz, hzcore⟩ := Untouched.find?_of_core hcore.symm hy
      exact ⟨z, hz, (ProcessInstance.eq_of_core _ (fun _ => rfl) hzcore).symm⟩

end Engine

namespace Config

/-- Nothing of the instance is left that could go on. -/
structure Quiet (c : Config) (x : Uuid) : Prop where
  waitless : c.engine.Waitless x
  calls : ∀ y, c.engine.instances.find? x = some y → ∀ id, y.outstandingCalls.get? id = none
  carries : ¬c.Carries x

/-- The instance has ended or is gone, and nothing of it is left. -/
structure Over (c : Config) (x : Uuid) : Prop where
  drawn : x < c.engine.nextUuid
  ended : ¬c.engine.Live x
  quiet : c.Quiet x

/-- The next step files a timer of the instance again: its batch has failed, or it recurs. -/
def PutsBack (c : Config) (x : Uuid) : Prop :=
  ∃ result timer rearm rest, c.control = .returning result ∧ c.stack = [] ∧
    c.driver = .timer timer rearm rest ∧ timer.instanceId = x ∧
    ∀ u, result = .ok u → rearm = true ∧ timer.recurs = true

def Abandons (c : Config) (x : Uuid) : Prop :=
  ∃ error b childId rest, c.control = .returning (.error error) ∧
    c.stack = .call b childId :: rest ∧ b.instanceId = x

section Over

variable {env : Env} {c c' : Config} {x : Uuid} {α : Type} {op : Op}

theorem Quiet.not_hasWait (h : c.Quiet x) {kind : WaitKind} {id : Uuid} :
    ¬c.engine.HasWait x kind id :=
  h.waitless.not_hasWait

section

variable (h : c.Over x)

include h

theorem Over.terminal {y : ProcessInstance} (hy : c.engine.instances.find? x = some y) :
    y.state.isTerminal = true :=
  isTerminal_of_not_live h.ended hy

theorem Over.not_resumes (child : Uuid) : ¬c.engine.Resumes child x := by
  rintro ⟨_, y, _, _, _, hy, hcall⟩
  have hend := h.terminal hy
  rw [endedCall, h.quiet.calls y hy child] at hcall
  cases hstate : y.state <;> simp_all [InstanceState.isTerminal]

/-- An instance that is over acts only in two cases. -/
theorem Over.acting (ha : c.Acting x) : c.PutsBack x ∨ c.Abandons x := by
  unfold Acting at ha
  split at ha
  · exact ha.elim
  case h_2 b hcontrol =>
    rw [ActingBatch] at ha
    split at ha
    · rcases ha with ⟨_, id, hid⟩ | hr
      · exact (h.quiet.not_hasWait hid).elim
      · exact (h.not_resumes _ hr).elim
    case isFalse hq => exact (h.quiet.carries (.inl ⟨b, hcontrol, ha.symm, hq⟩)).elim
  case h_3 result s rest hcontrol hstack =>
    have hthrown : s.thrown?.isSome = true → x ≠ s.batch.instanceId := fun ht hx =>
      h.quiet.carries (.inr ⟨s, hstack ▸ List.mem_cons_self, hx.symm, .inr ht⟩)
    unfold ActingReturn at ha
    split at ha
    · exact ha.elim
    · rcases ha with ha | ha
      · exact (hthrown rfl ha).elim
      · exact (h.quiet.not_hasWait ha).elim
    · cases s with
      | signalThrow => exact (hthrown rfl ha).elim
      | compensation => exact (hthrown rfl ha).elim
      | call b childId =>
        cases result with
        | ok => simp_all
        | error error => exact .inr ⟨error, b, childId, rest, hcontrol, hstack, ha.symm⟩
  case h_4 result hcontrol hstack =>
    unfold ActingDriver at ha
    split at ha
    case h_1 hdriver =>
      exact .inl ⟨_, _, _, _, hcontrol, hstack, hdriver, ha.2.2.symm, fun _ _ => ⟨ha.1, ha.2.1⟩⟩
    case h_2 hdriver =>
      exact .inl ⟨_, _, _, _, hcontrol, hstack, hdriver, ha.symm, fun _ h => by cases h⟩
    · exact (h.quiet.not_hasWait ha).elim
    · exact (h.quiet.not_hasWait ha).elim
    · exact (h.quiet.not_hasWait ha).elim
    · exact ha.elim

theorem Over.of_steps {A : Uuid → Prop} (hs : Steps A c c') (hA : ¬A x) : c'.Over x := by
  have hrests : c.engine.Rests c'.engine x :=
    .of_untouched h.ended h.quiet.waitless (hs.moves.untouched x hA)
  refine ⟨lt_of_lt_of_le h.drawn hs.moves.nextUuid_le, hrests.ended, hrests.waitless,
    fun y hy id => ?_, fun hx => h.quiet.carries ((hs.carries x hx).resolve_right hA)⟩
  by_contra hsome
  obtain ⟨call, hcall⟩ := Option.ne_none_iff_exists'.mp hsome
  obtain ⟨z, call, hz, hcall⟩ := hrests.calls id ⟨y, call, hy, hcall⟩
  simp [h.quiet.calls z hz id] at hcall

theorem Over.abandons (ha : c.Abandons x) (hstep : c.internalStep env = some c') : c'.Over x := by
  obtain ⟨error, b, childId, rest, hcontrol, hstack, rfl⟩ := ha
  obtain ⟨e, hx⟩ : ∃ e, Program.exec (abandonCall b childId) c.engine = (.ok (), e) := ⟨_, rfl⟩
  have hc' : c' = run { b with queue := [] } { c with stack := rest, engine := e } := by
    simp only [Config.internalStep, hcontrol, hstack, unwind, Option.some.injEq] at hstep
    rw [← hstep]
    exact exec_of_ok hx
  have hcarries : ¬c'.Carries b.instanceId := by
    subst hc'
    rintro (⟨b', hb', _, hq⟩ | ⟨s, hs, hi, hq⟩)
    · cases hb'
      exact hq rfl
    · exact h.quiet.carries (.inr ⟨s, hstack ▸ List.mem_cons_of_mem _ hs, hi, hq⟩)
  have hfind : ∀ y, e.instances.find? b.instanceId = some y →
      y.state.isTerminal = true ∧ ∀ id, y.outstandingCalls.get? id = none := by
    intro y hy
    cases hx
    rw [find?_modifyInstance_self, find?_modifyInstance_self] at hy
    obtain ⟨_, hw, rfl⟩ := Option.map_eq_some_iff.mp hy
    obtain ⟨z, hz, rfl⟩ := Option.map_eq_some_iff.mp hw
    refine ⟨rfl, fun id => ?_⟩
    by_cases hid : id = childId
    · subst hid
      exact Map.get?_erase_self _ _
    · exact (Map.get?_erase_of_ne hid).trans (h.quiet.calls z hz id)
  subst hc'
  refine ⟨?_, ?_, ⟨?_, fun y hy => (hfind y hy).2, hcarries⟩⟩
  · cases hx
    exact h.drawn
  · rintro ⟨y, hy, hlive⟩
    simp [(hfind y hy).1] at hlive
  · cases hx
    exact h.quiet.waitless

theorem Over.internalStep (hok : c.Ok) (hback : ¬c.PutsBack x)
    (hstep : c.internalStep env = some c') : c'.Over x := by
  by_cases ha : c.Acting x
  · exact h.abandons ((h.acting ha).resolve_left hback) hstep
  · exact h.of_steps (internalStep_steps hok hstep) fun hA =>
      hA.elim ha fun hfresh => absurd h.drawn (not_lt_of_ge hfresh)

end

/-! ## Operations on an instance that has ended -/

/-- An operation came to nothing for an instance: it has returned, and the instance rests. -/
def ComesToNothing (c : Config) (x : Uuid) (c' : Config) : Prop :=
  ∃ e r, c' = Config.returnWith r { c with engine := e } ∧ c.engine.Rests e x

section

variable (h : ¬c.engine.Live x)

include h

theorem exec_requireActive (f : ProcessInstance → Eng α) : ∃ error, Program.exec (do
      let i ← getInstance x
      requireActive i
      f i) c.engine = (.error error, c.engine) := by
  cases hfound : c.engine.instances.find? x with
  | none => exact ⟨_, exec_bind_error (exec_getInstance_none hfound)⟩
  | some =>
    refine ⟨.alreadyCompleted, ?_⟩
    rw [exec_bind_ok (exec_getInstance hfound), exec_bind_error]
    rw [requireActive, if_pos (isTerminal_of_not_live h hfound)]
    rfl

section

variable (hw : c.engine.Waitless x)

include hw

theorem passes_of_refused {m : Eng α} {k : α → Config → Config}
    (hx : ∃ error, Program.exec m c.engine = (.error error, c.engine)) :
    c.ComesToNothing x (c.exec m fail k) := by
  obtain ⟨error, hx⟩ := hx
  exact ⟨c.engine, .error error, exec_of_error hx, .refl h hw⟩

/-- The variables of an instance that has ended may still be written; nothing comes of it. -/
theorem passes_updateInstanceVariables (hok : c.Ok) (updates : Variables) :
    c.ComesToNothing x (c.operate (Eng.updateInstanceVariables env x updates)) := by
  cases hfound : c.engine.instances.find? x with
  | none =>
    exact passes_of_refused h hw ⟨_, exec_bind_error
      (exec_bind_error (exec_getInstance_none hfound))⟩
  | some y =>
    let f : ProcessInstance → ProcessInstance := fun i =>
      { i with
        vars := applyUpdates updates i.vars
        tokens := i.tokens.mapEntries (updateToken updates) (updateToken_id updates) }
    have hwrite : Program.exec (updateInstance x f) c.engine =
        (.ok (), c.engine.modifyInstance x f) := exec_updateInstance hfound f
    have hworks : Works ⟨False, False, False, False⟩ x _ _ := (Obeys.works (updateInstance_stays
      (f := f) rfl (.of_rest (.inr fun _ => .inl rfl) fun _ => rfl)) Works.refl hwrite).1
    have hdrawn : (c.engine.modifyInstance x f).Drawn :=
      (hworks.hosts le_rfl).drawn hok.sound.drawn
    obtain ⟨r, t, hfire⟩ : ∃ r t, Program.exec (fireConditionalCatches env x)
        (c.engine.modifyInstance x f) = (r, t) := ⟨_, _, rfl⟩
    -- The waits are as they were, so there is no conditional event to fire.
    obtain ⟨rfl, rfl⟩ := (fireConditionalCatches_works hdrawn hfire).2
      fun id hid => hw.not_hasWait hid
    have hx : Program.exec (Eng.updateInstanceVariables env x updates) c.engine =
        (.ok .done, c.engine.modifyInstance x f) := by
      rw [Eng.updateInstanceVariables, exec_bind_ok hwrite, exec_bind_ok hfire]
      rfl
    have hfind : (c.engine.modifyInstance x f).instances.find? x =
        some { f y with id := y.id } := by
      rw [find?_modifyInstance_self, hfound]
      rfl
    refine ⟨c.engine.modifyInstance x f, .ok (), exec_of_ok hx, ?_, hw, ?_, fun z hz => ?_⟩
    · rintro ⟨z, hz, hlive⟩
      obtain rfl := Option.some.inj (hfind.symm.trans hz)
      exact h ⟨y, hfound, hlive⟩
    · rintro id ⟨z, call, hz, hcall⟩
      obtain rfl := Option.some.inj (hfind.symm.trans hz)
      exact ⟨y, call, hfound, hcall⟩
    · have hplace (t : Token) : (updateToken updates t).currentNode = t.currentNode := by
        unfold updateToken
        split <;> rfl
      obtain rfl := Option.some.inj (hfind.symm.trans hz)
      refine ⟨y, hfound, ?_⟩
      simp [ProcessInstance.standing, f, Table.mapEntries, hplace, updateToken_id]

theorem passes_begin (hok : c.Ok) (hdel : op.deletes = false) (ha : op.Acting c.engine x) :
    c.ComesToNothing x (c.begin env op) := by
  cases op with
  | updateInstanceVariables i updates =>
    cases ha
    exact passes_updateInstanceVariables h hw hok updates
  | suspendInstance =>
    cases ha
    exact passes_of_refused h hw (exec_requireActive h _)
  | resumeInstance =>
    cases ha
    refine passes_of_refused h hw ?_
    cases hfound : c.engine.instances.find? x with
    | none => exact ⟨_, exec_bind_error (exec_getInstance_none hfound)⟩
    | some y =>
      have hend := isTerminal_of_not_live h hfound
      refine ⟨.invalidDefinition "Instance is not suspended", ?_⟩
      rw [Eng.resumeInstance, exec_bind_ok (exec_getInstance hfound)]
      cases hstate : y.state <;> simp_all [InstanceState.isTerminal]
  | moveToken =>
    cases ha
    exact passes_of_refused h hw (exec_requireActive h _)
  | migrateInstance i target mapping =>
    cases ha
    refine passes_of_refused h hw ?_
    cases hdef : c.engine.definitions.find? target with
    | none => exact ⟨_, exec_bind_error (exec_bind_error (exec_getDefinition_none hdef))⟩
    | some d =>
      obtain ⟨error, hx⟩ := exec_requireActive h fun i => do
        checkNodes d mapping [i.currentNode]
        checkNodes d mapping (i.tokens.entries.map (·.currentNode))
        checkNodes d mapping (i.activeTokens.map (·.token.currentNode))
      refine ⟨error, exec_bind_error ?_⟩
      rw [checkMigration, exec_bind_ok (exec_getDefinition hdef)]
      exact hx
  | deleteInstance => cases hdel
  | deleteDefinition => cases hdel
  | completeUserTask | completeServiceTask | failServiceTask | handleBpmnError | resolveIncident
  | applyTaskOutcome => exact (hw.not_hasWait ha).elim
  | _ => exact ha.elim

end

end

end Over

end Config

end BpmnEngine
