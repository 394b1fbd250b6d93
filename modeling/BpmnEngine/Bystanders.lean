import BpmnEngine.CallReturns
import BpmnEngine.ShutInstances

/-!
# What a run leaves alone

A step works for few instances. An instance that no step of a run works for keeps its record
and its waits, unless it is interrupted with its caller, and an ended instance of
which nothing is left is not worked for again.
-/
namespace BpmnEngine

open Engine

namespace Config

variable {env : Env} {clock : Time} {c c' : Config} {x : Uuid} {m : Move} {y : ProcessInstance}

def WorksFor (c : Config) (x : Uuid) : Move → Prop
  | .internal => c.Acting x
  | .op op => op.Acting c.engine x

/-- A move works for some instances, or it deletes some. -/
theorem moves_or_removes (hok : c.Ok) (hstep : c.step env m = some c') :
    Moves (fun x => c.WorksFor x m ∨ c.engine.nextUuid ≤ x) c.engine c'.engine ∨
      Removes (c.WorksFor · m) c.engine c'.engine := by
  cases m with
  | internal => exact .inl (internalStep_steps hok hstep).moves
  | op op =>
    rw [Config.step] at hstep
    split at hstep <;> cases hstep
    cases hdel : op.deletes with
    | true =>
      obtain ⟨e, r, hbegin, hremoves⟩ := begin_removes env hok hdel
      rw [hbegin]
      exact .inr hremoves
    | false => exact .inl (begin_steps hok hdel).moves

section

variable (h : Reaches (step env) (fun _ _ => True) (initial clock) c)

include h

/-- An instance that no step works for keeps its waits and its record, up to business key and
incidents, or it is interrupted. -/
theorem bystander_untouched (hx : x < c.engine.nextUuid)
    (hrun : Reaches (step env) (¬·.WorksFor x ·) c c') : Untouched x c.engine c'.engine := by
  have hinv := hrun.invariant
    (P := fun d => d.InOrder ∧ x < d.engine.nextUuid ∧ Untouched x c.engine d.engine)
    ⟨inOrder_of_reaches h, hx, .refl⟩ fun d m d' ⟨hin, hx, hsame⟩ hother hstep => ?_
  · exact hinv.2.2
  · refine ⟨hin.step hstep, ?_⟩
    rcases moves_or_removes hin.ok hstep with hmoves | hremoves
    · have hA := not_or.mpr ⟨hother, not_le_of_gt hx⟩
      exact ⟨lt_of_lt_of_le hx hmoves.nextUuid_le, hsame.trans (hmoves.untouched x hA)⟩
    · have hkept := (hremoves.kept x).resolve_left fun hgone => hother hgone.2
      exact ⟨lt_of_lt_of_le hx hremoves.filed.nextUuid_le, hsame.trans hkept⟩

/-- An instance that has ended without a wait or a call, and of which nothing is in work, never
changes its state again, and none of its tokens moves. -/
theorem ended_stays_ended (hy : c.engine.instances.find? x = some y)
    (hend : y.state.isTerminal = true) (hwaits : c.engine.Waitless x)
    (hcalls : ∀ id, y.outstandingCalls.get? id = none) (hwork : ¬c.Opens x ∧ ¬c.ServesTimer x)
    (hrun : Reaches (step env) (fun _ _ => True) c c') {y' : ProcessInstance}
    (hy' : c'.engine.instances.find? x = some y') : y'.standing = y.standing := by
  have hin := inOrder_of_reaches h
  have hshut : c.Shut (· = x) := by
    constructor <;> rintro _
    · rintro rfl
      exact hin.ok.sound.drawn.instances _ y hy
    · rintro rfl ⟨z, hz, hlive⟩
      cases hy.symm.trans hz
      simp [hend] at hlive
    · rintro rfl
      exact hwaits
    · rintro id rfl ⟨z, call, hz, hcall⟩
      cases hy.symm.trans hz
      simp [hcalls] at hcall
    · rintro rfl
      exact hwork.1
    · rintro rfl
      exact hwork.2
  obtain ⟨z, hz, hsame⟩ := ((hshut.of_reaches hin hrun).2 x rfl).standing y' hy'
  cases hy.symm.trans hz
  exact hsame

end

end Config

/-- The instance of a given approval has ended, and nothing of it is left. -/
theorem approval_given : ∃ c y, Reaches (Config.step .plain) (fun _ _ => True) (.initial 0) c ∧
    c.control = .idle ∧ c.engine.instances.find? 2 = some y ∧ y.state = .completed ∧
    y.outstandingCalls = ∅ ∧ c.engine.waits = [] ∧ c.driver = .finish := by
  have hrun : (Config.performAll .plain 100 (.initial 0)
      [.deployDefinition approval, .startInstance 1 ∅, .completeUserTask 5 ∅]).map (fun c =>
        ((c.engine.instances.find? 2).map fun y => (y.state, y.outstandingCalls),
          c.engine.waits, c.driver)) = some (some (.completed, ∅), [], .finish) := by
    decide +kernel
  obtain ⟨c, hreach, hidle, hfacts⟩ := Config.exists_of_performAll hrun
  simp only [Prod.mk.injEq, Option.map_eq_some_iff] at hfacts
  obtain ⟨⟨y, hy, hstate, hcalls⟩, hrest⟩ := hfacts
  exact ⟨c, y, hreach, hidle, hy, hstate, hcalls, hrest⟩

theorem approval_stays_completed : ∃ c y, c.engine.instances.find? 2 = some y ∧
    y.state = .completed ∧ ∀ c', Reaches (Config.step .plain) (fun _ _ => True) c c' →
      ∀ y', c'.engine.instances.find? 2 = some y' → y'.standing = y.standing := by
  obtain ⟨c, y, hreach, hidle, hy, hstate, hcalls, hwaits, hdriver⟩ := approval_given
  have hstack := (Config.inOrder_of_reaches hreach).idle hidle
  refine ⟨c, y, hy, hstate, fun c' hrun y' =>
    Config.ended_stays_ended hreach hy ?_ ?_ ?_ ⟨?_, ?_⟩ hrun⟩
  · rw [hstate]
    rfl
  · simp [Engine.Waitless, hwaits]
  · intro id
    rw [hcalls]
    rfl
  · simp [Config.Opens, hidle, hstack]
  · simp [Config.ServesTimer, hdriver]

theorem approval_untouched : ∃ c y, (Config.engine c).instances.find? 2 = some y ∧
    Untouched 2 c.engine (c.begin .plain (.deployDefinition approval)).engine := by
  obtain ⟨c, y, hreach, hidle, hy, _⟩ := approval_given
  have hdrawn := (Config.inOrder_of_reaches hreach).ok.sound.drawn.instances 2 y hy
  have hstep : c.step .plain (.op (.deployDefinition approval)) = some _ := if_pos hidle
  exact ⟨c, y, hy, Config.bystander_untouched hreach hdrawn (.next .start id hstep)⟩

end BpmnEngine
