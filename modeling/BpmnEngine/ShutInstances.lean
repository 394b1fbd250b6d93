import BpmnEngine.EndedInstances
import BpmnEngine.StepOutcomes

/-!
# Ended instances whose calls lead nowhere

An ended instance with an outstanding call goes on when the instance that it has called
ends. A group of ended instances is shut if their calls stay in the group and nothing of
it is in work: no wait, no batch and no timer that is being served. No step of the machine
works for such a group, so it stays shut and no caller takes up the call of a member.
-/
namespace BpmnEngine

open Program Eng Engine

namespace Config

variable {e : Engine}

/-! ## Shut groups -/

def TakesUp (c : Config) (child i : Uuid) : Prop :=
  ∃ b, c.control = .running b ∧ b.instanceId = child ∧ b.queue = [] ∧ c.engine.Resumes child i

/-- The instances have ended and have no wait, their calls stay among them or are of instances that
are gone, and nothing of them is in work. -/
structure Shut (c : Config) (S : Uuid → Prop) : Prop where
  drawn : ∀ x, S x → x < c.engine.nextUuid
  ended : ∀ x, S x → ¬c.engine.Live x
  waitless : ∀ x, S x → c.engine.Waitless x
  calls : ∀ x y, S x → c.engine.Calls x y → S y ∨
    y < c.engine.nextUuid ∧ c.engine.instances.find? y = none
  opens : ∀ x, S x → ¬c.Opens x
  serves : ∀ x, S x → ¬c.ServesTimer x

/-- The group is shut again, and its members are as they were. -/
def StaysShut (S : Uuid → Prop) (c c' : Config) : Prop :=
  c'.Shut S ∧ ∀ x, S x → c.engine.Rests c'.engine x

namespace Shut

variable {env : Env} {c c' : Config} {S : Uuid → Prop} {x : Uuid}

theorem not_takesUp (h : c.Shut S) (hx : S x) (i : Uuid) : ¬c.TakesUp x i :=
  fun ⟨b, hb, hi, _⟩ => h.opens x hx (.inl ⟨b, hb, hi⟩)

theorem not_resumes (h : c.Shut S) (hx : S x) {child : Uuid} (hchild : c.Opens child) :
    ¬c.engine.Resumes child x := by
  rintro ⟨z, y, hz, _, _, hy, hcall⟩
  have hend := Engine.isTerminal_of_not_live (h.ended x hx) hy
  cases hget : y.outstandingCalls.get? child with
  | none =>
    rw [endedCall, hget] at hcall
    cases hstate : y.state <;> simp_all [InstanceState.isTerminal]
  | some call =>
    rcases h.calls x child hx ⟨y, call, hy, hget⟩ with hmem | ⟨_, hgone⟩
    · exact h.opens child hmem hchild
    · simp [hgone] at hz

theorem not_acting (h : c.Shut S) (hx : S x) : ¬c.Acting x := by
  intro ha
  have hwait : ∀ kind id, ¬c.engine.HasWait x kind id := fun _ _ => (h.waitless x hx).not_hasWait
  unfold Acting at ha
  split at ha
  · exact ha
  case h_2 b hcontrol =>
    have hb : c.Opens b.instanceId := .inl ⟨b, hcontrol, rfl⟩
    rw [ActingBatch] at ha
    split at ha
    · rcases ha with ⟨_, id, hid⟩ | hr
      · exact hwait _ id hid
      · exact h.not_resumes hx hb hr
    · exact h.opens x hx (ha ▸ hb)
  case h_3 result s rest hcontrol hstack =>
    have hs : x ≠ s.batch.instanceId := fun hi =>
      h.opens x hx (.inr ⟨s, hstack ▸ List.mem_cons_self, hi.symm⟩)
    unfold ActingReturn at ha
    split at ha
    · exact ha
    · rcases ha with ha | ha
      · exact hs ha
      · exact hwait _ _ ha
    · exact hs ha
  case h_4 result hcontrol hstack =>
    unfold ActingDriver at ha
    split at ha
    case h_1 hdriver => exact h.serves _ hx ⟨_, _, _, hdriver, ha.2.2.symm⟩
    case h_2 hdriver => exact h.serves _ hx ⟨_, _, _, hdriver, ha.symm⟩
    · exact hwait _ _ ha
    · exact hwait _ _ ha
    · exact hwait _ _ ha
    · exact ha

theorem of_rests (h : c.Shut S) (hn : c.engine.nextUuid ≤ c'.engine.nextUuid)
    (hrests : ∀ x, S x → c.engine.Rests c'.engine x)
    (hgone : ∀ y, y < c.engine.nextUuid → c.engine.instances.find? y = none →
      c'.engine.instances.find? y = none)
    (hopens : ∀ x, S x → c'.Opens x → c.Opens x)
    (hserves : ∀ x, S x → c'.ServesTimer x → c.ServesTimer x) : StaysShut S c c' where
  left :=
    { drawn := fun x hx => lt_of_lt_of_le (h.drawn x hx) hn
      ended := fun x hx => (hrests x hx).ended
      waitless := fun x hx => (hrests x hx).waitless
      calls := fun x y hx hcall => by
        rcases h.calls x y hx ((hrests x hx).calls y hcall) with hy | ⟨hlt, hy⟩
        · exact .inl hy
        · exact .inr ⟨lt_of_lt_of_le hlt hn, hgone y hlt hy⟩
      opens := fun x hx hopen => h.opens x hx (hopens x hx hopen)
      serves := fun x hx hserve => h.serves x hx (hserves x hx hserve) }
  right := hrests

theorem gone_of_moves {A : Uuid → Prop} {e' : Engine} (h : Moves A e e') {y : Uuid}
    (hlt : y < e.nextUuid) (hy : e.instances.find? y = none) : e'.instances.find? y = none := by
  cases hy' : e'.instances.find? y with
  | none => rfl
  | some z => exact absurd hlt (not_lt_of_ge (h.founded y z hy hy').1)

theorem internalStep (h : c.Shut S) (hok : c.Ok) (hstep : c.internalStep env = some c') :
    StaysShut S c c' := by
  have hsteps := internalStep_steps hok hstep
  have hA : ∀ x, S x → ¬(c.Acting x ∨ c.engine.nextUuid ≤ x) := fun x hx hA =>
    hA.elim (h.not_acting hx) fun hfresh => absurd (h.drawn x hx) (not_lt_of_ge hfresh)
  exact h.of_rests hsteps.moves.nextUuid_le
    (fun x hx => .of_untouched (h.ended x hx) (h.waitless x hx)
      (hsteps.moves.untouched x (hA x hx)))
    (fun y hlt hy => gone_of_moves hsteps.moves hlt hy)
    (fun x hx hopen => (hsteps.opens x hopen).resolve_right (hA x hx))
    fun x hx hserve => (hsteps.serves x hserve).resolve_right (hA x hx)

theorem begin (h : c.Shut S) (hok : c.Ok) (op : Op) : StaysShut S c (c.begin env op) := by
  cases hdel : op.deletes with
  | true =>
    obtain ⟨e, r, hbegin, hremoves⟩ := begin_removes env hok hdel
    rw [hbegin]
    refine h.of_rests hremoves.filed.nextUuid_le (fun x hx => ?_) (fun y _ hy => ?_)
      (fun _ _ => opens_returnWith) fun _ _ hserve => hserve
    · rcases hremoves.kept x with ⟨hgone, _⟩ | hkept
      · exact ⟨fun ⟨_, hy, _⟩ => (nomatch hgone.symm.trans hy),
          fun w hw => h.waitless x hx w (hremoves.waits w hw), hremoves.called x,
          fun _ hy => (nomatch hgone.symm.trans hy)⟩
      · exact .of_untouched (h.ended x hx) (h.waitless x hx) hkept
    · cases hy' : e.instances.find? y with
      | none => exact hy'
      | some z =>
        obtain ⟨z', hz', _⟩ := hremoves.parents y z hy'
        simp [hy] at hz'
  | false =>
    have hsteps : Steps _ c (c.begin env op) := begin_steps hok hdel
    have hfresh : ∀ x, S x → ¬c.engine.nextUuid ≤ x := fun x hx => not_le_of_gt (h.drawn x hx)
    have hrest (x : Uuid) (hx : S x) : c.engine.Rests (c.begin env op).engine x ∧
        ((c.begin env op).Opens x → c.Opens x) ∧
        ((c.begin env op).ServesTimer x → c.ServesTimer x) := by
      by_cases ha : op.Acting c.engine x
      · obtain ⟨e, r, hc', hrests⟩ : c.ComesToNothing x (c.begin env op) :=
          passes_begin (h.ended x hx) (h.waitless x hx) hok hdel ha
        rw [hc']
        exact ⟨hrests, opens_returnWith, id⟩
      · have hA : ¬(op.Acting c.engine x ∨ c.engine.nextUuid ≤ x) := fun hA =>
          hA.elim ha (hfresh x hx)
        exact ⟨.of_untouched (h.ended x hx) (h.waitless x hx) (hsteps.moves.untouched x hA),
          fun hopen => (hsteps.opens x hopen).resolve_right hA,
          fun hserve => (hsteps.serves x hserve).resolve_right hA⟩
    exact h.of_rests hsteps.moves.nextUuid_le (fun x hx => (hrest x hx).1)
      (fun y hlt hy => gone_of_moves hsteps.moves hlt hy) (fun x hx => (hrest x hx).2.1)
      fun x hx => (hrest x hx).2.2

theorem step (h : c.Shut S) (hok : c.Ok) {m : Move} (hstep : c.step env m = some c') :
    StaysShut S c c' := by
  cases m with
  | internal => exact h.internalStep hok hstep
  | op op =>
    rw [Config.step] at hstep
    split at hstep
    · cases hstep
      exact h.begin hok op
    · cases hstep

theorem of_reaches (h : c.Shut S) (hin : c.InOrder)
    (hreach : Reaches (Config.step env) (fun _ _ => True) c c') : StaysShut S c c' := by
  have hboth : c'.InOrder ∧ StaysShut S c c' :=
    hreach.invariant (P := fun c' => c'.InOrder ∧ StaysShut S c c')
      ⟨hin, h, fun x hx => .refl (h.ended x hx) (h.waitless x hx)⟩
      fun _ _ _ ⟨hin, hshut, hrests⟩ _ hstep =>
        have hnext := hshut.step hin.ok hstep
        ⟨hin.step hstep, hnext.1, fun x hx => (hrests x hx).trans (hnext.2 x hx)⟩
  exact hboth.2

end Shut

end Config

end BpmnEngine
