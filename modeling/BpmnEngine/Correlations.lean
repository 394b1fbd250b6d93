import BpmnEngine.StepOutcomes

/-!
# Correlating a message

A correlation collects the catches that match the message and then serves them one after
another, each with the batch that follows; the message start events come last. A delivery
may cancel a catch that was collected. A broadcast signal passes over such a catch, a
message fails at it, and neither the catches behind it nor the start events have their
turn.
-/
namespace BpmnEngine

open Program

namespace Config

variable {env : Env} {c c' : Config} {m : Correlation} {id : Uuid} {ids rest : List Uuid}
  {e : Engine}

/-- It is the turn of the first of the collected catches, or of the start events if none is
left. -/
structure Turn (m : Correlation) (ids : List Uuid) (c : Config) : Prop where
  control : c.control = .returning (.ok ())
  stack : c.stack = []
  driver : c.driver = .messageCatches m ids

/-- The correlation as it should go: a catch that is pending at its turn gets the message, one
that is not is passed over, and in both cases the next one has its turn, in the end the start
events. -/
inductive Delivers (env : Env) (m : Correlation) : List Uuid → Config → Prop where
  | starts {c : Config} (hturn : Turn m [] c) : Delivers env m [] c
  | delivered {id : Uuid} {rest : List Uuid} {c c' : Config} {next : Next} {e : Engine}
      (hturn : Turn m (id :: rest) c)
      (hpending : (c.engine.pendingMessageCatches.find? id).isSome)
      (hx : Program.exec (Eng.deliverMessage env m.vars id) c.engine = (.ok next, e))
      (hpass : BpmnEngine.Passes (internalStep env) c c') (hrest : Delivers env m rest c') :
      Delivers env m (id :: rest) c
  | skipped {id : Uuid} {rest : List Uuid} {c c' : Config} (hturn : Turn m (id :: rest) c)
      (hgone : c.engine.pendingMessageCatches.find? id = none)
      (hpass : BpmnEngine.Passes (internalStep env) c c') (hrest : Delivers env m rest c') :
      Delivers env m (id :: rest) c

/-- Every catch is pending when its turn comes, and its delivery returns, with the batch that
follows. -/
def Served (env : Env) (m : Correlation) : List Uuid → Config → Prop
  | [], _ => True
  | id :: rest, c => (c.engine.pendingMessageCatches.find? id).isSome ∧
      ∃ next e, Program.exec (Eng.deliverMessage env m.vars id) c.engine = (.ok next, e) ∧
      ∃ c', BpmnEngine.Passes (internalStep env)
        (follow next { c with engine := e, driver := .messageCatches m rest }) c' ∧
        Turn m rest c' ∧ Served env m rest c'

theorem Delivers.turn (h : Delivers env m ids c) : Turn m ids c := by
  cases h with
  | starts hturn => exact hturn
  | delivered hturn => exact hturn
  | skipped hturn => exact hturn

theorem Turn.ids_eq {ids' : List Uuid} (h : Turn m ids c) (h' : Turn m ids' c) : ids = ids' := by
  have hdriver := h.driver.symm.trans h'.driver
  cases hdriver
  rfl

namespace Turn

section

variable (h : Turn m (id :: rest) c)

include h

theorem internalStep_eq :
    c.internalStep env = some (c.exec (Eng.deliverMessage env m.vars id) fail fun next c =>
      follow next { c with driver := .messageCatches m rest }) := by
  rw [internalStep_driving h.control h.stack]
  unfold drive
  rw [h.driver]
  rfl

theorem not_passes_of_error {error : EngineError}
    (hx : Program.exec (Eng.deliverMessage env m.vars id) c.engine = (.error error, e))
    (hpass : BpmnEngine.Passes (internalStep env) c c') : ¬Turn m rest c' := by
  intro hturn
  have hfailed : c.internalStep env = some { c with
      engine := e, control := .returning (.error error) } := by
    rw [h.internalStep_eq, exec_of_error hx]
    rfl
  have hanswered : internalStep env { c with engine := e, control := .returning (.error error) } =
      some (answer (.result (.error error)) { c with
        engine := e, control := .returning (.error error) }) := by
    rw [internalStep_driving (c := { c with
      engine := e, control := .returning (.error error) }) rfl h.stack]
    unfold drive
    rw [h.driver]
  rcases hpass.cases_next hfailed with rfl | hpass
  · exact absurd (h.ids_eq hturn) (List.cons_ne_self id rest)
  rcases hpass.cases_next hanswered with rfl | hpass
  · cases hturn.control
  · rcases Relation.ReflTransGen.cases_head hpass with rfl | ⟨d, hd, -⟩
    · cases hturn.control
    · cases hd

/-- Between two turns lie the delivery and its batch. -/
theorem passes_of_ok {next : Next}
    (hx : Program.exec (Eng.deliverMessage env m.vars id) c.engine = (.ok next, e))
    (hturn : Turn m rest c') :
    BpmnEngine.Passes (internalStep env) c c' ↔ BpmnEngine.Passes (internalStep env)
      (follow next { c with engine := e, driver := .messageCatches m rest }) c' := by
  have hstep : c.internalStep env =
      some (follow next { c with engine := e, driver := .messageCatches m rest }) := by
    rw [h.internalStep_eq, exec_of_ok hx]
  constructor
  · intro hpass
    rcases hpass.cases_next hstep with rfl | hpass
    · exact absurd (h.ids_eq hturn) (List.cons_ne_self id rest)
    · exact hpass
  · exact fun hpass => hpass.step hstep

end

end Turn

theorem exec_deliverMessage_none {vars : Variables} (h : e.pendingMessageCatches.find? id = none) :
    Program.exec (Eng.deliverMessage env vars id) e =
      (.error (.invalidDefinition s!"Message catch {id} disappeared"), e) := by
  rw [Eng.deliverMessage, exec_bind_ok (exec_get e), h]
  rfl

theorem Delivers.served (h : Delivers env m ids c) : Served env m ids c := by
  induction h with
  | starts => trivial
  | delivered hturn hpending hx hpass hrest ih =>
    exact ⟨hpending, _, _, hx, _, (hturn.passes_of_ok hx hrest.turn).mp hpass, hrest.turn, ih⟩
  | skipped hturn hgone hpass hrest =>
    exact absurd hrest.turn (hturn.not_passes_of_error (exec_deliverMessage_none hgone) hpass)

end Config

/-! ## An inquiry that is closed -/

def reached (c : Config) : List Uuid :=
  ((exec (Eng.messageCatches .plain "closed" none) c.engine).1.toOption).getD []

end BpmnEngine
