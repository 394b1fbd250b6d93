import BpmnEngine.GuardedRuns

/-!
# The audit log of an instance

Two helpers add entries to the audit log and drop the oldest ones beyond the limit; other parts
of the engine push entries without looking at it. Saving an instance cuts its log to the limit
and puts a marker in front of what is left. A log that was too long is therefore one line longer
than the limit afterwards, and the next save takes the marker for an entry and trims again.
-/
namespace BpmnEngine.AuditLog

def maxAuditLogEntries : Nat := 200

/-- Drops the oldest entries beyond the limit. -/
def drainOverflow (log : List String) : List String :=
  if maxAuditLogEntries < log.length then log.drop (log.length - maxAuditLogEntries) else log

def pushAuditLog (log : List String) (entry : String) : List String :=
  drainOverflow (log ++ [entry])

def appendAuditLog (log entries : List String) : List String := drainOverflow (log ++ entries)

def trimMarker (overflow : Nat) : String :=
  "... (" ++ toString overflow ++ " older entries trimmed, see History API)"

/-- What `persist_instance` does to the log. Without a store it returns at once. -/
def persistInstance (hasStore : Bool) (log : List String) : List String :=
  if hasStore ∧ maxAuditLogEntries < log.length then
    let overflow := log.length - maxAuditLogEntries
    trimMarker overflow :: log.drop overflow
  else log

/-- The log of an instance and all entries that were ever added to it. -/
structure State where
  added : List String
  log : List String

inductive Call where
  | push (entry : String)
  | append (entries : List String)
  | pushDirectly (entries : List String)
  | persist (hasStore : Bool)

def step (s : State) : Call → Option State
  | .push entry => some ⟨s.added ++ [entry], pushAuditLog s.log entry⟩
  | .append entries => some ⟨s.added ++ entries, appendAuditLog s.log entries⟩
  | .pushDirectly entries => some ⟨s.added ++ entries, s.log ++ entries⟩
  | .persist hasStore => some { s with log := persistInstance hasStore s.log }

/-- The log is made of the most recent entries, in order: all of them, or at least as many as the
limit. A marker stands only in front of so many. -/
def Recent (added log : List String) : Prop :=
  ∃ kept, kept <:+ added ∧ (kept = added ∨ maxAuditLogEntries ≤ kept.length) ∧
    (log = kept ∨ maxAuditLogEntries ≤ kept.length ∧ ∃ n, log = trimMarker n :: kept)

namespace Recent

variable {added log : List String}

theorem extend (h : Recent added log) (entries : List String) :
    Recent (added ++ entries) (log ++ entries) := by
  obtain ⟨kept, ⟨older, hkept⟩, hall, hlog⟩ := h
  have hlength : kept.length ≤ (kept ++ entries).length := by simp
  refine ⟨kept ++ entries, ⟨older, by rw [← hkept, List.append_assoc]⟩, ?_, ?_⟩
  · exact hall.imp (fun h => by rw [h]) (Nat.le_trans · hlength)
  · rcases hlog with rfl | ⟨hlong, n, rfl⟩
    · exact .inl rfl
    · exact .inr ⟨Nat.le_trans hlong hlength, n, rfl⟩

/-- The last entries of a log that is too long. A marker is not among them. -/
theorem drop_overflow (h : Recent added log) (hlong : maxAuditLogEntries < log.length) :
    log.drop (log.length - maxAuditLogEntries) <:+ added := by
  obtain ⟨kept, hkept, _, rfl | ⟨hmany, n, rfl⟩⟩ := h
  · exact (List.drop_suffix _ _).trans hkept
  · have hoverflow : (trimMarker n :: kept).length - maxAuditLogEntries =
        kept.length - maxAuditLogEntries + 1 := by
      simp only [List.length_cons]
      omega
    rw [hoverflow, List.drop_succ_cons]
    exact (List.drop_suffix _ _).trans hkept

theorem length_drop_overflow (hlong : maxAuditLogEntries < log.length) :
    maxAuditLogEntries ≤ (log.drop (log.length - maxAuditLogEntries)).length := by
  simp only [List.length_drop]
  omega

theorem drain (h : Recent added log) : Recent added (drainOverflow log) := by
  unfold drainOverflow
  split
  case isTrue hlong => exact ⟨_, h.drop_overflow hlong, .inr (length_drop_overflow hlong), .inl rfl⟩
  case isFalse => exact h

theorem persist (h : Recent added log) (hasStore : Bool) :
    Recent added (persistInstance hasStore log) := by
  unfold persistInstance
  split
  case isTrue hlong =>
    have hmany := length_drop_overflow hlong.2
    exact ⟨_, h.drop_overflow hlong.2, .inr hmany, .inr ⟨hmany, _, rfl⟩⟩
  case isFalse => exact h

theorem step {s t : State} {call : Call} (h : Recent s.added s.log)
    (hstep : step s call = some t) : Recent t.added t.log := by
  cases call with
  | push entry =>
    cases hstep
    exact (h.extend [entry]).drain
  | append entries =>
    cases hstep
    exact (h.extend entries).drain
  | pushDirectly entries =>
    cases hstep
    exact h.extend entries
  | persist hasStore =>
    cases hstep
    exact h.persist hasStore

end Recent

theorem persistInstance_of_le {hasStore : Bool} {log : List String}
    (h : log.length ≤ maxAuditLogEntries) : persistInstance hasStore log = log :=
  if_neg fun hlong => absurd hlong.2 (Nat.not_lt.mpr h)

theorem length_persistInstance_of_lt (hasStore : Bool) {log : List String}
    (h : maxAuditLogEntries < log.length) :
    maxAuditLogEntries < (persistInstance hasStore log).length := by
  unfold persistInstance
  split
  · simp only [List.length_cons, List.length_drop]
    omega
  · exact h

/-- Whatever was added to a log and however often it was saved: a save leaves the most recent
entries within the limit, and another one changes nothing, exactly if the log is within the limit
before. -/
theorem persistInstance_within_limit_iff {s : State}
    (h : Reaches step (fun _ _ => True) ⟨[], []⟩ s) (hasStore : Bool) :
    ((persistInstance hasStore s.log).length ≤ maxAuditLogEntries ∧
      Recent s.added (persistInstance hasStore s.log) ∧
      persistInstance hasStore (persistInstance hasStore s.log) =
        persistInstance hasStore s.log) ↔ s.log.length ≤ maxAuditLogEntries := by
  have hrecent : Recent s.added s.log := h.invariant (P := fun s => Recent s.added s.log)
    ⟨[], List.suffix_rfl, .inl rfl, .inl rfl⟩ fun _ _ _ hs _ ht => hs.step ht
  constructor
  · rintro ⟨hwithin, _, _⟩
    apply Nat.le_of_not_lt
    intro hlong
    have := length_persistInstance_of_lt hasStore hlong
    omega
  · intro hwithin
    refine ⟨?_, hrecent.persist hasStore, ?_⟩
    · rwa [persistInstance_of_le hwithin]
    · rw [persistInstance_of_le hwithin, persistInstance_of_le hwithin]

/-- Two entries too many leave a log that is over the limit and changes again with the next save. -/
theorem long_log_over_limit :
    ∃ s, Reaches step (fun _ _ => True) ⟨[], []⟩ s ∧
      (persistInstance true s.log).length = maxAuditLogEntries + 1 ∧
      persistInstance true (persistInstance true s.log) ≠ persistInstance true s.log := by
  have hstart : Reaches step (fun _ _ => True) ⟨[], []⟩ ⟨[], []⟩ := .start
  have hlong := hstart.next (a := .pushDirectly (List.replicate 202 "joined")) trivial rfl
  exact ⟨_, hlong, by decide +kernel, by decide +kernel⟩

theorem short_log_within_limit :
    ∃ s, Reaches step (fun _ _ => True) ⟨[], []⟩ s ∧ s.log = ["started"] ∧
      (persistInstance true s.log).length ≤ maxAuditLogEntries ∧
      Recent s.added (persistInstance true s.log) ∧
      persistInstance true (persistInstance true s.log) = persistInstance true s.log := by
  have hstart : Reaches step (fun _ _ => True) ⟨[], []⟩ ⟨[], []⟩ := .start
  have hshort := hstart.next (a := .push "started") trivial rfl
  exact ⟨_, hshort, rfl, (persistInstance_within_limit_iff hshort true).mpr (by decide)⟩

end BpmnEngine.AuditLog
