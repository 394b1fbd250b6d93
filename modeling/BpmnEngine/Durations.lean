import BpmnEngine.Documents
import BpmnEngine.Handlers

/-!
# Durations

The durations of timers: which texts are read as one, and what becomes of it when the timer is
armed. The scanner keeps no record of the units it has seen, so it reads more than
ISO 8601 allows. The reader counts in seconds of 64 bits, the arming in milliseconds of 63 bits
and then in dates that end earlier still.
-/
namespace BpmnEngine

namespace Parser

/-! ## The language of the scanner -/

/-- A piece of a duration: the `T`, or a number and its unit. -/
inductive DurationPart where
  | mark
  | component (number : List Char) (unit : Char)

namespace DurationPart

def text : DurationPart → List Char
  | mark => ['T']
  | component number unit => number ++ [unit]

def letter : DurationPart → Char
  | mark => 'T'
  | component _ unit => unit

def WellFormed : DurationPart → Prop
  | mark => True
  | component number _ => number ≠ [] ∧ ∀ c ∈ number, isDigit c

def isComponent : DurationPart → Bool
  | mark => false
  | component .. => true

/-- The seconds of the parts that follow, before or behind the `T`, if each unit is one of its
side. -/
def seconds : Bool → List DurationPart → Option Nat
  | _, [] => some 0
  | _, mark :: rest => seconds true rest
  | time, component number unit :: rest =>
    (unitSeconds time unit).bind fun length =>
      (seconds time rest).map fun more => digitsValue number * length + more

end DurationPart

open DurationPart

def letters (text : String) : List Char := (trim text).toList.tail.filter fun c => !isDigit c

/-- The text consists of numbers with units and marks, in any order, and has this length. -/
structure Reads (text : String) (parts : List DurationPart) (secs : Nat) : Prop where
  spelled : (trim text).toList = 'P' :: parts.flatMap DurationPart.text
  wellFormed : ∀ part ∈ parts, part.WellFormed
  some_component : parts.any isComponent
  length : seconds false parts = some secs
  fits : secs < 2 ^ 64

/-- Date units in their order, each at most once, and perhaps a `T` and time units behind it. -/
def InOrder (letters : List Char) : Prop :=
  ∃ date time, date.Sublist ['Y', 'M', 'W', 'D'] ∧ time.Sublist ['H', 'M', 'S'] ∧
    (letters = date ∨ time ≠ [] ∧ letters = date ++ 'T' :: time)

/-- A duration of ISO 8601 that lasts so many seconds. -/
def Iso8601 (text : String) (secs : Nat) : Prop :=
  ∃ parts, Reads text parts secs ∧ InOrder (parts.map letter)

/-! ## Units and numbers -/

theorem unitSeconds_spec {time : Bool} {c : Char} {n : Nat} (h : unitSeconds time c = some n) :
    0 < n ∧ isDigit c = false ∧ c ≠ 'T' := by
  unfold unitSeconds at h
  split at h <;> first | (cases h; decide) | cases h

variable {number : List Char}

theorem parseUnsigned_digits {bits : Nat} (hne : number ≠ []) (hdigits : ∀ c ∈ number, isDigit c) :
    parseUnsigned bits number =
      if digitsValue number < 2 ^ bits then some (digitsValue number) else none := by
  have hall : number.all isDigit = true := List.all_eq_true.2 hdigits
  unfold parseUnsigned
  split
  · exact absurd (hdigits '+' List.mem_cons_self) (by decide)
  · by_cases hfits : digitsValue number < 2 ^ bits
    · simp [hne, hall, hfits]
    · simp [hfits, Nat.not_lt.1 hfits]

/-! ## The loop -/

variable {s : String} {parts : List DurationPart}

theorem scanDuration_ok_iff {scan r : DurationScan} {c : Char}
    (hdigits : ∀ c ∈ scan.currentNum, isDigit c) :
    scanDuration s scan c = .ok r ↔
      (c = 'T' ∧ scan.currentNum = [] ∧ r = { scan with inTimePart := true }) ∨
      (isDigit c ∧ r = { scan with currentNum := scan.currentNum ++ [c] }) ∨
      (scan.currentNum ≠ [] ∧ ∃ length, unitSeconds scan.inTimePart c = some length ∧
        scan.totalSecs + digitsValue scan.currentNum * length < 2 ^ 64 ∧
        r = ⟨scan.totalSecs + digitsValue scan.currentNum * length, [],
          scan.inTimePart, true⟩) := by
  unfold scanDuration
  by_cases hT : c = 'T'
  · subst hT
    have hunit : unitSeconds scan.inTimePart 'T' = none := by cases scan.inTimePart <;> rfl
    have hdigit : isDigit 'T' = false := by decide
    cases hnum : scan.currentNum <;> simp [hunit, hdigit, invalid, pure, Except.pure, eq_comm]
  · by_cases hc : isDigit c = true
    · have hunit : unitSeconds scan.inTimePart c = none := by
        by_contra hsome
        obtain ⟨length, hlength⟩ := Option.ne_none_iff_exists'.1 hsome
        simp [(unitSeconds_spec hlength).2.1] at hc
      simp [hT, hc, hunit, pure, Except.pure, eq_comm]
    · by_cases hne : scan.currentNum = []
      · simp [hT, hc, hne, invalid]
      · have hnumber : parseUnsigned 64 scan.currentNum = _ := parseUnsigned_digits hne hdigits
        cases hunit : unitSeconds scan.inTimePart c with
        | none => cases hread : parseUnsigned 64 scan.currentNum <;> simp [hT, hc, hne, invalid]
        | some length =>
          have hle := Nat.le_mul_of_pos_right (digitsValue scan.currentNum)
            (unitSeconds_spec hunit).1
          generalize 2 ^ 64 = bound at hnumber ⊢
          by_cases hfits : scan.totalSecs + digitsValue scan.currentNum * length < bound
          · have hvalue : digitsValue scan.currentNum < bound := by omega
            have hproduct : ¬ bound ≤ digitsValue scan.currentNum * length := by omega
            rw [hnumber, if_pos hvalue]
            have hsum := Nat.not_le.2 hfits
            simp [hT, hc, hne, hproduct, hsum, hfits, pure, Except.pure, @eq_comm _ r]
          · by_cases hvalue : digitsValue scan.currentNum < bound
            · rw [hnumber, if_pos hvalue]
              by_cases hproduct : bound ≤ digitsValue scan.currentNum * length <;>
                simp [hT, hc, hne, hproduct, hfits, Nat.not_lt.1 hfits, invalid]
            · rw [hnumber, if_neg hvalue]
              simp [hT, hc, hne, hfits, invalid]

theorem scan_digits (hdigits : ∀ c ∈ number, isDigit c) (scan : DurationScan)
    (hscan : ∀ c ∈ scan.currentNum, isDigit c) : number.foldlM (scanDuration s) scan =
      .ok { scan with currentNum := scan.currentNum ++ number } := by
  induction number generalizing scan with
  | nil => simp [pure, Except.pure]
  | cons c rest ih =>
    have hc : isDigit c = true := hdigits c List.mem_cons_self
    rw [List.foldlM_cons, (scanDuration_ok_iff hscan).2 (.inr (.inl ⟨hc, rfl⟩))]
    change rest.foldlM (scanDuration s) _ = _
    rw [ih fun c' h => hdigits c' (List.mem_cons_of_mem _ h)]
    · simp
    · simpa [or_imp, forall_and, hc] using hscan

theorem seconds_cons {time : Bool} {part : DurationPart} {n : Nat} :
    seconds time (part :: parts) = some n ↔ (part = .mark ∧ seconds true parts = some n) ∨
      ∃ number unit length more, part = .component number unit ∧
        unitSeconds time unit = some length ∧ seconds time parts = some more ∧
        n = digitsValue number * length + more := by
  cases part with
  | mark => simp [seconds]
  | component => simp [seconds, Option.bind_eq_some_iff, @eq_comm _ n]

theorem scan_parts {total n : Nat} {time has : Bool} (hparts : ∀ part ∈ parts, part.WellFormed)
    (hn : seconds time parts = some n) (hfits : total + n < 2 ^ 64) :
    ∃ time', (parts.flatMap DurationPart.text).foldlM (scanDuration s) ⟨total, [], time, has⟩ =
      .ok ⟨total + n, [], time', has || parts.any isComponent⟩ := by
  induction parts generalizing total n time has with
  | nil =>
    cases hn
    exact ⟨time, by simp [pure, Except.pure]⟩
  | cons part parts ih =>
    have hrest := fun p h => hparts p (List.mem_cons_of_mem _ h)
    rw [List.flatMap_cons, List.foldlM_append]
    rcases seconds_cons.1 hn with ⟨rfl, hn⟩ | ⟨number, unit, length, more, rfl, hunit, hmore, rfl⟩
    · obtain ⟨time', h⟩ := ih hrest hn hfits
      exact ⟨time', h⟩
    · obtain ⟨hne, hdigits⟩ := hparts _ List.mem_cons_self
      have hsum : total + digitsValue number * length < 2 ^ 64 := by omega
      obtain ⟨time', h⟩ := @ih (total + digitsValue number * length) more time true hrest hmore
        (by omega)
      have hstep : scanDuration s ⟨total, number, time, has⟩ unit =
          .ok ⟨total + digitsValue number * length, [], time, true⟩ :=
        (scanDuration_ok_iff hdigits).2 (.inr (.inr ⟨hne, length, hunit, hsum, rfl⟩))
      refine ⟨time', ?_⟩
      rw [DurationPart.text, List.foldlM_append, scan_digits hdigits _ (by simp)]
      change ((scanDuration s ⟨total, number, time, has⟩ unit) >>= fun r => pure r) >>= _ = _
      rw [hstep]
      simp only [Nat.add_assoc, isComponent, List.any_cons, Bool.or_true, Bool.true_or] at h ⊢
      exact h

/-- What the scanner has read is a list of parts, the pending digits included. -/
theorem parts_of_scan {body : List Char} {scan r : DurationScan}
    (hdigits : ∀ c ∈ scan.currentNum, isDigit c)
    (h : body.foldlM (scanDuration s) scan = .ok r) (hr : r.currentNum = []) :
    ∃ parts n, scan.currentNum ++ body = parts.flatMap DurationPart.text ∧
      (∀ part ∈ parts, part.WellFormed) ∧ seconds scan.inTimePart parts = some n ∧
      r.totalSecs = scan.totalSecs + n ∧ (scan.totalSecs < 2 ^ 64 → r.totalSecs < 2 ^ 64) ∧
      r.hasValue = (scan.hasValue || parts.any isComponent) := by
  induction body generalizing scan with
  | nil =>
    cases h
    exact ⟨[], 0, by simp [hr], by simp, rfl, rfl, id, by simp⟩
  | cons c body ih =>
    rw [List.foldlM_cons] at h
    cases hstep : scanDuration s scan c with
    | error => simp [hstep, bind, Except.bind] at h
    | ok =>
      rw [hstep] at h
      rcases (scanDuration_ok_iff hdigits).1 hstep with
        ⟨rfl, hnum, rfl⟩ | ⟨hc, rfl⟩ | ⟨hne, length, hunit, hfits, rfl⟩
      · obtain ⟨parts, n, hbody, hparts, hn, htotal, hbound, hhas⟩ := ih (by simp [hnum]) h
        refine ⟨.mark :: parts, n, ?_, ?_, hn, htotal, hbound, ?_⟩
        · simpa [hnum, DurationPart.text] using hbody
        · simpa [DurationPart.WellFormed] using hparts
        · simpa [isComponent] using hhas
      · obtain ⟨parts, n, hbody, hrest⟩ :=
          ih (by simpa [or_imp, forall_and, hc] using hdigits) h
        exact ⟨parts, n, by simpa using hbody, hrest⟩
      · obtain ⟨parts, n, hbody, hparts, hn, htotal, hbound, hhas⟩ := ih (by simp) h
        refine ⟨.component scan.currentNum c :: parts,
          digitsValue scan.currentNum * length + n, ?_, ?_, ?_, ?_, fun _ => hbound hfits, ?_⟩
        · simpa [DurationPart.text] using hbody
        · exact List.forall_mem_cons.2 ⟨⟨hne, hdigits⟩, hparts⟩
        · exact seconds_cons.2 (.inr ⟨_, _, _, _, rfl, hunit, hn, rfl⟩)
        · simp only at htotal
          omega
        · simpa [isComponent] using hhas

/-! ## Accepted texts -/

variable {text : String}

theorem parseIso8601Duration_ok_iff {length : Nat} :
    parseIso8601Duration text = .ok length ↔
      ∃ parts secs, Reads text parts secs ∧ length = secs * 1000000000 := by
  constructor
  · intro h
    simp only [parseIso8601Duration] at h
    split at h
    · cases h
    · cases h
    · next body _ hbody =>
      cases hscan : body.foldlM (scanDuration (trim text)) {} with
      | error => simp [hscan, bind, Except.bind] at h
      | ok scan =>
        by_cases hnum : scan.currentNum = []
        · by_cases hhas : scan.hasValue = true
          · obtain ⟨parts, n, hparts, hwell, hn, htotal, hfits, hany⟩ :=
              parts_of_scan (by simp) hscan hnum
            simp only [Nat.zero_add] at htotal
            simp [hscan, hnum, hhas, htotal, bind, Except.bind, pure, Except.pure] at h
            refine ⟨parts, n, ⟨?_, hwell, ?_, hn, ?_⟩, h.symm⟩
            · simpa [hbody] using hparts
            · simpa [hhas] using hany.symm
            · exact htotal ▸ hfits (by decide)
          · simp [hscan, hnum, hhas, invalid, bind, Except.bind] at h
        · simp [hscan, hnum, invalid, bind, Except.bind] at h
    · cases h
  · rintro ⟨parts, secs, hreads, rfl⟩
    obtain ⟨time, hscan⟩ := @scan_parts (trim text) parts 0 secs false false
      hreads.wellFormed hreads.length (by simpa using hreads.fits)
    simp only [parseIso8601Duration, hreads.spelled]
    split
    · next h => cases h
    · next h =>
      simp [(List.cons.inj h).2, hreads.some_component, pure, Except.pure] at hscan
    · next body _ h =>
      cases h
      simp [hscan, hreads.some_component, bind, Except.bind, pure, Except.pure]
    · next h => exact absurd rfl (h _)

theorem filter_spelled {time : Bool} {n : Nat} (hparts : ∀ part ∈ parts, part.WellFormed)
    (hn : seconds time parts = some n) :
    (parts.flatMap DurationPart.text).filter (fun c => !isDigit c) = parts.map letter := by
  induction parts generalizing time n with
  | nil => rfl
  | cons part parts ih =>
    have hrest := fun p h => hparts p (List.mem_cons_of_mem _ h)
    rw [List.flatMap_cons, List.filter_append, List.map_cons]
    rcases seconds_cons.1 hn with ⟨rfl, hn⟩ | ⟨number, unit, length, more, rfl, hunit, hmore, rfl⟩
    · rw [ih hrest hn]
      rfl
    · have hdigits : ∀ c ∈ number, isDigit c := (hparts _ List.mem_cons_self).2
      rw [ih hrest hmore, DurationPart.text, List.filter_append,
        List.filter_eq_nil_iff.2 (by simpa using hdigits)]
      simp [letter, (unitSeconds_spec hunit).2.1]

theorem Reads.letters {secs : Nat} (h : Reads text parts secs) :
    letters text = parts.map letter := by
  rw [Parser.letters, h.spelled]
  exact filter_spelled h.wellFormed h.length

/-- A text is accepted exactly as ISO 8601 has it, with the sum of its components, if and only if
its letters are in order or it could not be read in any order. -/
theorem parseIso8601Duration_iso8601_iff (text : String) :
    (∀ length, parseIso8601Duration text = .ok length ↔
      ∃ secs, Iso8601 text secs ∧ length = secs * 1000000000) ↔
    ((∃ parts secs, Reads text parts secs) → InOrder (letters text)) := by
  constructor
  · rintro h ⟨parts, secs, hreads⟩
    obtain ⟨_, ⟨parts', hreads', horder⟩, -⟩ :=
      (h _).1 (parseIso8601Duration_ok_iff.2 ⟨parts, secs, hreads, rfl⟩)
    rwa [hreads'.letters]
  · intro h length
    rw [parseIso8601Duration_ok_iff]
    constructor
    · rintro ⟨parts, secs, hreads, rfl⟩
      have horder := h ⟨parts, secs, hreads⟩
      rw [hreads.letters] at horder
      exact ⟨secs, ⟨parts, hreads, horder⟩, rfl⟩
    · rintro ⟨secs, ⟨parts, hreads, -⟩, rfl⟩
      exact ⟨parts, secs, hreads, rfl⟩

/-- A `T` that nothing follows is read as if it were not there. -/
theorem parseIso8601Duration_trailing_mark :
    parseIso8601Duration "P1DT" = .ok (86400 * 1000000000) ∧ ∀ secs, ¬ Iso8601 "P1DT" secs := by
  refine ⟨by decide +kernel, ?_⟩
  rintro secs ⟨parts, hreads, horder⟩
  have hletters : letters "P1DT" = ['D', 'T'] := by decide +kernel
  rw [← hreads.letters, hletters] at horder
  obtain ⟨date, time, hdate, htime, rfl | ⟨hne, h⟩⟩ := horder
  · exact absurd (hdate.subset (List.mem_cons_of_mem _ List.mem_cons_self)) (by decide)
  · have hmem : 'T' ∉ time := fun hmem => absurd (htime.subset hmem) (by decide)
    have hlast : ['D', 'T'].getLast? = (date ++ 'T' :: time).getLast? := by rw [h]
    rw [List.getLast?_append_of_ne_nil _ (by simp), List.getLast?_cons_of_ne_nil hne] at hlast
    exact hmem (List.mem_of_getLast? hlast.symm)

end Parser

/-! ## Arming -/

namespace TimerDefinition

/-- The last instant of the calendar, in nanoseconds: the end of the year 262142. -/
def maxDate : Time := 8210266876799999999999

def length? : TimerDefinition → Option Nat
  | .duration length | .repeatingInterval _ length => some length
  | .absoluteDate _ | .cronCycle .. => none

/-- The next expiry as the calendar library computes it: without a value if it panics, which it
does when the sum is no date. -/
def checkedNextExpiry (env : Env) (now : Time) (timer : TimerDefinition) : Option (Option Time) :=
  match timer.length?, timer.nextExpiry env now with
  | some _, some expiresAt => if expiresAt ≤ maxDate then some (some expiresAt) else none
  | _, expiry => some expiry

/-- The places where timers are armed: the waits of tokens and of scope listeners, the
subscriptions of event subprocesses, and the repetitions of both. -/
inductive ArmingSite where
  | wait
  | subscription
  | repetition

/-- The expiry a timer is armed with, if it is; without a value if the arming panics. -/
def arm (env : Env) (now : Time) (timer : TimerDefinition) : ArmingSite → Option (Option Time)
  | .wait => (timer.checkedNextExpiry env now).map fun expiry => some (expiry.getD now)
  | .subscription | .repetition => timer.checkedNextExpiry env now

variable {env : Env} {now : Time} {timer : TimerDefinition} {armed : Option Time}
  {handler : EventSubProcess} {instanceId : Uuid}

theorem nextExpiry_of_checked {expiry : Option Time}
    (h : timer.checkedNextExpiry env now = some expiry) : timer.nextExpiry env now = expiry := by
  unfold checkedNextExpiry at h
  split at h
  · next hexpiry =>
    split at h
    · cases h
      exact hexpiry
    · cases h
  · exact Option.some.inj h

theorem timerFor_expiresAt {id tokenId : Uuid} {node : String}
    (h : timer.arm env now .wait = some armed) :
    armed = some (Eng.timerFor env now id instanceId node tokenId timer).expiresAt := by
  obtain ⟨expiry, hexpiry, rfl⟩ := Option.map_eq_some_iff.1 h
  rw [← nextExpiry_of_checked hexpiry]
  rfl

theorem subscriptionFor_nextDue {id : Uuid} (htimer : handler.trigger = .timer timer)
    (h : timer.arm env now .subscription = some armed) :
    (Eng.subscriptionFor env instanceId now handler id).bind (·.1.nextDue) = armed := by
  rw [← nextExpiry_of_checked h, Eng.subscriptionFor, htimer]
  cases hexpiry : timer.nextExpiry env now <;> simp [hexpiry]

theorem rescheduleTimer_expiresAt {subscription : EventSubscription} {again : TimerReschedule}
    (htimer : handler.trigger = .timer timer)
    (hagain : rescheduleTimer env handler subscription now = some again)
    (h : timer.arm env now .repetition = some armed) : armed = some again.expiresAt := by
  rw [← nextExpiry_of_checked h]
  unfold rescheduleTimer at hagain
  split at hagain
  · next timer' _ htimer' =>
    cases htimer.symm.trans htimer'
    split at hagain
    · obtain ⟨expiresAt, hexpiry, rfl⟩ := Option.map_eq_some_iff.1 hagain
      exact hexpiry
    · cases hagain
  · cases hagain

theorem nextExpiry_of_length {length : Nat} (h : timer.length? = some length) :
    timer.nextExpiry env now = if length ≤ maxDuration then some (now + length) else none := by
  cases timer with
  | duration | repeatingInterval =>
    cases h
    rfl
  | absoluteDate | cronCycle => cases h

theorem checkedNextExpiry_of_length {length : Nat} (h : timer.length? = some length) :
    timer.checkedNextExpiry env now =
      if length ≤ maxDuration then
        if now + length ≤ maxDate then some (some (now + length)) else none
      else some none := by
  rw [checkedNextExpiry, nextExpiry_of_length h, h]
  by_cases hfits : length ≤ maxDuration <;> simp [hfits]

theorem checkedNextExpiry_of_no_length (h : timer.length? = none) :
    timer.checkedNextExpiry env now = some (timer.nextExpiry env now) := by
  rw [checkedNextExpiry, h]

/-- Arming never panics and never shortens a duration or an interval, wherever it happens, if
and only if the length can be added and leads to a date of the calendar. A length that is too long
to be added makes a wait due at once; one that leads beyond the calendar makes every arming
panic. -/
theorem arms_in_time_iff (env : Env) (now : Time) (timer : TimerDefinition) :
    (∀ site, ∃ armed, timer.arm env now site = some armed ∧
      ∀ expiresAt ∈ armed, ∀ length ∈ timer.length?, now + length ≤ expiresAt) ↔
    ∀ length ∈ timer.length?, length ≤ maxDuration ∧ now + length ≤ maxDate := by
  cases hlength : timer.length? with
  | none =>
    simp only [Option.not_mem_none, false_imp_iff, implies_true, and_true, iff_true]
    intro site
    cases site <;> simp [arm, checkedNextExpiry_of_no_length hlength]
  | some length =>
    have hchecked := @checkedNextExpiry_of_length env now timer length hlength
    by_cases hfits : length ≤ maxDuration
    · by_cases hdate : now + length ≤ maxDate
      · rw [if_pos hfits, if_pos hdate] at hchecked
        simp only [Option.mem_some_iff, forall_eq', hfits, hdate, and_self, iff_true]
        intro site
        cases site <;> simp [arm, hchecked]
      · rw [if_pos hfits, if_neg hdate] at hchecked
        simp only [Option.mem_some_iff, forall_eq', hdate, and_false, iff_false]
        intro h
        obtain ⟨armed, harmed, -⟩ := h .wait
        simp [arm, hchecked] at harmed
    · rw [if_neg hfits] at hchecked
      simp only [Option.mem_some_iff, forall_eq', hfits, false_and, iff_false]
      intro h
      obtain ⟨armed, harmed, hbound⟩ := h .wait
      simp only [arm, hchecked, Option.map_some, Option.getD_none, Option.some.injEq] at harmed
      have hnow : now + length ≤ now := hbound now harmed.symm
      have hzero : (length : Int) ≤ 0 :=
        Int.le_of_add_le_add_left (hnow.trans_eq (Int.add_zero now).symm)
      omega

/-- The reader accepts both: the first panics, the second is armed as already due. -/
theorem arming_of_accepted_durations :
    (Parser.parseTimerDefinition .plain "timer" ⟨some "P300000Y", none, none⟩ =
        .ok (.duration (300000 * 365 * 86400 * 1000000000)) ∧
      (TimerDefinition.duration (300000 * 365 * 86400 * 1000000000)).arm .plain 0 .wait = none) ∧
    Parser.parseTimerDefinition .plain "timer" ⟨some "PT9223372036854776S", none, none⟩ =
        .ok (.duration (9223372036854776 * 1000000000)) ∧
      (TimerDefinition.duration (9223372036854776 * 1000000000)).arm .plain 0 .wait =
        some (some 0) := by
  decide +kernel

end TimerDefinition

end BpmnEngine
