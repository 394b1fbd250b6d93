import BpmnEngine.EventScopes

/-!
# Which handler catches a code

An error or an escalation may match several handlers, some for its code and some for
every code. The boundary events of a definition are searched in the order in which its
node map is visited, and the first one that matches is taken; the handlers of event
subprocesses are compared with each other. A search for the first match takes the same
candidate in every order only if there is no second one, whereas the comparison always
prefers a handler for the code.
-/
namespace BpmnEngine

/-! ## Choices among candidates -/

section Choice

variable {α β κ : Type} {f : α → Option β} {l : List α}

/-- A choice takes a candidate if there is one, and a specific one if there is one of these. -/
structure MostSpecific (specific : α → Prop) (candidates : List α) (choice : Option α) : Prop where
  mem : ∀ a, choice = some a → a ∈ candidates
  taken : candidates ≠ [] → choice ≠ none
  specific : ∀ a b, choice = some a → b ∈ candidates → specific b → specific a

theorem MostSpecific.none (specific : α → Prop) : MostSpecific specific [] none :=
  ⟨nofun, fun h => (h rfl).elim, nofun⟩

theorem MostSpecific.singleton (specific : α → Prop) (a : α) :
    MostSpecific specific [a] (some a) := by
  refine ⟨?_, fun _ => Option.some_ne_none a, ?_⟩
  · rintro b hb
    cases hb
    exact List.mem_singleton_self a
  · rintro b c hb hc hspecific
    cases hb
    rwa [List.mem_singleton.mp hc] at hspecific

theorem nodup_filterMap (keyOf : β → κ) (key : α → κ)
    (hkey : ∀ a b, f a = some b → keyOf b = key a) (h : (l.map key).Nodup) :
    (l.filterMap f).Nodup := by
  induction l with
  | nil => exact List.nodup_nil
  | cons a rest ih =>
    obtain ⟨hnew, hrest⟩ := List.nodup_cons.mp h
    cases hfound : f a with
    | none =>
      rw [List.filterMap_cons_none hfound]
      exact ih hrest
    | some b =>
      rw [List.filterMap_cons_some hfound]
      refine List.nodup_cons.mpr ⟨fun hb => hnew ?_, ih hrest⟩
      obtain ⟨a', ha', hb'⟩ := List.mem_filterMap.mp hb
      have hsame : key a' = key a := (hkey a' b hb').symm.trans (hkey a b hfound)
      exact List.mem_map.mpr ⟨a', ha', hsame⟩

/-- The first match is the same in every order, and a most specific one, exactly if there is at
most one match. -/
theorem findSome?_settled_iff {specific : β → Prop} (hnodup : (l.filterMap f).Nodup) :
    (∀ l' : List α, l'.Perm l → l'.findSome? f = l.findSome? f ∧
      MostSpecific specific (l.filterMap f) (l'.findSome? f)) ↔ (l.filterMap f).length ≤ 1 := by
  constructor
  · intro h
    match hmatches : l.filterMap f with
    | [] => exact Nat.zero_le 1
    | [_] => exact Nat.le_refl 1
    | b₁ :: b₂ :: rest =>
      -- visit the second match before everything else
      have hsecond : b₂ ∈ l.filterMap f := by simp [hmatches]
      obtain ⟨a, ha, hfound⟩ := List.mem_filterMap.mp hsecond
      obtain ⟨s, t, rfl⟩ := List.append_of_mem ha
      have hfirst : (s ++ a :: t).findSome? f = some b₁ := by
        rw [← List.head?_filterMap, hmatches]
        rfl
      have hsame := (h (a :: (s ++ t)) List.perm_middle.symm).1
      rw [hfirst, List.findSome?_cons_of_isSome (by simp [hfound]), hfound] at hsame
      rw [hmatches, Option.some.inj hsame] at hnodup
      simp at hnodup
  · intro hone l' hperm
    rw [← List.head?_filterMap, ← List.head?_filterMap]
    have hmatches := hperm.filterMap f
    match hl : l.filterMap f with
    | [] =>
      rw [hl] at hmatches
      rw [hmatches.eq_nil]
      exact ⟨rfl, .none specific⟩
    | [b] =>
      rw [hl] at hmatches
      rw [List.perm_singleton.mp hmatches]
      exact ⟨rfl, .singleton specific b⟩
    | _ :: _ :: _ =>
      rw [hl] at hone
      simp at hone

/-- The better one of the best candidate so far and the next one. -/
def keepBetter (better : α → α → Bool) (best : Option α) (c : α) : Option α :=
  match best with
  | none => some c
  | some b => if better c b then some c else some b

theorem mostSpecific_foldl {specific : α → Prop} {better : α → α → Bool}
    (hbetter : ∀ a b, specific a → ¬specific b → better a b = true)
    (hkeeps : ∀ a b, better a b = true → specific b → specific a) (candidates : List α) :
    MostSpecific specific candidates (candidates.foldl (keepBetter better) none) := by
  induction candidates using List.reverseRecOn with
  | nil => exact .none specific
  | append_singleton earlier c ih =>
    rw [List.foldl_append, List.foldl_cons, List.foldl_nil]
    unfold keepBetter
    split
    case h_1 hnone =>
      have hempty : earlier = [] := by
        by_contra hne
        exact ih.taken hne hnone
      subst hempty
      exact .singleton specific c
    case h_2 b hb =>
      have hmem : b ∈ earlier := ih.mem b hb
      split
      case isTrue hc =>
        refine ⟨?_, fun _ => Option.some_ne_none c, ?_⟩
        · rintro a ha
          cases ha
          simp
        · rintro a a' ha ha' hspecific
          cases ha
          rcases List.mem_append.mp ha' with ha' | ha'
          · exact hkeeps c b hc (ih.specific b a' hb ha' hspecific)
          · rwa [List.mem_singleton.mp ha'] at hspecific
      case isFalse hc =>
        refine ⟨?_, fun _ => Option.some_ne_none b, ?_⟩
        · rintro a ha
          cases ha
          exact List.mem_append_left _ hmem
        · rintro a a' ha ha' hspecific
          cases ha
          rcases List.mem_append.mp ha' with ha' | ha'
          · exact ih.specific b a' hb ha' hspecific
          · rw [List.mem_singleton.mp ha'] at hspecific
            by_contra hnot
            exact hc (hbetter c b hspecific hnot)

end Choice

/-! ## Boundary events -/

namespace ProcessDefinition

/-- The same definition, whose node map is visited in another order. -/
structure Reordered (d d' : ProcessDefinition) : Prop where
  nodes : d'.nodes.entries.Perm d.nodes.entries
  rest : d' = { d with nodes := d'.nodes }

/-- A boundary error event of the activity that matches the code. -/
def errorEvent? (activity code : String) (node : String × BpmnElement) : Option String :=
  match node.2 with
  | .boundaryErrorEvent attachedTo bound =>
    if attachedTo = activity ∧ (bound = none ∨ bound = some code) then some node.1 else none
  | _ => none

/-- A boundary escalation event that matches the code, the activity it is attached to, and whether
it ends that activity. -/
def escalationEvent? (code : String) (node : String × BpmnElement) :
    Option (String × String × Bool) :=
  match node.2 with
  | .boundaryEscalationEvent attachedTo bound cancelActivity =>
    if bound = none ∨ bound = some code then some (node.1, attachedTo, cancelActivity) else none
  | _ => none

def errorEvents (d : ProcessDefinition) (activity code : String) : List String :=
  d.nodes.entries.filterMap (errorEvent? activity code)

def escalationEvents (d : ProcessDefinition) (code : String) : List (String × String × Bool) :=
  d.nodes.entries.filterMap (escalationEvent? code)

def IsErrorEventFor (d : ProcessDefinition) (activity code node : String) : Prop :=
  d.getNode node = some (.boundaryErrorEvent activity (some code))

def IsEscalationEventFor (d : ProcessDefinition) (code : String)
    (event : String × String × Bool) : Prop :=
  d.getNode event.1 = some (.boundaryEscalationEvent event.2.1 (some code) event.2.2)

variable {d : ProcessDefinition} {activity code : String}

theorem findBoundaryErrorEvent_eq :
    d.findBoundaryErrorEvent activity code =
      d.nodes.entries.findSome? (errorEvent? activity code) := by
  rw [findBoundaryErrorEvent, ← List.findSome?_guard, List.map_findSome?]
  congr 1
  funext ⟨id, element⟩
  unfold errorEvent? Option.guard
  cases element <;> simp

theorem findAnyBoundaryEscalationEvent_eq :
    d.findAnyBoundaryEscalationEvent code = d.nodes.entries.findSome? (escalationEvent? code) := by
  rw [findAnyBoundaryEscalationEvent]
  congr 1
  funext ⟨id, element⟩
  unfold escalationEvent?
  cases element <;> simp

theorem forall_reordered_iff {P : List (String × BpmnElement) → Prop} :
    (∀ d', d.Reordered d' → P d'.nodes.entries) ↔
      ∀ l : List (String × BpmnElement), l.Perm d.nodes.entries → P l := by
  constructor
  · intro h l hperm
    have hnodup : (l.map Prod.fst).Nodup := (hperm.map Prod.fst).nodup_iff.mpr d.nodes.keysNodup
    exact h { d with nodes := ⟨l, hnodup⟩ } ⟨hperm, rfl⟩
  · intro h d' hd'
    exact h d'.nodes.entries hd'.nodes

theorem errorEvents_nodup : (d.errorEvents activity code).Nodup := by
  have hkey : ∀ node id, errorEvent? activity code node = some id → id = node.1 := by
    intro node id hid
    unfold errorEvent? at hid
    split at hid
    · exact (Option.some.inj (Option.ite_none_right_eq_some.mp hid).2).symm
    · cases hid
  exact nodup_filterMap (fun id => id) Prod.fst hkey d.nodes.keysNodup

theorem escalationEvents_nodup : (d.escalationEvents code).Nodup := by
  rw [escalationEvents]
  refine nodup_filterMap Prod.fst Prod.fst (fun node event hevent => ?_) d.nodes.keysNodup
  unfold escalationEvent? at hevent
  split at hevent
  · exact congrArg Prod.fst (Option.some.inj (Option.ite_none_right_eq_some.mp hevent).2).symm
  · cases hevent

/-- The boundary error event that is found is the same in every order, and one for the code if
there is one, exactly if no two of them match. -/
theorem findBoundaryErrorEvent_settled_iff :
    (∀ d', d.Reordered d' →
      d'.findBoundaryErrorEvent activity code = d.findBoundaryErrorEvent activity code ∧
      MostSpecific (d.IsErrorEventFor activity code) (d.errorEvents activity code)
        (d'.findBoundaryErrorEvent activity code)) ↔
      (d.errorEvents activity code).length ≤ 1 := by
  simp only [findBoundaryErrorEvent_eq]
  exact forall_reordered_iff.trans (findSome?_settled_iff errorEvents_nodup)

theorem findAnyBoundaryEscalationEvent_settled_iff :
    (∀ d', d.Reordered d' →
      d'.findAnyBoundaryEscalationEvent code = d.findAnyBoundaryEscalationEvent code ∧
      MostSpecific (d.IsEscalationEventFor code) (d.escalationEvents code)
        (d'.findAnyBoundaryEscalationEvent code)) ↔ (d.escalationEvents code).length ≤ 1 := by
  simp only [findAnyBoundaryEscalationEvent_eq]
  exact forall_reordered_iff.trans (findSome?_settled_iff escalationEvents_nodup)

end ProcessDefinition

/-! ## Handlers of event subprocesses -/

namespace Eng

def IsHandlerFor (code : String) (escalation : Bool)
    (c : Bool × EventSubscription × EventSubProcess) : Prop :=
  expectedCode c.2.2 escalation = some (some code)

variable {d : ProcessDefinition} {subscriptions : List EventSubscription} {code : String}
  {escalation : Bool} {exclude : Option String}

/-- A candidate is an open subscription of a handler that catches the code, and its first part says
whether the handler catches every code. -/
theorem mem_codeCandidates {c : Bool × EventSubscription × EventSubProcess} :
    c ∈ codeCandidates d subscriptions code escalation exclude ↔
      c.2.1 ∈ subscriptions ∧ exclude ≠ some c.2.1.subprocessId ∧
        d.eventSubprocessById c.2.1.subprocessId = some c.2.2 ∧
        (c.1 = true ∧ expectedCode c.2.2 escalation = some none ∨
          c.1 = false ∧ IsHandlerFor code escalation c) := by
  obtain ⟨all, subscription, handler⟩ := c
  have hmatch : ∀ expected : Option String,
      ((expected.all fun x => x == code) = true ∧ expected.isNone = all) ↔
        all = true ∧ expected = none ∨ all = false ∧ expected = some code := by
    intro expected
    cases expected <;> cases all <;> simp
  simp only [codeCandidates, List.mem_filterMap, IsHandlerFor]
  constructor
  · rintro ⟨s, hs, hfound⟩
    split at hfound
    · cases hfound
    · next hexclude =>
        obtain ⟨h, hh, hfound⟩ := Option.bind_eq_some_iff.mp hfound
        obtain ⟨expected, hexpected, hfound⟩ := Option.bind_eq_some_iff.mp hfound
        obtain ⟨hcode, hc⟩ := Option.ite_none_right_eq_some.mp hfound
        cases hc
        refine ⟨hs, fun heq => hexclude (beq_iff_eq.mpr heq), hh, ?_⟩
        rw [hexpected]
        simpa using (hmatch expected).mp ⟨hcode, rfl⟩
  · rintro ⟨hs, hexclude, hh, hcode⟩
    obtain ⟨expected, hexpected, hmatches⟩ : ∃ expected,
        expectedCode handler escalation = some expected ∧
          (all = true ∧ expected = none ∨ all = false ∧ expected = some code) := by
      rcases hcode with ⟨hall, hcode⟩ | ⟨hall, hcode⟩
      · exact ⟨none, hcode, .inl ⟨hall, rfl⟩⟩
      · exact ⟨some code, hcode, .inr ⟨hall, rfl⟩⟩
    obtain ⟨hcaught, rfl⟩ := (hmatch expected).mpr hmatches
    refine ⟨subscription, hs, ?_⟩
    rw [if_neg fun heq => hexclude (beq_iff_eq.mp heq)]
    simp [hh, hexpected, hcaught]

theorem bestCandidate_eq (candidates : List (Bool × EventSubscription × EventSubProcess)) :
    bestCandidate candidates = candidates.foldl (keepBetter betterHandler) none := by
  unfold bestCandidate
  congr 1
  funext best c
  cases best <;> rfl

theorem bestCandidate_mostSpecific :
    MostSpecific (IsHandlerFor code escalation)
      (codeCandidates d subscriptions code escalation exclude)
      (bestCandidate (codeCandidates d subscriptions code escalation exclude)) := by
  have hspecific : MostSpecific (fun c => c.1 = false)
      (codeCandidates d subscriptions code escalation exclude)
      (bestCandidate (codeCandidates d subscriptions code escalation exclude)) := by
    rw [bestCandidate_eq]
    refine mostSpecific_foldl (fun a b ha hb => ?_) (fun a b hab hb => ?_) _
    · simp [betterHandler, ha, eq_true_of_ne_false hb]
    · rcases Bool.or_eq_true_iff.mp hab with hab | hab
      · simpa using (Bool.and_eq_true_iff.mp hab).1
      · rw [beq_iff_eq.mp (Bool.and_eq_true_iff.mp hab).1, hb]
  have hfor : ∀ c ∈ codeCandidates d subscriptions code escalation exclude,
      c.1 = false ↔ IsHandlerFor code escalation c := by
    intro c hc
    rcases (mem_codeCandidates.mp hc).2.2.2 with ⟨hall, hcode⟩ | ⟨hall, hcode⟩
    · simp [hall, IsHandlerFor, hcode]
    · simp [hall, hcode]
  refine ⟨hspecific.mem, hspecific.taken, fun a b ha hb hfb => ?_⟩
  exact (hfor a (hspecific.mem a ha)).mp (hspecific.specific a b ha hb ((hfor b hb).mpr hfb))

end Eng

/-- Among the handlers that match a code, the choice is the same in every order in which the node
map is visited, and it is a handler for the code if there is one: always among the handlers of
event subprocesses; among the boundary error events of an activity and among the boundary
escalation events of a definition exactly if no two of them match. -/
theorem handler_choice_settled_iff (d : ProcessDefinition) (activity code : String)
    (subscriptions : List EventSubscription) (escalation : Bool) (exclude : Option String) :
    ((∀ d', d.Reordered d' →
        d'.findBoundaryErrorEvent activity code = d.findBoundaryErrorEvent activity code ∧
        MostSpecific (d.IsErrorEventFor activity code) (d.errorEvents activity code)
          (d'.findBoundaryErrorEvent activity code)) ↔
      (d.errorEvents activity code).length ≤ 1) ∧
    ((∀ d', d.Reordered d' →
        d'.findAnyBoundaryEscalationEvent code = d.findAnyBoundaryEscalationEvent code ∧
        MostSpecific (d.IsEscalationEventFor code) (d.escalationEvents code)
          (d'.findAnyBoundaryEscalationEvent code)) ↔ (d.escalationEvents code).length ≤ 1) ∧
    ∀ d', d.Reordered d' →
      Eng.bestCandidate (Eng.codeCandidates d' subscriptions code escalation exclude) =
        Eng.bestCandidate (Eng.codeCandidates d subscriptions code escalation exclude) ∧
      MostSpecific (Eng.IsHandlerFor code escalation)
        (Eng.codeCandidates d subscriptions code escalation exclude)
        (Eng.bestCandidate (Eng.codeCandidates d' subscriptions code escalation exclude)) := by
  refine ⟨ProcessDefinition.findBoundaryErrorEvent_settled_iff,
    ProcessDefinition.findAnyBoundaryEscalationEvent_settled_iff, fun d' hd' => ?_⟩
  have hsame : Eng.codeCandidates d' subscriptions code escalation exclude =
      Eng.codeCandidates d subscriptions code escalation exclude := by
    rw [hd'.rest]
    rfl
  rw [hsame]
  exact ⟨rfl, Eng.bestCandidate_mostSpecific⟩

/-- A check with one boundary event for every error and one for fraud. -/
def creditCheck (events : List (String × BpmnElement)) : ProcessDefinition := .ofGraph "credit"
  ([("start", .startEvent), ("check", .serviceTask "check" none), ("end", .endEvent)] ++ events)
  [("start", [.simple "check"]), ("check", [.simple "end"]), ("any", [.simple "end"]),
    ("fraud", [.simple "end"])]

def anyError : String × BpmnElement := ("any", .boundaryErrorEvent "check" none)

def fraudError : String × BpmnElement := ("fraud", .boundaryErrorEvent "check" (some "FRAUD"))

/-- The same definition catches the error of fraud in one order of its nodes by the event for every
error, and in the other one by the event for fraud. -/
theorem fraud_caught_in_order :
    (creditCheck [anyError, fraudError]).Reordered (creditCheck [fraudError, anyError]) ∧
      (creditCheck [anyError, fraudError]).findBoundaryErrorEvent "check" "FRAUD" = some "any" ∧
      (creditCheck [fraudError, anyError]).findBoundaryErrorEvent "check" "FRAUD" =
        some "fraud" := by
  refine ⟨⟨?_, rfl⟩, by decide +kernel, by decide +kernel⟩
  decide +kernel

end BpmnEngine
