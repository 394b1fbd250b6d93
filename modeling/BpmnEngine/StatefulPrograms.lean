import Mathlib

/-!
# Programs whose state survives a failure

A program reads and writes a state and either returns a value or fails. A failure
does not roll the state back: what was written before it stays written. This is the
order of the two transformers, so the core library's `ExceptT` over `StateM` is the
program type and only its execution equations and the rules for pre- and
postconditions are stated here.
-/
namespace BpmnEngine

/-- Stateful programs that may fail without undoing their writes. -/
abbrev Program (σ ε : Type) := ExceptT ε (StateM σ)

namespace Program

variable {σ ε α β : Type} {m n : Program σ ε α} {f : α → Program σ ε β} {s t s' : σ} {a : α}
  {l : List α} {e : ε} {c : Prop} {g : σ → α → σ} {handler : ε → Program σ ε α} {P : σ → Prop}

def exec (m : Program σ ε α) (s : σ) : Except ε α × σ := m s

/-- The state in which a program stops, whether it returned or failed. -/
def after (m : Program σ ε α) (s : σ) : σ := (exec m s).2

@[simp] theorem exec_pure (a : α) (s : σ) : exec (pure a : Program σ ε α) s = (.ok a, s) := rfl

theorem exec_bind (m : Program σ ε α) (f : α → Program σ ε β) (s : σ) :
    exec (m >>= f) s = match exec m s with
      | (.ok a, s') => exec (f a) s'
      | (.error e, s') => (.error e, s') := by
  rcases h : exec m s with ⟨_ | a, s'⟩ <;>
    simp only [exec, bind, ExceptT.bind, ExceptT.mk, StateT.bind, ExceptT.bindCont] at h ⊢ <;>
    simp [h, pure, StateT.pure]

theorem exec_bind_ok (h : exec m s = (.ok a, s')) : exec (m >>= f) s = exec (f a) s' := by
  rw [exec_bind, h]

theorem exec_bind_error (h : exec m s = (.error e, s')) : exec (m >>= f) s = (.error e, s') := by
  rw [exec_bind, h]

/-- A sequence that returned splits into two parts that returned. -/
theorem exec_bind_eq_ok {b : β} (h : exec (m >>= f) s = (.ok b, t)) :
    ∃ a s', exec m s = (.ok a, s') ∧ exec (f a) s' = (.ok b, t) := by
  rw [exec_bind] at h
  rcases hm : exec m s with ⟨e | a, s'⟩ <;> rw [hm] at h
  · cases h
  · exact ⟨a, s', rfl, h⟩

@[simp] theorem exec_throw (e : ε) (s : σ) : exec (throw e : Program σ ε α) s = (.error e, s) := rfl

@[simp] theorem exec_get (s : σ) : exec (get : Program σ ε σ) s = (.ok s, s) := rfl

@[simp] theorem exec_modify (f : σ → σ) (s : σ) :
    exec (modify f : Program σ ε PUnit) s = (.ok ⟨⟩, f s) := rfl

/-- Runs a program; when it fails, the handler runs in the state the failure left. -/
def orElse (m : Program σ ε α) (handler : ε → Program σ ε α) : Program σ ε α := tryCatch m handler

theorem exec_orElse (m : Program σ ε α) (handler : ε → Program σ ε α) (s : σ) :
    exec (orElse m handler) s = match exec m s with
      | (.ok a, s') => (.ok a, s')
      | (.error e, s') => exec (handler e) s' := by
  rcases h : exec m s with ⟨_ | a, s'⟩ <;>
    simp only [exec, orElse, tryCatch, tryCatchThe, MonadExceptOf.tryCatch, ExceptT.tryCatch,
      ExceptT.mk, bind, StateT.bind] at h ⊢ <;>
    simp [h, pure, StateT.pure]

/-- A loop whose body always returns folds what the body does to the state. -/
theorem exec_forM_eq_foldl_of_mem {f : α → Program σ ε PUnit}
    (h : ∀ a ∈ l, ∀ s, exec (f a) s = (.ok ⟨⟩, g s a)) (s : σ) :
    exec (l.forM f) s = (.ok ⟨⟩, l.foldl g s) := by
  induction l generalizing s with
  | nil => rfl
  | cons a l ih =>
    show exec (f a >>= fun _ => l.forM f) s = _
    rw [exec_bind_ok (h a List.mem_cons_self s), List.foldl_cons,
      ih fun b hb => h b (List.mem_cons_of_mem a hb)]

theorem exec_forM_eq_foldl {f : α → Program σ ε PUnit} (h : ∀ a s, exec (f a) s = (.ok ⟨⟩, g s a))
    (l : List α) (s : σ) : exec (l.forM f) s = (.ok ⟨⟩, l.foldl g s) :=
  exec_forM_eq_foldl_of_mem (fun a _ => h a) s

/-- In a loop that returned, the body has returned for every element. -/
theorem exec_of_exec_forM {f : α → Program σ ε PUnit} (h : exec (l.forM f) s = (.ok ⟨⟩, t))
    (ha : a ∈ l) : ∃ u v, exec (f a) u = (.ok ⟨⟩, v) := by
  induction l generalizing s with
  | nil => cases ha
  | cons b l ih =>
    obtain ⟨_, u, hb, hl⟩ := exec_bind_eq_ok (m := f b) (f := fun _ => l.forM f) h
    rcases List.mem_cons.mp ha with rfl | ha
    · exact ⟨s, u, hb⟩
    · exact ih hl ha

/-- A loop whose body always returns and keeps a property does so as a whole. -/
theorem exec_forM {f : α → Program σ ε PUnit}
    (h : ∀ a s, P s → ∃ t, exec (f a) s = (.ok ⟨⟩, t) ∧ P t) (l : List α) (hs : P s) :
    ∃ t, exec (l.forM f) s = (.ok ⟨⟩, t) ∧ P t := by
  induction l generalizing s with
  | nil => exact ⟨s, rfl, hs⟩
  | cons a rest ih =>
    obtain ⟨u, hu, hPu⟩ := h a s hs
    obtain ⟨t, ht, hPt⟩ := ih hPu
    exact ⟨t, (exec_bind_ok hu).trans ht, hPt⟩

/-! ## Pre- and postconditions -/

/-- Started in a state with `P`, a program that returns ends with `Q` and one that fails ends
with `E`. -/
def Triple (P : σ → Prop) (m : Program σ ε α) (Q : α → σ → Prop) (E : ε → σ → Prop) : Prop :=
  ∀ s, P s → match exec m s with
    | (.ok a, t) => Q a t
    | (.error e, t) => E e t

namespace Triple

variable {P P' : σ → Prop} {Q Q' : α → σ → Prop} {E E' : ε → σ → Prop} {m : Program σ ε α}

theorem ok (h : Triple P m Q E) {s t : σ} {a : α} (hs : P s) (hx : exec m s = (.ok a, t)) :
    Q a t := by
  have := h s hs
  rwa [hx] at this

theorem error (h : Triple P m Q E) {s t : σ} {e : ε} (hs : P s) (hx : exec m s = (.error e, t)) :
    E e t := by
  have := h s hs
  rwa [hx] at this

theorem mono (h : Triple P m Q E) (hP : ∀ s, P' s → P s) (hQ : ∀ a s, Q a s → Q' a s)
    (hE : ∀ e s, E e s → E' e s) : Triple P' m Q' E' := by
  intro s hs
  rcases hx : exec m s with ⟨e | a, t⟩
  · exact hE _ _ (h.error (hP s hs) hx)
  · exact hQ _ _ (h.ok (hP s hs) hx)

theorem pure (h : ∀ s, P s → Q a s) : Triple P (pure a : Program σ ε α) Q E :=
  fun s hs => h s hs

theorem throw (h : ∀ s, P s → E e s) : Triple P (throw e : Program σ ε α) Q E :=
  fun s hs => h s hs

theorem modify {f : σ → σ} {Q : PUnit → σ → Prop} (h : ∀ s, P s → Q ⟨⟩ (f s)) :
    Triple P (modify f : Program σ ε PUnit) Q E :=
  fun s hs => h s hs

theorem bind {Q' : β → σ → Prop} (hm : Triple P m Q E) (hf : ∀ a, Triple (Q a) (f a) Q' E) :
    Triple P (m >>= f) Q' E := by
  intro s hs
  rw [exec_bind]
  rcases hx : exec m s with ⟨e | a, t⟩
  · exact hm.error hs hx
  · exact hf a t (hm.ok hs hx)

theorem orElse (hm : Triple P m Q E') (hh : ∀ e, Triple (E' e) (handler e) Q E) :
    Triple P (orElse m handler) Q E := by
  intro s hs
  rw [exec_orElse]
  rcases hx : exec m s with ⟨e | a, t⟩
  · exact hh e t (hm.error hs hx)
  · exact hm.ok hs hx

theorem ite [Decidable c] (hm : c → Triple P m Q E) (hn : ¬c → Triple P n Q E) :
    Triple P (if c then m else n) Q E := by
  split
  · exact hm ‹_›
  · exact hn ‹_›

end Triple

/-- Whatever the program returns has a property. -/
def Yields (m : Program σ ε α) (Q : α → Prop) : Prop :=
  ∀ s t a, exec m s = (.ok a, t) → Q a

namespace Yields

variable {Q : α → Prop} {f : β → Program σ ε α} {m : Program σ ε β}

theorem pure (h : Q a) : Yields (Pure.pure a : Program σ ε α) Q := by
  intro s t b hx
  cases hx
  exact h

theorem throw (e : ε) : Yields (throw e : Program σ ε α) Q := by
  intro s t a hx
  cases hx

/-- The value of the first part is not looked at. -/
theorem after (h : ∀ b, Yields (f b) Q) : Yields (m >>= f) Q := by
  intro s t a hx
  obtain ⟨b, u, _, hf⟩ := exec_bind_eq_ok hx
  exact h b u t a hf

theorem bind {P : β → Prop} (hm : Yields m P) (h : ∀ b, P b → Yields (f b) Q) :
    Yields (m >>= f) Q := by
  intro s t a hx
  obtain ⟨b, u, hb, hf⟩ := exec_bind_eq_ok hx
  exact h b (hm s u b hb) u t a hf

theorem map {f : β → α} (h : Yields m fun b => Q (f b)) : Yields (f <$> m) Q := by
  rw [map_eq_pure_bind]
  exact h.bind fun _ hb => .pure hb

theorem mapM {l : List β} (hf : ∀ b ∈ l, Yields (f b) Q) :
    Yields (l.mapM f) fun as => ∀ a ∈ as, Q a := by
  induction l with
  | nil => exact .pure nofun
  | cons b rest ih =>
    rw [List.mapM_cons]
    refine (hf b List.mem_cons_self).bind fun a ha =>
      (ih fun c hc => hf c (List.mem_cons_of_mem b hc)).bind fun as has => .pure ?_
    exact List.forall_mem_cons.mpr ⟨ha, has⟩

end Yields

/-! ## Invariants -/

/-- A property of the state that a program keeps, whether it returns or fails. -/
def Keeps (P : σ → Prop) (m : Program σ ε α) : Prop := ∀ s, P s → P (after m s)

namespace Keeps

variable {P : σ → Prop}

theorem of_exec (hm : Keeps P m) {r : Except ε α} (hs : P s) (hx : exec m s = (r, t)) : P t := by
  have := hm s hs
  rwa [Program.after, hx] at this

@[grind ←] theorem pure (a : α) : Keeps P (Pure.pure a : Program σ ε α) := fun _ h => h

@[grind ←] theorem throw (e : ε) : Keeps P (throw e : Program σ ε α) := fun _ h => h

@[grind ←] theorem get : Keeps P (get : Program σ ε σ) := fun _ h => h

theorem modify {f : σ → σ} (h : ∀ s, P s → P (f s)) : Keeps P (modify f : Program σ ε PUnit) := h

@[grind ←] theorem bind (hm : Keeps P m) (hf : ∀ a, Keeps P (f a)) : Keeps P (m >>= f) := by
  intro s hs
  have hP := hm s hs
  unfold after at hP ⊢
  rw [exec_bind]
  rcases hx : exec m s with ⟨e | a, t⟩ <;> rw [hx] at hP
  · exact hP
  · exact hf a t hP

/-- The second part may rely on what the first one returned, and in which state. -/
theorem bind_of (hm : Keeps P m) (hf : ∀ s a t, P s → exec m s = (.ok a, t) → P (after (f a) t)) :
    Keeps P (m >>= f) := by
  intro s hs
  have hP := hm s hs
  unfold after at hP ⊢
  rw [exec_bind]
  rcases hx : exec m s with ⟨e | a, t⟩ <;> rw [hx] at hP
  · exact hP
  · exact hf s a t hs hx

/-- The second part may rely on what is known of the value of the first one. -/
theorem bind_yields {Q : α → Prop} (hm : Keeps P m) (hQ : Yields m Q)
    (hf : ∀ a, Q a → Keeps P (f a)) : Keeps P (m >>= f) :=
  hm.bind_of fun s a t hs hx => hf a (hQ s t a hx) t (by
    have hP := hm s hs
    rwa [after, hx] at hP)

@[grind ←] theorem orElse (hm : Keeps P m) (hh : ∀ e, Keeps P (handler e)) :
    Keeps P (orElse m handler) := by
  intro s hs
  have hP := hm s hs
  unfold after at hP ⊢
  rw [exec_orElse]
  rcases hx : exec m s with ⟨e | a, t⟩ <;> rw [hx] at hP
  · exact hh e t hP
  · exact hP

@[grind ←] theorem map {f : α → β} (hm : Keeps P m) : Keeps P (f <$> m) := by
  rw [map_eq_pure_bind]
  exact hm.bind fun _ => .pure _

theorem ite [Decidable c] (hm : c → Keeps P m) (hn : ¬c → Keeps P n) :
    Keeps P (if c then m else n) := by
  split
  · exact hm ‹_›
  · exact hn ‹_›

@[grind ←] theorem forM {f : α → Program σ ε PUnit} (hf : ∀ a ∈ l, Keeps P (f a)) :
    Keeps P (l.forM f) := by
  induction l with
  | nil => exact .pure _
  | cons a rest ih =>
    exact (hf a List.mem_cons_self).bind fun _ => ih fun b hb => hf b (List.mem_cons_of_mem a hb)

@[grind ←] theorem mapM (hf : ∀ a ∈ l, Keeps P (f a)) : Keeps P (l.mapM f) := by
  induction l with
  | nil => exact .pure _
  | cons a rest ih =>
    rw [List.mapM_cons]
    exact (hf a List.mem_cons_self).bind fun _ =>
      (ih fun b hb => hf b (List.mem_cons_of_mem a hb)).bind fun _ => .pure _

theorem triple (hm : Keeps P m) : Triple P m (fun _ => P) fun _ => P := by
  intro s hs
  have hP := hm s hs
  unfold after at hP
  rcases hx : exec m s with ⟨e | a, t⟩ <;> rw [hx] at hP <;> exact hP

end Keeps

/-- A program that ends with what it started with keeps it. -/
theorem Triple.keeps (h : Triple P m (fun _ => P) fun _ => P) : Keeps P m := by
  intro s hs
  unfold after
  rcases hx : exec m s with ⟨e | a, t⟩
  · exact h.error hs hx
  · exact h.ok hs hx

/-! ## Programs that do not fail -/

/-- Started in a state with `P`, a program returns, in a state with `P`. -/
def Succeeds (P : σ → Prop) (m : Program σ ε α) : Prop :=
  ∀ s, P s → ∃ a t, exec m s = (.ok a, t) ∧ P t

namespace Succeeds

variable {P : σ → Prop}

theorem pure (a : α) : Succeeds P (Pure.pure a : Program σ ε α) := fun s h => ⟨a, s, rfl, h⟩

theorem modify {f : σ → σ} (h : ∀ s, P s → P (f s)) :
    Succeeds P (modify f : Program σ ε PUnit) := fun s hs => ⟨⟨⟩, f s, rfl, h s hs⟩

/-- The second part may rely on what the first one returned, and in which state. -/
theorem bind_of (hm : Succeeds P m)
    (hf : ∀ s a t, P s → exec m s = (.ok a, t) → P t → ∃ b u, exec (f a) t = (.ok b, u) ∧ P u) :
    Succeeds P (m >>= f) := by
  intro s hs
  obtain ⟨a, t, hx, ht⟩ := hm s hs
  rw [exec_bind_ok hx]
  exact hf s a t hs hx ht

theorem bind (hm : Succeeds P m) (hf : ∀ a, Succeeds P (f a)) : Succeeds P (m >>= f) :=
  hm.bind_of fun _ a t _ _ ht => hf a t ht

theorem ite [Decidable c] (hm : c → Succeeds P m) (hn : ¬c → Succeeds P n) :
    Succeeds P (if c then m else n) := by
  split
  · exact hm ‹_›
  · exact hn ‹_›

theorem forM {f : α → Program σ ε PUnit} (hf : ∀ a ∈ l, Succeeds P (f a)) :
    Succeeds P (l.forM f) := by
  induction l with
  | nil => exact .pure _
  | cons a rest ih =>
    exact (hf a List.mem_cons_self).bind fun _ => ih fun b hb => hf b (List.mem_cons_of_mem a hb)

theorem mapM (hf : ∀ a ∈ l, Succeeds P (f a)) : Succeeds P (l.mapM f) := by
  induction l with
  | nil => exact .pure _
  | cons a rest ih =>
    rw [List.mapM_cons]
    exact (hf a List.mem_cons_self).bind fun _ =>
      (ih fun b hb => hf b (List.mem_cons_of_mem a hb)).bind fun _ => .pure _

/-- A sequence whose second part does not fail has failed in the first one. -/
theorem exec_of_error (h : exec (m >>= f) s = (.error e, t))
    (hf : ∀ a u, exec m s = (.ok a, u) → ∃ P : σ → Prop, P u ∧ Succeeds P (f a)) :
    exec m s = (.error e, t) := by
  rcases hx : exec m s with ⟨_ | a, u⟩
  · rw [exec_bind_error hx] at h
    cases h
    rfl
  · obtain ⟨P, hu, hP⟩ := hf a u hx
    obtain ⟨b, v, hv, -⟩ := hP u hu
    rw [exec_bind_ok hx, hv] at h
    cases h

end Succeeds

end Program

/-! ## Results without a state -/

/-- Whatever is returned has a property. -/
def Returns {ε α : Type} (x : Except ε α) (Q : α → Prop) : Prop := ∀ a, x = .ok a → Q a

namespace Returns

variable {ε α β : Type} {Q : α → Prop} {x : Except ε β} {f : β → Except ε α}

theorem bind_eq_ok {a : α} (h : x >>= f = .ok a) : ∃ b, x = .ok b ∧ f b = .ok a := by
  cases x with
  | error => cases h
  | ok b => exact ⟨b, rfl, h⟩

/-- What the evaluation of a result shows. -/
theorem exists_ok {x : Except ε α} [DecidablePred Q] (h : x.toOption.any fun a => decide (Q a)) :
    ∃ a, x = .ok a ∧ Q a := by
  cases x with
  | error => cases h
  | ok a => exact ⟨a, rfl, of_decide_eq_true h⟩

theorem ok {a : α} (h : Q a) : Returns (.ok a : Except ε α) Q := by
  rintro b hb
  cases hb
  exact h

theorem error (e : ε) : Returns (.error e : Except ε α) Q := nofun

theorem bind {P : β → Prop} (hx : Returns x P) (hf : ∀ b, P b → Returns (f b) Q) :
    Returns (x >>= f) Q := by
  intro a ha
  obtain ⟨b, hb, ha⟩ := bind_eq_ok ha
  exact hf b (hx b hb) a ha

/-- The value of the first part is not looked at. -/
theorem after (hf : ∀ b, Returns (f b) Q) : Returns (x >>= f) Q :=
  bind (P := fun _ => True) (fun _ _ => trivial) fun b _ => hf b

/-- A loop keeps what each of its rounds keeps. -/
theorem foldlM {f : α → β → Except ε α} {l : List β} {s : α} (hs : Q s)
    (hf : ∀ x ∈ l, ∀ s, Q s → Returns (f s x) Q) : Returns (l.foldlM f s) Q := by
  induction l generalizing s with
  | nil => exact .ok hs
  | cons x rest ih =>
    rw [List.foldlM_cons]
    exact (hf x List.mem_cons_self s hs).bind fun t ht =>
      ih ht fun y hy => hf y (List.mem_cons_of_mem x hy)

end Returns

end BpmnEngine
