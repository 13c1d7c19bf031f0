import Mathlib.Logic.Basic

/-!
# Guarded computations

Requests that check one condition after another and stop at the first that
fails, as `Except` computations. `require` and `expect` are the two kinds of
check; the lemmas below turn "the request succeeded" into the list of checks it
passed, so a caller inverts a request with one `simp only`.
-/
namespace Library

variable {ε α β : Type}

def require (p : Prop) [Decidable p] (e : ε) : Except ε Unit :=
  if p then .ok () else .error e

def expect (o : Option α) (e : ε) : Except ε α :=
  match o with
  | some a => .ok a
  | none => .error e

theorem bind_ok_iff {x : Except ε α} {f : α → Except ε β} {b : β} :
    (x >>= f) = .ok b ↔ ∃ a, x = .ok a ∧ f a = .ok b := by
  cases x with
  | error e => simp [bind, Except.bind]
  | ok a => simp [bind, Except.bind]

@[simp] theorem require_ok {p : Prop} [Decidable p] {e : ε} {u : Unit} :
    require p e = .ok u ↔ p := by
  unfold require
  split <;> simp_all

@[simp] theorem expect_ok {o : Option α} {e : ε} {a : α} : expect o e = .ok a ↔ o = some a := by
  cases o <;> simp [expect]

theorem pure_ok {a b : α} : (pure a : Except ε α) = .ok b ↔ a = b := by
  simp [pure, Except.pure]

@[simp] theorem require_pos {p : Prop} [Decidable p] {e : ε} (h : p) :
    require p e = .ok () := by simp [require, h]

@[simp] theorem require_neg {p : Prop} [Decidable p] {e : ε} (h : ¬ p) :
    require p e = .error e := by simp [require, h]

@[simp] theorem expect_some (a : α) (e : ε) : expect (some a) e = .ok a := rfl
@[simp] theorem expect_none (e : ε) : expect (none : Option α) e = .error e := rfl

@[simp] theorem ok_bind (a : α) (f : α → Except ε β) : (Except.ok a >>= f) = f a := rfl

@[simp] theorem error_bind (e : ε) (f : α → Except ε β) :
    (Except.error e >>= f) = .error e := rfl

@[simp] theorem toOption_eq_some {x : Except ε α} {a : α} : x.toOption = some a ↔ x = .ok a := by
  cases x <;> simp [Except.toOption]

theorem exists_of_isOk {x : Except ε α} (h : x.isOk = true) : ∃ a, x = .ok a := by
  cases x with
  | error e => cases h
  | ok a => exact ⟨a, rfl⟩

/-- What a list of requests returns, one of them returned. -/
theorem mem_of_mapM {f : α → Except ε β} {l : List α} {l' : List β} (h : l.mapM f = .ok l') {b : β}
    (hb : b ∈ l') : ∃ a ∈ l, f a = .ok b := by
  induction l generalizing l' with
  | nil =>
    rw [List.mapM_nil, pure_ok] at h
    subst h
    cases hb
  | cons a l ih =>
    simp only [List.mapM_cons, bind_ok_iff, pure_ok] at h
    obtain ⟨c, hc, rest, hrest, rfl⟩ := h
    rcases List.mem_cons.mp hb with rfl | hb
    · exact ⟨a, List.mem_cons_self, hc⟩
    · obtain ⟨x, hx, hfx⟩ := ih hrest hb
      exact ⟨x, List.mem_cons_of_mem a hx, hfx⟩

theorem exists_mapM {f : α → Except ε β} {l : List α} (h : ∀ a ∈ l, ∃ b, f a = .ok b) :
    ∃ l', l.mapM f = .ok l' := by
  induction l with
  | nil => exact ⟨[], rfl⟩
  | cons a l ih =>
    obtain ⟨b, hb⟩ := h a List.mem_cons_self
    obtain ⟨l', hl'⟩ := ih fun c hc => h c (List.mem_cons_of_mem a hc)
    exact ⟨b :: l', by simp only [List.mapM_cons, hb, hl', ok_bind]; rfl⟩

/-- Each request of the list has its reply in what the list returns. -/
theorem reply_mem_of_mapM {f : α → Except ε β} {l : List α} {l' : List β} (h : l.mapM f = .ok l')
    {a : α} (ha : a ∈ l) : ∃ b ∈ l', f a = .ok b := by
  induction l generalizing l' with
  | nil => cases ha
  | cons c l ih =>
    simp only [List.mapM_cons, bind_ok_iff, pure_ok] at h
    obtain ⟨b, hb, rest, hrest, rfl⟩ := h
    rcases List.mem_cons.mp ha with rfl | ha
    · exact ⟨b, List.mem_cons_self, hb⟩
    · obtain ⟨x, hx, hfx⟩ := ih hrest ha
      exact ⟨x, List.mem_cons_of_mem b hx, hfx⟩

/-- Requests that are filtered beforehand leave the replies that are filtered afterwards. -/
theorem filter_mapM {f : α → Except ε β} {p : α → Bool} {q : β → Bool} {l : List α} {l' : List β}
    (hpq : ∀ a b, f a = .ok b → q b = p a) (h : l.mapM f = .ok l') :
    (l.filter p).mapM f = .ok (l'.filter q) := by
  induction l generalizing l' with
  | nil =>
    rw [List.mapM_nil, pure_ok] at h
    subst h
    rfl
  | cons a l ih =>
    simp only [List.mapM_cons, bind_ok_iff, pure_ok] at h
    obtain ⟨b, hb, rest, hrest, rfl⟩ := h
    rw [List.filter_cons, List.filter_cons, hpq a b hb]
    split
    · simp only [List.mapM_cons, bind_ok_iff, pure_ok]
      exact ⟨b, hb, _, ih hrest, rfl⟩
    · exact ih hrest

/-- A refused check refuses the whole request with its own error. -/
theorem require_bind_error {p : Prop} [Decidable p] {e e' : ε} {f : Unit → Except ε β} :
    (require p e >>= f) = .error e' ↔ (¬ p ∧ e = e') ∨ (p ∧ f () = .error e') := by
  by_cases h : p <;> simp [h]

/-! ## Errors that do not occur -/

theorem require_ne_error {p : Prop} [Decidable p] {e e' : ε} (h : e ≠ e') :
    require p e ≠ .error e' := by
  unfold require
  split <;> simp [h]

theorem expect_ne_error {o : Option α} {e e' : ε} (h : e ≠ e') : expect o e ≠ .error e' := by
  cases o <;> simp [h]

theorem pure_ne_error {a : α} {e : ε} : (pure a : Except ε α) ≠ .error e := by
  simp [pure, Except.pure]

theorem bind_ne_error {x : Except ε α} {f : α → Except ε β} {e : ε} (hx : x ≠ .error e)
    (hf : ∀ a, x = .ok a → f a ≠ .error e) : (x >>= f) ≠ .error e := by
  cases x with
  | error e' => simpa using hx
  | ok a => exact hf a rfl

/-- A check that is passed, before the rest. -/
theorem require_bind_ne_error {p : Prop} [Decidable p] {e e' : ε} {f : Unit → Except ε β}
    (h : e ≠ e') (hf : p → f () ≠ .error e') : (require p e >>= f) ≠ .error e' :=
  bind_ne_error (require_ne_error h) fun _ hp => hf (require_ok.mp hp)

theorem foldlM_ne_error {f : β → α → Except ε β} {l : List α} {b : β} {e : ε}
    (h : ∀ b, ∀ a ∈ l, f b a ≠ .error e) : l.foldlM f b ≠ .error e := by
  induction l generalizing b with
  | nil => exact pure_ne_error
  | cons a l ih =>
    rw [List.foldlM_cons]
    exact bind_ne_error (h b a List.mem_cons_self) fun b' _ =>
      ih fun b c hc => h b c (List.mem_cons_of_mem _ hc)

end Library
