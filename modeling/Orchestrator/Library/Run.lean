import Mathlib.Logic.Relation

/-!
# Runs of a state machine

A machine is a total step function; a run folds it over a list of inputs.
Invariants of one step are invariants of every run, and properties that steps
only guarantee under a condition hold in every run whose steps all meet it.
-/
namespace Library

variable {σ : Type*} {ι : Type*}

def run (step : σ → ι → σ) (s : σ) (is : List ι) : σ := is.foldl step s

/-- Every step of the run from `s` meets `c`, judged on the state before it. -/
def AllSteps (step : σ → ι → σ) (c : σ → ι → Prop) : σ → List ι → Prop
  | _, [] => True
  | s, i :: is => c s i ∧ AllSteps step c (step s i) is

instance AllSteps.decide (step : σ → ι → σ) (c : σ → ι → Prop) [∀ s i, Decidable (c s i)] :
    (s : σ) → (is : List ι) → Decidable (AllSteps step c s is)
  | _, [] => isTrue trivial
  | s, i :: is => haveI := AllSteps.decide step c (step s i) is
    inferInstanceAs (Decidable (c s i ∧ AllSteps step c (step s i) is))

section
variable {step : σ → ι → σ} {s : σ} {is : List ι}

@[simp] theorem run_nil : run step s [] = s := rfl
@[simp] theorem run_cons {i : ι} : run step s (i :: is) = run step (step s i) is := rfl

theorem run_append {js : List ι} : run step s (is ++ js) = run step (run step s is) js := by
  simp [run]

theorem run_concat {i : ι} : run step s (is ++ [i]) = step (run step s is) i := by
  simp [run]

theorem run_invariant {I : σ → Prop} (h : I s) (hstep : ∀ s i, I s → I (step s i)) :
    I (run step s is) := by
  induction is generalizing s with
  | nil => exact h
  | cons i is ih => exact ih (hstep s i h)

theorem run_invariant_when {I : σ → Prop} {c : σ → ι → Prop} (h : I s)
    (hstep : ∀ s i, I s → c s i → I (step s i)) (hc : AllSteps step c s is) :
    I (run step s is) := by
  induction is generalizing s with
  | nil => exact h
  | cons i is ih => exact ih (hstep s i h hc.1) hc.2

/-- A relation every step respects, reflexive and transitive, relates the two
ends of every run. -/
theorem run_relates {I : σ → Prop} {R : σ → σ → Prop} (h : I s)
    (refl : ∀ s, R s s) (trans : ∀ s t u, R s t → R t u → R s u)
    (keep : ∀ s i, I s → I (step s i)) (hstep : ∀ s i, I s → R s (step s i)) :
    R s (run step s is) := by
  induction is generalizing s with
  | nil => exact refl s
  | cons i is ih => exact trans _ _ _ (hstep s i h) (ih (keep s i h))

theorem AllSteps.of_append {c : σ → ι → Prop} {js : List ι}
    (h : AllSteps step c s (is ++ js)) : AllSteps step c s is := by
  induction is generalizing s with
  | nil => trivial
  | cons i is ih => exact ⟨h.1, ih h.2⟩

theorem AllSteps.append {c : σ → ι → Prop} {js : List ι} (h : AllSteps step c s is)
    (h' : AllSteps step c (run step s is) js) : AllSteps step c s (is ++ js) := by
  induction is generalizing s with
  | nil => exact h'
  | cons i is ih => exact ⟨h.1, ih h.2 h'⟩

theorem AllSteps.from_append {c : σ → ι → Prop} {js : List ι}
    (h : AllSteps step c s (is ++ js)) : AllSteps step c (run step s is) js := by
  induction is generalizing s with
  | nil => exact h
  | cons i is ih => exact ih h.2

/-- A condition that holds of every step may be added to the one assumed. -/
theorem AllSteps.imp {c d : σ → ι → Prop} (hcd : ∀ s i, c s i → d s i)
    (h : AllSteps step c s is) : AllSteps step d s is := by
  induction is generalizing s with
  | nil => trivial
  | cons i is ih => exact ⟨hcd _ _ h.1, ih h.2⟩

/-- A condition that holds of every step from where `K` holds, which the one assumed keeps. -/
theorem AllSteps.imp_when {K : σ → Prop} {c d : σ → ι → Prop} (hc : AllSteps step c s is)
    (hK : K s) (keep : ∀ s i, K s → c s i → K (step s i)) (h : ∀ s i, K s → c s i → d s i) :
    AllSteps step d s is := by
  induction is generalizing s with
  | nil => trivial
  | cons i is ih => exact ⟨h s i hK hc.1, ih hc.2 (keep s i hK hc.1)⟩

/-- Where `K` carries `I` over the steps that meet `c`, and no other step leaves `I`
true, all states of a run satisfy `I` if and only if all its steps meet `c`. -/
theorem prefixes_iff_allSteps {K I : σ → Prop} {c : σ → ι → Prop} (hK : K s)
    (sound : ∀ s, K s → I s) (keep : ∀ s i, K s → c s i → K (step s i))
    (needed : ∀ s i, K s → I (step s i) → c s i) :
    (∀ before, before <+: is → I (run step s before)) ↔ AllSteps step c s is := by
  induction is generalizing s with
  | nil =>
    refine ⟨fun _ => trivial, fun _ before h => ?_⟩
    rw [List.prefix_nil.mp h]
    exact sound s hK
  | cons i is ih =>
    constructor
    · intro h
      have hc : c s i := needed s i hK (h [i] (by simp))
      refine ⟨hc, (ih (keep s i hK hc)).mp fun before hb => ?_⟩
      exact h (i :: before) (List.cons_prefix_cons.mpr ⟨rfl, hb⟩)
    · rintro ⟨hc, hrest⟩ before hb
      cases before with
      | nil => exact sound s hK
      | cons j before =>
        obtain ⟨rfl, hpre⟩ := List.cons_prefix_cons.mp hb
        exact (ih (keep _ _ hK hc)).mpr hrest before hpre

end
end Library
