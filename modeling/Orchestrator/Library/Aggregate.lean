import Orchestrator.Library.Table
import Mathlib.Algebra.BigOperators.Group.List.Basic
import Mathlib.Data.List.Dedup
import Mathlib.Tactic.Abel

/-!
# Aggregates of rows

The sum of a weight over the rows of a table, and how it moves when rows are
added, deleted or rewritten. A counter that is kept up to date by adding and
subtracting weights, one at a time and possibly refusing, ends with the sum of
what it was given. Weights lie in any commutative group, functions into one
included, so one counter per key is a counter.
-/
namespace Library

variable {α β κ M : Type*} [AddCommGroup M]

def total (w : α → M) (rows : List α) : M := (rows.map w).sum

section Total
variable {w w' : α → M} {rows : List α} {p : α → Bool}

@[simp] theorem total_nil : total w [] = 0 := rfl

@[simp] theorem total_cons {a : α} : total w (a :: rows) = w a + total w rows := by
  simp [total]

theorem total_append {rows' : List α} : total w (rows ++ rows') = total w rows + total w rows' := by
  simp [total]

theorem total_concat {a : α} : total w (rows ++ [a]) = total w rows + w a := by
  simp [total_append]

theorem total_neg : total (fun a => -w a) rows = -total w rows := by
  induction rows with
  | nil => simp
  | cons a rows ih => rw [total_cons, ih, total_cons, neg_add]

theorem total_congr (h : ∀ a ∈ rows, w a = w' a) : total w rows = total w' rows := by
  rw [total, total, List.map_congr_left h]

theorem total_map {f : β → α} {l : List β} : total w (l.map f) = total (fun b => w (f b)) l := by
  rw [total, total, List.map_map]
  rfl

/-- A sum splits into what a predicate selects and the rest. -/
theorem total_filter : total w (rows.filter p) + total w (rows.filter (fun a => !p a)) =
    total w rows := by
  induction rows with
  | nil => simp
  | cons a rows ih =>
    rw [total_cons, ← ih]
    by_cases h : p a = true
    · simp [h, add_assoc]
    · simp [h, add_left_comm]

/-- Deleting rows takes their weight away. -/
theorem total_delete : total w (rows.filter (fun a => !p a)) =
    total w rows - total w (rows.filter p) := by
  have hsplit : total w (rows.filter p) + total w (rows.filter (fun a => !p a)) = total w rows :=
    total_filter
  rw [← hsplit]
  abel

/-- Rewriting rows trades their old weight for the new one. -/
theorem total_patch {f : α → α} : total w (rows.map (Table.patch p f)) =
    total w rows + total (fun a => w (f a) - w a) (rows.filter p) := by
  induction rows with
  | nil => simp
  | cons a rows ih =>
    rw [List.map_cons, total_cons, ih, total_cons]
    by_cases h : p a = true
    · rw [Table.patch_pos h, List.filter_cons_of_pos h, total_cons]
      abel
    · rw [Table.patch_neg (by simpa using h), List.filter_cons_of_neg h]
      abel

theorem total_ite :
    total (fun a => if p a = true then w a else 0) rows = total w (rows.filter p) := by
  induction rows with
  | nil => rfl
  | cons a rows ih => by_cases h : p a = true <;> simp [h, ih]

end Total

/-! ## Groups -/

section Group
variable [DecidableEq κ] {rows : List α}

/-- `SELECT key, SUM(w) ... GROUP BY key`, rows without a key left out. -/
def groupTotals (key : α → Option κ) (w : α → M) (rows : List α) : List (κ × M) :=
  (rows.filterMap key).dedup.map (fun k => (k, total w (rows.filter (fun a => key a = some k))))

/-- A sum over different keys has at most one term for one key. -/
theorem total_single {ks : List κ} (hn : ks.Nodup) {v : κ → M} {x : κ} :
    total (fun k => if k = x then v k else 0) ks = if x ∈ ks then v x else 0 := by
  induction ks with
  | nil => rfl
  | cons k ks ih =>
    obtain ⟨hk, hn⟩ := List.nodup_cons.mp hn
    rw [total_cons, ih hn]
    by_cases h : k = x
    · subst h
      simp [hk]
    · simp [h, Ne.symm h]

/-- The groups of one key amount to the rows of that key. -/
theorem total_groupTotals (key : α → Option κ) (w : α → M) (rows : List α) (x : κ) :
    total (fun c : κ × M => if c.1 = x then c.2 else 0) (groupTotals key w rows) =
      total w (rows.filter (fun a => key a = some x)) := by
  have hmap : total (fun c : κ × M => if c.1 = x then c.2 else 0) (groupTotals key w rows) =
      total (fun k => if k = x then total w (rows.filter (fun a => key a = some k)) else 0)
        (rows.filterMap key).dedup := by
    rw [groupTotals, total, List.map_map]
    rfl
  rw [hmap, total_single (List.nodup_dedup _)]
  by_cases h : x ∈ (rows.filterMap key).dedup
  · rw [if_pos h]
  · rw [if_neg h, List.filter_eq_nil_iff.mpr]
    · rfl
    · intro a ha hk
      exact h (List.mem_dedup.mpr (List.mem_filterMap.mpr ⟨a, ha, by simpa using hk⟩))

theorem exists_mem_groupTotals (key : α → Option κ) (w : α → M) {a : α} (ha : a ∈ rows) {k : κ}
    (hk : key a = some k) :
    ∃ v, (k, v) ∈ groupTotals key w rows :=
  ⟨_, List.mem_map.mpr ⟨k, List.mem_dedup.mpr (List.mem_filterMap.mpr ⟨a, ha, hk⟩), rfl⟩⟩

end Group

/-! ## Counters -/

/-- A counter that takes each entry in turn, or refuses, ends at the sum of the entries. -/
theorem counter_foldlM {ε υ : Type} {γ : Type*} {take : υ → γ → Except ε υ} {read : υ → M}
    {value : γ → M} {P : υ → Prop} {cs : List γ} {u u' : υ}
    (h : ∀ c ∈ cs, ∀ u u', P u → take u c = .ok u' → P u' ∧ read u' = read u + value c)
    (hu : P u) (hx : cs.foldlM take u = .ok u') : P u' ∧ read u' = read u + total value cs := by
  induction cs generalizing u with
  | nil =>
    cases hx
    exact ⟨hu, by simp⟩
  | cons c cs ih =>
    rw [List.foldlM_cons] at hx
    cases hc : take u c with
    | error e => rw [hc] at hx; cases hx
    | ok v =>
      rw [hc] at hx
      obtain ⟨hv, hread⟩ := h c List.mem_cons_self u v hu hc
      obtain ⟨hP, hsum⟩ := ih (fun c hc => h c (List.mem_cons_of_mem _ hc)) hv hx
      exact ⟨hP, by rw [hsum, hread, total_cons, add_assoc]⟩

end Library
