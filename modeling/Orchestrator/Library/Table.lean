import Mathlib.Data.List.Nodup
import Mathlib.Data.List.MinMax
import Mathlib.Algebra.Order.BigOperators.Group.List
import Mathlib.Algebra.Ring.Int.Defs

/-!
# Keyed tables

A table is a list of rows in insertion order, no two of which share a key. The
key is a function of the row, so `Table Row.id` is the type of tables with
`id` as primary key and a table that breaks the constraint cannot be built.
Insertion fails on a taken key; an update rewrites the rows a predicate selects
and must leave keys alone.
-/
namespace Library

universe u v
variable {α : Type u} {κ : Type v}

structure Table (key : α → κ) where
  rows : List α
  keyed : (rows.map key).Nodup

namespace Table
variable {key : α → κ}

def empty (key : α → κ) : Table key := ⟨[], by simp⟩

instance : Membership α (Table key) := ⟨fun t a => a ∈ t.rows⟩

theorem mem_def {t : Table key} {a : α} : a ∈ t ↔ a ∈ t.rows := Iff.rfl

@[simp] theorem rows_empty : (empty key).rows = [] := rfl

@[simp] theorem not_mem_empty (a : α) : a ∉ empty key := by simp [mem_def]

@[ext] theorem ext {t u : Table key} (h : t.rows = u.rows) : t = u := by
  cases t; cases u; cases h; rfl

instance [DecidableEq α] : DecidableEq (Table key) := fun t u =>
  decidable_of_iff (t.rows = u.rows) ⟨ext, congrArg rows⟩

/-- Two rows of one table with the same key are the same row. -/
theorem eq_of_key {t : Table key} {a b : α} (ha : a ∈ t) (hb : b ∈ t) (h : key a = key b) :
    a = b :=
  List.inj_on_of_nodup_map t.keyed ha hb h

/-- No row has the value `v` in column `g`: the check behind a `UNIQUE` column. -/
def Unused {β : Type*} (t : Table key) (g : α → β) (v : β) : Prop := ∀ a ∈ t.rows, g a ≠ v

instance {β : Type*} [DecidableEq β] (t : Table key) (g : α → β) (v : β) :
    Decidable (t.Unused g v) := inferInstanceAs (Decidable (∀ a ∈ t.rows, g a ≠ v))

/-! ## Rewriting selected rows -/

/-- The row an update leaves: `f a` where `p` selects `a`, else `a`. -/
def patch (p : α → Bool) (f : α → α) (a : α) : α := if p a then f a else a

@[simp] theorem patch_pos {p : α → Bool} {f : α → α} {a : α} (h : p a = true) :
    patch p f a = f a := by simp [patch, h]

@[simp] theorem patch_neg {p : α → Bool} {f : α → α} {a : α} (h : p a = false) :
    patch p f a = a := by simp [patch, h]

/-- A column the rewrite does not touch keeps its value. -/
theorem patch_field {β : Type*} (g : α → β) {p : α → Bool} {f : α → α}
    (h : ∀ a, g (f a) = g a) (a : α) : g (patch p f a) = g a := by
  unfold patch; split <;> simp [h]

/-- What a rewrite of other columns leaves of the key. -/
theorem keeps (key : α → κ) (a : α) : key a = key a := rfl

/-- `UPDATE ... SET f WHERE p`. -/
def update (t : Table key) (p : α → Bool) (f : α → α)
    (h : ∀ a, key (f a) = key a := by intro _; simp) : Table key where
  rows := t.rows.map (patch p f)
  keyed := by
    rw [List.map_map]
    have : key ∘ patch p f = key := funext (patch_field key h)
    rw [this]
    exact t.keyed

section Update
variable {t : Table key} {p : α → Bool} {f : α → α} {h : ∀ a, key (f a) = key a}

@[simp] theorem rows_update : (t.update p f h).rows = t.rows.map (patch p f) := rfl

theorem mem_update {b : α} : b ∈ t.update p f h ↔ ∃ a ∈ t, patch p f a = b := by
  simp [mem_def]

theorem patch_mem_update {a : α} (ha : a ∈ t) : patch p f a ∈ t.update p f h :=
  mem_update.mpr ⟨a, ha, rfl⟩

/-- Rows the predicate does not select survive an update. -/
theorem mem_update_of_not {a : α} (ha : a ∈ t) (hp : p a = false) : a ∈ t.update p f h :=
  mem_update.mpr ⟨a, ha, patch_neg hp⟩

theorem update_eq_self (hp : ∀ a ∈ t, p a = false) : t.update p f h = t := by
  apply ext
  rw [rows_update, List.map_congr_left (g := id), List.map_id]
  intro a ha
  exact patch_neg (hp a ha)

/-- An update of one row, seen through a view that tells this row from the others. -/
theorem mem_map_update {β : Type*} {π : α → β} {a : α} (ha : a ∈ t)
    (hp : ∀ b ∈ t, p b = true ↔ b = a) (hπ : ∀ b ∈ t, π b = π a → b = a) (x : β) :
    x ∈ (t.update p f h).rows.map π ↔ x = π (f a) ∨ (x ∈ t.rows.map π ∧ x ≠ π a) := by
  rw [rows_update, List.map_map, List.mem_map, List.mem_map]
  constructor
  · rintro ⟨b, hb, rfl⟩
    by_cases hba : b = a
    · subst hba
      exact .inl (by simp [patch_pos ((hp b hb).mpr rfl)])
    · have hnot : p b = false := Bool.eq_false_iff.mpr fun hpb => hba ((hp b hb).mp hpb)
      refine .inr ⟨⟨b, hb, by simp [patch_neg hnot]⟩, ?_⟩
      simpa [patch_neg hnot] using fun heq => hba (hπ b hb heq)
  · rintro (rfl | ⟨⟨b, hb, rfl⟩, hne⟩)
    · exact ⟨a, ha, by simp [patch_pos ((hp a ha).mpr rfl)]⟩
    · have hnot : p b = false :=
        Bool.eq_false_iff.mpr fun hpb => hne (by rw [(hp b hb).mp hpb])
      exact ⟨b, hb, by simp [patch_neg hnot]⟩

/-- What `q` selects an update does not see, when it rewrites other rows to other rows. -/
theorem filter_update {q : α → Bool} (hq : ∀ a ∈ t, p a = true → q a = false ∧ q (f a) = false) :
    (t.update p f h).rows.filter q = t.rows.filter q := by
  rw [rows_update]
  have hrows : ∀ a ∈ t.rows, p a = true → q a = false ∧ q (f a) = false := hq
  generalize t.rows = rows at hrows
  induction rows with
  | nil => rfl
  | cons a rows ih =>
    have ih := ih fun b hb => hrows b (List.mem_cons_of_mem a hb)
    by_cases hp : p a = true
    · obtain ⟨h1, h2⟩ := hrows a List.mem_cons_self hp
      rw [List.map_cons, patch_pos hp, List.filter_cons_of_neg (by simp [h2]),
        List.filter_cons_of_neg (by simp [h1]), ih]
    · rw [List.map_cons, patch_neg (by simpa using hp), List.filter_cons, List.filter_cons, ih]

end Update

/-! ## Lookup -/

section Lookup
variable [DecidableEq κ]

def find? (t : Table key) (k : κ) : Option α := t.rows.find? (fun a => key a = k)

@[simp] theorem find?_eq_some {t : Table key} {k : κ} {a : α} :
    t.find? k = some a ↔ a ∈ t ∧ key a = k := by
  constructor
  · intro h
    exact ⟨List.mem_of_find?_eq_some h, by simpa using List.find?_some h⟩
  · rintro ⟨ha, rfl⟩
    unfold find?
    cases hf : t.rows.find? (fun b => key b = key a) with
    | none => simpa using List.find?_eq_none.mp hf a ha
    | some b =>
      have hb : key b = key a := by simpa using List.find?_some hf
      rw [eq_of_key (List.mem_of_find?_eq_some hf) ha hb]

theorem find?_of_mem {t : Table key} {a : α} (h : a ∈ t) : t.find? (key a) = some a :=
  find?_eq_some.mpr ⟨h, rfl⟩

theorem find?_eq_none {t : Table key} {k : κ} : t.find? k = none ↔ ∀ a ∈ t, key a ≠ k := by
  simp [find?, mem_def]

theorem find?_update {t : Table key} {p : α → Bool} {f : α → α}
    {h : ∀ a, key (f a) = key a} (k : κ) :
    (t.update p f h).find? k = (t.find? k).map (patch p f) := by
  have hk : ((fun a => decide (key a = k)) ∘ patch p f) = fun a => decide (key a = k) := by
    funext a; simp [patch_field key h]
  rw [find?, find?, rows_update, List.find?_map, hk]

/-- `INSERT`: refused when the key is taken. -/
def insert? (t : Table key) (a : α) : Option (Table key) :=
  if h : key a ∈ t.rows.map key then none
  else some ⟨t.rows ++ [a], by
    rw [List.map_append, List.nodup_append]
    refine ⟨t.keyed, by simp, ?_⟩
    rintro x hx y hy rfl
    obtain rfl : x = key a := List.mem_singleton.mp hy
    exact h hx⟩

theorem insert?_eq_some {t u : Table key} {a : α} :
    t.insert? a = some u ↔ (∀ b ∈ t, key b ≠ key a) ∧ u.rows = t.rows ++ [a] := by
  unfold insert?
  split
  · rename_i h
    obtain ⟨b, hb, hk⟩ := List.mem_map.mp h
    simpa using fun hn => absurd hk (hn b hb)
  · rename_i h
    have hn : ∀ b ∈ t, key b ≠ key a := fun b hb hk => h (List.mem_map.mpr ⟨b, hb, hk⟩)
    constructor
    · rintro hu; cases hu; exact ⟨hn, rfl⟩
    · rintro ⟨_, hu⟩; exact congrArg some (ext hu.symm)

theorem insert?_isSome {t : Table key} {a : α} (h : ∀ b ∈ t, key b ≠ key a) :
    ∃ u, t.insert? a = some u ∧ u.rows = t.rows ++ [a] := by
  have hn : key a ∉ t.rows.map key := by
    rintro hm
    obtain ⟨b, hb, hk⟩ := List.mem_map.mp hm
    exact h b hb hk
  simp [insert?, hn]

section Insert
variable {t u : Table key} {a : α} (hi : t.insert? a = some u)
include hi

theorem rows_insert : u.rows = t.rows ++ [a] := (insert?_eq_some.mp hi).2

theorem mem_insert {b : α} : b ∈ u ↔ b ∈ t ∨ b = a := by
  simp [mem_def, rows_insert hi]

theorem find?_insert_of_ne {k : κ} (hk : key a ≠ k) : u.find? k = t.find? k := by
  simp [find?, rows_insert hi, List.find?_append, hk]

end Insert
end Lookup

/-- `UPDATE ... SET f WHERE p` of any columns, refused when two keys collide. -/
def rewrite? [DecidableEq κ] (t : Table key) (p : α → Bool) (f : α → α) : Option (Table key) :=
  if h : ((t.rows.map (patch p f)).map key).Nodup then some ⟨t.rows.map (patch p f), h⟩ else none

theorem rows_rewrite [DecidableEq κ] {t u : Table key} {p : α → Bool} {f : α → α}
    (h : t.rewrite? p f = some u) : u.rows = t.rows.map (patch p f) := by
  unfold rewrite? at h
  split at h
  · cases h; rfl
  · cases h

/-! ## Replacing and deleting a row -/

/-- The row with the key of `b` becomes `b`. -/
def put [DecidableEq κ] (t : Table key) (b : α) : Table key where
  rows := t.rows.map (fun a => if key a = key b then b else a)
  keyed := by
    have hk : (key ∘ fun a => if key a = key b then b else a) = key := by
      funext a
      by_cases h : key a = key b <;> simp [h]
    rw [List.map_map, hk]
    exact t.keyed

theorem mem_put [DecidableEq κ] {t : Table key} {b c : α} :
    c ∈ t.put b ↔ (c ∈ t ∧ key c ≠ key b) ∨ (c = b ∧ ∃ a ∈ t, key a = key b) := by
  simp only [put, mem_def, List.mem_map]
  constructor
  · rintro ⟨a, ha, rfl⟩
    split
    · rename_i h; exact .inr ⟨rfl, a, ha, h⟩
    · rename_i h; exact .inl ⟨ha, h⟩
  · rintro (⟨hc, hk⟩ | ⟨rfl, a, ha, hk⟩)
    · exact ⟨c, hc, if_neg hk⟩
    · exact ⟨a, ha, if_pos hk⟩

/-- `DELETE ... WHERE p`. -/
def delete (t : Table key) (p : α → Bool) : Table key where
  rows := t.rows.filter (fun a => !p a)
  keyed := t.keyed.sublist (List.filter_sublist.map key)

theorem mem_delete {t : Table key} {p : α → Bool} {a : α} :
    a ∈ t.delete p ↔ a ∈ t ∧ p a = false := by
  simp [delete, mem_def]

/-! ## Counting -/

def count (t : Table key) (q : α → Bool) : Nat := t.rows.countP q

section Count
variable {t u : Table key} {p q : α → Bool} {f : α → α} {h : ∀ a, key (f a) = key a}

@[simp] theorem count_empty : (empty key).count q = 0 := rfl

theorem count_update : (t.update p f h).count q = t.count (fun a => q (patch p f a)) := by
  simp only [count, rows_update, List.countP_map]; rfl

theorem count_congr {r : α → Bool} (hq : ∀ a ∈ t, q a = r a) : t.count q = t.count r :=
  List.countP_congr fun a ha => by rw [hq a ha]

theorem count_mono {r : α → Bool} (hq : ∀ a ∈ t, q a = true → r a = true) :
    t.count q ≤ t.count r :=
  List.countP_mono_left hq

theorem count_lt {r : α → Bool} {a : α} (ha : a ∈ t) (hq : ∀ b ∈ t, q b = true → r b = true)
    (hr : r a = true) (hn : q a = false) : t.count q < t.count r := by
  obtain ⟨l₁, l₂, hl⟩ := List.append_of_mem (mem_def.mp ha)
  have h₁ : l₁.countP q ≤ l₁.countP r :=
    List.countP_mono_left fun b hb => hq b (by simp [mem_def, hl, hb])
  have h₂ : l₂.countP q ≤ l₂.countP r :=
    List.countP_mono_left fun b hb => hq b (by simp [mem_def, hl, hb])
  simp only [count, hl, List.countP_append, List.countP_cons, hr, hn]
  simp only [Bool.false_eq_true, if_false, if_true]
  omega

/-- An update that only takes rows out of `q` cannot raise its count. -/
theorem count_update_le (hq : ∀ a ∈ t, q (patch p f a) = true → q a = true) :
    (t.update p f h).count q ≤ t.count q := by
  rw [count_update]; exact count_mono hq

/-- An update into `q` adds the rows it selects from outside. -/
theorem count_update_add (hq : ∀ a, p a = true → q (f a) = true) :
    (t.update p f h).count q = t.count q + t.count (fun a => p a && !q a) := by
  rw [count_update]
  simp only [count]
  induction t.rows with
  | nil => rfl
  | cons a rows ih =>
    rw [List.countP_cons, List.countP_cons, List.countP_cons, ih]
    by_cases hp : p a = true
    · rw [patch_pos hp, if_pos (hq a hp)]
      by_cases hqa : q a = true <;> simp [hqa, hp] <;> omega
    · rw [patch_neg (by simpa using hp)]
      simp [hp]
      omega

theorem count_insert [DecidableEq κ] {a : α} (hi : t.insert? a = some u) :
    u.count q = t.count q + if q a then 1 else 0 := by
  simp [count, rows_insert hi, List.countP_append, List.countP_singleton]

theorem count_eq_zero : t.count q = 0 ↔ ∀ a ∈ t, q a = false := by
  simp [count, List.countP_eq_zero, mem_def]

theorem count_pos : 0 < t.count q ↔ ∃ a ∈ t, q a = true := by
  simp [count, List.countP_pos_iff, mem_def]

/-- At most one row satisfies `q` when any two that do have the same key. -/
theorem count_le_one (hq : ∀ a ∈ t, ∀ b ∈ t, q a = true → q b = true → key a = key b) :
    t.count q ≤ 1 := by
  have hn : (t.rows.filter q).Nodup := (List.Nodup.of_map _ t.keyed).filter _
  rw [count, List.countP_eq_length_filter]
  match hf : t.rows.filter q with
  | [] => simp
  | [_] => simp
  | a :: b :: rest =>
    have ha : a ∈ t.rows.filter q := by simp [hf]
    have hb : b ∈ t.rows.filter q := by simp [hf]
    rw [List.mem_filter] at ha hb
    have hab : a = b := eq_of_key ha.1 hb.1 (hq a ha.1 b hb.1 ha.2 hb.2)
    rw [hf] at hn
    simp [hab] at hn

/-- What a filter leaves that a single row passes. -/
theorem filter_eq_singleton {a : α} (ha : a ∈ t) (hqa : q a = true)
    (hq : ∀ b ∈ t, q b = true → key b = key a) : t.rows.filter q = [a] := by
  have hn : (t.rows.filter q).Nodup := (List.Nodup.of_map _ t.keyed).filter _
  refine List.perm_singleton.mp ((List.perm_ext_iff_of_nodup hn (List.nodup_singleton a)).mpr ?_)
  intro b
  rw [List.mem_filter, List.mem_singleton]
  constructor
  · rintro ⟨hb, hqb⟩
    exact eq_of_key hb ha (hq b hb hqb)
  · rintro rfl
    exact ⟨ha, hqa⟩

end Count

/-! ## Sums over the rows -/

section Sum
variable {t u : Table key} {p : α → Bool} {f : α → α} {h : ∀ a, key (f a) = key a}

def sum (t : Table key) (w : α → Int) : Int := (t.rows.map w).sum

@[simp] theorem sum_empty (w : α → Int) : (empty key).sum w = 0 := rfl

theorem sum_le_sum {w w' : α → Int} (hw : ∀ a ∈ t, w a ≤ w' a) : t.sum w ≤ t.sum w' :=
  List.sum_le_sum hw

theorem sum_insert [DecidableEq κ] {a : α} (hi : t.insert? a = some u) (w : α → Int) :
    u.sum w = t.sum w + w a := by
  simp [sum, rows_insert hi]

end Sum
end Table
end Library
