import Mathlib.Data.List.Basic
import Mathlib.Data.List.Flatten
import Mathlib.Order.Nat
import Mathlib.Order.Lattice

/-!
# Paging

A reader goes through a growing and shrinking collection page by page. The rows
of a moment are in the order of their keys; a page is what comes first above the
reader's cursor, and its last key is the next cursor when rows are left over.
-/
namespace Library

structure Page (α κ : Type*) where
  rows : List α
  next : Option κ

section
variable {α κ : Type*} [LinearOrder κ] (key : α → κ)

/-- The page is a first part of the rows, and says where to go on unless it is all of them. -/
structure Page.Cuts (rows : List α) (page : Page α κ) : Prop where
  head : page.rows <+: rows
  all : page.next = none → page.rows = rows
  last : ∀ n, page.next = some n → ∃ a ∈ page.rows, key a = n ∧ ∀ b ∈ page.rows, key b ≤ n

/-- Pages read one after the other, each from the rows of its own moment above the cursor that
the page before it left. -/
inductive Reads : κ → List (List α × Page α κ) → Prop
  | nil (cursor : κ) : Reads cursor []
  | last {cursor : κ} {rows : List α} {page : Page α κ}
      (h : page.Cuts key (rows.filter fun a => cursor < key a)) (hn : page.next = none) :
      Reads cursor [(rows, page)]
  | next {cursor n : κ} {rows : List α} {page : Page α κ} {reads : List (List α × Page α κ)}
      (h : page.Cuts key (rows.filter fun a => cursor < key a)) (hn : page.next = some n)
      (rest : Reads n reads) : Reads cursor ((rows, page) :: reads)

/-- What the reader has seen. -/
def seen (reads : List (List α × Page α κ)) : List α := reads.flatMap fun r => r.2.rows

/-- The reader has come to the end. -/
def Ended (reads : List (List α × Page α κ)) : Prop :=
  ∃ r, reads.getLast? = some r ∧ r.2.next = none

variable {key}
variable {cursor n : κ} {rows : List α} {page : Page α κ} {reads : List (List α × Page α κ)} {a : α}

omit [LinearOrder κ] in
theorem ended_cons (hn : page.next = some n) : Ended ((rows, page) :: reads) ↔ Ended reads := by
  cases reads with
  | nil =>
    refine iff_of_false ?_ ?_
    · rintro ⟨r, hr, hnone⟩
      obtain rfl : (rows, page) = r := Option.some.inj hr
      rw [hn] at hnone
      cases hnone
    · rintro ⟨r, hr, -⟩
      cases hr
  | cons r reads => exact Iff.rfl

theorem Page.Cuts.above (h : page.Cuts key (rows.filter fun a => cursor < key a))
    (ha : a ∈ page.rows) : cursor < key a := by
  have hm := h.head.subset ha
  exact of_decide_eq_true (List.mem_filter.mp hm).2

theorem Page.Cuts.next_gt (h : page.Cuts key (rows.filter fun a => cursor < key a))
    (hn : page.next = some n) : cursor < n := by
  obtain ⟨a, ha, rfl, -⟩ := h.last n hn
  exact h.above ha

theorem Reads.above (h : Reads key cursor reads) (ha : a ∈ seen reads) : cursor < key a := by
  induction h with
  | nil => cases ha
  | last h hn =>
    rw [seen, List.flatMap_cons, List.mem_append] at ha
    obtain ha | ha := ha
    · exact h.above ha
    · cases ha
  | next h hn _ ih =>
    rw [seen, List.flatMap_cons, List.mem_append] at ha
    obtain ha | ha := ha
    · exact h.above ha
    · exact (h.next_gt hn).trans (ih ha)

/-- A page shows rows of its moment. -/
theorem Reads.subset (h : Reads key cursor reads) {r : List α × Page α κ} (hr : r ∈ reads)
    (ha : a ∈ r.2.rows) : a ∈ r.1 := by
  induction h with
  | nil => cases hr
  | last h hn =>
    obtain rfl := List.mem_singleton.mp hr
    exact List.mem_of_mem_filter (h.head.subset ha)
  | next h hn _ ih =>
    obtain rfl | hr := List.mem_cons.mp hr
    · exact List.mem_of_mem_filter (h.head.subset ha)
    · exact ih hr

/-- Nothing is seen twice, and everything in its order. -/
theorem Reads.increasing (h : Reads key cursor reads)
    (hsorted : ∀ r ∈ reads, (r.1.map key).Pairwise (· < ·)) :
    ((seen reads).map key).Pairwise (· < ·) := by
  have hpage : ∀ {cursor : κ} {rows : List α} {page : Page α κ},
      page.Cuts key (rows.filter fun a => cursor < key a) → (rows.map key).Pairwise (· < ·) →
      (page.rows.map key).Pairwise (· < ·) := by
    intro cursor rows page h hrows
    refine List.Pairwise.sublist (h.head.sublist.map key) ?_
    exact List.Pairwise.sublist (List.filter_sublist.map key) hrows
  induction h with
  | nil => exact List.Pairwise.nil
  | last h hn =>
    rw [seen, List.flatMap_cons, List.flatMap_nil, List.append_nil]
    exact hpage h (hsorted _ List.mem_cons_self)
  | @next cursor n rows page reads h hn rest ih =>
    rw [seen, List.flatMap_cons, List.map_append, List.pairwise_append]
    refine ⟨hpage h (hsorted _ List.mem_cons_self),
      ih fun r hr => hsorted r (List.mem_cons_of_mem _ hr), fun x hx y hy => ?_⟩
    obtain ⟨a, ha, rfl⟩ := List.mem_map.mp hx
    obtain ⟨b, hb, rfl⟩ := List.mem_map.mp hy
    obtain ⟨-, -, -, hle⟩ := h.last n hn
    exact lt_of_le_of_lt (hle a ha) (rest.above hb)

/-- The key that is there at every read is seen, once the reader has come to the end. -/
theorem Reads.complete {k : κ} (h : Reads key cursor reads) (hended : Ended reads)
    (hsorted : ∀ r ∈ reads, (r.1.map key).Pairwise (· < ·)) (hcursor : cursor < k)
    (hk : ∀ r ∈ reads, ∃ a ∈ r.1, key a = k) : ∃ a ∈ seen reads, key a = k := by
  induction h with
  | nil =>
    obtain ⟨r, hr, -⟩ := hended
    cases hr
  | last h hn =>
    obtain ⟨a, ha, rfl⟩ := hk _ List.mem_cons_self
    refine ⟨a, ?_, rfl⟩
    rw [seen, List.flatMap_cons, List.flatMap_nil, List.append_nil, h.all hn, List.mem_filter]
    exact ⟨ha, decide_eq_true hcursor⟩
  | @next cursor n rows page reads h hn rest ih =>
    simp only [seen, List.flatMap_cons, List.mem_append]
    by_cases hlt : n < k
    · obtain ⟨a, ha, hak⟩ := ih ((ended_cons hn).mp hended)
        (fun r hr => hsorted r (List.mem_cons_of_mem _ hr)) hlt
        fun r hr => hk r (List.mem_cons_of_mem _ hr)
      exact ⟨a, .inr ha, hak⟩
    · -- the rows of the page are the first ones, and the key does not come after its last
      obtain ⟨a, ha, rfl⟩ := hk _ List.mem_cons_self
      have hm : a ∈ rows.filter fun a => cursor < key a :=
        List.mem_filter.mpr ⟨ha, decide_eq_true hcursor⟩
      obtain ⟨b, hb, hbn, -⟩ := h.last n hn
      obtain ⟨left, hleft⟩ := h.head
      rw [← hleft, List.mem_append] at hm
      obtain hm | hm := hm
      · exact ⟨a, .inl hm, rfl⟩
      · have hrows : ((page.rows ++ left).map key).Pairwise (· < ·) := by
          rw [hleft]
          exact List.Pairwise.sublist (List.filter_sublist.map key) (hsorted _ List.mem_cons_self)
        rw [List.map_append, List.pairwise_append] at hrows
        have hafter := hrows.2.2 (key b) (List.mem_map_of_mem hb) (key a) (List.mem_map_of_mem hm)
        rw [hbn] at hafter
        exact absurd hafter hlt

end

/-- A reader that has not come to the end has passed a row with every page. -/
theorem Reads.length_le {α : Type*} {key : α → Nat} {cursor : Nat}
    {reads : List (List α × Page α Nat)} (h : Reads key cursor reads) (bound : Nat)
    (hopen : ¬ Ended reads) (hcursor : cursor ≤ bound)
    (hbound : ∀ r ∈ reads, ∀ a ∈ r.1, key a ≤ bound) :
    cursor + reads.length ≤ bound := by
  induction h with
  | nil => exact hcursor
  | last h hn => exact absurd ⟨_, rfl, hn⟩ hopen
  | @next cursor n rows page reads h hn rest ih =>
    have hgt : cursor < n := h.next_gt hn
    have hn' : n ≤ bound := by
      obtain ⟨a, ha, rfl, -⟩ := h.last n hn
      exact hbound _ List.mem_cons_self a (List.mem_of_mem_filter (h.head.subset ha))
    have hrest := ih (fun hended => hopen ((ended_cons hn).mpr hended)) hn' fun r hr =>
      hbound r (List.mem_cons_of_mem _ hr)
    rw [List.length_cons]
    omega

end Library
