import Orchestrator.Storage.Triggers

/-!
# Counters and triggers

What one trigger statement does to the counters, and from it what all triggers
of one table do: `Tallied` says that the counters are the sum of what the rows
are charged, and each kind of statement keeps it.
-/
namespace Orchestrator.Store
open Library

/-! ## Reading the counters -/

/-- Both counters of every scope. -/
def readUsage (usage : Table StorageUsage.scope) (scope : Scope) : Int × Int :=
  match usage.find? scope with
  | some u => (u.totalBytes, u.progressBytes)
  | none => 0

theorem usedBytes_eq (s : State) : usedBytes s = readUsage s.storageUsage := by
  funext scope
  unfold usedBytes readUsage
  cases s.storageUsage.find? scope <;> rfl

/-- What a charge adds to each scope. -/
def Charge.value (c : Charge) (x : Scope) : Int × Int :=
  if c.scope = some x then (c.total, c.progress) else 0

/-- The scope has a row of its own. -/
def Held (usage : Table StorageUsage.scope) (x : Scope) : Prop := ∃ u ∈ usage, u.scope = x

def Valid (usage : Table StorageUsage.scope) : Prop := ∀ u ∈ usage, u.valid

/-- Every scope charged has a row. -/
def Covered (usage : Table StorageUsage.scope) (cs : List Charge) : Prop :=
  ∀ c ∈ cs, ∃ x, c.scope = some x ∧ Held usage x

section Statements
variable {usage usage' : Table StorageUsage.scope} {c : Charge} {cs : List Charge}

theorem readUsage_of_mem {u : StorageUsage} (hu : u ∈ usage) :
    readUsage usage u.scope = (u.totalBytes, u.progressBytes) := by
  rw [readUsage, Table.find?_of_mem hu]

theorem readUsage_of_not_held {x : Scope} (h : ¬ Held usage x) : readUsage usage x = 0 := by
  have hnone : usage.find? x = none := Table.find?_eq_none.mpr fun u hu hx => h ⟨u, hu, hx⟩
  rw [readUsage, hnone]

/-- Valid counters order progress below total, without a row too. -/
theorem Valid.read (h : Valid usage) (x : Scope) :
    0 ≤ (readUsage usage x).1 ∧ 0 ≤ (readUsage usage x).2 ∧
      (readUsage usage x).2 ≤ (readUsage usage x).1 := by
  by_cases hx : Held usage x
  · obtain ⟨u, hu, rfl⟩ := hx
    rw [readUsage_of_mem hu]
    exact h u hu
  · rw [readUsage_of_not_held hx]
    exact ⟨le_refl _, le_refl _, le_refl _⟩

/-- Adding to the row of one scope, whatever the amounts. -/
theorem readUsage_update {p : StorageUsage → Bool} {x : Scope} (hp : ∀ u, p u = true ↔ u.scope = x)
    (hx : Held usage x) (total progress : Int) :
    readUsage (usage.update p (fun u => { u with
      totalBytes := u.totalBytes + total, progressBytes := u.progressBytes + progress })) =
      readUsage usage + fun y => if x = y then (total, progress) else 0 := by
  funext y
  simp only [Pi.add_apply]
  by_cases hy : Held usage y
  · obtain ⟨u, hu, rfl⟩ := hy
    have hm := Table.patch_mem_update (p := p) (f := fun u : StorageUsage => { u with
      totalBytes := u.totalBytes + total, progressBytes := u.progressBytes + progress })
      (h := by simp) hu
    have hscope : (Table.patch p (fun u : StorageUsage => { u with
        totalBytes := u.totalBytes + total
        progressBytes := u.progressBytes + progress }) u).scope = u.scope :=
      Table.patch_field StorageUsage.scope (by intro _; rfl) u
    rw [← hscope, readUsage_of_mem hm, hscope, readUsage_of_mem hu]
    by_cases hux : u.scope = x
    · rw [Table.patch_pos ((hp u).mpr hux), if_pos hux.symm]
      rfl
    · rw [Table.patch_neg (Bool.eq_false_iff.mpr fun h => hux ((hp u).mp h)),
        if_neg (Ne.symm hux), add_zero]
  · rw [readUsage_of_not_held hy, readUsage_of_not_held, if_neg, add_zero]
    · rintro rfl
      exact hy hx
    · rintro ⟨u', hu', rfl⟩
      obtain ⟨u, hu, rfl⟩ := Table.mem_update.mp hu'
      exact hy ⟨u, hu, (Table.patch_field StorageUsage.scope (by intro _; rfl) u).symm⟩

/-- The rows a charge leaves: the row of its scope, and the others as they were. -/
theorem mem_charge {x : Scope} {total progress : Int} {u : StorageUsage}
    (hu : u ∈ charge usage x total progress) : u.scope = x ∨ u ∈ usage := by
  unfold charge at hu
  split at hu
  · obtain ⟨v, hv, rfl⟩ := Table.mem_update.mp hu
    by_cases hx : v.scope = x
    · exact .inl (by rw [Table.patch_pos (by simpa using hx)]; exact hx)
    · exact .inr (by rw [Table.patch_neg (by simpa using hx)]; exact hv)
  · rename_i hnone
    obtain ⟨t, hi, -⟩ := Table.insert?_isSome (a := (⟨x, total, progress⟩ : StorageUsage))
      (Table.find?_eq_none.mp hnone)
    rw [hi, Option.getD_some] at hu
    rcases (Table.mem_insert hi).mp hu with hu | rfl
    · exact .inr hu
    · exact .inl rfl

theorem held_charge {x y : Scope} {total progress : Int} :
    Held (charge usage x total progress) y ↔ y = x ∨ Held usage y := by
  constructor
  · rintro ⟨u, hu, rfl⟩
    exact (mem_charge hu).imp_right fun hu => ⟨u, hu, rfl⟩
  · unfold charge
    split
    · rename_i v hv
      obtain ⟨hvm, hvx⟩ := Table.find?_eq_some.mp hv
      have hheld : ∀ u ∈ usage, Held (usage.update (fun u => u.scope = x) (fun u => { u with
          totalBytes := u.totalBytes + total, progressBytes := u.progressBytes + progress }))
          u.scope := fun u hu => ⟨_, Table.patch_mem_update hu,
            Table.patch_field StorageUsage.scope (by intro _; rfl) u⟩
      rintro (rfl | ⟨u, hu, rfl⟩)
      · exact hvx ▸ hheld v hvm
      · exact hheld u hu
    · rename_i hnone
      obtain ⟨t, hi, -⟩ := Table.insert?_isSome (a := (⟨x, total, progress⟩ : StorageUsage))
        (Table.find?_eq_none.mp hnone)
      rw [hi, Option.getD_some]
      rintro (rfl | ⟨u, hu, rfl⟩)
      · exact ⟨_, (Table.mem_insert hi).mpr (.inr rfl), rfl⟩
      · exact ⟨u, (Table.mem_insert hi).mpr (.inl hu), rfl⟩

theorem readUsage_charge {x : Scope} {total progress : Int} :
    readUsage (charge usage x total progress) =
      readUsage usage + fun y => if x = y then (total, progress) else 0 := by
  by_cases hx : Held usage x
  · obtain ⟨v, hv, hvx⟩ := hx
    have hfind : usage.find? x = some v := Table.find?_eq_some.mpr ⟨hv, hvx⟩
    simp only [charge, hfind]
    exact readUsage_update (fun u => decide_eq_true_iff) ⟨v, hv, hvx⟩ total progress
  · have hnone : usage.find? x = none := Table.find?_eq_none.mpr fun u hu hux => hx ⟨u, hu, hux⟩
    obtain ⟨t, hi, -⟩ := Table.insert?_isSome (a := (⟨x, total, progress⟩ : StorageUsage))
      (Table.find?_eq_none.mp hnone)
    simp only [charge, hnone, hi, Option.getD_some]
    funext y
    simp only [Pi.add_apply]
    by_cases hy : x = y
    · subst hy
      rw [if_pos rfl, readUsage_of_not_held hx, zero_add]
      exact readUsage_of_mem ((Table.mem_insert hi).mpr (.inr rfl))
    · rw [if_neg hy, add_zero, readUsage, Table.find?_insert_of_ne hi hy]
      rfl

/-! ## Credits and debits -/

theorem credit_spec (h : credit usage c = .ok usage') (hv : Valid usage) :
    Valid usage' ∧ (∀ x, Held usage x → Held usage' x) ∧
      (∃ x, c.scope = some x ∧ Held usage' x) ∧ readUsage usage' = readUsage usage + c.value := by
  simp only [credit, bind_ok_iff, expect_ok, require_ok, exists_const, Except.ok.injEq] at h
  obtain ⟨x, hx, -, hcheck, rfl⟩ := h
  refine ⟨fun u hu => ?_, fun y hy => held_charge.mpr (.inr hy),
    ⟨x, hx, held_charge.mpr (.inl rfl)⟩, ?_⟩
  · rcases mem_charge hu with hux | hu
    · exact hcheck u hu hux
    · exact hv u hu
  · rw [readUsage_charge]
    congr 1
    funext y
    simp only [Charge.value, hx, Option.some.injEq]

/-- A charge whose amounts are in order is credited. -/
theorem credit_ok {x : Scope} (hx : c.scope = some x) (hv : Valid usage)
    (hc : 0 ≤ c.progress ∧ c.progress ≤ c.total) :
    credit usage c = .ok (charge usage x c.total c.progress) := by
  obtain ⟨h0, h1⟩ := hc
  have hrow : ∀ u ∈ (charge usage x c.total c.progress).rows, u.scope = x → u.valid := by
    intro u hu hux
    have hread := readUsage_of_mem hu
    rw [readUsage_charge, Pi.add_apply, hux, if_pos rfl] at hread
    have ht : (readUsage usage x).1 + c.total = u.totalBytes := congrArg Prod.fst hread
    have hp : (readUsage usage x).2 + c.progress = u.progressBytes := congrArg Prod.snd hread
    obtain ⟨h2, h3, h4⟩ := hv.read x
    simp only [StorageUsage.valid]
    omega
  have hnew : StorageUsage.valid ⟨x, c.total, c.progress⟩ := ⟨h0.trans h1, h0, h1⟩
  simp only [credit, hx, expect_some, ok_bind, require_pos hnew, require_pos hrow]

theorem debit_spec (h : debit usage c = .ok usage') (hv : Valid usage)
    (hc : ∃ x, c.scope = some x ∧ Held usage x) :
    Valid usage' ∧ (∀ x, Held usage x → Held usage' x) ∧
      readUsage usage' = readUsage usage - c.value := by
  obtain ⟨x, hx, hheld⟩ := hc
  simp only [debit, bind_ok_iff, require_ok, exists_const, Except.ok.injEq] at h
  obtain ⟨hcheck, rfl⟩ := h
  refine ⟨fun u hu => ?_, ?_, ?_⟩
  · obtain ⟨v, hvm, rfl⟩ := Table.mem_update.mp hu
    by_cases hvx : some v.scope = c.scope
    · refine hcheck _ hu ?_
      rw [Table.patch_field StorageUsage.scope (by intro _; rfl) v]
      exact hvx
    · rw [Table.patch_neg (by simpa using hvx)]
      exact hv v hvm
  · rintro y ⟨u, hu, rfl⟩
    exact ⟨_, Table.patch_mem_update hu, Table.patch_field StorageUsage.scope (by intro _; rfl) u⟩
  · have hread := readUsage_update (p := fun u => some u.scope = c.scope)
      (x := x) (fun u => by simp [hx]) hheld (-c.total) (-c.progress)
    simp only [← sub_eq_add_neg] at hread
    rw [hread, sub_eq_add_neg]
    congr 1
    funext y
    simp only [Charge.value, hx, Option.some.injEq, Pi.neg_apply]
    split
    · rfl
    · exact neg_zero.symm

theorem Covered.mono (h : Covered usage cs) (hk : ∀ x, Held usage x → Held usage' x) :
    Covered usage' cs := by
  intro c hc
  obtain ⟨x, hx, hh⟩ := h c hc
  exact ⟨x, hx, hk x hh⟩

theorem credits_spec (h : cs.foldlM credit usage = .ok usage') (hv : Valid usage) :
    Valid usage' ∧ (∀ x, Held usage x → Held usage' x) ∧ Covered usage' cs ∧
      readUsage usage' = readUsage usage + total Charge.value cs := by
  induction cs generalizing usage with
  | nil =>
    cases h
    exact ⟨hv, fun _ h => h, fun _ h => (nomatch h), by simp⟩
  | cons c cs ih =>
    rw [List.foldlM_cons, bind_ok_iff] at h
    obtain ⟨u, h₁, h₂⟩ := h
    obtain ⟨hv₁, hk₁, ⟨x, hx, hheld⟩, hr₁⟩ := credit_spec h₁ hv
    obtain ⟨hv₂, hk₂, hc₂, hr₂⟩ := ih h₂ hv₁
    refine ⟨hv₂, fun y hy => hk₂ y (hk₁ y hy), ?_, ?_⟩
    · intro a ha
      rcases List.mem_cons.mp ha with rfl | ha
      · exact ⟨x, hx, hk₂ x hheld⟩
      · exact hc₂ a ha
    · rw [hr₂, hr₁, total_cons, add_assoc]

theorem debits_spec (h : cs.foldlM debit usage = .ok usage') (hv : Valid usage)
    (hc : Covered usage cs) :
    Valid usage' ∧ (∀ x, Held usage x → Held usage' x) ∧
      readUsage usage' = readUsage usage - total Charge.value cs := by
  induction cs generalizing usage with
  | nil =>
    cases h
    exact ⟨hv, fun _ h => h, by simp⟩
  | cons c cs ih =>
    rw [List.foldlM_cons, bind_ok_iff] at h
    obtain ⟨u, h₁, h₂⟩ := h
    obtain ⟨hv₁, hk₁, hr₁⟩ := debit_spec h₁ hv (hc c List.mem_cons_self)
    have hrest : Covered u cs :=
      Covered.mono (fun a ha => hc a (List.mem_cons_of_mem c ha)) hk₁
    obtain ⟨hv₂, hk₂, hr₂⟩ := ih h₂ hv₁ hrest
    refine ⟨hv₂, fun y hy => hk₂ y (hk₁ y hy), ?_⟩
    rw [hr₂, hr₁, total_cons, sub_sub]

end Statements

/-! ## One table and its triggers -/

/-- The counters are the charges of the rows and what other rows, `rest`, are charged. -/
structure Tallied {α : Type} (charges : α → List Charge) (rows : List α)
    (rest : Scope → Int × Int) (usage : Table StorageUsage.scope) : Prop where
  equal : readUsage usage = total (fun r => total Charge.value (charges r)) rows + rest
  valid : Valid usage
  covered : ∀ r ∈ rows, Covered usage (charges r)

section Tables
variable {α : Type} {charges : α → List Charge} {rows : List α} {rest : Scope → Int × Int}
  {usage usage' : Table StorageUsage.scope} {p : α → Bool} {set : α → α} {r : α}

theorem Tallied.insert (ht : Tallied charges rows rest usage)
    (h : onInsert charges usage r = .ok usage') :
    Tallied charges (rows ++ [r]) rest usage' ∧ ∀ x, Held usage x → Held usage' x := by
  obtain ⟨hv, hk, hc, hr⟩ := credits_spec h ht.valid
  refine ⟨⟨?_, hv, ?_⟩, hk⟩
  · rw [hr, ht.equal, total_concat, add_right_comm]
  · intro q hq
    rcases List.mem_append.mp hq with hq | hq
    · exact (ht.covered q hq).mono hk
    · rw [List.mem_singleton.mp hq]
      exact hc

theorem onUpdate_spec (h : onUpdate charges set usage r = .ok usage') (hv : Valid usage)
    (hc : Covered usage (charges r)) :
    (Valid usage' ∧ (∀ x, Held usage x → Held usage' x) ∧ Covered usage' (charges (set r))) ∧
      readUsage usage' = readUsage usage +
        (total Charge.value (charges (set r)) - total Charge.value (charges r)) := by
  obtain ⟨u, h₁, h₂⟩ := bind_ok_iff.mp h
  obtain ⟨hv₁, hk₁, hr₁⟩ := debits_spec h₁ hv hc
  obtain ⟨hv₂, hk₂, hc₂, hr₂⟩ := credits_spec h₂ hv₁
  refine ⟨⟨hv₂, fun x hx => hk₂ x (hk₁ x hx), hc₂⟩, ?_⟩
  rw [hr₂, hr₁]
  abel

/-- The triggers of the selected rows, one row after the other. -/
theorem onUpdates_spec {selected : List α}
    (h : selected.foldlM (onUpdate charges set) usage = .ok usage') (hv : Valid usage)
    (hc : ∀ r ∈ selected, Covered usage (charges r)) :
    (Valid usage' ∧ (∀ x, Held usage x → Held usage' x)) ∧
      (∀ r ∈ selected, Covered usage' (charges (set r))) ∧
      readUsage usage' = readUsage usage + total (fun r =>
        total Charge.value (charges (set r)) - total Charge.value (charges r)) selected := by
  induction selected generalizing usage with
  | nil =>
    cases h
    exact ⟨⟨hv, fun _ h => h⟩, fun _ h => (nomatch h), by simp⟩
  | cons r selected ih =>
    rw [List.foldlM_cons, bind_ok_iff] at h
    obtain ⟨u, h₁, h₂⟩ := h
    obtain ⟨⟨hv₁, hk₁, hc₁⟩, hr₁⟩ := onUpdate_spec h₁ hv (hc r List.mem_cons_self)
    obtain ⟨⟨hv₂, hk₂⟩, hc₂, hr₂⟩ := ih h₂ hv₁ fun q hq =>
      (hc q (List.mem_cons_of_mem r hq)).mono hk₁
    refine ⟨⟨hv₂, fun x hx => hk₂ x (hk₁ x hx)⟩, ?_, ?_⟩
    · intro q hq
      rcases List.mem_cons.mp hq with rfl | hq
      · exact hc₁.mono hk₂
      · exact hc₂ q hq
    · rw [hr₂, hr₁, total_cons, add_assoc]

theorem Tallied.update (ht : Tallied charges rows rest usage)
    (h : (rows.filter p).foldlM (onUpdate charges set) usage = .ok usage') :
    Tallied charges (rows.map (Table.patch p set)) rest usage' ∧
      ∀ x, Held usage x → Held usage' x := by
  obtain ⟨⟨hv, hk⟩, hc, hr⟩ := onUpdates_spec h ht.valid fun r hr =>
    ht.covered r (List.mem_of_mem_filter hr)
  refine ⟨⟨?_, hv, ?_⟩, hk⟩
  · rw [hr, ht.equal, total_patch, add_right_comm]
  · intro q hq
    obtain ⟨r, hrm, rfl⟩ := List.mem_map.mp hq
    by_cases hp : p r = true
    · rw [Table.patch_pos hp]
      exact hc r (List.mem_filter.mpr ⟨hrm, hp⟩)
    · rw [Table.patch_neg (Bool.eq_false_iff.mpr hp)]
      exact (ht.covered r hrm).mono hk

/-- Where no charge changes, no trigger has to fire. -/
theorem Tallied.rewrite (ht : Tallied charges rows rest usage)
    (h : ∀ r, charges (set r) = charges r) :
    Tallied charges (rows.map (Table.patch p set)) rest usage := by
  have hpatch : ∀ r, charges (Table.patch p set r) = charges r :=
    fun r => Table.patch_field charges h r
  refine ⟨?_, ht.valid, ?_⟩
  · rw [ht.equal]
    congr 1
    rw [total, total, List.map_map]
    refine congrArg List.sum (List.map_congr_left fun r _ => ?_)
    rw [Function.comp_apply, hpatch]
  · intro q hq
    obtain ⟨r, hrm, rfl⟩ := List.mem_map.mp hq
    rw [hpatch]
    exact ht.covered r hrm

theorem Tallied.delete (ht : Tallied charges rows rest usage)
    (h : (rows.filter p).foldlM (onDelete charges) usage = .ok usage') :
    Tallied charges (rows.filter (fun r => !p r)) rest usage' ∧
      ∀ x, Held usage x → Held usage' x := by
  have hstep : ∀ r ∈ rows.filter p, ∀ u u', (Valid u ∧ ∀ x, Held usage x → Held u x) →
      onDelete charges u r = .ok u' → (Valid u' ∧ ∀ x, Held usage x → Held u' x) ∧
        readUsage u' = readUsage u + -total Charge.value (charges r) := by
    rintro r hr u u' ⟨hv, hk⟩ hx
    have hc : Covered u (charges r) := (ht.covered r (List.mem_of_mem_filter hr)).mono hk
    obtain ⟨hv', hk', hread⟩ := debits_spec hx hv hc
    exact ⟨⟨hv', fun x hx => hk' x (hk x hx)⟩, by rw [hread, sub_eq_add_neg]⟩
  obtain ⟨⟨hv, hk⟩, hr⟩ := counter_foldlM hstep ⟨ht.valid, fun _ h => h⟩ h
  refine ⟨⟨?_, hv, fun r hr => ?_⟩, hk⟩
  · rw [hr, ht.equal, total_delete, total_neg]
    abel
  · exact (ht.covered r (List.mem_of_mem_filter hr)).mono hk

end Tables
end Orchestrator.Store
