import Orchestrator.Invariants.Moves

/-!
# What admitting a plan inserts

`Inserted` is the specification of the insert loop of `SubmitPlan`; `PlanShape`
collects what `validatePlan` guarantees of the plan it accepts.
-/
namespace Orchestrator.Store
open Library

/-! ## The insert loop -/

/-- The row of an admitted task: ready, with a sequence taken on the way, when it
has no dependency, and queued otherwise. -/
def AdmittedRow (d : DB) (launchId stamp : String) (lo hi : Int) (spec : TaskSpec) (t : Task) :
    Prop :=
  (spec.dependencies = [] ∧ ∃ n, lo ≤ n ∧ n < hi ∧ t = d.taskRow launchId stamp spec (some n)) ∨
    (spec.dependencies ≠ [] ∧ t = d.taskRow launchId stamp spec none)

structure Inserted (d : DB) (launchId stamp : String) (specs : List TaskSpec) (c c' : Core) :
    Prop where
  limits : c'.limits = c.limits
  attempts : c'.attempts = c.attempts
  segments : c'.segments = c.segments
  next_le : c.nextReadySequence ≤ c'.nextReadySequence
  rows : ∃ new : List Task, c'.tasks.rows = c.tasks.rows ++ new ∧
    List.Forall₂ (AdmittedRow d launchId stamp c.nextReadySequence c'.nextReadySequence) specs new ∧
    new.Pairwise (fun t u => ∀ n, t.readySequence = some n → u.readySequence ≠ some n)

section Insert
variable {d : DB} {launchId stamp : String} {c c' : Core} {spec : TaskSpec}

theorem insertTask_inserted (h : d.insertTask launchId stamp c spec = .ok c') :
    Inserted d launchId stamp [spec] c c' := by
  unfold DB.insertTask at h
  by_cases hd : spec.dependencies = []
  · simp only [hd, if_true, Core.takeReadySequence, bind_ok_iff, expect_ok, require_ok,
      exists_const, Except.ok.injEq] at h
    obtain ⟨tasks, hi, -, rfl⟩ := h
    refine ⟨rfl, rfl, rfl, ?_, [d.taskRow launchId stamp spec (some c.nextReadySequence)],
      Table.rows_insert hi, .cons (.inl ⟨hd, c.nextReadySequence, le_refl _, ?_, rfl⟩) .nil,
      List.pairwise_singleton _ _⟩
    · change c.nextReadySequence ≤ c.nextReadySequence + 1; omega
    · change c.nextReadySequence < c.nextReadySequence + 1; omega
  · simp only [hd, if_false, bind_ok_iff, expect_ok, require_ok, exists_const,
      Except.ok.injEq] at h
    obtain ⟨tasks, hi, -, rfl⟩ := h
    exact ⟨rfl, rfl, rfl, le_refl _, [d.taskRow launchId stamp spec none], Table.rows_insert hi,
      .cons (.inr ⟨hd, rfl⟩) .nil, List.pairwise_singleton _ _⟩

theorem AdmittedRow.mono {lo lo' hi hi' : Int} {t : Task} (hlo : lo' ≤ lo) (hhi : hi ≤ hi')
    (h : AdmittedRow d launchId stamp lo hi spec t) :
    AdmittedRow d launchId stamp lo' hi' spec t := by
  rcases h with ⟨hd, n, h1, h2, rfl⟩ | h
  · exact .inl ⟨hd, n, by omega, by omega, rfl⟩
  · exact .inr h

/-- A sequence in an admitted row was taken between `lo` and `hi`. -/
theorem AdmittedRow.range {lo hi n : Int} {t : Task}
    (h : AdmittedRow d launchId stamp lo hi spec t) (hn : t.readySequence = some n) :
    lo ≤ n ∧ n < hi := by
  rcases h with ⟨-, m, h1, h2, rfl⟩ | ⟨-, rfl⟩
  · obtain rfl : m = n := by simpa [DB.taskRow] using hn
    exact ⟨h1, h2⟩
  · cases hn

theorem forall₂_right {α β : Type*} {R : α → β → Prop} {l : List α} {l' : List β}
    (h : List.Forall₂ R l l') {b : β} (hb : b ∈ l') : ∃ a ∈ l, R a b := by
  induction h with
  | nil => cases hb
  | cons hab _ ih =>
    rcases List.mem_cons.mp hb with rfl | hb
    · exact ⟨_, List.mem_cons_self, hab⟩
    · obtain ⟨a, ha, hr⟩ := ih hb
      exact ⟨a, List.mem_cons_of_mem _ ha, hr⟩

theorem forall₂_left {α β : Type*} {R : α → β → Prop} {l : List α} {l' : List β}
    (h : List.Forall₂ R l l') {a : α} (ha : a ∈ l) : ∃ b ∈ l', R a b :=
  forall₂_right h.flip ha

theorem insertTasks_inserted {specs : List TaskSpec}
    (h : specs.foldlM (d.insertTask launchId stamp) c = .ok c') :
    Inserted d launchId stamp specs c c' := by
  induction specs generalizing c with
  | nil =>
    cases h
    exact ⟨rfl, rfl, rfl, le_refl _, [], by simp, .nil, .nil⟩
  | cons spec specs ih =>
    rw [List.foldlM_cons, bind_ok_iff] at h
    obtain ⟨c₁, h₁, h₂⟩ := h
    obtain ⟨hl, ha, hs, hn, new, hr, hrow, hp⟩ := ih h₂
    obtain ⟨hl₁, ha₁, hs₁, hn₁, new₁, hr₁, hrow₁, hp₁⟩ := insertTask_inserted h₁
    obtain ⟨t, rfl⟩ : ∃ t, new₁ = [t] := by
      cases hrow₁ with
      | cons _ h => cases h; exact ⟨_, rfl⟩
    have ht := (List.forall₂_cons.mp hrow₁).1
    refine ⟨hl.trans hl₁, ha.trans ha₁, hs.trans hs₁, le_trans hn₁ hn, t :: new, ?_, ?_, ?_⟩
    · rw [hr, hr₁, List.append_assoc, List.singleton_append]
    · exact .cons (ht.mono (le_refl _) hn) (hrow.imp fun _ _ h => h.mono hn₁ (le_refl _))
    · refine List.pairwise_cons.mpr ⟨fun u hu n htn hun => ?_, hp⟩
      obtain ⟨spec', -, hu⟩ := forall₂_right hrow hu
      have h1 := ht.range htn
      have h2 := hu.range hun
      omega

end Insert

/-! ## Accepted plans -/

structure PlanShape (p : PlanSpec) : Prop where
  nodup : (p.tasks.map TaskSpec.id).Nodup
  runId : ∀ t ∈ p.tasks, t.runId = p.run.id
  attempts : ∀ t ∈ p.tasks, 1 ≤ t.maxAttempts ∧ t.maxAttempts ≤ 3
  closed : ∀ t ∈ p.tasks, ∀ dep ∈ t.dependencies, ∃ u ∈ p.tasks, u.id = dep

theorem validateTasks_spec {d : DB} {runId : String} {before tasks : List TaskSpec}
    (h : d.validateTasks runId before tasks = .ok ()) (hn : (before.map TaskSpec.id).Nodup) :
    ((before ++ tasks).map TaskSpec.id).Nodup ∧
      ∀ t ∈ tasks, t.runId = runId ∧ 1 ≤ t.maxAttempts ∧ t.maxAttempts ≤ 3 := by
  induction tasks generalizing before with
  | nil => simpa using hn
  | cons task tasks ih =>
    simp only [DB.validateTasks, DB.validateTask, bind_ok_iff, require_ok, exists_const] at h
    obtain ⟨⟨⟨-, hrun, hlo, hhi⟩, hnew, -⟩, hrest⟩ := h
    have hn' : ((before ++ [task]).map TaskSpec.id).Nodup := by
      rw [List.map_append, List.nodup_append]
      refine ⟨hn, by simp, ?_⟩
      rintro x hx y hy rfl
      obtain ⟨t, ht, rfl⟩ := List.mem_map.mp hx
      exact hnew t ht (by simpa using hy)
    obtain ⟨hnodup, hall⟩ := ih hrest hn'
    refine ⟨by simpa using hnodup, fun t ht => ?_⟩
    rcases List.mem_cons.mp ht with rfl | ht
    · exact ⟨hrun, hlo, hhi⟩
    · exact hall t ht

/-- The ids a search has finished: each is a task of the plan whose dependencies
are tasks of the plan. -/
def Explored (tasks : List TaskSpec) (done : List String) : Prop :=
  ∀ id ∈ done, ∀ task, tasks.find? (fun t => t.id = id) = some task →
    ∀ dep ∈ task.dependencies, ∃ u ∈ tasks, u.id = dep

/-- A finished visit has explored its id and everything explored before. -/
theorem visit_explored {tasks : List TaskSpec} {fuel : Nat} {path done done' : List String}
    {id : String} (h : visit tasks fuel path done id = .ok done') (hd : Explored tasks done) :
    Explored tasks done' ∧ done ⊆ done' ∧ id ∈ done' := by
  induction fuel generalizing path done done' id with
  | zero => cases h
  | succ fuel ih =>
    simp only [visit, bind_ok_iff, require_ok, exists_const] at h
    obtain ⟨-, h⟩ := h
    split at h
    · cases h
      exact ⟨hd, List.Subset.refl _, by assumption⟩
    · simp only [bind_ok_iff, expect_ok, Except.ok.injEq] at h
      obtain ⟨task, hfind, explored, hfold, rfl⟩ := h
      have hdeps : ∀ (deps : List String) (done done' : List String),
          deps.foldlM (fun done dep => do
            require (dep ≠ id) CodeError.invalidDag
            require (∃ t ∈ tasks, t.id = dep) CodeError.invalidDag
            visit tasks fuel (id :: path) done dep) done = .ok done' →
          Explored tasks done → Explored tasks done' ∧ done ⊆ done' ∧
            ∀ dep ∈ deps, ∃ u ∈ tasks, u.id = dep := by
        intro deps
        induction deps with
        | nil =>
          intro done done' h hd
          cases h
          exact ⟨hd, List.Subset.refl _, by simp⟩
        | cons dep deps ihd =>
          intro done done' h hd
          simp only [List.foldlM_cons, bind_ok_iff, require_ok, exists_const] at h
          obtain ⟨mid, ⟨-, hex, hv⟩, hrest⟩ := h
          obtain ⟨hm, hsub, -⟩ := ih hv hd
          obtain ⟨he, hsub', hall⟩ := ihd mid done' hrest hm
          refine ⟨he, List.Subset.trans hsub hsub', fun x hx => ?_⟩
          rcases List.mem_cons.mp hx with rfl | hx
          · exact hex
          · exact hall x hx
      obtain ⟨he, hsub, hall⟩ := hdeps _ _ _ hfold hd
      refine ⟨?_, List.subset_cons_of_subset _ hsub, List.mem_cons_self⟩
      intro x hx t ht dep hdep
      rcases List.mem_cons.mp hx with rfl | hx
      · rw [hfind] at ht
        cases ht
        exact hall dep hdep
      · exact he x hx t ht dep hdep

theorem visits_explored {tasks starts : List TaskSpec} {fuel : Nat} {done done' : List String}
    (h : starts.foldlM (fun done t => visit tasks fuel [] done t.id) done = .ok done')
    (hd : Explored tasks done) :
    Explored tasks done' ∧ done ⊆ done' ∧ ∀ t ∈ starts, t.id ∈ done' := by
  induction starts generalizing done with
  | nil => cases h; exact ⟨hd, List.Subset.refl _, by simp⟩
  | cons t ts ih =>
    rw [List.foldlM_cons, bind_ok_iff] at h
    obtain ⟨mid, hv, hrest⟩ := h
    obtain ⟨hm, hsub, hin⟩ := visit_explored hv hd
    obtain ⟨he, hsub', hall⟩ := ih hrest hm
    refine ⟨he, List.Subset.trans hsub hsub', fun u hu => ?_⟩
    rcases List.mem_cons.mp hu with rfl | hu
    · exact hsub' hin
    · exact hall u hu

theorem validatePlan_shape {d : DB} {p : PlanSpec} (h : d.validatePlan p = .ok ()) :
    PlanShape p := by
  simp only [DB.validatePlan, bind_ok_iff, require_ok, exists_const] at h
  obtain ⟨-, -, _, htasks, done, hdone, -⟩ := h
  obtain ⟨hnodup, hall⟩ := validateTasks_spec htasks (by simp)
  obtain ⟨he, -, hin⟩ := visits_explored hdone (by simp [Explored])
  rw [List.nil_append] at hnodup
  refine ⟨hnodup, fun t ht => (hall t ht).1, fun t ht => (hall t ht).2, fun t ht => ?_⟩
  have hfind : p.tasks.find? (fun u => u.id = t.id) = some t := by
    cases hf : p.tasks.find? (fun u => u.id = t.id) with
    | none => simpa using List.find?_eq_none.mp hf t ht
    | some u =>
      have hid : u.id = t.id := by simpa using List.find?_some hf
      rw [List.inj_on_of_nodup_map hnodup (List.mem_of_find?_eq_some hf) ht hid]
  exact he t.id (hin t ht) t hfind

theorem Submitted.inserted {d : DB} {c c' : Core} (h : Submitted d c c') :
    ∃ (p : PlanSpec) (launchId stamp : String), PlanShape p ∧
      (∀ t ∈ c.tasks, t.hostLaunchId ≠ launchId) ∧ Inserted d launchId stamp p.tasks c c' := by
  obtain ⟨p, launchId, stamp, hp, hfresh, hfold⟩ := h.admitted
  exact ⟨p, launchId, stamp, validatePlan_shape hp, hfresh, insertTasks_inserted hfold⟩

theorem Submitted.grows {d : DB} {c c' : Core} (h : Submitted d c c') : Grows c c' := by
  obtain ⟨p, launchId, stamp, -, -, hi⟩ := h.inserted
  obtain ⟨new, hr, -⟩ := hi.rows
  refine ⟨hi.limits, ?_, hi.attempts ▸ List.prefix_rfl, hi.segments ▸ List.prefix_rfl⟩
  rw [hr, List.map_append]
  exact List.prefix_append _ _

theorem Step.grows {d : DB} {op : Op} {x : Option String} {c c' : Core} (h : Step d op x c c') :
    Grows c c' := by
  cases h with
  | submit h => exact h.grows
  | move h => exact h.kept.toGrows

end Orchestrator.Store
