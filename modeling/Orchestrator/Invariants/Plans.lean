import Orchestrator.Invariants.Admitted
import Orchestrator.Library.DepthFirst
import Orchestrator.Store.Operations

/-!
# Which plans are valid

`validatePlan` accepts a plan if and only if its tasks are in order, agree within their budget
groups, and depend on each other without cycles.
-/
namespace Orchestrator.Store
open Library

/-! ## Valid plans -/

/-- A task that is in order by itself. -/
structure TaskSpec.Valid (d : DB) (runId : String) (t : TaskSpec) : Prop where
  id : t.id ≠ ""
  runId : t.runId = runId
  attempts : 1 ≤ t.maxAttempts ∧ t.maxAttempts ≤ 3
  policy : t.completionPolicy = "" ∨ t.completionPolicy = "owner_review" ∨
    t.completionPolicy = "artifact" ∨ t.completionPolicy = "exit_success_fixture"
  artifact : t.completionPolicy = "artifact" → validDigest t.expectedArtifactSha256 = true
  noArtifact : t.completionPolicy ≠ "artifact" → t.expectedArtifactSha256 = ""
  fixture : t.completionPolicy = "exit_success_fixture" →
    d.unmarshalKind t.adapterPayload = some "fake"
  fallbacks : ∀ fallback ∈ t.fallbackPayloads, fallback ≠ "" ∧ d.jsonValid fallback = true

/-- A task of the plan depends on the other. -/
def PlanSpec.DependsOn (p : PlanSpec) (a b : String) : Prop :=
  ∃ t ∈ p.tasks, t.id = a ∧ b ∈ t.dependencies

structure PlanSpec.Valid (d : DB) (p : PlanSpec) : Prop where
  run : p.run.id ≠ "" ∧ p.run.controllerThread ≠ "" ∧ 1 ≤ p.run.planRevision ∧
    p.run.originContextId ≠ "" ∧ 0 < p.run.originPid ∧ p.run.originBirth ≠ ""
  host : p.host.originContextId = p.run.originContextId ∧ p.host.hostGeneration ≠ "" ∧
    p.host.executable ≠ ""
  count : 1 ≤ p.tasks.length ∧ p.tasks.length ≤ 64
  tasks : ∀ t ∈ p.tasks, t.Valid d p.run.id
  distinct : (p.tasks.map TaskSpec.id).Nodup
  attempts : ∀ t ∈ p.tasks, ∀ u ∈ p.tasks, t.group = u.group → t.maxAttempts = u.maxAttempts
  active : ∀ t ∈ p.tasks, ∀ u ∈ p.tasks, t.group = u.group → t.active = u.active
  closed : ∀ a b, p.DependsOn a b → ∃ t ∈ p.tasks, t.id = b
  acyclic : ∀ a, ¬ Relation.TransGen p.DependsOn a a

/-- `validatePlan`, with the tasks visited in another order and with more fuel. -/
def DB.validatePlanIn (d : DB) (order : List String) (fuel : Nat) (p : PlanSpec) :
    Except CodeError Unit := do
  require (p.run.id ≠ "" ∧ p.run.controllerThread ≠ "" ∧ 1 ≤ p.run.planRevision ∧
    p.run.originContextId ≠ "" ∧ 0 < p.run.originPid ∧ p.run.originBirth ≠ "") .invalidRun
  require (p.host.originContextId = p.run.originContextId ∧ p.host.hostGeneration ≠ "" ∧
    p.host.executable ≠ "" ∧ p.tasks ≠ [] ∧ p.tasks.length ≤ 64) .invalidDag
  d.validateTasks p.run.id [] p.tasks
  let _ ← order.foldlM (fun done id => visit p.tasks fuel [] done id) []

theorem validatePlan_eq {d : DB} {p : PlanSpec} :
    d.validatePlan p = d.validatePlanIn (p.tasks.map TaskSpec.id) (p.tasks.length + 1) p := by
  rw [DB.validatePlan, DB.validatePlanIn, List.foldlM_map]

/-! ## The tasks -/

/-- Two tasks that may be in one plan. -/
structure Compatible (t u : TaskSpec) : Prop where
  distinct : t.id ≠ u.id
  attempts : t.group = u.group → t.maxAttempts = u.maxAttempts
  active : t.group = u.group → t.active = u.active

section
variable {d : DB} {runId : String} {before tasks : List TaskSpec} {task : TaskSpec}

theorem validateTask_iff : d.validateTask runId before task = .ok () ↔
    task.Valid d runId ∧ ∀ t ∈ before, Compatible t task := by
  simp only [DB.validateTask, bind_ok_iff, require_ok, exists_const]
  constructor
  · rintro ⟨⟨hid, hrun, hlo, hhi⟩, hnew, hpolicy, hartifact, hnone, hfixture, hfallbacks, hattempts,
      hactive⟩
    exact ⟨⟨hid, hrun, ⟨hlo, hhi⟩, by simpa using hpolicy, hartifact, hnone, hfixture, hfallbacks⟩,
      fun t ht => ⟨hnew t ht, hattempts t ht, hactive t ht⟩⟩
  · rintro ⟨h, hall⟩
    exact ⟨⟨h.id, h.runId, h.attempts⟩, fun t ht => (hall t ht).distinct, by simpa using h.policy,
      h.artifact, h.noArtifact, h.fixture, h.fallbacks, fun t ht => (hall t ht).attempts,
      fun t ht => (hall t ht).active⟩

theorem validateTasks_iff : d.validateTasks runId before tasks = .ok () ↔
    (∀ t ∈ tasks, t.Valid d runId) ∧ (∀ t ∈ before, ∀ u ∈ tasks, Compatible t u) ∧
      tasks.Pairwise Compatible := by
  induction tasks generalizing before with
  | nil => simp [DB.validateTasks]
  | cons task tasks ih =>
    have hcons : d.validateTasks runId before (task :: tasks) = .ok () ↔
        d.validateTask runId before task = .ok () ∧
          d.validateTasks runId (before ++ [task]) tasks = .ok () := by
      rw [DB.validateTasks, bind_ok_iff]
      exact ⟨fun h => h.choose_spec, fun h => ⟨(), h⟩⟩
    rw [hcons, validateTask_iff, ih]
    simp only [List.pairwise_cons, List.forall_mem_cons, List.mem_append, List.mem_singleton]
    constructor
    · rintro ⟨⟨hvalid, hbefore⟩, hall, hpairs, hrest⟩
      exact ⟨⟨hvalid, hall⟩, fun t ht => ⟨hbefore t ht, hpairs t (.inl ht)⟩, hpairs task (.inr rfl),
        hrest⟩
    · rintro ⟨⟨hvalid, hall⟩, hbefore, htask, hrest⟩
      refine ⟨⟨hvalid, fun t ht => (hbefore t ht).1⟩, hall, ?_, hrest⟩
      rintro t (ht | rfl) u hu
      · exact (hbefore t ht).2 u hu
      · exact htask u hu

/-- Tasks in any order: the ids are distinct, and the groups agree. -/
theorem pairwise_compatible_iff : tasks.Pairwise Compatible ↔
    (tasks.map TaskSpec.id).Nodup ∧
      (∀ t ∈ tasks, ∀ u ∈ tasks, t.group = u.group → t.maxAttempts = u.maxAttempts) ∧
      ∀ t ∈ tasks, ∀ u ∈ tasks, t.group = u.group → t.active = u.active := by
  constructor
  · intro h
    refine ⟨List.pairwise_map.2 (h.imp fun hc => hc.distinct), fun t ht u hu => ?_,
      fun t ht u hu => ?_⟩
    · exact List.Pairwise.forall_of_forall_of_flip (fun _ _ _ => rfl) (h.imp fun hc => hc.attempts)
        (h.imp fun hc hgroup => (hc.attempts hgroup.symm).symm) ht hu
    · exact List.Pairwise.forall_of_forall_of_flip (fun _ _ _ => rfl) (h.imp fun hc => hc.active)
        (h.imp fun hc hgroup => (hc.active hgroup.symm).symm) ht hu
  · rintro ⟨hids, hattempts, hactive⟩
    have hpairs : tasks.Pairwise fun t u => (t.group = u.group → t.maxAttempts = u.maxAttempts) ∧
        (t.group = u.group → t.active = u.active) :=
      List.pairwise_of_forall_mem_list fun t ht u hu => ⟨hattempts t ht u hu, hactive t ht u hu⟩
    exact (List.pairwise_map.1 hids).imp₂ (fun t u hid hgroup => ⟨hid, hgroup.1, hgroup.2⟩) hpairs

end

/-! ## The search -/

section
variable {tasks : List TaskSpec} {fuel : Nat} {path done : List String} {id : String}

/-- The dependencies of the task with the id. -/
def dependenciesOf (tasks : List TaskSpec) (id : String) : List String :=
  ((tasks.find? fun t => t.id = id).map TaskSpec.dependencies).getD []

theorem toOption_foldlM {ε α β : Type} {f : β → α → Except ε β} {l : List α} {b : β} :
    (l.foldlM f b).toOption = l.foldlM (fun b a => (f b a).toOption) b := by
  induction l generalizing b with
  | nil => rfl
  | cons a l ih =>
    rw [List.foldlM_cons, List.foldlM_cons]
    cases h : f b a with
    | error e => rfl
    | ok b' => exact ih

/-- `visit` is the search over the tasks of the plan. -/
theorem visit_eq_search (hid : id ∈ tasks.map TaskSpec.id) :
    (visit tasks fuel path done id).toOption =
      search (tasks.map TaskSpec.id) (dependenciesOf tasks) fuel path done id := by
  induction fuel generalizing path done id with
  | zero => rfl
  | succ fuel ih =>
    obtain ⟨task, hfind⟩ : ∃ task, tasks.find? (fun t => t.id = id) = some task := by
      obtain ⟨t, ht, htid⟩ := List.mem_map.1 hid
      exact Option.isSome_iff_exists.1 (List.find?_isSome.2 ⟨t, ht, by simpa using htid⟩)
    by_cases hpath : id ∈ path
    · rw [search_refuses (.inl hpath), visit, require, if_neg (not_not.2 hpath)]
      rfl
    rw [visit, require_pos hpath, ok_bind, search, if_neg (not_or.2 ⟨hpath, not_not.2 hid⟩)]
    split
    · rfl
    have hstep : ∀ done dep, (do
        require (dep ≠ id) CodeError.invalidDag
        require (∃ t ∈ tasks, t.id = dep) CodeError.invalidDag
        visit tasks fuel (id :: path) done dep : Except CodeError (List String)).toOption =
        search (tasks.map TaskSpec.id) (dependenciesOf tasks) fuel (id :: path) done dep := by
      intro done dep
      by_cases hself : dep = id
      · rw [search_refuses (.inl (hself ▸ List.mem_cons_self)), require, if_neg (not_not.2 hself)]
        rfl
      by_cases hdep : ∃ t ∈ tasks, t.id = dep
      · rw [require_pos hself, ok_bind, require_pos hdep, ok_bind, ih (List.mem_map.2 hdep)]
      · rw [search_refuses (.inr fun hmem => hdep (List.mem_map.1 hmem)),
          require_pos hself, ok_bind, require, if_neg hdep]
        rfl
    have hdeps : dependenciesOf tasks id = task.dependencies := by
      rw [dependenciesOf, hfind]
      rfl
    rw [hfind, expect_some, ok_bind, hdeps, ← funext fun done => funext (hstep done),
      ← toOption_foldlM]
    cases (task.dependencies.foldlM _ done : Except CodeError (List String)) <;> rfl

theorem foldlM_congr {m : Type → Type} [Monad m] {α β : Type} {f g : β → α → m β} {l : List α}
    {b : β} (h : ∀ b, ∀ a ∈ l, f b a = g b a) : l.foldlM f b = l.foldlM g b := by
  induction l generalizing b with
  | nil => rfl
  | cons a l ih =>
    rw [List.foldlM_cons, List.foldlM_cons, h b a List.mem_cons_self]
    exact congrArg _ (funext fun b' => ih fun b a' ha' => h b a' (List.mem_cons_of_mem _ ha'))

theorem visits_eq_searchAll {order : List String}
    (horder : ∀ id ∈ order, id ∈ tasks.map TaskSpec.id) :
    (order.foldlM (fun done id => visit tasks fuel [] done id) []).toOption =
      searchAll (tasks.map TaskSpec.id) (dependenciesOf tasks) fuel order := by
  rw [toOption_foldlM, searchAll]
  exact foldlM_congr fun done id hid => visit_eq_search (horder id hid)

/-- The ids on the path are distinct ids of the plan: the fuel does not end before they do. -/
theorem visit_ne_outOfFuel (hid : id ∈ tasks.map TaskSpec.id) (hpath : path.Nodup)
    (hids : path ⊆ tasks.map TaskSpec.id) (hfuel : tasks.length < fuel + path.length) :
    visit tasks fuel path done id ≠ .error .outOfFuel := by
  induction fuel generalizing path done id with
  | zero =>
    have hle := length_le_of_path hpath hids
    rw [List.length_map] at hle
    omega
  | succ fuel ih =>
    rw [visit]
    refine require_bind_ne_error (by decide) fun hnew => ?_
    split
    · simp
    refine bind_ne_error (expect_ne_error (by decide)) fun task _ => bind_ne_error ?_ (by simp)
    refine foldlM_ne_error fun done dep _ => ?_
    refine require_bind_ne_error (by decide) fun _ => ?_
    refine require_bind_ne_error (by decide) fun hdep => ?_
    refine ih (List.mem_map.2 hdep) (List.nodup_cons.2 ⟨hnew, hpath⟩)
      (List.cons_subset.2 ⟨hid, hids⟩) ?_
    rw [List.length_cons]
    omega

/-- Ids name one task, so that the edges of the search are the dependencies of the plan. -/
theorem mem_dependenciesOf {p : PlanSpec} (hids : (p.tasks.map TaskSpec.id).Nodup) {a b : String} :
    b ∈ dependenciesOf p.tasks a ↔ p.DependsOn a b := by
  unfold dependenciesOf PlanSpec.DependsOn
  cases hfind : p.tasks.find? fun t => t.id = a with
  | none =>
    have hnone := List.find?_eq_none.1 hfind
    refine ⟨nofun, fun ⟨t, ht, hid, _⟩ => ?_⟩
    exact absurd (decide_eq_true hid) (hnone t ht)
  | some u =>
    have huid : u.id = a := by simpa using List.find?_some hfind
    have hu := List.mem_of_find?_eq_some hfind
    refine ⟨fun hb => ⟨u, hu, huid, hb⟩, fun ⟨t, ht, hid, hb⟩ => ?_⟩
    obtain rfl := List.inj_on_of_nodup_map hids ht hu (hid.trans huid.symm)
    exact hb

theorem acyclic_iff {p : PlanSpec} (hids : (p.tasks.map TaskSpec.id).Nodup) :
    Acyclic (p.tasks.map TaskSpec.id) (dependenciesOf p.tasks) ↔
      (∀ a b, p.DependsOn a b → ∃ t ∈ p.tasks, t.id = b) ∧
        ∀ a, ¬ Relation.TransGen p.DependsOn a a := by
  have hedges : (fun a b => b ∈ dependenciesOf p.tasks a) = p.DependsOn :=
    funext fun a => funext fun b => propext (mem_dependenciesOf hids)
  have hsource : ∀ {a b}, p.DependsOn a b → a ∈ p.tasks.map TaskSpec.id :=
    fun ⟨t, ht, hid, _⟩ => List.mem_map.2 ⟨t, ht, hid⟩
  constructor
  · rintro ⟨hclosed, hirrefl⟩
    rw [hedges] at hirrefl
    refine ⟨fun a b hab => ?_, fun a hcycle => ?_⟩
    · exact List.mem_map.1 (hclosed a (hsource hab) b ((mem_dependenciesOf hids).2 hab))
    · obtain ⟨b, hab, -⟩ := Relation.TransGen.head'_iff.1 hcycle
      exact hirrefl a (hsource hab) hcycle
  · rintro ⟨hclosed, hirrefl⟩
    refine ⟨fun a _ b hb => ?_, fun a _ => ?_⟩
    · exact List.mem_map.2 (hclosed a b ((mem_dependenciesOf hids).1 hb))
    · rw [hedges]
      exact hirrefl a

end

/-! ## Plans -/

section
variable {d : DB} {p : PlanSpec} {order : List String} {fuel : Nat}

theorem exists_ok_iff {ε α : Type} {x : Except ε α} :
    (∃ a, x = .ok a) ↔ x.toOption.isSome = true := by
  cases x <;> simp [Except.toOption]

/-- In any order and with any fuel that is enough, the valid plans are accepted. -/
theorem validatePlanIn_iff (horder : ∀ id, id ∈ order ↔ id ∈ p.tasks.map TaskSpec.id)
    (hfuel : p.tasks.length < fuel) : d.validatePlanIn order fuel p = .ok () ↔ p.Valid d := by
  have hsearch : (∃ done, order.foldlM (fun done id => visit p.tasks fuel [] done id) [] =
      .ok done) ↔ Acyclic (p.tasks.map TaskSpec.id) (dependenciesOf p.tasks) := by
    rw [exists_ok_iff, visits_eq_searchAll fun id hid => (horder id).1 hid]
    exact searchAll_isSome_iff horder (by rwa [List.length_map])
  have htasks : d.validatePlanIn order fuel p = .ok () ↔
      (p.run.id ≠ "" ∧ p.run.controllerThread ≠ "" ∧ 1 ≤ p.run.planRevision ∧
        p.run.originContextId ≠ "" ∧ 0 < p.run.originPid ∧ p.run.originBirth ≠ "") ∧
      (p.host.originContextId = p.run.originContextId ∧ p.host.hostGeneration ≠ "" ∧
        p.host.executable ≠ "" ∧ p.tasks ≠ [] ∧ p.tasks.length ≤ 64) ∧
      d.validateTasks p.run.id [] p.tasks = .ok () ∧
      Acyclic (p.tasks.map TaskSpec.id) (dependenciesOf p.tasks) := by
    rw [← hsearch]
    simp only [DB.validatePlanIn, bind_ok_iff, require_ok, exists_const]
    constructor
    · rintro ⟨hrun, hhost, ⟨⟩, htasks, done, hdone, -⟩
      exact ⟨hrun, hhost, htasks, done, hdone⟩
    · rintro ⟨hrun, hhost, htasks, done, hdone⟩
      exact ⟨hrun, hhost, (), htasks, done, hdone, rfl⟩
  rw [htasks, validateTasks_iff]
  constructor
  · rintro ⟨hrun, ⟨hcontext, hgeneration, hexecutable, hne, hmax⟩, ⟨hvalid, -, hpairs⟩, hacyclic⟩
    obtain ⟨hids, hattempts, hactive⟩ := pairwise_compatible_iff.1 hpairs
    obtain ⟨hclosed, hirrefl⟩ := (acyclic_iff hids).1 hacyclic
    exact ⟨hrun, ⟨hcontext, hgeneration, hexecutable⟩, ⟨List.length_pos_iff.2 hne, hmax⟩, hvalid,
      hids, hattempts, hactive, hclosed, hirrefl⟩
  · intro h
    have hpairs := pairwise_compatible_iff.2 ⟨h.distinct, h.attempts, h.active⟩
    exact ⟨h.run, ⟨h.host.1, h.host.2.1, h.host.2.2, List.length_pos_iff.1 h.count.1, h.count.2⟩,
      ⟨h.tasks, nofun, hpairs⟩, (acyclic_iff h.distinct).2 ⟨h.closed, h.acyclic⟩⟩

theorem validateTasks_ne_outOfFuel {runId : String} {before tasks : List TaskSpec} :
    d.validateTasks runId before tasks ≠ .error .outOfFuel := by
  induction tasks generalizing before with
  | nil => simp [DB.validateTasks]
  | cons task tasks ih =>
    rw [DB.validateTasks]
    refine bind_ne_error ?_ fun _ _ => ih
    unfold DB.validateTask
    repeat refine require_bind_ne_error (by decide) fun _ => ?_
    exact require_ne_error (by decide)

/-- The search ends before its fuel does, whichever tasks it starts from. -/
theorem validatePlanIn_ne_outOfFuel (horder : ∀ id ∈ order, id ∈ p.tasks.map TaskSpec.id)
    (hfuel : p.tasks.length < fuel) : d.validatePlanIn order fuel p ≠ .error .outOfFuel := by
  unfold DB.validatePlanIn
  refine require_bind_ne_error (by decide) fun _ => require_bind_ne_error (by decide) fun _ => ?_
  refine bind_ne_error validateTasks_ne_outOfFuel fun _ _ =>
    bind_ne_error ?_ fun _ _ => pure_ne_error
  exact foldlM_ne_error fun done id hid =>
    visit_ne_outOfFuel (horder id hid) .nil (List.nil_subset _) (by simpa using hfuel)

theorem submitPlan_refused {env : Env} {s : State} (h : d.validatePlan p ≠ .ok ()) :
    d.step s (.submitPlan env p) = s := by
  cases hsubmit : d.exec s (.submitPlan env p) with
  | error e => exact step_of_error hsubmit
  | ok s' =>
    obtain ⟨receipt, hsubmit⟩ := committed_ok.1 hsubmit
    simp only [DB.submitPlan, bind_ok_iff] at hsubmit
    obtain ⟨mode, -, ⟨⟩, hvalid, -⟩ := hsubmit
    exact absurd hvalid h

end

/-- The plans that are accepted are the valid ones, whatever the order in which the map of their
tasks is walked; the search ends, as a fuel above the number of tasks is never used up, and no
such fuel accepts another plan; and a plan that is refused leaves the database as it was. -/
theorem validatePlan_exact (d : DB) (p : PlanSpec) :
    (d.validatePlan p = .ok () ↔ p.Valid d) ∧
    d.validatePlan p ≠ .error .outOfFuel ∧
    (∀ order fuel, (∀ id, id ∈ order ↔ ∃ t ∈ p.tasks, t.id = id) → p.tasks.length < fuel →
      d.validatePlanIn order fuel p ≠ .error .outOfFuel ∧
      (d.validatePlanIn order fuel p = .ok () ↔ d.validatePlan p = .ok ())) ∧
    (d.validatePlan p ≠ .ok () → ∀ env s, (∃ e, d.submitPlan env s p = .error e) ∧
      d.step s (.submitPlan env p) = s) := by
  have hvalid : d.validatePlan p = .ok () ↔ p.Valid d := by
    rw [validatePlan_eq]
    exact validatePlanIn_iff (fun _ => Iff.rfl) (Nat.lt_succ_self _)
  refine ⟨hvalid, ?_, fun order fuel horder hfuel => ?_, fun h env s => ⟨?_, submitPlan_refused h⟩⟩
  · rw [validatePlan_eq]
    exact validatePlanIn_ne_outOfFuel (fun _ hid => hid) (Nat.lt_succ_self _)
  · have hids : ∀ id, id ∈ order ↔ id ∈ p.tasks.map TaskSpec.id := fun id =>
      (horder id).trans List.mem_map.symm
    refine ⟨validatePlanIn_ne_outOfFuel (fun id => (hids id).mp) hfuel, ?_⟩
    rw [hvalid]
    exact validatePlanIn_iff hids hfuel
  · cases hsubmit : d.submitPlan env s p with
    | error e => exact ⟨e, rfl⟩
    | ok r =>
      simp only [DB.submitPlan, bind_ok_iff] at hsubmit
      obtain ⟨mode, -, ⟨⟩, hplan, -⟩ := hsubmit
      exact absurd hplan h

/-- Two tasks that depend on each other. -/
def cyclicPlan : PlanSpec := toyPlan [toyTask "a" 1 ["b"], toyTask "b" 1 ["a"]]

theorem cyclic_plan_refused :
    (toyDB.validatePlanIn ["b", "a"] 3 cyclicPlan ≠ .error .outOfFuel ∧
      (toyDB.validatePlanIn ["b", "a"] 3 cyclicPlan = .ok () ↔
        toyDB.validatePlan cyclicPlan = .ok ())) ∧
    (∃ e, toyDB.submitPlan (toyEnv 10) (State.fresh {}) cyclicPlan = .error e) ∧
      toyDB.step (State.fresh {}) (.submitPlan (toyEnv 10) cyclicPlan) = State.fresh {} :=
  ⟨(validatePlan_exact toyDB cyclicPlan).2.2.1 ["b", "a"] 3
      (fun id => by simp [cyclicPlan, toyPlan, toyTask, or_comm, eq_comm]) (by decide),
    (validatePlan_exact toyDB cyclicPlan).2.2.2 (by decide +kernel) (toyEnv 10) (State.fresh {})⟩

end Orchestrator.Store
