import Orchestrator.Events.Outcomes
import Orchestrator.Store.Summary

/-!
# Where a task stands

A task waits for a review, an answer or a retry from the exit of its latest
segment, or the review of its result, until the owner decides. What put it there
stays on record all that time.
-/
namespace Orchestrator.Store
open Library

/-- The statuses in which a task waits for a decision about its latest segment. -/
def TaskStatus.decisive : TaskStatus → Bool
  | .resultReady | .waitingQuestion | .failed => true
  | _ => false

/-- No task comes to wait for a decision. -/
def Core.Defers (c c' : Core) : Prop :=
  ∀ t' ∈ c'.tasks, t'.status.decisive = true → t' ∈ c.tasks

/-- The event failed its attempt, by itself or by the review of its result. -/
def State.Faults (s : State) (r : RuntimeEvent) : Prop :=
  r.body.kind = .failed ∨ (r.body.kind = .result ∧ ∃ row ∈ s.reviewDecisions,
    row.eventId = r.eventId ∧ row.actionSlot = r.actionSlot ∧ row.decision = "reject")

/-- No event of the segment was reviewed. -/
def State.Unreviewed (s : State) (segmentId : String) : Prop :=
  ∀ row ∈ s.reviewDecisions, ∀ r ∈ s.runtimeEvents, r.eventId = row.eventId →
    r.segmentId ≠ segmentId

/-- What put the task there, `g` being its latest segment. -/
structure Verdict (s : State) (t : Task) (g : Segment) : Prop where
  result : t.status = .resultReady → s.Told g.id .result ∧ s.Unreviewed g.id
  waiting : t.status = .waitingQuestion →
    ∃ q ∈ s.questions, q.segmentId = g.id ∧ q.taskId = t.id ∧ q.status = .open
  failed : t.status = .failed → (∃ a ∈ s.attempts, a.id = g.attemptId ∧ a.status = .failed) ∧
    ∃ r ∈ s.runtimeEvents, r.segmentId = g.id ∧ s.Faults r

def Standing (s : State) : Prop :=
  ∀ t ∈ s.tasks, t.status.decisive = true →
    ∃ g, s.latestSegment t.id = some g ∧ Verdict s t g

/-- The event is in the log, and its segment has exited. -/
def State.Closed (s : State) (eventId : String) : Prop :=
  ∃ r ∈ s.runtimeEvents, r.eventId = eventId ∧
    ∃ g ∈ s.segments, g.id = r.segmentId ∧ g.active = false

def Reviewed (s : State) : Prop :=
  ∀ row ∈ s.reviewDecisions, s.Closed row.eventId

/-- Events of the log name segments, and each its task and its attempt. -/
def Attributed (s : State) : Prop :=
  ∀ r ∈ s.runtimeEvents, ∃ g ∈ s.segments, Names r.body g

/-- What a first review finds and writes. -/
structure Judged (s s' : State) (spec : ReviewSpec) (t : Task) (r : RuntimeEvent)
    (row : ReviewDecision) : Prop where
  task : t ∈ s.tasks
  taskId : t.id = spec.taskId
  ready : t.status = .resultReady
  event : r ∈ s.runtimeEvents
  kind : r.body.kind = .result
  latest : (s.latestSegment t.id).map Segment.id = some r.body.segmentId
  stored : row ∈ s'.reviewDecisions
  eventId : row.eventId = r.eventId
  slot : row.actionSlot = r.actionSlot
  reviews : ∀ row' ∈ s'.reviewDecisions, row' ∈ s.reviewDecisions ∨ row' = row
  verdict : (row.decision = "accept" ∧ s'.toCore = s.toCore.accept t.id) ∨
    (row.decision = "reject" ∧ s.toCore.reject t.id r.body.attemptId = .ok s'.toCore)

section Defers
variable {c c' c'' : Core} {id : String}

theorem Core.Defers.of_eq (h : c'.tasks = c.tasks) : c.Defers c' :=
  fun _ ht _ => h ▸ ht

theorem Core.Defers.trans (h : c.Defers c') (h' : c'.Defers c'') : c.Defers c'' :=
  fun t ht hp => h t (h' t ht hp) hp

theorem defers_setTask {f : Task → Task} {hf : ∀ t, (f t).id = t.id}
    (h : ∀ t, (f t).status.decisive = false) : c.Defers (c.setTask id f hf) := by
  intro t' ht' hp
  obtain ⟨t, -, -, rfl⟩ | ⟨ht, -⟩ := Core.mem_setTask.mp ht'
  · rw [h t] at hp
    cases hp
  · exact ht

theorem defers_setTaskStatus (st : TaskStatus) (h : st.decisive = false) :
    c.Defers (c.setTaskStatus id st) :=
  defers_setTask fun _ => h

theorem defers_enqueue (st : TaskStatus) (h : st.decisive = false) :
    c.Defers (c.enqueue id st) := by
  intro t' ht' hp
  obtain ⟨t, -, -, rfl⟩ | ⟨ht, -⟩ := Core.mem_enqueue.mp ht'
  · rw [Task.enqueued_status, h] at hp
    cases hp
  · exact ht

theorem defers_releaseReady : c.Defers (releaseReady c) := by
  intro t' ht' hp
  obtain ⟨sequence, hrows, -⟩ := (releaseReady_released c).rows
  rw [Table.mem_def, hrows] at ht'
  obtain ⟨t, ht, rfl⟩ := List.mem_map.mp ht'
  split at hp
  · cases hp
  · rename_i hq
    rwa [if_neg hq]

theorem defers_block : c.Defers (blockFailedDependencies c) := by
  intro t' ht' hp
  obtain ⟨t, ht, rfl⟩ := mem_blockFailedDependencies.mp ht'
  by_cases hd : Doomed c.tasks t
  · rw [afterBlocking_doomed hd] at hp
    cases hp
  · rwa [afterBlocking_spared hd]

theorem afterExit_defers {status : TaskStatus} (h : c.afterExit id status = .ok c') :
    c.Defers c' ∧ c'.attempts = c.attempts := by
  unfold Core.afterExit at h
  split at h
  · cases h
    exact ⟨defers_releaseReady, (releaseReady_released c).attempts⟩
  · obtain ⟨-, -, -, ⟨-, rfl⟩ | ⟨-, rfl⟩⟩ := blockIfExhausted_cases h
    · exact ⟨defers_block, rfl⟩
    · exact ⟨.of_eq rfl, rfl⟩
  · cases h
    exact ⟨.of_eq rfl, rfl⟩

theorem accept_entered {t' : Task} (ht' : t' ∈ (c.accept id).tasks)
    (hp : t'.status.decisive = true) : t' ∈ c.tasks ∧ t'.id ≠ id := by
  obtain ⟨u, -, -, rfl⟩ | hold := Core.mem_setTaskStatus.mp (defers_releaseReady t' ht' hp)
  · cases hp
  · exact hold

/-- A rejected task is failed. -/
theorem reject_entered {attemptId : String} (h : c.reject id attemptId = .ok c') {t' : Task}
    (ht' : t' ∈ c'.tasks) (hp : t'.status.decisive = true) :
    t' ∈ c.tasks ∧ t'.id ≠ id ∨ t'.id = id ∧ t'.status = .failed := by
  have hset : t' ∈ (c.setTaskStatus id .failed).tasks := by
    obtain ⟨-, -, -, ⟨-, rfl⟩ | ⟨-, rfl⟩⟩ := blockIfExhausted_cases h
    · exact defers_block t' ht' hp
    · exact ht'
  obtain ⟨u, -, hid, rfl⟩ | ⟨hold, hne⟩ := Core.mem_setTaskStatus.mp hset
  · exact .inr ⟨hid, rfl⟩
  · exact .inl ⟨hold, hne⟩

end Defers

/-! ## Events -/

section Events
variable {d : DB} {env : Env} {s s' : State} {e : Event} {t' : Task}

theorem ask_defers {s₁ : State} (h₁ : applyQuestion s e = .ok s₁)
    (h₂ : ensureQuestionStop env s₁ e = .ok s') : s.toCore.Defers s'.toCore := by
  have hask : s.toCore.Defers s₁.toCore := by
    obtain rfl | ⟨g, questions, -, -, -, -, rfl⟩ := applyQuestion_cases h₁
    · exact .of_eq rfl
    · exact .of_eq rfl
  refine hask.trans ?_
  obtain rfl | ⟨g, stops, -, -, -, rfl⟩ := ensureQuestionStop_cases h₂
  · exact .of_eq rfl
  · exact (Core.Defers.of_eq rfl).trans (defers_setTaskStatus .stopping rfl)

theorem materialize_defers {segmentId sessionKind sessionId : String}
    (h : materializePendingReportQuestion env s segmentId sessionKind sessionId = .ok s') :
    s.toCore.Defers s'.toCore := by
  obtain ⟨-, rfl⟩ | ⟨r, c, order, s₁, hpend, -, -, -, h₁, h₂⟩ :=
    materialize_cases h
  · exact .of_eq rfl
  · exact ask_defers (s := { s with reportEvents := _, deliveryOrder := order }) h₁ h₂

theorem applySession_defers (h : applySession env s e = .ok s') : s.toCore.Defers s'.toCore := by
  obtain rfl | ⟨row, sessions, -, -, h⟩ := applySession_cases h
  · exact .of_eq rfl
  · exact materialize_defers (s := { s with sessions := sessions }) h

/-- What an exit makes of the task and the attempt of `g`. -/
structure Exited (d : DB) (s s' : State) (e : Event) (g : Segment) (t : Task) : Prop where
  segment : g ∈ s.segments
  active : g.active = true
  names : Names e g
  task : t ∈ s.tasks
  taskId : t.id = g.taskId
  attempts : ∀ a ∈ s.attempts, a.id = g.attemptId →
    { a with status := (exitStatus d t g.outcome e).1 } ∈ s'.attempts
  questions : s'.questions = resolveRounds s.questions e
  reviews : s'.reviewDecisions = s.reviewDecisions

theorem applyExit_entered (hn : ∀ g ∈ s.segments, g.id = e.segmentId → Names e g)
    (h : d.applyExit s e = .ok s') (ht' : t' ∈ s'.tasks) (hp : t'.status.decisive = true) :
    t' ∈ s.tasks ∨ ∃ g t, Exited d s s' e g t ∧ t'.id = t.id ∧
      t'.status = (exitStatus d t g.outcome e).2 := by
  obtain ⟨g, hg, hcases⟩ := applyExit_cases h
  obtain ⟨hm, hid⟩ := Table.find?_eq_some.mp hg
  obtain ⟨-, rfl⟩ | ⟨hact, t, core, ht, hcore, rfl⟩ := hcases
  · exact .inl ht'
  · obtain ⟨htm, htid⟩ := Table.find?_eq_some.mp ht
    obtain ⟨-, htask, hattempt⟩ := hn g hm hid
    obtain ⟨hdefers, hattempts⟩ := afterExit_defers hcore
    obtain ⟨u, hu, huid, rfl⟩ | ⟨ht', -⟩ := Core.mem_setTaskStatus.mp (hdefers t' ht' hp)
    · refine .inr ⟨g, t, ⟨hm, Segment.active_iff.mpr hact, hn g hm hid, htm, htid.trans htask,
        fun a ha haid => ?_, rfl, rfl⟩, huid.trans htid.symm, rfl⟩
      rw [hattempts]
      refine (Table.mem_update (h := by intro _; rfl)).mpr ⟨a, ha, ?_⟩
      rw [Table.patch_pos (by simpa using haid.trans hattempt.symm)]
    · exact .inl ht'

theorem applyEvent_entered (hn : ∀ g ∈ s.segments, g.id = e.segmentId → Names e g)
    (h : d.applyEvent env s e = .ok s') (ht' : t' ∈ s'.tasks) (hp : t'.status.decisive = true) :
    t' ∈ s.tasks ∨ ∃ g t, Exited d s s' e g t ∧ t'.id = t.id ∧
      t'.status = (exitStatus d t g.outcome e).2 := by
  unfold DB.applyEvent at h
  split at h
  case h_4 => exact .inl (applySession_defers h t' ht' hp)
  case h_5 =>
    obtain rfl | ⟨g, questions, -, -, -, -, rfl⟩ := applyQuestion_cases h
    · exact .inl ht'
    · exact .inl ht'
  case h_9 =>
    cases h
    refine .inl ?_
    unfold Core.applyUnknown at ht'
    split at ht'
    · exact defers_setTaskStatus .unknown rfl t' ht' hp
    · exact ht'
  case h_10 => exact applyExit_entered hn h ht' hp
  case h_11 => cases h
  all_goals
    cases h
    exact .inl ht'

end Events

/-! ## Operations -/

section Operations
variable {d : DB} {limits : ConcurrencyLimits} {op : Op} {s s' : State} {t' : Task}

/-- An admitted task is ready or queued. -/
theorem insertTasks_defers {launchId stamp : String} {specs : List TaskSpec} {c c' : Core}
    (h : specs.foldlM (d.insertTask launchId stamp) c = .ok c') : c.Defers c' := by
  intro t' ht' hp
  obtain ⟨new, hrows, hnew, -⟩ := (insertTasks_inserted h).rows
  rw [Table.mem_def, hrows, List.mem_append] at ht'
  obtain ht' | ht' := ht'
  · exact ht'
  · obtain ⟨spec, -, ⟨hd, n, -, -, rfl⟩ | ⟨hd, rfl⟩⟩ := forall₂_right hnew ht'
    · simp [DB.taskRow, hd, TaskStatus.decisive] at hp
    · simp [DB.taskRow, hd, TaskStatus.decisive] at hp

theorem claim_defers {env : Env} {hostId : String} {epoch : Nat} {slots : Int} {t : Task}
    {place : Placement} {cmd : LaunchCommand}
    (h : Claimed d env s hostId epoch slots t place s' cmd) :
    s.toCore.Defers s'.toCore := by
  obtain ⟨c₁, c₂, caps, h₁, h₂, -, rfl, -⟩ := launch_cases h.launched
  obtain ⟨-, -, htasks, -⟩ := startAttempt_frame h₁
  obtain ⟨segments, hi, rfl⟩ := startSegment_cases h₂
  exact (Core.Defers.of_eq htasks).trans (defers_setTaskStatus .running rfl)

/-- The retried task is ready, whatever adapter it is given. -/
theorem retry_defers {c : Core} {id : String} (payload : Option String) :
    c.Defers ((c.setAdapter id payload).enqueue id .ready) := by
  intro t' ht' hp
  have hold := defers_enqueue .ready rfl t' ht' hp
  cases payload with
  | none => exact hold
  | some payload =>
    obtain ⟨u, hu, huid, rfl⟩ | ⟨hu, -⟩ := Core.mem_setTask.mp hold
    · obtain ⟨v, hv, -, heq⟩ | ⟨-, hne⟩ := Core.mem_enqueue.mp ht'
      · rw [← heq] at hp
        cases hp
      · exact absurd huid hne
    · exact hu

theorem sweep_defers {c : Core} : c.Defers c.markStoppingUnknown := by
  intro t' ht' hp
  obtain ⟨t, ht, rfl⟩ := (Table.mem_update (h := by intro _; rfl)).mp ht'
  unfold Table.patch at hp ⊢
  split at hp
  · cases hp
  · rename_i hsel
    rwa [if_neg hsel]

theorem askReported_defers {env : Env} {kind : ReportKind} {e : Event}
    (h : askReported env s kind e = .ok s') :
    s.toCore.Defers s'.toCore := by
  unfold askReported at h
  split at h
  · obtain ⟨s₁, hask, hstop⟩ := bind_ok_iff.mp h
    exact ask_defers hask hstop
  · cases h
    exact .of_eq rfl

/-- A task comes to wait for a decision with an exit, or with a review that rejects it. -/
theorem exec_entered (hx : d.exec s op = .ok s') (ht' : t' ∈ s'.tasks)
    (hp : t'.status.decisive = true) :
    t' ∈ s.tasks ∨ (∃ e g t, Exited d s s' e g t ∧ t'.id = t.id ∧
      t'.status = (exitStatus d t g.outcome e).2) ∨
      ∃ spec, op = .reviewResult spec ∧ t'.id = spec.taskId ∧ t'.status = .failed := by
  have hw := exec_writes hx
  cases hw with
  | same | fleet | ack | register | pending => exact .inl ht'
  | plan hl hrow hcore => exact .inl (insertTasks_defers hcore t' ht' hp)
  | claim hclaim => exact .inl (claim_defers hclaim t' ht' hp)
  | resume => exact .inl (defers_enqueue .resumeQueued rfl t' ht' hp)
  | answer => exact .inl (defers_enqueue .resumeQueued rfl t' ht' hp)
  | @review spec t core reviews ht hid hst hcore =>
    obtain rfl | ⟨attemptId, hcore⟩ := hcore
    · exact .inl (accept_entered ht' hp).1
    · obtain ⟨hold, -⟩ | ⟨hid', hfailed⟩ := reject_entered hcore ht' hp
      · exact .inl hold
      · exact .inr (.inr ⟨spec, rfl, hid'.trans hid, hfailed⟩)
  | @retry _ _ payload => exact .inl (retry_defers payload t' ht' hp)
  | cancel =>
    exact .inl ((defers_setTaskStatus .cancelled rfl).trans defers_block t' ht' hp)
  | stop => exact .inl (defers_setTaskStatus .stopping rfl t' ht' hp)
  | sweep => exact .inl (sweep_defers t' ht' hp)
  | report hcm hid hkind hdec hopen h₁ h₂ =>
    obtain ⟨row, events, order, usage, -, -, -, rfl⟩ := appendReport_frame h₁
    exact .inl (askReported_defers h₂ t' ht' hp)
  | event hwf hnext hg hid hbound h₁ h₂ =>
    obtain ⟨events, order, usage, rfl⟩ := appendEvent_frame h₁
    obtain hold | ⟨g, t, hexit, htid, hst⟩ := applyEvent_entered (s := { s with
      runtimeEvents := events, deliveryOrder := order, storageUsage := usage })
      (names_of_bound hg hid hbound) h₂ ht' hp
    · exact .inl hold
    · exact .inr (.inl ⟨_, g, t, ⟨hexit.segment, hexit.active, hexit.names, hexit.task,
        hexit.taskId, hexit.attempts, hexit.questions, hexit.reviews⟩, htid, hst⟩)

end Operations

/-! ## What stays as it was -/

section Steps
variable {d : DB} {op : Op} {x : Option String} {c c' : Core} {g g' : Segment} {t : Task}
  {a : Attempt}

/-- A segment that has exited does not come back. -/
theorem Step.inactive (hstep : Step d op x c c') (hg : g ∈ c.segments) (hoff : g.active = false)
    (hg' : g' ∈ c'.segments) (hid : g'.id = g.id) : g'.active = false := by
  cases hact : g'.active with
  | false => rfl
  | true =>
    obtain ⟨k, hk, hst, hka⟩ | ⟨-, hnew⟩ := hstep.active_of hg' hact
    · obtain rfl : k = g := Table.eq_of_key hk hg ((Segment.static_id hst).symm.trans hid)
      rw [hoff] at hka
      cases hka
    · exact absurd hid.symm (hnew g hg)

/-- Only the claim of a task gives it another latest segment. -/
theorem Step.last {taskId : String} (hstep : Step d op x c c') (hr : Ranked c) (hr' : Ranked c')
    (hrest : ∀ t ∈ c.tasks, t.id = taskId → t.status.claimable = false)
    (hl : c.latestSegment taskId = some g) :
    ∃ g', c'.latestSegment taskId = some g' ∧ g'.static = g.static := by
  obtain ⟨hg, hid, hmax⟩ := hr.latestSegment_iff.mp hl
  obtain ⟨g', hg', hst⟩ := hstep.grows.segment hg
  -- every segment of the task was there before
  have hold : ∀ k' ∈ c'.segments, k'.taskId = taskId → ∃ k ∈ c.segments, k'.static = k.static := by
    intro k' hk' hkid
    cases hstep with
    | submit hsub =>
      obtain ⟨p, launchId, stamp, -, -, hi⟩ := hsub.inserted
      exact ⟨k', hi.segments ▸ hk', rfl⟩
    | move hm =>
      obtain ⟨-, φ, hrows, hφ⟩ | hc := hm.booked
      · rw [Table.mem_def, hrows] at hk'
        obtain ⟨k, hk, rfl⟩ := List.mem_map.mp hk'
        exact ⟨k, hk, (hφ k hk).1⟩
      · obtain ⟨-, ht, hclaim, -, -, hattempt, hsegment⟩ := hc
        obtain ⟨-, -, -, hsegs⟩ := startAttempt_frame hattempt
        obtain ⟨segments, hi, rfl⟩ := startSegment_cases hsegment
        obtain hk | rfl := (Table.mem_insert hi).mp hk'
        · exact ⟨k', hsegs ▸ hk, rfl⟩
        · have hfalse := hrest _ ht hkid
          rw [hclaim] at hfalse
          cases hfalse
  refine ⟨g', hr'.latestSegment_iff.mpr ⟨hg', (Segment.static_taskId hst).trans hid, ?_⟩, hst⟩
  intro k' hk' hkid
  obtain ⟨k, hk, hkst⟩ := hold k' hk' hkid
  rw [Segment.static_rank hkst, Segment.static_rank hst]
  exact hmax k hk ((Segment.static_taskId hkst).symm.trans hkid)

theorem setAttemptStatus_spares {id : String} {st : AttemptStatus} (ha : a ∈ c.attempts)
    (h : a.id = id → a.status = st) : a ∈ (c.setAttemptStatus id st).attempts := by
  refine (Table.mem_update (h := by intro _; rfl)).mpr ⟨a, ha, ?_⟩
  unfold Table.patch
  split
  · rename_i hsel
    rw [← h (of_decide_eq_true hsel)]
  · rfl

/-- No active segment belongs to an attempt of a failed task. -/
theorem idle_of_failed (hs : Slots d.toPlatform c) (hr : Ranked c) (ht : t ∈ c.tasks)
    (hfailed : t.status = .failed) (ha : a ∈ c.attempts) (hat : a.taskId = t.id)
    (hg : g ∈ c.segments) (hact : g.active = true) : a.id ≠ g.attemptId := by
  intro haid
  obtain ⟨b, hb, hbid, hbt, -⟩ := hr.numberOf g hg
  obtain rfl : b = a := Table.eq_of_key hb ha (hbid.trans haid.symm)
  have hbusy := hs.busy g hg hact t ht (hat.symm.trans hbt)
  rw [hfailed] at hbusy
  cases hbusy

/-- A claim sets only attempts of the task it claims. -/
theorem startAttempt_spares {env : Env} {u : Task} {place : Placement} {launchId : String}
    (hsel : selectReady d.toPlatform c launchId = some u) (hplace : c.place env u = .ok place)
    (h : c.startAttempt u place = .ok c') (ht : t ∈ c.tasks) (hfailed : t.status = .failed)
    (ha : a ∈ c.attempts) (hat : a.taskId = t.id) : a ∈ c'.attempts := by
  obtain ⟨hu, -, hclaim, -⟩ := selectReady_spec hsel
  obtain ⟨-, hres, rfl⟩ | ⟨-, -, -, attempts, hia, rfl⟩ := startAttempt_cases hplace h
  · refine setAttemptStatus_spares ha fun haid => ?_
    simp only [Core.placeResume, bind_ok_iff, expect_ok, require_ok, exists_const,
      Except.ok.injEq] at hres
    obtain ⟨b, hb, -, rfl⟩ := hres
    have hm := List.argmax_mem hb
    simp only [List.mem_filter, decide_eq_true_eq] at hm
    obtain rfl : a = b := Table.eq_of_key ha hm.1 haid
    obtain rfl : u = t := Table.eq_of_key hu ht (hm.2.symm.trans hat)
    rw [hfailed] at hclaim
    cases hclaim
  · exact (Table.mem_insert hia).mpr (.inl ha)

/-- The sweep sets only attempts of active segments. -/
theorem sweep_keepsAttempt (ha : a ∈ c.attempts)
    (hidle : ∀ g ∈ c.segments, g.active = true → a.id ≠ g.attemptId) :
    a ∈ c.markStoppingUnknown.attempts := by
  refine Table.mem_update_of_not (h := by intro _; rfl) ha (Bool.eq_false_iff.mpr ?_)
  intro hany
  obtain ⟨g', hg', hsel⟩ := List.any_eq_true.mp hany
  simp only [Bool.and_eq_true, decide_eq_true_eq] at hsel
  obtain ⟨g, hg, rfl⟩ := (Table.mem_update (h := by intro _; rfl)).mp hg'
  refine hidle g hg (Segment.active_iff.mpr fun hexit => ?_) ?_
  · unfold Table.patch at hsel
    split at hsel <;> simp_all
  · refine hsel.1.symm.trans ?_
    unfold Table.patch
    split <;> rfl

/-- The failed attempt of a task that stays failed stays failed. -/
theorem Step.keeps_failed (hstep : Step d op x c c') (hs : Slots d.toPlatform c) (hr : Ranked c)
    (ht : t ∈ c.tasks) (hfailed : t.status = .failed) (ha : a ∈ c.attempts) (hat : a.taskId = t.id)
    (haf : a.status = .failed) : a ∈ c'.attempts := by
  have hidle : ∀ g ∈ c.segments, g.active = true → a.id ≠ g.attemptId :=
    fun _ hg hact => idle_of_failed hs hr ht hfailed ha hat hg hact
  cases hstep with
  | submit hsub =>
    obtain ⟨p, launchId, stamp, -, -, hi⟩ := hsub.inserted
    exact hi.attempts ▸ ha
  | move hm =>
    cases hm with
    | quiet hq => exact hq.attempts ▸ ha
    | stopping hq => exact hq.attempts ▸ ha
    | claim _ _ hsel hplace _ hattempt hsegment =>
      obtain ⟨segments, hi, rfl⟩ := startSegment_cases hsegment
      have hkept := startAttempt_spares hsel hplace hattempt ht hfailed ha hat
      exact hkept
    | unknown hq hg hact =>
      exact setAttemptStatus_spares (hq.attempts ▸ ha) fun haid => absurd haid (hidle _ hg hact)
    | sweep => exact sweep_keepsAttempt ha hidle
    | exit hg hact =>
      exact setAttemptStatus_spares ha fun haid => absurd haid (hidle _ hg hact)
    | complete hg hact =>
      rw [(releaseReady_released _).attempts]
      exact setAttemptStatus_spares ha fun haid => absurd haid (hidle _ hg hact)
    | exhaust hg hact =>
      exact setAttemptStatus_spares ha fun haid => absurd haid (hidle _ hg hact)
    | cancel => exact ha
    | accept =>
      rw [Core.accept, (releaseReady_released _).attempts]
      exact ha
    | reject => exact setAttemptStatus_spares ha fun _ => haf
    | rejectLast => exact setAttemptStatus_spares ha fun _ => haf
    | resume => exact ha
    | @retry _ _ payload =>
      cases payload <;> exact ha

end Steps

/-! ## Reviews -/

section Reviews
variable {d : DB} {limits : ConcurrencyLimits} {op : Op} {s s' : State} {spec : ReviewSpec}
  {t : Task} {g : Segment} {r : RuntimeEvent} {row : ReviewDecision}

theorem reviewResult_judged {receipt : String} (h : d.reviewResult s spec = .ok (s', receipt)) :
    s' = s ∨ ∃ t r row, Judged s s' spec t r row := by
  simp only [DB.reviewResult, bind_ok_iff, require_ok, exists_const] at h
  obtain ⟨⟨-, -, -, -, -, -, -, hdecision⟩, h⟩ := h
  split at h
  · simp only [bind_ok_iff, require_ok, exists_const, Except.ok.injEq, Prod.mk.injEq] at h
    exact .inl h.2.1.symm
  · simp only [DB.applyReview, DB.reviewedEvent, bind_ok_iff, require_ok, expect_ok, exists_const,
      Except.ok.injEq] at h
    obtain ⟨e, ⟨t, ht, r, hr, ⟨-, hst, -, -, hslot, -⟩, hkind, hlatest, rfl⟩, -, reviews, hi, h⟩ :=
      h
    obtain ⟨hm, hid⟩ := Table.find?_eq_some.mp ht
    obtain ⟨hrm, hrid⟩ := Table.find?_eq_some.mp hr
    rw [← hid] at hlatest h
    have hreviews := fun row' => (Table.mem_insert hi (b := row')).mp
    have hstored := (Table.mem_insert hi).mpr (.inr rfl)
    split at h
    · rename_i haccept
      cases h
      exact .inr ⟨t, r, _, hm, hid, hst, hrm, hkind, hlatest, hstored, hrid.symm, hslot.symm,
        hreviews, .inl ⟨haccept, rfl⟩⟩
    · rename_i hother
      simp only [bind_ok_iff, Except.ok.injEq, Prod.mk.injEq] at h
      obtain ⟨core, hcore, rfl, -⟩ := h
      exact .inr ⟨t, r, _, hm, hid, hst, hrm, hkind, hlatest, hstored, hrid.symm, hslot.symm,
        hreviews, .inr ⟨hdecision.resolve_left hother, hcore⟩⟩

theorem exec_judged (hx : d.exec s op = .ok s') :
    s'.reviewDecisions = s.reviewDecisions ∨
      ∃ spec t r row, op = .reviewResult spec ∧ Judged s s' spec t r row := by
  obtain hsame | ⟨spec, rfl⟩ := (exec_writes hx).reviews
  · exact .inl hsame
  · obtain ⟨receipt, h⟩ := committed_ok.mp hx
    obtain rfl | ⟨t, r, row, hj⟩ := reviewResult_judged h
    · exact .inl rfl
    · exact .inr ⟨spec, t, r, row, rfl, hj⟩

/-- The reviewed event is one of the task's latest segment. -/
theorem Judged.segment (h : Judged s s' spec t r row) (hr : d.Reachable limits s) :
    ∃ g ∈ s.segments, s.latestSegment t.id = some g ∧ g.id = r.segmentId ∧ g.taskId = t.id ∧
      g.active = false := by
  obtain ⟨g, hl, hid⟩ := Option.map_eq_some_iff.mp h.latest
  obtain ⟨hg, htask, -⟩ := (ranked_of_reachable hr).latestSegment_iff.mp hl
  have hseg : r.segmentId = r.body.segmentId :=
    (congrArg RuntimeEvent.segmentId ((logged_of_reachable hr).rows r h.event).1 :)
  refine ⟨g, hg, hl, hid.trans hseg.symm, htask, ?_⟩
  cases hact : g.active with
  | false => rfl
  | true =>
    have hbusy := (slots_of_reachable hr).busy g hg hact t h.task htask.symm
    rw [h.ready] at hbusy
    cases hbusy

theorem State.Closed.exec {eventId : String} (h : s.Closed eventId) (hb : Bound s)
    (hx : d.exec s op = .ok s') : s'.Closed eventId := by
  obtain ⟨r, hr, hid, g, hg, hgid, hoff⟩ := h
  have hstep := (exec_effect hb hx).step
  obtain ⟨r', hr', heq⟩ := (exec_writes hx).keeps_event hr
  obtain ⟨heid, hseg, -⟩ := RuntimeEvent.entry_eq heq
  obtain ⟨g', hg', hst⟩ := hstep.grows.segment hg
  have hgid' : g'.id = g.id := Segment.static_id hst
  exact ⟨r', hr', heid.trans hid, g', hg', hgid'.trans (hgid.trans hseg.symm),
    hstep.inactive hg hoff hg' hgid'⟩

theorem Reviewed.exec (h : Reviewed s) (hr : d.Reachable limits s) (hx : d.exec s op = .ok s') :
    Reviewed s' := by
  have hb := bound_of_reachable hr
  intro row' hrow'
  refine State.Closed.exec ?_ hb hx
  obtain hsame | ⟨spec, t, r, row, -, hj⟩ := exec_judged hx
  · exact h row' (hsame ▸ hrow')
  · obtain hold | rfl := hj.reviews row' hrow'
    · exact h row' hold
    · obtain ⟨g, hg, -, hid, -, hoff⟩ := hj.segment hr
      exact ⟨r, hj.event, hj.eventId.symm, g, hg, hid, hoff⟩

theorem reviewed_of_reachable (h : d.Reachable limits s) : Reviewed s := by
  have hall : d.Reachable limits s ∧ Reviewed s := by
    refine reachable_induct (P := fun s : State => d.Reachable limits s ∧ Reviewed s)
      ⟨reachable_fresh d limits, fun _ hm => absurd hm (Table.not_mem_empty _)⟩ ?_ h
    intro s op s' ⟨hr, hs⟩ hx
    exact ⟨step_of_exec hx ▸ reachable_step op hr, hs.exec hr hx⟩
  exact hall.2

theorem attributed_of_reachable (h : d.Reachable limits s) : Attributed s := by
  have hall : Bound s ∧ Attributed s := by
    refine reachable_induct (P := fun s : State => Bound s ∧ Attributed s)
      ⟨bound_fresh limits, fun _ hm => absurd hm (Table.not_mem_empty _)⟩ ?_ h
    intro s op s' ⟨hb, hs⟩ hx
    have he := exec_effect hb hx
    refine ⟨he.bound, fun r' hr' => ?_⟩
    obtain ⟨g, hg, hseg, htask, hattempt⟩ : ∃ g ∈ s.segments, Names r'.body g := by
      obtain ⟨r, hr, hbody⟩ | hnew := (exec_writes hx).event_of hr'
      · exact hbody ▸ hs r hr
      · exact hnew
    obtain ⟨g', hg', hst⟩ := he.step.grows.segment hg
    exact ⟨g', hg', hseg.trans (Segment.static_id hst).symm,
      htask.trans (Segment.static_taskId hst).symm,
      hattempt.trans (Segment.static_attemptId hst).symm⟩
  exact hall.2

/-- The log tells which segment an event is about. -/
theorem unreviewed_of {segmentId : String} (hw : Writes d s op s')
    (h : ∀ row ∈ s'.reviewDecisions, ∃ r ∈ s.runtimeEvents, r.eventId = row.eventId ∧
      r.segmentId ≠ segmentId) : s'.Unreviewed segmentId := by
  intro row hrow r' hr' hid
  obtain ⟨r, hr, hrid, hne⟩ := h row hrow
  obtain ⟨q, hq, heq⟩ := hw.keeps_event hr
  obtain ⟨hqid, hseg, -⟩ := RuntimeEvent.entry_eq heq
  obtain rfl : r' = q := Table.eq_of_key hr' hq (hid.trans (hrid.symm.trans hqid.symm))
  exact hseg.trans_ne hne

end Reviews

/-! ## Verdicts stay -/

section Verdicts
variable {d : DB} {limits : ConcurrencyLimits} {op : Op} {s s' : State} {t : Task} {g g' : Segment}

theorem State.Faults.exec {r r' : RuntimeEvent} (h : s.Faults r) (hr : d.Reachable limits s)
    (hx : d.exec s op = .ok s') (heq : r'.entry = r.entry) : s'.Faults r' := by
  obtain ⟨hid, -, -, hslot, hbody⟩ := RuntimeEvent.entry_eq heq
  rw [State.Faults, hbody, hid, hslot]
  refine h.imp id fun ⟨hkind, row, hrow, hrow'⟩ => ⟨hkind, row, ?_, hrow'⟩
  exact exec_keeps_review hr hrow hx

/-- Its task not being the one reviewed, the segment stays unreviewed. -/
theorem State.Unreviewed.exec (h : s.Unreviewed g.id) (hr : d.Reachable limits s)
    (hg : g ∈ s.segments) (htask : g.taskId = t.id) (ht' : t ∈ s'.tasks)
    (hready : t.status = .resultReady) (hx : d.exec s op = .ok s') : s'.Unreviewed g.id := by
  have hp : t.status.decisive = true := by rw [hready]; rfl
  have hold : ∀ row ∈ s.reviewDecisions, ∃ r ∈ s.runtimeEvents, r.eventId = row.eventId ∧
      r.segmentId ≠ g.id := by
    intro row hrow
    obtain ⟨r, hrm, hid, -⟩ := reviewed_of_reachable hr row hrow
    exact ⟨r, hrm, hid, h row hrow r hrm hid⟩
  refine unreviewed_of (exec_writes hx) fun row hrow => ?_
  obtain hsame | ⟨spec, u, r, row', -, hj⟩ := exec_judged hx
  · exact hold row (hsame ▸ hrow)
  obtain hrow | rfl := hj.reviews row hrow
  · exact hold row hrow
  obtain ⟨k, hk, -, hkid, hku, -⟩ := hj.segment hr
  refine ⟨r, hj.event, hj.eventId.symm, fun hrg => ?_⟩
  obtain rfl : k = g := Table.eq_of_key hk hg (hkid.trans hrg)
  have hut : u.id = t.id := hku.symm.trans htask
  -- the reviewed task is completed or failed
  obtain ⟨-, hcore⟩ | ⟨-, hcore⟩ := hj.verdict
  · rw [hcore] at ht'
    exact (accept_entered ht' hp).2 hut.symm
  · obtain ⟨-, hne⟩ | ⟨-, hfailed⟩ := reject_entered hcore ht' hp
    · exact hne hut.symm
    · rw [hready] at hfailed
      cases hfailed

/-- A task that goes on waiting waits for the same decision. -/
theorem Verdict.exec (h : Verdict s t g) (hr : d.Reachable limits s) (ht : t ∈ s.tasks)
    (ht' : t ∈ s'.tasks) (hg : g ∈ s.segments) (htask : g.taskId = t.id)
    (hst : g'.static = g.static) (hx : d.exec s op = .ok s') : Verdict s' t g' := by
  have hb := bound_of_reachable hr
  have hw := exec_writes hx
  have hid : g'.id = g.id := Segment.static_id hst
  refine ⟨fun hready => ?_, fun hwait => ?_, fun hfailed => ?_⟩
  · obtain ⟨htold, hun⟩ := h.result hready
    rw [hid]
    exact ⟨htold.writes hw, hun.exec hr hg htask ht' hready hx⟩
  · obtain ⟨q, hq, hqg, hqt, hopen⟩ := h.waiting hwait
    rw [hid]
    obtain hq' | ⟨u, hu, hut, -, hcore⟩ := exec_keeps_open hb hx hq hopen
    · exact ⟨q, hq', hqg, hqt, hopen⟩
    · -- an answer queues its task
      rw [hcore] at ht'
      obtain ⟨v, -, -, rfl⟩ | ⟨-, hne⟩ := Core.mem_enqueue.mp ht'
      · cases hwait
      · exact absurd (hqt.symm.trans hut.symm) hne
  · obtain ⟨⟨a, ha, haid, haf⟩, r, hrm, hrg, hfault⟩ := h.failed hfailed
    have hranked := ranked_of_reachable hr
    obtain ⟨b, hbm, hbid, hbt, -⟩ := hranked.numberOf g hg
    obtain rfl : b = a := Table.eq_of_key hbm ha (hbid.trans haid.symm)
    obtain ⟨r', hr', heq⟩ := hw.keeps_event hrm
    have hseg : r'.segmentId = r.segmentId := (RuntimeEvent.entry_eq heq).2.1
    refine ⟨⟨b, ?_, haid.trans (Segment.static_attemptId hst).symm, haf⟩, r', hr',
      hseg.trans (hrg.trans hid.symm), hfault.exec hr hx heq⟩
    exact (exec_effect hb hx).step.keeps_failed (slots_of_reachable hr) hranked ht hfailed ha
      (hbt.trans htask) haf

theorem exitStatus_decisive (d : DB) (t : Task) (outcome : Outcome) (e : Event) :
    ((exitStatus d t outcome e).2 = .resultReady → outcome = .result) ∧
      ((exitStatus d t outcome e).2 = .waitingQuestion → outcome = .question) := by
  cases outcome <;> simp only [exitStatus, reduceCtorEq, false_implies, implies_true, and_self]
  split <;> simp

/-- An exit leaves its task with the verdict its outcome tells. -/
theorem Exited.verdict {e : Event} {t' : Task} (h : Exited d s s' e g t)
    (hr : d.Reachable limits s) (hid : t'.id = t.id) (hst' : g'.static = g.static)
    (hstatus : t'.status = (exitStatus d t g.outcome e).2) (hx : d.exec s op = .ok s') :
    Verdict s' t' g' := by
  have hw := exec_writes hx
  have ho := outcomes_of_reachable hr
  have hgid : g'.id = g.id := Segment.static_id hst'
  refine ⟨fun hready => ?_, fun hwait => ?_, fun hfailed => ?_⟩
  · rw [hgid]
    have hout : g.outcome = .result :=
      (exitStatus_decisive d t g.outcome e).1 (hstatus.symm.trans hready)
    refine ⟨(ho.result g h.segment hout).writes hw, unreviewed_of hw fun row hrow => ?_⟩
    rw [h.reviews] at hrow
    obtain ⟨r, hrm, hrid, k, hk, hkid, hoff⟩ := reviewed_of_reachable hr row hrow
    refine ⟨r, hrm, hrid, fun hrg => ?_⟩
    obtain rfl : k = g := Table.eq_of_key hk h.segment (hkid.trans hrg)
    rw [h.active] at hoff
    cases hoff
  · have hout : g.outcome = .question :=
      (exitStatus_decisive d t g.outcome e).2 (hstatus.symm.trans hwait)
    obtain ⟨q, hq, hqg, hqt, hopen⟩ := ho.asked g h.segment h.active hout
    refine ⟨q, ?_, hqg.trans hgid.symm, hqt.trans (h.taskId.symm.trans hid.symm), hopen⟩
    exact h.questions ▸ resolveRounds_keeps hq (by simp [hopen])
  · have hout : g.outcome = .failed := exitStatus_failed.mp (hstatus.symm.trans hfailed)
    obtain ⟨a, ha, haid, -⟩ := (ranked_of_reachable hr).numberOf g h.segment
    obtain ⟨r, hrm, hrg, hkind⟩ := (ho.failed g h.segment hout).writes hw
    refine ⟨⟨_, h.attempts a ha haid, haid.trans (Segment.static_attemptId hst').symm, ?_⟩, r, hrm,
      hrg.trans hgid.symm, .inl hkind⟩
    simp [exitStatus, hout]

/-- A rejected result is a failure of its attempt. -/
theorem Judged.verdict_of {spec : ReviewSpec} {r : RuntimeEvent} {row : ReviewDecision} {t' : Task}
    (h : Judged s s' spec t r row) (hr : d.Reachable limits s) (hg : g ∈ s.segments)
    (hgid : g.id = r.segmentId) (hfailed : t'.status = .failed) (ht' : t' ∈ s'.tasks)
    (hid : t'.id = t.id) (hst : g'.static = g.static) (hx : d.exec s op = .ok s') :
    Verdict s' t' g' := by
  refine ⟨fun hready => ?_, fun hwait => ?_, fun _ => ?_⟩
  · rw [hready] at hfailed
    cases hfailed
  · rw [hwait] at hfailed
    cases hfailed
  have hp : t'.status.decisive = true := by rw [hfailed]; rfl
  obtain ⟨hdecision, hcore⟩ | ⟨hdecision, hcore⟩ := h.verdict
  · rw [hcore] at ht'
    exact absurd hid (accept_entered ht' hp).2
  have hseg : r.segmentId = r.body.segmentId :=
    (congrArg RuntimeEvent.segmentId ((logged_of_reachable hr).rows r h.event).1 :)
  obtain ⟨k, hk, hkseg, -, hkattempt⟩ := attributed_of_reachable hr r h.event
  obtain rfl : k = g := Table.eq_of_key hk hg (hkseg.symm.trans (hseg.symm.trans hgid.symm))
  obtain ⟨a, ha, haid, -⟩ := (ranked_of_reachable hr).numberOf k hk
  obtain ⟨r', hr', heq⟩ := (exec_writes hx).keeps_event h.event
  obtain ⟨heid, hrseg, -, hslot, hbody⟩ := RuntimeEvent.entry_eq heq
  refine ⟨⟨{ a with status := .failed }, ?_, haid.trans (Segment.static_attemptId hst).symm, rfl⟩,
    r', hr', hrseg.trans (hgid.symm.trans (Segment.static_id hst).symm),
    .inr ⟨hbody ▸ h.kind, row, h.stored, h.eventId.trans heid.symm, h.slot.trans hslot.symm,
      hdecision⟩⟩
  have hattempts : s'.attempts =
      ((s.toCore.setTaskStatus t.id .failed).setAttemptStatus r.body.attemptId
        .failed).attempts := by
    obtain ⟨-, -, -, ⟨-, hblocked⟩ | ⟨-, hleft⟩⟩ := blockIfExhausted_cases hcore
    · rw [hblocked]
      rfl
    · rw [hleft]
  rw [hattempts]
  refine (Table.mem_update (h := by intro _; rfl)).mpr ⟨a, ha, ?_⟩
  rw [Table.patch_pos (by simpa using haid.trans hkattempt.symm)]

theorem TaskStatus.unclaimable_of_decisive {st : TaskStatus} (h : st.decisive = true) :
    st.claimable = false := by
  cases st <;> simp_all [TaskStatus.decisive, TaskStatus.claimable]

theorem TaskStatus.unclaimable_of_busy {st : TaskStatus} (h : st.busy = true) :
    st.claimable = false := by
  cases st <;> simp_all [TaskStatus.busy, TaskStatus.claimable]

theorem Standing.exec (h : Standing s) (hr : d.Reachable limits s) (hx : d.exec s op = .ok s') :
    Standing s' := by
  intro t' ht' hp
  have hr' : d.Reachable limits s' := step_of_exec hx ▸ reachable_step op hr
  have hranked := ranked_of_reachable hr
  have hlast : ∀ {g : Segment} {taskId : String},
      (∀ u ∈ s.tasks, u.id = taskId → u.status.claimable = false) →
      s.latestSegment taskId = some g →
      ∃ g', s'.latestSegment taskId = some g' ∧ g'.static = g.static :=
    (exec_effect (bound_of_reachable hr) hx).step.last hranked (ranked_of_reachable hr')
  obtain hold | ⟨e, g, t, hexit, hid, hstatus⟩ | ⟨spec, rfl, hid, hfailed⟩ :=
    exec_entered hx ht' hp
  · obtain ⟨g, hl, hv⟩ := h t' hold hp
    obtain ⟨hg, htask, -⟩ := hranked.latestSegment_iff.mp hl
    obtain ⟨g', hl', hst⟩ := hlast (fun u hu huid => by
      rw [Table.eq_of_key hu hold huid]
      exact TaskStatus.unclaimable_of_decisive hp) hl
    exact ⟨g', hl', hv.exec hr hold ht' hg htask hst hx⟩
  · obtain ⟨g', hl', hst⟩ := hlast (fun u hu huid => TaskStatus.unclaimable_of_busy
      ((slots_of_reachable hr).busy g hexit.segment hexit.active u hu huid))
      (hranked.latest_active hexit.segment hexit.active)
    rw [← hexit.taskId, ← hid] at hl'
    exact ⟨g', hl', hexit.verdict hr hid hst hstatus hx⟩
  · obtain ⟨receipt, hreview⟩ := committed_ok.mp hx
    obtain rfl | ⟨t, r, row, hj⟩ := reviewResult_judged hreview
    · exact h t' ht' hp
    · obtain ⟨g, hg, hl, hgid, htask, -⟩ := hj.segment hr
      have htid : t'.id = t.id := hid.trans hj.taskId.symm
      obtain ⟨g', hl', hst⟩ := hlast (fun u hu huid => by
        rw [Table.eq_of_key hu hj.task huid, hj.ready]
        rfl) hl
      rw [← htid] at hl'
      exact ⟨g', hl', hj.verdict_of hr hg hgid hfailed ht' htid hst hx⟩

theorem standing_of_reachable (h : d.Reachable limits s) : Standing s := by
  have hall : d.Reachable limits s ∧ Standing s := by
    refine reachable_induct (P := fun s : State => d.Reachable limits s ∧ Standing s)
      ⟨reachable_fresh d limits, fun _ hm => absurd hm (Table.not_mem_empty _)⟩ ?_ h
    intro s op s' ⟨hr, hs⟩ hx
    exact ⟨step_of_exec hx ▸ reachable_step op hr, hs.exec hr hx⟩
  exact hall.2

end Verdicts
end Orchestrator.Store
