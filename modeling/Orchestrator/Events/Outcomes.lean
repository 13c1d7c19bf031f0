import Orchestrator.Events.Handled

/-!
# Where outcomes come from

The outcome of a segment decides what becomes of its task when it exits. A
result or a failure is told by an event of the Host, and stays in the log; a
question is open as long as its segment is active.
-/
namespace Orchestrator.Store
open Library

/-- An event of this kind about the segment is in the log. -/
def State.Told (s : State) (segmentId : String) (kind : EventKind) : Prop :=
  ∃ r ∈ s.runtimeEvents, r.segmentId = segmentId ∧ r.body.kind = kind

/-- Segments keep their outcomes, and none starts. -/
def Core.Plain (c c' : Core) : Prop :=
  ∀ g' ∈ c'.segments, ∃ g ∈ c.segments, g'.static = g.static ∧ g'.outcome = g.outcome ∧
    (g'.active = true → g.active = true)

/-- What the outcome of a segment rests on after a step. -/
inductive Ruled (c : Core) (s' : State) (g' : Segment) : Prop
  | none (h : g'.outcome = .none ∨ g'.outcome = .stopped)
  | old {g : Segment} (hg : g ∈ c.segments) (hst : g'.static = g.static)
      (ho : g'.outcome = g.outcome) (ha : g'.active = true → g.active = true)
  | told {kind : EventKind} (h : s'.Told g'.id kind)
      (ho : (kind = .result ∧ g'.outcome = .result) ∨ (kind = .failed ∧ g'.outcome = .failed))
  | asked {q : Question} (ho : g'.outcome = .question) (hq : q ∈ s'.questions)
      (hid : q.segmentId = g'.id) (ht : q.taskId = g'.taskId) (hopen : q.status = .open)

structure Outcomes (s : State) : Prop where
  result : ∀ g ∈ s.segments, g.outcome = .result → s.Told g.id .result
  failed : ∀ g ∈ s.segments, g.outcome = .failed → s.Told g.id .failed
  asked : ∀ g ∈ s.segments, g.active = true → g.outcome = .question →
    ∃ q ∈ s.questions, q.segmentId = g.id ∧ q.taskId = g.taskId ∧ q.status = .open

section Frames
variable {d : DB} {env : Env} {op : Op} {s s' : State} {c c' c'' : Core} {e : Event}
  {kind : EventKind}

theorem Core.Plain.of_eq (h : c'.segments = c.segments) : c.Plain c' :=
  fun g' hg' => ⟨g', h ▸ hg', rfl, rfl, id⟩

theorem Core.Plain.trans (h : c.Plain c') (h' : c'.Plain c'') : c.Plain c'' := by
  intro g'' hg''
  obtain ⟨g', hg', hst', ho', ha'⟩ := h' g'' hg''
  obtain ⟨g, hg, hst, ho, ha⟩ := h g' hg'
  exact ⟨g, hg, hst'.trans hst, ho'.trans ho, fun hact => ha (ha' hact)⟩

theorem plain_updateSegments {p : Segment → Bool} {f : Segment → Segment}
    {hf : ∀ g, (f g).id = g.id} (hst : ∀ g, (f g).static = g.static)
    (ho : ∀ g, (f g).outcome = g.outcome)
    (ha : ∀ g, p g = true → (f g).active = true → g.active = true) :
    c.Plain (c.updateSegments p f hf) := by
  intro g' hg'
  obtain ⟨g, hg, rfl⟩ := (Table.mem_update (h := hf)).mp hg'
  refine ⟨g, hg, Table.patch_field Segment.static hst g, Table.patch_field Segment.outcome ho g, ?_⟩
  by_cases hp : p g = true
  · rw [Table.patch_pos hp]
    exact ha g hp
  · rw [Table.patch_neg (by simpa using hp)]
    exact id

theorem Core.Plain.ruled (h : c.Plain c') :
    ∀ g' ∈ c'.segments, Ruled c s' g' := by
  intro g' hg'
  obtain ⟨g, hg, hst, ho, ha⟩ := h g' hg'
  exact .old hg hst ho ha

theorem ruled_of_eq (h : s'.segments = s.segments) :
    ∀ g' ∈ s'.segments, Ruled s.toCore s' g' :=
  fun _ hg' => .old (h ▸ hg') rfl rfl id

/-- A plain step after it does not change what outcomes rest on. -/
theorem Ruled.plain {s'' : State} (h : ∀ g' ∈ c'.segments, Ruled c s' g') (h' : c'.Plain c'')
    (hq : s''.questions = s'.questions) (hlog : s''.runtimeEvents = s'.runtimeEvents) :
    ∀ g' ∈ c''.segments, Ruled c s'' g' := by
  intro g'' hg''
  obtain ⟨g', hg', hst, ho, ha⟩ := h' g'' hg''
  have hid : g''.id = g'.id := Segment.static_id hst
  cases h g' hg' with
  | none hn => exact .none (ho ▸ hn)
  | old hg hst' ho' ha' =>
    exact .old hg (hst.trans hst') (ho.trans ho') fun hact => ha' (ha hact)
  | told ht hk =>
    obtain ⟨r, hr, hrid, hkind⟩ := ht
    exact .told ⟨r, hlog ▸ hr, hrid.trans hid.symm, hkind⟩ (ho ▸ hk)
  | asked ho' hm hqid hqt hopen =>
    exact .asked (ho.trans ho') (hq ▸ hm) (hqid.trans hid.symm)
      (hqt.trans (Segment.static_taskId hst).symm) hopen

theorem RuntimeEvent.entry_eq {r r' : RuntimeEvent} (h : r'.entry = r.entry) :
    r'.eventId = r.eventId ∧ r'.segmentId = r.segmentId ∧ r'.taskId = r.taskId ∧
      r'.actionSlot = r.actionSlot ∧ r'.body = r.body :=
  ⟨(congrArg RuntimeEvent.eventId h :), (congrArg RuntimeEvent.segmentId h :),
    (congrArg RuntimeEvent.taskId h :), (congrArg RuntimeEvent.actionSlot h :),
    (congrArg RuntimeEvent.body h :)⟩

/-- Entries stay in the log. -/
theorem Writes.keeps_event (h : Writes d s op s') {r : RuntimeEvent} (hr : r ∈ s.runtimeEvents) :
    ∃ r' ∈ s'.runtimeEvents, r'.entry = r.entry := by
  obtain hsame | ⟨e, -, -, -, hrows⟩ := h.log
  · obtain ⟨r', hr', -, heq⟩ := mem_of_map_eq hsame.symm hr
    exact ⟨r', hr', heq.symm⟩
  · exact ⟨r, Table.mem_def.mpr (hrows ▸ List.mem_append_left _ hr), rfl⟩

theorem State.Told.writes (h : Writes d s op s') {segmentId : String} (ht : s.Told segmentId kind) :
    s'.Told segmentId kind := by
  obtain ⟨r, hr, hid, hk⟩ := ht
  obtain ⟨r', hr', heq⟩ := h.keeps_event hr
  obtain ⟨-, hseg, -, -, hbody⟩ := RuntimeEvent.entry_eq heq
  exact ⟨r', hr', hseg.trans hid, hbody ▸ hk⟩

end Frames

/-! ## Events -/

section Events
variable {d : DB} {env : Env} {op : Op} {s s' : State} {e : Event}

/-- The segment that asks has the outcome of its question. -/
theorem applyQuestion_ruled (hn : ∀ g ∈ s.segments, g.id = e.segmentId → Names e g)
    (h : applyQuestion s e = .ok s') :
    ∀ g' ∈ s'.segments, Ruled s.toCore s' g' := by
  obtain rfl | ⟨g, questions, hg, ha, -, hi, rfl⟩ := applyQuestion_cases h
  · exact (Core.Plain.of_eq rfl).ruled
  · intro g' hg'
    obtain ⟨k, hk, rfl⟩ := Core.mem_updateSegment.mp hg'
    unfold Table.patch
    split
    · rename_i hsel
      simp only [Bool.and_eq_true, decide_eq_true_eq] at hsel
      obtain ⟨hid, htask, -⟩ := hn k hk hsel.1
      exact .asked rfl ((Table.mem_insert hi).mpr (.inr rfl)) hid htask rfl
    · exact .old hk rfl rfl id

theorem ensureQuestionStop_plain (h : ensureQuestionStop env s e = .ok s') :
    s.toCore.Plain s'.toCore ∧ s'.questions = s.questions ∧
      s'.runtimeEvents = s.runtimeEvents := by
  obtain rfl | ⟨g, stops, -, -, -, rfl⟩ := ensureQuestionStop_cases h
  · exact ⟨.of_eq rfl, rfl, rfl⟩
  · have hupdate : s.toCore.Plain (s.toCore.updateSegment e.segmentId (fun g => g.status.launched)
        (fun g => { g with status := .stopping })) := by
      refine plain_updateSegments (fun _ => rfl) (fun _ => rfl) fun g hp _ => ?_
      simp only [Bool.and_eq_true] at hp
      exact Segment.active_iff.mpr (SegmentStatus.launched_ne_exited hp.2)
    exact ⟨hupdate.trans (.of_eq rfl), rfl, rfl⟩

theorem ask_ruled {s₁ : State} (hn : ∀ g ∈ s.segments, g.id = e.segmentId → Names e g)
    (h₁ : applyQuestion s e = .ok s₁) (h₂ : ensureQuestionStop env s₁ e = .ok s') :
    ∀ g' ∈ s'.segments, Ruled s.toCore s' g' := by
  obtain ⟨hplain, hq, hlog⟩ := ensureQuestionStop_plain h₂
  exact Ruled.plain (applyQuestion_ruled hn h₁) hplain hq hlog

theorem materialize_ruled {segmentId sessionKind sessionId : String} (hb : Bound s)
    (h : materializePendingReportQuestion env s segmentId sessionKind sessionId = .ok s') :
    ∀ g' ∈ s'.segments, Ruled s.toCore s' g' := by
  obtain ⟨-, rfl⟩ | ⟨r, c, order, s₁, hpend, -, -, -, h₁, h₂⟩ :=
    materialize_cases h
  · exact (Core.Plain.of_eq rfl).ruled
  · have hm : r ∈ s.reportEvents := (List.mem_filter.mp (List.argmin_mem hpend)).1
    refine ask_ruled (s := { s with reportEvents := _, deliveryOrder := order }) ?_ h₁ h₂
    exact fun g hg hid => hb.report_names hm hg hid

theorem applySession_ruled (hb : Bound s) (h : applySession env s e = .ok s') :
    ∀ g' ∈ s'.segments, Ruled s.toCore s' g' := by
  obtain rfl | ⟨row, sessions, -, -, h⟩ := applySession_cases h
  · exact (Core.Plain.of_eq rfl).ruled
  · exact materialize_ruled (s := { s with sessions := sessions })
      ⟨hb.launches, hb.capabilities, hb.reports⟩ h

theorem setOutcome_ruled {c : Core} {outcome : Outcome}
    (h : ∀ g' : Segment, g'.id = e.segmentId → g'.outcome = outcome → Ruled c s' g') :
    ∀ g' ∈ (c.setOutcome e.segmentId outcome).segments, Ruled c s' g' := by
  intro g' hg'
  obtain ⟨g, hg, rfl⟩ := Core.mem_updateSegment.mp hg'
  unfold Table.patch
  split
  · rename_i hsel
    simp only [Bool.and_eq_true, decide_eq_true_eq] at hsel
    exact h _ hsel.1 rfl
  · exact .old hg rfl rfl id

theorem applyPhase_plain {c : Core} (id : String) (next : SegmentStatus)
    (allowed : List SegmentStatus) : c.Plain (c.applyPhase id next allowed) := by
  refine plain_updateSegments (fun _ => rfl) (fun _ => rfl) fun g hp _ => ?_
  simp only [Bool.and_eq_true, decide_eq_true_eq] at hp
  exact Segment.active_iff.mpr hp.2.2

theorem applyUnknown_plain {c : Core} : c.Plain (c.applyUnknown e) := by
  unfold Core.applyUnknown
  split
  · have hupdate : c.Plain (c.updateSegment e.segmentId (fun g => g.status ≠ .exited)
        (fun g => { g with status := .unknown, phase := .unknown })) := by
      refine plain_updateSegments (fun _ => rfl) (fun _ => rfl) fun g hp _ => ?_
      simp only [Bool.and_eq_true, decide_eq_true_eq] at hp
      exact Segment.active_iff.mpr hp.2
    exact hupdate.trans (.of_eq rfl)
  · exact .of_eq rfl

theorem applyExit_plain (h : d.applyExit s e = .ok s') : s.toCore.Plain s'.toCore := by
  obtain ⟨g, -, ⟨-, rfl⟩ | ⟨-, t, core, -, hcore, rfl⟩⟩ := applyExit_cases h
  · exact .of_eq rfl
  · have hsettle : s.toCore.Plain (s.toCore.settle e.segmentId
        (settledMs e.activeMs g.reservation.grantedMs)) := by
      refine plain_updateSegments (fun _ => rfl) (fun _ => rfl) fun g _ hact => ?_
      simp [Segment.active, SegmentStatus.active] at hact
    have hsegs := afterExit_segments hcore
    exact hsettle.trans (.of_eq hsegs)

theorem applyEvent_ruled (hb : Bound s) (htold : s.Told e.segmentId e.kind)
    (hn : ∀ g ∈ s.segments, g.id = e.segmentId → Names e g) (h : d.applyEvent env s e = .ok s') :
    ∀ g' ∈ s'.segments, Ruled s.toCore s' g' := by
  unfold DB.applyEvent at h
  split at h
  case h_1 => cases h; exact (applyPhase_plain _ _ _).ruled
  case h_2 => cases h; exact (applyPhase_plain _ _ _).ruled
  case h_3 => cases h; exact (applyPhase_plain _ _ _).ruled
  case h_4 => exact applySession_ruled hb h
  case h_5 => exact applyQuestion_ruled hn h
  case h_6 hk =>
    cases h
    exact setOutcome_ruled fun g' hid ho => .told (hid ▸ htold) (.inl ⟨hk, ho⟩)
  case h_7 hk =>
    cases h
    exact setOutcome_ruled fun g' hid ho => .told (hid ▸ htold) (.inr ⟨hk, ho⟩)
  case h_8 =>
    cases h
    exact setOutcome_ruled fun g' _ ho => .none (.inr ho)
  case h_9 => cases h; exact applyUnknown_plain.ruled
  case h_10 => exact (applyExit_plain h).ruled
  case h_11 => cases h

end Events

/-! ## Operations -/

section Operations
variable {d : DB} {limits : ConcurrencyLimits} {op : Op} {s s' : State} {q : Question}

theorem retry_segments {c : Core} {taskId : String} (payload : Option String) :
    ((c.setAdapter taskId payload).enqueue taskId .ready).segments = c.segments := by
  cases payload <;> rfl

theorem exec_ruled (hb : Bound s) (hx : d.exec s op = .ok s') :
    ∀ g' ∈ s'.segments, Ruled s.toCore s' g' := by
  have hw := exec_writes hx
  cases hw with
  | same | fleet | ack | register | resume | answer | cancel => exact ruled_of_eq rfl
  | plan hl hrow hcore => exact ruled_of_eq (insertTasks_inserted hcore).segments
  | claim hclaim =>
    obtain ⟨c₁, c₂, caps, h₁, h₂, -, rfl, -⟩ := launch_cases hclaim.launched
    obtain ⟨-, -, -, hsegs⟩ := startAttempt_frame h₁
    obtain ⟨segments, hi, rfl⟩ := startSegment_cases h₂
    intro g' hg'
    obtain hg' | rfl := (Table.mem_insert hi).mp hg'
    · exact .old (hsegs ▸ hg') rfl rfl id
    · exact .none (.inl rfl)
  | pending =>
    intro g' hg'
    obtain ⟨g, hg, rfl⟩ := (Table.mem_update (h := by intro _; rfl)).mp hg'
    unfold Table.patch
    split <;> exact .old hg rfl rfl id
  | review ht hid hst hcore =>
    obtain rfl | ⟨attemptId, hcore⟩ := hcore
    · exact ruled_of_eq (releaseReady_released _).segments
    · exact ruled_of_eq (reject_aside hcore).1
  | retry => exact ruled_of_eq (retry_segments _)
  | stop =>
    intro g' hg'
    obtain ⟨k, hk, rfl⟩ := (Core.mem_updateSegment (h := by intro _; rfl)).mp hg'
    unfold Table.patch
    split
    · exact .none (.inr rfl)
    · exact .old hk rfl rfl id
  | sweep =>
    have hupdate : s.toCore.Plain (s.toCore.updateSegments (fun g => g.status = .stopping)
        (fun g => { g with status := .unknown })) := by
      refine plain_updateSegments (fun _ => rfl) (fun _ => rfl) fun g hp _ => ?_
      rw [decide_eq_true_eq] at hp
      rw [Segment.active_iff, hp]
      simp
    exact hupdate.ruled
  | report hcm hid hkind hdec hopen h₁ h₂ =>
    obtain ⟨row, events, order, usage, -, -, -, rfl⟩ := appendReport_frame h₁
    unfold askReported at h₂
    split at h₂
    · obtain ⟨s₂, hask, hstop⟩ := bind_ok_iff.mp h₂
      refine ask_ruled (s := { s with
        reportEvents := events, storageUsage := usage, deliveryOrder := order,
        reportCapabilities := _ }) (fun g hg hgid => ?_) hask hstop
      obtain ⟨k, hk, h1, h2, h3⟩ := hb.capabilities _ hcm
      obtain rfl : g = k := Table.eq_of_key hg hk (hgid.trans h1.symm)
      exact ⟨h1.symm, h2.symm, h3.symm⟩
    · cases h₂
      exact ruled_of_eq rfl
  | event hwf hnext hg hid hbound h₁ h₂ =>
    have hrows := appendEvent_rows h₁
    obtain ⟨events, order, usage, rfl⟩ := appendEvent_frame h₁
    refine applyEvent_ruled (s := { s with
      runtimeEvents := events, deliveryOrder := order, storageUsage := usage })
      ⟨hb.launches, hb.capabilities, hb.reports⟩ ⟨d.runtimeEventRow _, ?_, rfl, rfl⟩
      (names_of_bound hg hid hbound) h₂
    rw [Table.mem_def, show _ = _ from hrows]
    exact List.mem_append_right _ List.mem_cons_self

/-- An open question stays open until its task is queued with the answer. -/
theorem exec_keeps_open (hb : Bound s) (hx : d.exec s op = .ok s') (hq : q ∈ s.questions)
    (hopen : q.status = .open) : q ∈ s'.questions ∨
      ∃ t ∈ s.tasks, t.id = q.taskId ∧ t.status = .waitingQuestion ∧
        s'.toCore = s.toCore.enqueue t.id .resumeQueued := by
  cases (exec_effect hb hx).inquiry with
  | idle h => exact .inl (h ▸ hq)
  | resolve _ _ _ _ h => exact .inl (h ▸ resolveRounds_keeps hq (by simp [hopen]))
  | spare _ h =>
    cases h with
    | keep h => exact .inl (h ▸ hq)
    | ask _ _ _ _ _ h => exact .inl ((Table.mem_insert h).mpr (.inl hq))
    | start _ _ _ _ _ _ h => exact .inl (h ▸ startResume_spares hq (by simp [hopen]))
    | @answer spec _ hop h =>
      have hw := exec_writes hx
      subst hop
      cases hw with
      | same => exact .inl hq
      | fleet hfleet => cases hfleet
      | @answer _ t r _ ht _ hst _ hr hrid hrt =>
        by_cases heq : q.questionId = spec.questionId
        · obtain rfl := Table.eq_of_key hq hr (heq.trans hrid.symm)
          exact .inr ⟨t, ht, hrt.symm, hst, rfl⟩
        · refine .inl (Table.mem_update_of_not (h := by intro _; rfl) hq ?_)
          simp [heq]

theorem outcomes_fresh (limits : ConcurrencyLimits) : Outcomes (State.fresh limits) := by
  refine ⟨?_, ?_, ?_⟩ <;> exact fun _ h => absurd h (Table.not_mem_empty _)

theorem Outcomes.exec (h : Outcomes s) (hr : d.Reachable limits s) (hx : d.exec s op = .ok s') :
    Outcomes s' := by
  have hb := bound_of_reachable hr
  have hw := exec_writes hx
  have hruled := exec_ruled hb hx
  refine ⟨fun g' hg' ho' => ?_, fun g' hg' ho' => ?_, fun g' hg' ha' ho' => ?_⟩
  · cases hruled g' hg' with
    | none hn => obtain hn | hn := hn <;> rw [hn] at ho' <;> cases ho'
    | old hg hst ho => exact Segment.static_id hst ▸ (h.result _ hg (ho ▸ ho')).writes hw
    | told ht ho =>
      obtain ⟨rfl, -⟩ | ⟨-, ho⟩ := ho
      · exact ht
      · rw [ho] at ho'; cases ho'
    | asked ho => rw [ho] at ho'; cases ho'
  · cases hruled g' hg' with
    | none hn => obtain hn | hn := hn <;> rw [hn] at ho' <;> cases ho'
    | old hg hst ho => exact Segment.static_id hst ▸ (h.failed _ hg (ho ▸ ho')).writes hw
    | told ht ho =>
      obtain ⟨-, ho⟩ | ⟨rfl, -⟩ := ho
      · rw [ho] at ho'; cases ho'
      · exact ht
    | asked ho => rw [ho] at ho'; cases ho'
  · cases hruled g' hg' with
    | none hn => obtain hn | hn := hn <;> rw [hn] at ho' <;> cases ho'
    | @old g hg hst ho ha =>
      obtain ⟨q, hq, hqid, hqt, hopen⟩ := h.asked g hg (ha ha') (ho ▸ ho')
      obtain hq' | ⟨t, ht, htid, hwait, -⟩ := exec_keeps_open hb hx hq hopen
      · exact ⟨q, hq', hqid.trans (Segment.static_id hst).symm,
          hqt.trans (Segment.static_taskId hst).symm, hopen⟩
      · -- the task of an active segment does not wait
        have hbusy := (slots_of_reachable hr).busy g hg (ha ha') t ht (htid.trans hqt)
        rw [hwait] at hbusy
        cases hbusy
    | told _ ho => obtain ⟨-, ho⟩ | ⟨-, ho⟩ := ho <;> rw [ho] at ho' <;> cases ho'
    | asked _ hq hqid hqt hopen => exact ⟨_, hq, hqid, hqt, hopen⟩

theorem outcomes_of_reachable (h : d.Reachable limits s) : Outcomes s := by
  have hall : d.Reachable limits s ∧ Outcomes s := by
    refine reachable_induct (P := fun s : State => d.Reachable limits s ∧ Outcomes s)
      ⟨reachable_fresh d limits, outcomes_fresh limits⟩ ?_ h
    intro s op s' ⟨hr, hs⟩ hx
    exact ⟨step_of_exec hx ▸ reachable_step op hr, hs.exec hr hx⟩
  exact hall.2

end Operations
end Orchestrator.Store
