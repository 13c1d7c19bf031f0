import Orchestrator.Events.Outcomes
import Orchestrator.Events.Ordered

/-!
# What a decision names

A decision names an event by its id, or a question. Ids tell the delivered events
of Hosts from the released reports, for good; a question carries the revision its
event was sent with.
-/
namespace Orchestrator.Store
open Library

/-- The event has a place in the delivery order. -/
def State.Placed (s : State) (eventId : String) : Prop :=
  ∃ o ∈ s.deliveryOrder, o.eventId = eventId

/-- What was delivered once keeps its place, and takes none that another event has. -/
structure Lodged (s : State) : Prop where
  runtime : ∀ r ∈ s.runtimeEvents, deliveryStatusOf r.body.kind = .pending → s.Placed r.eventId
  reports : ∀ q ∈ s.reportEvents, q.deliveryStatus ≠ .pendingSession → s.Placed q.eventId
  apart : ∀ r ∈ s.runtimeEvents, deliveryStatusOf r.body.kind = .pending → ∀ q ∈ s.reportEvents,
    q.deliveryStatus ≠ .pendingSession → r.eventId ≠ q.eventId

section Lodged
variable {d : DB} {env : Env} {limits : ConcurrencyLimits} {s s' : State} {op : Op} {e : Event}
  {id taskId : String}

theorem Lodged.fresh (limits : ConcurrencyLimits) : Lodged (State.fresh limits) := by
  refine ⟨?_, ?_, ?_⟩ <;> exact fun _ h => absurd h (Table.not_mem_empty _)

/-- What is delivered was so before. -/
theorem Lodged.shrink (h : Lodged s) (horder : s'.deliveryOrder = s.deliveryOrder)
    (hruntime : ∀ r' ∈ s'.runtimeEvents, deliveryStatusOf r'.body.kind = .pending →
      ∃ r ∈ s.runtimeEvents, deliveryStatusOf r.body.kind = .pending ∧ r.eventId = r'.eventId)
    (hreports : ∀ q' ∈ s'.reportEvents, q'.deliveryStatus ≠ .pendingSession →
      ∃ q ∈ s.reportEvents, q.deliveryStatus ≠ .pendingSession ∧ q.eventId = q'.eventId) :
    Lodged s' := by
  have hplaced : ∀ {id : String}, s.Placed id → s'.Placed id := by
    intro id hp
    rwa [State.Placed, horder]
  refine ⟨fun r' hr' hk => ?_, fun q' hq' hst => ?_, fun r' hr' hk q' hq' hst => ?_⟩
  · obtain ⟨r, hr, hrk, hid⟩ := hruntime r' hr' hk
    exact hid ▸ hplaced (h.runtime r hr hrk)
  · obtain ⟨q, hq, hqst, hid⟩ := hreports q' hq' hst
    exact hid ▸ hplaced (h.reports q hq hqst)
  · obtain ⟨r, hr, hrk, hid⟩ := hruntime r' hr' hk
    obtain ⟨q, hq, hqst, hqid⟩ := hreports q' hq' hst
    rw [← hid, ← hqid]
    exact h.apart r hr hrk q hq hqst

/-- An event that is delivered by one of the logs takes the next place. -/
theorem Lodged.deliver (h : Lodged s) (hd : Delivers s.deliveryOrder id taskId s'.deliveryOrder)
    (newRuntime newReport : Prop) (hone : ¬ (newRuntime ∧ newReport))
    (hruntime : ∀ r' ∈ s'.runtimeEvents, deliveryStatusOf r'.body.kind = .pending →
      r' ∈ s.runtimeEvents ∨ (newRuntime ∧ r'.eventId = id))
    (hreports : ∀ q' ∈ s'.reportEvents, q'.deliveryStatus ≠ .pendingSession →
      q' ∈ s.reportEvents ∨ (newReport ∧ q'.eventId = id)) : Lodged s' := by
  have hfresh : ¬ s.Placed id := fun ⟨o, ho, hid⟩ => (Table.insert?_eq_some.mp hd).1 o ho hid
  have hplaced : ∀ {id : String}, s.Placed id → s'.Placed id := fun ⟨o, ho, hid⟩ =>
    ⟨o, (Table.mem_insert hd).mpr (.inl ho), hid⟩
  have hnew : s'.Placed id := ⟨_, (Table.mem_insert hd).mpr (.inr rfl), rfl⟩
  refine ⟨fun r' hr' hk => ?_, fun q' hq' hst => ?_, fun r' hr' hk q' hq' hst heq => ?_⟩
  · obtain hr | ⟨-, hid⟩ := hruntime r' hr' hk
    · exact hplaced (h.runtime r' hr hk)
    · exact hid ▸ hnew
  · obtain hq | ⟨-, hid⟩ := hreports q' hq' hst
    · exact hplaced (h.reports q' hq hst)
    · exact hid ▸ hnew
  · obtain hr | ⟨hn, hid⟩ := hruntime r' hr' hk <;> obtain hq | ⟨hn', hid'⟩ := hreports q' hq' hst
    · exact h.apart r' hr hk q' hq hst heq
    · exact hfresh (hid' ▸ heq ▸ h.runtime r' hr hk)
    · exact hfresh (hid ▸ heq ▸ h.reports q' hq hst)
    · exact hone ⟨hn, hn'⟩

theorem appendEvent_lodged (h : Lodged s) (hx : d.appendEvent s e = .ok s') : Lodged s' := by
  simp only [DB.appendEvent, bind_ok_iff, expect_ok, Except.ok.injEq] at hx
  obtain ⟨events, hi, order, horder, rfl⟩ := hx
  obtain ⟨hkind, rfl⟩ | ⟨hkind, hd⟩ := orderDelivery_cases horder
  · refine h.shrink rfl (fun r hr hk => ?_) fun q hq hst => ⟨q, hq, hst, rfl⟩
    obtain hr | rfl := (Table.mem_insert hi).mp hr
    · exact ⟨r, hr, hk, rfl⟩
    · exact absurd hk hkind
  · refine h.deliver hd True False (fun hx => hx.2) (fun r hr hk => ?_) fun q hq _ => .inl hq
    exact ((Table.mem_insert hi).mp hr).imp_right fun heq => by rw [heq]; exact ⟨trivial, rfl⟩

theorem applyEvent_lodged (h : Lodged s) (hx : d.applyEvent env s e = .ok s') : Lodged s' := by
  have hruntime : s'.runtimeEvents = s.runtimeEvents := by
    obtain ⟨core, reports, order, questions, sessions, stops, rfl⟩ := applyEvent_frame hx
    rfl
  obtain ⟨horder, hreports⟩ | ⟨r, c, hpend, -, hd⟩ := applyEvent_order hx
  · exact h.shrink horder (fun r hr hk => ⟨r, hruntime ▸ hr, hk, rfl⟩)
      fun q hq hst => ⟨q, hreports ▸ hq, hst, rfl⟩
  · refine h.deliver hd False True (fun hx => hx.1) (fun r hr _ => .inl (hruntime ▸ hr))
      fun q hq _ => ?_
    obtain hsame | ⟨r', -, hpend', hrows⟩ := applyEvent_reports hx
    · exact .inl (hsame ▸ hq)
    · obtain rfl : r' = r := Option.some.inj (hpend'.symm.trans hpend)
      rw [Table.mem_def, hrows] at hq
      obtain ⟨q, hqm, rfl⟩ := List.mem_map.mp hq
      split
      · exact .inr ⟨trivial, rfl⟩
      · exact .inl hqm

theorem appendReport_lodged {c : ReportCapability} {spec : ReportEventSpec} {kind : ReportKind}
    {hash : String} (h : Lodged s) (hx : d.appendReport s c spec kind hash e = .ok s') :
    Lodged s' := by
  obtain ⟨hrows, -⟩ := appendReport_rows hx
  have hreport : ∀ q ∈ s'.reportEvents, q ∈ s.reportEvents ∨ q = d.reportRow spec kind hash e := by
    intro q hq
    rwa [Table.mem_def, hrows, List.mem_append, List.mem_singleton] at hq
  simp only [DB.appendReport, bind_ok_iff, require_ok, expect_ok, exists_const,
    Except.ok.injEq] at hx
  obtain ⟨-, events, -, order, horder, rfl⟩ := hx
  obtain ⟨hwaits, rfl⟩ | ⟨-, hd⟩ := orderDelivery_cases horder
  · refine h.shrink rfl (fun r hr hk => ⟨r, hr, hk, rfl⟩) fun q hq hst => ?_
    obtain hq | rfl := hreport q hq
    · exact ⟨q, hq, hst, rfl⟩
    · exact absurd (not_not.mp hwaits) hst
  · refine h.deliver hd False True (fun hx => hx.1) (fun r hr _ => .inl hr) fun q hq _ => ?_
    exact (hreport q hq).imp_right fun heq => by rw [heq]; exact ⟨trivial, rfl⟩

theorem Lodged.keep (h : Lodged s) (horder : s'.deliveryOrder = s.deliveryOrder)
    (hruntime : s'.runtimeEvents = s.runtimeEvents) (hreports : s'.reportEvents = s.reportEvents) :
    Lodged s' :=
  h.shrink horder (fun r hr hk => ⟨r, hruntime ▸ hr, hk, rfl⟩)
    fun q hq hst => ⟨q, hreports ▸ hq, hst, rfl⟩

theorem Lodged.exec (h : Lodged s) (hx : d.exec s op = .ok s') : Lodged s' := by
  have hw := exec_writes hx
  cases hw with
  | ack he hrep =>
    refine h.shrink rfl (fun r' hr' hk => ?_) fun q' hq' hst => ?_
    · obtain ⟨r, hr, -, heq⟩ := mem_of_map_eq he hr'
      have hbody : r'.body = r.body := (congrArg RuntimeEvent.body heq :)
      exact ⟨r, hr, hbody ▸ hk, (congrArg RuntimeEvent.eventId heq :).symm⟩
    · obtain ⟨q, hq, -, heq⟩ := mem_of_map_eq hrep hq'
      exact ⟨q, hq, fun hx => hst ((unacked_pendingSession heq).mpr hx),
        (congrArg ReportEvent.eventId heq :).symm⟩
  | claim hc =>
    obtain ⟨c₁, c₂, caps, -, -, -, rfl, -⟩ := launch_cases hc.launched
    exact h.keep rfl rfl rfl
  | report _ _ _ _ _ h₁ h₂ =>
    have hs₁ := appendReport_lodged h h₁
    obtain ⟨core, questions, stops, rfl⟩ := askReported_frame h₂
    exact hs₁.keep rfl rfl rfl
  | event _ _ _ _ _ h₁ h₂ => exact applyEvent_lodged (appendEvent_lodged h h₁) h₂
  | _ => exact h.keep rfl rfl rfl

theorem lodged_of_reachable (h : d.Reachable limits s) : Lodged s :=
  reachable_induct (P := fun s : State => Lodged s) (.fresh limits)
    (fun _ _ _ hs hx => hs.exec hx) h

end Lodged

/-! ## Questions -/

/-- The event is one of the log, or carries the revision of a capability. -/
def State.Poses (s : State) (e : Event) : Prop :=
  (∃ r ∈ s.runtimeEvents, r.body = e) ∨
    ∃ c ∈ s.reportCapabilities, e.taskId = c.taskId ∧ e.workRevision = c.workRevision

/-- The question is new: an event with an id and a revision for it asks it. -/
def Question.PosedIn (q : Question) (s : State) : Prop :=
  ∃ e, q = openQuestion e ∧ e.questionId ≠ "" ∧ 1 ≤ e.questionRevision ∧ s.Poses e

/-- A question has an id and a revision, and is about the work its event is about. -/
structure Posed (s : State) (q : Question) : Prop where
  named : q.questionId ≠ "" ∧ 1 ≤ q.questionRevision
  revision : (∃ t ∈ s.tasks, t.id = q.taskId ∧ t.workRevision = q.workRevision) ∨
    ∃ r ∈ s.runtimeEvents, r.body.taskId = q.taskId ∧ r.body.workRevision = q.workRevision

section Questions
variable {d : DB} {env : Env} {limits : ConcurrencyLimits} {s s₀ s₁ s' : State} {op : Op}
  {e : Event} {q q' : Question}

theorem applyQuestion_poses (hposes : s₀.Poses e) (h : applyQuestion s e = .ok s')
    (hq' : q' ∈ s'.questions) : q' ∈ s.questions ∨ q'.PosedIn s₀ := by
  simp only [applyQuestion, bind_ok_iff, require_ok, expect_ok, exists_const] at h
  obtain ⟨⟨hid, hrev, -⟩, g, -, h⟩ := h
  split at h
  · cases h
    exact .inl hq'
  · simp only [bind_ok_iff, require_ok, expect_ok, exists_const, Except.ok.injEq] at h
    obtain ⟨-, questions, hi, -, rfl⟩ := h
    obtain hq | rfl := (Table.mem_insert hi).mp hq'
    · exact .inl hq
    · exact .inr ⟨e, rfl, hid, hrev, hposes⟩

theorem ask_poses (hposes : s₀.Poses e) (h₁ : applyQuestion s e = .ok s₁)
    (h₂ : ensureQuestionStop env s₁ e = .ok s') (hq' : q' ∈ s'.questions) :
    q' ∈ s.questions ∨ q'.PosedIn s₀ := by
  rw [(ensureQuestionStop_unasked h₂).questions] at hq'
  exact applyQuestion_poses hposes h₁ hq'

/-- Stored reports carry the task and the revision of their capability. -/
def State.Carried (s : State) : Prop :=
  ∀ r ∈ s.reportEvents, ∃ c ∈ s.reportCapabilities,
    r.body.taskId = c.taskId ∧ r.body.workRevision = c.workRevision

theorem carried_of (hb : Bound s) (hr : Revised s) : s.Carried := by
  intro r hm
  obtain ⟨c, hc, hid, -, htask, -⟩ := hb.reports r hm
  obtain ⟨c', hc', hid', hrev⟩ := hr.reports r hm
  obtain rfl : c' = c := Table.eq_of_key hc' hc (hid'.trans hid.symm)
  exact ⟨c', hc, htask, hrev⟩

theorem materialize_poses {segmentId sessionKind sessionId : String} (hc : s.Carried)
    (h : materializePendingReportQuestion env s segmentId sessionKind sessionId = .ok s')
    (hq' : q' ∈ s'.questions) : q' ∈ s.questions ∨ q'.PosedIn s := by
  obtain ⟨-, rfl⟩ | ⟨r, capability, order, s₁, hpend, -, -, -, h₁, h₂⟩ :=
    materialize_cases h
  · exact .inl hq'
  · have hm : r ∈ s.reportEvents := (List.mem_filter.mp (List.argmin_mem hpend)).1
    have hposes : s.Poses { r.body with sessionKind := sessionKind, sessionId := sessionId } :=
      .inr (hc r hm)
    exact ask_poses (s := { s with reportEvents := _, deliveryOrder := order }) hposes h₁ h₂ hq'

theorem applySession_poses (hc : s.Carried) (h : applySession env s e = .ok s')
    (hq' : q' ∈ s'.questions) : q' ∈ s.questions ∨ q'.PosedIn s := by
  obtain rfl | ⟨row, sessions, -, -, h⟩ := applySession_cases h
  · exact .inl hq'
  · exact materialize_poses (s := { s with sessions := sessions }) hc h hq'

theorem resolveRounds_static (hq' : q' ∈ resolveRounds s.questions e) :
    ∃ q ∈ s.questions, q'.static = q.static := by
  obtain ⟨q, hq, rfl⟩ := (Table.mem_update (h := by intro _; rfl)).mp hq'
  refine ⟨q, hq, ?_⟩
  unfold Table.patch
  split <;> rfl

theorem applyEvent_poses (hc : s.Carried) (hposes : s.Poses e)
    (h : d.applyEvent env s e = .ok s') (hq' : q' ∈ s'.questions) :
    (∃ q ∈ s.questions, q'.static = q.static) ∨ q'.PosedIn s := by
  unfold DB.applyEvent at h
  split at h
  case h_4 => exact (applySession_poses hc h hq').imp_left fun hq => ⟨q', hq, rfl⟩
  case h_5 => exact (applyQuestion_poses hposes h hq').imp_left fun hq => ⟨q', hq, rfl⟩
  case h_10 =>
    obtain ⟨g, -, ⟨-, rfl⟩ | ⟨-, t, core, -, -, rfl⟩⟩ := applyExit_cases h
    · exact .inl ⟨q', hq', rfl⟩
    · exact .inl (resolveRounds_static hq')
  case h_11 => cases h
  all_goals
    cases h
    exact .inl ⟨q', hq', rfl⟩

/-- A question was there before, or is posed by an event of the log or under a capability. -/
theorem exec_poses (hb : Bound s) (hr : Revised s) (hx : d.exec s op = .ok s')
    (hq' : q' ∈ s'.questions) :
    (∃ q ∈ s.questions, q'.static = q.static) ∨ ∃ s₀ : State, q'.PosedIn s₀ ∧
      s₀.runtimeEvents = s'.runtimeEvents ∧ s₀.reportCapabilities = s.reportCapabilities := by
  have hcarried : s.Carried := carried_of hb hr
  have hw := exec_writes hx
  cases hw with
  | claim hc =>
    obtain ⟨c₁, c₂, caps, -, -, -, rfl, -⟩ := launch_cases hc.launched
    obtain ⟨hq, -⟩ | ⟨q, hq, -, rfl⟩ := mem_startResume hq'
    · exact .inl ⟨q', hq, rfl⟩
    · exact .inl ⟨q, hq, rfl⟩
  | answer =>
    obtain ⟨q, hq, rfl⟩ := (Table.mem_update (h := by intro _; rfl)).mp hq'
    refine .inl ⟨q, hq, ?_⟩
    unfold Table.patch
    split <;> rfl
  | @report env _ spec c kind payload hash e₀ s₁ _ hc hid hkind hdec hopen h₁ h₂ =>
    obtain ⟨row, events, order, usage, -, -, -, rfl⟩ := appendReport_frame h₁
    have hposes : s.Poses (reportEvent c spec kind hash (s.sessions.find? c.segmentId) e₀) :=
      .inr ⟨c, hc, rfl, rfl⟩
    unfold askReported at h₂
    split at h₂
    · obtain ⟨s₂, hask, hstop⟩ := bind_ok_iff.mp h₂
      obtain hq | hq := ask_poses (s := { s with
        reportEvents := events, storageUsage := usage, deliveryOrder := order,
        reportCapabilities := _ }) hposes hask hstop hq'
      · exact .inl ⟨q', hq, rfl⟩
      · obtain ⟨core, questions, rfl⟩ := applyQuestion_frame hask
        obtain ⟨core', stops, rfl⟩ := ensureQuestionStop_frame hstop
        exact .inr ⟨s, hq, rfl, rfl⟩
    · cases h₂
      exact .inl ⟨q', hq', rfl⟩
  | @event env e g s₁ _ hwf hnext hg hid hbound h₁ h₂ =>
    have hrows := appendEvent_rows h₁
    have hm : d.runtimeEventRow e ∈ s₁.runtimeEvents := by
      rw [Table.mem_def, hrows]
      exact List.mem_append_right _ List.mem_cons_self
    obtain ⟨events, order, usage, rfl⟩ := appendEvent_frame h₁
    have hposes := (.inl ⟨_, hm, rfl⟩ : State.Poses { s with
      runtimeEvents := events, deliveryOrder := order, storageUsage := usage } e)
    obtain hq | hq := applyEvent_poses (s := { s with
      runtimeEvents := events, deliveryOrder := order, storageUsage := usage })
      hcarried hposes h₂ hq'
    · exact .inl hq
    · obtain ⟨core, reports, order', questions, sessions, stops, rfl⟩ := applyEvent_frame h₂
      exact .inr ⟨_, hq, rfl, rfl⟩
  | _ => exact .inl ⟨q', hq', rfl⟩

theorem Posed.of_static (h : Posed s q) (hst : q'.static = q.static) : Posed s q' := by
  have hid : q'.questionId = q.questionId := (congrArg Question.questionId hst :)
  have hrev : q'.questionRevision = q.questionRevision :=
    (congrArg Question.questionRevision hst :)
  have htask : q'.taskId = q.taskId := (congrArg Question.taskId hst :)
  have hwork : q'.workRevision = q.workRevision := (congrArg Question.workRevision hst :)
  refine ⟨?_, ?_⟩
  · rw [hid, hrev]
    exact h.named
  · rw [htask, hwork]
    exact h.revision

theorem Posed.exec (h : ∀ q ∈ s.questions, Posed s q) (hb : Bound s) (hr : Revised s)
    (hx : d.exec s op = .ok s') : ∀ q' ∈ s'.questions, Posed s' q' := by
  have hgrows := (exec_effect hb hx).step.grows
  have hw := exec_writes hx
  have htask : ∀ {id : String} {rev : Int}, (∃ t ∈ s.tasks, t.id = id ∧ t.workRevision = rev) →
      ∃ t ∈ s'.tasks, t.id = id ∧ t.workRevision = rev := by
    rintro _ _ ⟨t, ht, rfl, rfl⟩
    obtain ⟨t', ht', hst⟩ := hgrows.task ht
    exact ⟨t', ht', Task.static_id hst, (congrArg Task.workRevision hst :)⟩
  intro q' hq'
  obtain ⟨q, hq, hst⟩ | ⟨s₀, ⟨e, rfl, hid, hrev, hposes⟩, hlog, hcaps⟩ := exec_poses hb hr hx hq'
  · obtain ⟨hnamed, hrevision⟩ := h q hq
    refine Posed.of_static ⟨hnamed, hrevision.imp htask fun ⟨r, hrm, hrt, hrr⟩ => ?_⟩ hst
    obtain ⟨r', hr', heq⟩ := hw.keeps_event hrm
    have hbody : r'.body = r.body := (congrArg RuntimeEvent.body heq :)
    exact ⟨r', hr', hbody ▸ hrt, hbody ▸ hrr⟩
  · refine ⟨⟨hid, hrev⟩, ?_⟩
    obtain ⟨r, hrm, hbody⟩ | ⟨c, hc, hct, hcr⟩ := hposes
    · exact .inr ⟨r, hlog ▸ hrm, congrArg Event.taskId hbody, congrArg Event.workRevision hbody⟩
    · obtain ⟨t, ht, htid, htr⟩ := hr.capabilities c (hcaps ▸ hc)
      exact .inl (htask ⟨t, ht, htid.trans hct.symm, htr.trans hcr.symm⟩)

theorem posed_of_reachable (h : d.Reachable limits s) : ∀ q ∈ s.questions, Posed s q := by
  have hall : d.Reachable limits s ∧ ∀ q ∈ s.questions, Posed s q := by
    refine reachable_induct
      (P := fun s : State => d.Reachable limits s ∧ ∀ q ∈ s.questions, Posed s q)
      ⟨reachable_fresh d limits, fun _ hm => absurd hm (Table.not_mem_empty _)⟩ ?_ h
    intro s op s' ⟨hr, hs⟩ hx
    exact ⟨step_of_exec hx ▸ reachable_step op hr,
      Posed.exec hs (bound_of_reachable hr) (revised_of_reachable hr) hx⟩
  exact hall.2

end Questions

/-! ## Tasks -/

section Tasks
variable {d : DB} {limits : ConcurrencyLimits} {s : State} {t : Task}

theorem validateTasks_named {runId : String} {before tasks : List TaskSpec}
    (h : d.validateTasks runId before tasks = .ok ()) : ∀ spec ∈ tasks, spec.id ≠ "" := by
  induction tasks generalizing before with
  | nil => exact fun _ hm => (nomatch hm)
  | cons task tasks ih =>
    simp only [DB.validateTasks, DB.validateTask, bind_ok_iff, require_ok, exists_const] at h
    obtain ⟨⟨⟨hid, -⟩, -⟩, hrest⟩ := h
    intro spec hspec
    obtain rfl | hspec := List.mem_cons.mp hspec
    · exact hid
    · exact ih hrest spec hspec

/-- An admitted task has an id and a work revision. -/
theorem task_proper (h : d.Reachable limits s) (ht : t ∈ s.tasks) :
    t.id ≠ "" ∧ 1 ≤ t.workRevision := by
  have hall : ∀ t ∈ s.toCore.tasks, t.id ≠ "" ∧ 1 ≤ t.workRevision := by
    refine core_invariant (I := fun c => ∀ t ∈ c.tasks, t.id ≠ "" ∧ 1 ≤ t.workRevision)
      (fun _ hm => absurd hm (Table.not_mem_empty _)) ?_ h
    intro op x c c' hs hstep t' ht'
    cases hstep with
    | submit hsub =>
      obtain ⟨p, launchId, stamp, hvalid, -, hfold⟩ := hsub.admitted
      simp only [DB.validatePlan, bind_ok_iff, require_ok, exists_const] at hvalid
      obtain ⟨-, -, _, htasks, -⟩ := hvalid
      obtain ⟨new, hrows, hnew, -⟩ := (insertTasks_inserted hfold).rows
      rw [Table.mem_def, hrows, List.mem_append] at ht'
      obtain ht' | ht' := ht'
      · exact hs t' ht'
      · obtain ⟨spec, hspec, hrow⟩ := forall₂_right hnew ht'
        have hid := validateTasks_named htasks spec hspec
        obtain ⟨-, n, -, -, rfl⟩ | ⟨-, rfl⟩ := hrow <;>
        · refine ⟨hid, ?_⟩
          simp only [DB.taskRow]
          split <;> omega
    | move hm =>
      obtain ⟨t, ht, hst⟩ := hm.kept.task_of ht'
      have hrev : t.workRevision = t'.workRevision := (congrArg Task.workRevision hst :)
      rw [← Task.static_id hst, ← hrev]
      exact hs t ht
  exact hall t ht

end Tasks
end Orchestrator.Store
