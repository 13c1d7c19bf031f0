import Orchestrator.Invariants.Slots
import Orchestrator.Events.Next

/-!
# A stop request racing with the Host's events

`RequestStop` decides the outcome of the active segment. An event the Host sent
before it learns of the stop is still accepted, unless it asks a question: the
question finds an outcome it did not set and is refused, and with it everything
the Host sends afterwards.
-/
namespace Orchestrator.Store
open Library

/-- A stop request for the task of the active segment `g` that is not refused
and does not repeat an earlier one. -/
def State.TakesStop (s : State) (env : Env) (g : Segment) (workRevision : Int) (reason : String) :
    Prop :=
  g.taskId ≠ "" ∧ 1 ≤ workRevision ∧ reason ≠ "" ∧
    (∃ t ∈ s.tasks, t.id = g.taskId ∧ t.workRevision = workRevision) ∧
    s.stops.Unused StopRow.segmentId g.id ∧
    s.stops.Unused StopRow.commandId (env.newId "stop")

/-- The event asks a question: its own, or one a report left waiting for the session. -/
def State.Asks (s : State) (e : Event) : Prop :=
  e.kind = .question ∨ (e.kind = .session ∧ (s.pendingReportQuestion e.segmentId).isSome = true)

/-! ## What the stop does -/

section Stop
variable {d : DB} {env : Env} {s : State} {g : Segment} {workRevision : Int} {reason : String}

theorem activeSegment_eq (h : Slots d.toPlatform s.toCore) (hg : g ∈ s.segments)
    (ha : g.active = true) : s.activeSegment g.taskId = some g := by
  cases hk : s.activeSegment g.taskId with
  | none =>
    have hnil := List.argmax_eq_none.mp hk
    have : g ∈ s.segments.rows.filter (fun k => k.taskId = g.taskId && k.active) := by
      rw [List.mem_filter]
      exact ⟨hg, by simp [ha]⟩
    rw [hnil] at this
    cases this
  | some k =>
    obtain ⟨hkm, hkt, hka⟩ := mem_of_activeSegment hk
    rw [h.eq_of_active hg hkm ha hka hkt.symm]

theorem requestStop_active (h : Slots d.toPlatform s.toCore) (hg : g ∈ s.segments)
    (ha : g.active = true) (env : Env) (workRevision : Int) (reason : String) :
    (s.TakesStop env g workRevision reason ∧ ∃ stops,
        d.step s (.requestStop env g.taskId workRevision reason) =
          { s with toCore := s.toCore.stopSegment g.id g.taskId, stops := stops }) ∨
      (¬ s.TakesStop env g workRevision reason ∧
        d.step s (.requestStop env g.taskId workRevision reason) = s) := by
  have hactive := activeSegment_eq h hg ha
  cases hx : d.exec s (.requestStop env g.taskId workRevision reason) with
  | ok s' =>
    rw [step_of_exec hx]
    obtain ⟨r, hr⟩ := committed_ok.mp hx
    obtain ⟨t, ht, hid, hrev, hreason,
      ⟨hc, -⟩ | ⟨-, k, hk, ⟨hstop, rfl⟩ | ⟨hstop, stops, hi, rfl⟩⟩⟩ :=
      requestStop_cases hr
    · have := h.busy g hg ha t ht hid
      cases hst : t.status <;> simp_all [TaskStatus.busy, TaskStatus.cancellable]
    · refine .inr ⟨fun htake => ?_, rfl⟩
      rw [hactive, Option.some.injEq] at hk
      subst hk
      obtain ⟨stop, hsome⟩ := Option.isSome_iff_exists.mp hstop
      obtain ⟨hm, hseg⟩ := Table.find?_eq_some.mp hsome
      exact htake.2.2.2.2.1 stop hm hseg
    · rw [hactive, Option.some.injEq] at hk
      subst hk
      simp only [requestStop, bind_ok_iff, require_ok, exists_const] at hr
      simp only [State.insertStop, Option.ite_none_right_eq_some] at hi
      exact .inl ⟨⟨hr.1.1, hr.1.2.1, hreason, ⟨t, ht, hid, hrev⟩, Table.find?_eq_none.mp hstop,
        hi.1⟩, stops, rfl⟩
  | error err =>
    rw [step_of_error hx]
    refine .inr ⟨fun htake => ?_, rfl⟩
    obtain ⟨h1, h2, h3, ⟨t, ht, hid, hrev⟩, hseg, hcmd⟩ := htake
    have hcanc : ¬ t.status.cancellable = true := fun hc => by
      have := h.busy g hg ha t ht hid
      cases hst : t.status <;> simp_all [TaskStatus.busy, TaskStatus.cancellable]
    obtain ⟨stops, hi, -⟩ := Table.insert?_isSome (t := s.stops) (a := (⟨env.newId "stop", g.hostId,
      g.id, reason, env.now.stopDeadline, .pending, env.now.stamp⟩ : StopRow)) hseg
    have hexec : ∃ s', d.exec s (.requestStop env g.taskId workRevision reason) = .ok s' := by
      refine ⟨{ s with toCore := s.toCore.stopSegment g.id g.taskId, stops := stops },
        committed_ok.mpr ⟨⟨g.hostId, ⟨env.newId "stop", g.id, reason, env.now.stopDeadline⟩⟩, ?_⟩⟩
      simp only [requestStop, require_pos (⟨h1, h2, h3⟩ : _ ∧ _ ∧ _),
        Table.find?_eq_some.mpr ⟨ht, hid⟩, expect_some, ok_bind, require_pos hrev, if_neg hcanc,
        hactive, Table.find?_eq_none.mpr hseg, State.insertStop, if_pos hcmd, hi]
    obtain ⟨s', hs'⟩ := hexec
    rw [hs'] at hx
    cases hx

end Stop

/-! ## Which events it turns away -/

section Events
variable {d : DB} {env : Env} {s s' : State} {e : Event} {g : Segment}

/-- A question is refused by a segment whose outcome is decided. -/
theorem applyQuestion_decided (hg : s.segments.find? e.segmentId = some g)
    (hx : g.status ≠ .exited) (ho : g.outcome ≠ .none) : applyQuestion s e ≠ .ok s' := by
  intro h
  simp only [applyQuestion, State.segment?, hg, bind_ok_iff, require_ok, expect_ok, exists_const,
    Option.some.injEq, exists_eq_left', if_neg hx] at h
  obtain ⟨-, -, questions, -, hno, -⟩ := h
  exact ho hno

theorem materialize_decided {segmentId kind id : String}
    (hg : s.segments.find? segmentId = some g) (hx : g.status ≠ .exited) (ho : g.outcome ≠ .none)
    (hp : (s.pendingReportQuestion segmentId).isSome = true) :
    materializePendingReportQuestion env s segmentId kind id ≠ .ok s' := by
  intro h
  obtain ⟨r, hr⟩ := Option.isSome_iff_exists.mp hp
  simp only [materializePendingReportQuestion, hr, bind_ok_iff, require_ok, expect_ok,
    exists_const] at h
  obtain ⟨c, -, ⟨-, hseg⟩, order, -, s₁, h₁, -⟩ := h
  refine applyQuestion_decided (s := { s with reportEvents := _, deliveryOrder := order })
    ?_ hx ho h₁
  change s.segments.find? r.body.segmentId = some g
  rw [hseg]
  exact hg

/-- Two states between which only the segment of the event and the status of its
task have changed, the segment to a decided outcome. -/
structure Decided (e : Event) (s t : State) : Prop where
  before : ∃ g, s.segments.find? e.segmentId = some g ∧ g.status ≠ .exited
  after : ∃ g, t.segments.find? e.segmentId = some g ∧ g.status ≠ .exited ∧ g.outcome = .stopped
  tasks : ∀ id, (s.tasks.find? id).isSome = true → (t.tasks.find? id).isSome = true
  sessions : t.sessions = s.sessions
  reports : t.reportEvents = s.reportEvents
  capabilities : t.reportCapabilities = s.reportCapabilities

theorem Decided.pending {t : State} (h : Decided e s t) (id : String) :
    t.pendingReportQuestion id = s.pendingReportQuestion id := by
  unfold State.pendingReportQuestion
  rw [h.reports, h.capabilities]

theorem Decided.applySession {t : State} (h : Decided e s t)
    (hs : Store.applySession env s e = .ok s') :
    (∃ t', Store.applySession env t e = .ok t') ↔
      ¬ (s.pendingReportQuestion e.segmentId).isSome = true := by
  obtain ⟨k, hk, hkx⟩ := h.before
  obtain ⟨g, hg, hgx, hgo⟩ := h.after
  have hdec : g.outcome ≠ .none := by rw [hgo]; simp
  simp only [Store.applySession, State.segment?, hk, bind_ok_iff, require_ok, expect_ok,
    exists_const, Option.some.injEq, exists_eq_left', if_neg hkx] at hs
  simp only [Store.applySession, State.segment?, hg, bind_ok_iff, require_ok, expect_ok,
    exists_const, Option.some.injEq, exists_eq_left', if_neg hgx, h.sessions]
  obtain ⟨hwf, hs⟩ := hs
  constructor
  · rintro ⟨t', -, ht⟩ hpend
    split at ht
    · simp only [bind_ok_iff, require_ok, exists_const] at ht
      exact materialize_decided hg hgx hdec (h.pending _ ▸ hpend) ht.2
    · simp only [bind_ok_iff, require_ok, expect_ok, exists_const] at ht
      obtain ⟨-, sessions, -, ht⟩ := ht
      exact materialize_decided (s := { t with sessions := sessions }) hg hgx hdec
        ((h.pending _).symm ▸ hpend) ht
  · intro hpend
    rw [Option.not_isSome_iff_eq_none] at hpend
    have hnone := (h.pending e.segmentId).trans hpend
    split at hs
    · rename_i session _
      simp only [bind_ok_iff, require_ok, exists_const] at hs
      refine ⟨t, hwf, ?_⟩
      simp only [require_pos hs.1, ok_bind, materializePendingReportQuestion, hnone]
    · simp only [bind_ok_iff, require_ok, expect_ok, exists_const] at hs
      obtain ⟨hun, sessions, hi, -⟩ := hs
      refine ⟨{ t with sessions := sessions }, hwf, ?_⟩
      simp only [require_pos hun, hi, expect_some, ok_bind, materializePendingReportQuestion]
      have : ({ t with sessions := sessions } : State).pendingReportQuestion e.segmentId = none :=
        hnone
      rw [this]

theorem Decided.applyExit {t : State} (h : Decided e s t) (hs : d.applyExit s e = .ok s') :
    ∃ t', d.applyExit t e = .ok t' := by
  obtain ⟨k, hk, hkx⟩ := h.before
  obtain ⟨g, hg, hgx, hgo⟩ := h.after
  simp only [DB.applyExit, State.segment?, hk, bind_ok_iff, expect_ok, Option.some.injEq,
    exists_eq_left', if_neg hkx] at hs
  obtain ⟨u, hu, -⟩ := hs
  obtain ⟨v, hv⟩ := Option.isSome_iff_exists.mp (h.tasks e.taskId (by rw [hu]; rfl))
  -- a stopped segment leaves its task interrupted, which neither releases nor blocks
  simp only [DB.applyExit, State.segment?, hg, expect_some, ok_bind, if_neg hgx, hv, hgo,
    exitStatus, Core.afterExit]
  exact ⟨_, rfl⟩

theorem Decided.applyEvent {t : State} (h : Decided e s t) (hs : d.applyEvent env s e = .ok s') :
    (∃ t', d.applyEvent env t e = .ok t') ↔ ¬ s.Asks e := by
  unfold State.Asks
  unfold DB.applyEvent at hs ⊢
  split at hs <;> rename_i hk <;>
    simp only [hk, reduceCtorEq, false_and, true_and, or_false, false_or, not_true,
      not_false_eq_true, iff_true, iff_false]
  · exact ⟨_, rfl⟩
  · exact ⟨_, rfl⟩
  · exact ⟨_, rfl⟩
  · exact h.applySession hs
  · rintro ⟨t', ht⟩
    obtain ⟨g, hg, hgx, hgo⟩ := h.after
    exact applyQuestion_decided hg hgx (by rw [hgo]; simp) ht
  · exact ⟨_, rfl⟩
  · exact ⟨_, rfl⟩
  · exact ⟨_, rfl⟩
  · exact ⟨_, rfl⟩
  · exact h.applyExit hs
  · cases hs

end Events

/-- An event of the Host's next sequence that would be accepted is still accepted
after a stop request, unless the stop takes effect and the event asks a question. -/
theorem commit_after_stop_iff {d : DB} {limits : ConcurrencyLimits} {s : State}
    (hr : d.Reachable limits s) {g : Segment} (hg : g ∈ s.segments) (ha : g.active = true)
    {env env' : Env} {e : Event} (hseg : e.segmentId = g.id)
    (hnext : e.sequence = s.lastSequence e.producerId + 1)
    (hok : ∃ r, d.commitHostEvent env s e = .ok r) (workRevision : Int) (reason : String) :
    (∃ r, d.commitHostEvent env (d.step s (.requestStop env' g.taskId workRevision reason)) e =
        .ok r) ↔
      ¬ (s.TakesStop env' g workRevision reason ∧ s.Asks e) := by
  obtain ⟨htake, stops, hstep⟩ | ⟨htake, hstep⟩ :=
    requestStop_active (slots_of_reachable hr) hg ha env' workRevision reason
  · rw [hstep]
    obtain ⟨hadm, s₁, happ, s₂, hs₂⟩ := (commitHostEvent_next_iff hnext).mp hok
    obtain ⟨k, hk, hbound⟩ := hadm.bound
    have hfind : s.segments.find? e.segmentId = some g := Table.find?_eq_some.mpr ⟨hg, hseg.symm⟩
    obtain rfl : g = k := by rw [hfind, Option.some.injEq] at hk; exact hk
    have hfind' : (s.toCore.stopSegment g.id g.taskId).segments.find? e.segmentId =
        some { g with status := .stopping, outcome := .stopped } := by
      simp only [Core.stopSegment, Core.setTaskStatus_segments, Core.updateSegment,
        Core.updateSegments, Table.find?_update, hfind, Option.map_some]
      rw [Table.patch_pos (by simp)]
    have hadm' : Admissible d env { s with
        toCore := s.toCore.stopSegment g.id g.taskId, stops := stops } e :=
      ⟨hadm.wellFormed, hadm.host, hadm.next, hadm.storage, _, hfind', hbound⟩
    obtain ⟨events', order', usage', happ'⟩ := appendEvent_congr (s := s)
      (t := { s with toCore := s.toCore.stopSegment g.id g.taskId, stops := stops }) rfl rfl happ
    obtain ⟨events, order, usage, rfl⟩ := appendEvent_frame happ
    have hdec : Decided e
        { s with runtimeEvents := events, deliveryOrder := order, storageUsage := usage }
        { s with
          toCore := s.toCore.stopSegment g.id g.taskId
          stops := stops
          runtimeEvents := events'
          deliveryOrder := order'
          storageUsage := usage' } := by
      refine ⟨⟨g, hfind, Segment.active_iff.mp ha⟩, ⟨_, hfind', by simp, rfl⟩, fun id h => ?_,
        rfl, rfl, rfl⟩
      simp only [Core.stopSegment, Core.setTaskStatus_tasks, Table.find?_update, Option.isSome_map]
      exact h
    have hasks := hdec.applyEvent hs₂
    rw [commitHostEvent_next_iff (s := { s with
      toCore := s.toCore.stopSegment g.id g.taskId, stops := stops }) hnext]
    rw [show (¬ (s.TakesStop env' g workRevision reason ∧ s.Asks e)) ↔ ¬ s.Asks e by simp [htake]]
    refine Iff.trans ⟨?_, fun h => ⟨hadm', _, happ', h⟩⟩ hasks
    rintro ⟨-, t₁, h₁, t₂, h₂⟩
    rw [happ', Except.ok.injEq] at h₁
    exact ⟨t₂, h₁ ▸ h₂⟩
  · rw [hstep]
    exact iff_of_true hok fun h => htake h.1

/-- The worker of `a` runs. -/
def runningOps : List Op :=
  toyStart [toyTask "a" 2 []] ++ [toyClaim 11, toyCommit "a" 11 1 .prepared,
    toyCommit "a" 11 2 .spawned, toyCommit "a" 11 3 .running]

/-- A result sent before the stop arrived is still accepted after it. -/
theorem result_after_stop : ∃ g ∈ (toyDB.run (State.fresh {}) runningOps).segments,
    ((∃ r, toyDB.commitHostEvent (toyEnv 10) (toyDB.step (toyDB.run (State.fresh {}) runningOps)
        (.requestStop (toyEnv 12) g.taskId 1 "user")) (toyEvent "a" 11 4 .result) = .ok r) ↔
      ¬ ((toyDB.run (State.fresh {}) runningOps).TakesStop (toyEnv 12) g 1 "user" ∧
        (toyDB.run (State.fresh {}) runningOps).Asks (toyEvent "a" 11 4 .result))) := by
  have hfacts : (∃ g ∈ (toyDB.run (State.fresh {}) runningOps).segments.rows,
        (toyEvent "a" 11 4 .result).segmentId = g.id ∧ g.active = true) ∧
      (toyEvent "a" 11 4 .result).sequence =
        (toyDB.run (State.fresh {}) runningOps).lastSequence
          (toyEvent "a" 11 4 .result).producerId + 1 ∧
      (toyDB.commitHostEvent (toyEnv 10) (toyDB.run (State.fresh {}) runningOps)
        (toyEvent "a" 11 4 .result)).isOk = true := by decide +kernel
  obtain ⟨⟨g, hm, hseg, ha⟩, hnext, hok⟩ := hfacts
  have hr : toyDB.Reachable {} (toyDB.run (State.fresh {}) runningOps) := ⟨runningOps, rfl⟩
  exact ⟨g, hm, commit_after_stop_iff hr hm ha hseg hnext (exists_of_isOk hok) 1 "user"⟩

/-- A question sent before the stop arrived is refused after it. -/
theorem question_refused_after_stop :
    (toyDB.commitHostEvent (toyEnv 10) (toyDB.run (State.fresh {}) runningOps)
        (toyEvent "a" 11 4 .question)).isOk = true ∧
      (toyDB.commitHostEvent (toyEnv 10) (toyDB.step (toyDB.run (State.fresh {}) runningOps)
        (.requestStop (toyEnv 12) "a" 1 "user")) (toyEvent "a" 11 4 .question)).isOk = false := by
  decide +kernel

end Orchestrator.Store
