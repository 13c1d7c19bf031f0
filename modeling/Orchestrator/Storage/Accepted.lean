import Orchestrator.Storage.Tallied
import Orchestrator.Invariants.Roster
import Orchestrator.Events.Ordered

/-!
# What an accepted commit has passed

`Recorded` and `Filed` list the checks a new Host event and a new report have
passed, storage admission among them, and the rows they wrote. Every other
operation leaves the counters and what they count alone.
-/
namespace Orchestrator.Store
open Library

/-- A Host event its producer had not committed before. -/
structure Recorded (d : DB) (env : Env) (s : State) (e : Event) (s' : State) : Prop where
  next : e.sequence = s.lastSequence e.producerId + 1
  admitted : d.storageAdmission s env.disk e.runId (d.runtimeStoredBytes e) false = .ok ()
  stored : 0 ≤ d.runtimeStoredBytes e
  segment : ∃ g ∈ s.segments, g.id = e.segmentId ∧ boundTo e g
  applied : ∃ s₁, d.appendEvent s e = .ok s₁ ∧ d.applyEvent env s₁ e = .ok s'

/-- Bytes beyond those stored that the report may take of its capability. -/
def DB.capabilityAdmits (d : DB) (s : State) (c : ReportCapability) (kind : ReportKind)
    (bytes : Int) : Prop :=
  ¬ (exceeds bytes c.usedBytes d.reportControlLimit ∨ (kind = .progress ∧
    exceeds bytes (usedBytes s (.capability c.capabilityId)).2 d.reportProgressLimit))

/-- A report its capability had not committed before. -/
structure Filed (d : DB) (env : Env) (s : State) (c : ReportCapability) (spec : ReportEventSpec)
    (kind : ReportKind) (payloadHash : String) (e : Event) (s' : State) : Prop where
  capability : c ∈ s.reportCapabilities
  named : c.capabilityId = spec.capabilityId
  kinds : parseReportKind spec.kind = some kind
  task : e.taskId = c.taskId
  admitted : d.storageAdmission s env.disk c.runId (d.accountedBytes kind e) (kind = .progress) =
    .ok ()
  within : d.capabilityAdmits s c kind (d.accountedBytes kind e)
  accounted : 0 ≤ d.accountedBytes kind e
  applied : ∃ s₁, d.appendReport s c spec kind payloadHash e = .ok s₁ ∧
    askReported env s₁ kind e = .ok s'

section Commits
variable {d : DB} {env : Env} {s s' : State} {e : Event}

/-- What admission asks for is what is charged. -/
theorem incomingBytes_ok {n : Int} (h : d.incomingBytes e = .ok n) :
    n = d.runtimeStoredBytes e ∧ 0 ≤ n := by
  unfold DB.incomingBytes at h
  unfold DB.runtimeStoredBytes
  split at h
  · rename_i a ha
    split at h
    · rename_i hk
      cases h
      simp [hk]
    · rename_i hk
      simp only [bind_ok_iff, require_ok, exists_const, Except.ok.injEq] at h
      obtain ⟨⟨h0, -⟩, rfl⟩ := h
      simp only [hk, if_false, ha, Option.map_some, Option.getD_some, true_and]
      omega
  · rename_i ha
    cases h
    simp [ha]

theorem commitHostEvent_recorded {ack : DurableAck}
    (h : d.commitHostEvent env s e = .ok (s', ack)) : s' = s ∨ Recorded d env s e s' := by
  simp only [DB.commitHostEvent, bind_ok_iff, require_ok, expect_ok, exists_const] at h
  obtain ⟨-, host, -, -, h⟩ := h
  split at h
  · simp only [bind_ok_iff, require_ok, exists_const, Except.ok.injEq, Prod.mk.injEq] at h
    exact .inl h.2.1.symm
  · simp only [DB.commitNew, bind_ok_iff, require_ok, expect_ok, exists_const, Except.ok.injEq,
      Prod.mk.injEq] at h
    obtain ⟨hnext, incoming, hin, u, hadm, g, hg, hbound, s₁, h₁, s₂, h₂, rfl, -⟩ := h
    obtain ⟨rfl, h0⟩ := incomingBytes_ok hin
    obtain ⟨hm, hid⟩ := Table.find?_eq_some.mp hg
    exact .inr ⟨hnext, hadm, h0, ⟨g, hm, hid, hbound⟩, s₁, h₁, h₂⟩

/-- A decoded payload has no artifact of negative size. -/
theorem decodeReportPayload_size {p : Platform} {kind : ReportKind} {raw : String}
    (h : p.decodeReportPayload kind raw = .ok e) : 0 ≤ (e.artifact.map (·.size)).getD 0 := by
  unfold Platform.decodeReportPayload at h
  split at h
  · simp only [bind_ok_iff, expect_ok, require_ok, exists_const, Except.ok.injEq] at h
    obtain ⟨value, -, -, rfl⟩ := h
    exact le_refl _
  · simp only [bind_ok_iff, expect_ok, require_ok, exists_const, Except.ok.injEq] at h
    obtain ⟨value, -, ⟨-, -, -, hsize⟩, rfl⟩ := h
    exact hsize

theorem commitReportEvent_filed {probe : ArtifactProbe} {spec : ReportEventSpec}
    {ack : DurableAck} (h : d.commitReportEvent env probe s spec = .ok (s', ack)) :
    s' = s ∨ ∃ c kind payloadHash e, Filed d env s c spec kind payloadHash e s' := by
  simp only [DB.commitReportEvent, bind_ok_iff, require_ok, expect_ok, exists_const] at h
  obtain ⟨-, kind, hkind, c, hc, host, -, -, payload, -, h⟩ := h
  obtain ⟨hcm, hcid⟩ := Table.find?_eq_some.mp hc
  split at h
  · simp only [DB.repeatReport, bind_ok_iff, require_ok, exists_const, Except.ok.injEq,
      Prod.mk.injEq] at h
    obtain ⟨-, _, -, -, rfl, -⟩ := h
    exact .inl rfl
  · simp only [DB.commitNewReport, bind_ok_iff, require_ok, exists_const, Except.ok.injEq,
      Prod.mk.injEq] at h
    obtain ⟨-, e₀, hvalid, u, hadm, hwithin, -, s₁, h₁, s₂, h₂, rfl, -⟩ := h
    have hsize := decodeReportPayload_size (validateReportPayload_decoded hvalid)
    refine .inr ⟨c, kind, _, _, hcm, hcid, hkind, rfl, hadm, hwithin, ?_, s₁, h₁, h₂⟩
    unfold DB.accountedBytes
    change 0 ≤ (d.encodedLen _ : Int) + (e₀.artifact.map (·.size)).getD 0 + _
    split <;> omega

end Commits

/-! ## What operations leave of the rows counted -/

/-- What the counters read of an event. -/
def RuntimeEvent.stored (r : RuntimeEvent) : String × Event := (r.taskId, r.body)

/-- What the counters read of a report. -/
def ReportEvent.account (r : ReportEvent) : String × ReportKind × Int :=
  (r.capabilityId, r.kind, r.accountedBytes)

section Operations
variable {d : DB} {env : Env} {s s' : State} {op : Op} {e : Event}

/-- An operation that commits nothing leaves the counters and what they count. -/
theorem Writes.uncounted (h : Writes d s op s') (hop : op.commits = false) :
    s'.storageUsage = s.storageUsage ∧
      s'.runtimeEvents.rows.map RuntimeEvent.stored =
        s.runtimeEvents.rows.map RuntimeEvent.stored ∧
      s'.reportEvents.rows.map ReportEvent.account =
        s.reportEvents.rows.map ReportEvent.account := by
  cases h with
  | claim h =>
    obtain ⟨c₁, c₂, caps, -, -, -, rfl, -⟩ := launch_cases h.launched
    exact ⟨rfl, rfl, rfl⟩
  | ack he hr =>
    have hstored := congrArg (List.map RuntimeEvent.stored) he
    have haccount := congrArg (List.map ReportEvent.account) hr
    simp only [List.map_map] at hstored haccount
    exact ⟨rfl, hstored, haccount⟩
  | report => cases hop
  | event => cases hop
  | _ => exact ⟨rfl, rfl, rfl⟩

/-- Applying an event rewrites a report, if any, in what is not counted. -/
theorem applyEvent_uncounted (h : d.applyEvent env s e = .ok s') :
    s'.storageUsage = s.storageUsage ∧ s'.runtimeEvents = s.runtimeEvents ∧
      s'.reportCapabilities = s.reportCapabilities ∧
      s'.reportEvents.rows.map ReportEvent.account =
        s.reportEvents.rows.map ReportEvent.account := by
  have hreports : s'.reportEvents.rows.map ReportEvent.account =
      s.reportEvents.rows.map ReportEvent.account := by
    obtain hsame | ⟨r, -, -, hrows⟩ := applyEvent_reports h
    · rw [hsame]
    · rw [hrows, List.map_map]
      refine List.map_congr_left fun q _ => ?_
      simp only [Function.comp_apply]
      split
      · rename_i hq
        rw [hq]
        rfl
      · rfl
  obtain ⟨core, reports, order, questions, sessions, stops, rfl⟩ := applyEvent_frame h
  exact ⟨rfl, rfl, rfl, hreports⟩

end Operations
end Orchestrator.Store
