import Orchestrator.Invariants.Steps

/-!
# The next event of a producer

The checks an event of its producer's next sequence passes before it is applied.
-/
namespace Orchestrator.Store
open Library

section Next
variable {d : DB} {env : Env} {s s' : State} {e : Event}

/-- The checks an event of the next sequence passes before it is applied. -/
structure Admissible (d : DB) (env : Env) (s : State) (e : Event) : Prop where
  wellFormed : wellFormed e
  host : ∃ host, s.hosts.find? e.producerId = some host ∧ host.acceptsEvents e.executionEpoch
  next : e.sequence = s.lastSequence e.producerId + 1
  storage : ∃ n, d.incomingBytes e = .ok n ∧ d.storageAdmission s env.disk e.runId n false = .ok ()
  bound : ∃ g, s.segments.find? e.segmentId = some g ∧ boundTo e g

theorem mem_le_lastSequence {r : RuntimeEvent} (hr : r ∈ s.runtimeEvents.rows) :
    r.sequence ≤ s.lastSequence r.producerId := by
  have hm : r.sequence ∈ ((s.runtimeEvents.rows.filter (fun q => q.producerId = r.producerId)).map
      RuntimeEvent.sequence) :=
    List.mem_map_of_mem (List.mem_filter.mpr ⟨hr, by simp⟩)
  unfold State.lastSequence
  generalize (s.runtimeEvents.rows.filter (fun q => q.producerId = r.producerId)).map
    RuntimeEvent.sequence = sequences at hm ⊢
  induction sequences with
  | nil => cases hm
  | cons n ns ih =>
    rcases List.mem_cons.mp hm with h | h
    · rw [h]; exact le_max_left _ _
    · exact (ih h).trans (le_max_right _ _)

/-- The sequence that comes next is not in the log. -/
theorem next_unlogged (hnext : e.sequence = s.lastSequence e.producerId + 1) :
    s.runtimeEvents.rows.find?
      (fun r => r.producerId = e.producerId && r.sequence = e.sequence) = none := by
  rw [List.find?_eq_none]
  intro r hr hsel
  simp only [Bool.and_eq_true, decide_eq_true_eq] at hsel
  have := mem_le_lastSequence hr
  rw [hsel.1] at this
  omega

theorem commitHostEvent_next_iff (hnext : e.sequence = s.lastSequence e.producerId + 1) :
    (∃ r, d.commitHostEvent env s e = .ok r) ↔ Admissible d env s e ∧
      ∃ s₁, d.appendEvent s e = .ok s₁ ∧ ∃ s₂, d.applyEvent env s₁ e = .ok s₂ := by
  simp only [DB.commitHostEvent, next_unlogged hnext, DB.commitNew, bind_ok_iff, require_ok,
    expect_ok, exists_const, Except.ok.injEq, State.segment?]
  constructor
  · rintro ⟨r, hwf, host, hh, ha, hn, n, hbytes, _, hadm, g, hg, hb, s₁, h₁, s₂, h₂, -⟩
    exact ⟨⟨hwf, ⟨host, hh, ha⟩, hn, ⟨n, hbytes, hadm⟩, ⟨g, hg, hb⟩⟩, s₁, h₁, s₂, h₂⟩
  · rintro ⟨⟨hwf, ⟨host, hh, ha⟩, hn, ⟨n, hbytes, hadm⟩, ⟨g, hg, hb⟩⟩, s₁, h₁, s₂, h₂⟩
    exact ⟨_, hwf, host, hh, ha, hn, n, hbytes, (), hadm, g, hg, hb, s₁, h₁, s₂, h₂, rfl⟩

/-- An admissible event that was appended is committed as it is applied. -/
theorem commitHostEvent_admissible {s₁ s' : State} (hadm : Admissible d env s e)
    (happ : d.appendEvent s e = .ok s₁) :
    (∃ ack, d.commitHostEvent env s e = .ok (s', ack)) ↔ d.applyEvent env s₁ e = .ok s' := by
  obtain ⟨hwf, ⟨host, hh, ha⟩, hn, ⟨n, hbytes, hstorage⟩, ⟨g, hg, hb⟩⟩ := hadm
  simp only [DB.commitHostEvent, DB.commitNew, require_pos hwf, hh, expect_some, require_pos ha,
    next_unlogged hn, require_pos hn, hbytes, hstorage, State.segment?, hg, require_pos hb, happ,
    ok_bind, bind_ok_iff, Except.ok.injEq, Prod.mk.injEq]
  constructor
  · rintro ⟨ack, s₂, h₂, rfl, -⟩
    exact h₂
  · intro h
    exact ⟨_, s', h, rfl, rfl⟩

/-- Appending reads only the log of the state it appends to. -/
theorem appendEvent_congr {t s₁ : State} (he : t.runtimeEvents = s.runtimeEvents)
    (ho : t.deliveryOrder = s.deliveryOrder) (h : d.appendEvent s e = .ok s₁) :
    ∃ events order usage, d.appendEvent t e = .ok { t with
      runtimeEvents := events, deliveryOrder := order, storageUsage := usage } := by
  simp only [DB.appendEvent, bind_ok_iff, expect_ok, Except.ok.injEq] at h
  obtain ⟨events, hi, order, hord, -⟩ := h
  simp only [State.orderDelivery, State.appendDelivery] at hord
  refine ⟨events, order, d.chargeEvent t e, ?_⟩
  simp only [DB.appendEvent, he, hi, expect_some, ok_bind, State.orderDelivery,
    State.appendDelivery, ho, hord]

end Next
end Orchestrator.Store
