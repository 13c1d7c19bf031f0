import Orchestrator.Events.Log
import Orchestrator.Invariants.Reported

/-!
# Acknowledged events

An event is acknowledged together with the decision row that names it, and
nothing takes either back. Both logs are seen as one list of deliveries.
-/
namespace Orchestrator.Store
open Library

/-- A stored event of either log, as a decision names it. -/
structure Delivery where
  fromReport : Bool
  producer : String
  eventId : String
  eventRevision : Int
  payloadHash : String
  actionSlot : String
  status : DeliveryStatus
  deriving DecidableEq, Repr

def RuntimeEvent.delivery (r : RuntimeEvent) : Delivery :=
  ⟨false, r.producerId, r.eventId, r.eventRevision, r.payloadHash, r.actionSlot, r.deliveryStatus⟩

def ReportEvent.delivery (r : ReportEvent) : Delivery :=
  ⟨true, r.capabilityId, r.eventId, r.eventRevision, r.payloadHash, r.actionSlot, r.deliveryStatus⟩

def State.deliveries (s : State) : List Delivery :=
  s.runtimeEvents.rows.map RuntimeEvent.delivery ++ s.reportEvents.rows.map ReportEvent.delivery

def Delivery.acked (e : Delivery) : Delivery := { e with status := .acked }

/-- The decision is about the event. -/
structure RuntimeDecision.Names (row : RuntimeDecision) (e : Delivery) : Prop where
  eventId : row.eventId = e.eventId
  eventRevision : row.eventRevision = e.eventRevision
  eventHash : row.eventHash = e.payloadHash
  actionSlot : row.actionSlot = e.actionSlot

/-- The row a first acknowledgement stores. -/
def DB.decisionRow (d : DB) (a : AckDecision) : RuntimeDecision where
  actionSlot := a.actionSlot
  eventId := a.eventId
  eventRevision := a.eventRevision
  eventHash := d.toLower a.eventHash
  decision := a.decision
  commandId := a.commandId

section Deliveries
variable {d : DB} {s s' : State} {op : Op} {e e' : Delivery}

theorem mem_deliveries : e ∈ s.deliveries ↔ (∃ r ∈ s.runtimeEvents, r.delivery = e) ∨
    ∃ r ∈ s.reportEvents, r.delivery = e := by
  rw [State.deliveries, List.mem_append, List.mem_map, List.mem_map]
  rfl

/-- An event id names one event of a log. -/
theorem delivery_unique (he : e ∈ s.deliveries) (he' : e' ∈ s.deliveries)
    (hlog : e'.fromReport = e.fromReport) (hid : e'.eventId = e.eventId) : e' = e := by
  obtain ⟨r, hr, rfl⟩ | ⟨r, hr, rfl⟩ := mem_deliveries.mp he <;>
    obtain ⟨q, hq, rfl⟩ | ⟨q, hq, rfl⟩ := mem_deliveries.mp he'
  · rw [Table.eq_of_key hq hr hid]
  · cases hlog
  · cases hlog
  · rw [Table.eq_of_key hq hr hid]

theorem deliveryStatusOf_ne_acked (k : EventKind) : deliveryStatusOf k ≠ .acked := by
  cases k <;> simp [deliveryStatusOf]

theorem reportDelivery_ne_acked (k : ReportKind) (e : Event) : reportDelivery k e ≠ .acked := by
  unfold reportDelivery
  split
  · simp
  · split <;> simp

theorem mem_append_of_ne {l : List Delivery} (h : e ≠ e') : e ∈ l ++ [e'] ↔ e ∈ l := by
  rw [List.mem_append, List.mem_singleton, or_iff_left h]

/-- Releasing a question that waited touches no acknowledged report. -/
theorem mem_released {r : ReportEvent} {rows : List ReportEvent} {sessionKind sessionId : String}
    (hr : r.deliveryStatus = .pendingSession) (he : e.status = .acked) :
    e ∈ (rows.map (fun q => if q = r then r.released sessionKind sessionId else q)).map
      ReportEvent.delivery ↔ e ∈ rows.map ReportEvent.delivery := by
  rw [List.map_map, List.mem_map, List.mem_map]
  constructor
  · rintro ⟨q, hq, rfl⟩
    refine ⟨q, hq, ?_⟩
    by_cases hqr : q = r
    · simp [hqr, ReportEvent.delivery, ReportEvent.released] at he
    · simp [hqr]
  · rintro ⟨q, hq, rfl⟩
    have hqr : q ≠ r := by
      rintro rfl
      rw [ReportEvent.delivery, hr] at he
      cases he
    exact ⟨q, hq, by simp [hqr]⟩

/-- Decisions and acknowledged events are written by acknowledgements alone. -/
theorem Writes.acked (h : Writes d s op s') :
    (s'.runtimeDecisions = s.runtimeDecisions ∧
      ∀ e : Delivery, e.status = .acked → (e ∈ s'.deliveries ↔ e ∈ s.deliveries)) ∨
      ∃ taskId deliveryId proof decisions,
        op = .ackDecisions taskId deliveryId proof decisions := by
  cases h with
  | ack => exact .inr ⟨_, _, _, _, rfl⟩
  | claim h =>
    obtain ⟨c₁, c₂, caps, -, -, -, rfl, -⟩ := launch_cases h.launched
    exact .inl ⟨rfl, fun _ _ => .rfl⟩
  | @report _ _ _ _ _ _ _ _ s₁ _ _ _ _ _ _ h₁ h₂ =>
    obtain ⟨new, hnew, hrows⟩ : ∃ new : ReportEvent, new.deliveryStatus ≠ .acked ∧
        s₁.reportEvents.rows = s.reportEvents.rows ++ [new] :=
      ⟨_, reportDelivery_ne_acked _ _, (appendReport_rows h₁).1⟩
    have hframe : s'.runtimeDecisions = s.runtimeDecisions ∧ s'.runtimeEvents = s.runtimeEvents ∧
        s'.reportEvents = s₁.reportEvents := by
      obtain ⟨row, events, order, usage, -, -, -, rfl⟩ := appendReport_frame h₁
      obtain ⟨core, questions, stops, rfl⟩ := askReported_frame h₂
      exact ⟨rfl, rfl, rfl⟩
    refine .inl ⟨hframe.1, fun e he => ?_⟩
    have hne : e ≠ new.delivery := fun h => hnew (by rw [← he, h]; rfl)
    rw [State.deliveries, hframe.2.1, hframe.2.2, hrows, List.map_append, ← List.append_assoc]
    exact mem_append_of_ne hne
  | @event _ _ _ s₁ _ _ _ _ _ _ h₁ h₂ =>
    obtain ⟨new, hnew, hrows⟩ : ∃ new : RuntimeEvent, new.deliveryStatus ≠ .acked ∧
        s₁.runtimeEvents.rows = s.runtimeEvents.rows ++ [new] :=
      ⟨_, deliveryStatusOf_ne_acked _, appendEvent_rows h₁⟩
    have hframe : s'.runtimeDecisions = s.runtimeDecisions ∧
        s'.runtimeEvents = s₁.runtimeEvents ∧ s₁.reportEvents = s.reportEvents := by
      have hreports := applyEvent_frame h₂
      obtain ⟨events, order, usage, rfl⟩ := appendEvent_frame h₁
      obtain ⟨core, reports, order', questions, sessions, stops, rfl⟩ := hreports
      exact ⟨rfl, rfl, rfl⟩
    refine .inl ⟨hframe.1, fun e he => ?_⟩
    have hne : e ≠ new.delivery := fun h => hnew (by rw [← he, h]; rfl)
    have hkept : e ∈ s'.reportEvents.rows.map ReportEvent.delivery ↔
        e ∈ s.reportEvents.rows.map ReportEvent.delivery := by
      rw [← hframe.2.2]
      obtain hsame | ⟨r, -, hpend, hrows⟩ := applyEvent_reports h₂
      · rw [hsame]
      · rw [hrows]
        exact mem_released (pendingReportQuestion_spec hpend).2.2.1 he
    rw [State.deliveries, State.deliveries, List.mem_append, List.mem_append, hframe.2.1, hrows,
      hkept, List.map_append]
    exact or_congr_left (mem_append_of_ne hne)
  | _ => exact .inl ⟨rfl, fun _ _ => .rfl⟩

end Deliveries

/-! ## One decision -/

section Decision
variable {d : DB} {s s' : State} {taskId : String} {a : AckDecision}

/-- The decision names the event as it is stored. -/
structure AckDecision.For (d : DB) (a : AckDecision) (e : Delivery) : Prop where
  eventId : a.eventId = e.eventId
  eventRevision : a.eventRevision = e.eventRevision
  eventHash : d.toLower a.eventHash = e.payloadHash
  actionSlot : a.actionSlot = e.actionSlot

theorem source_delivery {eventId : String} {source : SourceEvent}
    (h : s.source eventId = some source) : ∃ e ∈ s.deliveries, e.fromReport = source.fromReport ∧
      e.eventId = eventId ∧ e.eventRevision = source.eventRevision ∧
      e.payloadHash = source.payloadHash ∧ e.actionSlot = source.actionSlot ∧
      e.status = source.deliveryStatus := by
  unfold State.source at h
  split at h
  · rename_i found hfound
    cases h
    obtain ⟨r, hr, rfl⟩ := Option.map_eq_some_iff.mp hfound
    obtain ⟨hm, hid⟩ := Table.find?_eq_some.mp hr
    exact ⟨_, mem_deliveries.mpr (.inl ⟨r, hm, rfl⟩), rfl, hid, rfl, rfl, rfl, rfl⟩
  · obtain ⟨r, hr, hc⟩ := Option.bind_eq_some_iff.mp h
    obtain ⟨c, -, rfl⟩ := Option.map_eq_some_iff.mp hc
    obtain ⟨hm, hid⟩ := Table.find?_eq_some.mp hr
    exact ⟨_, mem_deliveries.mpr (.inr ⟨r, hm, rfl⟩), rfl, hid, rfl, rfl, rfl, rfl⟩

/-- Recording a decision acknowledges the event it names, and no other. -/
theorem recorded_deliveries {e : Delivery} {eventId : String} (he : e ∈ s.deliveries)
    (hid : e.eventId = eventId) (hst : e.status = .pending)
    (hruntime : s'.runtimeEvents = if e.fromReport then s.runtimeEvents else
      s.runtimeEvents.update (fun r => r.eventId = eventId && r.deliveryStatus = .pending)
        (fun r => { r with deliveryStatus := .acked }))
    (hreport : s'.reportEvents = if e.fromReport then
      s.reportEvents.update (fun r => r.eventId = eventId && r.deliveryStatus = .pending)
        (fun r => { r with deliveryStatus := .acked }) else s.reportEvents) (x : Delivery) :
    x ∈ s'.deliveries ↔ x = e.acked ∨ (x ∈ s.deliveries ∧ x ≠ e) := by
  subst hid
  have hapart : ∀ (r : RuntimeEvent) (q : ReportEvent), r.delivery ≠ q.delivery := fun r q heq =>
    Bool.false_ne_true (congrArg Delivery.fromReport heq)
  rw [State.deliveries, List.mem_append, State.deliveries, List.mem_append, hruntime, hreport]
  obtain ⟨r, hr, rfl⟩ | ⟨r, hr, rfl⟩ := mem_deliveries.mp he
  · have hother : x ∈ s.reportEvents.rows.map ReportEvent.delivery → x ≠ r.delivery := by
      rintro hx rfl
      obtain ⟨q, -, hq⟩ := List.mem_map.mp hx
      exact hapart r q hq.symm
    have hone := Table.mem_map_update (t := s.runtimeEvents) (h := by intro _; rfl)
      (p := fun q => q.eventId = r.delivery.eventId && q.deliveryStatus = .pending)
      (f := fun q => { q with deliveryStatus := .acked }) (π := RuntimeEvent.delivery) hr
      (fun q hq => ?_) (fun q hq heq => Table.eq_of_key hq hr (congrArg Delivery.eventId heq)) x
    · have hlog : ¬ r.delivery.fromReport = true := Bool.false_ne_true
      rw [if_neg hlog, if_neg hlog, hone,
        show RuntimeEvent.delivery _ = r.delivery.acked from rfl]
      rw [or_assoc, or_and_right, and_iff_left_of_imp hother]
    · rw [Bool.and_eq_true, decide_eq_true_eq, decide_eq_true_eq]
      refine ⟨fun hsel => Table.eq_of_key hq hr hsel.1, ?_⟩
      rintro rfl
      exact ⟨rfl, hst⟩
  · have hother : x ∈ s.runtimeEvents.rows.map RuntimeEvent.delivery → x ≠ r.delivery := by
      rintro hx rfl
      obtain ⟨q, -, hq⟩ := List.mem_map.mp hx
      exact hapart q r hq
    have hone := Table.mem_map_update (t := s.reportEvents) (h := by intro _; rfl)
      (p := fun q => q.eventId = r.delivery.eventId && q.deliveryStatus = .pending)
      (f := fun q => { q with deliveryStatus := .acked }) (π := ReportEvent.delivery) hr
      (fun q hq => ?_) (fun q hq heq => Table.eq_of_key hq hr (congrArg Delivery.eventId heq)) x
    · have hlog : r.delivery.fromReport = true := rfl
      rw [if_pos hlog, if_pos hlog, hone,
        show ReportEvent.delivery _ = r.delivery.acked from rfl]
      rw [or_left_comm, or_and_right, and_iff_left_of_imp hother]
    · rw [Bool.and_eq_true, decide_eq_true_eq, decide_eq_true_eq]
      refine ⟨fun hsel => Table.eq_of_key hq hr hsel.1, ?_⟩
      rintro rfl
      exact ⟨rfl, hst⟩

theorem applyAckDecision_cases (h : d.applyAckDecision taskId s a = .ok s') :
    ∃ e ∈ s.deliveries, a.For d e ∧
      ((∃ row ∈ s.runtimeDecisions, row.actionSlot = e.actionSlot ∧
          row.eventRevision = e.eventRevision ∧ row.eventHash = e.payloadHash ∧
          row.decision = a.decision ∧ s' = s) ∨
        (e.status = .pending ∧ (∀ row ∈ s.runtimeDecisions, row.eventId ≠ a.eventId) ∧
          s.runtimeDecisions.insert? (d.decisionRow a) = some s'.runtimeDecisions ∧
          ∀ x, x ∈ s'.deliveries ↔ x = e.acked ∨ (x ∈ s.deliveries ∧ x ≠ e))) := by
  simp only [DB.applyAckDecision, bind_ok_iff, require_ok, expect_ok, exists_const] at h
  obtain ⟨source, hsource, ⟨-, hrev, hslot, hhash⟩, h⟩ := h
  obtain ⟨e, he, hlog, heid, herev, hehash, heslot, hest⟩ := source_delivery hsource
  refine ⟨e, he, ⟨heid.symm, hrev.symm.trans herev.symm, hhash.symm.trans hehash.symm,
    hslot.symm.trans heslot.symm⟩, ?_⟩
  split at h
  · rename_i existing hexisting
    simp only [bind_ok_iff, require_ok, exists_const, Except.ok.injEq] at h
    obtain ⟨⟨hdec, hxhash, hxrev⟩, rfl⟩ := h
    obtain ⟨hm, hxslot⟩ := Table.find?_eq_some.mp hexisting
    exact .inl ⟨existing, hm, by rw [hxslot, ← hslot, heslot], hxrev.trans herev.symm,
      hxhash.trans hehash.symm, hdec, rfl⟩
  · simp only [DB.recordDecision, bind_ok_iff, require_ok, expect_ok, exists_const,
      Except.ok.injEq] at h
    obtain ⟨hpending, _, -, ⟨hunused, -⟩, decisions, hi, rfl⟩ := h
    refine .inr ⟨hest.trans hpending, hunused, hi, ?_⟩
    refine recorded_deliveries he heid (hest.trans hpending) ?_ ?_ <;> rw [hlog]

end Decision

/-! ## Acknowledged events and their decisions -/

structure Acks (s : State) : Prop where
  acked : ∀ e ∈ s.deliveries, e.status = .acked → ∃ row ∈ s.runtimeDecisions, row.Names e
  named : ∀ row ∈ s.runtimeDecisions, ∃ e ∈ s.deliveries, e.status = .acked ∧ row.Names e
  single : ∀ row ∈ s.runtimeDecisions, ∀ row' ∈ s.runtimeDecisions,
    row.eventId = row'.eventId → row = row'

/-- Acknowledgements only accumulate. -/
structure AcksGrow (s s' : State) : Prop where
  decisions : ∀ row ∈ s.runtimeDecisions, row ∈ s'.runtimeDecisions
  acked : ∀ e ∈ s.deliveries, e.status = .acked → e ∈ s'.deliveries

section Acks
variable {d : DB} {s s' s'' : State} {op : Op} {taskId : String} {a : AckDecision}

theorem AcksGrow.refl (s : State) : AcksGrow s s := ⟨fun _ h => h, fun _ h _ => h⟩

theorem AcksGrow.trans (h : AcksGrow s s') (h' : AcksGrow s' s'') : AcksGrow s s'' :=
  ⟨fun row hm => h'.decisions row (h.decisions row hm),
    fun e he hst => h'.acked e (h.acked e he hst) hst⟩

theorem Acks.fresh (limits : ConcurrencyLimits) : Acks (State.fresh limits) :=
  ⟨fun _ h => absurd h List.not_mem_nil, fun _ h => absurd h (Table.not_mem_empty _),
    fun _ h => absurd h (Table.not_mem_empty _)⟩

/-- Nothing happens to decisions and to acknowledged events. -/
theorem Acks.keep (h : Acks s) (hdec : s'.runtimeDecisions = s.runtimeDecisions)
    (hacked : ∀ e : Delivery, e.status = .acked → (e ∈ s'.deliveries ↔ e ∈ s.deliveries)) :
    Acks s' ∧ AcksGrow s s' := by
  refine ⟨⟨fun e he hst => ?_, fun row hm => ?_, fun row hm row' hm' => ?_⟩, fun row hm => ?_,
    fun e he hst => (hacked e hst).mpr he⟩
  · rw [hdec]
    exact h.acked e ((hacked e hst).mp he) hst
  · rw [hdec] at hm
    obtain ⟨e, he, hst, hnames⟩ := h.named row hm
    exact ⟨e, (hacked e hst).mpr he, hst, hnames⟩
  · rw [hdec] at hm hm'
    exact h.single row hm row' hm'
  · rwa [hdec]

theorem Acks.decide (h : Acks s) (hx : d.applyAckDecision taskId s a = .ok s') :
    Acks s' ∧ AcksGrow s s' := by
  obtain ⟨e, he, hfor, ⟨-, -, -, -, -, -, rfl⟩ | ⟨hst, hunused, hi, hmem⟩⟩ :=
    applyAckDecision_cases hx
  · exact ⟨h, .refl _⟩
  · have hnames : (d.decisionRow a).Names e.acked :=
      ⟨hfor.eventId, hfor.eventRevision, hfor.eventHash, hfor.actionSlot⟩
    have hgrow : AcksGrow s s' := by
      refine ⟨fun row hm => (Table.mem_insert hi).mpr (.inl hm), fun x hx hxst => ?_⟩
      refine (hmem x).mpr (.inr ⟨hx, ?_⟩)
      rintro rfl
      rw [hst] at hxst
      cases hxst
    refine ⟨⟨fun x hx hxst => ?_, fun row hm => ?_, fun row hm row' hm' hid => ?_⟩, hgrow⟩
    · obtain rfl | ⟨hx, -⟩ := (hmem x).mp hx
      · exact ⟨_, (Table.mem_insert hi).mpr (.inr rfl), hnames⟩
      · obtain ⟨row, hm, hrow⟩ := h.acked x hx hxst
        exact ⟨row, hgrow.decisions row hm, hrow⟩
    · obtain hm | rfl := (Table.mem_insert hi).mp hm
      · obtain ⟨x, hx, hxst, hrow⟩ := h.named row hm
        exact ⟨x, hgrow.acked x hx hxst, hxst, hrow⟩
      · exact ⟨e.acked, (hmem _).mpr (.inl rfl), rfl, hnames⟩
    · obtain hm | rfl := (Table.mem_insert hi).mp hm <;>
        obtain hm' | rfl := (Table.mem_insert hi).mp hm'
      · exact h.single row hm row' hm' hid
      · exact absurd hid (hunused row hm)
      · exact absurd hid.symm (hunused row' hm')
      · rfl

theorem Acks.decideAll {as : List AckDecision} (h : Acks s)
    (hx : as.foldlM (d.applyAckDecision taskId) s = .ok s') : Acks s' ∧ AcksGrow s s' := by
  induction as generalizing s with
  | nil =>
    cases hx
    exact ⟨h, .refl _⟩
  | cons a as ih =>
    rw [List.foldlM_cons, bind_ok_iff] at hx
    obtain ⟨s₁, h₁, h₂⟩ := hx
    obtain ⟨hacks, hgrow⟩ := h.decide h₁
    obtain ⟨hacks', hgrow'⟩ := ih hacks h₂
    exact ⟨hacks', hgrow.trans hgrow'⟩

/-- An accepted call is the replay of a stored one, or decides its batch. -/
theorem ackDecisions_cases {deliveryId proof : String} {as : List AckDecision} {u : Unit}
    (h : d.ackDecisions s taskId deliveryId proof as = .ok (s', u)) :
    (⟨deliveryId, taskId, d.toLower proof, d.runtimeHash (d.encodeDecisions as)⟩ ∈
        s.deliveryReceipts ∧ s' = s) ∨
      ∃ s₁ receipts, as.foldlM (d.applyAckDecision taskId) s = .ok s₁ ∧
        s.deliveryReceipts.insert?
          ⟨deliveryId, taskId, d.toLower proof, d.runtimeHash (d.encodeDecisions as)⟩ =
          some receipts ∧ s' = { s₁ with deliveryReceipts := receipts } := by
  simp only [DB.ackDecisions, bind_ok_iff, require_ok, exists_const] at h
  obtain ⟨-, -, h⟩ := h
  split at h
  · rename_i stored hstored
    simp only [bind_ok_iff, require_ok, exists_const, Except.ok.injEq, Prod.mk.injEq] at h
    obtain ⟨⟨rfl, hproof, hhash⟩, rfl, -⟩ := h
    obtain ⟨hm, rfl⟩ := Table.find?_eq_some.mp hstored
    rw [← hproof, ← hhash]
    exact .inl ⟨hm, rfl⟩
  · simp only [bind_ok_iff, expect_ok, Except.ok.injEq, Prod.mk.injEq] at h
    obtain ⟨s₁, h₁, receipts, hi, rfl, -⟩ := h
    obtain ⟨decisions, events, reports, rfl, -, -⟩ := applyAckDecisions_writes h₁
    exact .inr ⟨_, receipts, h₁, hi, rfl⟩

theorem Acks.exec (h : Acks s) (hx : d.exec s op = .ok s') : Acks s' ∧ AcksGrow s s' := by
  obtain ⟨hdec, hacked⟩ | ⟨taskId, deliveryId, proof, as, rfl⟩ := (exec_writes hx).acked
  · exact h.keep hdec hacked
  · obtain ⟨u, hack⟩ := committed_ok.mp hx
    obtain ⟨-, rfl⟩ | ⟨s₁, receipts, h₁, -, rfl⟩ := ackDecisions_cases hack
    · exact ⟨h, .refl _⟩
    · obtain ⟨hacks, hgrow⟩ := h.decideAll h₁
      exact ⟨⟨hacks.acked, hacks.named, hacks.single⟩, hgrow.decisions, hgrow.acked⟩

theorem acks_of_reachable {limits : ConcurrencyLimits} (h : d.Reachable limits s) : Acks s :=
  reachable_induct (Acks.fresh limits) (fun _ _ _ hs hx => (hs.exec hx).1) h

theorem acks_run {limits : ConcurrencyLimits} (hr : d.Reachable limits s) (ops : List Op) :
    AcksGrow s (d.run s ops) := by
  have hall : Acks (d.run s ops) ∧ AcksGrow s (d.run s ops) := by
    refine run_invariant (I := fun s' : State => Acks s' ∧ AcksGrow s s')
      ⟨acks_of_reachable hr, .refl s⟩ fun s' op ⟨hacks, hgrow⟩ => ?_
    refine step_induct (P := fun s'' : State => Acks s'' ∧ AcksGrow s s'') ⟨hacks, hgrow⟩
      fun s'' hx => ?_
    obtain ⟨hacks', hgrow'⟩ := hacks.exec hx
    exact ⟨hacks', hgrow.trans hgrow'⟩
  exact hall.2

end Acks

/-! ## Action slots -/

/-- The hash does not collide on the slot inputs of the stored events, and no report capability
has the id of a Host. -/
structure SlotsApart (d : DB) (s : State) : Prop where
  hash : ∀ e ∈ s.deliveries, ∀ e' ∈ s.deliveries,
    d.actionSlot e.producer e.eventId = d.actionSlot e'.producer e'.eventId →
      e.producer = e'.producer ∧ e.eventId = e'.eventId
  producers : ∀ e ∈ s.deliveries, ∀ e' ∈ s.deliveries,
    e.producer = e'.producer → e.fromReport = e'.fromReport

/-- Every event is stored under the slot of its producer and id. -/
def Slotted (d : DB) (s : State) : Prop :=
  ∀ e ∈ s.deliveries, e.actionSlot = d.actionSlot e.producer e.eventId

section Slots
variable {d : DB} {s s' : State} {op : Op} {e e' : Delivery}

/-- The events of a state, whatever became of their delivery, are among those of another. -/
def SameEvents (s s' : State) : Prop := ∀ x ∈ s'.deliveries, ∃ y ∈ s.deliveries, x.acked = y.acked

theorem SlotsApart.of_events (h : SlotsApart d s) (hsame : SameEvents s s') : SlotsApart d s' := by
  constructor
  · intro e he e' he' hslot
    obtain ⟨x, hx, hex⟩ := hsame e he
    obtain ⟨x', hx', hex'⟩ := hsame e' he'
    have hp := congrArg Delivery.producer hex
    have hi := congrArg Delivery.eventId hex
    have hp' := congrArg Delivery.producer hex'
    have hi' := congrArg Delivery.eventId hex'
    simp only [Delivery.acked] at hp hi hp' hi'
    rw [hp, hi, hp', hi'] at hslot ⊢
    exact h.hash x hx x' hx' hslot
  · intro e he e' he' hprod
    obtain ⟨x, hx, hex⟩ := hsame e he
    obtain ⟨x', hx', hex'⟩ := hsame e' he'
    have hp := congrArg Delivery.producer hex
    have hf := congrArg Delivery.fromReport hex
    have hp' := congrArg Delivery.producer hex'
    have hf' := congrArg Delivery.fromReport hex'
    simp only [Delivery.acked] at hp hf hp' hf'
    rw [hp, hp'] at hprod
    rw [hf, hf']
    exact h.producers x hx x' hx' hprod

theorem Slotted.of_events (h : Slotted d s) (hsame : SameEvents s s') : Slotted d s' := by
  intro e he
  obtain ⟨x, hx, hex⟩ := hsame e he
  have hp := congrArg Delivery.producer hex
  have hi := congrArg Delivery.eventId hex
  have hslot := congrArg Delivery.actionSlot hex
  simp only [Delivery.acked] at hp hi hslot
  rw [hp, hi, hslot]
  exact h x hx

theorem SlotsApart.eq (h : SlotsApart d s) (hs : Slotted d s) (he : e ∈ s.deliveries)
    (he' : e' ∈ s.deliveries) (hslot : e'.actionSlot = e.actionSlot) : e' = e := by
  rw [hs e he, hs e' he'] at hslot
  obtain ⟨hprod, hid⟩ := h.hash e' he' e he hslot
  exact delivery_unique he he' (h.producers e' he' e he hprod) hid

theorem reports_slotted {limits : ConcurrencyLimits} (h : d.Reachable limits s) :
    ∀ r ∈ s.reportEvents, r.actionSlot = d.actionSlot r.capabilityId r.eventId := by
  refine reachable_induct
    (P := fun s => ∀ r ∈ s.reportEvents, r.actionSlot = d.actionSlot r.capabilityId r.eventId)
    (fun _ h => absurd h (Table.not_mem_empty _)) (fun s op s' hs hx r' hr' => ?_) h
  obtain ⟨r, hr, heq | ⟨_, _, rfl⟩⟩ | ⟨_, _, _, _, _, _, _, _, -, -, -, -, -, -, rfl⟩ :=
    (exec_writes hx).reports hr'
  · have hslot : r'.actionSlot = r.actionSlot := (congrArg ReportEvent.actionSlot heq :)
    have hcap : r'.capabilityId = r.capabilityId := (congrArg ReportEvent.capabilityId heq :)
    have hid : r'.eventId = r.eventId := (congrArg ReportEvent.eventId heq :)
    rw [hslot, hcap, hid]
    exact hs r hr
  · exact hs r hr
  · rfl

theorem slotted_of_reachable {limits : ConcurrencyLimits} (h : d.Reachable limits s) :
    Slotted d s := by
  intro e he
  obtain ⟨r, hr, rfl⟩ | ⟨r, hr, rfl⟩ := mem_deliveries.mp he
  · have hentry := ((logged_of_reachable h).rows r hr).1
    have hslot : r.actionSlot = d.actionSlot r.body.producerId r.body.eventId :=
      (congrArg RuntimeEvent.actionSlot hentry :)
    have hprod : r.producerId = r.body.producerId := (congrArg RuntimeEvent.producerId hentry :)
    have hid : r.eventId = r.body.eventId := (congrArg RuntimeEvent.eventId hentry :)
    simp only [RuntimeEvent.delivery]
    rw [hslot, hprod, hid]
  · exact reports_slotted h r hr

end Slots

/-! ## Batches -/

/-- What an accepted batch leaves: its events acknowledged, and the rest as it was. -/
structure Acknowledged (d : DB) (s s' : State) (as : List AckDecision) : Prop where
  decided : ∀ a ∈ as, ∃ e ∈ s'.deliveries, a.For d e ∧ e.status = .acked ∧
    ∃ row ∈ s'.runtimeDecisions, row.Names e ∧ row.decision = a.decision
  decisions : ∀ row ∈ s'.runtimeDecisions, row ∈ s.runtimeDecisions ∨
    ∃ a ∈ as, row = d.decisionRow a
  others : ∀ e : Delivery, (∀ a ∈ as, a.eventId ≠ e.eventId) →
    (e ∈ s'.deliveries ↔ e ∈ s.deliveries)
  rest : s' = { s with
    runtimeDecisions := s'.runtimeDecisions
    runtimeEvents := s'.runtimeEvents
    reportEvents := s'.reportEvents
    deliveryReceipts := s'.deliveryReceipts }

section Batches
variable {d : DB} {s s' : State} {taskId : String} {a : AckDecision} {as : List AckDecision}

theorem applyAckDecision_events (h : d.applyAckDecision taskId s a = .ok s') : SameEvents s s' := by
  obtain ⟨e, he, -, ⟨-, -, -, -, -, -, rfl⟩ | ⟨-, -, -, hmem⟩⟩ := applyAckDecision_cases h
  · exact fun x hx => ⟨x, hx, rfl⟩
  · intro x hx
    obtain rfl | ⟨hx, -⟩ := (hmem x).mp hx
    · exact ⟨e, he, rfl⟩
    · exact ⟨x, hx, rfl⟩

/-- A decision acknowledges its event, or finds it acknowledged by the same decision. -/
theorem applyAckDecision_decides (hacks : Acks s) (hslots : SlotsApart d s) (hslotted : Slotted d s)
    (h : d.applyAckDecision taskId s a = .ok s') :
    ∃ e ∈ s'.deliveries, a.For d e ∧ e.status = .acked ∧
      ∃ row ∈ s'.runtimeDecisions, row.Names e ∧ row.decision = a.decision := by
  obtain ⟨e, he, hfor, ⟨row, hm, hslot, -, -, hdec, rfl⟩ | ⟨-, -, hi, hmem⟩⟩ :=
    applyAckDecision_cases h
  · -- the stored row names the event of its slot
    obtain ⟨x, hx, hst, hnames⟩ := hacks.named row hm
    obtain rfl : x = e := hslots.eq hslotted he hx (hnames.actionSlot.symm.trans hslot)
    exact ⟨x, he, hfor, hst, row, hm, hnames, hdec⟩
  · exact ⟨e.acked, (hmem _).mpr (.inl rfl), ⟨hfor.eventId, hfor.eventRevision, hfor.eventHash,
      hfor.actionSlot⟩, rfl, d.decisionRow a, (Table.mem_insert hi).mpr (.inr rfl),
      ⟨hfor.eventId, hfor.eventRevision, hfor.eventHash, hfor.actionSlot⟩, rfl⟩

theorem acknowledged_batch (hacks : Acks s) (hslots : SlotsApart d s) (hslotted : Slotted d s)
    (h : as.foldlM (d.applyAckDecision taskId) s = .ok s') : Acknowledged d s s' as := by
  induction as generalizing s with
  | nil =>
    cases h
    exact ⟨by simp, fun _ hm => .inl hm, fun _ _ => .rfl, rfl⟩
  | cons a as ih =>
    rw [List.foldlM_cons, bind_ok_iff] at h
    obtain ⟨s₁, h₁, h₂⟩ := h
    have hsame := applyAckDecision_events h₁
    obtain ⟨hacks₁, hgrow₁⟩ := hacks.decide h₁
    obtain ⟨hdec, hrows, hothers, hrest⟩ :=
      ih hacks₁ (hslots.of_events hsame) (hslotted.of_events hsame) h₂
    have hgrow := (hacks₁.decideAll h₂).2
    refine ⟨fun b hb => ?_, fun row hm => ?_, fun x hx => ?_, ?_⟩
    · obtain rfl | hb := List.mem_cons.mp hb
      · obtain ⟨e, he, hfor, hst, row, hm, hnames, hd⟩ :=
          applyAckDecision_decides hacks hslots hslotted h₁
        exact ⟨e, hgrow.acked e he hst, hfor, hst, row, hgrow.decisions row hm, hnames, hd⟩
      · exact hdec b hb
    · obtain hm | ⟨b, hb, rfl⟩ := hrows row hm
      · obtain ⟨e, -, -, ⟨-, -, -, -, -, -, rfl⟩ | ⟨-, -, hi, -⟩⟩ := applyAckDecision_cases h₁
        · exact .inl hm
        · refine ((Table.mem_insert hi).mp hm).imp_right fun hrow => ⟨a, List.mem_cons_self, hrow⟩
      · exact .inr ⟨b, List.mem_cons_of_mem a hb, rfl⟩
    · rw [hothers x fun b hb => hx b (List.mem_cons_of_mem a hb)]
      obtain ⟨e, -, hfor, ⟨-, -, -, -, -, -, rfl⟩ | ⟨-, -, -, hmem⟩⟩ := applyAckDecision_cases h₁
      · rfl
      · have hid : x.eventId ≠ e.eventId := fun heq =>
          hx a List.mem_cons_self (hfor.eventId.trans heq.symm)
        have hacked : x ≠ e.acked := fun heq => hid (congrArg Delivery.eventId heq :)
        have hself : x ≠ e := fun heq => hid (congrArg Delivery.eventId heq)
        rw [hmem, or_iff_right hacked, and_iff_left hself]
    · obtain ⟨decisions, events, reports, rfl, -, -⟩ := applyAckDecision_writes h₁
      exact hrest

end Batches

/-- Acknowledgements are atomic, and every event is acknowledged at most once and for good. -/
theorem ack_exactly_once (d : DB) (limits : ConcurrencyLimits) (ops : List Op)
    (hslots : SlotsApart d (d.run (State.fresh limits) ops)) :
    (∀ e ∈ (d.run (State.fresh limits) ops).deliveries, e.status = .acked ↔
      ∃ row, (d.run (State.fresh limits) ops).runtimeDecisions.rows.filter
        (fun r => r.eventId = e.eventId) = [row] ∧ row.Names e) ∧
    (∀ taskId deliveryId proof as,
      ((∃ err, d.ackDecisions (d.run (State.fresh limits) ops) taskId deliveryId proof as =
          .error err) ∧
        d.step (d.run (State.fresh limits) ops) (.ackDecisions taskId deliveryId proof as) =
          d.run (State.fresh limits) ops) ∨
      (d.ackDecisions (d.run (State.fresh limits) ops) taskId deliveryId proof as =
          .ok (d.run (State.fresh limits) ops, ()) ∧
        ⟨deliveryId, taskId, d.toLower proof, d.runtimeHash (d.encodeDecisions as)⟩ ∈
          (d.run (State.fresh limits) ops).deliveryReceipts) ∨
      ∃ s', d.ackDecisions (d.run (State.fresh limits) ops) taskId deliveryId proof as =
          .ok (s', ()) ∧
        Acknowledged d (d.run (State.fresh limits) ops) s' as ∧
        (d.run (State.fresh limits) ops).deliveryReceipts.insert?
          ⟨deliveryId, taskId, d.toLower proof, d.runtimeHash (d.encodeDecisions as)⟩ =
            some s'.deliveryReceipts) ∧
    ∀ more, AcksGrow (d.run (State.fresh limits) ops)
      (d.run (d.run (State.fresh limits) ops) more) := by
  have hr : d.Reachable limits (d.run (State.fresh limits) ops) := ⟨ops, rfl⟩
  have hacks := acks_of_reachable hr
  have hslotted := slotted_of_reachable hr
  refine ⟨fun e he => ⟨fun hst => ?_, ?_⟩, fun taskId deliveryId proof as => ?_, acks_run hr⟩
  · obtain ⟨row, hm, hnames⟩ := hacks.acked e he hst
    refine ⟨row, Table.filter_eq_singleton hm (by simp [hnames.eventId])
      fun r hrm hid => ?_, hnames⟩
    rw [hacks.single r hrm row hm ((of_decide_eq_true hid).trans hnames.eventId.symm)]
  · rintro ⟨row, hrows, hnames⟩
    have hm : row ∈ (d.run (State.fresh limits) ops).runtimeDecisions := by
      refine List.mem_of_mem_filter (p := fun r => r.eventId = e.eventId) ?_
      rw [hrows]
      exact List.mem_singleton_self row
    obtain ⟨x, hx, hst, hrow⟩ := hacks.named row hm
    rwa [hslots.eq hslotted he hx (hrow.actionSlot.symm.trans hnames.actionSlot)] at hst
  · cases hack : d.ackDecisions (d.run (State.fresh limits) ops) taskId deliveryId proof as with
    | error err =>
      refine .inl ⟨⟨err, rfl⟩, ?_⟩
      have hexec : d.exec (d.run (State.fresh limits) ops)
          (.ackDecisions taskId deliveryId proof as) = .error err := by
        rw [DB.exec, hack]
        rfl
      exact step_of_error hexec
    | ok res =>
      obtain ⟨s', u⟩ := res
      obtain ⟨hstored, rfl⟩ | ⟨s₁, receipts, h₁, hi, rfl⟩ := ackDecisions_cases hack
      · exact .inr (.inl ⟨rfl, hstored⟩)
      · obtain ⟨hdec, hrows, hothers, hrest⟩ := acknowledged_batch hacks hslots hslotted h₁
        refine .inr (.inr ⟨_, rfl, ⟨hdec, hrows, hothers, ?_⟩, hi⟩)
        rw [hrest]

/-- The result of the first claim is acknowledged as stale once its segment has exited. -/
def staleOps : List Op :=
  toyStart [toyTask "a" 1 []] ++
    [toyClaim 11, toyCommit "a" 11 1 .result, toyCommit "a" 11 2 .exited,
    .ackDecisions "a" "delivery" (toyDigest "proof")
      [⟨"host:1", 1, toyDigest (EventKind.result.text ++ "11"),
        toyDB.actionSlot "host" "host:1", "stale", "command"⟩]]

theorem stale_acked_once : ∃ e ∈ (toyDB.run (State.fresh {}) staleOps).deliveries,
    e.eventId = "host:1" ∧ e.status = .acked ∧
      ∃ row, (toyDB.run (State.fresh {}) staleOps).runtimeDecisions.rows.filter
        (fun r => r.eventId = e.eventId) = [row] ∧ row.Names e := by
  have hfacts : (∃ e ∈ (toyDB.run (State.fresh {}) staleOps).deliveries,
        e.eventId = "host:1" ∧ e.status = .acked) ∧
      (∀ e ∈ (toyDB.run (State.fresh {}) staleOps).deliveries,
        ∀ e' ∈ (toyDB.run (State.fresh {}) staleOps).deliveries,
          (toyDB.actionSlot e.producer e.eventId = toyDB.actionSlot e'.producer e'.eventId →
            e.producer = e'.producer ∧ e.eventId = e'.eventId) ∧
          (e.producer = e'.producer → e.fromReport = e'.fromReport)) := by decide +kernel
  obtain ⟨⟨e, he, hid, hst⟩, hapart⟩ := hfacts
  have hslots : SlotsApart toyDB (toyDB.run (State.fresh {}) staleOps) :=
    ⟨fun e he e' he' => (hapart e he e' he').1, fun e he e' he' => (hapart e he e' he').2⟩
  exact ⟨e, he, hid, hst, ((ack_exactly_once toyDB {} staleOps hslots).1 e he).mp hst⟩

end Orchestrator.Store
