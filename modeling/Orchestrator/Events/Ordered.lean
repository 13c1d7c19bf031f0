import Orchestrator.Events.Acks
import Orchestrator.Store.Collect

/-!
# The delivery order

What becomes deliverable takes the next place of the delivery order, and keeps
it. So every deliverable event has a place of its own, and later ones come after.
-/
namespace Orchestrator.Store
open Library

/-- The event has taken the next place. -/
def Delivers (order : Table DeliveryOrder.eventId) (eventId taskId : String)
    (order' : Table DeliveryOrder.eventId) : Prop :=
  order.insert? ⟨order.rows.length + 1, eventId, taskId⟩ = some order'

/-- The event has a place in the order of the task. -/
def State.Places (s : State) (eventId taskId : String) : Prop :=
  ∃ o ∈ s.deliveryOrder, o.eventId = eventId ∧ o.taskId = taskId

structure Ordered (s : State) : Prop where
  numbered : s.deliveryOrder.rows.map DeliveryOrder.ordinal =
    List.range' 1 s.deliveryOrder.rows.length
  runtime : ∀ r ∈ s.runtimeEvents, r.deliveryStatus = .pending → s.Places r.eventId r.taskId
  reports : ∀ r ∈ s.reportEvents, r.deliverable true = true → s.Places r.eventId r.body.taskId
  apart : ∀ r ∈ s.runtimeEvents, r.deliveryStatus = .pending → ∀ q ∈ s.reportEvents,
    q.deliverable true = true → r.eventId ≠ q.eventId

section Places
variable {d : DB} {env : Env} {s s' : State} {op : Op} {e : Event} {id taskId : String}
  {order order' : Table DeliveryOrder.eventId}

theorem Ordered.fresh (limits : ConcurrencyLimits) : Ordered (State.fresh limits) := by
  refine ⟨rfl, ?_, ?_, ?_⟩ <;> exact fun _ h => absurd h (Table.not_mem_empty _)

theorem orderDelivery_cases {deliver : Prop} [Decidable deliver]
    (h : s.orderDelivery deliver id taskId = .ok order) :
    (¬ deliver ∧ order = s.deliveryOrder) ∨
    (deliver ∧ Delivers s.deliveryOrder id taskId order) := by
  unfold State.orderDelivery at h
  split at h
  · rename_i hd
    exact .inr ⟨hd, expect_ok.mp h⟩
  · rename_i hd
    exact .inl ⟨hd, (Except.ok.inj h).symm⟩

theorem Delivers.numbered (h : Delivers order id taskId order')
    (hn : order.rows.map DeliveryOrder.ordinal = List.range' 1 order.rows.length) :
    order'.rows.map DeliveryOrder.ordinal = List.range' 1 order'.rows.length := by
  rw [Table.rows_insert h, List.map_append, hn, List.length_append, List.length_singleton,
    List.range'_1_concat, Nat.add_comm 1]
  rfl

/-- What is deliverable was so before. -/
theorem Ordered.shrink (h : Ordered s) (horder : s'.deliveryOrder = s.deliveryOrder)
    (hruntime : ∀ r' ∈ s'.runtimeEvents, r'.deliveryStatus = .pending → ∃ r ∈ s.runtimeEvents,
      r.deliveryStatus = .pending ∧ r.eventId = r'.eventId ∧ r.taskId = r'.taskId)
    (hreports : ∀ r' ∈ s'.reportEvents, r'.deliverable true = true → ∃ r ∈ s.reportEvents,
      r.deliverable true = true ∧ r.eventId = r'.eventId ∧ r.body.taskId = r'.body.taskId) :
    Ordered s' := by
  have hplaces : ∀ {id taskId : String}, s.Places id taskId → s'.Places id taskId := by
    intro id taskId hp
    rwa [State.Places, horder]
  refine ⟨by rw [horder]; exact h.numbered, fun r' hr' hst => ?_, fun r' hr' hd => ?_,
    fun r' hr' hst q' hq' hd => ?_⟩
  · obtain ⟨r, hr, hrst, hid, htask⟩ := hruntime r' hr' hst
    rw [← hid, ← htask]
    exact hplaces (h.runtime r hr hrst)
  · obtain ⟨r, hr, hrd, hid, htask⟩ := hreports r' hr' hd
    rw [← hid, ← htask]
    exact hplaces (h.reports r hr hrd)
  · obtain ⟨r, hr, hrst, hid, -⟩ := hruntime r' hr' hst
    obtain ⟨q, hq, hqd, hqid, -⟩ := hreports q' hq' hd
    rw [← hid, ← hqid]
    exact h.apart r hr hrst q hq hqd

/-- An event that becomes deliverable in one of the logs takes the next place. -/
theorem Ordered.deliver (h : Ordered s) (hd : Delivers s.deliveryOrder id taskId s'.deliveryOrder)
    (newRuntime newReport : Prop) (hone : ¬ (newRuntime ∧ newReport))
    (hruntime : ∀ r' ∈ s'.runtimeEvents, r'.deliveryStatus = .pending →
      (r' ∈ s.runtimeEvents) ∨ (newRuntime ∧ r'.eventId = id ∧ r'.taskId = taskId))
    (hreports : ∀ r' ∈ s'.reportEvents, r'.deliverable true = true →
      (r' ∈ s.reportEvents) ∨ (newReport ∧ r'.eventId = id ∧ r'.body.taskId = taskId)) :
    Ordered s' := by
  have hfresh : ∀ {taskId' : String}, ¬ s.Places id taskId' := by
    rintro taskId' ⟨o, ho, hid, -⟩
    exact (Table.insert?_eq_some.mp hd).1 o ho hid
  have hplaces : ∀ {id taskId : String}, s.Places id taskId → s'.Places id taskId := by
    rintro id taskId ⟨o, ho, hx⟩
    exact ⟨o, (Table.mem_insert hd).mpr (.inl ho), hx⟩
  have hnew : s'.Places id taskId := ⟨_, (Table.mem_insert hd).mpr (.inr rfl), rfl, rfl⟩
  refine ⟨hd.numbered h.numbered, fun r' hr' hst => ?_, fun r' hr' hdel => ?_,
    fun r' hr' hst q' hq' hdel heq => ?_⟩
  · obtain hr | ⟨-, rfl, rfl⟩ := hruntime r' hr' hst
    · exact hplaces (h.runtime r' hr hst)
    · exact hnew
  · obtain hr | ⟨-, rfl, rfl⟩ := hreports r' hr' hdel
    · exact hplaces (h.reports r' hr hdel)
    · exact hnew
  · obtain hr | ⟨hn, hid, -⟩ := hruntime r' hr' hst <;>
      obtain hq | ⟨hn', hid', -⟩ := hreports q' hq' hdel
    · exact h.apart r' hr hst q' hq hdel heq
    · exact hfresh (hid'.symm.trans heq.symm ▸ h.runtime r' hr hst)
    · exact hfresh (hid.symm.trans heq ▸ h.reports q' hq hdel)
    · exact hone ⟨hn, hn'⟩

/-! ## Steps -/

theorem appendEvent_ordered (h : Ordered s) (hx : d.appendEvent s e = .ok s') : Ordered s' := by
  simp only [DB.appendEvent, bind_ok_iff, expect_ok, Except.ok.injEq] at hx
  obtain ⟨events, hi, order, horder, rfl⟩ := hx
  obtain ⟨hkind, rfl⟩ | ⟨hkind, hd⟩ := orderDelivery_cases horder
  · refine h.shrink rfl (fun r hr hst => ?_) fun r hr hdel => ⟨r, hr, hdel, rfl, rfl⟩
    obtain hr | rfl := (Table.mem_insert hi).mp hr
    · exact ⟨r, hr, hst, rfl, rfl⟩
    · exact absurd hst hkind
  · refine h.deliver hd True False (fun hx => hx.2)
      (fun r hr hst => ?_) fun r hr _ => .inl hr
    exact ((Table.mem_insert hi).mp hr).imp_right fun heq => by rw [heq]; exact ⟨trivial, rfl, rfl⟩

/-- A report that is released takes the next place. -/
theorem applyEvent_order (h : d.applyEvent env s e = .ok s') :
    (s'.deliveryOrder = s.deliveryOrder ∧ s'.reportEvents = s.reportEvents) ∨
      ∃ r c, s.pendingReportQuestion e.segmentId = some r ∧
        s.reportCapabilities.find? r.capabilityId = some c ∧
        Delivers s.deliveryOrder r.eventId c.taskId s'.deliveryOrder := by
  have hreleased : ∀ (s₁ : State) {t : State}, s₁.reportEvents = s.reportEvents →
      s₁.reportCapabilities = s.reportCapabilities → s₁.deliveryOrder = s.deliveryOrder →
      materializePendingReportQuestion env s₁ e.segmentId e.sessionKind e.sessionId = .ok t →
      (t.deliveryOrder = s.deliveryOrder ∧ t.reportEvents = s.reportEvents) ∨
        ∃ r c, s.pendingReportQuestion e.segmentId = some r ∧
          s.reportCapabilities.find? r.capabilityId = some c ∧
          Delivers s.deliveryOrder r.eventId c.taskId t.deliveryOrder := by
    intro s₁ t hr hc ho hm
    have hpending : s₁.pendingReportQuestion e.segmentId = s.pendingReportQuestion e.segmentId := by
      unfold State.pendingReportQuestion
      rw [hr, hc]
    obtain ⟨-, rfl⟩ | ⟨r, c, order, s₂, hpend, hcap, -, horder, h₁, h₂⟩ :=
      materialize_cases hm
    · exact .inl ⟨ho, hr⟩
    · obtain ⟨core, questions, rfl⟩ := applyQuestion_frame h₁
      obtain ⟨core', stops, rfl⟩ := ensureQuestionStop_frame h₂
      refine .inr ⟨r, c, hpending ▸ hpend, hc ▸ hcap, ?_⟩
      rwa [State.appendDelivery, ho] at horder
  unfold DB.applyEvent at h
  split at h
  case h_4 =>
    obtain rfl | ⟨row, sessions, -, -, h⟩ := applySession_cases h
    · exact .inl ⟨rfl, rfl⟩
    · exact hreleased { s with sessions := sessions } rfl rfl rfl h
  case h_5 =>
    obtain ⟨core, questions, rfl⟩ := applyQuestion_frame h
    exact .inl ⟨rfl, rfl⟩
  case h_10 =>
    obtain ⟨g, -, ⟨-, rfl⟩ | ⟨-, t, core, -, -, rfl⟩⟩ := applyExit_cases h
    · exact .inl ⟨rfl, rfl⟩
    · exact .inl ⟨rfl, rfl⟩
  case h_11 => cases h
  all_goals
    cases h
    exact .inl ⟨rfl, rfl⟩

theorem applyEvent_ordered (h : Ordered s) (hb : Bound s) (hx : d.applyEvent env s e = .ok s') :
    Ordered s' := by
  have hruntime : s'.runtimeEvents = s.runtimeEvents := by
    obtain ⟨core, reports, order, questions, sessions, stops, rfl⟩ := applyEvent_frame hx
    rfl
  obtain ⟨horder, hreports⟩ | ⟨r, c, hpend, hcap, hd⟩ := applyEvent_order hx
  · exact h.shrink horder (fun r hr hst => ⟨r, hruntime ▸ hr, hst, rfl, rfl⟩)
      fun r hr hdel => ⟨r, hreports ▸ hr, hdel, rfl, rfl⟩
  · refine h.deliver hd False True (fun hx => hx.1)
      (fun r hr _ => .inl (hruntime ▸ hr)) fun q hq _ => ?_
    obtain hsame | ⟨r', -, hpend', hrows⟩ := applyEvent_reports hx
    · exact .inl (hsame ▸ hq)
    · obtain rfl : r' = r := Option.some.inj (hpend'.symm.trans hpend)
      rw [Table.mem_def, hrows] at hq
      obtain ⟨q, hqm, rfl⟩ := List.mem_map.mp hq
      split
      · rename_i hqr
        obtain ⟨k, hk, hkid, -, htask, -⟩ := hb.reports r' (pendingReportQuestion_spec hpend).1
        rw [← hkid, Table.find?_of_mem hk, Option.some.injEq] at hcap
        exact .inr ⟨trivial, rfl, htask.trans (congrArg ReportCapability.taskId hcap)⟩
      · exact .inl hqm

theorem deliverable_pendingSession {kind : ReportKind} {spec : ReportEventSpec} {hash : String}
    (h : (d.reportRow spec kind hash e).deliverable true = true) :
    reportDelivery kind e ≠ .pendingSession := by
  intro hst
  obtain ⟨rfl, -⟩ := reportDelivery_pendingSession hst
  simp [ReportEvent.deliverable, DB.reportRow, hst] at h

theorem appendReport_ordered {c : ReportCapability} {spec : ReportEventSpec} {kind : ReportKind}
    {hash : String} (h : Ordered s) (htask : e.taskId = c.taskId)
    (hx : d.appendReport s c spec kind hash e = .ok s') : Ordered s' := by
  obtain ⟨hrows, -⟩ := appendReport_rows hx
  have hreport : ∀ r ∈ s'.reportEvents, r ∈ s.reportEvents ∨ r = d.reportRow spec kind hash e := by
    intro r hr
    rwa [Table.mem_def, hrows, List.mem_append, List.mem_singleton] at hr
  simp only [DB.appendReport, bind_ok_iff, require_ok, expect_ok, exists_const,
    Except.ok.injEq] at hx
  obtain ⟨-, events, -, order, horder, rfl⟩ := hx
  obtain ⟨hwaits, rfl⟩ | ⟨-, hd⟩ := orderDelivery_cases horder
  · refine h.shrink rfl (fun r hr hst => ⟨r, hr, hst, rfl, rfl⟩) fun r hr hdel => ?_
    obtain hr | rfl := hreport r hr
    · exact ⟨r, hr, hdel, rfl, rfl⟩
    · exact absurd (not_not.mp hwaits) (deliverable_pendingSession hdel)
  · refine h.deliver hd False True (fun hx => hx.1)
      (fun r hr _ => .inl hr) fun r hr _ => ?_
    exact (hreport r hr).imp_right fun heq => by rw [heq]; exact ⟨trivial, rfl, htask⟩

/-- An acknowledgement makes nothing deliverable. -/
theorem applyAckDecision_ordered {a : AckDecision} (h : Ordered s)
    (hx : d.applyAckDecision taskId s a = .ok s') : Ordered s' := by
  simp only [DB.applyAckDecision, bind_ok_iff, require_ok, expect_ok, exists_const] at hx
  obtain ⟨source, -, -, hx⟩ := hx
  split at hx
  · simp only [bind_ok_iff, require_ok, exists_const, Except.ok.injEq] at hx
    obtain ⟨-, rfl⟩ := hx
    exact h
  · simp only [DB.recordDecision, bind_ok_iff, require_ok, expect_ok, exists_const,
      Except.ok.injEq] at hx
    obtain ⟨-, _, -, -, decisions, -, rfl⟩ := hx
    refine h.shrink rfl (fun r' hr' hst => ?_) fun r' hr' hdel => ?_
    · simp only at hr'
      split at hr'
      · exact ⟨r', hr', hst, rfl, rfl⟩
      · obtain ⟨r, hr, rfl⟩ := (Table.mem_update (h := by intro _; rfl)).mp hr'
        unfold Table.patch at hst ⊢
        split at hst
        · cases hst
        · rename_i hsel
          rw [if_neg hsel]
          exact ⟨r, hr, hst, rfl, rfl⟩
    · simp only at hr'
      split at hr'
      · obtain ⟨r, hr, rfl⟩ := (Table.mem_update (h := by intro _; rfl)).mp hr'
        unfold Table.patch at hdel ⊢
        split at hdel
        · rename_i hsel
          rw [if_pos hsel]
          simp only [Bool.and_eq_true, decide_eq_true_eq] at hsel
          exact ⟨r, hr, by simp [ReportEvent.deliverable, hsel.2], rfl, rfl⟩
        · rename_i hsel
          rw [if_neg hsel]
          exact ⟨r, hr, hdel, rfl, rfl⟩
      · exact ⟨r', hr', hdel, rfl, rfl⟩

theorem applyAckDecisions_ordered {as : List AckDecision} (h : Ordered s)
    (hx : as.foldlM (d.applyAckDecision taskId) s = .ok s') : Ordered s' := by
  induction as generalizing s with
  | nil =>
    cases hx
    exact h
  | cons a as ih =>
    rw [List.foldlM_cons, bind_ok_iff] at hx
    obtain ⟨s₁, h₁, h₂⟩ := hx
    exact ih (applyAckDecision_ordered h h₁) h₂

theorem Ordered.keep (h : Ordered s) (horder : s'.deliveryOrder = s.deliveryOrder)
    (hruntime : s'.runtimeEvents = s.runtimeEvents) (hreports : s'.reportEvents = s.reportEvents) :
    Ordered s' :=
  h.shrink horder (fun r hr hst => ⟨r, hruntime ▸ hr, hst, rfl, rfl⟩)
    fun r hr hdel => ⟨r, hreports ▸ hr, hdel, rfl, rfl⟩

theorem Ordered.exec (h : Ordered s) (hb : Bound s) (hx : d.exec s op = .ok s') : Ordered s' := by
  have hw := exec_writes hx
  cases hw with
  | ack =>
    obtain ⟨u, hack⟩ := committed_ok.mp hx
    obtain ⟨-, heq⟩ | ⟨s₁, receipts, h₁, -, heq⟩ := ackDecisions_cases hack
    · rw [heq]
      exact h
    · rw [heq]
      exact (applyAckDecisions_ordered h h₁).keep rfl rfl rfl
  | claim hc =>
    obtain ⟨c₁, c₂, caps, -, -, -, rfl, -⟩ := launch_cases hc.launched
    exact h.keep rfl rfl rfl
  | report _ _ _ _ _ h₁ h₂ =>
    have hs₁ := appendReport_ordered h rfl h₁
    obtain ⟨core, questions, stops, rfl⟩ := askReported_frame h₂
    exact hs₁.keep rfl rfl rfl
  | event _ _ _ _ _ h₁ h₂ =>
    refine applyEvent_ordered (appendEvent_ordered h h₁) ?_ h₂
    obtain ⟨events, order, usage, rfl⟩ := appendEvent_frame h₁
    exact ⟨hb.launches, hb.capabilities, hb.reports⟩
  | _ => exact h.keep rfl rfl rfl

theorem ordered_of_reachable {limits : ConcurrencyLimits} (h : d.Reachable limits s) :
    Ordered s := by
  have hall : d.Reachable limits s ∧ Ordered s := by
    refine reachable_induct (P := fun s : State => d.Reachable limits s ∧ Ordered s)
      ⟨reachable_fresh d limits, .fresh limits⟩ ?_ h
    intro s op s' ⟨hr, hs⟩ hx
    exact ⟨step_of_exec hx ▸ reachable_step op hr, hs.exec (bound_of_reachable hr) hx⟩
  exact hall.2

/-! ## Growth -/

/-- The operation commits an event of a Host or a report. -/
def Op.commits : Op → Bool
  | .commitHostEvent _ _ | .commitReportEvent _ _ _ => true
  | _ => false

/-- Places are only added, and only by commits. -/
theorem Writes.places (h : Writes d s op s') :
    s.deliveryOrder.rows <+: s'.deliveryOrder.rows ∧
      (op.commits = false → s'.deliveryOrder = s.deliveryOrder) := by
  have hadds : ∀ {t : State} {deliver : Prop} [Decidable deliver] {id taskId : String}
      {order : Table DeliveryOrder.eventId}, t.orderDelivery deliver id taskId = .ok order →
      t.deliveryOrder.rows <+: order.rows := by
    intro t deliver _ id taskId order hx
    obtain ⟨-, rfl⟩ | ⟨-, hd⟩ := orderDelivery_cases hx
    · exact List.prefix_rfl
    · rw [Table.rows_insert hd]
      exact List.prefix_append _ _
  cases h with
  | claim h =>
    obtain ⟨c₁, c₂, caps, -, -, -, rfl, -⟩ := launch_cases h.launched
    exact ⟨List.prefix_rfl, fun _ => rfl⟩
  | report _ _ _ _ _ h₁ h₂ =>
    obtain ⟨core, questions, stops, rfl⟩ := askReported_frame h₂
    simp only [DB.appendReport, bind_ok_iff, require_ok, expect_ok, exists_const,
      Except.ok.injEq] at h₁
    obtain ⟨-, events, -, order, horder, rfl⟩ := h₁
    exact ⟨hadds horder, fun h => absurd h (by simp [Op.commits])⟩
  | event _ _ _ _ _ h₁ h₂ =>
    simp only [DB.appendEvent, bind_ok_iff, expect_ok, Except.ok.injEq] at h₁
    obtain ⟨events, -, order, horder, rfl⟩ := h₁
    refine ⟨(hadds horder).trans ?_, fun h => absurd h (by simp [Op.commits])⟩
    obtain ⟨hsame, -⟩ | ⟨r, c, -, -, hd⟩ := applyEvent_order h₂
    · simp only [hsame, List.prefix_rfl]
    · simp only [Table.rows_insert hd, List.prefix_append]
  | _ => exact ⟨List.prefix_rfl, fun _ => rfl⟩

theorem places_run (ops : List Op) :
    s.deliveryOrder.rows <+: (d.run s ops).deliveryOrder.rows := by
  induction ops generalizing s with
  | nil => exact List.prefix_rfl
  | cons op ops ih =>
    refine List.IsPrefix.trans ?_ ih
    exact step_induct (P := fun s' : State => s.deliveryOrder.rows <+: s'.deliveryOrder.rows)
      List.prefix_rfl fun s' hx => (exec_writes hx).places.1

theorem order_run (ops : List Op) (hquiet : ∀ op ∈ ops, op.commits = false) :
    (d.run s ops).deliveryOrder = s.deliveryOrder := by
  induction ops generalizing s with
  | nil => rfl
  | cons op ops ih =>
    refine (ih fun op' h => hquiet op' (List.mem_cons_of_mem op h)).trans ?_
    refine step_induct (P := fun s' : State => s'.deliveryOrder = s.deliveryOrder) rfl
      fun s' hx => ?_
    exact (exec_writes hx).places.2 (hquiet op List.mem_cons_self)

end Places
end Orchestrator.Store
