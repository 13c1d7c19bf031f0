import Orchestrator.Events.Pages
import Orchestrator.Library.Broadcast

/-!
# Waiting for events

The coordinator notifies waiting controllers when it has committed an event that
may have become pending. `wait-events` takes the signal, collects, and blocks
when there was nothing to return.
-/
namespace Orchestrator.Coordinator
open Library Store

structure WaitEventsRequest where
  taskId : String
  cursor : String
  deriving DecidableEq, Repr

/-- The kinds `commitHostEvent` notifies for. -/
def notifiesHostEvent : EventKind → Bool
  | .session | .question | .result | .failed | .unknown | .stopped => true
  | _ => false

/-- The handler of the operation calls `notifyActionableEvent` once it is committed. -/
def notifies : Op → Bool
  | .commitHostEvent _ event => notifiesHostEvent event.kind
  | .commitReportEvent _ _ spec => spec.kind ≠ "progress"
  | _ => false

/-- What the loop collects returns: an error, or a page with events. -/
def returns (d : DB) (s : State) (request : WaitEventsRequest) : Bool :=
  match d.collectPending s request.taskId request.cursor 8 false with
  | none => true
  | some page => page.events ≠ []

/-- The handlers of events and of `wait-events`, around the store. -/
def events (d : DB) : Service State Op WaitEventsRequest where
  exec s op := (d.exec s op).toOption
  announces := notifies
  answers := returns d

/-- The row is pending for the task, behind the cursor. -/
def Awaited (d : DB) (s : State) (request : WaitEventsRequest) (row : PendingRow) : Prop :=
  row ∈ s.pendingRows request.taskId false ∧
    ∃ ordinal, d.parseDeliveryCursor request.taskId request.cursor = some ordinal ∧
      ordinal < row.ordinal

/-- What is pending in `s'` was so in `s`. -/
structure Fades (s s' : State) : Prop where
  runtime : ∀ r ∈ s'.runtimeEvents, r.deliveryStatus = .pending → r ∈ s.runtimeEvents
  reports : ∀ r ∈ s'.reportEvents, r.deliveryStatus = .pending → r ∈ s.reportEvents

section
variable {d : DB} {env : Env} {limits : ConcurrencyLimits} {s s₁ s' : State} {op : Op} {e : Event}
  {taskId : String} {row : PendingRow} {request : WaitEventsRequest}

theorem Fades.trans (h : Fades s s₁) (h' : Fades s₁ s') : Fades s s' :=
  ⟨fun r hr hst => h.runtime r (h'.runtime r hr hst) hst,
    fun r hr hst => h.reports r (h'.reports r hr hst) hst⟩

theorem Fades.of_eq (hruntime : s'.runtimeEvents = s.runtimeEvents)
    (hreports : s'.reportEvents = s.reportEvents) : Fades s s' :=
  ⟨fun _ hr _ => hruntime ▸ hr, fun _ hr _ => hreports ▸ hr⟩

/-- Where nothing new is pending, the query shows nothing new. -/
theorem Fades.shows (h : Fades s s') (hplaces : s.deliveryOrder.rows <+: s'.deliveryOrder.rows)
    (hs : Ordered s) (hb : Bound s) (hb' : Bound s') (hrow : row ∈ s'.pendingRows taskId false) :
    row ∈ s.pendingRows taskId false := by
  obtain ⟨o, ho, htask, hord, hevent⟩ := mem_pendingRows.mp hrow
  -- the place is the one the event had before
  have hplace : ∀ {id task : String}, s.Places id task → o.eventId = id → o ∈ s.deliveryOrder := by
    rintro id task ⟨o', ho', hid, -⟩ hoid
    have hsame : o' = o := Table.eq_of_key (t := s'.deliveryOrder)
      (Table.mem_def.mpr (hplaces.subset ho')) ho (hid.trans hoid.symm)
    exact hsame ▸ ho'
  obtain hevent | hevent := List.mem_append.mp hevent
  · obtain ⟨r, hr, heq⟩ := List.mem_map.mp hevent
    simp only [List.mem_filter, Bool.and_eq_true, decide_eq_true_eq] at hr
    have hold := h.runtime r hr.1 hr.2.2
    have hoid : o.eventId = r.eventId := (congrArg Prod.fst heq).symm
    refine mem_pendingRows.mpr ⟨o, hplace (hs.runtime r hold hr.2.2) hoid, htask, hord, ?_⟩
    refine List.mem_append_left _ (List.mem_map.mpr ⟨r, ?_, heq⟩)
    simpa only [List.mem_filter, Bool.and_eq_true, decide_eq_true_eq] using ⟨hold, hr.2⟩
  · obtain ⟨r, hr, heq⟩ := List.mem_map.mp hevent
    simp only [List.mem_filter, Bool.and_eq_true, ReportEvent.deliverable, Bool.false_and,
      Bool.or_false, decide_eq_true_eq, Option.any_eq_true] at hr
    obtain ⟨hm, hst, c, hc, hct⟩ := hr
    have hold := h.reports r hm hst
    have hoid : o.eventId = r.eventId := (congrArg Prod.fst heq).symm
    have hany : r.deliverable true = true := by simp [ReportEvent.deliverable, hst]
    refine mem_pendingRows.mpr ⟨o, hplace (hs.reports r hold hany) hoid, htask, hord, ?_⟩
    refine List.mem_append_right _ (List.mem_map.mpr ⟨r, ?_, heq⟩)
    -- the capability names the task of the report, in both states
    obtain ⟨c', hc', hcid', -, htask', -⟩ := hb.reports r hold
    obtain ⟨k, hk, hkid, -, hktask, -⟩ := hb'.reports r hm
    have hkc : k = c := by
      rw [← hkid, Table.find?_of_mem hk] at hc
      exact Option.some.inj hc
    simp only [List.mem_filter, Bool.and_eq_true, ReportEvent.deliverable, Bool.false_and,
      Bool.or_false, decide_eq_true_eq, Option.any_eq_true]
    refine ⟨hold, hst, c', ?_, ?_⟩
    · rw [← hcid']
      exact Table.find?_of_mem hc'
    · rw [← htask', hktask, hkc]
      exact hct

/-! ## Operations that do not notify -/

theorem applyAckDecision_fades {a : AckDecision} (h : d.applyAckDecision taskId s a = .ok s') :
    Fades s s' := by
  simp only [DB.applyAckDecision, bind_ok_iff, require_ok, expect_ok, exists_const] at h
  obtain ⟨source, -, -, h⟩ := h
  split at h
  · simp only [bind_ok_iff, require_ok, exists_const, Except.ok.injEq] at h
    obtain ⟨-, rfl⟩ := h
    exact .of_eq rfl rfl
  · simp only [DB.recordDecision, bind_ok_iff, require_ok, expect_ok, exists_const,
      Except.ok.injEq] at h
    obtain ⟨-, _, -, -, decisions, -, rfl⟩ := h
    constructor
    · intro r' hr' hst
      simp only at hr'
      split at hr'
      · exact hr'
      · obtain ⟨r, hr, rfl⟩ := (Table.mem_update (h := by intro _; rfl)).mp hr'
        unfold Table.patch at hst ⊢
        split at hst
        · cases hst
        · rename_i hsel
          rwa [if_neg hsel]
    · intro r' hr' hst
      simp only at hr'
      split at hr'
      · obtain ⟨r, hr, rfl⟩ := (Table.mem_update (h := by intro _; rfl)).mp hr'
        unfold Table.patch at hst ⊢
        split at hst
        · cases hst
        · rename_i hsel
          rwa [if_neg hsel]
      · exact hr'

theorem applyAckDecisions_fades {as : List AckDecision}
    (h : as.foldlM (d.applyAckDecision taskId) s = .ok s') : Fades s s' := by
  induction as generalizing s with
  | nil =>
    cases h
    exact .of_eq rfl rfl
  | cons a as ih =>
    rw [List.foldlM_cons, bind_ok_iff] at h
    obtain ⟨s₁, h₁, h₂⟩ := h
    exact (applyAckDecision_fades h₁).trans (ih h₂)

/-- An event the handler does not notify for is internal, and releases no report. -/
theorem commitEvent_fades (hquiet : notifiesHostEvent e.kind = false)
    (h₁ : d.appendEvent s e = .ok s₁) (h₂ : d.applyEvent env s₁ e = .ok s') : Fades s s' := by
  have hrows := appendEvent_rows h₁
  have hinternal : deliveryStatusOf e.kind = .internal := by
    cases hk : e.kind with
    | other text =>
      rw [DB.applyEvent, hk] at h₂
      cases h₂
    | _ => first | rfl | (rw [hk] at hquiet; cases hquiet)
  have hreports : s'.reportEvents = s.reportEvents := by
    obtain ⟨events, order, usage, rfl⟩ := appendEvent_frame h₁
    obtain hsame | ⟨r, hk, -, -⟩ := applyEvent_reports h₂
    · exact hsame
    · rw [hk] at hquiet
      cases hquiet
  have hruntime : s'.runtimeEvents = s₁.runtimeEvents := by
    obtain ⟨core, reports, order, questions, sessions, stops, rfl⟩ := applyEvent_frame h₂
    rfl
  refine ⟨fun r hr hst => ?_, fun r hr _ => hreports ▸ hr⟩
  rw [hruntime, Table.mem_def, hrows, List.mem_append, List.mem_singleton] at hr
  obtain hr | rfl := hr
  · exact hr
  · rw [DB.runtimeEventRow, hinternal] at hst
    cases hst

/-- An operation whose handler does not notify makes nothing pending. -/
theorem quiet_fades (hquiet : notifies op = false) (hx : d.exec s op = .ok s') : Fades s s' := by
  have hw := exec_writes hx
  cases hw with
  | ack =>
    obtain ⟨u, hack⟩ := committed_ok.mp hx
    obtain ⟨-, heq⟩ | ⟨s₁, receipts, h₁, -, heq⟩ := ackDecisions_cases hack
    · exact heq ▸ .of_eq rfl rfl
    · exact heq ▸ (applyAckDecisions_fades h₁).trans (.of_eq rfl rfl)
  | claim hc =>
    obtain ⟨c₁, c₂, caps, -, -, -, rfl, -⟩ := launch_cases hc.launched
    exact .of_eq rfl rfl
  | @report _ _ spec _ kind _ _ _ _ _ _ _ hkind _ _ h₁ h₂ =>
    have hprogress : spec.kind = "progress" := by simpa [notifies] using hquiet
    obtain rfl : kind = .progress := by
      rw [hprogress] at hkind
      exact (Option.some.inj hkind).symm
    cases h₂
    obtain ⟨hrows, -⟩ := appendReport_rows h₁
    obtain ⟨row, events, order, usage, -, -, -, rfl⟩ := appendReport_frame h₁
    refine ⟨fun r hr _ => hr, fun r hr hst => ?_⟩
    rw [Table.mem_def, hrows, List.mem_append, List.mem_singleton] at hr
    obtain hr | rfl := hr
    · exact hr
    · cases hst
  | event _ _ _ _ _ h₁ h₂ => exact commitEvent_fades hquiet h₁ h₂
  | _ => exact .of_eq rfl rfl

/-! ## Waiting -/

/-- A page without events leaves nothing pending behind the cursor. -/
theorem returns_of_awaited (hs : Ordered s) (h : Awaited d s request row) :
    returns d s request = true := by
  obtain ⟨hrow, ordinal, hcursor, hlt⟩ := h
  have hcuts := collectPage_cuts (p := d.toPlatform) request.taskId ordinal 8 false hs
  have hne : (d.collectPage s request.taskId ordinal 8 false).rows ≠ [] := by
    intro hempty
    cases hn : (d.collectPage s request.taskId ordinal 8 false).next with
    | none =>
      have hall := hcuts.all hn
      have hm : row ∈ (s.pendingRows request.taskId false).filter
          fun row => ordinal < row.ordinal :=
        List.mem_filter.mpr ⟨hrow, decide_eq_true hlt⟩
      rw [← hall, PageBuffer.page, hempty] at hm
      cases hm
    | some n =>
      obtain ⟨last, hlast, -⟩ := hcuts.last n hn
      rw [PageBuffer.page, hempty] at hlast
      cases hlast
  unfold returns
  rw [Platform.collectPending, Platform.collectRows, hcursor, Option.map_some, Option.map_some]
  exact decide_eq_true fun h => hne (List.map_eq_nil_iff.mp h)

theorem accepted_iff : (events d).exec s op = some s' ↔ d.exec s op = .ok s' := by
  change (d.exec s op).toOption = some s' ↔ d.exec s op = .ok s'
  cases d.exec s op with
  | ok s₁ => exact ⟨fun h => congrArg _ (Option.some.inj h), fun h => congrArg _ (Except.ok.inj h)⟩
  | error e => exact ⟨nofun, nofun⟩

theorem events_shows : (events d).Shows (d.Reachable limits) (Awaited d) := by
  refine ⟨fun {s op s'} hr hx => ?_, fun {s op s' request row} hr hx hquiet hrow => ?_,
    fun hr h => returns_of_awaited (ordered_of_reachable hr) h⟩
  · exact step_of_exec (accepted_iff.mp hx) ▸ reachable_step op hr
  · have hexec : d.exec s op = .ok s' := accepted_iff.mp hx
    have hr' : d.Reachable limits s' := step_of_exec hexec ▸ reachable_step op hr
    refine ⟨?_, hrow.2⟩
    exact (quiet_fades hquiet hexec).shows (exec_writes hexec).places.1 (ordered_of_reachable hr)
      (bound_of_reachable hr) (bound_of_reachable hr') hrow.1

/-- A coordinator that has just started on a database. -/
def started (s : State) : Broadcast State WaitEventsRequest := .fresh s

/-- A controller blocked under an open signal has missed only events whose handler is still to
notify; and whoever makes an event pending goes on to notify. -/
theorem waiters_notified (d : DB) (limits : ConcurrencyLimits) (ops : List Op)
    (steps : List (BroadcastStep Op WaitEventsRequest)) :
    (∀ w request signal, ((events d).run
      (started (d.run (State.fresh limits) ops)) steps).waiters w =
        some ⟨request, .blocked signal⟩ →
      signal ∉ ((events d).run (started (d.run (State.fresh limits) ops)) steps).signals.closed →
      ∀ row, Awaited d ((events d).run (started (d.run (State.fresh limits) ops)) steps).shared
        request row →
      (events d).Owes (Awaited d) (started (d.run (State.fresh limits) ops)) steps request row) ∧
    ∀ a request row,
      ¬ Awaited d ((events d).run (started (d.run (State.fresh limits) ops)) steps).shared
        request row →
      Awaited d ((events d).run (started (d.run (State.fresh limits) ops)) (steps ++ [a])).shared
        request row →
      ∃ h op, a = .write h op ∧ notifies op = true ∧ ∀ after, BroadcastStep.announce h ∉ after →
        ((events d).run (started (d.run (State.fresh limits) ops))
          (steps ++ [a] ++ after)).announcing h = true := by
  have hr : d.Reachable limits (d.run (State.fresh limits) ops) := ⟨ops, rfl⟩
  have hshows : (events d).Shows (d.Reachable limits) (Awaited d) := events_shows
  refine ⟨no_lost_wakeup hshows hr, fun a request row hbefore hafter => ?_⟩
  have hrun : (events d).run (started (d.run (State.fresh limits) ops)) (steps ++ [a]) =
      (events d).step ((events d).run (started (d.run (State.fresh limits) ops)) steps) a :=
    run_concat
  rw [hrun] at hafter
  obtain hold | ⟨h, op, rfl, hop, hann⟩ := hshows.step (run_shared hshows hr) hafter
  · exact absurd hold hbefore
  · refine ⟨h, op, rfl, hop, fun after hnone => ?_⟩
    have hsplit : (events d).run (started (d.run (State.fresh limits) ops))
        (steps ++ [BroadcastStep.write h op] ++ after) = (events d).run ((events d).run
          (started (d.run (State.fresh limits) ops)) (steps ++ [BroadcastStep.write h op])) after :=
      run_append
    rw [hsplit, hrun]
    exact announcing_run hann hnone

end

/-- A controller waits for task `a`; the handler of its result has committed it. -/
def waitingSteps : List (BroadcastStep Op WaitEventsRequest) :=
  [.arrive 0 ⟨"a", ""⟩, .capture 0, .look 0, .write 0 (toyCommit "a" 11 1 .result)]

def claimedOps : List Op := toyStart [toyTask "a" 1 []] ++ [toyClaim 11]

theorem result_owed : ∃ row, row.event.kind = .result ∧
    Awaited toyDB ((events toyDB).run (started (toyDB.run (State.fresh {}) claimedOps))
      waitingSteps).shared ⟨"a", ""⟩ row ∧
    (events toyDB).Owes (Awaited toyDB) (started (toyDB.run (State.fresh {}) claimedOps))
      waitingSteps ⟨"a", ""⟩ row := by
  have hfacts : ((events toyDB).run (started (toyDB.run (State.fresh {}) claimedOps))
        waitingSteps).waiters 0 = some ⟨⟨"a", ""⟩, .blocked 0⟩ ∧
      0 ∉ ((events toyDB).run (started (toyDB.run (State.fresh {}) claimedOps))
        waitingSteps).signals.closed ∧
      (((events toyDB).run (started (toyDB.run (State.fresh {}) claimedOps))
        waitingSteps).shared.pendingRows "a" false).any
          (fun row => decide (row.event.kind = .result) && decide (0 < row.ordinal)) = true := by
    decide +kernel
  obtain ⟨hwait, hopen, hrows⟩ := hfacts
  obtain ⟨row, hrow, hkind⟩ := List.any_eq_true.mp hrows
  rw [Bool.and_eq_true, decide_eq_true_eq, decide_eq_true_eq] at hkind
  have hcursor : toyDB.parseDeliveryCursor "a" "" = some 0 := if_pos rfl
  have hawaited : Awaited toyDB ((events toyDB).run
      (started (toyDB.run (State.fresh {}) claimedOps)) waitingSteps).shared ⟨"a", ""⟩ row :=
    ⟨hrow, 0, hcursor, hkind.2⟩
  exact ⟨row, hkind.1, hawaited, (waiters_notified toyDB {} claimedOps waitingSteps).1 0 ⟨"a", ""⟩ 0
    hwait hopen row hawaited⟩

end Orchestrator.Coordinator
