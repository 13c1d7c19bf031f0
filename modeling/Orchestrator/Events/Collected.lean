import Orchestrator.Events.Acks
import Orchestrator.Events.Held
import Orchestrator.Fleet.Rebinds
import Orchestrator.Store.Collect
import Orchestrator.Store.Collection

/-!
# Acknowledging a collected page

An acknowledgement in collect mode decides on every event of one page that was handed out before,
and on nothing else.
-/
namespace Orchestrator.Store
open Library

/-! ## Bindings -/

section Bindings
variable {bindings : List CollectionBinding} {as : List AckDecision} {eventId : String}

theorem expectedBinding_mem (hid : (expectedBinding bindings eventId).id ≠ "") :
    expectedBinding bindings eventId ∈ bindings := by
  unfold expectedBinding at hid ⊢
  cases hfind : bindings.reverse.find? (fun b => b.id = eventId) with
  | none =>
    rw [hfind] at hid
    exact absurd rfl hid
  | some b => exact List.mem_reverse.mp (List.mem_of_find?_eq_some hfind)

/-- Decisions of distinct slots, as many as there are bindings and each expected, are on all of
them. -/
theorem bindings_perm (hslots : (as.map AckDecision.actionSlot).Nodup)
    (hids : ∀ a ∈ as, a.eventId ≠ "") (hlength : bindings.length = as.length)
    (hexpected : ∀ a ∈ as, expectedBinding bindings a.eventId = a.binding) :
    (as.map AckDecision.binding).Perm bindings := by
  have hnodup : (as.map AckDecision.binding).Nodup := by
    refine List.Nodup.of_map CollectionBinding.slot ?_
    rwa [List.map_map]
  have hsubset : as.map AckDecision.binding ⊆ bindings := by
    intro b hb
    obtain ⟨a, ha, rfl⟩ := List.mem_map.mp hb
    rw [← hexpected a ha]
    refine expectedBinding_mem ?_
    rw [hexpected a ha]
    exact hids a ha
  refine (List.subperm_of_subset hnodup hsubset).perm_of_length_le ?_
  rw [List.length_map, hlength]

end Bindings

/-! ## Delivery modes -/

section Modes
variable {d : DB} {limits : ConcurrencyLimits} {s s' : State} {op : Op} {taskId : String}
  {mode : DeliveryMode}

theorem deliveryMode_eq_some : s.deliveryMode taskId = some mode ↔
    ∃ t ∈ s.tasks, t.id = taskId ∧ ∃ run ∈ s.runs, run.id = t.runId ∧ run.deliveryMode = mode := by
  simp only [State.deliveryMode, Option.bind_eq_some_iff, Option.map_eq_some_iff,
    Table.find?_eq_some, and_assoc]

/-- A run is delivered the same way for ever. -/
theorem exec_deliveryMode (hb : Bound s) (hx : d.exec s op = .ok s')
    (h : s.deliveryMode taskId = some mode) : s'.deliveryMode taskId = some mode := by
  obtain ⟨t, ht, rfl, run, hrun, hid, rfl⟩ := deliveryMode_eq_some.mp h
  obtain ⟨t', ht', hst⟩ := (exec_effect hb hx).step.grows.task ht
  obtain ⟨run', hrun', hid', hmode⟩ := exec_deliveryMode_of_run hx hrun
  refine deliveryMode_eq_some.mpr ⟨t', ht', Task.static_id hst, run', hrun', ?_, hmode⟩
  rw [hid', hid, Task.static_runId hst]

end Modes

/-! ## Calls -/

section Calls
variable {d : DB} {limits : ConcurrencyLimits} {c c' c₀ : Collection} {call : Call}
  {calls : List Call} {taskId id historyProof collectionProof proof : String}
  {as : List AckDecision} {events : List Event} {row : CollectionReceipt}

/-- Some call returned the page under this id and proof. -/
def DB.Returned (d : DB) (c : Collection) (calls : List Call) (taskId id proof : String)
    (events : List Event) : Prop :=
  ∃ before, before ++ [Call.collectionReceipt taskId events] <+: calls ∧
    ∃ c', d.collectionReceipt (d.served c before) taskId events = .ok (c', id, proof)

theorem DB.Returned.mono {more : List Call} (h : d.Returned c calls taskId id proof events) :
    d.Returned c (calls ++ more) taskId id proof events := by
  obtain ⟨before, hahead, hreturned⟩ := h
  exact ⟨before, hahead.trans (List.prefix_append _ _), hreturned⟩

/-- A page leaves the store alone, and adds at most the row of what it returns. -/
theorem collectionReceipt_cases (h : d.collectionReceipt c taskId events = .ok (c', id, proof)) :
    c'.store = c.store ∧ ∀ row ∈ c'.receipts, row ∈ c.receipts ∨
      row = ⟨id, taskId, proof, collectionBindings events⟩ := by
  simp only [DB.collectionReceipt, bind_ok_iff, expect_ok] at h
  obtain ⟨mode, -, h⟩ := h
  split at h
  · cases h
    exact ⟨rfl, fun _ hrow => .inl hrow⟩
  split at h
  · cases h
    exact ⟨rfl, fun _ hrow => .inl hrow⟩
  · cases h
    refine ⟨rfl, fun row hrow => ?_⟩
    dsimp only at hrow
    generalize hins : c.receipts.insert? _ = receipts at hrow
    cases receipts with
    | none => exact .inl hrow
    | some receipts => exact (Table.mem_insert hins).mp hrow

theorem acknowledge_cases (h : d.acknowledge c taskId id proof as = .ok c') :
    ∃ s, d.ackDecisions c.store taskId id proof as = .ok (s, ()) ∧ c' = { c with store := s } := by
  unfold DB.acknowledge at h
  split at h
  · rename_i s u heq
    cases h
    exact ⟨s, heq, rfl⟩
  · cases h

/-- An acknowledgement that succeeds carries the one proof of the run's mode. -/
theorem ackDelivery_cases
    (h : d.ackDelivery c taskId id historyProof collectionProof as = .ok c') :
    (c.store.deliveryMode taskId = some .native ∧ collectionProof = "" ∧
        d.acknowledge c taskId id historyProof as = .ok c') ∨
      (c.store.deliveryMode taskId = some .collect ∧ historyProof = "" ∧
        (∃ row ∈ c.receipts, row.id = id ∧ row.taskId = taskId ∧
          row.proofHash = d.toLower collectionProof ∧ row.bindings.length = as.length ∧
          ∀ a ∈ as, expectedBinding row.bindings a.eventId = a.binding) ∧
        d.acknowledge c taskId id collectionProof as = .ok c') := by
  simp only [DB.ackDelivery, bind_ok_iff, expect_ok] at h
  obtain ⟨mode, hmode, h⟩ := h
  split at h
  · rename_i hnative
    simp only [bind_ok_iff, require_ok, exists_const] at h
    exact .inl ⟨hnative ▸ hmode, h.1, h.2⟩
  · rename_i hnative
    have hcollect : mode = .collect := by
      cases mode with
      | native => exact absurd rfl hnative
      | collect => rfl
    simp only [bind_ok_iff, require_ok, expect_ok, exists_const] at h
    obtain ⟨⟨hhistory, -⟩, row, hrow, ⟨htask, hproof⟩, hlength, hexpected, h⟩ := h
    obtain ⟨hm, hid⟩ := Table.find?_eq_some.mp hrow
    exact .inr ⟨hcollect ▸ hmode, hhistory, ⟨row, hm, hid, htask, hproof, hlength, hexpected⟩, h⟩

theorem serve_collectionReceipt (c : Collection) (taskId : String) (events : List Event) :
    d.serve c (.collectionReceipt taskId events) = c ∨
      ∃ id proof, d.collectionReceipt c taskId events =
        .ok (d.serve c (.collectionReceipt taskId events), id, proof) := by
  cases hx : d.collectionReceipt c taskId events with
  | error e =>
    left
    rw [DB.serve, hx]
  | ok returned =>
    right
    rw [DB.serve, hx]
    exact ⟨_, _, rfl⟩

theorem serve_of_error {e : DeliveryError}
    (h : d.ackDelivery c taskId id historyProof collectionProof as = .error e) :
    d.serve c (.ackDelivery taskId id historyProof collectionProof as) = c := by
  rw [DB.serve, h]

theorem serve_of_ok (h : d.ackDelivery c taskId id historyProof collectionProof as = .ok c') :
    d.serve c (.ackDelivery taskId id historyProof collectionProof as) = c' := by
  rw [DB.serve, h]

/-- A call makes at most one step of the store. -/
theorem serve_store (c : Collection) (call : Call) :
    (d.serve c call).store = c.store ∨ ∃ op, (d.serve c call).store = d.step c.store op := by
  cases call with
  | store op => exact .inr ⟨op, rfl⟩
  | collectionReceipt taskId events =>
    left
    obtain heq | ⟨id, proof, heq⟩ := serve_collectionReceipt (d := d) c taskId events
    · rw [heq]
    · exact (collectionReceipt_cases heq).1
  | ackDelivery taskId id historyProof collectionProof as =>
    cases hx : d.ackDelivery c taskId id historyProof collectionProof as with
    | error e => exact .inl (congrArg Collection.store (serve_of_error hx))
    | ok c' =>
      rw [serve_of_ok hx]
      have hstep : ∀ proof, d.acknowledge c taskId id proof as = .ok c' →
          ∃ op, c'.store = d.step c.store op := by
        intro proof hack
        obtain ⟨s, hs, rfl⟩ := acknowledge_cases hack
        have hexec : d.exec c.store (.ackDecisions taskId id proof as) = .ok s :=
          committed_ok.mpr ⟨(), hs⟩
        exact ⟨_, (step_of_exec hexec).symm⟩
      obtain ⟨-, -, hack⟩ | ⟨-, -, -, hack⟩ := ackDelivery_cases hx
      · exact .inr (hstep _ hack)
      · exact .inr (hstep _ hack)

theorem reachable_serve (h : d.Reachable limits c.store) (call : Call) :
    d.Reachable limits (d.serve c call).store := by
  obtain heq | ⟨op, heq⟩ := serve_store (d := d) c call
  · rwa [heq]
  · rw [heq]
    exact reachable_step op h

theorem served_reachable (calls : List Call) :
    d.Reachable limits (d.served (.fresh limits) calls).store :=
  run_invariant (I := fun c : Collection => d.Reachable limits c.store)
    (reachable_fresh d limits) fun _ call h => reachable_serve h call

theorem serve_deliveryMode (hr : d.Reachable limits c.store) {mode : DeliveryMode}
    (h : c.store.deliveryMode taskId = some mode) (call : Call) :
    (d.serve c call).store.deliveryMode taskId = some mode := by
  obtain heq | ⟨op, heq⟩ := serve_store (d := d) c call
  · rwa [heq]
  · rw [heq]
    exact step_induct (P := fun s : State => s.deliveryMode taskId = some mode) h fun s' hx =>
      exec_deliveryMode (bound_of_reachable hr) hx h

theorem served_deliveryMode (hr : d.Reachable limits c.store) {mode : DeliveryMode}
    (h : c.store.deliveryMode taskId = some mode) (more : List Call) :
    (d.served c more).store.deliveryMode taskId = some mode := by
  have hall : d.Reachable limits (d.served c more).store ∧
      (d.served c more).store.deliveryMode taskId = some mode :=
    run_invariant (I := fun c : Collection => d.Reachable limits c.store ∧
      c.store.deliveryMode taskId = some mode) ⟨hr, h⟩ fun _ call hc =>
        ⟨reachable_serve hc.1 call, serve_deliveryMode hc.1 hc.2 call⟩
  exact hall.2

/-- Every receipt is that of a page some call returned. -/
theorem receipts_returned (calls : List Call) :
    ∀ row ∈ (d.served (.fresh limits) calls).receipts, ∃ events,
      row.bindings = collectionBindings events ∧
        d.Returned (.fresh limits) calls row.taskId row.id row.proofHash events := by
  induction calls using List.reverseRecOn with
  | nil => exact fun _ h => absurd h (Table.not_mem_empty _)
  | append_singleton calls call ih =>
    have hold : ∀ row ∈ (d.served (.fresh limits) calls).receipts, ∃ events,
        row.bindings = collectionBindings events ∧ d.Returned (.fresh limits) (calls ++ [call])
          row.taskId row.id row.proofHash events := by
      intro row hrow
      obtain ⟨events, hbindings, hreturned⟩ := ih row hrow
      exact ⟨events, hbindings, hreturned.mono⟩
    rw [DB.served, run_concat]
    change ∀ row ∈ (d.serve (d.served (.fresh limits) calls) call).receipts, _
    cases call with
    | store op => exact hold
    | collectionReceipt taskId events =>
      intro row hrow
      obtain heq | ⟨id, proof, heq⟩ := serve_collectionReceipt (d := d)
        (d.served (.fresh limits) calls) taskId events
      · rw [heq] at hrow
        exact hold row hrow
      · obtain hm | rfl := (collectionReceipt_cases heq).2 row hrow
        · exact hold row hm
        · exact ⟨events, rfl, calls, List.prefix_rfl, _, heq⟩
    | ackDelivery taskId id historyProof collectionProof as =>
      intro row hrow
      cases hx : d.ackDelivery (d.served (.fresh limits) calls) taskId id historyProof
          collectionProof as with
      | error e =>
        rw [serve_of_error hx] at hrow
        exact hold row hrow
      | ok c' =>
        rw [serve_of_ok hx] at hrow
        have hkept : ∀ proof, d.acknowledge (d.served (.fresh limits) calls) taskId id proof as =
            .ok c' → c'.receipts = (d.served (.fresh limits) calls).receipts := by
          intro proof hack
          obtain ⟨s, -, rfl⟩ := acknowledge_cases hack
          rfl
        obtain ⟨-, -, hack⟩ | ⟨-, -, -, hack⟩ := ackDelivery_cases hx
        · exact hold row (hkept _ hack ▸ hrow)
        · exact hold row (hkept _ hack ▸ hrow)

end Calls

/-! ## Acknowledged pages -/

/-- The event is stored as the page has it, and acknowledged. -/
def State.HasAcked (s : State) (d : DB) (e : Event) : Prop :=
  ∃ x ∈ s.deliveries, x.eventId = e.eventId ∧ x.eventRevision = e.eventRevision ∧
    x.payloadHash = d.toLower e.payloadHash ∧ x.actionSlot = e.actionSlot ∧ x.status = .acked

instance (s : State) (d : DB) (e : Event) : Decidable (s.HasAcked d e) :=
  inferInstanceAs (Decidable (∃ x ∈ s.deliveries, _))

/-- The acknowledgement is refused, and changes nothing. -/
def DB.Refuses (d : DB) (c : Collection) (taskId id historyProof collectionProof : String)
    (as : List AckDecision) : Prop :=
  (∃ e, d.ackDelivery c taskId id historyProof collectionProof as = .error e) ∧
    d.serve c (.ackDelivery taskId id historyProof collectionProof as) = c

/-- What an accepted acknowledgement does: nothing if it is the repetition of one on record, and
else it acknowledges the decided part of the page. -/
def DB.Acknowledges (d : DB) (c c' : Collection) (taskId id proof : String) (as : List AckDecision)
    (events : List Event) : Prop :=
  (c' = c ∧ ⟨id, taskId, d.toLower proof, d.runtimeHash (d.encodeDecisions as)⟩ ∈
      c.store.deliveryReceipts) ∨
    (c'.receipts = c.receipts ∧ Acknowledged d c.store c'.store as ∧
      c.store.deliveryReceipts.insert?
        ⟨id, taskId, d.toLower proof, d.runtimeHash (d.encodeDecisions as)⟩ =
          some c'.store.deliveryReceipts ∧
      ∀ e ∈ events, actionable e = true → c'.store.HasAcked d e)

section Pages
variable {d : DB} {limits : ConcurrencyLimits} {c c' : Collection} {s' : State}
  {taskId id historyProof collectionProof proof : String} {as : List AckDecision}
  {events : List Event} {u : Unit}

theorem ackDecisions_valid (h : d.ackDecisions c.store taskId id proof as = .ok (s', u)) :
    (∀ a ∈ as, a.valid) ∧ (as.map AckDecision.actionSlot).Nodup := by
  simp only [DB.ackDecisions, bind_ok_iff, require_ok, exists_const] at h
  exact h.2.1

theorem refuses_of_not_ok
    (h : ∀ c', d.ackDelivery c taskId id historyProof collectionProof as ≠ .ok c') :
    d.Refuses c taskId id historyProof collectionProof as := by
  cases hx : d.ackDelivery c taskId id historyProof collectionProof as with
  | error e => exact ⟨⟨e, hx⟩, serve_of_error hx⟩
  | ok c' => exact absurd hx (h c')

/-- Every actionable event of the page has its decision, which acknowledges it. -/
theorem hasAcked_of_perm (hdecided : Acknowledged d c.store s' as)
    (hperm : (as.map AckDecision.binding).Perm (collectionBindings events)) :
    ∀ e ∈ events, actionable e = true → s'.HasAcked d e := by
  intro e he hactionable
  have hbinding : eventBinding e ∈ collectionBindings events :=
    List.mem_map_of_mem (List.mem_filter.mpr ⟨he, hactionable⟩)
  obtain ⟨a, ha, heq⟩ := List.mem_map.mp (hperm.mem_iff.mpr hbinding)
  obtain ⟨x, hx, hfor, hst, -⟩ := hdecided.decided a ha
  have hid : a.eventId = e.eventId := congrArg CollectionBinding.id heq
  have hrevision : a.eventRevision = e.eventRevision := congrArg CollectionBinding.revision heq
  have hhash : a.eventHash = e.payloadHash := congrArg CollectionBinding.hash heq
  have hslot : a.actionSlot = e.actionSlot := congrArg CollectionBinding.slot heq
  exact ⟨x, hx, hfor.eventId.symm.trans hid, hfor.eventRevision.symm.trans hrevision,
    by rw [← hfor.eventHash, hhash], hfor.actionSlot.symm.trans hslot, hst⟩

theorem acknowledges (hr : d.Reachable limits c.store) (hslots : SlotsApart d c.store)
    (hperm : (as.map AckDecision.binding).Perm (collectionBindings events))
    (h : d.ackDecisions c.store taskId id proof as = .ok (s', u)) :
    d.Acknowledges c { c with store := s' } taskId id proof as events := by
  obtain ⟨hstored, rfl⟩ | ⟨s₁, receipts, h₁, hi, rfl⟩ := ackDecisions_cases h
  · exact .inl ⟨rfl, hstored⟩
  · have hbatch := acknowledged_batch (acks_of_reachable hr) hslots (slotted_of_reachable hr) h₁
    obtain ⟨hdec, hrows, hothers, hrest⟩ := hbatch
    have hall : Acknowledged d c.store { s₁ with deliveryReceipts := receipts } as := by
      refine ⟨hdec, hrows, hothers, ?_⟩
      rw [hrest]
    exact .inr ⟨rfl, hall, hi, hasAcked_of_perm hall hperm⟩

end Pages

/-- In collect mode an acknowledgement succeeds only for the decided part of one page that was
returned under its id and proof, and acknowledges all of that part. Each mode takes its own proof
alone, and a run keeps its mode. -/
theorem collected_page_acknowledged (d : DB) (limits : ConcurrencyLimits) (calls : List Call)
    {c : Collection} (hc : d.served (.fresh limits) calls = c) (hslots : SlotsApart d c.store)
    (taskId : String) :
    (∀ mode, c.store.deliveryMode taskId = some mode →
      ∀ more, (d.served c more).store.deliveryMode taskId = some mode) ∧
    ∀ id historyProof collectionProof as,
      (c.store.deliveryMode taskId = some .native → collectionProof ≠ "" →
        d.Refuses c taskId id historyProof collectionProof as) ∧
      (c.store.deliveryMode taskId = some .collect → historyProof ≠ "" →
        d.Refuses c taskId id historyProof collectionProof as) ∧
      (c.store.deliveryMode taskId = some .collect →
        d.Refuses c taskId id historyProof collectionProof as ∨
        ∃ c' events, d.ackDelivery c taskId id historyProof collectionProof as = .ok c' ∧
          d.Returned (.fresh limits) calls taskId id (d.toLower collectionProof) events ∧
          (as.map AckDecision.binding).Perm (collectionBindings events) ∧
          d.Acknowledges c c' taskId id collectionProof as events) := by
  have hr : d.Reachable limits c.store := hc ▸ served_reachable calls
  refine ⟨fun mode h more => served_deliveryMode hr h more,
    fun id historyProof collectionProof as => ⟨fun hmode hproof => ?_, fun hmode hproof => ?_,
      fun hmode => ?_⟩⟩
  · refine refuses_of_not_ok fun c' hx => ?_
    obtain ⟨-, hempty, -⟩ | ⟨hcollect, -⟩ := ackDelivery_cases hx
    · exact hproof hempty
    · rw [hmode] at hcollect
      cases hcollect
  · refine refuses_of_not_ok fun c' hx => ?_
    obtain ⟨hnative, -⟩ | ⟨-, hempty, -⟩ := ackDelivery_cases hx
    · rw [hmode] at hnative
      cases hnative
    · exact hproof hempty
  · cases hx : d.ackDelivery c taskId id historyProof collectionProof as with
    | error e => exact .inl ⟨⟨e, hx⟩, serve_of_error hx⟩
    | ok c' =>
      right
      obtain ⟨hnative, -⟩ | ⟨-, -, ⟨row, hrow, rfl, rfl, hproof, hlength, hexpected⟩, hack⟩ :=
        ackDelivery_cases hx
      · rw [hmode] at hnative
        cases hnative
      obtain ⟨s', hs', rfl⟩ := acknowledge_cases hack
      obtain ⟨hvalid, hnodup⟩ := ackDecisions_valid hs'
      have hrow' : row ∈ (d.served (.fresh limits) calls).receipts := by rwa [hc]
      obtain ⟨events, hbindings, hreturned⟩ := receipts_returned calls row hrow'
      rw [hproof] at hreturned
      have hperm : (as.map AckDecision.binding).Perm (collectionBindings events) := by
        rw [← hbindings]
        exact bindings_perm hnodup (fun a ha => (hvalid a ha).1) hlength hexpected
      exact ⟨_, events, rfl, hreturned, hperm, acknowledges hr hslots hperm hs'⟩

/-! ## A page with a diagnostic

The worker of `a` has reported progress and then a result, and its run collects both.
-/

def diagnosticDB : DB := { toyDB with decodeProgress := fun _ => some ⟨"checkpoint", 0, 0⟩ }

def diagnosticOps : List Op :=
  [.beginCoordinatorEpoch 1,
    .submitPlan (toyEnv 10) { toyPlan [toyTask "a" 1 []] with
      run := { (toyPlan []).run with deliveryMode := "collect" } },
    .registerHost toyHello 1, .beginHostReconcile "host", .finishHostReconcile "host", toyClaim 11,
    toyRegister "a" 11,
    .commitReportEvent (toyEnv 30) ⟨none, none, false, none, none, false, ""⟩
      ⟨"report-capability-11", "token", "progress", 1, "progress", "payload"⟩,
    toyCommit "a" 11 1 .result, toyCommit "a" 11 2 .exited]

def diagnosticPage : List Event :=
  ((diagnosticDB.collectPending (diagnosticDB.run (State.fresh {}) diagnosticOps) "a" "" 0 true).map
    PendingPage.events).getD []

def diagnosticCalls : List Call :=
  diagnosticOps.map Call.store ++ [Call.collectionReceipt "a" diagnosticPage]

def diagnosticCollection : Collection := diagnosticDB.served (.fresh {}) diagnosticCalls

def diagnosticProof : String := diagnosticDB.collectionProof "a" (collectionBindings diagnosticPage)

def diagnosticDecisions : List AckDecision :=
  (collectionBindings diagnosticPage).map fun b =>
    ⟨b.id, b.revision, b.hash, b.slot, "stale", "command"⟩

/-- The page is acknowledged by its one decision. -/
def diagnosticAcked : Except DeliveryError Collection :=
  diagnosticDB.ackDelivery diagnosticCollection "a"
    ("collection-" ++ diagnosticProof) "" diagnosticProof
    diagnosticDecisions

/-- What the calls come to, in a form to be evaluated. -/
theorem diagnostic_evaluated : diagnosticCollection.store.deliveryMode "a" = some .collect ∧
    ((diagnosticDB.collectionReceipt
      (diagnosticDB.served (.fresh {}) (diagnosticOps.map .store)) "a"
      diagnosticPage).toOption.map fun r => r.2) =
        some ("collection-" ++ diagnosticProof, diagnosticProof) ∧
    diagnosticCollection.store.deliveryReceipts.rows = [] ∧
    (diagnosticAcked.toOption.any fun c' => c'.store.deliveryReceipts.rows ≠ [] ∧
      ∃ e ∈ diagnosticPage, ¬ c'.store.HasAcked diagnosticDB e) = true ∧
    ∀ e ∈ diagnosticCollection.store.deliveries, ∀ e' ∈ diagnosticCollection.store.deliveries,
      (diagnosticDB.actionSlot e.producer e.eventId =
        diagnosticDB.actionSlot e'.producer e'.eventId →
        e.producer = e'.producer ∧ e.eventId = e'.eventId) ∧
      (e.producer = e'.producer → e.fromReport = e'.fromReport) := by decide +kernel

theorem result_is_acknowledged : ∃ c' events, diagnosticAcked = .ok c' ∧
    diagnosticDB.Returned (.fresh {}) diagnosticCalls "a"
      ("collection-" ++ diagnosticProof) diagnosticProof
      events ∧
    diagnosticDB.Acknowledges diagnosticCollection c' "a" ("collection-" ++ diagnosticProof)
      diagnosticProof diagnosticDecisions events := by
  obtain ⟨hmode, -, -, hok, hapart⟩ := diagnostic_evaluated
  have hslots : SlotsApart diagnosticDB diagnosticCollection.store :=
    ⟨fun e he e' he' => (hapart e he e' he').1, fun e he e' he' => (hapart e he e' he').2⟩
  obtain ⟨c', hc', -⟩ := (Option.any_eq_true _ _).mp hok
  have hall := (collected_page_acknowledged diagnosticDB {} diagnosticCalls
    (c := diagnosticCollection) rfl hslots "a").2
    ("collection-" ++ diagnosticProof) "" diagnosticProof diagnosticDecisions
  obtain ⟨⟨e, he⟩, -⟩ | ⟨c', events, hx, hreturned, -, hacked⟩ := hall.2.2 hmode
  · change diagnosticAcked = _ at he
    rw [toOption_eq_some.mp hc'] at he
    cases he
  · exact ⟨c', events, hx, hreturned, hacked⟩

/-- The progress report of the page is not acknowledged with it. -/
theorem progress_is_left : ∃ c', diagnosticAcked = .ok c' ∧
    diagnosticCollection.store.deliveryMode "a" = some .collect ∧
    diagnosticDB.Returned (.fresh {}) diagnosticCalls "a"
      ("collection-" ++ diagnosticProof) diagnosticProof
      diagnosticPage ∧
    diagnosticCollection.store.deliveryReceipts.rows = [] ∧ c'.store.deliveryReceipts.rows ≠ [] ∧
    ∃ e ∈ diagnosticPage, ¬ c'.store.HasAcked diagnosticDB e := by
  obtain ⟨hmode, hreturned, hempty, hleft, -⟩ := diagnostic_evaluated
  obtain ⟨c', hc', hleft⟩ := (Option.any_eq_true _ _).mp hleft
  obtain ⟨⟨c₁, id, proof⟩, hpage, heq⟩ := Option.map_eq_some_iff.mp hreturned
  obtain ⟨rfl, rfl⟩ := Prod.mk.inj heq
  obtain ⟨hfirst, e, he, hleft⟩ := of_decide_eq_true hleft
  exact ⟨c', toOption_eq_some.mp hc', hmode,
    ⟨diagnosticOps.map .store, List.prefix_rfl, c₁, toOption_eq_some.mp hpage⟩, hempty,
      hfirst, e, he,
    hleft⟩

end Orchestrator.Store
