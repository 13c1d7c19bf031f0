import Orchestrator.Storage.Reserve
import Orchestrator.Events.Materialize
import Orchestrator.Dispatch.Numbers

/-!
# What the quotas enforce

Admission reads the run an event names, and the trigger charges the run of the
event's task. Where they are the same, no counter passes its limit. The exit of
a worker is admitted like any other event: nothing is kept for it.
-/
namespace Orchestrator.Store
open Library

/-! ## The limits of all bytes -/

/-- A Host event names the run of its task. -/
def State.NamesOwnRun (s : State) (op : Op) : Prop :=
  ∀ e ∈ op.event, ∀ t ∈ s.tasks.rows, t.id = e.taskId → e.runId = t.runId

instance (s : State) (op : Op) : Decidable (s.NamesOwnRun op) :=
  inferInstanceAs (Decidable (∀ e ∈ op.event, _))

/-- No run, and not all runs together, hold more than their limit. -/
def DB.Enforced (d : DB) (s : State) : Prop :=
  (∀ runId, (usedBytes s (.run runId)).1 ≤ d.runControlLimit) ∧
    (usedBytes s .global).1 ≤ d.userControlLimit

section Enforce
variable {d : DB} {env : Env} {s s' : State} {op : Op} {e : Event} {c : ReportCapability}
  {spec : ReportEventSpec} {kind : ReportKind} {payloadHash : String}

/-- What was admitted fits the run it was admitted for, and all runs together. -/
theorem admitted_le (hc : Counted d s) {disk : Option Nat} {runId : String} {bytes : Int}
    {diagnostic : Bool} (h : d.storageAdmission s disk runId bytes diagnostic = .ok ()) :
    (usedBytes s (.run runId)).1 + bytes ≤ d.runControlLimit ∧
      (usedBytes s .global).1 + bytes ≤ d.userControlLimit := by
  obtain ⟨-, -, hlimits, -⟩ := storageAdmission_ok.mp h
  obtain ⟨hrun, huser⟩ := not_or.mp hlimits
  exact ⟨(not_exceeds (readUsage_nonneg hc _).1).mp hrun,
    (not_exceeds (readUsage_nonneg hc _).1).mp huser⟩

theorem Recorded.enforced (h : Recorded d env s e s') (hc : Counted d s) (hs : d.Enforced s)
    (hown : s.taskRun e.taskId = some e.runId) : d.Enforced s' := by
  obtain ⟨hrun, huser⟩ := admitted_le hc h.admitted
  constructor
  · intro runId
    rw [h.usage hc, Prod.fst_add, eventValue_apply]
    split
    · rename_i hin
      have hid : s.taskRun e.taskId = some runId := of_decide_eq_true hin
      obtain rfl : e.runId = runId := Option.some.inj (hown.symm.trans hid)
      exact hrun
    · exact (add_zero _).trans_le (hs.1 runId)
  · have hin : s.eventIn .global (d.runtimeEventRow e) = true := rfl
    rw [h.usage hc, Prod.fst_add, eventValue_apply, if_pos hin]
    exact huser

theorem Filed.enforced (h : Filed d env s c spec kind payloadHash e s') (hc : Counted d s)
    (hs : d.Enforced s) : d.Enforced s' := by
  obtain ⟨hrun, huser⟩ := admitted_le hc h.admitted
  constructor
  · intro runId
    rw [h.usage hc, Prod.fst_add, reportValue_apply]
    split
    · rename_i hin
      have hid : s.capabilityRun spec.capabilityId = some runId := of_decide_eq_true hin
      obtain rfl : c.runId = runId := Option.some.inj (h.run.symm.trans hid)
      exact hrun
    · exact (add_zero _).trans_le (hs.1 runId)
  · have hin : s.reportIn .global (d.reportRow spec kind payloadHash e) = true := rfl
    rw [h.usage hc, Prod.fst_add, reportValue_apply, if_pos hin]
    exact huser

/-- A step whose event names the run of its task keeps every limit. -/
theorem Enforced.exec (h : d.Enforced s) (hc : Counted d s) (hown : s.NamesOwnRun op)
    (hx : d.exec s op = .ok s') : d.Enforced s' := by
  obtain ⟨-, husage⟩ | rfl | ⟨env, e, rfl, hr⟩ |
    ⟨env, probe, spec, c, kind, payloadHash, e, -, hf⟩ := exec_usage hx
  · have hread : usedBytes s' = usedBytes s := by rw [usedBytes_eq, usedBytes_eq, husage]
    rw [DB.Enforced, hread]
    exact h
  · exact h
  · refine hr.enforced hc h ?_
    obtain ⟨runId, hrun⟩ := hr.run hc
    obtain ⟨t, ht, rfl⟩ := Option.map_eq_some_iff.mp hrun
    obtain ⟨hm, hid⟩ := Table.find?_eq_some.mp ht
    rw [hown e rfl t hm hid]
    exact hrun
  · exact hf.enforced hc h

/-- Where every Host event names the run of its task, the quotas hold in every
state: admission compares with the counters the triggers write. -/
theorem quotas_enforced (hrun : 0 ≤ d.runControlLimit) (huser : 0 ≤ d.userControlLimit)
    (limits : ConcurrencyLimits) (ops : List Op)
    (h : AllSteps d.step State.NamesOwnRun (State.fresh limits) ops) :
    d.Enforced (d.run (State.fresh limits) ops) := by
  have hboth : Counted d (d.run (State.fresh limits) ops) ∧
      d.Enforced (d.run (State.fresh limits) ops) := by
    refine run_invariant_when (I := fun s : State => Counted d s ∧ d.Enforced s)
      ⟨.fresh d limits, fun _ => hrun, huser⟩ (fun s op hs hop => ?_) h
    exact step_induct (P := fun s : State => Counted d s ∧ d.Enforced s) hs
      fun s' hx => ⟨hs.1.exec hx, Enforced.exec hs.2 hs.1 hop hx⟩
  exact hboth.2

end Enforce

/-- The Host sends a result of `a` with an artifact of 1 MiB, naming the run. -/
def toyResult (runId : String) (sequence : Int) : Op :=
  .commitHostEvent (toyEnv 10) { toyEvent "a" 11 sequence .result with
    runId := runId
    artifact := some { path := "/out/result", size := 1024 * 1024, sha256 := toyDigest "out" } }

/-- Sixteen results of 1 MiB, all of them accepted if they name a run without bytes. -/
def resultOps (runId : String) : List Op :=
  toyStart [toyTask "a" 1 []] ++ toyClaim 11 ::
    [1, 2, 3, 4, 5, 6, 7, 8, 9, 10, 11, 12, 13, 14, 15, 16].map (toyResult runId)

/-- Named truthfully, the sixteenth result is refused. -/
theorem truthful_results_enforced :
    toyDB.Enforced (toyDB.run (State.fresh {}) (resultOps "run")) := by
  have h : AllSteps toyDB.step State.NamesOwnRun (State.fresh {}) (resultOps "run") := by
    decide +kernel
  exact quotas_enforced (by decide) (by decide) {} (resultOps "run") h

/-- The run of the task is charged for events that name another run: the last of
them is accepted, and leaves its run above the limit. -/
theorem foreign_results_exceed :
    (toyDB.run (State.fresh {}) (resultOps "ghost")).lastSequence "host" = 16 ∧
      (toyDB.run (State.fresh {}) (resultOps "ghost")).taskRun "a" = some "run" ∧
      toyDB.runControlLimit <
        (usedBytes (toyDB.run (State.fresh {}) (resultOps "ghost")) (.run "run")).1 := by
  decide +kernel

/-! ## The exit of a worker -/

section Exit
variable {d : DB} {env : Env} {s : State} {e : Event} {g : Segment}

/-- A first event of its segment's exit, sent by its Host in turn. -/
structure ExitInTurn (s : State) (g : Segment) (e : Event) : Prop where
  kind : e.kind = .exited
  wellFormed : wellFormed e
  host : ∃ host ∈ s.hosts.rows, host.id = e.producerId ∧ host.acceptsEvents e.executionEpoch
  segment : e.segmentId = g.id
  bound : boundTo e g
  next : e.sequence = s.lastSequence e.producerId + 1

instance : Decidable (ExitInTurn s g e) :=
  decidable_of_iff (e.kind = .exited ∧ Store.wellFormed e ∧
      (∃ host ∈ s.hosts.rows, host.id = e.producerId ∧ host.acceptsEvents e.executionEpoch) ∧
      e.segmentId = g.id ∧ boundTo e g ∧ e.sequence = s.lastSequence e.producerId + 1)
    ⟨fun ⟨h1, h2, h3, h4, h5, h6⟩ => ⟨h1, h2, h3, h4, h5, h6⟩,
      fun h => ⟨h.kind, h.wellFormed, h.host, h.segment, h.bound, h.next⟩⟩

theorem incomingBytes_exited (h : e.kind = .exited) : d.incomingBytes e = .ok (d.encodedLen e) := by
  unfold DB.incomingBytes
  split
  · rw [if_pos h]
  · rfl

theorem blockIfExhausted_isOk {c : Core} {t : Task} (ht : t ∈ c.tasks)
    (ha : 0 < c.taskAttempts t.id) : ∃ c', c.blockIfExhausted t.id = .ok c' := by
  refine ⟨if c.spent t then blockFailedDependencies c else c, ?_⟩
  rw [Core.blockIfExhausted, Table.find?_eq_some.mpr ⟨ht, rfl⟩, expect_some, ok_bind,
    require_pos ha, ok_bind]

/-- An exit always finds its task, with an attempt. -/
theorem applyExit_isOk (hs : Slots d.toPlatform s.toCore) (hn : Numbered s.toCore)
    (hg : g ∈ s.segments) (hid : e.segmentId = g.id) (htask : g.taskId = e.taskId) :
    ∃ s', d.applyExit s e = .ok s' := by
  obtain ⟨t, ht, htid⟩ := hs.owned g hg
  obtain ⟨a, ha, -, hat⟩ := hn.attemptOf g hg
  have hfind : s.tasks.find? e.taskId = some t := Table.find?_eq_some.mpr ⟨ht, htid.trans htask⟩
  simp only [DB.applyExit, State.segment?, hid, Table.find?_eq_some.mpr ⟨hg, rfl⟩, expect_some,
    ok_bind, hfind]
  split
  · exact ⟨s, rfl⟩
  · -- only the exit of a failed worker asks for the attempts of its task
    generalize hc : ((s.toCore.settle g.id (settledMs e.activeMs g.reservation.grantedMs)
      ).setAttemptStatus e.attemptId (exitStatus d t g.outcome e).1).setTaskStatus e.taskId
        (exitStatus d t g.outcome e).2 = c
    have hafter : ∃ c', c.afterExit e.taskId (exitStatus d t g.outcome e).2 = .ok c' := by
      unfold Core.afterExit
      split
      · exact ⟨_, rfl⟩
      · obtain ⟨u, hu, huid⟩ : ∃ u ∈ c.tasks, u.id = e.taskId := by
          subst hc
          exact ⟨_, Table.patch_mem_update (h := by intro _; rfl) ht,
            (Table.patch_field Task.id (by intro _; rfl) t).trans (htid.trans htask)⟩
        rw [← huid]
        refine blockIfExhausted_isOk hu ?_
        have hattempts : c.taskAttempts u.id = s.taskAttempts u.id := by
          subst hc
          exact Core.taskAttempts_setAttemptStatus (c := s.toCore.settle g.id _) u.id
        rw [hattempts, Core.taskAttempts, Table.count_pos]
        exact ⟨a, ha, by simp [hat, htask, huid]⟩
      · exact ⟨_, rfl⟩
    obtain ⟨c', hc'⟩ := hafter
    rw [hc']
    exact ⟨_, rfl⟩

/-- An exit in its turn is committed exactly if its id is new and its bytes fit
what the run it names, and all runs, have left. -/
theorem exit_committed_iff {limits : ConcurrencyLimits} (h : d.Reachable limits s)
    (hg : g ∈ s.segments) (he : ExitInTurn s g e)
    (hdisk : d.diskAdmits env.disk (d.encodedLen e) false) :
    (∃ r, d.commitHostEvent env s e = .ok r) ↔
      s.runtimeEvents.Unused RuntimeEvent.eventId e.eventId ∧
      (usedBytes s (.run e.runId)).1 + d.encodedLen e ≤ d.runControlLimit ∧
      (usedBytes s .global).1 + d.encodedLen e ≤ d.userControlLimit := by
  have hc := counted_of_reachable h
  have hstored := incomingBytes_exited (d := d) he.kind
  have hinternal : ¬ deliveryStatusOf e.kind = .pending := by
    rw [he.kind]
    simp [deliveryStatusOf]
  rw [commitHostEvent_next_iff he.next]
  constructor
  · rintro ⟨hadm, s₁, h₁, -⟩
    obtain ⟨n, hn, hquota⟩ := hadm.storage
    obtain rfl := Except.ok.inj (hstored.symm.trans hn)
    simp only [DB.appendEvent, bind_ok_iff, expect_ok] at h₁
    obtain ⟨events, hi, -⟩ := h₁
    exact ⟨(unused_iff_insert (a := d.runtimeEventRow e)).mp ⟨events, hi⟩, admitted_le hc hquota⟩
  · rintro ⟨hid, hrun, huser⟩
    obtain ⟨events, hi⟩ :=
      (unused_iff_insert (t := s.runtimeEvents) (a := d.runtimeEventRow e)).mpr hid
    refine ⟨⟨he.wellFormed, ?_, he.next, ⟨_, hstored, ?_⟩, ?_⟩, ?_⟩
    · obtain ⟨host, hhost, hhid, hepoch⟩ := he.host
      exact ⟨host, Table.find?_eq_some.mpr ⟨hhost, hhid⟩, hepoch⟩
    · refine storageAdmission_ok.mpr ⟨Int.natCast_nonneg _, hdisk, not_or.mpr ⟨?_, ?_⟩,
        Bool.noConfusion⟩
      · exact (not_exceeds (readUsage_nonneg hc _).1).mpr hrun
      · exact (not_exceeds (readUsage_nonneg hc _).1).mpr huser
    · exact ⟨g, Table.find?_eq_some.mpr ⟨hg, he.segment.symm⟩, he.bound⟩
    · have happ : d.appendEvent s e = .ok { s with
          runtimeEvents := events, storageUsage := d.chargeEvent s e } := by
        simp only [DB.appendEvent, hi, expect_some, ok_bind, State.orderDelivery,
          if_neg hinternal]
      have hs : Slots d.toPlatform s.toCore := slots_of_reachable h
      have hn : Numbered s.toCore := numbered_of_reachable h
      obtain ⟨s₂, h₂⟩ := applyExit_isOk (d := d) (e := e) (s := { s with
        runtimeEvents := events, storageUsage := d.chargeEvent s e })
        hs hn hg he.segment he.bound.2.2.1
      refine ⟨_, happ, s₂, ?_⟩
      simp only [DB.applyEvent, he.kind]
      exact h₂

end Exit

/-- A store whose workers report results with an artifact of 1032192 bytes. -/
def fillDB : DB := { toyDB with
  decodeReport := fun text => some {
    status := "completed"
    artifact := { path := "/cap/" ++ text, size := 1032192, sha256 := toyDigest text } } }

/-- The worker of `a` fills its run: fifteen results of 1 MiB come through its
Host, one it reports itself. -/
def fillOps : List Op :=
  toyStart [toyTask "a" 1 []] ++ toyClaim 11 ::
    [1, 2, 3, 4, 5, 6, 7, 8, 9, 10, 11, 12, 13, 14, 15].map (toyResult "run") ++
    [toyRegister "a" 11, .commitReportEvent (toyEnv 30)
      { canonical := some "/cap/rest"
        canonicalRoot := some "/cap"
        opened := true
        info := some { isRegular := true, perm := 0o600, ownedByUser := true, size := 1032192 }
        copied := some 1032192
        unchangedAfter := true
        sha256 := toyDigest "rest" }
      { capabilityId := "report-capability-11"
        token := "token"
        eventId := "rest"
        sequence := 1
        kind := "result"
        payload := "rest" }]

/-- The exit of a worker that has reported nothing is committed. -/
theorem first_exit_committed : ∃ r, toyDB.commitHostEvent (toyEnv 10)
    (toyDB.run (State.fresh {}) (toyStart [toyTask "a" 1 []] ++ [toyClaim 11]))
    (toyEvent "a" 11 1 .exited) = .ok r := by
  have hfacts : (∃ g ∈ (toyDB.run (State.fresh {})
        (toyStart [toyTask "a" 1 []] ++ [toyClaim 11])).segments.rows,
      ExitInTurn (toyDB.run (State.fresh {}) (toyStart [toyTask "a" 1 []] ++ [toyClaim 11])) g
        (toyEvent "a" 11 1 .exited)) ∧
      (toyDB.run (State.fresh {})
        (toyStart [toyTask "a" 1 []] ++ [toyClaim 11])).runtimeEvents.Unused
        RuntimeEvent.eventId (toyEvent "a" 11 1 .exited).eventId ∧
      (usedBytes (toyDB.run (State.fresh {}) (toyStart [toyTask "a" 1 []] ++ [toyClaim 11]))
        (.run "run")).1 + 1024 ≤ toyDB.runControlLimit ∧
      (usedBytes (toyDB.run (State.fresh {}) (toyStart [toyTask "a" 1 []] ++ [toyClaim 11]))
        .global).1 + 1024 ≤ toyDB.userControlLimit := by decide +kernel
  obtain ⟨⟨g, hg, he⟩, hroom⟩ := hfacts
  have hdisk : toyDB.diskAdmits (toyEnv 10).disk (1024 : Nat) false :=
    ⟨1073741824, rfl, 67108864, rfl, 67109888, by decide, 71304192, by decide, by decide⟩
  refine Iff.mpr ?_ hroom
  exact exit_committed_iff (⟨_, rfl⟩ : toyDB.Reachable {} _) (Table.mem_def.mpr hg) he hdisk

/-- Its results have filled the run: the worker's exit, in its turn and under a
new id, is refused. -/
theorem filled_exit_refused :
    ¬ ∀ g ∈ (fillDB.run (State.fresh {}) fillOps).segments, g.active = true →
      ∀ e, ExitInTurn (fillDB.run (State.fresh {}) fillOps) g e →
        (fillDB.run (State.fresh {}) fillOps).runtimeEvents.Unused RuntimeEvent.eventId e.eventId →
        fillDB.diskAdmits (toyEnv 10).disk (fillDB.encodedLen e) false →
        ∃ r, fillDB.commitHostEvent (toyEnv 10) (fillDB.run (State.fresh {}) fillOps) e =
          .ok r := by
  have hfacts : (∃ g ∈ (fillDB.run (State.fresh {}) fillOps).segments.rows, g.active = true ∧
      ExitInTurn (fillDB.run (State.fresh {}) fillOps) g (toyEvent "a" 11 16 .exited)) ∧
      (fillDB.run (State.fresh {}) fillOps).runtimeEvents.Unused RuntimeEvent.eventId
        (toyEvent "a" 11 16 .exited).eventId ∧
      (fillDB.commitHostEvent (toyEnv 10) (fillDB.run (State.fresh {}) fillOps)
        (toyEvent "a" 11 16 .exited)).isOk = false := by decide +kernel
  obtain ⟨⟨g, hg, ha, he⟩, hnew, hrefused⟩ := hfacts
  have hdisk : fillDB.diskAdmits (toyEnv 10).disk (1024 : Nat) false :=
    ⟨1073741824, rfl, 67108864, rfl, 67109888, by decide, 71304192, by decide, by decide⟩
  intro h
  obtain ⟨r, hr⟩ := h g (Table.mem_def.mpr hg) ha _ he hnew hdisk
  rw [hr] at hrefused
  cases hrefused

end Orchestrator.Store
