import Orchestrator.Dispatch.Numbers
import Orchestrator.Dispatch.Order

/-!
# Work conservation

`selectReady` looks at the launch and at free slots; attempts and budget are
tested afterwards, on the one task it selected. So a claim finds work exactly
when the first waiting task can afford its launch.
-/
namespace Orchestrator.Store
open Library

/-- An attempt is left to the task's group, or none is needed, and so is budget. -/
def Core.Affordable (c : Core) (t : Task) : Prop :=
  (t.status = .resumeQueued ∨ ¬ c.attemptsExhausted t.budgetGroupId t.maxAttempts) ∧
    c.charged t.budgetGroupId < defaultGroupActiveMs

/-- A task the next claim ought to consider. -/
def Core.Eligible (c : Core) (p : Platform) (launchId : String) (t : Task) : Prop :=
  c.Waiting p launchId t ∧ c.Affordable t

/-- The ids a claim draws are new. -/
structure Env.Fresh (env : Env) (s : State) : Prop where
  attempt : s.attempts.Unused Attempt.id (env.newId "attempt")
  segment : s.segments.Unused Segment.id (env.newId "segment")
  command : s.segments.Unused Segment.commandId (env.newId "command")
  slot : s.segments.Unused Segment.slotToken (env.newId "slot")
  reservation : s.segments.Unused (fun g => g.reservation.id) (env.newId "reservation")
  capability : s.reportCapabilities.Unused ReportCapability.capabilityId
    (env.newId "report-capability")

/-! ## A claim that can afford its task succeeds -/

section Succeeds
variable {d : DB} {env : Env} {s : State} {c : Core} {t : Task}

theorem grant_pos_iff (hn : Numbered c) (ht : t ∈ c.tasks) :
    0 < c.grant t ↔ c.charged t.budgetGroupId < defaultGroupActiveMs := by
  have := hn.active t ht
  unfold Core.grant
  omega

theorem latestAttempt_isSome {taskId : String} (h : ∃ a ∈ c.attempts, a.taskId = taskId) :
    ∃ a, c.latestAttempt taskId = some a ∧ a ∈ c.attempts ∧ a.taskId = taskId := by
  obtain ⟨a, ha, hid⟩ := h
  cases hl : c.latestAttempt taskId with
  | none =>
    have hmem : a ∈ c.attempts.rows.filter (fun a => a.taskId = taskId) := by
      rw [List.mem_filter]; exact ⟨ha, by simp [hid]⟩
    rw [List.argmax_eq_none.mp hl] at hmem
    cases hmem
  | some b =>
    have hm := List.argmax_mem hl
    simp only [List.mem_filter, decide_eq_true_eq] at hm
    exact ⟨b, rfl, hm⟩

/-- A resumed task has an attempt, and none of its segments is active. -/
theorem placeResume_ok (hs : Slots d.toPlatform c) (hn : Numbered c) (ht : t ∈ c.tasks)
    (hst : t.status = .resumeQueued) : ∃ a ∈ c.attempts,
      c.placeResume t = .ok ⟨a.id, a.attemptNo, c.attemptSegments a.id + 1⟩ := by
  obtain ⟨g, hg, hgt⟩ := hn.started t ht (by rw [hst]; rfl)
  obtain ⟨b, hb, -, hbt⟩ := hn.attemptOf g hg
  obtain ⟨a, hl, ha, hat⟩ := latestAttempt_isSome ⟨b, hb, hbt.trans hgt⟩
  have hidle : c.segments.count (fun g => g.attemptId = a.id && g.active) = 0 := by
    refine Table.count_eq_zero.mpr fun k hk => ?_
    by_contra hx
    simp only [Bool.not_eq_false, Bool.and_eq_true, decide_eq_true_eq] at hx
    obtain ⟨a', ha', hid, htask⟩ := hn.attemptOf k hk
    obtain rfl : a' = a := Table.eq_of_key ha' ha (hid.trans hx.1)
    have := hs.busy k hk hx.2 t ht (hat.symm.trans htask)
    rw [hst] at this
    cases this
  refine ⟨a, ha, ?_⟩
  simp only [Core.placeResume, hl, expect_some, ok_bind, require_pos hidle]

/-- The placement of an affordable task, and the attempt it starts. -/
theorem place_ok (hs : Slots d.toPlatform c) (hn : Numbered c) (ht : t ∈ c.tasks)
    (hf : c.attempts.Unused Attempt.id (env.newId "attempt")) (ha : c.Affordable t) :
    ∃ place c₁, c.place env t = .ok place ∧ c.startAttempt t place = .ok c₁ ∧
      ∀ g ∈ c.segments, ¬ (g.attemptId = place.attemptId ∧ g.segmentNo = place.segmentNo) := by
  by_cases hst : t.status = .resumeQueued
  · obtain ⟨a, -, hplace⟩ := placeResume_ok hs hn ht hst
    refine ⟨_, _, (if_pos hst).trans hplace, if_pos hst, fun g hg ⟨hid, hno⟩ => ?_⟩
    have := hn.segmentNo g hg
    rw [hid, hno] at this
    exact absurd this (Nat.not_succ_le_self _)
  · have hleft := ha.1.resolve_left hst
    have hno : ∀ a ∈ c.attempts.rows,
        ¬ (a.taskId = t.id ∧ a.attemptNo = c.groupAttempts t.budgetGroupId + 1) := by
      rintro a ham ⟨hid, heq⟩
      have := hn.attemptNo a ham t ht hid.symm
      omega
    obtain ⟨attempts, hi, -⟩ := Table.insert?_isSome (t := c.attempts)
      (a := ⟨env.newId "attempt", t.id, c.groupAttempts t.budgetGroupId + 1, .running⟩) hf
    refine ⟨⟨env.newId "attempt", c.groupAttempts t.budgetGroupId + 1, 1⟩,
      { c with attempts := attempts }, ?_, ?_, fun g hg ⟨hid, _⟩ => ?_⟩
    · simp only [Core.place, if_neg hst, Core.placeAttempt, require_pos hleft, ok_bind]
    · simp only [Core.startAttempt, if_neg hst, require_pos hno, ok_bind, hi, expect_some]
    · obtain ⟨a, ham, haid, -⟩ := hn.attemptOf g hg
      exact hf a ham (haid.trans hid)

theorem launch_ok (hostId : String) (epoch : Nat) (grant : Int) {place : Placement} {c₁ : Core}
    (hb : Bound s) (hf : env.Fresh s) (h₁ : s.toCore.startAttempt t place = .ok c₁)
    (hno : ∀ g ∈ s.segments, ¬ (g.attemptId = place.attemptId ∧ g.segmentNo = place.segmentNo)) :
    ∃ s' cmd, d.launch env s hostId epoch t place grant = .ok (s', cmd) ∧ cmd.taskId = t.id := by
  obtain ⟨-, -, -, hsegs⟩ := startAttempt_frame h₁
  have hunused : c₁.segmentUnused (d.claimedSegment env hostId epoch t place grant) := by
    unfold Core.segmentUnused
    rw [hsegs]
    exact ⟨hno, hf.command, hf.slot, hf.reservation⟩
  obtain ⟨segments, hi, -⟩ := Table.insert?_isSome (t := c₁.segments)
    (a := d.claimedSegment env hostId epoch t place grant) (hsegs ▸ hf.segment)
  have hcap : s.reportCapabilities.Unused ReportCapability.segmentId
      (d.claimedSegment env hostId epoch t place grant).id := by
    intro cap hcap heq
    obtain ⟨g, hg, hid, -, -⟩ := hb.capabilities cap hcap
    exact hf.segment g hg (hid.trans heq)
  obtain ⟨capabilities, hic, -⟩ := Table.insert?_isSome (t := s.reportCapabilities)
    (a := claimedCapability env hostId epoch t (d.claimedSegment env hostId epoch t place grant))
    hf.capability
  have hok : ∃ r, d.launch env s hostId epoch t place grant = .ok r := by
    simp only [DB.launch, h₁, ok_bind, Core.startSegment, require_pos hunused, hi, expect_some,
      require_pos hcap, hic]
    exact ⟨_, rfl⟩
  obtain ⟨⟨s', cmd⟩, h⟩ := hok
  obtain ⟨-, -, -, -, -, -, -, rfl⟩ := launch_cases h
  exact ⟨s', _, h, rfl⟩

theorem affordable_of_place {place : Placement} (hplace : c.place env t = .ok place)
    (hg : c.charged t.budgetGroupId < defaultGroupActiveMs) : c.Affordable t := by
  refine ⟨?_, hg⟩
  by_cases hst : t.status = .resumeQueued
  · exact .inl hst
  · simp only [Core.place, if_neg hst, Core.placeAttempt, bind_ok_iff, require_ok,
      exists_const] at hplace
    exact .inr hplace.1

end Succeeds

/-- In a reachable state, with a free slot and storage admitted, where some task
can be launched: a claim launches the first of them exactly when the first task
that waits, launchable or not, can afford its launch. -/
theorem work_conserving_iff {d : DB} {limits : ConcurrencyLimits} {s : State} {env : Env}
    {hostId : String} {epoch : Nat} {slots : Int} {host : RuntimeHost}
    (hr : d.Reachable limits s) (hfind : s.hosts.find? hostId = some host)
    (hready : host.status = .ready ∧ host.coordinatorEpoch = epoch)
    (hfree : (s.activeCount : Int) < slotBound s.limits slots)
    (hwork : ∃ t, s.Eligible d.toPlatform host.launchId t ∧
      d.storageAdmission s env.disk t.runId 0 false = .ok ())
    (hfresh : env.Fresh s) :
    (∃ t s' cmd, First (s.Eligible d.toPlatform host.launchId) t ∧
        d.claimReady env s hostId epoch slots = .ok (s', cmd) ∧ cmd.taskId = t.id) ↔
      ∀ t, First (s.Waiting d.toPlatform host.launchId) t → s.Affordable t := by
  have hnum := numbered_of_reachable hr
  constructor
  · rintro ⟨t, s', cmd, -, hclaim, -⟩ u hu
    obtain ⟨v, place, hx⟩ := claimReady_iff.mp hclaim
    obtain ⟨h, hh, -, -, hsel⟩ := hx.host
    obtain rfl : host = h := Option.some.inj (hfind.symm.trans hh)
    obtain rfl : u = v := (order_of_reachable hr).first_unique hu (selectReady_first hsel)
    exact affordable_of_place hx.placed ((grant_pos_iff hnum hu.1.mem).mp hx.granted)
  · intro hafford
    obtain ⟨w, ⟨hwait, -⟩, hadm⟩ := hwork
    obtain ⟨t, hsel⟩ := selectReady_isSome hwait
    have hfirst := selectReady_first hsel
    have haff := hafford t hfirst
    have ht := hfirst.1.mem
    -- tasks of one launch are tasks of one run, so storage is admitted for all of them
    have hrun : t.runId = w.runId :=
      hnum.launch t ht w hwait.mem (hfirst.1.launch.trans hwait.launch.symm)
    obtain ⟨place, c₁, hplace, h₁, hno⟩ :=
      place_ok (slots_of_reachable hr) hnum ht hfresh.attempt haff
    obtain ⟨s', cmd, hlaunch, hid⟩ :=
      launch_ok hostId epoch (s.toCore.grant t) (bound_of_reachable hr) hfresh h₁ hno
    refine ⟨t, s', cmd, ⟨⟨hfirst.1, haff⟩, fun u hu => hfirst.2 u hu.1⟩, ?_, hid⟩
    exact claimReady_iff.mpr ⟨t, place, ⟨host, hfind, hready.1, hready.2, hsel⟩, hfree,
      hrun ▸ hadm, hplace, (grant_pos_iff hnum ht).mpr haff.2, hlaunch⟩

/-- `a` and `b` share the attempts of one group, `c` has its own; `a` runs. -/
def sharedOps : List Op :=
  toyStart [{ toyTask "a" 1 [] with budgetGroupId := "group" },
    { toyTask "b" 1 [] with budgetGroupId := "group" }, toyTask "c" 1 []] ++ [toyClaim 11]

/-- With nothing running yet, a claim launches `a`. -/
theorem first_task_launched : ∃ host : RuntimeHost, (∃ t s' cmd,
      First ((toyDB.run (State.fresh {}) (toyStart [toyTask "a" 1 []])).Eligible toyDB.toPlatform
        host.launchId) t ∧
      toyDB.claimReady (toyEnv 11) (toyDB.run (State.fresh {}) (toyStart [toyTask "a" 1 []]))
        "host" 1 0 = .ok (s', cmd) ∧ cmd.taskId = t.id) ↔
    ∀ t, First ((toyDB.run (State.fresh {}) (toyStart [toyTask "a" 1 []])).Waiting
      toyDB.toPlatform host.launchId) t →
        (toyDB.run (State.fresh {}) (toyStart [toyTask "a" 1 []])).Affordable t := by
  have hhost : ∃ host ∈ (toyDB.run (State.fresh {}) (toyStart [toyTask "a" 1 []])).hosts.rows,
      host.id = "host" ∧ host.launchId = "host" ∧ host.status = .ready ∧
        host.coordinatorEpoch = 1 := by decide +kernel
  obtain ⟨host, hm, hid, hlaunch, hready⟩ := hhost
  have hwork : ∃ t ∈ (toyDB.run (State.fresh {}) (toyStart [toyTask "a" 1 []])).tasks.rows,
      (t.hostLaunchId = "host" ∧ t.status.claimable = true ∧
        (toyDB.run (State.fresh {}) (toyStart [toyTask "a" 1 []])).hasCapacity
          toyDB.toPlatform t = true) ∧
      ((toyDB.run (State.fresh {}) (toyStart [toyTask "a" 1 []])).Affordable t) ∧
      toyDB.storageAdmission (toyDB.run (State.fresh {}) (toyStart [toyTask "a" 1 []]))
        (toyEnv 11).disk t.runId 0 false = .ok () := by
    unfold Core.Affordable
    decide +kernel
  obtain ⟨t, ht, ⟨h1, h2, h3⟩, haff, hadm⟩ := hwork
  exact ⟨host, work_conserving_iff ⟨_, rfl⟩ (Table.find?_eq_some.mpr ⟨hm, hid⟩) hready
    (by decide +kernel) ⟨t, ⟨⟨ht, h1.trans hlaunch.symm, h2, h3⟩, haff⟩, hadm⟩
    ⟨by decide +kernel, by decide +kernel, by decide +kernel, by decide +kernel,
      by decide +kernel, by decide +kernel⟩⟩

/-- `c` can be launched, but `b` comes first and has no attempt left. -/
theorem exhausted_head_starves :
    (∃ t ∈ (toyDB.run (State.fresh {}) sharedOps).tasks.rows, t.id = "c" ∧
      t.hostLaunchId = "host" ∧ t.status.claimable = true ∧
      (toyDB.run (State.fresh {}) sharedOps).hasCapacity toyDB.toPlatform t = true ∧
      ¬ (toyDB.run (State.fresh {}) sharedOps).attemptsExhausted t.budgetGroupId t.maxAttempts ∧
      (toyDB.run (State.fresh {}) sharedOps).charged t.budgetGroupId < defaultGroupActiveMs) ∧
    ((toyDB.run (State.fresh {}) sharedOps).activeCount : Int) <
      slotBound (toyDB.run (State.fresh {}) sharedOps).limits 0 ∧
    (∃ host ∈ (toyDB.run (State.fresh {}) sharedOps).hosts.rows, host.id = "host" ∧
      host.launchId = "host" ∧ host.status = .ready ∧ host.coordinatorEpoch = 1) ∧
    (toyDB.claimReady (toyEnv 12) (toyDB.run (State.fresh {}) sharedOps) "host" 1 0).isOk =
      false := by
  decide +kernel

end Orchestrator.Store
