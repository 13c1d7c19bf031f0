import Orchestrator.Host.Execute
import Orchestrator.Events.Rounds
import Orchestrator.Invariants.Payloads

/-!
# Grants sent again

`PendingLaunches` rebuilds the command of a launch from the rows as they are by
then. Until the segment exits none of those rows changes, so what it rebuilds is
what `ClaimReady` returned, under the epoch of the session it is sent in.
-/
namespace Orchestrator.Store
open Library

section Rebuild
variable {d : DB} {op : Op} {x : Option String} {s s' : State} {g g' : Segment} {t t' : Task}
variable {cmd : LaunchCommand}

/-- A command is made of what its task and its segment keep, and of an epoch. -/
theorem launchCommand_congr {capabilityId : String} {q : Option Question}
    (ht : t'.frozen = t.frozen) (hg : g'.static = g.static) :
    launchCommand t' g' capabilityId q =
      { launchCommand t g capabilityId q with executionEpoch := g'.executionEpoch } := by
  have hstatic : launchCommand t' g'.static capabilityId q =
      launchCommand t g.static capabilityId q := by
    rw [hg]
    exact (congrArg (fun u => launchCommand u g.static capabilityId q) ht :)
  exact congrArg (fun cmd : LaunchCommand =>
    { cmd with executionEpoch := g'.executionEpoch }) hstatic

theorem pendingCommand_iff : s.pendingCommand g = .ok cmd ↔
    ∃ t, s.tasks.find? g.taskId = some t ∧
      ∃ c, s.reportCapabilities.rows.find? (fun c => c.segmentId = g.id) = some c ∧
        launchCommand t g c.capabilityId (s.latestQuestion t.id g.attemptId .resumeStarted) =
          cmd := by
  simp only [State.pendingCommand, bind_ok_iff, expect_ok, Except.ok.injEq]

theorem Paired.find (h : Paired s) {c : ReportCapability} (hc : c ∈ s.reportCapabilities)
    (hid : c.segmentId = g.id) :
    s.reportCapabilities.rows.find? (fun c => c.segmentId = g.id) = some c := by
  cases hf : s.reportCapabilities.rows.find? (fun c => c.segmentId = g.id) with
  | none =>
    have := List.find?_eq_none.mp hf c hc
    simp [hid] at this
  | some k =>
    have hk : k ∈ s.reportCapabilities := List.mem_of_find?_eq_some hf
    have hkid : k.segmentId = g.id := by simpa using List.find?_some hf
    rw [Table.eq_of_key hk hc (h.single k hk c hc (hkid.trans hid.symm))]

/-- Every segment has a command to send again. -/
theorem pendingCommand_total (hp : Paired s) (hs : Slots d.toPlatform s.toCore)
    (hg : g ∈ s.segments) : ∃ cmd, s.pendingCommand g = .ok cmd := by
  obtain ⟨t, ht, hid⟩ := hs.owned g hg
  obtain ⟨c, hc, hseg⟩ := hp.capability g hg
  exact ⟨_, pendingCommand_iff.mpr
    ⟨t, Table.find?_eq_some.mpr ⟨ht, hid⟩, c, hp.find hc hseg, rfl⟩⟩

theorem pendingCommand_segmentId (h : s.pendingCommand g = .ok cmd) : cmd.segmentId = g.id := by
  obtain ⟨t, -, c, -, rfl⟩ := pendingCommand_iff.mp h
  rfl

/-- While the segment is active an operation changes nothing of its command but the epoch. -/
theorem Effect.pendingCommand (he : Effect d op x s s') (hw : Writes d s op s')
    (hs : Slots d.toPlatform s.toCore) (hp' : Paired s') (hg : g ∈ s.segments)
    (ha : g.active = true) (hg' : g' ∈ s'.segments) (ha' : g'.active = true)
    (hst : g'.static = g.static) (h : s.pendingCommand g = .ok cmd) :
    s'.pendingCommand g' = .ok { cmd with executionEpoch := g'.executionEpoch } := by
  obtain ⟨t, ht, c, hc, rfl⟩ := pendingCommand_iff.mp h
  obtain ⟨htm, hid⟩ := Table.find?_eq_some.mp ht
  obtain ⟨t', ht', htst⟩ := he.step.grows.task htm
  have hfrozen := he.step.frozen hg ha htm hid ht' (Task.static_id htst)
  obtain ⟨c', hc', hcst⟩ := mem_of_map_prefix hw.capabilities (List.mem_of_find?_eq_some hc)
  obtain ⟨h0, h1, -, -⟩ := ReportCapability.static_binding hcst
  have hcid : c.segmentId = g.id := by simpa using List.find?_some hc
  have hrounds : s'.latestQuestion t'.id g'.attemptId .resumeStarted =
      s.latestQuestion t.id g.attemptId .resumeStarted := by
    rw [State.latestQuestion, State.latestQuestion, Task.static_id htst, hid,
      Segment.static_attemptId hst, he.startedRounds hs hg ha hg' ha' hst]
  refine pendingCommand_iff.mpr ⟨t', ?_, c', ?_, ?_⟩
  · refine Table.find?_eq_some.mpr ⟨ht', ?_⟩
    rw [Task.static_id htst, hid, Segment.static_taskId hst]
  · exact hp'.find hc' (by rw [h1, hcid, Segment.static_id hst])
  · rw [hrounds, h0]
    exact launchCommand_congr hfrozen hst

/-- A claimed command is the one its rows make up. -/
theorem Claimed.pendingCommand {env : Env} {hostId : String} {epoch : Nat} {slots : Int}
    {place : Placement} (hc : Claimed d env s hostId epoch slots t place s' cmd) (h : Rounds s)
    (hs : Slots d.toPlatform s.toCore) (hp' : Paired s') :
    ∃ g ∈ s'.segments, g.id = cmd.segmentId ∧ s'.pendingCommand g = .ok cmd := by
  obtain ⟨c₁, c₂, capabilities, h₁, h₂, hi, rfl, rfl⟩ := launch_cases hc.launched
  obtain ⟨host, -, -, -, hsel⟩ := hc.host
  obtain ⟨ht, -, hclaimable, -⟩ := selectReady_spec hsel
  obtain ⟨-, -, htasks, -⟩ := startAttempt_frame h₁
  obtain ⟨segments, hseg, rfl⟩ := startSegment_cases h₂
  have hidle := hs.idle ht (TaskStatus.idle_of_claimable hclaimable)
  refine ⟨_, (Table.mem_insert hseg).mpr (.inr rfl), rfl, pendingCommand_iff.mpr ?_⟩
  refine ⟨t.withStatus .running, Table.find?_eq_some.mpr ⟨?_, rfl⟩, _,
    hp'.find ((Table.mem_insert hi).mpr (.inr rfl)) rfl, ?_⟩
  · exact Core.mem_setTaskStatus.mpr (.inl ⟨t, htasks ▸ ht, rfl, rfl⟩)
  · refine (congrArg (launchCommand _ _ _) (startResume_latest h hidle rfl)).trans ?_
    cases s.resumedQuestion t place <;> rfl

end Rebuild

section Runs
variable {d : DB} {limits : ConcurrencyLimits} {s : State} {g : Segment} {cmd : LaunchCommand}

/-- What a segment's rows make up, they make up until it exits. -/
theorem pendingCommand_run (hr : d.Reachable limits s) (hg : g ∈ s.segments)
    (h : s.pendingCommand g = .ok cmd) (ops : List Op) :
    ∀ k ∈ (d.run s ops).segments, k.id = g.id → k.active = true → k.static = g.static ∧
      (d.run s ops).pendingCommand k = .ok { cmd with executionEpoch := k.executionEpoch } := by
  have hall : d.Reachable limits (d.run s ops) ∧
      (∃ k ∈ (d.run s ops).segments, k.id = g.id) ∧
      ∀ k ∈ (d.run s ops).segments, k.id = g.id → k.active = true → k.static = g.static ∧
        (d.run s ops).pendingCommand k = .ok { cmd with executionEpoch := k.executionEpoch } := by
    refine run_invariant (I := fun s' : State => d.Reachable limits s' ∧
      (∃ k ∈ s'.segments, k.id = g.id) ∧
      ∀ k ∈ s'.segments, k.id = g.id → k.active = true → k.static = g.static ∧
        s'.pendingCommand k = .ok { cmd with executionEpoch := k.executionEpoch }) ?_ ?_
    · refine ⟨hr, ⟨g, hg, rfl⟩, fun k hk hid _ => ?_⟩
      obtain rfl : k = g := Table.eq_of_key hk hg hid
      obtain ⟨t, -, c, -, rfl⟩ := pendingCommand_iff.mp h
      exact ⟨rfl, h⟩
    · intro s₁ op ⟨hr₁, hex, hk₁⟩
      refine ⟨reachable_step op hr₁, ?_⟩
      refine step_induct (P := fun s' : State => (∃ k ∈ s'.segments, k.id = g.id) ∧
        ∀ k ∈ s'.segments, k.id = g.id → k.active = true → k.static = g.static ∧
          s'.pendingCommand k = .ok { cmd with executionEpoch := k.executionEpoch })
        ⟨hex, hk₁⟩ fun s₂ hx => ?_
      have he := exec_effect (bound_of_reachable hr₁) hx
      have hr₂ : d.Reachable limits s₂ := step_of_exec hx ▸ reachable_step op hr₁
      obtain ⟨k₀, hk₀, hid₀⟩ := hex
      refine ⟨?_, fun k hk hid ha => ?_⟩
      · obtain ⟨k, hk, hst⟩ := he.step.grows.segment hk₀
        exact ⟨k, hk, (Segment.static_id hst).trans hid₀⟩
      · obtain ⟨k₁, hk₁m, hst, ha₁⟩ | ⟨-, hnew⟩ := he.step.active_of hk ha
        · obtain ⟨hst₁, hcmd⟩ := hk₁ k₁ hk₁m ((Segment.static_id hst).symm.trans hid) ha₁
          have hkeep := he.pendingCommand (exec_writes hx) (slots_of_reachable hr₁)
            (paired_of_reachable hr₂) hk₁m ha₁ hk ha hst hcmd
          exact ⟨hst.trans hst₁, hkeep⟩
        · exact absurd (hid₀.trans hid.symm) (hnew k₀ hk₀)
  exact hall.2.2

/-- The state `PendingLaunches` leaves: what it sends again belongs to the new session. -/
def State.renewed (s : State) (hostId : String) (epoch : Nat) : State :=
  { s with
    toCore := s.toCore.updateSegments
      (fun g => g.hostId = hostId && g.status = .launchRequested)
      (fun g => { g with executionEpoch := epoch }) (Table.keeps Segment.id) }

/-- Every segment is in the renewed state, those of the session under its epoch. -/
theorem mem_renewed {hostId : String} {epoch : Nat} {g' : Segment} :
    g' ∈ (s.renewed hostId epoch).segments ↔ ∃ g ∈ s.segments,
      (if g.hostId = hostId ∧ g.status = .launchRequested then { g with executionEpoch := epoch }
        else g) = g' := by
  simp only [State.renewed, Core.updateSegments, Table.mem_update, Table.patch, Bool.and_eq_true,
    decide_eq_true_eq]

theorem map_renewed {hostId : String} {epoch : Nat} {β : Type*} (π : Segment → β)
    (hπ : ∀ g : Segment, π { g with executionEpoch := epoch } = π g) :
    (s.renewed hostId epoch).segments.rows.map π = s.segments.rows.map π :=
  map_static_update (t := s.segments)
    (p := fun g => g.hostId = hostId && g.status = .launchRequested)
    (f := fun g => { g with executionEpoch := epoch }) (h := fun _ => rfl) π hπ

theorem pendingCommand_renewed {hostId : String} {epoch : Nat} (h : s.pendingCommand g = .ok cmd) :
    (s.renewed hostId epoch).pendingCommand { g with executionEpoch := epoch } =
      .ok { cmd with executionEpoch := epoch } := by
  obtain ⟨t, ht, c, hc, rfl⟩ := pendingCommand_iff.mp h
  exact pendingCommand_iff.mpr ⟨t, ht, c, hc, launchCommand_congr rfl rfl⟩

/-- A ready Host is sent one command for each of its segments still to be launched. -/
theorem pendingLaunches_spec (hp : Paired s) (hs : Slots d.toPlatform s.toCore) {hostId : String}
    {host : RuntimeHost} (hhost : s.hosts.find? hostId = some host)
    (hready : host.status = .ready) :
    ∃ commands, pendingLaunches s hostId host.coordinatorEpoch =
        .ok (s.renewed hostId host.coordinatorEpoch, commands) ∧
      ∀ g ∈ s.segments, g.hostId = hostId → g.status = .launchRequested → ∀ cmd,
        s.pendingCommand g = .ok cmd → commands.filter (fun c => c.segmentId = g.id) =
          [{ cmd with executionEpoch := host.coordinatorEpoch }] := by
  set epoch := host.coordinatorEpoch with hepoch
  set pending := ((s.renewed hostId epoch).segments.rows.filter
    (fun g => g.hostId = hostId && g.status = .launchRequested)).insertionSort byCreation
    with hpending
  have hperm := List.perm_insertionSort byCreation ((s.renewed hostId epoch).segments.rows.filter
    (fun g => g.hostId = hostId && g.status = .launchRequested))
  have hmem : ∀ g' ∈ pending, ∃ g ∈ s.segments, { g with executionEpoch := epoch } = g' := by
    intro g' hg'
    obtain ⟨hm, hsel⟩ := List.mem_filter.mp (hperm.mem_iff.mp hg')
    obtain ⟨g, hg, rfl⟩ := mem_renewed.mp hm
    split at hsel
    · rename_i hcond
      exact ⟨g, hg, by rw [if_pos hcond]⟩
    · rename_i hcond
      simp only [Bool.and_eq_true, decide_eq_true_eq] at hsel
      exact absurd hsel hcond
  obtain ⟨commands, hcommands⟩ : ∃ commands,
      pending.mapM (s.renewed hostId epoch).pendingCommand = .ok commands := by
    refine exists_mapM fun g' hg' => ?_
    obtain ⟨g, hg, rfl⟩ := hmem g' hg'
    obtain ⟨cmd, hcmd⟩ := pendingCommand_total hp hs hg
    exact ⟨_, pendingCommand_renewed hcmd⟩
  refine ⟨commands, ?_, fun g hg hhostId hst cmd hcmd => ?_⟩
  · simp only [pendingLaunches, bind_ok_iff, require_ok, expect_ok, exists_const, Except.ok.injEq,
      Prod.mk.injEq]
    exact ⟨host, hhost, ⟨hready, rfl⟩, commands, hcommands, rfl, rfl⟩
  · have hone : pending.filter (fun k => k.id = g.id) = [{ g with executionEpoch := epoch }] := by
      refine List.perm_singleton.mp ((hperm.filter _).trans (List.Perm.of_eq ?_))
      rw [List.filter_filter]
      refine Table.filter_eq_singleton ?_ (by simp [hhostId, hst]) fun k _ hk => ?_
      · exact mem_renewed.mpr ⟨g, hg, if_pos ⟨hhostId, hst⟩⟩
      · simp only [Bool.and_eq_true, decide_eq_true_eq] at hk
        exact hk.1
    have hfilter := filter_mapM (p := fun k : Segment => k.id = g.id)
      (q := fun c : LaunchCommand => c.segmentId = g.id) ?_ hcommands
    · rw [hone, List.mapM_cons, pendingCommand_renewed hcmd] at hfilter
      exact (Except.ok.inj hfilter).symm
    · intro k c hc
      rw [pendingCommand_segmentId hc]

/-- What is sent again is what the rows of a segment still to be launched make up. -/
theorem pendingLaunches_sends {hostId : String} {epoch : Nat} {s' : State}
    {commands : List LaunchCommand} (h : pendingLaunches s hostId epoch = .ok (s', commands))
    {c : LaunchCommand} (hc : c ∈ commands) : ∃ g ∈ s.segments, g.status = .launchRequested ∧
      g.id = c.segmentId ∧ ∃ cmd, s.pendingCommand g = .ok cmd ∧
        c = { cmd with executionEpoch := epoch } := by
  simp only [pendingLaunches, bind_ok_iff, require_ok, expect_ok, exists_const, Except.ok.injEq,
    Prod.mk.injEq] at h
  obtain ⟨host, -, -, _, hcommands, rfl, rfl⟩ := h
  obtain ⟨g', hg', hcmd⟩ := mem_of_mapM hcommands hc
  obtain ⟨hm, hsel⟩ := List.mem_filter.mp ((List.perm_insertionSort _ _).mem_iff.mp hg')
  obtain ⟨g, hg, rfl⟩ := (mem_renewed (s := s)).mp hm
  simp only [Bool.and_eq_true, decide_eq_true_eq] at hsel
  split at hcmd
  · rename_i hcond
    obtain ⟨t, ht, cap, hcap, rfl⟩ := pendingCommand_iff.mp hcmd
    refine ⟨g, hg, hcond.2, rfl, _, pendingCommand_iff.mpr ⟨t, ht, cap, hcap, rfl⟩, ?_⟩
    exact launchCommand_congr rfl rfl
  · rename_i hcond
    rw [if_neg hcond] at hsel
    exact absurd hsel hcond

/-- A launch the Host may not have seen is sent again as it was granted. -/
theorem regrant_is_original {env : Env} {hostId : String} {epoch : Nat} {slots : Int} {s' : State}
    (hr : d.Reachable limits s) (hclaim : d.claimReady env s hostId epoch slots = .ok (s', cmd))
    (ops : List Op) (hg : g ∈ (d.run s' ops).segments) (hid : g.id = cmd.segmentId)
    (hst : g.status = .launchRequested) {host : RuntimeHost} (hhost : host ∈ (d.run s' ops).hosts)
    (hhid : host.id = cmd.hostId) (hready : host.status = .ready) :
    ∃ s'' commands,
      pendingLaunches (d.run s' ops) cmd.hostId host.coordinatorEpoch = .ok (s'', commands) ∧
      commands.filter (fun c => c.segmentId = cmd.segmentId) =
        [{ cmd with executionEpoch := host.coordinatorEpoch }] ∧
      (∀ c ∈ commands, c.segmentId = cmd.segmentId →
        Host.Source.identityGrant c = Host.Source.identityGrant cmd) ∧
      s''.attempts = (d.run s' ops).attempts ∧
      s''.segments.rows.map Segment.static = (d.run s' ops).segments.rows.map Segment.static ∧
      s''.segments.rows.map Segment.reservation =
        (d.run s' ops).segments.rows.map Segment.reservation := by
  have hexec : d.exec s (.claimReady env hostId epoch slots) = .ok s' :=
    committed_ok.mpr ⟨cmd, hclaim⟩
  have hr' : d.Reachable limits s' := step_of_exec hexec ▸ reachable_step _ hr
  have hr'' : d.Reachable limits (d.run s' ops) :=
    run_invariant (I := d.Reachable limits) hr' fun _ op h => reachable_step op h
  obtain ⟨t, place, hc⟩ := claimReady_iff.mp hclaim
  -- the rows make up the command when it is claimed, and still do
  obtain ⟨k, hk, hkid, hcmd⟩ := hc.pendingCommand (Rounds.reachable hr) (slots_of_reachable hr)
    (paired_of_reachable hr')
  have hactive : g.active = true := by rw [Segment.active, hst]; rfl
  obtain ⟨hstatic, hlater⟩ := pendingCommand_run hr' hk hcmd ops g hg (hid.trans hkid.symm) hactive
  have hsent : g.hostId = cmd.hostId := by
    obtain ⟨t, -, c, -, rfl⟩ := pendingCommand_iff.mp hcmd
    exact Segment.static_hostId hstatic
  obtain ⟨commands, hpending, hone⟩ := pendingLaunches_spec (paired_of_reachable hr'')
    (slots_of_reachable hr'') (Table.find?_eq_some.mpr ⟨hhost, hhid⟩) hready
  have hfilter := hone g hg hsent hst _ hlater
  rw [hid] at hfilter
  refine ⟨_, commands, hpending, hfilter, fun c hcm hseg => ?_, rfl, ?_, ?_⟩
  · have hmem : c ∈ commands.filter (fun c => c.segmentId = cmd.segmentId) :=
      List.mem_filter.mpr ⟨hcm, by simpa using hseg⟩
    rw [hfilter, List.mem_singleton] at hmem
    rw [hmem]
    rfl
  · exact map_renewed Segment.static fun _ => rfl
  · exact map_renewed Segment.reservation fun _ => rfl

/-- The coordinator is restarted between a claim and its delivery. -/
def redelivery : List Op :=
  [.beginCoordinatorEpoch 2, .registerHost toyHello 2, .beginHostReconcile "host",
    .finishHostReconcile "host"]

theorem redelivered_grant : ∃ (s' : State) (cmd : LaunchCommand) (host : RuntimeHost),
    toyDB.claimReady (toyEnv 11) (toyDB.run (State.fresh {}) (toyStart [toyTask "a" 1 []])) "host"
        1 0 = .ok (s', cmd) ∧ host.coordinatorEpoch = 2 ∧ ∃ s'' commands,
      pendingLaunches (toyDB.run s' redelivery) cmd.hostId host.coordinatorEpoch =
        .ok (s'', commands) ∧
      commands.filter (fun c => c.segmentId = cmd.segmentId) =
        [{ cmd with executionEpoch := host.coordinatorEpoch }] := by
  have hrun : ∃ r ∈ (toyDB.claimReady (toyEnv 11)
      (toyDB.run (State.fresh {}) (toyStart [toyTask "a" 1 []])) "host" 1 0).toOption,
      (∃ g ∈ (toyDB.run r.1 redelivery).segments.rows,
        g.id = r.2.segmentId ∧ g.status = .launchRequested) ∧
      ∃ host ∈ (toyDB.run r.1 redelivery).hosts.rows,
        host.id = r.2.hostId ∧ host.status = .ready ∧ host.coordinatorEpoch = 2 := by
    decide +kernel
  obtain ⟨⟨s', cmd⟩, hr, ⟨g, hg, hid, hst⟩, host, hhost, hhid, hready, hepoch⟩ := hrun
  have hclaim := toOption_eq_some.mp hr
  obtain ⟨s'', commands, hsent, hone, -⟩ := regrant_is_original (d := toyDB)
    (⟨_, rfl⟩ : toyDB.Reachable {} _) hclaim redelivery (Table.mem_def.mpr hg) hid hst
      (Table.mem_def.mpr hhost) hhid hready
  exact ⟨s', cmd, host, hclaim, hepoch, s'', commands, hsent, hone⟩

end Runs
end Orchestrator.Store
