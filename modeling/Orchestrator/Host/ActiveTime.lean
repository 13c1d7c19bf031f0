import Orchestrator.Host.System
import Orchestrator.Invariants.Budget

/-!
# Active time

The store settles a segment for the active time its exit reports. No event a
Host appends reports any, so whatever a worker has used is settled as nothing
and the group's budget is whole again for the next segment.
-/
namespace Orchestrator.Host
open Library Store

/-! ## Settled for nothing -/

/-- Settled reservations charge nothing. -/
def Unpaid (c : Core) : Prop :=
  ∀ g ∈ c.segments, g.reservation.status = .settled → g.reservation.usedMs = 0

section Unpaid
variable {d : DB} {op : Op} {x : Option String} {c c' : Core}

theorem settledMs_zero {grant : Int} (h : 0 ≤ grant) : settledMs 0 grant = 0 := by
  simp only [settledMs]
  omega

theorem Unpaid.booked (h : Unpaid c) (hpos : ∀ g ∈ c.segments, 0 < g.reservation.grantedMs)
    (hev : ∀ e, op.event = some e → e.activeMs = 0) (hb : Booked op c c') : Unpaid c' := by
  obtain ⟨φ, hr, hφ⟩ := hb.segments
  intro g' hg' hs
  rw [Table.mem_def, hr] at hg'
  obtain ⟨g, hg, rfl⟩ := List.mem_map.mp hg'
  rcases (hφ g hg).2 with ⟨heq, -⟩ | ⟨-, -, e, he, heq⟩
  · rw [heq] at hs ⊢
    exact h g hg hs
  · rw [heq, hev e he.1]
    exact settledMs_zero (Int.le_of_lt (hpos g hg))

theorem Unpaid.step (h : Unpaid c) (hb : Budget c) (hev : ∀ e, op.event = some e → e.activeMs = 0)
    (hs : Step d op x c c') : Unpaid c' := by
  cases hs with
  | submit hs =>
    obtain ⟨p, launchId, stamp, -, -, hi⟩ := hs.inserted
    unfold Unpaid
    rw [hi.segments]
    exact h
  | move hm =>
    rcases hm.booked with hbook | hc
    · exact h.booked hb.granted hev hbook
    · obtain @⟨c₁, c₂, env, hostId, epoch, -, t, place, -, -, -, -, -, hattempt, hsegment⟩ := hc
      obtain ⟨-, -, -, hsegs⟩ := startAttempt_frame hattempt
      obtain ⟨segments, hi, rfl⟩ := startSegment_cases hsegment
      rw [hsegs] at hi
      intro g hg hs
      rcases (Table.mem_insert hi).mp hg with hg | rfl
      · exact h g hg hs
      · cases hs

end Unpaid

/-! ## What Hosts report and what their workers use -/

/-- The active time of a worker is within its grant. -/
def Worker.Timely (k : Worker) : Prop := 0 ≤ k.activeMs ∧ k.activeMs ≤ k.grant.grantedActiveMs

/-- Workers stay within their grants where every new grant is positive. -/
theorem Local.timely {p : Platform} {commands : List LaunchCommand} {h h' : Source}
    (hl : Local p commands h h') (hpos : ∀ cmd ∈ commands, 0 < cmd.grantedActiveMs)
    (ht : ∀ k ∈ h.workers, k.Timely) {k' : Worker} (hk : k' ∈ h'.workers) : k'.Timely := by
  cases hl with
  | cursor => exact ht k' hk
  | @accept cmd hc hid epoch provider observed =>
    rcases h.acceptGrant_cases p { cmd with executionEpoch := epoch } provider observed with
      heq | ⟨_, -, -, -, heq⟩ | ⟨workers, hi, heq⟩ <;> rw [heq] at hk
    · exact ht k' hk
    · obtain ⟨k, hkm, rfl⟩ := Source.mem_setWorker.mp hk
      split <;> exact ht k hkm
    · rcases (Table.mem_insert hi).mp hk with hk | rfl
      · exact ht k' hk
      · exact ⟨le_refl _, Int.le_of_lt (hpos cmd hc)⟩
  | append id =>
    rcases h.append_cases id with heq | ⟨_, -, -, _, _, -, heq⟩ <;> rw [heq] at hk
    · exact ht k' hk
    · obtain ⟨k, hkm, rfl⟩ := Source.mem_setWorker.mp hk
      split <;> exact ht k hkm
  | recover id =>
    rcases h.recover_cases id with heq | ⟨_, -, -, _, _, _, -, heq⟩ <;> rw [heq] at hk
    · exact ht k' hk
    · obtain ⟨k, hkm, rfl⟩ := Source.mem_setWorker.mp hk
      split <;> exact ht k hkm
  | work id ms =>
    obtain ⟨k, hkm, rfl⟩ := Source.mem_setWorker.mp hk
    obtain ⟨h0, hle⟩ := ht k hkm
    split
    · split
      · rename_i hrun
        exact ⟨by change 0 ≤ k.activeMs + ms; omega, hrun.2⟩
      · exact ⟨h0, hle⟩
    · exact ⟨h0, hle⟩
  | restart =>
    obtain ⟨k, hkm, rfl⟩ := mem_restart.mp hk
    exact ht k hkm

/-- No report of active time has reached the store, and none is on its way. -/
structure Silent (w : World) : Prop where
  spool : ∀ id, ∀ e ∈ (w.sources id).spool, e.activeMs = 0
  unpaid : Unpaid w.store.toCore
  timely : ∀ id, ∀ k ∈ (w.sources id).workers, k.Timely

theorem Silent.acted {d : DB} {limits : ConcurrencyLimits} {w w' : World} {asked : Option Op}
    (h : Silent w) (hg : Granted w) (hr : d.Reachable limits w.store) (ha : Acted d w asked w') :
    Silent w' := by
  have hbudget := budget_of_reachable hr
  have hstep : ∀ op, (∀ e, op.event = some e → e.activeMs = 0) →
      Unpaid (d.step w.store op).toCore := fun op hev =>
    step_induct (P := fun s => Unpaid s.toCore) h.unpaid fun _ hx =>
      h.unpaid.step hbudget hev (exec_effect (bound_of_reachable hr) hx).step
  cases ha with
  | control _ hop => exact ⟨h.spool, hstep _ (by rw [hop]; simp), h.timely⟩
  | @commit env hostId epoch e s ack _ he hs =>
    refine ⟨setSource_forall (P := fun _ h => ∀ e ∈ h.spool, e.activeMs = 0) h.spool
      (h.spool hostId), ?_, setSource_forall (P := fun _ h => ∀ k ∈ h.workers, k.Timely) h.timely
      (h.timely hostId)⟩
    have hone := hstep (.commitHostEvent env { e with executionEpoch := epoch })
      fun e' he' => by rw [← Option.some.inj he']; exact h.spool hostId e he
    rwa [step_commit hs] at hone
  | @source id f hf hl =>
    have hpos : ∀ cmd ∈ w.commands, 0 < cmd.grantedActiveMs := fun cmd hc => by
      obtain ⟨g, hgm, -, -, -, -, -, hgrant⟩ := hg.commands cmd hc
      exact hgrant ▸ hbudget.granted g hgm
    refine ⟨setSource_forall (P := fun _ h => ∀ e ∈ h.spool, e.activeMs = 0) h.spool
      fun e he => ?_, h.unpaid, setSource_forall
        (P := fun _ h => ∀ k ∈ h.workers, k.Timely) h.timely
      fun k hk => hl.timely hpos (h.timely id) hk⟩
    obtain heq | ⟨grant, draft, heq⟩ := hl.spool_eq <;> rw [heq] at he
    · exact h.spool id e he
    · rcases List.mem_append.mp he with he | he
      · exact h.spool id e he
      · rw [List.mem_singleton.mp he]; rfl
  | idle => exact h

theorem silent_of_reachable {d : DB} {limits : ConcurrencyLimits} {w : World}
    (h : Reachable d limits w) : Silent w := by
  refine And.right (b := Silent w) (reachable_induct (P := fun w => Granted w ∧ Silent w)
    ⟨granted_fresh limits, ?_⟩ ?_ h).2
  · exact ⟨fun _ _ h => absurd h List.not_mem_nil, fun _ h => absurd h (Table.not_mem_empty _),
      fun _ _ h => absurd h (Table.not_mem_empty _)⟩
  · exact fun w _ w' hr ⟨hg, hs⟩ ha => ⟨hg.acted hr ha, hs.acted hg hr ha⟩

/-! ## The budget of a group -/

/-- The active time the worker of a segment has used. -/
def World.ranMs (w : World) (g : Segment) : Int :=
  (((w.sources g.hostId).workers.rows.find? (fun k => k.grant.segmentId = g.id)).map
    Worker.activeMs).getD 0

def World.groupRanMs (w : World) (group : String) : Int :=
  w.store.segments.sum (fun g => if g.reservation.budgetGroupId = group then w.ranMs g else 0)

/-- The exits of a group are settled for at least the time their workers used, and
all its workers together have kept to the budget. -/
def World.Charged (w : World) (group : String) : Prop :=
  (∀ g ∈ w.store.segments, g.reservation.budgetGroupId = group →
    g.reservation.status = .settled → w.ranMs g ≤ g.reservation.usedMs) ∧
  w.groupRanMs group ≤ 7200000

theorem ranMs_range {w : World} (hs : Silent w) (hg : Granted w)
    {g : Segment} (hgm : g ∈ w.store.segments) (hpos : 0 < g.reservation.grantedMs) :
    0 ≤ w.ranMs g ∧ w.ranMs g ≤ g.reservation.grantedMs := by
  unfold World.ranMs
  cases hfind : (w.sources g.hostId).workers.rows.find? (fun k => k.grant.segmentId = g.id) with
  | none => exact ⟨le_refl _, Int.le_of_lt hpos⟩
  | some k =>
    have hk : k ∈ (w.sources g.hostId).workers := List.mem_of_find?_eq_some hfind
    have hseg : k.grant.segmentId = g.id := by simpa using List.find?_some hfind
    obtain ⟨cmd, hc, -, heq⟩ := hg.workers g.hostId k hk
    obtain ⟨g', hg', h1, -, -, -, -, h6⟩ := hg.commands cmd hc
    have hsame : g = g' := Table.eq_of_key hgm hg' (by rw [← hseg, h1, heq])
    subst hsame
    obtain ⟨h0, hle⟩ := hs.timely g.hostId k hk
    rw [heq] at hle
    exact ⟨h0, hle.trans_eq h6.symm⟩

/-- In every run of Hosts and store: the active time of a budget group is charged
exactly when the workers of its exited segments have used none. -/
theorem active_time_charged_iff (d : DB) (limits : ConcurrencyLimits) (acts : List Action)
    (group : String) : (run d (World.fresh limits) acts).Charged group ↔
      ∀ g ∈ (run d (World.fresh limits) acts).store.segments,
        g.reservation.budgetGroupId = group → g.reservation.status = .settled →
          (run d (World.fresh limits) acts).ranMs g = 0 := by
  have hr : Reachable d limits (run d (World.fresh limits) acts) := ⟨acts, rfl⟩
  generalize run d (World.fresh limits) acts = w at hr ⊢
  have hsilent := silent_of_reachable hr
  have hbudget := budget_of_reachable (store_reachable hr)
  have hrange : ∀ g ∈ w.store.segments, 0 ≤ w.ranMs g ∧ w.ranMs g ≤ g.reservation.grantedMs :=
    fun g hg => ranMs_range hsilent (granted_of_reachable hr) hg (hbudget.granted g hg)
  constructor
  · rintro ⟨hcharged, -⟩ g hg hgroup hset
    have hle := hcharged g hg hgroup hset
    rw [hsilent.unpaid g hg hset] at hle
    exact le_antisymm hle (hrange g hg).1
  · intro hzero
    refine ⟨fun g hg hgroup hset => ?_, ?_⟩
    · rw [hzero g hg hgroup hset]
      exact (hbudget.used g hg hset).1
    · refine le_trans (Table.sum_le_sum fun g hg => ?_) (hbudget.charged group)
      split
      · -- a segment that has not exited is charged its whole grant
        rename_i hgroup
        by_cases hset : g.reservation.status = .settled
        · rw [hzero g hg hgroup hset, Reservation.charge, if_pos hset]
          exact (hbudget.used g hg hset).1
        · rw [Reservation.charge, if_neg hset]
          exact (hrange g hg).2
      · exact le_refl _

/-- A worker that runs for its whole grant and is stopped. -/
def toyRan (d : DB) (acts : List Action) (n : Nat) : List Action :=
  toyExecuted d acts n 3 (.stopped toyIdentity none (-1)) ++
    [Action.work "host" ("command-" ++ toString n) 3600000,
      .append "host" ("command-" ++ toString n), .append "host" ("command-" ++ toString n),
      .publish (toyEnv 10) "host" 1, .publish (toyEnv 10) "host" 1]

/-- Three segments of one attempt, each of a full hour. -/
def resumedActs : List Action :=
  let first := toyRan toyDB (toyLaunched [toyTask "a" 1 []]) 11
  let second := toyRan toyDB
    (first ++ [Action.control (.queueResume "a" 1), .control (toyClaim 12)]) 12
  toyRan toyDB (second ++ [Action.control (.queueResume "a" 1), .control (toyClaim 13)]) 13

/-- Three hours of active time, and nothing charged. -/
theorem resumes_reset_budget :
    ¬ (run toyDB (World.fresh {}) resumedActs).Charged "a" ∧
      (run toyDB (World.fresh {}) resumedActs).groupRanMs "a" = 10800000 ∧
      (run toyDB (World.fresh {}) resumedActs).store.charged "a" = 0 := by
  have hfacts : (run toyDB (World.fresh {}) resumedActs).groupRanMs "a" = 10800000 ∧
      (run toyDB (World.fresh {}) resumedActs).store.charged "a" = 0 := by decide +kernel
  obtain ⟨hran, hcharged⟩ := hfacts
  refine ⟨fun h => ?_, hran, hcharged⟩
  have := h.2
  rw [hran] at this
  omega

end Orchestrator.Host
