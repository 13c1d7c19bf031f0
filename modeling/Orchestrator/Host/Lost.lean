import Orchestrator.Dispatch.Regrants
import Orchestrator.Events.StopRace
import Orchestrator.Host.System

/-!
# A launch that is lost before a stop

A launch command that got lost is sent again as long as its segment awaits the launch. A stop ends
that. The Host that is told to stop a segment it has never heard of answers nothing, so that no
event ends the segment either: it holds its slot ever after.
-/
namespace Orchestrator.Store
open Library

/-- The segment awaits its launch. -/
def Core.Awaits (c : Core) (segmentId : String) : Prop :=
  ∃ g ∈ c.segments, g.id = segmentId ∧ g.status = .launchRequested

section Awaits
variable {d : DB} {env : Env} {s s' : State} {e : Event} {c c' : Core} {id : String}

theorem Core.Awaits.of_eq (h : c'.segments = c.segments) (ha : c'.Awaits id) : c.Awaits id := by
  unfold Core.Awaits at ha
  rwa [h] at ha

theorem awaits_updateSegments {p : Segment → Bool} {f : Segment → Segment}
    {h : ∀ g, (f g).id = g.id} (ha : (c.updateSegments p f h).Awaits id)
    (hf : ∀ g, (f g).status = .launchRequested → g.status = .launchRequested) :
    c.Awaits id := by
  obtain ⟨g', hg', hid, hst⟩ := ha
  obtain ⟨g, hg, rfl⟩ := (Table.mem_update (h := h)).mp hg'
  refine ⟨g, hg, ?_, ?_⟩
  · rw [← hid, Table.patch_field Segment.id h]
  · unfold Table.patch at hst
    split at hst
    · exact hf g hst
    · exact hst

theorem awaits_update {segmentId : String} {p : Segment → Bool} {f : Segment → Segment}
    {h : ∀ g, (f g).id = g.id} (ha : (c.updateSegment segmentId p f h).Awaits id)
    (hf : ∀ g, (f g).status ≠ .launchRequested) : c.Awaits id :=
  awaits_updateSegments ha fun g hg => absurd hg (hf g)

theorem setTaskStatus_awaits {taskId : String} {st : TaskStatus} :
    (c.setTaskStatus taskId st).Awaits id ↔ c.Awaits id := Iff.rfl

theorem setAttemptStatus_awaits {attemptId : String} {st : AttemptStatus} :
    (c.setAttemptStatus attemptId st).Awaits id ↔ c.Awaits id := Iff.rfl

/-- A stopped segment awaits no launch. -/
theorem stopSegment_awaits {taskId : String} : ¬ (c.stopSegment id taskId).Awaits id := by
  rintro ⟨g', hg', hid, hst⟩
  obtain ⟨g, -, rfl⟩ := (Core.mem_updateSegment (h := by intro _; rfl)).mp hg'
  by_cases hgid : g.id = id
  · rw [Table.patch_pos (by simpa using hgid)] at hst
    cases hst
  · rw [Table.patch_neg (by simpa using hgid)] at hid
    exact hgid hid

theorem ask_awaits {s₁ : State} (h₁ : applyQuestion s e = .ok s₁)
    (h₂ : ensureQuestionStop env s₁ e = .ok s') (ha : s'.toCore.Awaits id) :
    s.toCore.Awaits id := by
  have hasked : s₁.toCore.Awaits id := by
    obtain rfl | ⟨g, stops, -, -, -, rfl⟩ := ensureQuestionStop_cases h₂
    · exact ha
    · exact awaits_update (setTaskStatus_awaits.mp ha) (fun _ h => by cases h)
  obtain rfl | ⟨g, questions, -, -, -, -, rfl⟩ := applyQuestion_cases h₁
  · exact hasked
  · exact awaits_updateSegments hasked fun _ h => h

theorem materialize_awaits {segmentId sessionKind sessionId : String}
    (h : materializePendingReportQuestion env s segmentId sessionKind sessionId = .ok s')
    (ha : s'.toCore.Awaits id) : s.toCore.Awaits id := by
  obtain ⟨-, rfl⟩ | ⟨r, c, order, s₁, hpend, -, -, -, h₁, h₂⟩ :=
    materialize_cases h
  · exact ha
  · exact ask_awaits (s := { s with reportEvents := _, deliveryOrder := order }) h₁ h₂ ha

theorem applySession_awaits (h : applySession env s e = .ok s') (ha : s'.toCore.Awaits id) :
    s.toCore.Awaits id := by
  obtain rfl | ⟨row, sessions, -, -, h⟩ := applySession_cases h
  · exact ha
  · exact materialize_awaits (s := { s with sessions := sessions }) h ha

theorem applyExit_awaits (h : d.applyExit s e = .ok s') (ha : s'.toCore.Awaits id) :
    s.toCore.Awaits id := by
  obtain ⟨g, -, ⟨-, rfl⟩ | ⟨-, t, core, -, hcore, rfl⟩⟩ := applyExit_cases h
  · exact ha
  · have hset := ha.of_eq (afterExit_segments hcore)
    have hsettled := setAttemptStatus_awaits.mp (setTaskStatus_awaits.mp hset)
    exact awaits_update hsettled (fun _ h => by cases h)

/-- No event makes a segment await its launch again. -/
theorem applyEvent_awaits (h : d.applyEvent env s e = .ok s') (ha : s'.toCore.Awaits id) :
    s.toCore.Awaits id := by
  unfold DB.applyEvent at h
  split at h
  case h_1 | h_2 | h_3 =>
    cases h
    exact awaits_update ha (fun _ h => by cases h)
  case h_4 => exact applySession_awaits h ha
  case h_5 =>
    obtain rfl | ⟨g, questions, -, -, -, -, rfl⟩ := applyQuestion_cases h
    · exact ha
    · exact awaits_updateSegments ha fun _ h => h
  case h_6 | h_7 | h_8 =>
    cases h
    exact awaits_updateSegments ha fun _ h => h
  case h_9 =>
    cases h
    unfold Core.applyUnknown at ha
    split at ha
    · have hset := setAttemptStatus_awaits.mp (setTaskStatus_awaits.mp ha)
      exact awaits_update hset (fun _ h => by cases h)
    · exact ha
  case h_10 => exact applyExit_awaits h ha
  case h_11 => cases h

/-- A segment awaits its launch from its claim on. -/
theorem exec_awaits {op : Op} (hx : d.exec s op = .ok s') {g : Segment} (hg : g ∈ s.segments)
    (ha : s'.toCore.Awaits g.id) : s.toCore.Awaits g.id := by
  have hw := exec_writes hx
  cases hw with
  | same | fleet | ack | register => exact ha
  | plan hl hrow hcore => exact ha.of_eq (insertTasks_inserted hcore).segments
  | claim hclaim =>
    obtain ⟨c₁, c₂, caps, h₁, h₂, -, rfl, -⟩ := launch_cases hclaim.launched
    obtain ⟨-, -, -, hsegs⟩ := startAttempt_frame h₁
    obtain ⟨segments, hi, rfl⟩ := startSegment_cases h₂
    obtain ⟨k, hk, hid, hst⟩ := ha
    obtain hk | rfl := (Table.mem_insert hi).mp hk
    · exact ⟨k, hsegs ▸ hk, hid, hst⟩
    · -- the claimed segment is a new one
      exact absurd hid.symm ((Table.insert?_eq_some.mp hi).1 g (hsegs ▸ hg))
  | pending => exact awaits_updateSegments ha fun _ h => h
  | resume | answer | cancel => exact ha.of_eq rfl
  | review ht hid hst hcore =>
    obtain rfl | ⟨attemptId, hcore⟩ := hcore
    · have hset := ha.of_eq (releaseReady_released (s.toCore.setTaskStatus _ .completed)).segments
      exact setTaskStatus_awaits.mp hset
    · obtain ⟨-, -, -, ⟨-, rfl⟩ | ⟨-, rfl⟩⟩ := blockIfExhausted_cases hcore
      · exact ha.of_eq rfl
      · exact ha.of_eq rfl
  | @retry _ t payload _ ht hid hst => cases payload <;> exact ha.of_eq rfl
  | stop => exact awaits_update (setTaskStatus_awaits.mp ha) (fun _ h => by cases h)
  | sweep =>
    have hset : (s.toCore.updateSegments (fun g => g.status = .stopping)
        (fun g => { g with status := .unknown }) (Table.keeps Segment.id)).Awaits g.id := ha
    exact awaits_updateSegments hset (fun _ h => by cases h)
  | report hcm hid hkind hdec hopen h₁ h₂ =>
    obtain ⟨row, events, order, usage, -, -, -, rfl⟩ := appendReport_frame h₁
    unfold askReported at h₂
    split at h₂
    · obtain ⟨s₂, hask, hstop⟩ := bind_ok_iff.mp h₂
      have hold := ask_awaits hask hstop ha
      exact hold
    · cases h₂
      exact ha
  | event hwf hnext hg hid hbound h₁ h₂ =>
    obtain ⟨events, order, usage, rfl⟩ := appendEvent_frame h₁
    have hold := applyEvent_awaits h₂ ha
    exact hold

end Awaits
end Orchestrator.Store

namespace Orchestrator.Host
open Library Store

/-- The source has never heard of the segment. -/
structure Source.Unheard (h : Source) (segmentId : String) : Prop where
  workers : ∀ k ∈ h.workers, k.grant.segmentId ≠ segmentId
  recovery : ∀ k ∈ h.workers, ∀ r ∈ k.recovery, r.1.segmentId ≠ segmentId
  spool : ∀ e ∈ h.spool, e.segmentId ≠ segmentId

section Sources
variable {p : Platform} {commands : List LaunchCommand} {h h' : Source} {segmentId : String}

theorem Source.Unheard.setWorker (hh : h.Unheard segmentId) {commandId : String}
    {f : Worker → Worker} {hf : ∀ k, (f k).grant = k.grant}
    (hrec : ∀ k ∈ h.workers, ∀ r ∈ (f k).recovery, r.1.segmentId ≠ segmentId) :
    (h.setWorker commandId f hf).Unheard segmentId := by
  refine ⟨fun k' hk' => ?_, fun k' hk' => ?_, hh.spool⟩
  · obtain ⟨k, hk, rfl⟩ := Source.mem_setWorker.mp hk'
    split
    · rw [hf]
      exact hh.workers k hk
    · exact hh.workers k hk
  · obtain ⟨k, hk, rfl⟩ := Source.mem_setWorker.mp hk'
    split
    · exact hrec k hk
    · exact hh.recovery k hk

theorem Source.Unheard.appendStructuredEvent (hh : h.Unheard segmentId) {grant : LaunchCommand}
    (hseg : grant.segmentId ≠ segmentId) (draft : Draft) :
    (h.appendStructuredEvent grant draft).Unheard segmentId := by
  refine ⟨hh.workers, hh.recovery, fun e he => ?_⟩
  rcases List.mem_append.mp he with he | he
  · exact hh.spool e he
  · rw [List.mem_singleton.mp he]
    exact hseg

/-- A Host hears of a segment from a command. -/
theorem Local.unheard (hl : Local p commands h h')
    (hlost : ∀ cmd ∈ commands, cmd.segmentId ≠ segmentId) (hh : h.Unheard segmentId) :
    h'.Unheard segmentId := by
  cases hl with
  | cursor => exact ⟨hh.workers, hh.recovery, hh.spool⟩
  | @accept cmd hc hid epoch provider observed =>
    rcases h.acceptGrant_cases p { cmd with executionEpoch := epoch } provider observed with
      heq | ⟨-, -, -, -, heq⟩ | ⟨workers, hi, heq⟩ <;> rw [heq]
    · exact hh
    · refine hh.setWorker fun k hk r hr => ?_
      rcases List.mem_append.mp hr with hr | hr
      · exact hh.recovery k hk r hr
      · obtain ⟨draft, -, rfl⟩ := List.mem_map.mp hr
        exact hlost cmd hc
    · refine ⟨fun k hk => ?_, fun k hk => ?_, hh.spool⟩
      · obtain hk | rfl := (Table.mem_insert hi).mp hk
        · exact hh.workers k hk
        · exact hlost cmd hc
      · obtain hk | rfl := (Table.mem_insert hi).mp hk
        · exact hh.recovery k hk
        · intro r hr
          cases hr
  | append id =>
    rcases h.append_cases id with heq | ⟨k, hk, -, draft, todo, -, heq⟩ <;> rw [heq]
    · exact hh
    · exact (hh.appendStructuredEvent (hh.workers k hk) draft).setWorker hh.recovery
  | recover id =>
    rcases h.recover_cases id with heq | ⟨k, hk, -, grant, draft, recovery, hrec, heq⟩ <;>
      rw [heq]
    · exact hh
    · have hpair : ∀ r ∈ (grant, draft) :: recovery, r.1.segmentId ≠ segmentId :=
        hrec ▸ hh.recovery k hk
      exact (hh.appendStructuredEvent (hpair _ List.mem_cons_self) draft).setWorker
        fun _ _ r hr => hpair r (List.mem_cons_of_mem _ hr)
  | work id ms =>
    refine hh.setWorker fun k hk r hr => hh.recovery k hk r ?_
    split at hr <;> exact hr
  | restart =>
    refine ⟨fun k' hk' => ?_, fun k' hk' r hr => ?_, hh.spool⟩
    · obtain ⟨k, hk, rfl⟩ := mem_restart.mp hk'
      exact hh.workers k hk
    · obtain ⟨k, hk, rfl⟩ := mem_restart.mp hk'
      cases hr

end Sources

/-- What is in flight about the segment is lost. -/
def World.lose (w : World) (segmentId : String) : World :=
  { w with commands := w.commands.filter (·.segmentId ≠ segmentId) }

/-- The segment holds its slot, no Host has heard of it, and no command tells one. -/
structure Stranded (w : World) (g : Segment) : Prop where
  active : ∃ g' ∈ w.store.segments, g'.static = g.static ∧ g'.active = true
  settled : ¬ w.store.toCore.Awaits g.id
  commands : ∀ cmd ∈ w.commands, cmd.segmentId ≠ g.id
  sources : ∀ id, (w.sources id).Unheard g.id

section Worlds
variable {d : DB} {limits : ConcurrencyLimits} {w w' : World} {g : Segment} {s : State} {op : Op}

/-- A command launches a new segment, or one that awaits its launch. -/
theorem issued_of {cmd : LaunchCommand} (h : cmd ∈ issued d s op) :
    s.toCore.Awaits cmd.segmentId ∨ ∀ g ∈ s.segments, g.id ≠ cmd.segmentId := by
  cases op with
  | claimReady env hostId epoch slots =>
    simp only [issued] at h
    split at h
    · rename_i s' cmd' hclaim
      obtain rfl := List.mem_singleton.mp h
      obtain ⟨t, place, hc⟩ := claimReady_iff.mp hclaim
      obtain ⟨c₁, c₂, caps, h₁, h₂, -, -, rfl⟩ := launch_cases hc.launched
      obtain ⟨-, -, -, hsegs⟩ := startAttempt_frame h₁
      obtain ⟨segments, hi, -⟩ := startSegment_cases h₂
      exact .inr fun g hg => (Table.insert?_eq_some.mp hi).1 g (hsegs ▸ hg)
    · cases h
  | pendingLaunches hostId epoch =>
    simp only [issued] at h
    split at h
    · rename_i s' commands hsent
      obtain ⟨g, hg, hst, hid, -⟩ := pendingLaunches_sends hsent h
      exact .inl ⟨g, hg, hid, hst⟩
    · cases h
  | _ => cases h

theorem Stranded.step (h : Stranded w g) (hr : d.Reachable limits w.store) (op : Op)
    (hop : ∀ e, op.event = some e → e.segmentId ≠ g.id) :
    (∃ g' ∈ (d.step w.store op).segments, g'.static = g.static ∧ g'.active = true) ∧
      ¬ (d.step w.store op).toCore.Awaits g.id := by
  obtain ⟨k, hk, hst, ha⟩ := h.active
  have hkid : k.id = g.id := Segment.static_id hst
  refine step_induct (P := fun s' =>
    (∃ g' ∈ s'.segments, g'.static = g.static ∧ g'.active = true) ∧ ¬ s'.toCore.Awaits g.id)
    ⟨⟨k, hk, hst, ha⟩, h.settled⟩ fun s' hx => ⟨?_, ?_⟩
  · obtain ⟨k', hk', hst', ha'⟩ | ⟨e, he, -, hnames, -⟩ :=
      (exec_effect (bound_of_reachable hr) hx).step.active hk ha
    · exact ⟨k', hk', hst'.trans hst, ha'⟩
    · exact absurd (hnames.trans hkid) (hop e he)
  · intro hawaits
    exact h.settled (hkid ▸ exec_awaits hx hk (hkid.symm ▸ hawaits))

theorem Stranded.acted {asked : Option Op} (h : Stranded w g) (hr : d.Reachable limits w.store)
    (ha : Acted d w asked w') : Stranded w' g := by
  cases ha with
  | @control op hasked hop =>
    obtain ⟨hactive, hsettled⟩ := h.step hr op fun e he => by rw [hop] at he; cases he
    refine ⟨hactive, hsettled, fun cmd hc => ?_, h.sources⟩
    rcases List.mem_append.mp hc with hc | hc
    · exact h.commands cmd hc
    · intro hid
      rcases issued_of hc with hawaits | hnew
      · exact h.settled (hid ▸ hawaits)
      · obtain ⟨k, hk, hst, -⟩ := h.active
        exact hnew k hk ((Segment.static_id hst).trans hid.symm)
  | @commit env hostId epoch e s ack hasked he hs =>
    have hstep := h.step hr (.commitHostEvent env { e with executionEpoch := epoch })
      fun e' he' => by
        cases he'
        exact (h.sources hostId).spool e he
    rw [step_commit hs] at hstep
    refine ⟨hstep.1, hstep.2, h.commands, ?_⟩
    refine setSource_forall (w := { w with store := s }) (P := fun _ h => h.Unheard g.id)
      h.sources ?_
    exact ⟨(h.sources hostId).workers, (h.sources hostId).recovery, (h.sources hostId).spool⟩
  | @source id f hf hl =>
    refine ⟨h.active, h.settled, h.commands, ?_⟩
    exact setSource_forall (P := fun _ h => h.Unheard g.id) h.sources
      (hl.unheard h.commands (h.sources id))
  | idle => exact h

theorem Stranded.run (h : Stranded w g) (hr : d.Reachable limits w.store) (acts : List Action) :
    Stranded (run d w acts) g :=
  (run_invariant (I := fun w => d.Reachable limits w.store ∧ Stranded w g) ⟨hr, h⟩
    fun w a hw => ⟨(Host.acted d w a).store hw.1, hw.2.acted hw.1 (Host.acted d w a)⟩).2

/-- A stop that comes while a lost launch waits to be sent again strands the segment: whatever
follows, it holds its slot, and no Host hears of it. -/
theorem stopped_launch_stranded (hr : Reachable d limits w) (hg : g ∈ w.store.segments)
    (hst : g.status = .launchRequested) (hunheard : ∀ id, (w.sources id).Unheard g.id) {env : Env}
    {workRevision : Int} {reason : String}
    (htakes : w.store.TakesStop env g workRevision reason) (acts : List Action) :
    Stranded (run d (act d (w.lose g.id)
      (.control (.requestStop env g.taskId workRevision reason))) acts) g := by
  have hstore := store_reachable hr
  have ha : g.active = true := by rw [Segment.active, hst]; rfl
  obtain ⟨-, stops, hstop⟩ | ⟨hrefused, -⟩ := requestStop_active (slots_of_reachable hstore) hg ha
    env workRevision reason
  · have hstopped : d.Reachable limits (act d (w.lose g.id)
        (.control (.requestStop env g.taskId workRevision reason))).store :=
      reachable_step _ hstore
    refine Stranded.run ?_ hstopped acts
    refine ⟨?_, ?_, fun cmd hc => ?_, hunheard⟩
    · refine ⟨{ g with status := .stopping, outcome := .stopped }, ?_, rfl, rfl⟩
      change _ ∈ (d.step w.store _).segments
      rw [hstop]
      refine (Core.mem_updateSegment (h := by intro _; rfl)).mpr ⟨g, hg, ?_⟩
      exact Table.patch_pos (by simp)
    · change ¬ (d.step w.store _).toCore.Awaits g.id
      rw [hstop]
      exact stopSegment_awaits
    · rcases List.mem_append.mp hc with hc | hc
      · exact of_decide_eq_true (List.mem_filter.mp hc).2
      · cases hc
  · exact absurd htakes hrefused

theorem sources_control (w : World) (ops : List Op) :
    (run d w (ops.map .control)).sources = w.sources := by
  induction ops generalizing w with
  | nil => rfl
  | cons op ops ih =>
    rw [List.map_cons, run, run_cons, ← run, ih]
    simp only [act]
    split <;> rfl

end Worlds

/-- The Host loses its connection before the launch arrives, and the user stops the task. -/
theorem unheard_stop_stranded :
    ∃ g ∈ (run toyDB (World.fresh {}) (toyLaunched [toyTask "a" 1 []])).store.segments, ∀ acts,
      Stranded (run toyDB (act toyDB
        ((run toyDB (World.fresh {}) (toyLaunched [toyTask "a" 1 []])).lose g.id)
        (.control (.requestStop (toyEnv 12) g.taskId 1 "user"))) acts) g := by
  have hfacts : (∃ g ∈
        (run toyDB (World.fresh {}) (toyLaunched [toyTask "a" 1 []])).store.segments.rows,
        g.status = .launchRequested ∧ g.taskId ≠ "" ∧
          ∃ t ∈ (run toyDB (World.fresh {}) (toyLaunched [toyTask "a" 1 []])).store.tasks.rows,
            t.id = g.taskId ∧ t.workRevision = 1) ∧
      (run toyDB (World.fresh {}) (toyLaunched [toyTask "a" 1 []])).store.stops.rows = [] := by
    decide +kernel
  obtain ⟨⟨g, hg, hst, hne, t, ht, htid⟩, hstops⟩ := hfacts
  refine ⟨g, hg, fun acts => ?_⟩
  have hr : Reachable toyDB {} (run toyDB (World.fresh {}) (toyLaunched [toyTask "a" 1 []])) :=
    ⟨_, rfl⟩
  refine stopped_launch_stranded hr hg hst (fun id => ?_) ?_ acts
  · rw [toyLaunched, sources_control]
    exact ⟨fun _ h => absurd h (Table.not_mem_empty _), fun _ h => absurd h (Table.not_mem_empty _),
      fun _ h => absurd h List.not_mem_nil⟩
  · refine ⟨hne, by decide, by decide, ⟨t, ht, htid⟩, fun r hr => ?_, fun r hr => ?_⟩
    · rw [hstops] at hr
      cases hr
    · rw [hstops] at hr
      cases hr

end Orchestrator.Host
