import Orchestrator.Invariants.Budget
import Orchestrator.Invariants.Reported

/-!
# Payloads and capabilities

The statements on tasks set statuses and places in the ready order; only a retry
rewrites a payload, and a task is retried when none of its segments is active.
So the payload a segment was launched with is the payload of its task until the
segment exits, and its report capability is there for good.
-/
namespace Orchestrator.Store
open Library

/-- A task as a retry leaves it: what decides its next launch, but for its turn. -/
def Task.frozen (t : Task) : Task := { t with status := .queued, readySequence := none }

/-- No payload changes. -/
def Frozen (c c' : Core) : Prop := c'.tasks.rows.map Task.frozen = c.tasks.rows.map Task.frozen

section
variable {t u : Task} (h : t.frozen = u.frozen)
include h

theorem Task.frozen_id : t.id = u.id := (congrArg Task.id h :)
theorem Task.frozen_payload : t.adapterPayload = u.adapterPayload :=
  (congrArg Task.adapterPayload h :)
theorem Task.frozen_fallbacks : t.fallbackPayloads = u.fallbackPayloads :=
  (congrArg Task.fallbackPayloads h :)
theorem Task.frozen_fallbackIndex : t.fallbackIndex = u.fallbackIndex :=
  (congrArg Task.fallbackIndex h :)

end

namespace Frozen
variable {c c' c'' : Core}

theorem refl (c : Core) : Frozen c c := rfl

theorem trans (h : Frozen c c') (h' : Frozen c' c'') : Frozen c c'' := Eq.trans h' h

theorem of_tasks (h : c'.tasks = c.tasks) : Frozen c c' := by rw [Frozen, h]

theorem task_of (h : Frozen c c') {u : Task} (hu : u ∈ c'.tasks) :
    ∃ t ∈ c.tasks, u.frozen = t.frozen := by
  obtain ⟨t, ht, -, hf⟩ := mem_of_map_eq h hu
  exact ⟨t, ht, hf⟩

end Frozen

section Moves
variable {c c' : Core} {id : String}

theorem setTaskStatus_frozen (st : TaskStatus) : Frozen c (c.setTaskStatus id st) :=
  map_static_update (t := c.tasks) (p := fun t => t.id = id) (f := (·.withStatus st))
    (h := fun _ => rfl) Task.frozen fun _ => rfl

theorem enqueue_frozen (st : TaskStatus) : Frozen c (c.enqueue id st) := by
  rw [Frozen, Core.enqueue_tasks]
  exact map_static_update Task.frozen fun _ => rfl

theorem Released.frozen {p : Task → Bool} (h : Released c c' p) : Frozen c c' := by
  obtain ⟨-, -, -, -, sequence, hr, -⟩ := h
  rw [Frozen, hr, List.map_map]
  refine List.map_congr_left fun t _ => ?_
  simp only [Function.comp_apply]
  split <;> rfl

theorem releaseReady_frozen : Frozen c (releaseReady c) := (releaseReady_released c).frozen

theorem blockFailedDependencies_frozen : Frozen c (blockFailedDependencies c) := by
  rw [Frozen, blockFailedDependencies_rows, List.map_map]
  exact List.map_congr_left fun t _ => afterBlocking_field Task.frozen (fun _ => rfl) c.tasks t

theorem sweep_frozen : Frozen c c.markStoppingUnknown := by
  have hg : Frozen c (c.updateSegments (fun g => g.status = .stopping)
      (fun g => { g with status := .unknown })) := .refl _
  refine hg.trans ?_
  simp only [Core.markStoppingUnknown]
  generalize c.updateSegments (fun g => g.status = .stopping)
    (fun g => { g with status := .unknown }) _ = c
  exact map_static_update (t := c.tasks) (p := fun t => c.taskUnknown t.id)
    (f := (·.withStatus .unknown)) (h := fun _ => rfl) Task.frozen fun _ => rfl

theorem exited_frozen {d : DB} {g : Segment} {t : Task} {e : Event} :
    Frozen c (d.exited c g t e) := setTaskStatus_frozen _

theorem rejected_frozen {taskId attemptId : String} : Frozen c (c.rejected taskId attemptId) :=
  setTaskStatus_frozen _

/-- A move changes no payload, or it is a retry. -/
theorem Move.frozen {d : DB} {op : Op} {x : Option String} (h : Move d op x c c') :
    Frozen c c' ∨ ∃ t payload, t ∈ c.tasks ∧ c.taskActive t.id = 0 ∧
      c' = (c.setAdapter t.id payload).enqueue t.id .ready ∧ ∃ spec, op = .queueRetry spec := by
  cases h with
  | claim _ _ _ _ _ hattempt hsegment =>
    obtain ⟨-, -, htasks, -⟩ := startAttempt_frame hattempt
    obtain ⟨segments, -, rfl⟩ := startSegment_cases hsegment
    exact .inl ((Frozen.of_tasks htasks).trans (setTaskStatus_frozen _))
  | quiet hq => exact .inl (.of_tasks hq.tasks)
  | stopping hq => exact .inl ((Frozen.of_tasks hq.tasks).trans (setTaskStatus_frozen _))
  | unknown hq => exact .inl ((Frozen.of_tasks hq.tasks).trans (setTaskStatus_frozen _))
  | sweep => exact .inl sweep_frozen
  | exit => exact .inl exited_frozen
  | complete => exact .inl (exited_frozen.trans releaseReady_frozen)
  | exhaust => exact .inl (exited_frozen.trans blockFailedDependencies_frozen)
  | cancel => exact .inl ((setTaskStatus_frozen _).trans blockFailedDependencies_frozen)
  | accept => exact .inl ((setTaskStatus_frozen _).trans releaseReady_frozen)
  | reject => exact .inl rejected_frozen
  | rejectLast => exact .inl (rejected_frozen.trans blockFailedDependencies_frozen)
  | resume => exact .inl (enqueue_frozen _)
  | retry ht _ hidle _ hop => exact .inr ⟨_, _, ht, hidle, rfl, hop⟩

/-- A retry rewrites one task. -/
theorem retried_of_ne {t t' : Task} {payload : Option String}
    (h : t' ∈ ((c.setAdapter t.id payload).enqueue t.id .ready).tasks) (hne : t'.id ≠ t.id) :
    t' ∈ c.tasks := by
  obtain ⟨u, -, hid, rfl⟩ | ⟨hm, -⟩ := Core.mem_enqueue.mp h
  · exact absurd hid hne
  · cases payload with
    | none => exact hm
    | some payload =>
      obtain ⟨u, -, hid, rfl⟩ | ⟨hm, -⟩ := Core.mem_setTask.mp hm
      · exact absurd hid hne
      · exact hm

/-- A task with an active segment is not retried. -/
theorem Step.frozen {d : DB} {op : Op} {x : Option String} (hs : Step d op x c c') {g : Segment}
    (hg : g ∈ c.segments) (ha : g.active = true) {t t' : Task} (ht : t ∈ c.tasks)
    (hid : t.id = g.taskId) (ht' : t' ∈ c'.tasks) (hid' : t'.id = t.id) :
    t'.frozen = t.frozen := by
  cases hs with
  | submit hs =>
    obtain ⟨p, launchId, stamp, -, -, hi⟩ := hs.inserted
    obtain ⟨new, hr, -⟩ := hi.rows
    have hold : t ∈ c'.tasks := Table.mem_def.mpr (hr ▸ List.mem_append_left new ht)
    rw [Table.eq_of_key ht' hold hid']
  | move hm =>
    obtain hf | ⟨u, payload, hu, hidle, rfl, -⟩ := hm.frozen
    · obtain ⟨v, hv, hfv⟩ := hf.task_of ht'
      rw [hfv, Table.eq_of_key hv ht ((Task.frozen_id hfv).symm.trans hid')]
    · have hne : g.taskId ≠ u.id := taskActive_eq_zero.mp hidle g hg ha
      have hold : t' ∈ c.tasks := retried_of_ne ht' (by rwa [hid', hid])
      rw [Table.eq_of_key hold ht hid']

end Moves

/-! ## One capability a segment -/

section Capabilities
variable {d : DB} {op : Op} {x : Option String} {s s' : State}

structure Paired (s : State) : Prop where
  capability : ∀ g ∈ s.segments, ∃ c ∈ s.reportCapabilities, c.segmentId = g.id
  single : ∀ c ∈ s.reportCapabilities, ∀ c' ∈ s.reportCapabilities,
    c.segmentId = c'.segmentId → c.capabilityId = c'.capabilityId

/-- Capabilities keep their binding, or a claim adds that of a new segment. -/
theorem Writes.capability_rows (h : Writes d s op s') :
    ((s' = s ∨ ∀ env hostId epoch slots, op ≠ .claimReady env hostId epoch slots) ∧
      s'.reportCapabilities.rows.map ReportCapability.static =
        s.reportCapabilities.rows.map ReportCapability.static) ∨
      ∃ c, s.reportCapabilities.insert? c = some s'.reportCapabilities ∧
        (∀ g ∈ s.segments, g.id ≠ c.segmentId) ∧
        ∀ g' ∈ s'.segments, g'.id = c.segmentId ∨ ∃ g ∈ s.segments, g'.static = g.static := by
  cases h with
  | claim h =>
    obtain ⟨c₁, c₂, caps, hattempt, hsegment, hc, rfl, -⟩ := launch_cases h.launched
    obtain ⟨-, -, -, hsegs⟩ := startAttempt_frame hattempt
    obtain ⟨segments, hi, rfl⟩ := startSegment_cases hsegment
    rw [hsegs] at hi
    refine .inr ⟨_, hc, (Table.insert?_eq_some.mp hi).1, fun g' hg' => ?_⟩
    rcases (Table.mem_insert hi).mp hg' with hg | rfl
    · exact .inr ⟨g', hg, rfl⟩
    · exact .inl rfl
  | @register _ _ _ hf hst =>
    exact .inl ⟨.inr nofun, map_static_update (h := hf) ReportCapability.static hst⟩
  | report _ _ _ _ _ h₁ h₂ =>
    obtain ⟨row, events, order, usage, -, -, -, rfl⟩ := appendReport_frame h₁
    obtain ⟨core, questions, stops, rfl⟩ := askReported_frame h₂
    refine .inl ⟨.inr nofun, map_static_update (h := ?_) ReportCapability.static fun _ => rfl⟩
    exact fun _ => rfl
  | event _ _ _ _ _ h₁ h₂ =>
    obtain ⟨core, reports, order, questions, sessions, stops, rfl⟩ := applyEvent_frame h₂
    obtain ⟨events, order, usage, rfl⟩ := appendEvent_frame h₁
    exact .inl ⟨.inr nofun, rfl⟩
  | same => exact .inl ⟨.inl rfl, rfl⟩
  | fleet hop =>
    refine .inl ⟨.inr ?_, rfl⟩
    rintro _ _ _ _ rfl
    cases hop
  | _ => exact .inl ⟨.inr nofun, rfl⟩

/-- A segment was there before, or a claim creates it. -/
theorem Step.segment_of {c c' : Core} (hs : Step d op x c c') {g' : Segment}
    (hg : g' ∈ c'.segments) : (∃ g ∈ c.segments, g'.static = g.static) ∨
      ∃ env hostId epoch slots, op = .claimReady env hostId epoch slots := by
  cases hs with
  | submit hs =>
    obtain ⟨p, launchId, stamp, -, -, hi⟩ := hs.inserted
    exact .inl ⟨g', hi.segments ▸ hg, rfl⟩
  | move hm =>
    obtain ⟨-, φ, hr, hφ⟩ | hc := hm.booked
    · rw [Table.mem_def, hr] at hg
      obtain ⟨g, hm, rfl⟩ := List.mem_map.mp hg
      exact .inl ⟨g, hm, (hφ g hm).1⟩
    · obtain ⟨hop, -⟩ := hc
      exact .inr ⟨_, _, _, _, hop⟩

theorem Paired.writes (hp : Paired s) (hb : Bound s) (hs : Step d op x s.toCore s'.toCore)
    (h : Writes d s op s') : Paired s' := by
  obtain ⟨hop, hsame⟩ | ⟨c₀, hi, hnew, hsegs⟩ := h.capability_rows
  · have hold : ∀ c' ∈ s'.reportCapabilities, ∃ c ∈ s.reportCapabilities, c'.static = c.static :=
      fun c' hc' => by
        obtain ⟨c, hc, -, hst⟩ := mem_of_map_eq hsame hc'
        exact ⟨c, hc, hst⟩
    refine ⟨fun g' hg' => ?_, fun c hc c' hc' hseg => ?_⟩
    · have hseg : ∃ g ∈ s.segments, g'.static = g.static := by
        obtain hg | ⟨env, hostId, epoch, slots, hclaim⟩ := hs.segment_of hg'
        · exact hg
        · obtain rfl | hop := hop
          · exact ⟨g', hg', rfl⟩
          · exact absurd hclaim (hop env hostId epoch slots)
      obtain ⟨g, hg, hst⟩ := hseg
      obtain ⟨c, hc, hid⟩ := hp.capability g hg
      obtain ⟨c', hc', -, hcst⟩ := mem_of_map_eq hsame.symm hc
      obtain ⟨-, h1, -, -⟩ := ReportCapability.static_binding hcst
      exact ⟨c', hc', by rw [← h1, hid, Segment.static_id hst]⟩
    · obtain ⟨k, hk, hst⟩ := hold c hc
      obtain ⟨k', hk', hst'⟩ := hold c' hc'
      obtain ⟨h0, h1, -, -⟩ := ReportCapability.static_binding hst
      obtain ⟨h0', h1', -, -⟩ := ReportCapability.static_binding hst'
      rw [h0, h0']
      exact hp.single k hk k' hk' (by rw [← h1, ← h1', hseg])
  · have hapart : ∀ c ∈ s.reportCapabilities, c.segmentId ≠ c₀.segmentId := fun c hc heq => by
      obtain ⟨g, hg, hid, -⟩ := hb.capabilities c hc
      exact hnew g hg (hid.trans heq)
    refine ⟨fun g' hg' => ?_, fun c hc c' hc' hseg => ?_⟩
    · obtain hid | ⟨g, hg, hst⟩ := hsegs g' hg'
      · exact ⟨c₀, (Table.mem_insert hi).mpr (.inr rfl), hid.symm⟩
      · obtain ⟨c, hc, hid⟩ := hp.capability g hg
        exact ⟨c, (Table.mem_insert hi).mpr (.inl hc), by rw [hid, Segment.static_id hst]⟩
    · rcases (Table.mem_insert hi).mp hc with hc | rfl <;>
        rcases (Table.mem_insert hi).mp hc' with hc' | rfl
      · exact hp.single c hc c' hc' hseg
      · exact absurd hseg (hapart c hc)
      · exact absurd hseg.symm (hapart c' hc')
      · rfl

theorem paired_of_reachable {limits : ConcurrencyLimits} (h : d.Reachable limits s) :
    Paired s := by
  have hall : Bound s ∧ Paired s := by
    refine reachable_induct (P := fun s => Bound s ∧ Paired s) ⟨bound_fresh limits, ?_⟩ ?_ h
    · exact ⟨fun _ h => absurd h (Table.not_mem_empty _),
        fun _ h => absurd h (Table.not_mem_empty _)⟩
    · intro s op s' ⟨hb, hp⟩ hx
      have he := exec_effect hb hx
      exact ⟨he.bound, hp.writes hb he.step (exec_writes hx)⟩
  exact hall.2

end Capabilities
end Orchestrator.Store
