import Orchestrator.Dispatch.Latest
import Orchestrator.Invariants.Payloads
import Orchestrator.Invariants.Resting

/-!
# Retries

A retry is granted for the latest attempt of a failed task, and leaves the task
waiting for the attempt after it. So no two retries are granted for one attempt,
and every attempt but the first has a retry of its own.
-/
namespace Orchestrator.Store
open Library

/-- The attempt a retry was granted for. -/
def Core.sourceAttempt (c : Core) (r : RetryDecision) : Option String :=
  (c.segments.find? r.sourceSegmentId).map Segment.attemptId

/-- What a fresh retry finds: a failed task, and its latest attempt behind the source. -/
structure Retryable (s : State) (spec : RetrySpec) (t : Task) (g : Segment) (a : Attempt) :
    Prop where
  task : t ∈ s.tasks
  taskId : t.id = spec.taskId
  failed : t.status = .failed
  segment : g ∈ s.segments
  segmentId : g.id = spec.segmentId
  attempt : a ∈ s.attempts
  attemptId : a.id = g.attemptId
  owner : a.taskId = t.id
  latest : ∀ b ∈ s.attempts, b.taskId = t.id → b.attemptNo ≤ a.attemptNo

section Decisions
variable {d : DB} {s s' : State} {spec : RetrySpec} {receipt : RetryReceipt}

theorem latestAttempt_le {c : Core} {taskId : String} {n : Nat}
    (h : (c.latestAttempt taskId).map Attempt.attemptNo = some n) {b : Attempt}
    (hb : b ∈ c.attempts) (hid : b.taskId = taskId) : b.attemptNo ≤ n := by
  obtain ⟨a, ha, rfl⟩ := Option.map_eq_some_iff.mp h
  refine List.le_of_mem_argmax (f := Attempt.attemptNo) ?_ ha
  simp [List.mem_filter, hid, Table.mem_def.mp hb]

/-- An accepted retry is stored already, or it is the first for its source. -/
theorem queueRetry_cases (h : d.queueRetry s spec = .ok (s', receipt)) :
    (∃ row ∈ s.retryDecisions, row.actionSlot = spec.actionSlot ∧
      { row with commandId := spec.commandId } = d.retryDecision spec ∧ s' = s ∧
      receipt = retryReceipt row) ∨
    ∃ t g a payload retries, Retryable s spec t g a ∧
      nextFallback t spec.useNextFallback = .ok payload ∧
      s.retryDecisions.insert? (d.retryDecision spec) = some retries ∧
      s' = { s with
        toCore := (s.toCore.setAdapter t.id payload).enqueue t.id .ready
        retryDecisions := retries } ∧
      receipt = retryReceipt (d.retryDecision spec) := by
  simp only [DB.queueRetry, bind_ok_iff, require_ok, exists_const] at h
  obtain ⟨-, h⟩ := h
  split at h
  · rename_i row hrow
    simp only [bind_ok_iff, require_ok, exists_const, Except.ok.injEq, Prod.mk.injEq] at h
    obtain ⟨hm, hid⟩ := Table.find?_eq_some.mp hrow
    obtain ⟨hsame, rfl, rfl⟩ := h
    exact .inl ⟨row, hm, hid, hsame, rfl, rfl⟩
  · simp only [DB.applyRetry, DB.retrySource, bind_ok_iff, require_ok, expect_ok, exists_const,
      Except.ok.injEq, Prod.mk.injEq] at h
    obtain ⟨-, t, ht, ⟨hst, -⟩, -, -, -, ⟨source, -, -, -, -, g, hg, a, ha, hat, -, hlast⟩,
      payload, hpayload, retries, hi, rfl, rfl⟩ := h
    obtain ⟨htm, htid⟩ := Table.find?_eq_some.mp ht
    obtain ⟨hgm, hgid⟩ := Table.find?_eq_some.mp hg
    obtain ⟨ham, haid⟩ := Table.find?_eq_some.mp ha
    rw [← htid] at hat hlast ⊢
    exact .inr ⟨t, g, a, payload, retries, ⟨htm, htid, hst, hgm, hgid, ham, haid, hat,
      fun b hb hid => latestAttempt_le hlast hb hid⟩, hpayload, hi, rfl, rfl⟩

/-- Only `QueueRetry` writes retry decisions. -/
theorem Writes.retries {op : Op} (h : Writes d s op s') :
    s'.retryDecisions = s.retryDecisions ∨ ∃ spec, op = .queueRetry spec := by
  cases h with
  | claim h =>
    obtain ⟨c₁, c₂, caps, -, -, -, rfl, -⟩ := launch_cases h.launched
    exact .inl rfl
  | retry => exact .inr ⟨_, rfl⟩
  | report _ _ _ _ _ h₁ h₂ =>
    obtain ⟨row, events, order, usage, -, -, -, rfl⟩ := appendReport_frame h₁
    obtain ⟨core, questions, stops, rfl⟩ := askReported_frame h₂
    exact .inl rfl
  | event _ _ _ _ _ h₁ h₂ =>
    obtain ⟨core, reports, order, questions, sessions, stops, rfl⟩ := applyEvent_frame h₂
    obtain ⟨events, order, usage, rfl⟩ := appendEvent_frame h₁
    exact .inl rfl
  | _ => exact .inl rfl

end Decisions

/-! ## One retry an attempt -/

structure Retried (c : Core) (retries : Table RetryDecision.actionSlot) : Prop where
  source : ∀ r ∈ retries, ∃ g ∈ c.segments, ∃ a ∈ c.attempts,
    g.id = r.sourceSegmentId ∧ a.id = g.attemptId ∧ a.taskId = r.taskId ∧
      ((∃ b ∈ c.attempts, b.taskId = r.taskId ∧ a.attemptNo < b.attemptNo) ∨
        ∃ t ∈ c.tasks, t.id = r.taskId ∧ t.status.requeued = true)
  single : ∀ r ∈ retries, ∀ r' ∈ retries, ∀ g ∈ c.segments, ∀ g' ∈ c.segments,
    g.id = r.sourceSegmentId → g'.id = r'.sourceSegmentId → g.attemptId = g'.attemptId → r = r'
  attempts : ∀ t ∈ c.tasks, c.taskAttempts t.id + (if t.status.unlaunched then 1 else 0) ≤
    1 + retries.count (fun r => r.taskId = t.id)

section Steps
variable {d : DB} {op : Op} {x : Option String} {c c' : Core}
  {retries : Table RetryDecision.actionSlot}

theorem Grows.attempt_mem (h : Grows c c') {a : Attempt} (ha : a ∈ c.attempts) :
    ∃ a' ∈ c'.attempts, a'.id = a.id ∧ a'.taskId = a.taskId ∧ a'.attemptNo = a.attemptNo := by
  obtain ⟨a', ha', hst⟩ := mem_of_map_prefix h.attempts ha
  exact ⟨a', ha', Attempt.static_eq hst⟩

/-- Sources stay where they are, as long as their tasks wait or have moved on. -/
theorem Retried.source_of (h : Retried c retries) (hk : Grows c c')
    (hwaits : ∀ t ∈ c.tasks, t.status.requeued = true →
      (∃ t' ∈ c'.tasks, t'.id = t.id ∧ t'.status.requeued = true) ∨
        ∀ a ∈ c.attempts, a.taskId = t.id →
          ∃ b ∈ c'.attempts, b.taskId = t.id ∧ a.attemptNo < b.attemptNo) :
    ∀ r ∈ retries, ∃ g ∈ c'.segments, ∃ a ∈ c'.attempts,
      g.id = r.sourceSegmentId ∧ a.id = g.attemptId ∧ a.taskId = r.taskId ∧
        ((∃ b ∈ c'.attempts, b.taskId = r.taskId ∧ a.attemptNo < b.attemptNo) ∨
          ∃ t ∈ c'.tasks, t.id = r.taskId ∧ t.status.requeued = true) := by
  intro r hr
  obtain ⟨g, hg, a, ha, hgid, haid, hat, hafter⟩ := h.source r hr
  obtain ⟨g', hg', hgst⟩ := hk.segment hg
  obtain ⟨a', ha', e1, e2, e3⟩ := hk.attempt_mem ha
  refine ⟨g', hg', a', ha', (Segment.static_id hgst).trans hgid, ?_, e2.trans hat, ?_⟩
  · rw [e1, haid, Segment.static_attemptId hgst]
  · rw [e3]
    obtain ⟨b, hb, hbt, hlt⟩ | ⟨t, ht, htid, hp⟩ := hafter
    · obtain ⟨b', hb', -, e2', e3'⟩ := hk.attempt_mem hb
      exact .inl ⟨b', hb', e2'.trans hbt, by rw [e3']; exact hlt⟩
    · obtain ⟨t', ht', hid, hp'⟩ | hlater := hwaits t ht hp
      · exact .inr ⟨t', ht', hid.trans htid, hp'⟩
      · rw [← htid] at hat ⊢
        exact .inl (hlater a ha hat)

theorem Retried.single_of (h : Retried c retries) (hk : Grows c c') :
    ∀ r ∈ retries, ∀ r' ∈ retries, ∀ g ∈ c'.segments, ∀ g' ∈ c'.segments,
      g.id = r.sourceSegmentId → g'.id = r'.sourceSegmentId → g.attemptId = g'.attemptId →
        r = r' := by
  intro r hr r' hr' g hg g' hg' hid hid' heq
  obtain ⟨k, hk₀, -, -, hkid, -⟩ := h.source r hr
  obtain ⟨k', hk₀', -, -, hkid', -⟩ := h.source r' hr'
  refine h.single r hr r' hr' k hk₀ k' hk₀' hkid hkid' ?_
  obtain ⟨l, hl, hst⟩ := hk.segment hk₀
  obtain ⟨l', hl', hst'⟩ := hk.segment hk₀'
  obtain rfl : l = g := Table.eq_of_key hl hg ((Segment.static_id hst).trans (hkid.trans hid.symm))
  obtain rfl : l' = g' :=
    Table.eq_of_key hl' hg' ((Segment.static_id hst').trans (hkid'.trans hid'.symm))
  rw [← Segment.static_attemptId hst, ← Segment.static_attemptId hst', heq]

theorem taskAttempts_eq_zero {taskId : String}
    (howned : ∀ a ∈ c.attempts, ∃ t ∈ c.tasks, t.id = a.taskId)
    (hnew : ∀ t ∈ c.tasks, t.id ≠ taskId) : c.taskAttempts taskId = 0 := by
  refine Table.count_eq_zero.mpr fun a ha => decide_eq_false fun hid => ?_
  obtain ⟨t, ht, htid⟩ := howned a ha
  exact hnew t ht (htid.trans hid)

/-- A step that claims nothing starts no attempt. -/
theorem Step.taskAttempts (h : Step d op x c c')
    (hclaim : ∀ env hostId epoch slots, op ≠ .claimReady env hostId epoch slots)
    (taskId : String) : c'.taskAttempts taskId = c.taskAttempts taskId := by
  cases h with
  | submit hsub =>
    obtain ⟨p, launchId, stamp, -, -, hi⟩ := hsub.inserted
    rw [Core.taskAttempts, hi.attempts, Core.taskAttempts]
  | move hm =>
    obtain hb | ⟨hop, -⟩ := hm.booked
    · have hcount := fun c : Core => count_taskId c (fun id => id = taskId)
      rw [Core.taskAttempts, hcount, hb.attempts, ← hcount, Core.taskAttempts]
    · exact absurd hop (hclaim _ _ _ _)

/-- Steps other than claims and retries. -/
theorem Retried.keep (h : Retried c retries) (hs : Slots d.toPlatform c)
    (howned : ∀ a ∈ c.attempts, ∃ t ∈ c.tasks, t.id = a.taskId) (hstep : Step d op x c c')
    (hclaim : ∀ env hostId epoch slots, op ≠ .claimReady env hostId epoch slots)
    (hretry : ∀ spec, op ≠ .queueRetry spec) : Retried c' retries := by
  refine ⟨h.source_of hstep.grows fun t ht hp => ?_, h.single_of hstep.grows, fun t' ht' => ?_⟩
  · obtain hw | ⟨env, hostId, epoch, slots, hop⟩ := hstep.rests requeued_resting hs ht hp
    · exact .inl hw
    · exact absurd hop (hclaim env hostId epoch slots)
  · rw [hstep.taskAttempts hclaim]
    by_cases hold : ∃ t ∈ c.tasks, t.id = t'.id
    · obtain ⟨t, ht, hid⟩ := hold
      have hle := h.attempts t ht
      rw [hid] at hle
      refine le_trans (Nat.add_le_add_left ?_ _) hle
      split
      · rename_i hp
        obtain ⟨u, hu, huid, hup⟩ | hnew | ⟨spec, hop⟩ := hstep.unlaunched_of hs ht' hp
        · obtain rfl : u = t := Table.eq_of_key hu ht (huid.trans hid.symm)
          rw [if_pos hup]
        · exact absurd hid (hnew t ht)
        · exact absurd hop (hretry spec)
      · exact Nat.zero_le _
    · rw [taskAttempts_eq_zero howned fun t ht hid => hold ⟨t, ht, hid⟩]
      split <;> omega

/-- A claim starts an attempt of a task that waits for its launch. -/
theorem startAttempt_count {t : Task} {place : Placement} (hc : t.status.claimable = true)
    (h : c.startAttempt t place = .ok c') :
    c'.taskAttempts t.id = c.taskAttempts t.id + if t.status.unlaunched then 1 else 0 := by
  unfold Core.startAttempt at h
  split at h
  · rename_i hres
    cases h
    simp [hres, TaskStatus.unlaunched]
  · rename_i hres
    have hready : t.status = .ready := by
      cases hst : t.status <;> simp_all [TaskStatus.claimable]
    simp only [bind_ok_iff, require_ok, expect_ok, exists_const, Except.ok.injEq] at h
    obtain ⟨-, attempts, hi, rfl⟩ := h
    simp [Core.taskAttempts, Table.count_insert hi, hready, TaskStatus.unlaunched]

theorem Retried.claim (h : Retried c retries) (hn : Numbered c) (hc : Claim d op c c') :
    Retried c' retries := by
  obtain @⟨c₁, c₂, env, hostId, epoch, -, t, place, -, ht, hclaimable, hplace, -, hattempt,
    hsegment⟩ := hc
  have hk := (claim_kept hattempt hsegment).toGrows
  have hstart := startAttempt_cases hplace hattempt
  obtain ⟨-, -, htasks, hsegs⟩ := startAttempt_frame hattempt
  obtain ⟨segments, hi, rfl⟩ := startSegment_cases hsegment
  refine ⟨h.source_of hk fun u hu hp => ?_, h.single_of hk, fun u hu => ?_⟩
  · by_cases hid : u.id = t.id
    · obtain rfl : u = t := Table.eq_of_key hu ht hid
      obtain ⟨hres, -⟩ | ⟨-, rfl, -, attempts, hia, rfl⟩ := hstart
      · rw [hres] at hp
        cases hp
      · refine .inr fun a ha hat => ⟨_, (Table.mem_insert hia).mpr (.inr rfl), rfl, ?_⟩
        exact Nat.lt_succ_of_le (hn.attemptNo a ha u hu hat.symm)
    · refine .inl ⟨u, Core.mem_setTaskStatus.mpr (.inr ⟨?_, hid⟩), rfl, hp⟩
      exact htasks ▸ hu
  · obtain ⟨v, hv, hid, rfl⟩ | ⟨hu, hid⟩ := Core.mem_setTaskStatus.mp hu
    · obtain rfl : v = t := Table.eq_of_key (htasks ▸ hv) ht hid
      have hcount := startAttempt_count hclaimable hattempt
      exact le_of_eq_of_le hcount (h.attempts v ht)
    · have hsame : Core.taskAttempts (Core.setTaskStatus { c₁ with segments := segments } t.id
          .running) u.id = c.taskAttempts u.id := startAttempt_attempts hattempt (Ne.symm hid)
      rw [hsame]
      exact h.attempts u (htasks ▸ hu)

/-! ### A fresh retry -/

section Fresh
variable {s : State} {spec : RetrySpec} {t : Task} {g : Segment} {a : Attempt}
  {payload : Option String}

theorem retry_core (c : Core) (id : String) (payload : Option String) :
    ((c.setAdapter id payload).enqueue id .ready).segments = c.segments ∧
      ((c.setAdapter id payload).enqueue id .ready).attempts = c.attempts := by
  cases payload <;> exact ⟨rfl, rfl⟩

/-- A retry changes only the row of its task. -/
theorem retry_others {u : Task} (hu : u ∈ c.tasks) (hne : u.id ≠ t.id) :
    u ∈ ((c.setAdapter t.id payload).enqueue t.id .ready).tasks := by
  refine Core.mem_enqueue.mpr (.inr ⟨?_, hne⟩)
  cases payload with
  | none => exact hu
  | some payload => exact Core.mem_setTask.mpr (.inr ⟨hu, hne⟩)

theorem retry_ready {u : Task}
    (hu : u ∈ ((c.setAdapter t.id payload).enqueue t.id .ready).tasks) (hid : u.id = t.id) :
    u.status = .ready := by
  obtain ⟨v, -, -, rfl⟩ | ⟨-, hne⟩ := Core.mem_enqueue.mp hu
  · rfl
  · exact absurd hid hne

/-- No older retry has its source in the attempt that is retried: it would have
given the task a later one, or it still waits. -/
theorem Retryable.unsourced (hfound : Retryable s spec t g a)
    (h : Retried s.toCore s.retryDecisions) {r : RetryDecision} (hr : r ∈ s.retryDecisions)
    {k : Segment} (hk : k ∈ s.segments) (hkid : k.id = r.sourceSegmentId) :
    k.attemptId ≠ g.attemptId := by
  intro heq
  obtain ⟨k', hk', b, hb, hkid', hbid, hbt, hafter⟩ := h.source r hr
  obtain rfl : k = k' := Table.eq_of_key hk hk' (hkid.trans hkid'.symm)
  obtain rfl : b = a := Table.eq_of_key hb hfound.attempt
    (hbid.trans (heq.trans hfound.attemptId.symm))
  rw [← hbt, hfound.owner] at hafter
  obtain ⟨later, hl, hlt, hlater⟩ | ⟨u, hu, hid, hp⟩ := hafter
  · exact absurd (hfound.latest later hl hlt) (Nat.not_le_of_lt hlater)
  · rw [Table.eq_of_key hu hfound.task hid, hfound.failed] at hp
    cases hp

/-- The retry itself: its source is the attempt that failed, and its task waits. -/
theorem Retryable.sourced (hfound : Retryable s spec t g a) (payload : Option String) :
    ∃ g' ∈ s.segments, ∃ a' ∈ s.attempts, g'.id = spec.segmentId ∧ a'.id = g'.attemptId ∧
      a'.taskId = spec.taskId ∧
      ∃ u ∈ ((s.toCore.setAdapter t.id payload).enqueue t.id .ready).tasks,
        u.id = spec.taskId ∧ u.status.requeued = true := by
  have hk : Grows s.toCore ((s.toCore.setAdapter t.id payload).enqueue t.id .ready) :=
    ((setAdapter_kept payload).trans (enqueue_kept _)).toGrows
  obtain ⟨u, hu, hst⟩ := hk.task hfound.task
  have hid : u.id = t.id := Task.static_id hst
  refine ⟨g, hfound.segment, a, hfound.attempt, hfound.segmentId, hfound.attemptId,
    hfound.owner.trans hfound.taskId, u, hu, hid.trans hfound.taskId, ?_⟩
  rw [retry_ready hu hid]
  rfl

/-- A fresh retry takes the source no other has, and gives its task one more attempt. -/
theorem Retried.retry (h : Retried s.toCore s.retryDecisions) (hfound : Retryable s spec t g a)
    (hi : s.retryDecisions.insert? (d.retryDecision spec) = some retries) :
    Retried ((s.toCore.setAdapter t.id payload).enqueue t.id .ready) retries := by
  have hk : Grows s.toCore ((s.toCore.setAdapter t.id payload).enqueue t.id .ready) :=
    ((setAdapter_kept payload).trans (enqueue_kept _)).toGrows
  obtain ⟨hsegs, hatts⟩ := retry_core s.toCore t.id payload
  refine ⟨fun r hr => ?_, fun r hr r' hr' k hkm k' hkm' hid hid' heq => ?_, fun u hu => ?_⟩
  · obtain hr | rfl := (Table.mem_insert hi).mp hr
    · refine h.source_of hk (fun u hu hp => .inl ⟨u, retry_others hu fun hid => ?_, rfl, hp⟩) r hr
      rw [Table.eq_of_key hu hfound.task hid, hfound.failed] at hp
      cases hp
    · obtain ⟨g', hg', a', ha', hgid, haid, hat, hwaits⟩ := hfound.sourced payload
      exact ⟨g', hsegs ▸ hg', a', hatts ▸ ha', hgid, haid, hat, .inr hwaits⟩
  · rw [hsegs] at hkm hkm'
    obtain hr | rfl := (Table.mem_insert hi).mp hr <;>
      obtain hr' | rfl := (Table.mem_insert hi).mp hr'
    · exact h.single r hr r' hr' k hkm k' hkm' hid hid' heq
    · obtain rfl : k' = g := Table.eq_of_key hkm' hfound.segment (hid'.trans hfound.segmentId.symm)
      exact absurd heq (hfound.unsourced h hr hkm hid)
    · obtain rfl : k = g := Table.eq_of_key hkm hfound.segment (hid.trans hfound.segmentId.symm)
      exact absurd heq.symm (hfound.unsourced h hr' hkm' hid')
    · rfl
  · rw [Core.taskAttempts, hatts, Table.count_insert hi]
    by_cases hid : u.id = t.id
    · have hle := h.attempts t hfound.task
      rw [hfound.failed] at hle
      have hspec : (d.retryDecision spec).taskId = t.id := hfound.taskId.symm
      simp only [retry_ready hu hid, hid, hspec, decide_true, if_true, TaskStatus.unlaunched,
        Core.taskAttempts] at hle ⊢
      simp only [Bool.false_eq_true, if_false] at hle
      omega
    · have hle := h.attempts u (retried_of_ne hu hid)
      exact hle.trans (Nat.add_le_add_left (Nat.le_add_right _ _) _)

end Fresh

theorem Retried.exec {limits : ConcurrencyLimits} {s s' : State}
    (h : Retried s.toCore s.retryDecisions) (hr : d.Reachable limits s)
    (hx : d.exec s op = .ok s') : Retried s'.toCore s'.retryDecisions := by
  have hstep := (exec_effect (bound_of_reachable hr) hx).step
  have hwrites := (exec_writes hx).retries
  have hkeep := h.keep (slots_of_reachable hr) (budget_of_reachable hr).owned hstep
  by_cases hclaims : ∃ env hostId epoch slots, op = .claimReady env hostId epoch slots
  · obtain ⟨env, hostId, epoch, slots, rfl⟩ := hclaims
    obtain ⟨cmd, hclaim⟩ := committed_ok.mp hx
    obtain ⟨t, place, hc⟩ := claimReady_iff.mp hclaim
    obtain ⟨host, -, -, -, hsel⟩ := hc.host
    obtain ⟨ht, -, hclaimable, -⟩ := selectReady_spec hsel
    obtain ⟨c₁, c₂, capabilities, h₁, h₂, -, rfl, -⟩ := launch_cases hc.launched
    exact h.claim (numbered_of_reachable hr)
      (.intro (rfl : Op.claimReady env hostId epoch slots = _) ht hclaimable hc.placed
        hc.granted h₁ h₂)
  by_cases hretries : ∃ spec, op = .queueRetry spec
  · obtain ⟨spec, rfl⟩ := hretries
    obtain ⟨receipt, hretry⟩ := committed_ok.mp hx
    obtain ⟨-, -, -, -, rfl, -⟩ | ⟨t, g, a, payload, retries, hfound, -, hi, rfl, -⟩ :=
      queueRetry_cases hretry
    · exact h
    · exact h.retry hfound hi
  obtain hsame | hop := hwrites
  · rw [hsame]
    exact hkeep (fun env hostId epoch slots h => hclaims ⟨env, hostId, epoch, slots, h⟩)
      fun spec h => hretries ⟨spec, h⟩
  · exact absurd hop hretries

theorem retried_fresh (limits : ConcurrencyLimits) :
    Retried (Core.fresh limits) (State.fresh limits).retryDecisions := by
  refine ⟨?_, ?_, ?_⟩ <;> exact fun _ h => absurd h (Table.not_mem_empty _)

theorem retried_of_reachable {limits : ConcurrencyLimits} {s : State} (h : d.Reachable limits s) :
    Retried s.toCore s.retryDecisions := by
  have hall : d.Reachable limits s ∧ Retried s.toCore s.retryDecisions := by
    refine reachable_induct
      (P := fun s : State => d.Reachable limits s ∧ Retried s.toCore s.retryDecisions)
      ⟨reachable_fresh d limits, retried_fresh limits⟩ ?_ h
    intro s op s' ⟨hr, hs⟩ hx
    exact ⟨step_of_exec hx ▸ reachable_step op hr, hs.exec hr hx⟩
  exact hall.2

end Steps

/-! ## Replays -/

section Replays
variable {d : DB} {s s' : State} {spec : RetrySpec} {receipt : RetryReceipt} {row : RetryDecision}

/-- The spec is the one the decision was made for, under whatever command id. -/
structure RetryDecision.For (d : DB) (row : RetryDecision) (spec : RetrySpec) : Prop where
  slot : row.actionSlot = spec.actionSlot
  same : { row with commandId := spec.commandId } = d.retryDecision spec
  valid : spec.taskId ≠ "" ∧ 1 ≤ spec.workRevision ∧ spec.eventId ≠ "" ∧ 1 ≤ spec.eventRevision ∧
    validDigest spec.eventHash = true ∧ spec.actionSlot ≠ "" ∧ spec.segmentId ≠ "" ∧
    2 ≤ spec.nextAttemptNo ∧ spec.commandId ≠ "" ∧ spec.commandId.utf8ByteSize ≤ 128

theorem queueRetry_row (h : d.queueRetry s spec = .ok (s', receipt)) :
    ∃ row ∈ s'.retryDecisions, row.For d spec ∧ receipt = retryReceipt row := by
  have hvalid := h
  simp only [DB.queueRetry, bind_ok_iff, require_ok, exists_const] at hvalid
  obtain ⟨row, hm, hslot, hsame, rfl, hreceipt⟩ |
    ⟨t, g, a, payload, retries, -, -, hi, rfl, hreceipt⟩ :=
    queueRetry_cases h
  · exact ⟨row, hm, ⟨hslot, hsame, hvalid.1⟩, hreceipt⟩
  · exact ⟨_, (Table.mem_insert hi).mpr (.inr rfl), ⟨rfl, rfl, hvalid.1⟩, hreceipt⟩

/-- A stored decision answers its spec again. -/
theorem queueRetry_stored (hm : row ∈ s.retryDecisions) (hfor : row.For d spec) :
    d.queueRetry s spec = .ok (s, retryReceipt row) := by
  have hfind : s.retryDecisions.find? spec.actionSlot = some row :=
    Table.find?_eq_some.mpr ⟨hm, hfor.slot⟩
  simp only [DB.queueRetry, bind_ok_iff, require_ok, exists_const, hfind]
  exact ⟨hfor.valid, hfor.same, trivial⟩

theorem exec_keeps_retry {op : Op} (hm : row ∈ s.retryDecisions) (hx : d.exec s op = .ok s') :
    row ∈ s'.retryDecisions := by
  obtain hsame | ⟨spec, rfl⟩ := (exec_writes hx).retries
  · exact hsame ▸ hm
  · obtain ⟨receipt, h⟩ := committed_ok.mp hx
    obtain ⟨-, -, -, -, rfl, -⟩ | ⟨t, g, a, payload, retries, -, -, hi, rfl, -⟩ :=
      queueRetry_cases h
    · exact hm
    · exact (Table.mem_insert hi).mpr (.inl hm)

theorem run_keeps_retry (hm : row ∈ s.retryDecisions) (ops : List Op) :
    row ∈ (d.run s ops).retryDecisions :=
  run_invariant (I := fun s : State => row ∈ s.retryDecisions) hm fun _ _ h =>
    step_induct (P := fun s' : State => row ∈ s'.retryDecisions) h fun _ hx =>
      exec_keeps_retry h hx

end Replays

/-! ## The frozen plan -/

/-- The tasks an accepted plan brings. -/
def DB.submitted (d : DB) (s : State) : Op → List TaskSpec
  | .submitPlan env p => if (d.submitPlan env s p).isOk then p.tasks else []
  | _ => []

/-- The tasks submitted along a run. -/
def DB.submissions (d : DB) (s : State) : List Op → List TaskSpec
  | [] => []
  | op :: ops => d.submitted s op ++ d.submissions (d.step s op) ops

/-- The payload of the task is one of its plan's: the first, or the fallback its index names. -/
structure Planned (d : DB) (spec : TaskSpec) (t : Task) : Prop where
  id : t.id = spec.id
  fallbacks : t.fallbackPayloads = spec.fallbackPayloads.map d.compact
  within : t.fallbackIndex ≤ t.fallbackPayloads.length
  first : t.fallbackIndex = 0 →
    t.adapterPayload = if spec.adapterPayload = "" then "{}" else spec.adapterPayload
  fallback : ∀ n, t.fallbackIndex = n + 1 → t.fallbackPayloads[n]? = some t.adapterPayload

section Payloads
variable {d : DB} {s s' : State} {spec : TaskSpec} {t t' : Task}

theorem Planned.frozen (h : Planned d spec t) (hf : t'.frozen = t.frozen) : Planned d spec t' := by
  obtain ⟨hid, hfall, hwithin, hfirst, hnext⟩ := h
  rw [← Task.frozen_id hf] at hid
  rw [← Task.frozen_fallbacks hf] at hfall hwithin hnext
  rw [← Task.frozen_fallbackIndex hf] at hwithin hfirst hnext
  rw [← Task.frozen_payload hf] at hfirst hnext
  exact ⟨hid, hfall, hwithin, hfirst, hnext⟩

theorem planned_admitted {launchId stamp : String} {ready : Option Int} :
    Planned d spec (d.taskRow launchId stamp spec ready) :=
  ⟨rfl, rfl, Nat.zero_le _, fun _ => rfl, nofun⟩

/-- The next fallback becomes the payload, and its index moves on with it. -/
theorem Planned.retried {c : Core} {payload : Option String} {useNext : Bool}
    (h : Planned d spec t) (ht : t ∈ c.tasks) (hnext : nextFallback t useNext = .ok payload)
    (ht' : t' ∈ ((c.setAdapter t.id payload).enqueue t.id .ready).tasks) (hid : t'.id = t.id) :
    Planned d spec t' := by
  obtain ⟨u, hu, huid, rfl⟩ | ⟨-, hne⟩ := Core.mem_enqueue.mp ht'
  swap
  · exact absurd hid hne
  cases payload with
  | none =>
    obtain rfl : u = t := Table.eq_of_key hu ht huid
    exact h.frozen rfl
  | some payload =>
    obtain ⟨v, hv, hvid, rfl⟩ | ⟨-, hne⟩ := Core.mem_setTask.mp hu
    swap
    · exact absurd huid hne
    obtain rfl : v = t := Table.eq_of_key hv ht hvid
    have hget : v.fallbackPayloads[v.fallbackIndex]? = some payload := by
      unfold nextFallback at hnext
      split at hnext
      · simp only [bind_ok_iff, expect_ok, Except.ok.injEq] at hnext
        obtain ⟨fallback, hget, hsome⟩ := hnext
        split at hsome
        · cases hsome
        · cases hsome
          exact hget
      · cases hnext
    have hlt : v.fallbackIndex < v.fallbackPayloads.length := (List.getElem?_eq_some_iff.mp hget).1
    refine ⟨h.id, h.fallbacks, hlt, fun h => ?_, fun n hn => ?_⟩
    · cases h
    obtain rfl : v.fallbackIndex = n := Nat.succ.inj hn
    exact hget

/-- Plans bring tasks, retries move on to a fallback, and nothing else writes payloads. -/
theorem Step.payload_of {op : Op} {x : Option String} {c c' : Core} (h : Step d op x c c')
    (ht' : t' ∈ c'.tasks) : (∃ t ∈ c.tasks, t'.frozen = t.frozen) ∨
      (∃ env p, op = .submitPlan env p) ∨ ∃ spec, op = .queueRetry spec := by
  cases h with
  | submit _ _ hop => exact .inr (.inl hop)
  | move hm =>
    obtain hf | ⟨-, -, -, -, -, hop⟩ := hm.frozen
    · exact .inl (hf.task_of ht')
    · exact .inr (.inr hop)

theorem planned_exec {op : Op} {specs : List TaskSpec} (hb : Bound s) (hx : d.exec s op = .ok s')
    (h : ∀ t ∈ s.tasks, ∃ spec ∈ specs, Planned d spec t) :
    ∀ t' ∈ s'.tasks, ∃ spec ∈ specs ++ d.submitted s op, Planned d spec t' := by
  have hold : ∀ t' ∈ s'.tasks, (∃ t ∈ s.tasks, t'.frozen = t.frozen) →
      ∃ spec ∈ specs ++ d.submitted s op, Planned d spec t' := by
    rintro t' - ⟨t, ht, hf⟩
    obtain ⟨spec, hspec, hp⟩ := h t ht
    exact ⟨spec, List.mem_append_left _ hspec, hp.frozen hf⟩
  intro t' ht'
  obtain hfrozen | ⟨env, p, rfl⟩ | ⟨r, rfl⟩ := (exec_effect hb hx).step.payload_of ht'
  · exact hold t' ht' hfrozen
  · have hok : (d.submitPlan env s p).isOk = true := by
      obtain ⟨receipt, hsub⟩ := committed_ok.mp hx
      rw [hsub]
      rfl
    cases exec_writes hx with
    | same => exact hold t' ht' ⟨t', ht', rfl⟩
    | fleet hop => cases hop
    | plan _ _ hcore =>
      obtain ⟨new, hr, hrow, -⟩ := (insertTasks_inserted hcore).rows
      obtain ht' | ht' := List.mem_append.mp (hr ▸ Table.mem_def.mp ht')
      · exact hold t' (Table.mem_def.mpr (hr ▸ List.mem_append_left new ht')) ⟨t', ht', rfl⟩
      · obtain ⟨spec, hspec, hadm⟩ := forall₂_right hrow ht'
        refine ⟨spec, List.mem_append_right _ ?_, ?_⟩
        · simpa only [DB.submitted, hok, if_true] using hspec
        · obtain ⟨-, n, -, -, rfl⟩ | ⟨-, rfl⟩ := hadm <;> exact planned_admitted
  · obtain ⟨receipt, hretry⟩ := committed_ok.mp hx
    obtain ⟨-, -, -, -, rfl, -⟩ | ⟨t, g, a, payload, retries, hfound, hnext, hi, rfl, -⟩ :=
      queueRetry_cases hretry
    · exact hold t' ht' ⟨t', ht', rfl⟩
    · by_cases hid : t'.id = t.id
      · obtain ⟨spec, hspec, hp⟩ := h t hfound.task
        exact ⟨spec, List.mem_append_left _ hspec, hp.retried hfound.task hnext ht' hid⟩
      · exact hold t' ht' ⟨t', retried_of_ne ht' hid, rfl⟩

theorem planned_run {limits : ConcurrencyLimits} (specs : List TaskSpec) (ops : List Op)
    (hr : d.Reachable limits s) (h : ∀ t ∈ s.tasks, ∃ spec ∈ specs, Planned d spec t) :
    ∀ t ∈ (d.run s ops).tasks, ∃ spec ∈ specs ++ d.submissions s ops, Planned d spec t := by
  induction ops generalizing s specs with
  | nil => simpa [DB.submissions, DB.run] using h
  | cons op ops ih =>
    rw [DB.submissions, ← List.append_assoc]
    refine ih _ (reachable_step op hr) ?_
    refine step_induct (P := fun s' : State => ∀ t ∈ s'.tasks,
      ∃ spec ∈ specs ++ d.submitted s op, Planned d spec t) ?_ fun s' hx =>
        planned_exec (bound_of_reachable hr) hx h
    intro t ht
    obtain ⟨spec, hspec, hp⟩ := h t ht
    exact ⟨spec, List.mem_append_left _ hspec, hp⟩

end Payloads

/-- Retries are granted once for an attempt, pay for every attempt after the first, answer
their replays, and stay within the plan. -/
theorem retry_exactly_once (d : DB) (limits : ConcurrencyLimits) (ops : List Op) :
    (∀ r ∈ (d.run (State.fresh limits) ops).retryDecisions,
      ∃ a ∈ (d.run (State.fresh limits) ops).attempts, a.taskId = r.taskId ∧
        (d.run (State.fresh limits) ops).sourceAttempt r = some a.id) ∧
    (∀ r ∈ (d.run (State.fresh limits) ops).retryDecisions,
      ∀ r' ∈ (d.run (State.fresh limits) ops).retryDecisions,
        (d.run (State.fresh limits) ops).sourceAttempt r =
          (d.run (State.fresh limits) ops).sourceAttempt r' → r = r') ∧
    (∀ t ∈ (d.run (State.fresh limits) ops).tasks,
      (d.run (State.fresh limits) ops).taskAttempts t.id ≤
        1 + (d.run (State.fresh limits) ops).retryDecisions.count (fun r => r.taskId = t.id)) ∧
    (∀ spec s' receipt,
      d.queueRetry (d.run (State.fresh limits) ops) spec = .ok (s', receipt) →
        ∃ row : RetryDecision, row.For d spec ∧ receipt = retryReceipt row ∧
          ∀ more, row ∈ (d.run s' more).retryDecisions ∧
            d.queueRetry (d.run s' more) spec = .ok (d.run s' more, receipt)) ∧
    ∀ t ∈ (d.run (State.fresh limits) ops).tasks,
      ∃ spec ∈ d.submissions (State.fresh limits) ops, Planned d spec t := by
  have hr : d.Reachable limits (d.run (State.fresh limits) ops) := ⟨ops, rfl⟩
  have h := retried_of_reachable hr
  have hsource : ∀ r ∈ (d.run (State.fresh limits) ops).retryDecisions,
      ∃ g ∈ (d.run (State.fresh limits) ops).segments, g.id = r.sourceSegmentId ∧
        (d.run (State.fresh limits) ops).sourceAttempt r = some g.attemptId := by
    intro r hm
    obtain ⟨g, hg, -, -, hid, -⟩ := h.source r hm
    refine ⟨g, hg, hid, ?_⟩
    rw [Core.sourceAttempt, Table.find?_eq_some.mpr ⟨hg, hid⟩]
    rfl
  refine ⟨fun r hm => ?_, fun r hm r' hm' heq => ?_, fun t ht => ?_, fun spec s' receipt hx => ?_,
    ?_⟩
  · obtain ⟨g, hg, a, ha, hid, haid, hat, -⟩ := h.source r hm
    refine ⟨a, ha, hat, ?_⟩
    rw [Core.sourceAttempt, Table.find?_eq_some.mpr ⟨hg, hid⟩, haid]
    rfl
  · obtain ⟨g, hg, hid, hs⟩ := hsource r hm
    obtain ⟨g', hg', hid', hs'⟩ := hsource r' hm'
    refine h.single r hm r' hm' g hg g' hg' hid hid' ?_
    rwa [hs, hs', Option.some.injEq] at heq
  · exact (Nat.le_add_right _ _).trans (h.attempts t ht)
  · obtain ⟨row, hm, hfor, rfl⟩ := queueRetry_row hx
    exact ⟨row, hfor, rfl, fun more =>
      ⟨run_keeps_retry hm more, queueRetry_stored (run_keeps_retry hm more) hfor⟩⟩
  · have hplan := planned_run [] ops (reachable_fresh d limits)
      fun t ht => absurd ht (Table.not_mem_empty _)
    exact hplan

end Orchestrator.Store
