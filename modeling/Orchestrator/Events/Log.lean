import Orchestrator.Invariants.Writes
import Orchestrator.Library.Numbered

/-!
# The log of a producer

The events of a producer are stored under the sequences 1, 2, …, and each is
applied when it is stored. An event that comes again is answered from the log.
-/
namespace Orchestrator.Store
open Library

/-- The sequences stored for a producer, oldest first. -/
def State.sequences (s : State) (producerId : String) : List Int :=
  (s.runtimeEvents.rows.filter (fun r => r.producerId = producerId)).map RuntimeEvent.sequence

/-- A Host with this registration may commit events of the epoch. -/
def State.admits (s : State) (producerId : String) (epoch : Nat) : Prop :=
  ∃ host, s.hosts.find? producerId = some host ∧ host.acceptsEvents epoch

instance (s : State) (producerId : String) (epoch : Nat) : Decidable (s.admits producerId epoch) :=
  decidable_of_iff ((s.hosts.find? producerId).any (fun host => host.acceptsEvents epoch) = true)
    (by simp [State.admits, Option.any_eq_true])

/-- The log holds what its producers sent, each under consecutive sequences. -/
structure Logged (d : DB) (s : State) : Prop where
  rows : ∀ r ∈ s.runtimeEvents, r.entry = (d.runtimeEventRow r.body).entry ∧ wellFormed r.body
  numbered : ∀ p, ∃ n, s.sequences p = upTo n

theorem Logged.fresh (d : DB) (limits : ConcurrencyLimits) : Logged d (State.fresh limits) :=
  ⟨fun _ h => absurd h (Table.not_mem_empty _), fun _ => ⟨0, rfl⟩⟩

section Log
variable {d : DB} {s s' : State} {op : Op} {r : RuntimeEvent} {e : Event}

/-- The sequences are those of the entries, whatever became of their delivery. -/
theorem sequences_eq (s : State) (p : String) :
    s.sequences p = ((s.runtimeEvents.rows.map RuntimeEvent.entry).filter
      (fun r => r.producerId = p)).map RuntimeEvent.sequence := by
  rw [List.filter_map, List.map_map]
  rfl

theorem lastSequence_of_upTo {p : String} {n : Nat} (h : s.sequences p = upTo n) :
    s.lastSequence p = n := by
  have hlast : s.lastSequence p = (s.sequences p).foldr max 0 := rfl
  rw [hlast, h, foldr_max_upTo]

theorem Logged.append (h : Logged d s) (hwf : wellFormed e)
    (hnext : e.sequence = s.lastSequence e.producerId + 1)
    (hrows : s'.runtimeEvents.rows = s.runtimeEvents.rows ++ [d.runtimeEventRow e]) :
    Logged d s' := by
  constructor
  · intro r hr
    rw [Table.mem_def, hrows, List.mem_append, List.mem_singleton] at hr
    rcases hr with hr | rfl
    · exact h.rows r hr
    · exact ⟨rfl, hwf⟩
  · intro p
    obtain ⟨n, hn⟩ := h.numbered p
    have hs' : s'.sequences p =
        s.sequences p ++ ([d.runtimeEventRow e].filter (fun r => r.producerId = p)).map
          RuntimeEvent.sequence := by
      unfold State.sequences
      rw [hrows, List.filter_append, List.map_append]
    by_cases hp : e.producerId = p
    · subst hp
      refine ⟨n + 1, ?_⟩
      rw [lastSequence_of_upTo hn] at hnext
      rw [hs', hn, upTo_succ, ← hnext]
      simp [DB.runtimeEventRow]
    · refine ⟨n, ?_⟩
      rw [hs', hn]
      simp [DB.runtimeEventRow, hp]

theorem Logged.writes (h : Logged d s) (hw : Writes d s op s') : Logged d s' := by
  obtain hsame | ⟨e, -, hwf, hnext, hrows⟩ := hw.log
  · constructor
    · intro r hr
      obtain ⟨r₀, hr₀, -, heq⟩ := mem_of_map_eq hsame hr
      have hbody : r.body = r₀.body := (congrArg RuntimeEvent.body heq :)
      rw [heq, hbody]
      exact h.rows r₀ hr₀
    · intro p
      obtain ⟨n, hn⟩ := h.numbered p
      refine ⟨n, ?_⟩
      rw [sequences_eq, hsame, ← sequences_eq, hn]
  · exact h.append hwf hnext hrows

theorem logged_of_reachable {limits : ConcurrencyLimits} (h : d.Reachable limits s) : Logged d s :=
  reachable_induct (Logged.fresh d limits) (fun _ _ _ hl hx => hl.writes (exec_writes hx)) h

/-- The last sequence counts the stored events. -/
theorem Logged.last (h : Logged d s) (p : String) :
    s.lastSequence p = (s.sequences p).length ∧ s.sequences p = upTo (s.sequences p).length := by
  obtain ⟨n, hn⟩ := h.numbered p
  rw [hn, length_upTo]
  exact ⟨lastSequence_of_upTo hn, rfl⟩

theorem Logged.last_le (h : Logged d s) (hw : Writes d s op s') (p : String) :
    s.lastSequence p ≤ s'.lastSequence p := by
  rw [((h.writes hw).last p).1, (h.last p).1]
  obtain hsame | ⟨e, -, -, -, hrows⟩ := hw.log
  · rw [sequences_eq s', hsame, ← sequences_eq]
  · have hpre : (s.sequences p).length ≤ (s'.sequences p).length := by
      simp only [State.sequences, hrows, List.filter_append, List.map_append, List.length_append]
      omega
    exact_mod_cast hpre

theorem Logged.last_le_step (h : Logged d s) (op : Op) (p : String) :
    s.lastSequence p ≤ (d.step s op).lastSequence p :=
  step_induct (P := fun s' => s.lastSequence p ≤ s'.lastSequence p) (le_refl _)
    fun _ hx => h.last_le (exec_writes hx) p

/-- A new entry is the event an operation commits. -/
theorem mem_log_step (hr : r ∈ (d.step s op).runtimeEvents) :
    (∃ q ∈ s.runtimeEvents, q.producerId = r.producerId ∧ q.body = r.body) ∨
      ∃ e, op.event = some e ∧ r = d.runtimeEventRow e := by
  revert hr
  refine step_induct (P := fun s' : State => r ∈ s'.runtimeEvents → _)
    (fun hr => .inl ⟨r, hr, rfl, rfl⟩) fun s' hx hr => ?_
  obtain hsame | ⟨e, he, -, -, hrows⟩ := (exec_writes hx).log
  · obtain ⟨q, hq, -, heq⟩ := mem_of_map_eq hsame hr
    exact .inl ⟨q, hq, (congrArg RuntimeEvent.producerId heq :).symm,
      (congrArg RuntimeEvent.body heq :).symm⟩
  · rw [Table.mem_def, hrows, List.mem_append, List.mem_singleton] at hr
    cases hr with
    | inl hr => exact .inl ⟨r, hr, rfl, rfl⟩
    | inr hr => exact .inr ⟨e, he, hr⟩

/-- One entry has one producer and sequence. -/
theorem Logged.unique (h : Logged d s) {q : RuntimeEvent} (hr : r ∈ s.runtimeEvents)
    (hq : q ∈ s.runtimeEvents) (hp : q.producerId = r.producerId)
    (hs : q.sequence = r.sequence) : q = r := by
  obtain ⟨n, hn⟩ := h.numbered r.producerId
  have hnodup : (s.sequences r.producerId).Nodup := hn ▸ nodup_upTo n
  refine List.inj_on_of_nodup_map hnodup ?_ ?_ hs
  · exact List.mem_filter.mpr ⟨hq, by simpa using hp⟩
  · exact List.mem_filter.mpr ⟨hr, by simp⟩

/-- The columns of an entry are those of its body. -/
theorem Logged.columns (h : Logged d s) (hr : r ∈ s.runtimeEvents) :
    r.producerId = r.body.producerId ∧ r.sequence = r.body.sequence ∧
      r.eventId = r.body.eventId ∧ r.payloadHash = r.body.payloadHash := by
  have heq := (h.rows r hr).1
  exact ⟨(congrArg RuntimeEvent.producerId heq :), (congrArg RuntimeEvent.sequence heq :),
    (congrArg RuntimeEvent.eventId heq :), (congrArg RuntimeEvent.payloadHash heq :)⟩

/-! ## What becomes of an event -/

theorem canonical_eq (h : canonicalHostEvent e = canonicalHostEvent r.body) :
    e.producerId = r.body.producerId ∧ e.sequence = r.body.sequence ∧
      e.eventId = r.body.eventId ∧ e.payloadHash = r.body.payloadHash ∧
      (wellFormed e ↔ wellFormed r.body) := by
  have hwf : ∀ x : Event, wellFormed x ↔ wellFormed (canonicalHostEvent x) := fun _ => Iff.rfl
  refine ⟨(congrArg Event.producerId h :), (congrArg Event.sequence h :),
    (congrArg Event.eventId h :), (congrArg Event.payloadHash h :), ?_⟩
  rw [hwf e, h, ← hwf]

/-- The log answers an event whose sequence it holds. -/
theorem commitHostEvent_held (h : Logged d s) (env : Env) (hr : r ∈ s.runtimeEvents)
    (hp : r.producerId = e.producerId) (hs : r.sequence = e.sequence) (hwf : wellFormed e)
    (ha : s.admits e.producerId e.executionEpoch) :
    d.commitHostEvent env s e =
      if canonicalHostEvent e = canonicalHostEvent r.body then .ok (s, hostAck e)
      else .error .eventSequenceConflict := by
  obtain ⟨host, hhost, hacc⟩ := ha
  have hfind : s.runtimeEvents.rows.find?
      (fun r => r.producerId = e.producerId && r.sequence = e.sequence) = some r := by
    cases hf : s.runtimeEvents.rows.find?
        (fun r => r.producerId = e.producerId && r.sequence = e.sequence) with
    | none =>
      have := List.find?_eq_none.mp hf r hr
      simp [hp, hs] at this
    | some q =>
      have hsel := List.find?_some hf
      simp only [Bool.and_eq_true, decide_eq_true_eq] at hsel
      rw [h.unique hr (List.mem_of_find?_eq_some hf) (hsel.1.trans hp.symm)
        (hsel.2.trans hs.symm)]
  simp only [DB.commitHostEvent, require_pos hwf, hhost, expect_some, require_pos hacc, ok_bind,
    hfind]
  by_cases heq : canonicalHostEvent e = canonicalHostEvent r.body
  · obtain ⟨-, -, hid, hash, -⟩ := canonical_eq heq
    obtain ⟨-, -, hrid, hrhash⟩ := h.columns hr
    rw [if_pos heq, require_pos ⟨hrid.trans hid.symm, hrhash.trans hash.symm, heq.symm⟩, ok_bind]
  · rw [if_neg heq, require_neg fun hx => heq hx.2.2.symm, error_bind]

/-- An event the log does not hold is stored only under its producer's next sequence. -/
theorem commitHostEvent_new (h : Logged d s) {env : Env} {ack : DurableAck}
    (hnew : ¬ s.Committed e) (hx : d.commitHostEvent env s e = .ok (s', ack)) :
    e.sequence = (s.sequences e.producerId).length + 1 ∧ s'.Committed e := by
  simp only [DB.commitHostEvent, bind_ok_iff, require_ok, expect_ok, exists_const] at hx
  obtain ⟨-, host, -, -, hx⟩ := hx
  split at hx
  · rename_i old hold
    have hsel := List.find?_some hold
    simp only [Bool.and_eq_true, decide_eq_true_eq] at hsel
    exact absurd ⟨old, List.mem_of_find?_eq_some hold, hsel⟩ hnew
  · simp only [DB.commitNew, bind_ok_iff, require_ok, expect_ok, exists_const, Except.ok.injEq,
      Prod.mk.injEq] at hx
    obtain ⟨hnext, incoming, -, _, -, g, -, -, s₁, h₁, s₂, h₂, rfl, -⟩ := hx
    obtain ⟨n, hn⟩ := h.numbered e.producerId
    have hrows := appendEvent_rows h₁
    obtain ⟨core, reports, order, questions, sessions, stops, rfl⟩ := applyEvent_frame h₂
    refine ⟨?_, d.runtimeEventRow e, ?_, rfl, rfl⟩
    · rw [hnext, lastSequence_of_upTo hn, hn, length_upTo]
    · change d.runtimeEventRow e ∈ s₁.runtimeEvents.rows
      rw [hrows]
      exact List.mem_append_right _ (List.mem_singleton_self _)

theorem commitHostEvent_ack {env : Env} {ack : DurableAck}
    (hx : d.commitHostEvent env s e = .ok (s', ack)) : ack = hostAck e := by
  simp only [DB.commitHostEvent, bind_ok_iff, require_ok, expect_ok, exists_const] at hx
  obtain ⟨-, host, -, -, hx⟩ := hx
  split at hx
  · simp only [bind_ok_iff, require_ok, exists_const, Except.ok.injEq, Prod.mk.injEq] at hx
    exact hx.2.2.symm
  · simp only [DB.commitNew, bind_ok_iff, require_ok, expect_ok, exists_const, Except.ok.injEq,
      Prod.mk.injEq] at hx
    obtain ⟨-, incoming, -, _, -, g, -, -, s₁, -, s₂, -, -, hack⟩ := hx
    exact hack.symm

/-- A committed event stays committed. -/
theorem committed_run (ops : List Op) (h : s.Committed e) : (d.run s ops).Committed e := by
  refine run_invariant (I := fun s : State => s.Committed e) h fun s op hs => ?_
  refine step_induct (P := fun s : State => s.Committed e) hs fun s' hx => ?_
  obtain hsame | ⟨e', -, -, -, hrows⟩ := (exec_writes hx).log
  · obtain ⟨r, hr, hp, hseq⟩ := hs
    obtain ⟨r', hr', -, heq⟩ := mem_of_map_eq hsame.symm hr
    exact ⟨r', ‹_›, (congrArg RuntimeEvent.producerId heq :) ▸ hp,
      (congrArg RuntimeEvent.sequence heq :) ▸ hseq⟩
  · obtain ⟨r, hr, hx⟩ := hs
    exact ⟨r, hrows ▸ List.mem_append_left _ hr, hx⟩

/-- An event that is committed already changes nothing, whatever its content. -/
theorem commitHostEvent_again (env : Env) (h : s.Committed e) :
    d.step s (.commitHostEvent env e) = s := by
  refine step_induct (P := fun s' => s' = s) rfl fun s' hx => ?_
  obtain ⟨ack, hx⟩ := committed_ok.mp hx
  obtain ⟨-, rfl⟩ | ⟨hnew, -⟩ := commitHostEvent_cases hx
  · rfl
  · obtain ⟨r, hr, hslot⟩ := h
    exact absurd hslot (hnew r hr)

/-- An accepted event is committed, now or before. -/
theorem committed_of_accepted (h : Logged d s) {env : Env}
    (hx : d.exec s (.commitHostEvent env e) = .ok s') : s'.Committed e := by
  obtain ⟨ack, hx⟩ := committed_ok.mp hx
  by_cases hnew : s.Committed e
  · obtain ⟨-, rfl⟩ | ⟨hn, -⟩ := commitHostEvent_cases hx
    · exact hnew
    · obtain ⟨r, hr, hslot⟩ := hnew
      exact absurd hslot (hn r hr)
  · exact (commitHostEvent_new h hnew hx).2

end Log

/-! ## Replay safety -/

/-- What the log of a state owes its producers. -/
structure ReplaySafe (d : DB) (s : State) : Prop where
  /-- The stored sequences of a producer are 1, …, n. -/
  gapFree : ∀ p, ∃ n, s.sequences p = upTo n
  /-- An event that was accepted once is never applied again. -/
  once : ∀ env e s', d.exec s (.commitHostEvent env e) = .ok s' → ∀ later env' e',
    e'.producerId = e.producerId → e'.sequence = e.sequence →
      d.step (d.run s' later) (.commitHostEvent env' e') = d.run s' later
  /-- A stored event that comes again gets the first answer, if its Host is
  registered for its epoch. -/
  resent : ∀ env e, ∀ r ∈ s.runtimeEvents, canonicalHostEvent e = canonicalHostEvent r.body →
    d.commitHostEvent env s e =
      if s.admits e.producerId e.executionEpoch then .ok (s, hostAck r.body)
      else .error .hostRejected
  /-- Other content under a stored sequence is refused. -/
  changed : ∀ env e, ∀ r ∈ s.runtimeEvents, r.producerId = e.producerId →
    r.sequence = e.sequence → canonicalHostEvent e ≠ canonicalHostEvent r.body →
      (∃ error, d.commitHostEvent env s e = .error error) ∧
        d.step s (.commitHostEvent env e) = s
  /-- An event that is not the next one is refused. -/
  gap : ∀ env e, ¬ s.Committed e → e.sequence ≠ (s.sequences e.producerId).length + 1 →
    (∃ error, d.commitHostEvent env s e = .error error) ∧ d.step s (.commitHostEvent env e) = s

section Safe
variable {d : DB} {s : State}

theorem refused_of_not_ok {env : Env} {e : Event}
    (h : ∀ s' ack, d.commitHostEvent env s e ≠ .ok (s', ack)) :
    (∃ error, d.commitHostEvent env s e = .error error) ∧
      d.step s (.commitHostEvent env e) = s := by
  cases hx : d.commitHostEvent env s e with
  | ok p => exact absurd hx (h p.1 p.2)
  | error err =>
    refine ⟨⟨err, rfl⟩, step_of_error (e := err) ?_⟩
    simp only [DB.exec, hx]
    rfl

theorem Logged.resent (h : Logged d s) (env : Env) {e : Event} {r : RuntimeEvent}
    (hr : r ∈ s.runtimeEvents) (heq : canonicalHostEvent e = canonicalHostEvent r.body) :
    d.commitHostEvent env s e =
      if s.admits e.producerId e.executionEpoch then .ok (s, hostAck r.body)
      else .error .hostRejected := by
  obtain ⟨hp, hs, hid, hhash, hwf⟩ := canonical_eq heq
  obtain ⟨hrp, hrs, -, -⟩ := h.columns hr
  have hwf' : wellFormed e := hwf.mpr (h.rows r hr).2
  by_cases ha : s.admits e.producerId e.executionEpoch
  · have hack : hostAck e = hostAck r.body := by simp only [hostAck, hp, hs, hid, hhash]
    rw [if_pos ha, commitHostEvent_held h env hr (hrp.trans hp.symm) (hrs.trans hs.symm) hwf' ha,
      if_pos heq, hack]
  · rw [if_neg ha]
    simp only [DB.commitHostEvent, require_pos hwf', ok_bind]
    cases hfind : s.hosts.find? e.producerId with
    | none => rfl
    | some host =>
      have hno : ¬ host.acceptsEvents e.executionEpoch := fun hacc => ha ⟨host, hfind, hacc⟩
      simp only [expect_some, ok_bind, require_neg hno, error_bind]

theorem Logged.changed (h : Logged d s) (env : Env) {e : Event} {r : RuntimeEvent}
    (hr : r ∈ s.runtimeEvents) (hp : r.producerId = e.producerId) (hs : r.sequence = e.sequence)
    (hne : canonicalHostEvent e ≠ canonicalHostEvent r.body) (s' : State) (ack : DurableAck) :
    d.commitHostEvent env s e ≠ .ok (s', ack) := by
  intro hx
  have hguards := hx
  simp only [DB.commitHostEvent, bind_ok_iff, require_ok, expect_ok, exists_const] at hguards
  obtain ⟨hwf, host, hhost, hacc, -⟩ := hguards
  rw [commitHostEvent_held h env hr hp hs hwf ⟨host, hhost, hacc⟩, if_neg hne] at hx
  cases hx

end Safe

/-- Whatever the Hosts send, in every order and under every epoch, the log of
each producer is gap-free and safe against replays. -/
theorem log_replay_safe (d : DB) (limits : ConcurrencyLimits) (ops : List Op) :
    ReplaySafe d (d.run (State.fresh limits) ops) := by
  have hr : d.Reachable limits (d.run (State.fresh limits) ops) := ⟨ops, rfl⟩
  generalize d.run (State.fresh limits) ops = s at hr ⊢
  have h := logged_of_reachable hr
  constructor
  · exact h.numbered
  · intro env e s' hx later env' e' hp hs
    have hc : s'.Committed e' := by
      obtain ⟨r, hr, hrp, hrs⟩ := committed_of_accepted h hx
      exact ⟨r, hr, hrp.trans hp.symm, hrs.trans hs.symm⟩
    exact commitHostEvent_again env' (committed_run later hc)
  · intro env e r hr heq
    exact h.resent env hr heq
  · intro env e r hr hp hs hne
    exact refused_of_not_ok (h.changed env hr hp hs hne)
  · intro env e hnew hnext
    apply refused_of_not_ok
    intro s' ack hx
    exact hnext (commitHostEvent_new h hnew hx).1

/-- The first event of `a` is stored, then another coordinator takes over. -/
def supersededOps : List Op :=
  toyStart [toyTask "a" 2 []] ++ [toyClaim 11, toyCommit "a" 11 1 .prepared,
    .beginCoordinatorEpoch 2]

/-- Sent again under the old epoch, the stored event is refused. -/
theorem stale_resend_refused :
    (∃ r ∈ (toyDB.run (State.fresh {}) supersededOps).runtimeEvents.rows,
      canonicalHostEvent (toyEvent "a" 11 1 .prepared) = canonicalHostEvent r.body) ∧
    (toyDB.commitHostEvent (toyEnv 10) (toyDB.run (State.fresh {}) supersededOps)
      (toyEvent "a" 11 1 .prepared)).isOk = false := by
  decide +kernel

end Orchestrator.Store
