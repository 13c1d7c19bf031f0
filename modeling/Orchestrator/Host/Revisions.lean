import Orchestrator.Host.System
import Orchestrator.Events.Next
import Orchestrator.Events.Rounds

/-!
# Question revisions

The Host numbers the question of a segment from its grant alone; the store keeps
one row for each revision of a task, for good. Along a run whose claims and
reports leave the Hosts their next revisions, no question of a Host is refused
for its revision.
-/
namespace Orchestrator.Host
open Library Store

/-! ## What a Host asks -/

section Execute
variable {p : Platform} {grant : LaunchCommand} {provider : String}

theorem providerSessionKind_ne (provider : String) : providerSessionKind provider ≠ "" := by
  unfold providerSessionKind
  split <;> simp

theorem launched_asks {identity : ProcessIdentity} {session : Option String} {draft : Draft}
    (hd : draft ∈ launched p grant provider identity session) : draft.kind ≠ .question := by
  cases session <;> simp only [launched, Option.map_none, Option.map_some, Option.toList_none,
    Option.toList_some, List.mem_append, List.mem_cons, List.not_mem_nil, or_false,
    List.append_nil] at hd
  · obtain rfl | rfl | rfl := hd <;> simp [preparedDraft]
  · obtain (rfl | rfl | rfl) | rfl := hd <;> simp [preparedDraft]

/-- The question of a structured terminal is the only one a grant asks. -/
theorem mem_execute_question {observed : Observed} {draft : Draft}
    (hd : draft ∈ execute p grant provider observed) (hk : draft.kind = .question) :
    ∃ identity session exit t, observed = .structured identity session exit t ∧
      draft = terminalDraft p grant provider identity exit t := by
  cases observed with
  | rejected =>
    simp only [execute, recordLaunchFailed, List.mem_cons, List.not_mem_nil, or_false] at hd
    obtain rfl | rfl := hd <;> cases hk
  | stoppedEarly =>
    simp only [execute, finalizeStopped, List.mem_cons, List.not_mem_nil, or_false] at hd
    obtain rfl | rfl | rfl := hd <;> cases hk
  | startFailed =>
    simp only [execute, List.mem_cons, List.not_mem_nil, or_false] at hd
    obtain rfl | rfl := hd <;> cases hk
  | lost identity session =>
    rcases List.mem_append.mp hd with hd | hd
    · exact absurd hk (launched_asks hd)
    · rw [List.mem_singleton.mp hd] at hk; cases hk
  | stopped identity session exit =>
    rcases List.mem_append.mp hd with hd | hd
    · exact absurd hk (launched_asks hd)
    · simp only [finalizeStopped, List.mem_cons, List.not_mem_nil, or_false] at hd
      obtain rfl | rfl := hd <;> cases hk
  | structured identity session exit t =>
    rcases List.mem_append.mp hd with hd | hd
    · exact absurd hk (launched_asks hd)
    · simp only [List.mem_cons, List.not_mem_nil, or_false] at hd
      obtain rfl | rfl := hd
      · exact ⟨identity, session, exit, t, rfl, rfl⟩
      · cases hk
  | plain identity exit artifact =>
    rcases List.mem_append.mp hd with hd | hd
    · exact absurd hk (launched_asks hd)
    · simp only [List.mem_cons, List.not_mem_nil, or_false] at hd
      obtain rfl | rfl := hd
      · simp only at hk
        split at hk <;> cases hk
      · cases hk

/-- A question is numbered from the grant. -/
theorem execute_question {observed : Observed} {draft : Draft}
    (hd : draft ∈ execute p grant provider observed) (hk : draft.kind = .question) :
    draft.fields.sessionKind ≠ "" ∧
      draft.fields.questionRevision = grant.questionRevision + 1 := by
  obtain ⟨identity, session, exit, t, rfl, rfl⟩ := mem_execute_question hd hk
  exact ⟨providerSessionKind_ne provider, if_pos hk⟩

theorem execute_asks (observed : Observed) :
    (execute p grant provider observed).countP (fun draft => draft.kind = .question) ≤ 1 := by
  by_cases hs : ∃ identity session exit t, observed = .structured identity session exit t
  · obtain ⟨identity, session, exit, t, rfl⟩ := hs
    have hnone : (launched p grant provider identity session).countP
        (fun draft => draft.kind = .question) = 0 :=
      List.countP_eq_zero.mpr fun draft hd => by simpa using launched_asks hd
    rw [execute, List.countP_append, hnone, List.countP_cons, List.countP_cons, List.countP_nil]
    simp only [reduceCtorEq, decide_false, Bool.false_eq_true, if_false]
    split <;> omega
  · have hnone : (execute p grant provider observed).countP
        (fun draft => draft.kind = .question) = 0 := by
      refine List.countP_eq_zero.mpr fun draft hd hk => ?_
      obtain ⟨identity, session, exit, t, heq, -⟩ := mem_execute_question hd (by simpa using hk)
      exact hs ⟨identity, session, exit, t, heq⟩
    omega

theorem recoverDuplicateGrant_asks {h : Source} {draft : Draft}
    (hd : draft ∈ h.recoverDuplicateGrant p grant) : draft.kind ≠ .question := by
  unfold Source.recoverDuplicateGrant at hd
  split at hd
  · cases hd
  · split at hd
    · simp only [recordLaunchFailed, List.mem_cons, List.not_mem_nil, or_false] at hd
      obtain rfl | rfl := hd <;> simp
    · split at hd
      · cases hd
      · rw [List.mem_singleton.mp hd]; simp [unknownDraft]

end Execute

/-! ## What a source has asked and will ask -/

/-- Questions are numbered from their grants, and no grant asks two. -/
structure Asking (h : Source) : Prop where
  spool : ∀ e ∈ h.spool, e.kind = .question → e.questionId ≠ "" ∧ e.sessionKind ≠ "" ∧
    ∃ k ∈ h.workers, e.commandId = k.grant.commandId ∧ e.segmentId = k.grant.segmentId ∧
      e.taskId = k.grant.taskId ∧ e.questionRevision = k.grant.questionRevision + 1
  todo : ∀ k ∈ h.workers, ∀ draft ∈ k.todo, draft.kind = .question →
    draft.fields.sessionKind ≠ "" ∧
      draft.fields.questionRevision = k.grant.questionRevision + 1
  recovery : ∀ k ∈ h.workers, ∀ gd ∈ k.recovery, gd.2.kind ≠ .question
  once : ∀ k ∈ h.workers,
    h.spool.countP (fun e => e.kind = .question && e.commandId = k.grant.commandId) +
      k.todo.countP (fun draft => draft.kind = .question) ≤ 1

section Asking
variable {p : Platform} {commands : List LaunchCommand} {h h' : Source}

/-- Nothing is appended, and goroutines at most lose what they had to append. -/
theorem Asking.of_workers (ha : Asking h) (hspool : h'.spool = h.spool)
    (hold : ∀ k ∈ h.workers, ∃ k' ∈ h'.workers, k'.grant = k.grant)
    (hnew : ∀ k' ∈ h'.workers, ∃ k ∈ h.workers, k.grant = k'.grant ∧ k'.todo.Sublist k.todo ∧
      ∀ gd ∈ k'.recovery, gd.2.kind ≠ .question) : Asking h' := by
  refine ⟨fun e he hk => ?_, fun k' hk' draft hd hq => ?_, fun k' hk' => ?_, fun k' hk' => ?_⟩
  · rw [hspool] at he
    obtain ⟨hid, hses, k, hkm, h1, h2, h3, h4⟩ := ha.spool e he hk
    obtain ⟨k', hk', heq⟩ := hold k hkm
    exact ⟨hid, hses, k', hk', by rw [heq, h1], by rw [heq, h2], by rw [heq, h3], by rw [heq, h4]⟩
  · obtain ⟨k, hk, heq, hsub, -⟩ := hnew k' hk'
    rw [← heq]
    exact ha.todo k hk draft (hsub.subset hd) hq
  · obtain ⟨k, hk, -, -, hrec⟩ := hnew k' hk'
    exact hrec
  · obtain ⟨k, hk, heq, hsub, -⟩ := hnew k' hk'
    rw [hspool, ← heq]
    have := ha.once k hk
    have := hsub.countP_le (p := fun draft => decide (draft.kind = .question))
    omega

/-- Workers rewritten in place. -/
theorem Asking.setWorker (ha : Asking h) {commandId : String} {f : Worker → Worker}
    {hf : ∀ k, (f k).grant = k.grant}
    (hrec : ∀ k ∈ h.workers, (f k).todo.Sublist k.todo ∧
      ∀ gd ∈ (f k).recovery, gd.2.kind ≠ .question) : Asking (h.setWorker commandId f hf) := by
  refine ha.of_workers rfl (fun k hk => ?_) fun k' hk' => ?_
  · refine ⟨_, Source.mem_setWorker.mpr ⟨k, hk, rfl⟩, ?_⟩
    split
    · exact hf k
    · rfl
  · obtain ⟨k, hk, rfl⟩ := Source.mem_setWorker.mp hk'
    refine ⟨k, hk, ?_⟩
    split
    · exact ⟨(hf k).symm, hrec k hk⟩
    · exact ⟨rfl, .refl _, ha.recovery k hk⟩

/-- A new grant has asked nothing yet. -/
theorem Asking.insert (ha : Asking h) {grant : LaunchCommand} {provider : String}
    {observed : Observed} {workers : Table (fun k : Worker => k.grant.commandId)}
    (hi : h.workers.insert? ⟨grant, execute p grant provider observed, [], 0⟩ = some workers) :
    Asking { h with workers := workers } := by
  have hnew := (Table.insert?_eq_some.mp hi).1
  refine ⟨fun e he hk => ?_, fun k' hk' => ?_, fun k' hk' => ?_, fun k' hk' => ?_⟩
  · obtain ⟨hid, hses, k, hkm, hcols⟩ := ha.spool e he hk
    exact ⟨hid, hses, k, (Table.mem_insert hi).mpr (.inl hkm), hcols⟩
  all_goals rcases (Table.mem_insert hi).mp hk' with hk' | rfl
  · exact ha.todo k' hk'
  · exact fun draft hd => execute_question hd
  · exact ha.recovery k' hk'
  · exact fun _ h => absurd h List.not_mem_nil
  · exact ha.once k' hk'
  · have hzero :
        h.spool.countP (fun e => e.kind = .question && e.commandId = grant.commandId) = 0 := by
      refine List.countP_eq_zero.mpr fun e he hsel => ?_
      simp only [Bool.and_eq_true, decide_eq_true_eq] at hsel
      obtain ⟨-, -, k, hkm, hcmd, -⟩ := ha.spool e he hsel.1
      exact hnew k hkm (hcmd.symm.trans hsel.2)
    have : (execute p grant provider observed).countP (fun draft => draft.kind = .question) ≤ 1 :=
      execute_asks observed
    change h.spool.countP (fun e => e.kind = .question && e.commandId = grant.commandId) +
      (execute p grant provider observed).countP (fun draft => draft.kind = .question) ≤ 1
    omega

theorem Asking.append (ha : Asking h) (commandId : String) : Asking (h.append commandId) := by
  rcases h.append_cases commandId with heq | ⟨k, hk, hid, draft, todo, htodo, heq⟩ <;> rw [heq]
  · exact ha
  · have hdraft : draft ∈ k.todo := by rw [htodo]; exact List.mem_cons_self
    -- the worker behind a row of the new ledger
    have hmem : ∀ k' ∈ ((h.appendStructuredEvent k.grant draft).setWorker commandId
        (fun k => { k with todo := todo }) (fun _ => rfl)).workers,
        k' = { k with todo := todo } ∨ k' ∈ h.workers ∧ k'.grant.commandId ≠ commandId := by
      intro k' hk'
      obtain ⟨k₀, hk₀, rfl⟩ := Source.mem_setWorker.mp hk'
      split
      · rename_i hid₀
        obtain rfl : k₀ = k := Table.eq_of_key (t := h.workers) hk₀ hk (hid₀.trans hid.symm)
        exact .inl rfl
      · rename_i hid₀
        exact .inr ⟨hk₀, hid₀⟩
    have hself : { k with todo := todo } ∈ ((h.appendStructuredEvent k.grant draft).setWorker
        commandId (fun k => { k with todo := todo }) (fun _ => rfl)).workers :=
      Source.mem_setWorker.mpr ⟨k, hk, if_pos hid⟩
    refine ⟨fun e he hq => ?_, fun k' hk' draft' hd' => ?_, fun k' hk' => ?_, fun k' hk' => ?_⟩
    · rcases List.mem_append.mp he with he | he
      · obtain ⟨hne, hses, k₁, hk₁, hcols⟩ := ha.spool e he hq
        by_cases hid₁ : k₁.grant.commandId = commandId
        · obtain rfl : k₁ = k := Table.eq_of_key (t := h.workers) hk₁ hk (hid₁.trans hid.symm)
          exact ⟨hne, hses, _, hself, hcols⟩
        · exact ⟨hne, hses, k₁, Source.mem_setWorker.mpr ⟨k₁, hk₁, if_neg hid₁⟩, hcols⟩
      · obtain rfl := List.mem_singleton.mp he
        obtain ⟨hses, hrev⟩ := ha.todo k hk draft hdraft hq
        refine ⟨?_, hses, _, hself, rfl, rfl, rfl, hrev⟩
        change (if draft.kind = .question then h.eventId ++ ":question" else "") ≠ ""
        rw [if_pos (show draft.kind = .question from hq)]
        simp
    · rcases hmem k' hk' with rfl | ⟨hk', -⟩
      · exact ha.todo k hk draft' (by rw [htodo]; exact List.mem_cons_of_mem _ hd')
      · exact ha.todo k' hk' draft' hd'
    · rcases hmem k' hk' with rfl | ⟨hk', -⟩
      · exact ha.recovery k hk
      · exact ha.recovery k' hk'
    · have hspool : ((h.appendStructuredEvent k.grant draft).setWorker commandId
          (fun k => { k with todo := todo }) (fun _ => rfl)).spool =
          h.spool ++ [h.structuredEvent k.grant draft] := rfl
      rw [hspool, List.countP_append, List.countP_singleton]
      rcases hmem k' hk' with rfl | ⟨hk', hne⟩
      · -- the question moves from what is to be appended to what is
        have := ha.once k hk
        rw [htodo, List.countP_cons] at this
        have hkind : (h.structuredEvent k.grant draft).kind = draft.kind := rfl
        have hcmd : (h.structuredEvent k.grant draft).commandId = k.grant.commandId := rfl
        simp only [hkind, hcmd, decide_true, Bool.and_true]
        omega
      · have := ha.once k' hk'
        have hcmd : (h.structuredEvent k.grant draft).commandId ≠ k'.grant.commandId := by
          rw [show (h.structuredEvent k.grant draft).commandId = commandId from hid]
          exact hne.symm
        simp only [hcmd, decide_false, Bool.and_false, Bool.false_eq_true, if_false]
        omega

/-- What a recovery appends is no question. -/
theorem Asking.appendOther (ha : Asking h) {grant : LaunchCommand} {draft : Draft}
    (hd : draft.kind ≠ .question) : Asking (h.appendStructuredEvent grant draft) := by
  refine ⟨fun e he hk => ?_, ha.todo, ha.recovery, fun k hk => ?_⟩
  · rcases List.mem_append.mp he with he | he
    · exact ha.spool e he hk
    · obtain rfl := List.mem_singleton.mp he
      exact absurd hk hd
  · have hspool : (h.appendStructuredEvent grant draft).spool =
        h.spool ++ [h.structuredEvent grant draft] := rfl
    have hkind : (h.structuredEvent grant draft).kind = draft.kind := rfl
    rw [hspool, List.countP_append, List.countP_singleton, hkind]
    have := ha.once k hk
    simp only [hd, decide_false, Bool.false_and, Bool.false_eq_true, if_false]
    exact this

theorem Asking.local (ha : Asking h) (hl : Local p commands h h') : Asking h' := by
  cases hl with
  | cursor =>
    exact ha.of_workers rfl (fun k hk => ⟨k, hk, rfl⟩)
      fun k hk => ⟨k, hk, rfl, .refl _, ha.recovery k hk⟩
  | @accept cmd hc hid epoch provider observed =>
    rcases h.acceptGrant_cases p { cmd with executionEpoch := epoch } provider observed with
      heq | ⟨_, -, -, -, heq⟩ | ⟨workers, hi, heq⟩ <;> rw [heq]
    · exact ha
    · refine ha.setWorker fun k hk => ⟨.refl _, fun gd hgd => ?_⟩
      rcases List.mem_append.mp hgd with hgd | hgd
      · exact ha.recovery k hk gd hgd
      · obtain ⟨draft, hd, rfl⟩ := List.mem_map.mp hgd
        exact recoverDuplicateGrant_asks hd
    · exact ha.insert hi
  | append id => exact ha.append id
  | recover id =>
    rcases h.recover_cases id with heq | ⟨k, hk, hid, grant, draft, rest, hrec, heq⟩ <;> rw [heq]
    · exact ha
    · have hkey : ∀ k' ∈ h.workers, k'.grant.commandId = id → k' = k := fun k' hk' hid' =>
        Table.eq_of_key (t := h.workers) hk' hk (hid'.trans hid.symm)
      have hother : Asking (h.appendStructuredEvent grant draft) :=
        ha.appendOther (ha.recovery k hk (grant, draft) (by rw [hrec]; exact List.mem_cons_self))
      refine hother.of_workers rfl (fun k' hk' => ?_) fun k' hk' => ?_
      · refine ⟨_, Source.mem_setWorker.mpr ⟨k', hk', rfl⟩, ?_⟩
        split <;> rfl
      · obtain ⟨k₀, hk₀, rfl⟩ := Source.mem_setWorker.mp hk'
        refine ⟨k₀, hk₀, ?_⟩
        split
        · rename_i hid₀
          obtain rfl := hkey k₀ hk₀ hid₀
          exact ⟨rfl, .refl _, fun gd hgd =>
            ha.recovery _ hk gd (by rw [hrec]; exact List.mem_cons_of_mem _ hgd)⟩
        · exact ⟨rfl, .refl _, ha.recovery k₀ hk₀⟩
  | work id ms =>
    refine ha.setWorker fun k hk => ?_
    split
    · exact ⟨.refl _, ha.recovery k hk⟩
    · exact ⟨.refl _, ha.recovery k hk⟩
  | restart =>
    refine ha.of_workers rfl (fun k hk => ?_) fun k' hk' => ?_
    · exact ⟨_, mem_restart.mpr ⟨k, hk, rfl⟩, rfl⟩
    · obtain ⟨k, hk, rfl⟩ := mem_restart.mp hk'
      exact ⟨k, hk, rfl, List.nil_sublist _, fun _ h => absurd h List.not_mem_nil⟩

/-- Two questions of one grant are one. -/
theorem Asking.eq_of_command (ha : Asking h) {e e' : Event} (he : e ∈ h.spool) (he' : e' ∈ h.spool)
    (hk : e.kind = .question) (hk' : e'.kind = .question) (hcmd : e.commandId = e'.commandId) :
    e = e' := by
  obtain ⟨-, -, k, hkm, hid, -⟩ := ha.spool e he hk
  have hone := ha.once k hkm
  rw [List.countP_eq_length_filter] at hone
  have h1 : e ∈ h.spool.filter (fun e => e.kind = .question && e.commandId = k.grant.commandId) :=
    List.mem_filter.mpr ⟨he, by simp [hk, hid]⟩
  have h2 : e' ∈ h.spool.filter (fun e => e.kind = .question && e.commandId = k.grant.commandId) :=
    List.mem_filter.mpr ⟨he', by simp [hk', ← hcmd, hid]⟩
  generalize h.spool.filter
    (fun e => e.kind = .question && e.commandId = k.grant.commandId) = l at hone h1 h2
  match l with
  | [] => cases h1
  | [a] => rw [List.mem_singleton.mp h1, List.mem_singleton.mp h2]
  | a :: b :: l =>
    simp only [List.length_cons] at hone
    omega

end Asking

/-! ## Hosts and store agree on revisions -/

/-- A launch carries the revision the store reads of its segment, and the next
one is free until the Host has used it. -/
structure Revisions (w : World) : Prop where
  asking : ∀ id, Asking (w.sources id)
  nonneg : ∀ cmd ∈ w.commands, 0 ≤ cmd.questionRevision
  carried : ∀ cmd ∈ w.commands, ∀ g ∈ w.store.segments, g.active = true → Launches cmd g →
    cmd.questionRevision = w.store.launchedRevision g
  free : ∀ g ∈ w.store.segments, g.active = true →
    w.store.revisionUnused g.taskId (w.store.launchedRevision g + 1) ∨
      ∃ id, ∃ e ∈ (w.sources id).spool, e.kind = .question ∧ e.segmentId = g.id ∧
        w.store.Committed e

/-- The store operation an action asks for staggers revisions. -/
def Staggered (d : DB) (w : World) (a : Action) : Prop := ∀ op ∈ w.op a, d.Staggers w.store op

instance (d : DB) (w : World) (a : Action) : Decidable (Staggered d w a) :=
  inferInstanceAs (Decidable (∀ op ∈ w.op a, _))

section Store
variable {d : DB} {s s' : State} {op : Op}

/-- The commands an operation hands out carry what the store reads of their segments. -/
theorem issued_carries (hr : Rounds s) (hs : Slots d.toPlatform s.toCore) {cmd : LaunchCommand}
    (h : cmd ∈ issued d s op) : ∀ g ∈ (d.step s op).segments, Launches cmd g →
      cmd.questionRevision = (d.step s op).launchedRevision g := by
  intro g hg hl
  cases op with
  | claimReady env hostId epoch slots =>
    simp only [issued] at h
    split at h
    · rename_i s' cmd' hclaim
      obtain rfl := List.mem_singleton.mp h
      have hexec : d.exec s (.claimReady env hostId epoch slots) = .ok s' :=
        committed_ok.mpr ⟨_, hclaim⟩
      rw [step_of_exec hexec] at hg ⊢
      obtain ⟨t, place, hx⟩ := claimReady_iff.mp hclaim
      obtain ⟨h1, -, h2⟩ := hx.carries hr hs
      rw [h1, h2 g hg hl.1]
    · cases h
  | pendingLaunches hostId epoch =>
    simp only [issued] at h
    split at h
    · rename_i s' cmds hpend
      have hexec : d.exec s (.pendingLaunches hostId epoch) = .ok s' :=
        committed_ok.mpr ⟨_, hpend⟩
      rw [step_of_exec hexec] at hg ⊢
      simp only [pendingLaunches, bind_ok_iff, require_ok, expect_ok, exists_const,
        Except.ok.injEq, Prod.mk.injEq] at hpend
      obtain ⟨host, -, -, commands, hmap, rfl, rfl⟩ := hpend
      obtain ⟨k, hk, hcmd⟩ := mem_of_mapM hmap h
      simp only [State.pendingCommand, bind_ok_iff, expect_ok, Except.ok.injEq] at hcmd
      obtain ⟨t, ht, c, -, rfl⟩ := hcmd
      obtain ⟨-, hid⟩ := Table.find?_eq_some.mp ht
      simp only [List.mem_insertionSort, List.mem_filter] at hk
      obtain rfl : g = k := Table.eq_of_key hg hk.1 hl.1
      rw [State.launchedRevision, ← hid]
      rfl
    · cases h
  | _ => cases h

/-- After a claim, the new segment's next revision is the one the claim left free. -/
theorem claim_free {env : Env} {hostId : String} {epoch : Nat} {slots : Int}
    (hr : Rounds s) (hs : Slots d.toPlatform s.toCore)
    (hstag : d.Staggers s (.claimReady env hostId epoch slots))
    (hx : d.exec s (.claimReady env hostId epoch slots) = .ok s') {g' : Segment}
    (hg' : g' ∈ s'.segments) (hnew : ∀ g ∈ s.segments, g.id ≠ g'.id)
    (hi : Inquiry d (.claimReady env hostId epoch slots) s s') :
    s'.revisionUnused g'.taskId (s'.launchedRevision g' + 1) := by
  obtain ⟨hpick, -⟩ := hstag (by rw [hx]; rfl)
  obtain ⟨cmd, hclaim⟩ := committed_ok.mp hx
  obtain ⟨t, place, hc⟩ := claimReady_iff.mp hclaim
  obtain ⟨-, -, hcarry⟩ := hc.carries hr hs
  obtain ⟨host, hfind, -, -, hsel⟩ := hc.host
  have hpicked : s.revisionUnused t.id (s.carriedRevision t + 1) := by
    refine hpick t ?_
    rw [DB.pickedTask, hfind]
    exact hsel
  have hg : g'.id = cmd.segmentId ∧ g'.taskId = t.id := by
    obtain ⟨c₁, c₂, capabilities, h₁, h₂, -, rfl, rfl⟩ := launch_cases hc.launched
    obtain ⟨-, -, -, hsegs⟩ := startAttempt_frame h₁
    obtain ⟨segments, hins, rfl⟩ := startSegment_cases h₂
    rcases (Table.mem_insert hins).mp hg' with hg | rfl
    · exact absurd rfl (hnew g' (hsegs ▸ hg))
    · exact ⟨rfl, rfl⟩
  rw [hg.2, hcarry g' hg' hg.1]
  rintro q' hq' ⟨htask, hrev⟩
  obtain ⟨q, hq, h1, h2⟩ | ⟨e, k, -, -, -, -, ⟨he, -⟩ | he, -⟩ := hi.question_of hq'
  · exact hpicked q hq ⟨h1.trans htask, h2.trans hrev⟩
  · cases he
  · cases he

/-- Until its segment exits or asks, a segment's next revision stays free. -/
theorem effect_free {x : Option String} (he : Effect d op x s s') (hok : (d.exec s op).isOk = true)
    (hs : Slots d.toPlatform s.toCore) (hstag : d.Staggers s op) {g g' : Segment}
    (hg : g ∈ s.segments) (ha : g.active = true) (hg' : g' ∈ s'.segments) (ha' : g'.active = true)
    (hst : g'.static = g.static)
    (hfree : s.revisionUnused g.taskId (s.launchedRevision g + 1)) :
    s'.revisionUnused g'.taskId (s'.launchedRevision g' + 1) ∨
      ∃ e, op.event = some e ∧ e.kind = .question ∧ e.segmentId = g'.id := by
  by_cases hask : ∃ e, op.event = some e ∧ e.kind = .question ∧ e.segmentId = g'.id
  · exact .inr hask
  · left
    rw [he.launchedRevision hs hg ha hg' ha' hst, Segment.static_taskId hst]
    rintro q' hq' ⟨htask, hrev⟩
    obtain ⟨q, hq, h1, h2⟩ | ⟨e, k, hk, hka, hn, -, hsrc, rfl⟩ := he.inquiry.question_of hq'
    · exact hfree q hq ⟨h1.trans htask, h2.trans hrev⟩
    · obtain rfl : k = g := hs.eq_of_active hk hg hka ha (hn.2.1.symm.trans htask)
      rcases hsrc with ⟨hev, hkind⟩ | hrep
      · exact hask ⟨e, hev, hkind, hn.1.trans (Segment.static_id hst).symm⟩
      · exact (hstag hok).2 _ hrep k hk hn.1.symm hka hrev

end Store

section World
variable {d : DB} {limits : ConcurrencyLimits} {w w' : World} {asked : Option Op}

/-- A store operation, seen from the Hosts: what it stores of questions is
numbered next to nobody, unless it is the event `committed` says it is. -/
theorem Revisions.store (h : Revisions w) (hr : d.Reachable limits w.store) {op : Op}
    (hstag : d.Staggers w.store op)
    (hcommitted : ∀ e, op.event = some e → e.kind = .question →
      (d.exec w.store op).isOk = true →
      ∃ id, ∃ e' ∈ (w.sources id).spool, e'.kind = .question ∧ e'.segmentId = e.segmentId ∧
        (d.step w.store op).Committed e') :
    (∀ cmd ∈ w.commands, (∃ g ∈ w.store.segments, Launches cmd g) →
      ∀ g' ∈ (d.step w.store op).segments, g'.active = true →
      Launches cmd g' → cmd.questionRevision = (d.step w.store op).launchedRevision g') ∧
    ∀ g' ∈ (d.step w.store op).segments, g'.active = true →
      (d.step w.store op).revisionUnused g'.taskId
          ((d.step w.store op).launchedRevision g' + 1) ∨
        ∃ id, ∃ e ∈ (w.sources id).spool, e.kind = .question ∧ e.segmentId = g'.id ∧
          (d.step w.store op).Committed e := by
  have hs := slots_of_reachable hr
  cases hx : d.exec w.store op with
  | error err =>
    rw [step_of_error hx]
    exact ⟨fun cmd hc _ => h.carried cmd hc, h.free⟩
  | ok s' =>
    have heff := exec_effect (bound_of_reachable hr) hx
    have hok : (d.exec w.store op).isOk = true := by rw [hx]; rfl
    rw [step_of_exec hx] at hcommitted ⊢
    refine ⟨fun cmd hc ⟨g₀, hg₀, hl₀⟩ g' hg' ha' hl => ?_, fun g' hg' ha' => ?_⟩
    · obtain ⟨g, hg, hst, ha⟩ | ⟨-, hnew⟩ := heff.step.active_of hg' ha'
      · rw [heff.launchedRevision hs hg ha hg' ha' hst]
        exact h.carried cmd hc g hg ha (hl.of_static hst.symm)
      · exact absurd (hl₀.1.trans hl.1.symm) (hnew g₀ hg₀)
    · obtain ⟨g, hg, hst, ha⟩ | ⟨⟨env, hostId, epoch, slots, rfl⟩, hnew⟩ :=
        heff.step.active_of hg' ha'
      · rcases h.free g hg ha with hfree | ⟨id, e, he, hk, hseg, hcom⟩
        · rcases effect_free heff hok hs hstag hg ha hg' ha' hst hfree with hfree |
            ⟨e, hev, hk, hseg⟩
          · exact .inl hfree
          · obtain ⟨id, e', he', hk', hseg', hcom⟩ := hcommitted e hev hk hok
            exact .inr ⟨id, e', he', hk', hseg'.trans hseg, hcom⟩
        · exact .inr ⟨id, e, he, hk, hseg.trans (Segment.static_id hst).symm, heff.log e hcom⟩
      · exact .inl (claim_free (Rounds.reachable hr) hs hstag hx hg' hnew heff.inquiry)

theorem Revisions.acted (h : Revisions w) (hg : Granted w) (hr : d.Reachable limits w.store)
    (ha : Acted d w asked w') (hstag : ∀ op ∈ asked, d.Staggers w.store op) : Revisions w' := by
  cases ha with
  | @control op hasked hop =>
    obtain ⟨hcarried, hfree⟩ := h.store hr (hstag op hasked)
      (fun e he => by rw [hop] at he; cases he)
    have hissued := fun cmd (hc : cmd ∈ issued d w.store op) =>
      issued_carries (Rounds.reachable hr) (slots_of_reachable hr) hc
    refine ⟨h.asking, fun cmd hc => ?_, fun cmd hc g' hg' ha' hl => ?_, hfree⟩
    all_goals rcases List.mem_append.mp hc with hc | hc
    · exact h.nonneg cmd hc
    · obtain ⟨g, hgm, hl⟩ := issued_launches hc
      rw [hissued cmd hc g hgm hl]
      exact launchedRevision_nonneg (Rounds.reachable (reachable_step op hr)) g
    · exact hcarried cmd hc (hg.commands cmd hc) g' hg' ha' hl
    · exact hissued cmd hc g' hg' hl
  | @commit env hostId epoch e s ack hasked he hs =>
    have hcom : s.Committed e := (commitHostEvent_effect (bound_of_reachable hr) hs).2
    obtain ⟨hcarried, hfree⟩ := h.store hr (hstag _ hasked) (fun e' hev hk hok => by
      obtain rfl := Option.some.inj hev
      exact ⟨hostId, e, he, hk, rfl, by rw [step_commit hs]; exact hcom⟩)
    rw [step_commit hs] at hcarried hfree
    refine ⟨setSource_forall (P := fun _ h => Asking h) h.asking ?_, h.nonneg,
      fun cmd hc => hcarried cmd hc (hg.commands cmd hc), fun g' hg' ha' => ?_⟩
    · exact (h.asking hostId).of_workers rfl (fun k hk => ⟨k, hk, rfl⟩)
        fun k hk => ⟨k, hk, rfl, .refl _, (h.asking hostId).recovery k hk⟩
    · refine (hfree g' hg' ha').imp_right fun ⟨id, e', he', hx⟩ => ⟨id, e', ?_, hx⟩
      by_cases hid : id = hostId
      · subst hid; rw [setSource_self]; exact he'
      · rw [setSource_of_ne hid]; exact he'
  | @source id f hf hl =>
    refine ⟨setSource_forall (P := fun _ h => Asking h) h.asking ((h.asking id).local hl),
      h.nonneg, h.carried, fun g' hg' ha' => ?_⟩
    refine (h.free g' hg' ha').imp_right fun ⟨id', e, he, hx⟩ => ⟨id', e, ?_, hx⟩
    by_cases hid : id' = id
    · subst hid; rw [setSource_self]; exact hl.spool_keeps he
    · rw [setSource_of_ne hid]; exact he
  | idle => exact h

theorem revisions_of_run {acts : List Action}
    (h : AllSteps (act d) (Staggered d) (World.fresh limits) acts) :
    Revisions (run d (World.fresh limits) acts) := by
  refine (run_invariant_when (I := fun w => d.Reachable limits w.store ∧ Granted w ∧ Revisions w)
    ⟨reachable_fresh d limits, granted_fresh limits, ?_⟩ ?_ h).2.2
  · refine ⟨fun _ => ⟨?_, ?_, ?_, ?_⟩, ?_, ?_, ?_⟩
    all_goals intro _ h
    · exact absurd h List.not_mem_nil
    · exact absurd h (Table.not_mem_empty _)
    · exact absurd h (Table.not_mem_empty _)
    · exact absurd h (Table.not_mem_empty _)
    · exact absurd h List.not_mem_nil
    · exact absurd h List.not_mem_nil
    · exact absurd h (Table.not_mem_empty _)
  · intro w a ⟨hr, hg, hrev⟩ hstag
    have ha := acted d w a
    exact ⟨ha.store hr, hg.acted hr ha, hrev.acted hg hr ha hstag⟩

end World

/-! ## Questions of a Host are accepted -/

/-- Nothing but its revision is against a question the Host sends next. -/
structure Passes (d : DB) (env : Env) (s : State) (e : Event) : Prop where
  admissible : Admissible d env s e
  appended : ∃ s₁, d.appendEvent s e = .ok s₁
  session : e.sessionId ≠ ""
  unused : s.questions.Unused Question.questionId e.questionId
  undecided : ∀ g ∈ s.segments, g.id = e.segmentId → g.active = true → g.outcome = .none

/-- No question a Host has yet to send has a revision that is stored for its task,
and each is accepted when it is sent. -/
def World.QuestionsAcceptable (d : DB) (w : World) : Prop :=
  ∀ id, ∀ e ∈ (w.sources id).spool, e.kind = .question → ¬ w.store.Committed e →
    (∀ g ∈ w.store.segments, g.id = e.segmentId → g.active = true →
      w.store.revisionUnused e.taskId e.questionRevision) ∧
    ∀ env epoch, Passes d env w.store { e with executionEpoch := epoch } →
      ∃ r, d.commitHostEvent env w.store { e with executionEpoch := epoch } = .ok r

theorem applyQuestion_accepts {s : State} {e : Event} (hid : e.questionId ≠ "")
    (hrev : 1 ≤ e.questionRevision) (hkind : e.sessionKind ≠ "") (hses : e.sessionId ≠ "")
    {g : Segment} (hg : s.segments.find? e.segmentId = some g)
    (hfree : g.active = true → s.revisionUnused e.taskId e.questionRevision ∧
      s.questions.Unused Question.questionId e.questionId ∧ g.outcome = .none) :
    ∃ s', applyQuestion s e = .ok s' := by
  simp only [applyQuestion, require_pos (⟨hid, hrev, hkind, hses⟩ : _ ∧ _ ∧ _ ∧ _), ok_bind,
    State.segment?, hg, expect_some]
  split
  · exact ⟨_, rfl⟩
  · rename_i hact
    obtain ⟨h1, h2, h3⟩ := hfree (Segment.active_iff.mpr hact)
    obtain ⟨questions, hi, -⟩ := Table.insert?_isSome (t := s.questions) (a := openQuestion e) h2
    simp only [require_pos h1, hi, expect_some, ok_bind, require_pos h3]
    exact ⟨_, rfl⟩

/-- Along every run whose claims and reports leave the Hosts their next revisions,
the questions of the Hosts are acceptable. -/
theorem question_revisions_acceptable (d : DB) (limits : ConcurrencyLimits) (acts : List Action)
    (h : AllSteps (act d) (Staggered d) (World.fresh limits) acts) :
    (run d (World.fresh limits) acts).QuestionsAcceptable d := by
  have hrev := revisions_of_run h
  have hr : Reachable d limits (run d (World.fresh limits) acts) := ⟨acts, rfl⟩
  generalize run d (World.fresh limits) acts = w at hrev hr
  have hg := granted_of_reachable hr
  have hrounds := Rounds.reachable (store_reachable hr)
  intro id e he hk hnew
  obtain ⟨hqid, hses, k, hkm, h1, h2, h3, h4⟩ := (hrev.asking id).spool e he hk
  obtain ⟨cmd, hc, -, hgrant⟩ := hg.workers id k hkm
  obtain ⟨g, hgm, hl⟩ := hg.commands cmd hc
  have hseg : g.id = e.segmentId := by rw [hl.1, h2, hgrant]
  have htask : g.taskId = e.taskId := by rw [hl.2.2.1, h3, hgrant]
  have hnumber : g.active = true → e.questionRevision = w.store.launchedRevision g + 1 := by
    intro ha
    rw [h4, ← hrev.carried cmd hc g hgm ha hl, hgrant]
  have hunused : g.active = true → w.store.revisionUnused e.taskId e.questionRevision := by
    intro ha
    rw [hnumber ha, ← htask]
    rcases hrev.free g hgm ha with hfree | ⟨id', e', he', hk', hseg', hcom⟩
    · exact hfree
    · -- the one question of the segment would be committed already
      obtain ⟨-, -, k', hkm', h1', h2', -⟩ := (hrev.asking id').spool e' he' hk'
      obtain ⟨rfl, hcmd⟩ := hg.grant_unique hkm hkm' (by rw [← h2, ← h2', hseg', hseg])
      obtain rfl := (hrev.asking id).eq_of_command he he' hk hk' (by rw [h1, h1', hcmd])
      exact absurd hcom hnew
  refine ⟨fun g' hg' hid' ha' => ?_, fun env epoch hp => ?_⟩
  · obtain rfl : g' = g := Table.eq_of_key hg' hgm (hid'.trans hseg.symm)
    exact hunused ha'
  · refine (commitHostEvent_next_iff hp.admissible.next).mpr ⟨hp.admissible, ?_⟩
    obtain ⟨s₁, h₁⟩ := hp.appended
    obtain ⟨events, order, usage, rfl⟩ := appendEvent_frame h₁
    refine ⟨_, h₁, ?_⟩
    rw [DB.applyEvent, show ({ e with executionEpoch := epoch } : Event).kind = .question from hk]
    have hone : 1 ≤ e.questionRevision := by
      have := hrev.nonneg cmd hc
      rw [h4, hgrant]
      change 1 ≤ cmd.questionRevision + 1
      omega
    refine applyQuestion_accepts (e := { e with executionEpoch := epoch }) hqid hone hses hp.session
      (Table.find?_eq_some.mpr ⟨hgm, hseg⟩) fun ha => ⟨hunused ha, hp.unused, ?_⟩
    exact hp.undecided g hgm hseg ha

def toyAnswer (questionId : String) (questionRevision : Int) : Op :=
  .answerQuestion ⟨"a", 1, questionId, questionRevision, "yes"⟩

/-- The first question of `a` is answered and a second segment launched. -/
def answeredActs : List Action :=
  toyExecuted toyDB (toyLaunched [toyTask "a" 3 []]) 11 6 (toyTerminal false "question") ++
    [Action.control (toyAnswer "host:5:question" 1), .control (toyClaim 12)]

/-- The second segment asks again; its question is not sent yet. -/
def askingActs : List Action :=
  toyExecuted toyDB answeredActs 12 4 (toyTerminal false "question") ++
    [Action.append "host" "command-12"]

/-- The second question of an attempt has the next revision. -/
theorem second_question_acceptable :
    (∃ e ∈ ((run toyDB (World.fresh {}) askingActs).sources "host").spool,
      e.kind = .question ∧ e.questionRevision = 2 ∧
        ¬ (run toyDB (World.fresh {}) askingActs).store.Committed e) ∧
    (run toyDB (World.fresh {}) askingActs).QuestionsAcceptable toyDB := by
  have hfacts : (∃ e ∈ ((run toyDB (World.fresh {}) askingActs).sources "host").spool,
        e.kind = .question ∧ e.questionRevision = 2 ∧
          ¬ (run toyDB (World.fresh {}) askingActs).store.Committed e) ∧
      AllSteps (act toyDB) (Staggered toyDB) (World.fresh {}) askingActs := by decide +kernel
  exact ⟨hfacts.1, question_revisions_acceptable toyDB {} askingActs hfacts.2⟩

/-- The second segment fails instead, and the third is that of a retry; it asks,
and its question is not sent yet. -/
def retriedActs : List Action :=
  let failed := toyExecuted toyDB answeredActs 12 6 (toyTerminal true "result")
  let retry : RetrySpec := {
    taskId := "a"
    workRevision := 1
    eventId := "host:11"
    eventRevision := 11
    eventHash := toyDigest "failed:segment-12"
    actionSlot := toyDB.actionSlot "host" "host:11"
    segmentId := "segment-12"
    nextAttemptNo := 2
    useNextFallback := false
    commandId := "retry" }
  toyExecuted toyDB (failed ++ [Action.control (.queueRetry retry), .control (toyClaim 13)]) 13 4
    (toyTerminal false "question") ++ [Action.append "host" "command-13"]

/-- The question of the second attempt has the revision of the first question. -/
theorem retried_question_refused :
    ¬ (run toyDB (World.fresh {}) retriedActs).QuestionsAcceptable toyDB ∧
      (((run toyDB (World.fresh {}) retriedActs).sources "host").nextEvent.any fun e =>
        e.kind = .question && (toyDB.commitHostEvent (toyEnv 10)
          (run toyDB (World.fresh {}) retriedActs).store e).isOk = false) = true := by
  have hfacts : (∃ e ∈ ((run toyDB (World.fresh {}) retriedActs).sources "host").spool,
        e.kind = .question ∧ ¬ (run toyDB (World.fresh {}) retriedActs).store.Committed e ∧
          ∃ g ∈ (run toyDB (World.fresh {}) retriedActs).store.segments.rows,
            g.id = e.segmentId ∧ g.active = true ∧
              ¬ (run toyDB (World.fresh {}) retriedActs).store.revisionUnused e.taskId
                e.questionRevision) ∧
      (((run toyDB (World.fresh {}) retriedActs).sources "host").nextEvent.any fun e =>
        e.kind = .question && (toyDB.commitHostEvent (toyEnv 10)
          (run toyDB (World.fresh {}) retriedActs).store e).isOk = false) = true := by
    decide +kernel
  obtain ⟨⟨e, he, hk, hnew, g, hg, hid, ha, hused⟩, hnext⟩ := hfacts
  refine ⟨fun h => ?_, hnext⟩
  exact hused ((h "host" e he hk hnew).1 g hg hid ha)

end Orchestrator.Host
