import Orchestrator.Host.Cursors

/-!
# Appends beside a publication

`PublishAll` reads the spools at different times. What it has read has no gap as
long as no event reaches a spool that is still to be read after an earlier event
went to a spool that has been read, or is not on the list.
-/
namespace Orchestrator.Host
open Library Store

/-- `PublishAll` has still to read the spool of this directory. -/
def Phase.ToRead : Phase → Dir → Prop
  | .listing attempts entries, dir => dir.1 ∈ attempts ∨ dir ∈ entries
  | .reading entries, dir => dir ∈ entries
  | _, _ => False

instance : (phase : Phase) → (dir : Dir) → Decidable (phase.ToRead dir)
  | .listing attempts entries, dir => inferInstanceAs (Decidable (dir.1 ∈ attempts ∨ dir ∈ entries))
  | .reading entries, dir => inferInstanceAs (Decidable (dir ∈ entries))
  | .returned _, _ | .sending _, _ | .awaiting _ _, _ | .acking _, _ | .archiving .., _
  | .writing, _ => isFalse id

namespace Publication

/-- The event is among those `PublishAll` has read, or in a spool it will read. -/
def Seen (s : Publication) (e : Event) : Prop :=
  (∃ item ∈ s.call.pending, item.event = e) ∨
    ∃ spool ∈ s.spools, s.phase.ToRead spool.dir ∧ e ∈ spool.events ∧ spool.acked < e.sequence

/-- This call will not read some event that is still to be sent. -/
def Missed (s : Publication) : Prop :=
  ∃ e ∈ s.appended, s.recovered < e.sequence ∧ ¬ s.Seen e

/-- No event is appended to a spool that is still to be read once one was missed. -/
def InTurn (s : Publication) : Action → Prop
  | .append grant _ => s.phase.ToRead (grant.attemptId, grant.segmentId) → ¬ s.Missed
  | _ => True

instance (s : Publication) (e : Event) : Decidable (s.Seen e) :=
  inferInstanceAs (Decidable ((∃ item ∈ s.call.pending, item.event = e) ∨
    ∃ spool ∈ s.spools.rows, s.phase.ToRead spool.dir ∧ e ∈ spool.events.rows ∧
      spool.acked < e.sequence))

instance (s : Publication) : Decidable s.Missed :=
  inferInstanceAs (Decidable (∃ e ∈ s.appended, s.recovered < e.sequence ∧ ¬ s.Seen e))

instance (s : Publication) : (a : Action) → Decidable (s.InTurn a)
  | .append grant _ => inferInstanceAs
      (Decidable (s.phase.ToRead (grant.attemptId, grant.segmentId) → ¬ s.Missed))
  | .openSpool .. | .publishAll _ | .advance | .reply _ | .ackThrough _ | .interrupt | .crash
  | .commit .. | .control _ => isTrue trivial

/-! ## The recovered cursor -/

section Recovered
variable {s : Publication}

theorem published_le_recovered (s : Publication) : s.published ≤ s.recovered :=
  base_le_foldr_max _ _

theorem acked_le_recovered {spool : Spool} (hs : spool ∈ s.spools) : spool.acked ≤ s.recovered :=
  le_foldr_max (List.mem_map_of_mem hs)

theorem recovered_openSpool {spools : Table Spool.dir} {a g : String} (h : 0 ≤ s.published)
    (hi : s.spools.insert? { attemptId := a, segmentId := g } = some spools) :
    ({ s with spools := spools } : Publication).recovered = s.recovered := by
  simp only [recovered, Table.rows_insert hi, List.map_append, List.map_cons, List.map_nil,
    List.foldr_append, List.foldr_cons, List.foldr_nil, max_eq_right h]

theorem acked_append {spools : Table Spool.dir} {spool : Spool} {events : Table Event.sequence}
    (hs : spool ∈ spools) : (spools.put { spool with events := events }).rows.map Spool.acked =
      spools.rows.map Spool.acked := by
  rw [Table.put, List.map_map]
  apply List.map_congr_left
  intro other ho
  simp only [Function.comp_apply]
  split
  · rename_i hk
    rw [Table.eq_of_key hs ho hk.symm]
  · rfl

end Recovered

/-! ## What a call reads -/

/-- Up to some sequence the call sees everything that is still to be sent, and
nothing from there on. -/
def Frontier (s : Publication) : Prop :=
  ∃ m : Int, m ≤ s.appended.length + 1 ∧ (∀ e, s.Seen e → e.sequence < m) ∧
    ∀ e ∈ s.appended, s.recovered < e.sequence → e.sequence < m → s.Seen e

/-- The items continue `last` without a gap, and complete what was read. -/
def Left (pending items : List Pending) (last : Int) : Prop :=
  (∃ m, (∀ n, last < n → n < m → ∃ item ∈ items, item.event.sequence = n) ∧
    ∀ item ∈ items, item.event.sequence < m) ∧
  items.Pairwise (fun a b => a.event.sequence ≤ b.event.sequence) ∧
  ∀ item ∈ pending, item ∈ items ∨ item.event.sequence ≤ last

/-- The latest call started from the recovered cursor. -/
def Begun (s : Publication) : Prop := ∃ c rest, s.sends = c :: rest ∧ c.cursor = s.recovered

def Gapless (s : Publication) : Prop :=
  match s.phase with
  | .returned error => error ≠ some .eventSequenceGap
  | .listing _ _ => s.call.pending = [] ∧
      (∀ spool ∈ s.spools, s.phase.ToRead spool.dir ∨ spool.acked = 0) ∧ s.Frontier
  | .reading _ => (s.published ≤ s.call.last ∧ s.call.last ≤ s.recovered) ∧
      (∀ spool ∈ s.spools, s.phase.ToRead spool.dir ∨ spool.acked ≤ s.call.last) ∧ s.Frontier
  | .sending items => s.Begun ∧ Left s.call.pending items s.call.last
  | .awaiting item items => s.Begun ∧ Left s.call.pending items item.event.sequence
  | .acking _ | .archiving .. | .writing => ∀ item ∈ s.call.pending,
      item.event.sequence ≤ s.call.last

section Reads
variable {d : DB} {limits : ConcurrencyLimits} {host : String} {s : Publication}

/-- An event that is still to be sent lies in its spool. -/
theorem Sound.unsent (h : Sound d limits host s) {e : Event} (he : e ∈ s.appended)
    (hr : s.recovered < e.sequence) : ∃ spool ∈ s.spools, e ∈ spool.events ∧
      spool.acked < e.sequence := by
  obtain ⟨spool, hs, hh⟩ := h.filed.kept e he
  have hacked := acked_le_recovered hs
  cases hh with
  | inl hlive => exact ⟨spool, hs, hlive, by omega⟩
  | inr harchive =>
    have := h.filed.archived spool hs e harchive
    omega

/-- What is seen has been appended. -/
theorem Sound.seen (h : Sound d limits host s) {e : Event} (he : s.Seen e) : e ∈ s.appended := by
  rcases he with ⟨item, hi, rfl⟩ | ⟨spool, hs, -, he, -⟩
  · exact h.pending item hi
  · exact h.filed.held spool hs e (.inl he)

/-- A call that misses nothing sees everything. -/
theorem Sound.frontier (h : Sound d limits host s) (hm : ¬ s.Missed) : s.Frontier := by
  refine ⟨s.appended.length + 1, le_refl _, fun e he => ?_, fun e he hr _ => ?_⟩
  · have := (h.filed.bounds (h.seen he)).2
    omega
  · by_contra hs
    exact hm ⟨e, he, hr, hs⟩

/-- The items of a read without a gap are sent without a gap. -/
theorem Left.head {pending items : List Pending} {item : Pending} {last : Int}
    (h : Left pending (item :: items) last) (hlt : last < item.event.sequence) :
    item.event.sequence = last + 1 ∧ Left pending items item.event.sequence := by
  obtain ⟨⟨m, hall, hbelow⟩, hsorted, hrest⟩ := h
  have hle := (List.pairwise_cons.mp hsorted).1
  have hnext : item.event.sequence = last + 1 := by
    have hm := hbelow item List.mem_cons_self
    obtain ⟨i, hi, hseq⟩ := hall (last + 1) (by omega) (by omega)
    rcases List.mem_cons.mp hi with rfl | hi
    · exact hseq
    · have := hle i hi
      omega
  refine ⟨hnext, ⟨m, fun n hn hnm => ?_, fun i hi => hbelow i (List.mem_cons_of_mem _ hi)⟩,
    (List.pairwise_cons.mp hsorted).2, fun i hi => ?_⟩
  · obtain ⟨i, hi, hseq⟩ := hall n (by omega) hnm
    rcases List.mem_cons.mp hi with rfl | hi
    · omega
    · exact ⟨i, hi, hseq⟩
  · rcases hrest i hi with hi | hi
    · rcases List.mem_cons.mp hi with rfl | hi
      · exact .inr (le_refl _)
      · exact .inl hi
    · exact .inr (by omega)

theorem Left.skip {pending items : List Pending} {item : Pending} {last : Int}
    (h : Left pending (item :: items) last) (hle : item.event.sequence ≤ last) :
    Left pending items last := by
  obtain ⟨⟨m, hall, hbelow⟩, hsorted, hrest⟩ := h
  refine ⟨⟨m, fun n hn hnm => ?_, fun i hi => hbelow i (List.mem_cons_of_mem _ hi)⟩,
    (List.pairwise_cons.mp hsorted).2, fun i hi => ?_⟩
  · obtain ⟨i, hi, hseq⟩ := hall n hn hnm
    rcases List.mem_cons.mp hi with rfl | hi
    · omega
    · exact ⟨i, hi, hseq⟩
  · rcases hrest i hi with hi | hi
    · rcases List.mem_cons.mp hi with rfl | hi
      · exact .inr hle
      · exact .inl hi
    · exact .inr hi

theorem Frontier.congr {s' : Publication} (h : s.Frontier) (happ : s'.appended = s.appended)
    (hrec : s'.recovered = s.recovered) (hseen : ∀ e, s'.Seen e ↔ s.Seen e) : s'.Frontier := by
  obtain ⟨m, hle, hbelow, hall⟩ := h
  refine ⟨m, happ ▸ hle, fun e he => hbelow e ((hseen e).mp he), fun e he hr hm => ?_⟩
  exact (hseen e).mpr (hall e (happ ▸ he) (hrec ▸ hr) hm)

/-- At the end of the reads, what was read is sent without a gap. -/
theorem Frontier.left (h : Sound d limits host s) (hf : s.Frontier)
    (hdone : ∀ dir, ¬ s.phase.ToRead dir) (hlast : s.recovered ≤ s.call.last) :
    Left s.call.pending (sorted s.call.pending) s.call.last := by
  obtain ⟨m, hle, hbelow, hall⟩ := hf
  have hmem : ∀ item, item ∈ sorted s.call.pending ↔ item ∈ s.call.pending := fun item =>
    List.mem_insertionSort _
  refine ⟨⟨m, fun n hn hnm => ?_, fun item hi => ?_⟩, ?_, fun item hi => .inl ((hmem item).mpr hi)⟩
  · have hpos := h.last
    obtain ⟨e, he, hseq⟩ := h.filed.exists_sequence (n := n) (by omega) (by omega)
    rcases hall e he (by omega) (by omega) with ⟨item, hi, rfl⟩ | ⟨spool, -, hread, -⟩
    · exact ⟨item, (hmem item).mpr hi, hseq⟩
    · exact absurd hread (hdone _)
  · exact hbelow _ (.inl ⟨item, (hmem item).mp hi, rfl⟩)
  · have hsort := List.pairwise_insertionSort
      (fun a b : Pending => a.event.sequence ≤ b.event.sequence) s.call.pending
    exact hsort

end Reads

/-! ## Steps -/

section Steps
variable {d : DB} {limits : ConcurrencyLimits} {host : String} {s : Publication}

theorem gapless_fail {error : PublishError} (h : error ≠ .eventSequenceGap) :
    (s.fail error).Gapless := fun heq => h (Option.some.inj heq)

theorem gapless_returned (hp : s.phase = .returned none) : s.Gapless := by
  unfold Gapless
  rw [hp]
  simp

theorem Gapless.openSpool (hs : Sound d limits host s) (h : s.Gapless) (a g : String) :
    (s.openSpool a g).Gapless := by
  unfold Publication.openSpool
  split
  · rename_i spools hi
    have hrec := recovered_openSpool hs.published.1 hi
    have hseen : ∀ e, ({ s with spools := spools } : Publication).Seen e ↔ s.Seen e := by
      intro e
      refine or_congr Iff.rfl ⟨?_, ?_⟩
      · rintro ⟨spool, hsp, hr, he, hlt⟩
        rcases (Table.mem_insert hi).mp hsp with hsp | rfl
        · exact ⟨spool, hsp, hr, he, hlt⟩
        · exact absurd he (Table.not_mem_empty e)
      · rintro ⟨spool, hsp, hrest⟩
        exact ⟨spool, (Table.mem_insert hi).mpr (.inl hsp), hrest⟩
    unfold Gapless at h ⊢
    dsimp only
    split at h
    · exact h
    · obtain ⟨hp, hspools, hf⟩ := h
      refine ⟨hp, fun spool hsp => ?_, hf.congr rfl hrec hseen⟩
      rcases (Table.mem_insert hi).mp hsp with hsp | rfl
      · exact hspools spool hsp
      · exact .inr rfl
    · obtain ⟨⟨hpub, hle⟩, hspools, hf⟩ := h
      refine ⟨⟨hpub, hrec ▸ hle⟩, fun spool hsp => ?_, hf.congr rfl hrec hseen⟩
      rcases (Table.mem_insert hi).mp hsp with hsp | rfl
      · exact hspools spool hsp
      · exact .inr hs.last
    · obtain ⟨⟨c, rest, hc, hcur⟩, hleft⟩ := h
      exact ⟨⟨c, rest, hc, hcur.trans hrec.symm⟩, hleft⟩
    · obtain ⟨⟨c, rest, hc, hcur⟩, hleft⟩ := h
      exact ⟨⟨c, rest, hc, hcur.trans hrec.symm⟩, hleft⟩
    · exact h
    · exact h
    · exact h
  · exact h

section Append
variable {spool : Spool} {events : Table Event.sequence} {e : Event}

/-- What an append leaves. -/
def filedIn (s : Publication) (spool : Spool) (events : Table Event.sequence) (e : Event) :
    Publication :=
  { s with
    spools := s.spools.put { spool with events := events }
    sequence := some ((s.appended.length : Int) + 1)
    appended := s.appended ++ [e] }

theorem recovered_filedIn (events : Table Event.sequence) (hs : spool ∈ s.spools) :
    (s.filedIn spool events e).recovered = s.recovered := by
  simp only [recovered, filedIn, acked_append hs]

theorem seen_filedIn (hs : spool ∈ s.spools) (hi : spool.events.insert? e = some events)
    {f : Event} (h : s.Seen f) : (s.filedIn spool events e).Seen f := by
  refine h.imp_right ?_
  rintro ⟨other, ho, hr, hf, hlt⟩
  obtain ⟨other', ho', hdir, hevents, -, hacked⟩ := Grown.append hs hi other ho
  exact ⟨other', ho', hdir ▸ hr, hevents f hf, hacked ▸ hlt⟩

/-- An event in a spool that is not read any more is not seen. -/
theorem seen_of_filedIn (hr : ¬ s.phase.ToRead spool.dir) {f : Event}
    (h : (s.filedIn spool events e).Seen f) : s.Seen f := by
  refine h.imp_right ?_
  rintro ⟨other, ho, hor, hf⟩
  rcases Table.mem_put.mp ho with ⟨ho, -⟩ | ⟨rfl, -⟩
  · exact ⟨other, ho, hor, hf⟩
  · exact absurd hor hr

theorem frontier_filedIn (hsound : Sound d limits host s)
    (hsound' : Sound d limits host (s.filedIn spool events e)) (hs : spool ∈ s.spools)
    (hi : spool.events.insert? e = some events) (hseq : e.sequence = s.appended.length + 1)
    (hturn : s.phase.ToRead spool.dir → ¬ s.Missed) (h : s.Frontier) :
    (s.filedIn spool events e).Frontier := by
  have hrec := recovered_filedIn events (e := e) hs
  by_cases hr : s.phase.ToRead spool.dir
  · -- nothing was missed, and the call reads the new event as well
    refine hsound'.frontier ?_
    rintro ⟨f, hf, hlt, hunseen⟩
    rcases List.mem_append.mp hf with hf | hf
    · rw [hrec] at hlt
      exact hturn hr ⟨f, hf, hlt, fun hseen => hunseen (seen_filedIn hs hi hseen)⟩
    · obtain rfl := List.mem_singleton.mp hf
      have hacked := (hsound.acked spool hs).trans hsound.durable_le
      refine hunseen (.inr ⟨_, Table.mem_put.mpr (.inr ⟨rfl, spool, hs, rfl⟩), hr,
        (Table.mem_insert hi).mpr (.inr rfl), ?_⟩)
      dsimp only
      omega
  · obtain ⟨m, hle, hbelow, hall⟩ := h
    have hlen : (s.filedIn spool events e).appended.length = s.appended.length + 1 :=
      List.length_append
    refine ⟨m, by rw [hlen]; omega, fun f hf => hbelow f (seen_of_filedIn hr hf),
      fun f hf hlt hm => ?_⟩
    rcases List.mem_append.mp hf with hf | hf
    · exact seen_filedIn hs hi (hall f hf (hrec ▸ hlt) hm)
    · obtain rfl := List.mem_singleton.mp hf
      omega

theorem Gapless.filedIn (hsound : Sound d limits host s)
    (hsound' : Sound d limits host (s.filedIn spool events e)) (hs : spool ∈ s.spools)
    (hi : spool.events.insert? e = some events) (hseq : e.sequence = s.appended.length + 1)
    (hturn : s.phase.ToRead spool.dir → ¬ s.Missed) (h : s.Gapless) :
    (s.filedIn spool events e).Gapless := by
  have hrec := recovered_filedIn events (e := e) hs
  have hfrontier := frontier_filedIn hsound hsound' hs hi hseq hturn
  have hbegun : s.Begun → (s.filedIn spool events e).Begun := by
    rintro ⟨c, rest, hc, hcur⟩
    exact ⟨c, rest, hc, hcur.trans hrec.symm⟩
  unfold Gapless at h ⊢
  dsimp only [Publication.filedIn] at hfrontier hbegun hrec ⊢
  split at h
  · exact h
  · obtain ⟨hp, hspools, hf⟩ := h
    refine ⟨hp, fun other ho => ?_, hfrontier hf⟩
    rcases Table.mem_put.mp ho with ⟨ho, -⟩ | ⟨rfl, -⟩
    · exact hspools other ho
    · exact hspools spool hs
  · obtain ⟨⟨hpub, hle⟩, hspools, hf⟩ := h
    refine ⟨⟨hpub, hrec ▸ hle⟩, fun other ho => ?_, hfrontier hf⟩
    rcases Table.mem_put.mp ho with ⟨ho, -⟩ | ⟨rfl, -⟩
    · exact hspools other ho
    · exact hspools spool hs
  · exact ⟨hbegun h.1, h.2⟩
  · exact ⟨hbegun h.1, h.2⟩
  · exact h
  · exact h
  · exact h

end Append

theorem Gapless.append (hs : Sound d limits host s) (h : s.Gapless) {grant : LaunchCommand}
    {draft : Draft} (hturn : s.InTurn (.append grant draft)) :
    (s.appendStructuredEvent host grant draft).Gapless := by
  have hsound := hs.append grant draft
  obtain heq | heq | ⟨spool, hsp, events, e, hi, hdir, hseq, -, heq⟩ := append_cases hs grant draft
  · rw [heq]; exact h
  · rw [heq]; exact h
  · rw [heq] at hsound ⊢
    exact h.filedIn hs hsound hsp hi hseq fun hr => hturn (hdir ▸ hr)

theorem Gapless.publishAll (hs : Sound d limits host s) (h : s.Gapless) (epoch : Nat) :
    (s.publishAll epoch).Gapless := by
  have hsound := hs.publishAll epoch
  unfold Publication.publishAll at hsound ⊢
  split
  · rename_i hp
    rw [hp] at hsound
    have hlisted : ∀ spool ∈ s.spools, spool.dir.1 ∈ s.attempts := fun spool hsp => by
      rw [attempts, List.mem_insertionSort, List.mem_dedup]
      exact List.mem_map_of_mem hsp
    refine ⟨rfl, fun spool hsp => .inl (.inl (hlisted spool hsp)), hsound.frontier ?_⟩
    rintro ⟨e, he, hlt, hunseen⟩
    obtain ⟨spool, hsp, hlive, hacked⟩ := hsound.unsent he hlt
    exact hunseen (.inr ⟨spool, hsp, .inl (hlisted spool hsp), hlive, hacked⟩)
  · exact h

/-- The events seen depend on the spools to read. -/
theorem seen_congr {s' : Publication} (hp : s'.call.pending = s.call.pending)
    (hs : s'.spools = s.spools)
    (hr : ∀ spool ∈ s.spools, s'.phase.ToRead spool.dir ↔ s.phase.ToRead spool.dir) (e : Event) :
    s'.Seen e ↔ s.Seen e := by
  unfold Seen
  rw [hp, hs]
  refine or_congr Iff.rfl (exists_congr fun spool => ?_)
  constructor
  · rintro ⟨hsp, hread, he⟩
    exact ⟨hsp, (hr spool hsp).mp hread, he⟩
  · rintro ⟨hsp, hread, he⟩
    exact ⟨hsp, (hr spool hsp).mpr hread, he⟩

theorem Gapless.list (h : s.Gapless) {attempt : String} {attempts : List String}
    {entries : List Dir} (hp : s.phase = .listing (attempt :: attempts) entries) :
    ({ s with phase := .listing attempts (entries ++ s.segments attempt) } :
      Publication).Gapless := by
  have hread : ∀ spool ∈ s.spools,
      (Phase.listing attempts (entries ++ s.segments attempt)).ToRead spool.dir ↔
        s.phase.ToRead spool.dir := by
    intro spool hsp
    have hseg : spool.dir ∈ s.segments attempt ↔ spool.dir.1 = attempt := by
      rw [segments, List.mem_insertionSort, List.mem_map]
      constructor
      · rintro ⟨other, ho, hdir⟩
        rw [← hdir]
        exact of_decide_eq_true (List.mem_filter.mp ho).2
      · intro hattempt
        exact ⟨spool, List.mem_filter.mpr ⟨hsp, decide_eq_true hattempt⟩, rfl⟩
    rw [hp]
    simp only [Phase.ToRead, List.mem_append, hseg, List.mem_cons]
    tauto
  unfold Gapless at h
  rw [hp] at h
  obtain ⟨hpend, hspools, hf⟩ := h
  refine ⟨hpend, fun spool hsp => ?_, hf.congr rfl rfl (seen_congr rfl rfl hread)⟩
  exact (hspools spool hsp).imp_left fun hr => (hread spool hsp).mpr (hp ▸ hr)

theorem Gapless.listed (h : s.Gapless) {entries : List Dir} (hp : s.phase = .listing [] entries)
    (hpub : 0 ≤ s.published) :
    ({ s with
      phase := .reading entries
      call := { s.call with originalCursor := s.published, last := s.published } } :
      Publication).Gapless := by
  have hread : ∀ spool ∈ s.spools,
      (Phase.reading entries).ToRead spool.dir ↔ s.phase.ToRead spool.dir := by
    intro spool _
    rw [hp]
    simp [Phase.ToRead]
  unfold Gapless at h
  rw [hp] at h
  obtain ⟨hpend, hspools, hf⟩ := h
  refine ⟨⟨le_refl _, published_le_recovered s⟩, fun spool hsp => ?_,
    hf.congr rfl rfl (seen_congr rfl rfl hread)⟩
  rcases hspools spool hsp with hr | hz
  · exact .inl ((hread spool hsp).mpr (hp ▸ hr))
  · exact .inr (hz ▸ hpub)

theorem Gapless.readSpool (h : s.Gapless) {dir : Dir} {entries : List Dir}
    (hp : s.phase = .reading (dir :: entries)) : (s.readSpool host dir entries).Gapless := by
  unfold Publication.readSpool
  cases hf : s.spools.find? dir with
  | none => exact gapless_fail (by simp)
  | some spool =>
    obtain ⟨hsp, hdir⟩ := Table.find?_eq_some.mp hf
    dsimp only
    split
    · exact gapless_fail (by simp)
    · rename_i events hread
      split
      · unfold Gapless at h
        rw [hp] at h
        obtain ⟨⟨hpub, hle⟩, hspools, hfront⟩ := h
        refine ⟨⟨hpub.trans (le_max_left _ _), max_le hle (acked_le_recovered hsp)⟩,
          fun other ho => ?_, hfront.congr rfl rfl fun e => ?_⟩
        · rcases hspools other ho with hr | hacked
          · rcases List.mem_cons.mp hr with heq | hr
            · obtain rfl := Table.eq_of_key ho hsp (heq.trans hdir.symm)
              exact .inr (le_max_right _ _)
            · exact .inl hr
          · exact .inr (hacked.trans (le_max_left _ _))
        · -- what was to be read in this spool is among the items now
          have hnew : ∀ item, item ∈ (events.filter (fun e => spool.acked < e.sequence)).map
              (fun e => (⟨dir, e, spool.acked⟩ : Pending)) ↔
              ∃ e ∈ spool.events, spool.acked < e.sequence ∧ ⟨dir, e, spool.acked⟩ = item := by
            intro item
            simp only [List.mem_map, List.mem_filter, decide_eq_true_eq,
              Spool.mem_readAfter hread]
            grind
          constructor
          · rintro (⟨item, hi, rfl⟩ | ⟨other, ho, hr, he⟩)
            · rcases List.mem_append.mp hi with hi | hi
              · exact .inl ⟨item, hi, rfl⟩
              · obtain ⟨e, he, hlt, rfl⟩ := (hnew item).mp hi
                refine .inr ⟨spool, hsp, ?_, he, hlt⟩
                rw [hp, hdir]
                exact List.mem_cons_self
            · refine .inr ⟨other, ho, ?_, he⟩
              rw [hp]
              exact List.mem_cons_of_mem _ hr
          · rintro (⟨item, hi, rfl⟩ | ⟨other, ho, hr, he, hlt⟩)
            · exact .inl ⟨item, List.mem_append_left _ hi, rfl⟩
            · rw [hp] at hr
              rcases List.mem_cons.mp hr with heq | hr
              · obtain rfl := Table.eq_of_key ho hsp (heq.trans hdir.symm)
                exact .inl ⟨_, List.mem_append_right _ ((hnew _).mpr ⟨e, he, hlt, rfl⟩), rfl⟩
              · exact .inr ⟨other, ho, hr, he, hlt⟩
      · exact gapless_fail (by simp)

theorem Gapless.read (hs : Sound d limits host s) (h : s.Gapless) (hp : s.phase = .reading []) :
    ({ s with
      phase := .sending (sorted s.call.pending)
      sends := ⟨s.call.last, []⟩ :: s.sends } : Publication).Gapless := by
  unfold Gapless at h
  rw [hp] at h
  obtain ⟨⟨hpub, hle⟩, hspools, hf⟩ := h
  have hlast : s.recovered ≤ s.call.last := by
    refine foldr_max_le (fun n hn => ?_) hpub
    obtain ⟨spool, hsp, rfl⟩ := List.mem_map.mp hn
    exact (hspools spool hsp).resolve_left List.not_mem_nil
  have hdone : ∀ dir, ¬ s.phase.ToRead dir := fun dir hr => by
    rw [hp] at hr
    exact absurd hr List.not_mem_nil
  have hleft := hf.left hs hdone hlast
  exact ⟨⟨_, _, rfl, le_antisymm hle hlast⟩, hleft⟩

theorem Gapless.send (h : s.Gapless) {item : Pending} {items : List Pending}
    (hp : s.phase = .sending (item :: items)) : (s.send item items).Gapless := by
  unfold Gapless at h
  rw [hp] at h
  obtain ⟨⟨c, rest, hc, hcur⟩, hleft⟩ := h
  unfold Publication.send
  split
  · rename_i hle
    exact ⟨⟨c, rest, hc, hcur⟩, hleft.skip hle⟩
  · rename_i hgt
    obtain ⟨hnext, hrest⟩ := hleft.head (not_le.mp hgt)
    rw [if_neg (not_not.mpr hnext)]
    refine ⟨⟨{ c with sequences := c.sequences ++ [item.event.sequence] }, rest, ?_, hcur⟩, hrest⟩
    dsimp only
    rw [hc]
    rfl

theorem Gapless.reply (h : s.Gapless) (ack : DurableAck) : (s.reply ack).Gapless := by
  unfold Publication.reply
  split
  · rename_i item items hp
    unfold Gapless at h
    rw [hp] at h
    split
    · split
      · exact h
      · exact gapless_fail (by simp)
    · unfold Gapless
      rw [hp]
      exact h
  · exact h

/-- The operations on files come after the last send. -/
theorem Gapless.onSpool {dir : Dir} {f : Spool → Except SpoolError Spool}
    {next : Spool → Phase} (hnext : ∀ spool, ∃ dir links removals maxima,
      next spool = .archiving dir links removals maxima)
    (h : ∀ item ∈ s.call.pending, item.event.sequence ≤ s.call.last) :
    (s.onSpool dir f next).Gapless := by
  refine onSpool_induct (P := Gapless) (fun _ herror => gapless_fail herror)
    fun spool _ _ spool' _ => ?_
  obtain ⟨dir, links, removals, maxima, heq⟩ := hnext spool'
  unfold Gapless
  dsimp only
  rw [heq]
  exact h

theorem Gapless.advance (hs : Sound d limits host s) (h : s.Gapless) :
    (s.advance host).Gapless := by
  have hphase := h
  unfold Gapless at hphase
  unfold Publication.advance
  split
  · exact h
  · exact h
  · exact h
  · rename_i hp
    exact h.listed hp hs.published.1
  · rename_i hp
    exact h.list hp
  · rename_i hp
    exact h.read hs hp
  · rename_i hp
    exact h.readSpool hp
  · rename_i hp
    rw [hp] at hphase
    split
    · exact gapless_returned rfl
    · exact fun item hi => (hphase.2.2.2 item hi).resolve_left List.not_mem_nil
  · rename_i hp
    exact h.send hp
  · rename_i hp
    rw [hp] at hphase
    exact hphase
  · rename_i hp
    rw [hp] at hphase
    exact Gapless.onSpool (fun _ => ⟨_, _, _, _, rfl⟩) hphase
  · rename_i hp
    rw [hp] at hphase
    exact Gapless.onSpool (fun _ => ⟨_, _, _, _, rfl⟩) hphase
  · rename_i hp
    rw [hp] at hphase
    exact hphase
  · exact gapless_returned rfl

theorem Gapless.ackThrough (h : s.Gapless) (dir : Dir) : (s.ackThrough dir).Gapless := by
  unfold Publication.ackThrough
  split
  · rename_i maxima hp
    split
    · unfold Gapless at h
      rw [hp] at h
      exact Gapless.onSpool (fun _ => ⟨_, _, _, _, rfl⟩) h
    · exact h
  · exact h

theorem Gapless.interrupt (h : s.Gapless) : s.interrupt.Gapless := by
  unfold Publication.interrupt
  split
  · exact h
  · exact gapless_fail (by simp)

theorem Gapless.commit (h : s.Gapless) (env : Env) (e : Event) : (commit d env s e).Gapless := by
  unfold Publication.commit
  split
  · split
    · exact h
    · exact h
  · exact h

theorem Gapless.control (h : s.Gapless) (op : Op) : (control d host s op).Gapless := by
  unfold Publication.control
  split
  · exact h
  · exact h

theorem Gapless.step (hs : Sound d limits host s) (h : s.Gapless) {a : Action}
    (ha : s.InTurn a) : (step d host s a).Gapless := by
  cases a with
  | openSpool attemptId segmentId => exact h.openSpool hs attemptId segmentId
  | append grant draft => exact h.append hs ha
  | publishAll epoch => exact h.publishAll hs epoch
  | advance => exact h.advance hs
  | reply ack => exact h.reply ack
  | ackThrough dir => exact h.ackThrough dir
  | interrupt => exact h.interrupt
  | crash => exact gapless_returned rfl
  | commit env e => exact h.commit env e
  | control op => exact h.control op

end Steps

/-! ## Publication beside appends -/

/-- What `PublishAll` does of what the segments append meanwhile. -/
structure Publishes (host : String) (s : Publication) : Prop where
  noGap : s.phase ≠ .returned (some .eventSequenceGap)
  /-- It sends consecutive events -/
  sent : ∀ c ∈ s.sends, c.Ordered (s.durable host)
  /-- from the recovered cursor on -/
  begun : ∀ items, s.phase = .sending items → s.Begun
  /-- up to the last it has read, -/
  complete : ∀ maxima, s.phase = .acking maxima → ∀ item ∈ s.call.pending,
    item.event.sequence ≤ s.call.last
  /-- and what it has not read stays in its spool for the next call. -/
  rest : ∀ e ∈ s.appended, s.recovered < e.sequence → ∃ spool ∈ s.spools,
    e ∈ spool.events ∧ spool.acked < e.sequence

/-- Where no event is appended to a spool still to be read after another was
missed, `PublishAll` never finds a gap. -/
theorem publication_gapless {d : DB} {limits : ConcurrencyLimits} {host : String}
    {actions : List Action} (h : AllSteps (step d host) InTurn (fresh limits) actions) :
    Publishes host (Library.run (step d host) (fresh limits) actions) := by
  have hfresh : (fresh limits).Gapless := gapless_returned rfl
  obtain ⟨hs, hg⟩ := run_invariant_when (I := fun s => Sound d limits host s ∧ s.Gapless)
    ⟨Sound.fresh d limits host, hfresh⟩ (fun _ a hi ha => ⟨hi.1.step a, hi.2.step hi.1 ha⟩) h
  unfold Gapless at hg
  refine ⟨fun hp => ?_, hs.sends, fun items hp => ?_, fun maxima hp => ?_,
    fun e he hlt => hs.unsent he hlt⟩
  · rw [hp] at hg
    exact hg rfl
  · rw [hp] at hg
    exact hg.1
  · rw [hp] at hg
    exact hg

/-- A segment appends an event. -/
def toyAppend (attemptId segmentId : String) : Action :=
  .append { attemptId := attemptId, segmentId := segmentId }
    { kind := .prepared, payloadHash := segmentId }

/-- Two spools are listed; the first is read after the appends in `before`, the
second after those in `after`. -/
def reading (before after : List Action) : List Action :=
  [Action.openSpool "a" "g", .openSpool "b" "h", .publishAll 1, .advance, .advance,
    .advance] ++ before ++
    [Action.advance] ++ after ++ [Action.advance, .advance, .advance]

/-- Both segments append while the spools are read, each to one still to be read. -/
theorem appends_in_turn :
    Publishes "host" (Library.run (step toyDB "host") (fresh {})
      (reading [toyAppend "a" "g"] [toyAppend "b" "h"])) :=
  publication_gapless (by decide +kernel)

/-- The first segment appends after its spool was read, then the second before. -/
theorem racing_append_gap :
    (Library.run (step toyDB "host") (fresh {})
      (reading [] [toyAppend "a" "g", toyAppend "b" "h"])).phase =
        .returned (some .eventSequenceGap) := by
  decide +kernel

end Publication
end Orchestrator.Host
