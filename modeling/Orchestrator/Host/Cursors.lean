import Orchestrator.Events.Next
import Orchestrator.Host.Publication

/-!
# The cursors of a publication

What has been appended is on disk under the sequences 1, 2, …, every message and
every stored event is a copy of it, and no cursor, on disk or in `PublishAll`,
is ahead of what the coordinator has stored.
-/
namespace Orchestrator.Host
open Library Store

/-! ## Files -/

/-- The event was appended; it may be sent under another epoch. -/
def Copied (appended : List Event) (e : Event) : Prop :=
  ∃ e' ∈ appended, e = { e' with executionEpoch := e.executionEpoch }

/-- The spools hold what the Host has appended. -/
structure Filed (host : String) (spools : Table Spool.dir) (appended : List Event) : Prop where
  numbered : appended.map Event.sequence = upTo appended.length
  named : ∀ e ∈ appended, e.producerId = host
  held : ∀ spool ∈ spools, ∀ e, spool.Holds e → e ∈ appended
  kept : ∀ e ∈ appended, ∃ spool ∈ spools, spool.Holds e
  archived : ∀ spool ∈ spools, ∀ e ∈ spool.archive, e.sequence ≤ spool.acked

section Files
variable {host : String} {spools : Table Spool.dir} {appended : List Event} {e f : Event}

theorem Copied.append (h : Copied appended e) (f : Event) : Copied (appended ++ [f]) e := by
  obtain ⟨e', he, heq⟩ := h
  exact ⟨e', List.mem_append_left _ he, heq⟩

theorem Filed.bounds (h : Filed host spools appended) (he : e ∈ appended) :
    1 ≤ e.sequence ∧ e.sequence ≤ appended.length := by
  have hm : e.sequence ∈ appended.map Event.sequence := List.mem_map_of_mem he
  rw [h.numbered] at hm
  exact mem_upTo.mp hm

theorem Filed.unique (h : Filed host spools appended) (he : e ∈ appended) (hf : f ∈ appended)
    (heq : e.sequence = f.sequence) : e = f := by
  have hnodup : (appended.map Event.sequence).Nodup := h.numbered ▸ nodup_upTo _
  exact List.inj_on_of_nodup_map hnodup he hf heq

/-- Some event has each sequence up to the last. -/
theorem Filed.exists_sequence (h : Filed host spools appended) {n : Int} (hlo : 1 ≤ n)
    (hhi : n ≤ appended.length) : ∃ e ∈ appended, e.sequence = n := by
  have hm : n ∈ appended.map Event.sequence := h.numbered ▸ mem_upTo.mpr ⟨hlo, hhi⟩
  exact List.mem_map.mp hm

theorem Filed.openSpool (h : Filed host spools appended) {spools' : Table Spool.dir} {a g : String}
    (hi : spools.insert? { attemptId := a, segmentId := g } = some spools') :
    Filed host spools' appended := by
  refine ⟨h.numbered, h.named, fun spool hs e he => ?_, fun e he => ?_, fun spool hs e he => ?_⟩
  · rcases (Table.mem_insert hi).mp hs with hs | rfl
    · exact h.held spool hs e he
    · cases he with
      | inl he => exact absurd he (Table.not_mem_empty e)
      | inr he => exact absurd he (Table.not_mem_empty e)
  · obtain ⟨spool, hs, hh⟩ := h.kept e he
    exact ⟨spool, (Table.mem_insert hi).mpr (.inl hs), hh⟩
  · rcases (Table.mem_insert hi).mp hs with hs | rfl
    · exact h.archived spool hs e he
    · exact absurd he (Table.not_mem_empty e)

/-- A spool that holds the same events as before takes its place. -/
theorem Filed.put (h : Filed host spools appended) {spool spool' : Spool} (hs : spool ∈ spools)
    (hdir : spool'.dir = spool.dir) (hh : ∀ e, spool'.Holds e ↔ spool.Holds e)
    (ha : ∀ e ∈ spool'.archive, e.sequence ≤ spool'.acked) :
    Filed host (spools.put spool') appended := by
  refine ⟨h.numbered, h.named, fun other ho e he => ?_, fun e he => ?_, fun other ho e he => ?_⟩
  · rcases Table.mem_put.mp ho with ⟨ho, -⟩ | ⟨rfl, -⟩
    · exact h.held other ho e he
    · exact h.held spool hs e ((hh e).mp he)
  · obtain ⟨other, ho, hother⟩ := h.kept e he
    by_cases hk : other.dir = spool.dir
    · obtain rfl := Table.eq_of_key ho hs hk
      exact ⟨spool', Table.mem_put.mpr (.inr ⟨rfl, other, hs, hdir.symm⟩), (hh e).mpr hother⟩
    · exact ⟨other, Table.mem_put.mpr (.inl ⟨ho, hdir ▸ hk⟩), hother⟩
  · rcases Table.mem_put.mp ho with ⟨ho, -⟩ | ⟨rfl, -⟩
    · exact h.archived other ho e he
    · exact ha e he

/-- The next event goes to a spool. -/
theorem Filed.append (h : Filed host spools appended) {spool : Spool}
    {events : Table Event.sequence} (hs : spool ∈ spools)
    (hi : spool.events.insert? e = some events)
    (hseq : e.sequence = appended.length + 1) (hname : e.producerId = host) :
    Filed host (spools.put { spool with events := events }) (appended ++ [e]) := by
  have hmem : ({ spool with events := events } : Spool) ∈
      spools.put { spool with events := events } :=
    Table.mem_put.mpr (.inr ⟨rfl, spool, hs, rfl⟩)
  refine ⟨?_, fun f hf => ?_, fun other ho f hf => ?_, fun f hf => ?_, fun other ho f hf => ?_⟩
  · rw [List.map_append, h.numbered, List.length_append, List.length_singleton, upTo_succ, ← hseq]
    rfl
  · rcases List.mem_append.mp hf with hf | hf
    · exact h.named f hf
    · exact List.mem_singleton.mp hf ▸ hname
  · rw [List.mem_append, List.mem_singleton]
    rcases Table.mem_put.mp ho with ⟨ho, -⟩ | ⟨rfl, -⟩
    · exact .inl (h.held other ho f hf)
    · rcases hf with hf | hf
      · rcases (Table.mem_insert hi).mp hf with hf | rfl
        · exact .inl (h.held spool hs f (.inl hf))
        · exact .inr rfl
      · exact .inl (h.held spool hs f (.inr hf))
  · rcases List.mem_append.mp hf with hf | hf
    · obtain ⟨other, ho, hother⟩ := h.kept f hf
      by_cases hk : other.dir = spool.dir
      · obtain rfl := Table.eq_of_key ho hs hk
        refine ⟨_, hmem, hother.imp_left fun hlive => (Table.mem_insert hi).mpr (.inl hlive)⟩
      · exact ⟨other, Table.mem_put.mpr (.inl ⟨ho, hk⟩), hother⟩
    · obtain rfl := List.mem_singleton.mp hf
      exact ⟨_, hmem, .inl ((Table.mem_insert hi).mpr (.inr rfl))⟩
  · rcases Table.mem_put.mp ho with ⟨ho, -⟩ | ⟨rfl, -⟩
    · exact h.archived other ho f hf
    · exact h.archived spool hs f hf

end Files

/-! ## Cursors -/

/-- A call sends consecutive events from its cursor on, and none before its
predecessor is stored. -/
structure Sends.Ordered (c : Sends) (durable : Int) : Prop where
  cursor : c.cursor ≤ durable
  consecutive : c.sequences = (upTo c.sequences.length).map (c.cursor + ·)
  stored : ∀ n ∈ c.sequences, n ≤ durable + 1

/-- The call of this phase has sent everything up to `n`. -/
def SentThrough (sends : List Sends) (n : Int) : Prop :=
  ∃ c rest, sends = c :: rest ∧ n = c.cursor + c.sequences.length

/-- The files `archiveThrough` has still to move. -/
def Archiving (spools : Table Spool.dir) (dir : Dir) (links removals : List Event) : Prop :=
  ∃ spool ∈ spools, spool.dir = dir ∧ (∀ e ∈ links, e ∈ spool.events ∧ e.sequence ≤ spool.acked) ∧
    ∀ e ∈ removals, e ∈ links ∨ e ∈ spool.archive

def Phase.Sound (durable : Int) (spools : Table Spool.dir) (call : Call) (sends : List Sends) :
    Phase → Prop
  | .returned _ | .listing _ _ => True
  | .reading _ => call.last ≤ durable
  | .sending items => call.last ≤ durable ∧ (∀ item ∈ items, item ∈ call.pending) ∧
      SentThrough sends call.last
  | .awaiting item items => call.last ≤ durable ∧ (∀ i ∈ item :: items, i ∈ call.pending) ∧
      item.event.sequence = call.last + 1 ∧ SentThrough sends item.event.sequence
  | .acking maxima => call.last ≤ durable ∧ ∀ m ∈ maxima, m.2 ≤ call.last
  | .archiving dir links removals maxima => call.last ≤ durable ∧
      (∀ m ∈ maxima, m.2 ≤ call.last) ∧ Archiving spools dir links removals
  | .writing => call.last ≤ durable

/-- Spools to which files were added. -/
def Grown (spools spools' : Table Spool.dir) : Prop :=
  ∀ spool ∈ spools, ∃ spool' ∈ spools', spool'.dir = spool.dir ∧
    (∀ e ∈ spool.events, e ∈ spool'.events) ∧ spool'.archive = spool.archive ∧
    spool'.acked = spool.acked

theorem Grown.refl (spools : Table Spool.dir) : Grown spools spools :=
  fun spool hs => ⟨spool, hs, rfl, fun _ he => he, rfl, rfl⟩

theorem Grown.openSpool {spools spools' : Table Spool.dir} {spool : Spool}
    (hi : spools.insert? spool = some spools') : Grown spools spools' :=
  fun other ho => ⟨other, (Table.mem_insert hi).mpr (.inl ho), rfl, fun _ he => he, rfl, rfl⟩

theorem Grown.append {spools : Table Spool.dir} {spool : Spool} {e : Event}
    {events : Table Event.sequence} (hs : spool ∈ spools)
    (hi : spool.events.insert? e = some events) :
    Grown spools (spools.put { spool with events := events }) := by
  intro other ho
  by_cases hk : other.dir = spool.dir
  · obtain rfl := Table.eq_of_key ho hs hk
    exact ⟨_, Table.mem_put.mpr (.inr ⟨rfl, other, hs, rfl⟩), rfl,
      fun f hf => (Table.mem_insert hi).mpr (.inl hf), rfl, rfl⟩
  · exact ⟨other, Table.mem_put.mpr (.inl ⟨ho, hk⟩), rfl, fun _ he => he, rfl, rfl⟩

/-- More files and more stored events keep a phase sound. -/
theorem Phase.Sound.mono {durable durable' : Int} {spools spools' : Table Spool.dir} {call : Call}
    {sends : List Sends} {phase : Phase} (h : phase.Sound durable spools call sends)
    (hd : durable ≤ durable') (hg : Grown spools spools') :
    phase.Sound durable' spools' call sends := by
  cases phase with
  | returned => exact h
  | listing => exact h
  | reading => exact le_trans h hd
  | sending => exact ⟨h.1.trans hd, h.2⟩
  | awaiting => exact ⟨h.1.trans hd, h.2⟩
  | acking => exact ⟨h.1.trans hd, h.2⟩
  | archiving dir links removals maxima =>
    obtain ⟨hlast, hmax, spool, hs, hdir, hlinks, hremovals⟩ := h
    obtain ⟨spool', hs', hdir', hevents, harchive, hacked⟩ := hg spool hs
    refine ⟨hlast.trans hd, hmax, spool', hs', hdir'.trans hdir, fun e he => ?_, fun e he => ?_⟩
    · exact ⟨hevents e (hlinks e he).1, hacked ▸ (hlinks e he).2⟩
    · exact harchive ▸ hremovals e he
  | writing => exact le_trans h hd

theorem Sends.Ordered.mono {c : Sends} {durable durable' : Int} (h : c.Ordered durable)
    (hd : durable ≤ durable') : c.Ordered durable' :=
  ⟨h.cursor.trans hd, h.consecutive, fun n hn => (h.stored n hn).trans (by omega)⟩

namespace Publication

/-- How far the coordinator has stored the Host's events. -/
def durable (s : Publication) (host : String) : Int := s.store.lastSequence host

structure Sound (d : DB) (limits : ConcurrencyLimits) (host : String) (s : Publication) : Prop where
  store : d.Reachable limits s.store
  filed : Filed host s.spools s.appended
  loaded : ∀ n, s.sequence = some n → n = s.appended.length
  flight : ∀ e ∈ s.flight, Copied s.appended e
  stored : ∀ r ∈ s.store.runtimeEvents, r.producerId = host → Copied s.appended r.body
  acks : ∀ ack ∈ s.acks, ack.ackedThrough ≤ s.durable host
  published : 0 ≤ s.published ∧ s.published ≤ s.durable host
  acked : ∀ spool ∈ s.spools, spool.acked ≤ s.durable host
  pending : ∀ item ∈ s.call.pending, item.event ∈ s.appended
  last : 0 ≤ s.call.last
  sends : ∀ c ∈ s.sends, c.Ordered (s.durable host)
  phase : s.phase.Sound (s.durable host) s.spools s.call s.sends

/-! ## Steps -/

section Steps
variable {d : DB} {limits : ConcurrencyLimits} {host : String} {s : Publication}

theorem Sound.fresh (d : DB) (limits : ConcurrencyLimits) (host : String) :
    Sound d limits host (fresh limits) where
  store := reachable_fresh d limits
  filed := ⟨rfl, by simp [Publication.fresh], fun _ h => absurd h (Table.not_mem_empty _),
    by simp [Publication.fresh], fun _ h => absurd h (Table.not_mem_empty _)⟩
  loaded := by simp [Publication.fresh]
  flight := by simp [Publication.fresh]
  stored := fun _ h => absurd h (Table.not_mem_empty _)
  acks := by simp [Publication.fresh]
  published := ⟨le_refl _, le_refl _⟩
  acked := fun _ h => absurd h (Table.not_mem_empty _)
  pending := by simp [Publication.fresh]
  last := le_refl _
  sends := by simp [Publication.fresh]
  phase := trivial

/-- The coordinator has stored no more than was appended. -/
theorem Sound.durable_le (h : Sound d limits host s) : s.durable host ≤ s.appended.length := by
  have hlog := logged_of_reachable h.store
  obtain ⟨hlast, hup⟩ := hlog.last host
  have hd : s.durable host = (s.store.sequences host).length := hlast
  cases hn : (s.store.sequences host).length with
  | zero => rw [hd, hn]; exact Int.natCast_nonneg _
  | succ n =>
    have hm : (s.durable host) ∈ s.store.sequences host := by
      rw [hup, hd]; exact mem_upTo.mpr (by omega)
    obtain ⟨r, hr, hseq⟩ := List.mem_map.mp hm
    simp only [List.mem_filter, decide_eq_true_eq] at hr
    obtain ⟨e, he, heq⟩ := h.stored r hr.1 hr.2
    have hcol : r.sequence = r.body.sequence := (hlog.columns hr.1).2.1
    have hbody : r.body.sequence = e.sequence := by rw [heq]
    rw [← hseq, hcol, hbody]
    exact (h.filed.bounds he).2

/-- Whether loaded or not, the sequence is the number of events appended. -/
theorem Sound.loadEventSequence (h : Sound d limits host s) :
    s.loadEventSequence host = .ok (s.appended.length : Int) := by
  unfold Publication.loadEventSequence
  cases hseq : s.sequence with
  | some n => rw [h.loaded n hseq]
  | none =>
    have hread : ∀ spool ∈ s.spools.rows, ∃ events, spool.read = .ok events := fun spool hs =>
      spool.readEvents_ok (fun e f he hf => h.filed.unique (h.filed.held spool hs e he)
        (h.filed.held spool hs f hf)) 0 true
    obtain ⟨records, hrecords⟩ := exists_mapM hread
    have hmem : ∀ e, e ∈ records.flatten ↔ e ∈ s.appended := by
      intro e
      rw [List.mem_flatten]
      constructor
      · rintro ⟨events, hevents, he⟩
        obtain ⟨spool, hs, hr⟩ := mem_of_mapM hrecords hevents
        exact h.filed.held spool hs e ((Spool.mem_read hr).mp he).1
      · intro he
        obtain ⟨spool, hs, hh⟩ := h.filed.kept e he
        obtain ⟨events, hevents, hr⟩ := reply_mem_of_mapM hrecords hs
        exact ⟨events, hevents, (Spool.mem_read hr).mpr ⟨hh, by have := h.filed.bounds he; omega⟩⟩
    have hall : ∀ e ∈ records.flatten, e.producerId = host ∧ 1 ≤ e.sequence := fun e he =>
      have he := (hmem e).mp he
      ⟨h.filed.named e he, (h.filed.bounds he).1⟩
    have hle := h.durable_le
    have hpub := h.published
    have hmax : (records.flatten.map Event.sequence).foldr max s.published =
        (s.appended.length : Int) := by
      apply le_antisymm
      · refine foldr_max_le (fun n hn => ?_) (by omega)
        obtain ⟨e, he, rfl⟩ := List.mem_map.mp hn
        exact (h.filed.bounds ((hmem e).mp he)).2
      · rcases Nat.eq_zero_or_pos s.appended.length with hz | hpos
        · have := base_le_foldr_max (records.flatten.map Event.sequence) s.published
          omega
        · obtain ⟨e, he, hn⟩ := h.filed.exists_sequence (n := s.appended.length) (by omega)
            (le_refl _)
          exact le_foldr_max (hn ▸ List.mem_map_of_mem ((hmem e).mpr he))
    simp only [hrecords, Except.mapError, ok_bind, require_pos hall, hmax]

theorem Sound.openSpool (h : Sound d limits host s) (a g : String) :
    Sound d limits host (s.openSpool a g) := by
  unfold Publication.openSpool
  split
  · rename_i spools hi
    refine { h with filed := h.filed.openSpool hi, acked := fun spool hs => ?_, phase := ?_ }
    · rcases (Table.mem_insert hi).mp hs with hs | rfl
      · exact h.acked spool hs
      · exact h.published.1.trans h.published.2
    · exact h.phase.mono (le_refl _) (Grown.openSpool hi)
  · exact h

/-- What the next append does: the event gets the next sequence, or nothing is written. -/
theorem append_cases (h : Sound d limits host s) (grant : LaunchCommand) (draft : Draft) :
    s.appendStructuredEvent host grant draft = s ∨
      s.appendStructuredEvent host grant draft =
        { s with sequence := some (s.appended.length : Int) } ∨
      ∃ spool ∈ s.spools, ∃ events, ∃ e : Event, spool.events.insert? e = some events ∧
        spool.dir = (grant.attemptId, grant.segmentId) ∧ e.sequence = s.appended.length + 1 ∧
        e.producerId = host ∧ s.appendStructuredEvent host grant draft = { s with
          spools := s.spools.put { spool with events := events }
          sequence := some ((s.appended.length : Int) + 1)
          appended := s.appended ++ [e] } := by
  unfold appendStructuredEvent
  rw [h.loadEventSequence]
  cases hf : s.spools.find? (grant.attemptId, grant.segmentId) with
  | none => exact .inl rfl
  | some spool =>
    obtain ⟨hs, hdir⟩ := Table.find?_eq_some.mp hf
    dsimp only
    split
    · rename_i spool' happend
      obtain ⟨-, hold⟩ | ⟨-, events, hi, rfl⟩ := Spool.append_cases happend
      · -- its number is too large for an event of the spool
        have := (h.filed.bounds (h.filed.held spool hs _ hold)).2
        simp only [Source.structuredEvent] at this
        omega
      · refine .inr (.inr ⟨spool, hs, events, _, hi, hdir, rfl, rfl, rfl⟩)
    · exact .inr (.inl rfl)

theorem Sound.append (h : Sound d limits host s) (grant : LaunchCommand) (draft : Draft) :
    Sound d limits host (s.appendStructuredEvent host grant draft) := by
  obtain heq | heq | ⟨spool, hs, events, e, hi, -, hseq, hprod, heq⟩ :=
    append_cases h grant draft
  · rw [heq]; exact h
  · rw [heq]
    exact { h with loaded := fun n hn => (Option.some.inj hn).symm }
  · rw [heq]
    refine { h with
      filed := h.filed.append hs hi hseq hprod
      loaded := fun n hn => ?_
      flight := fun f hf => (h.flight f hf).append e
      stored := fun r hr hp => (h.stored r hr hp).append e
      acked := fun other ho => ?_
      pending := fun item hm => List.mem_append_left _ (h.pending item hm)
      phase := h.phase.mono (le_refl _) (Grown.append hs hi) }
    · rw [← Option.some.inj hn, List.length_append]
      rfl
    · rcases Table.mem_put.mp ho with ⟨ho, -⟩ | ⟨rfl, -⟩
      · exact h.acked other ho
      · exact h.acked spool hs

theorem Sound.fail (h : Sound d limits host s) (error : PublishError) :
    Sound d limits host (s.fail error) := { h with phase := trivial }

theorem Sound.publishAll (h : Sound d limits host s) (epoch : Nat) :
    Sound d limits host (s.publishAll epoch) := by
  unfold Publication.publishAll
  split
  · exact { h with
      pending := fun _ hm => absurd hm List.not_mem_nil
      last := le_refl _
      phase := trivial }
  · exact h

theorem Sound.readSpool (h : Sound d limits host s) {entries : List Dir} (dir : Dir)
    (hp : s.phase = .reading entries) (rest : List Dir) :
    Sound d limits host (s.readSpool host dir rest) := by
  have hphase := h.phase
  rw [hp] at hphase
  unfold Publication.readSpool
  cases hf : s.spools.find? dir with
  | none => exact h.fail _
  | some spool =>
    obtain ⟨hs, -⟩ := Table.find?_eq_some.mp hf
    dsimp only
    split
    · exact h.fail _
    · rename_i events hread
      split
      · refine { h with
          pending := fun item hm => ?_
          last := h.last.trans (le_max_left _ _)
          phase := max_le hphase (h.acked spool hs) }
        rcases List.mem_append.mp hm with hm | hm
        · exact h.pending item hm
        · obtain ⟨e, he, rfl⟩ := List.mem_map.mp hm
          have he := (Spool.mem_readAfter hread).mp (List.mem_filter.mp he).1
          exact h.filed.held spool hs e (.inl he.1)
      · exact h.fail _

theorem sentThrough_record {sends : List Sends} {n durable : Int} (h : SentThrough sends n)
    (ho : ∀ c ∈ sends, c.Ordered durable) (hn : n ≤ durable) :
    SentThrough (recordSend (n + 1) sends) (n + 1) ∧
      ∀ c ∈ recordSend (n + 1) sends, c.Ordered durable := by
  obtain ⟨c, rest, rfl, hlast⟩ := h
  obtain ⟨hcursor, hconsecutive, hbound⟩ := ho c List.mem_cons_self
  refine ⟨⟨_, rest, rfl, ?_⟩, fun c' hc' => ?_⟩
  · simp only [List.length_append, List.length_singleton]
    omega
  · rcases List.mem_cons.mp hc' with rfl | hc'
    · refine ⟨hcursor, ?_, fun m hm => ?_⟩
      · simp only [List.length_append, List.length_singleton, upTo_succ, List.map_append,
          List.map_cons, List.map_nil, ← hconsecutive]
        rw [hlast, Int.add_assoc]
      · rcases List.mem_append.mp hm with hm | hm
        · exact hbound m hm
        · rw [List.mem_singleton.mp hm]
          omega
    · exact ho c' (List.mem_cons_of_mem _ hc')

theorem Sound.send (h : Sound d limits host s) {item : Pending} {items : List Pending}
    (hp : s.phase = .sending (item :: items)) : Sound d limits host (s.send item items) := by
  have hphase := h.phase
  rw [hp] at hphase
  obtain ⟨hlast, hitems, hsent⟩ := hphase
  unfold Publication.send
  split
  · exact { h with phase := ⟨hlast, fun i hi => hitems i (List.mem_cons_of_mem _ hi), hsent⟩ }
  · split
    · exact h.fail _
    · rename_i hnext
      have hnext := not_not.mp hnext
      obtain ⟨hthrough, hordered⟩ := sentThrough_record hsent h.sends hlast
      rw [← hnext] at hthrough hordered
      refine { h with
        flight := fun e he => ?_
        sends := hordered
        phase := ⟨hlast, hitems, hnext, hthrough⟩ }
      rcases List.mem_append.mp he with he | he
      · exact h.flight e he
      · obtain rfl := List.mem_singleton.mp he
        exact ⟨item.event, h.pending item (hitems item List.mem_cons_self), rfl⟩

theorem Sound.reply (h : Sound d limits host s) (ack : DurableAck) :
    Sound d limits host (s.reply ack) := by
  have hphase := h.phase
  unfold Publication.reply
  split
  · rename_i item items hp
    rw [hp] at hphase
    obtain ⟨hlast, hitems, hnext, hsent⟩ := hphase
    split
    · rename_i hack
      split
      · rename_i hacks
        have hstored : item.event.sequence ≤ s.durable host :=
          hacks.2.2.2.2.trans (h.acks ack hack)
        have hpos := (h.filed.bounds (h.pending item (hitems item List.mem_cons_self))).1
        exact { h with
          last := (by omega : 0 ≤ item.event.sequence)
          phase := ⟨hstored, fun i hi => hitems i (List.mem_cons_of_mem _ hi), hsent⟩ }
      · exact h.fail _
    · exact h
  · exact h

theorem mem_raise {maxima : List (Dir × Int)} {item : Pending} {m : Dir × Int}
    (hm : m ∈ raise maxima item) : m ∈ maxima ∨ m = (item.dir, item.event.sequence) := by
  unfold raise at hm
  split at hm
  · rw [List.mem_append, List.mem_filter, List.mem_singleton] at hm
    exact hm.imp_left And.left
  · exact .inl hm

theorem mem_maxima {pending : List Pending} {last : Int} {m : Dir × Int}
    (hm : m ∈ maxima pending last) : m.2 ≤ last := by
  have hfold : ∀ (items : List Pending) (start : List (Dir × Int)),
      (∀ item ∈ items, item.event.sequence ≤ last) → (∀ m ∈ start, m.2 ≤ last) →
        ∀ m ∈ items.foldl raise start, m.2 ≤ last := by
    intro items
    induction items with
    | nil => exact fun _ _ hstart => hstart
    | cons item items ih =>
      intro start hitems hstart
      refine ih _ (fun i hi => hitems i (List.mem_cons_of_mem _ hi)) fun m hm => ?_
      rcases mem_raise hm with hm | rfl
      · exact hstart m hm
      · exact hitems item List.mem_cons_self
  refine hfold _ [] (fun item hi => ?_) (by simp) m hm
  exact (of_decide_eq_true (List.mem_filter.mp hi).2).1

theorem onSpool_induct {dir : Dir} {f : Spool → Except SpoolError Spool} {next : Spool → Phase}
    {P : Publication → Prop} (hfail : ∀ error, error ≠ .eventSequenceGap → P (s.fail error))
    (hok : ∀ spool ∈ s.spools, spool.dir = dir → ∀ spool', f spool = .ok spool' →
      P { s with spools := s.spools.put spool', phase := next spool' }) :
    P (s.onSpool dir f next) := by
  unfold onSpool
  cases hf : s.spools.find? dir with
  | none => exact hfail _ (by simp)
  | some spool =>
    obtain ⟨hs, hdir⟩ := Table.find?_eq_some.mp hf
    dsimp only
    split
    · exact hfail _ (by simp)
    · rename_i spool' hok'
      exact hok spool hs hdir spool' hok'

/-- A spool whose files were moved takes the place of the old one. -/
theorem Sound.put (h : Sound d limits host s) {spool : Spool} (spool' : Spool)
    (hs : spool ∈ s.spools)
    (hdir : spool'.dir = spool.dir) (hh : ∀ e, spool'.Holds e ↔ spool.Holds e)
    (ha : ∀ e ∈ spool'.archive, e.sequence ≤ spool'.acked)
    (hacked : spool'.acked ≤ s.durable host) {phase : Phase}
    (hphase : phase.Sound (s.durable host) (s.spools.put spool') s.call s.sends) :
    Sound d limits host { s with spools := s.spools.put spool', phase := phase } := by
  refine { h with
    filed := h.filed.put hs hdir hh ha
    acked := fun other ho => ?_
    phase := hphase }
  rcases Table.mem_put.mp ho with ⟨ho, -⟩ | ⟨rfl, -⟩
  · exact h.acked other ho
  · exact hacked

theorem Sound.ackThrough (h : Sound d limits host s) (dir : Dir) :
    Sound d limits host (s.ackThrough dir) := by
  have hphase := h.phase
  unfold Publication.ackThrough
  split
  · rename_i maxima hp
    rw [hp] at hphase
    split
    · rename_i m hm
      have hmem := List.mem_of_find?_eq_some hm
      refine onSpool_induct (P := Sound d limits host) (fun _ _ => h.fail _)
        fun spool hs hdir spool' hok => ?_
      obtain ⟨hle, rfl⟩ := Spool.writeAck_ok hok
      have hlast : m.2 ≤ s.durable host := (hphase.2 m hmem).trans hphase.1
      refine h.put { spool with acked := m.2 } hs rfl (fun _ => Iff.rfl)
        (fun e he => (h.filed.archived spool hs e he).trans hle) hlast ?_
      refine ⟨hphase.1, fun m' hm' => hphase.2 m' (List.mem_filter.mp hm').1,
        _, Table.mem_put.mpr (.inr ⟨rfl, spool, hs, rfl⟩), hdir, fun e he => ?_,
        fun e he => .inl he⟩
      simpa [Spool.archivable, Table.mem_def] using he
    · exact h
  · exact h

theorem Sound.link (h : Sound d limits host s) {dir : Dir} {e : Event} {links removals : List Event}
    {maxima : List (Dir × Int)} (hp : s.phase = .archiving dir (e :: links) removals maxima) :
    Sound d limits host (s.onSpool dir (fun spool => spool.link e)
      fun _ => .archiving dir links removals maxima) := by
  have hphase := h.phase
  rw [hp] at hphase
  obtain ⟨hlast, hmax, other, ho, hother, hlinks, hremovals⟩ := hphase
  refine onSpool_induct (P := Sound d limits host) (fun _ _ => h.fail _)
    fun spool hs hdir spool' hok => ?_
  obtain rfl := Table.eq_of_key ho hs (hother.trans hdir.symm)
  obtain ⟨hlive, hle⟩ := hlinks e List.mem_cons_self
  have hrest : ∀ f ∈ links, f ∈ other.events ∧ f.sequence ≤ other.acked := fun f hf =>
    hlinks f (List.mem_cons_of_mem e hf)
  obtain ⟨rfl, harchive⟩ | ⟨archive, hi, rfl⟩ := Spool.link_cases hok
  · refine h.put _ ho rfl (fun _ => Iff.rfl) (h.filed.archived _ ho) (h.acked _ ho) ?_
    refine ⟨hlast, hmax, _, Table.mem_put.mpr (.inr ⟨rfl, _, ho, rfl⟩), hother, hrest,
      fun f hf => ?_⟩
    rcases hremovals f hf with hf | hf
    · rcases List.mem_cons.mp hf with rfl | hf
      · exact .inr harchive
      · exact .inl hf
    · exact .inr hf
  · refine h.put { other with archive := archive } ho rfl (fun f => ?_) (fun f hf => ?_)
      (h.acked other ho) ?_
    · constructor
      · rintro (hf | hf)
        · exact .inl hf
        · rcases (Table.mem_insert hi).mp hf with hf | rfl
          · exact .inr hf
          · exact .inl hlive
      · exact fun hf => hf.imp_right fun ha => (Table.mem_insert hi).mpr (.inl ha)
    · rcases (Table.mem_insert hi).mp hf with hf | rfl
      · exact h.filed.archived other ho f hf
      · exact hle
    · refine ⟨hlast, hmax, _, Table.mem_put.mpr (.inr ⟨rfl, other, ho, rfl⟩), hother, hrest,
        fun f hf => ?_⟩
      rcases hremovals f hf with hf | hf
      · rcases List.mem_cons.mp hf with rfl | hf
        · exact .inr ((Table.mem_insert hi).mpr (.inr rfl))
        · exact .inl hf
      · exact .inr ((Table.mem_insert hi).mpr (.inl hf))

theorem Sound.unlink (h : Sound d limits host s) {dir : Dir} {e : Event} {removals : List Event}
    {maxima : List (Dir × Int)} (hp : s.phase = .archiving dir [] (e :: removals) maxima) :
    Sound d limits host (s.onSpool dir (fun spool => .ok (spool.unlink e))
      fun _ => .archiving dir [] removals maxima) := by
  have hphase := h.phase
  rw [hp] at hphase
  obtain ⟨hlast, hmax, other, ho, hother, -, hremovals⟩ := hphase
  refine onSpool_induct (P := Sound d limits host) (fun _ _ => h.fail _)
    fun spool hs hdir spool' hok => ?_
  obtain rfl := Table.eq_of_key ho hs (hother.trans hdir.symm)
  obtain rfl : other.unlink e = spool' := by simpa using hok
  have harchive : ∀ f ∈ e :: removals, f ∈ other.archive := fun f hf =>
    (hremovals f hf).resolve_left List.not_mem_nil
  have he := harchive e List.mem_cons_self
  refine h.put (other.unlink e) ho rfl (fun f => ?_) (h.filed.archived other ho)
    (h.acked other ho) ?_
  · constructor
    · exact fun hf => hf.imp_left fun hl => (Table.mem_delete.mp hl).1
    · rintro (hf | hf)
      · by_cases hseq : f.sequence = e.sequence
        · obtain rfl := h.filed.unique (h.filed.held other ho f (.inl hf))
            (h.filed.held other ho e (.inr he)) hseq
          exact .inr he
        · exact .inl (Table.mem_delete.mpr ⟨hf, by simpa using hseq⟩)
      · exact .inr hf
  · refine ⟨hlast, hmax, _, Table.mem_put.mpr (.inr ⟨rfl, other, ho, rfl⟩), hother, by simp,
      fun f hf => .inr (harchive f (List.mem_cons_of_mem e hf))⟩

theorem Sound.advance (h : Sound d limits host s) : Sound d limits host (s.advance host) := by
  have hphase := h.phase
  unfold Publication.advance
  split
  · exact h
  · exact h
  · exact h
  · exact { h with last := h.published.1, phase := h.published.2 }
  · exact { h with phase := trivial }
  · rename_i hp
    rw [hp] at hphase
    refine { h with sends := fun c hc => ?_, phase := ⟨hphase, fun i hi => ?_, ?_⟩ }
    · rcases List.mem_cons.mp hc with rfl | hc
      · exact ⟨hphase, rfl, by simp⟩
      · exact h.sends c hc
    · simpa [sorted] using hi
    · exact ⟨_, _, rfl, by simp⟩
  · rename_i dir entries hp
    exact h.readSpool dir hp entries
  · rename_i hp
    rw [hp] at hphase
    split
    · exact { h with phase := trivial }
    · exact { h with phase := ⟨hphase.1, fun m hm => mem_maxima hm⟩ }
  · rename_i hp
    exact h.send hp
  · rename_i hp
    rw [hp] at hphase
    exact { h with phase := hphase.1 }
  · rename_i hp
    exact h.link hp
  · rename_i hp
    exact h.unlink hp
  · rename_i hp
    rw [hp] at hphase
    exact { h with phase := ⟨hphase.1, hphase.2.1⟩ }
  · rename_i hp
    rw [hp] at hphase
    exact { h with published := ⟨h.last, hphase⟩, phase := trivial }

theorem Sound.interrupt (h : Sound d limits host s) : Sound d limits host s.interrupt := by
  unfold Publication.interrupt
  split
  · exact h
  · exact h.fail _

theorem Sound.crash (h : Sound d limits host s) : Sound d limits host s.crash :=
  { h with loaded := fun _ hn => (Option.some_ne_none _ hn.symm).elim, phase := trivial }

/-- The coordinator takes a step that stores no event of the Host but copies. -/
theorem Sound.coordinate (h : Sound d limits host s) (op : Op)
    (hop : ∀ e, op.event = some e → e.producerId = host → Copied s.appended e) :
    Sound d limits host { s with store := d.step s.store op } := by
  have hle : s.durable host ≤ (d.step s.store op).lastSequence host :=
    (logged_of_reachable h.store).last_le_step op host
  refine { h with
    store := reachable_step op h.store
    stored := fun r hr hp => ?_
    acks := fun ack ha => (h.acks ack ha).trans hle
    published := ⟨h.published.1, h.published.2.trans hle⟩
    acked := fun spool hs => (h.acked spool hs).trans hle
    sends := fun c hc => (h.sends c hc).mono hle
    phase := h.phase.mono hle (Grown.refl _) }
  obtain ⟨q, hq, hprod, hbody⟩ | ⟨e, he, rfl⟩ := mem_log_step hr
  · exact hbody ▸ h.stored q hq (hprod.trans hp)
  · exact hop e he hp

theorem Sound.control (h : Sound d limits host s) (op : Op) :
    Sound d limits host (control d host s op) := by
  unfold Publication.control
  split
  · rename_i hop
    exact h.coordinate _ fun e he hp => absurd hp (hop e he)
  · exact h

theorem Sound.commit (h : Sound d limits host s) (env : Env) (e : Event) :
    Sound d limits host (commit d env s e) := by
  unfold Publication.commit
  split
  · rename_i he
    split
    · rename_i store ack hcommit
      have hexec : d.exec s.store (.commitHostEvent env e) = .ok store :=
        committed_ok.mpr ⟨ack, hcommit⟩
      have hcopied := h.flight e he
      have hs := h.coordinate (.commitHostEvent env e) fun e' he' _ =>
        Option.some.inj he' ▸ hcopied
      rw [step_of_exec hexec] at hs
      refine { hs with acks := fun a ha => ?_ }
      rcases List.mem_append.mp ha with ha | ha
      · exact hs.acks a ha
      · obtain ⟨r, hr, hprod, hseq⟩ := committed_of_accepted (logged_of_reachable h.store) hexec
        obtain ⟨e', he', heq⟩ := hcopied
        have hhost : e.producerId = host := by
          rw [heq]; exact h.filed.named e' he'
        rw [List.mem_singleton.mp ha, commitHostEvent_ack hcommit]
        have hle := mem_le_lastSequence hr
        rw [hprod, hhost, hseq] at hle
        exact hle
    · exact h
  · exact h

theorem Sound.step (h : Sound d limits host s) (a : Action) :
    Sound d limits host (step d host s a) := by
  cases a with
  | openSpool attemptId segmentId => exact h.openSpool attemptId segmentId
  | append grant draft => exact h.append grant draft
  | publishAll epoch => exact h.publishAll epoch
  | advance => exact h.advance
  | reply ack => exact h.reply ack
  | ackThrough dir => exact h.ackThrough dir
  | interrupt => exact h.interrupt
  | crash => exact h.crash
  | commit env e => exact h.commit env e
  | control op => exact h.control op

theorem sound_run (d : DB) (limits : ConcurrencyLimits) (host : String) (actions : List Action) :
    Sound d limits host (Library.run (step d host) (fresh limits) actions) :=
  run_invariant (Sound.fresh d limits host) fun _ a h => h.step a

end Steps

/-! ## Crashes -/

/-- The cursor a new process starts from. -/
def recovered (s : Publication) : Int := (s.spools.rows.map Spool.acked).foldr max s.published

/-- The Host's events as the coordinator has stored them. -/
def log (s : Publication) (host : String) : List Event :=
  (s.store.runtimeEvents.rows.filter (fun r => r.producerId = host)).map RuntimeEvent.body

/-- The event without the epoch it is sent under. -/
def unstamped (e : Event) : Event := { e with executionEpoch := 0 }

/-- What a publication keeps through lost messages and crashes. -/
structure Safe (host : String) (s : Publication) : Prop where
  /-- The recovered cursor is not ahead of the coordinator, -/
  recovered : s.recovered ≤ s.durable host
  /-- whose log is a prefix of what was appended. -/
  stored : (s.log host).length = s.durable host ∧
    (s.log host).map unstamped <+: s.appended.map unstamped
  /-- Every call sends consecutive events, each once its predecessor is stored. -/
  sent : ∀ c ∈ s.sends, c.Ordered (s.durable host)
  /-- No sequence is used twice, -/
  numbered : s.appended.map Event.sequence = upTo s.appended.length
  /-- and the sequence a new process loads is the last one used. -/
  reloaded : s.crash.loadEventSequence host = .ok (s.appended.length : Int)

theorem Sound.safe {d : DB} {limits : ConcurrencyLimits} {host : String} {s : Publication}
    (h : Sound d limits host s) : Safe host s := by
  have hlog := logged_of_reachable h.store
  obtain ⟨hlast, hup⟩ := hlog.last host
  refine ⟨?_, ⟨?_, ?_⟩, h.sends, h.filed.numbered, h.crash.loadEventSequence⟩
  · refine foldr_max_le (fun n hn => ?_) h.published.2
    obtain ⟨spool, hs, rfl⟩ := List.mem_map.mp hn
    exact h.acked spool hs
  · rw [Publication.durable, hlast]
    simp [Publication.log, State.sequences]
  · rw [Publication.log, List.map_map]
    refine prefix_of_numbered (k := RuntimeEvent.sequence) hup h.filed.numbered fun r hr => ?_
    simp only [List.mem_filter, decide_eq_true_eq] at hr
    obtain ⟨e, he, heq⟩ := h.stored r hr.1 hr.2
    refine ⟨e, he, ?_, ?_⟩
    · rw [(hlog.columns hr.1).2.1, heq]
    · rw [Function.comp_apply, heq]
      rfl

/-- Whatever is lost on the way and wherever the Host dies, no event is skipped,
reordered or given a number of another. -/
theorem publication_safe (d : DB) (limits : ConcurrencyLimits) (host : String)
    (actions : List Action) : Safe host (Library.run (step d host) (fresh limits) actions) :=
  (sound_run d limits host actions).safe

end Publication
end Orchestrator.Host
