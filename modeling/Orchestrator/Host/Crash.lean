import Orchestrator.Host.Files

/-!
# What survives a crash

Whatever file operation the process dies before, the next one reads the events
whose `Append` returned success, perhaps with those a crash cut off, each once and in
the order of their sequences.
-/
namespace Orchestrator.Host.Files
open Library

/-! ## Reading -/

/-- Records that fit and agree are read, in the order of their sequences. -/
theorem Disk.readEvents_ok (d : Disk)
    (hsmall : ∀ e, d.spool.Holds e → Ipc.recordSize e ≤ maxRecord)
    (hagree : ∀ e f, d.spool.Holds e → d.spool.Holds f → e.sequence = f.sequence → e = f)
    (after : Int) (history : Bool) :
    ∃ found, d.readEvents after history = .ok found ∧
      found.Pairwise (fun e f => e.sequence < f.sequence) ∧
      ∀ e, e ∈ found ↔ after < e.sequence ∧
        (e ∈ d.spool.events ∨ history = true ∧ e ∈ d.spool.archive) := by
  have hholds : ∀ e ∈ d.spool.filesAfter after history, d.spool.Holds e :=
    fun _ he => Spool.holds_of_filesAfter he
  obtain ⟨found, hfound⟩ := @Spool.readFiles_ok _ checkRecord FileError.conflict []
    (d.spool.filesAfter after history) (fun e he => require_pos (hsmall e (hholds e he)))
    fun e he f hf => hagree e f (hholds e he) (hholds f hf)
  refine ⟨Spool.bySequence found, by simp only [Disk.readEvents, hfound, ok_bind], ?_, fun e => ?_⟩
  · have hle : (Spool.bySequence found).Pairwise (fun e f => e.sequence ≤ f.sequence) :=
      List.pairwise_insertionSort _ _
    have hne : (Spool.bySequence found).Pairwise (fun e f => e.sequence ≠ f.sequence) := by
      have hempty : (([] : List Event).map Event.sequence).Nodup := List.nodup_nil
      have hnodup := Spool.readFiles_distinct hempty hfound
      rw [← ((List.perm_insertionSort (fun e f : Event => e.sequence ≤ f.sequence)
        found).map Event.sequence).nodup_iff] at hnodup
      exact List.pairwise_map.mp hnodup
    exact hle.imp₂ (fun _ _ hl hn => lt_of_le_of_ne hl hn) hne
  · rw [Spool.bySequence, List.mem_insertionSort, Spool.mem_readFiles hfound,
      ← Spool.mem_filesAfter]
    simp

/-! ## The invariant -/

section
variable {O : Event → Prop} {m : Process} {e f : Event} {n : Int}

namespace Process

/-- What is on disk has been appended, or was cut off by a crash. -/
def Settled (m : Process) : Prop :=
  ∀ f, m.disk.spool.Holds f → f ∈ m.appended ∨ f ∈ m.interrupted

/-- What the files look like before an operation of `Append`. -/
def BeforeAppend (m : Process) (e : Event) : AppendOp → Prop
  | .readLive => m.Settled
  | .readArchived => m.Settled ∧ ∀ f ∈ m.disk.spool.events, f.sequence ≠ e.sequence
  | .create | .write | .sync | .close | .link =>
    m.Settled ∧ ∀ f, m.disk.spool.Holds f → f.sequence ≠ e.sequence
  | .compare => False
  | .remove | .syncDir => m.disk.spool.Holds e ∧
      ∀ f, m.disk.spool.Holds f → f = e ∨ f ∈ m.appended ∨ f ∈ m.interrupted

def BeforeAck (m : Process) (n : Int) : AckOp → Prop
  | .readAck | .syncSpool => True
  | .removeStage | .create | .write | .sync | .close | .rename => m.disk.spool.acked ≤ n
  | .syncDir | .openArchive | .glob => m.disk.spool.acked = n
  | .link todo archived => m.disk.spool.acked = n ∧
      (∀ f ∈ todo, m.disk.spool.Holds f ∧ f.sequence ≤ n) ∧
      ∀ f ∈ archived, f ∈ m.disk.spool.archive
  | .syncArchive todo | .unlink todo => ∀ f ∈ todo, f ∈ m.disk.spool.archive

def Before (O : Event → Prop) (m : Process) : Option Job → Prop
  | none => m.Settled
  | some (.append e op) => O e ∧ m.BeforeAppend e op
  | some (.ackThrough n op) => m.Settled ∧ m.BeforeAck n op

/-- `O` are the events offered. -/
structure Sound (O : Event → Prop) (m : Process) : Prop where
  offered : ∀ f, m.disk.spool.Holds f → O f
  kept : ∀ f ∈ m.appended, m.disk.spool.Holds f
  archived : ∀ f ∈ m.disk.spool.archive, f.sequence ≤ m.disk.spool.acked
  before : m.Before O m.job

theorem Sound.fresh {attemptId segmentId : String} {pid : Nat} :
    (Process.fresh attemptId segmentId pid).Sound O := by
  have hnone : ∀ f, ¬ (Process.fresh attemptId segmentId pid).disk.spool.Holds f := by
    rintro f (hf | hf)
    · exact Table.not_mem_empty f hf
    · exact Table.not_mem_empty f hf
  exact ⟨fun f hf => (hnone f hf).elim, fun _ hf => (nomatch hf),
    fun f hf => (Table.not_mem_empty f hf).elim, fun f hf => (hnone f hf).elim⟩

/-- A job goes on, or begins. -/
theorem Sound.next (h : m.Sound O) {job : Job} (hb : m.Before O (some job)) :
    { m with job := some job }.Sound O :=
  ⟨h.offered, h.kept, h.archived, by cases job <;> exact hb⟩

theorem Sound.returns (h : m.Sound O) (hs : m.Settled) (result : Except FileError Unit) :
    (m.returns result).Sound O := ⟨h.offered, h.kept, h.archived, hs⟩

/-- An event that is on disk counts as appended. -/
theorem Sound.succeeds (h : m.Sound O) (he : m.disk.spool.Holds e)
    (hs : ∀ f, m.disk.spool.Holds f → f = e ∨ f ∈ m.appended ∨ f ∈ m.interrupted) :
    { m.returns (.ok ()) with appended := e :: m.appended }.Sound O := by
  refine ⟨h.offered, fun f hf => ?_, h.archived, fun f hf => ?_⟩
  · obtain rfl | hf := List.mem_cons.mp hf
    · exact he
    · exact h.kept f hf
  · obtain rfl | hf := hs f hf
    · exact .inl List.mem_cons_self
    · exact hf.imp_left (List.mem_cons_of_mem e)

/-- An event found under the sequence is the one appended, or ends the `Append`. -/
theorem Sound.compare (h : m.Sound O) (hs : m.Settled) {old : Event}
    (hold : m.disk.spool.Holds old) :
    (m.appendTo e (m.disk, .inr (Disk.compare old e))).Sound O := by
  unfold Disk.compare require
  split
  · rename_i heq
    subst heq
    exact h.succeeds hold fun f hf => .inr (hs f hf)
  · exact h.returns hs _

/-- The files `Read` looks for stay the same. -/
theorem Sound.appending (h : m.Sound O) (d : Disk) (hd : d.spool = m.disk.spool) {op : AppendOp}
    (ho : O e) (hb : m.BeforeAppend e op) : (m.appendTo e (d, .inl op)).Sound O := by
  obtain ⟨spool, stages, ackStage⟩ := d
  obtain rfl : spool = m.disk.spool := hd
  exact ⟨h.offered, h.kept, h.archived, ho, by cases op <;> exact hb⟩

theorem Sound.acking (h : m.Sound O) (d : Disk) (hd : d.spool = m.disk.spool) {op : AckOp}
    (hs : m.Settled) (hb : m.BeforeAck n op) : (m.ackTo n (d, .inl op)).Sound O := by
  obtain ⟨spool, stages, ackStage⟩ := d
  obtain rfl : spool = m.disk.spool := hd
  exact ⟨h.offered, h.kept, h.archived, hs, by cases op <;> exact hb⟩

theorem Sound.append {op : AppendOp} (h : m.Sound O) (hjob : m.job = some (.append e op)) :
    (m.appendTo e (m.disk.append m.pid e op)).Sound O := by
  have hb := h.before
  rw [hjob] at hb
  obtain ⟨ho, hb⟩ := hb
  cases op with
  | readLive =>
    simp only [Disk.append]
    split
    · rename_i old hold
      exact h.compare hb (.inl (Table.find?_eq_some.mp hold).1)
    · rename_i hnone
      exact h.appending m.disk rfl ho ⟨hb, Table.find?_eq_none.mp hnone⟩
  | readArchived =>
    simp only [Disk.append]
    split
    · rename_i old hold
      exact h.compare hb.1 (.inr (Table.find?_eq_some.mp hold).1)
    · rename_i hnone
      refine h.appending m.disk rfl ho ⟨hb.1, ?_⟩
      rintro f (hf | hf)
      · exact hb.2 f hf
      · exact Table.find?_eq_none.mp hnone f hf
  | create =>
    simp only [Disk.append]
    split
    · exact h.returns hb.1 _
    · exact h.appending { m.disk with stages := (e.sequence, m.pid) :: m.disk.stages } rfl ho hb
  | write => exact h.appending m.disk rfl ho hb
  | sync => exact h.appending m.disk rfl ho hb
  | close => exact h.appending m.disk rfl ho hb
  | link =>
    obtain ⟨events, hi, -⟩ := Table.insert?_isSome fun f hf => hb.2 f (.inl hf)
    simp only [Disk.append, hi]
    have hholds : ∀ f, ({ m.disk.spool with events := events } : Spool).Holds f ↔
        m.disk.spool.Holds f ∨ f = e := by
      intro f
      simp only [Spool.Holds, Table.mem_insert hi]
      tauto
    refine ⟨fun f hf => ?_, fun f hf => (hholds f).mpr (.inl (h.kept f hf)), h.archived, ho,
      (hholds e).mpr (.inr rfl), fun f hf => ?_⟩
    · obtain hf | rfl := (hholds f).mp hf
      · exact h.offered f hf
      · exact ho
    · obtain hf | rfl := (hholds f).mp hf
      · exact .inr (hb.1 f hf)
      · exact .inl rfl
  | compare => exact hb.elim
  | remove => exact h.appending (m.disk.unstage e.sequence m.pid) rfl ho hb
  | syncDir => exact h.succeeds hb.1 hb.2

/-- A file that is archived was on disk before. -/
theorem holds_archive {spool : Spool} {archive : Table Event.sequence} {f : Event}
    (hf : spool.Holds f)
    (hi : spool.archive.insert? f = some archive) (g : Event) :
    ({ spool with archive := archive } : Spool).Holds g ↔ spool.Holds g := by
  simp only [Spool.Holds, Table.mem_insert hi]
  constructor
  · rintro (hg | hg | rfl)
    · exact .inl hg
    · exact .inr hg
    · exact hf
  · exact Or.imp_right .inl

/-- A file that is archived stays on disk there. -/
theorem holds_unlink {spool : Spool} {f : Event} (hf : f ∈ spool.archive)
    (hapart : ∀ g, spool.Holds g → g.sequence = f.sequence → g = f) (g : Event) :
    (spool.unlink f).Holds g ↔ spool.Holds g := by
  simp only [Spool.Holds, Spool.unlink, Table.mem_delete, decide_eq_false_iff_not]
  constructor
  · exact Or.imp_left And.left
  · rintro (hg | hg)
    · by_cases heq : g.sequence = f.sequence
      · right
        rw [hapart g (.inl hg) heq]
        exact hf
      · exact .inl ⟨hg, heq⟩
    · exact .inr hg

theorem Sound.ackLink {todo archived : List Event} (h : m.Sound O) (hs : m.Settled)
    (hb : m.BeforeAck n (.link todo archived)) :
    (m.ackTo n (m.disk.ackThrough n (.link todo archived))).Sound O := by
  obtain ⟨hacked, htodo, harchived⟩ := hb
  cases todo with
  | nil => exact h.acking m.disk rfl hs harchived
  | cons f todo =>
    simp only [Disk.ackThrough]
    split
    · rename_i spool hlink
      obtain ⟨hf, hfn⟩ := htodo f List.mem_cons_self
      have hrest : ∀ g ∈ todo, m.disk.spool.Holds g ∧ g.sequence ≤ n :=
        fun g hg => htodo g (List.mem_cons_of_mem f hg)
      obtain ⟨rfl, hmem⟩ | ⟨archive, hi, rfl⟩ := Spool.link_cases hlink
      · refine h.acking m.disk rfl hs ⟨hacked, hrest, fun g hg => ?_⟩
        obtain hg | hg := List.mem_append.mp hg
        · exact harchived g hg
        · rwa [List.mem_singleton.mp hg]
      · have hholds := holds_archive hf hi
        refine ⟨fun g hg => h.offered g ((hholds g).mp hg),
          fun g hg => (hholds g).mpr (h.kept g hg), fun g hg => ?_,
          fun g hg => hs g ((hholds g).mp hg), hacked,
          fun g hg => ⟨(hholds g).mpr (hrest g hg).1, (hrest g hg).2⟩, fun g hg => ?_⟩
        · obtain hg | rfl := (Table.mem_insert hi).mp hg
          · exact h.archived g hg
          · exact hfn.trans_eq hacked.symm
        · refine (Table.mem_insert hi).mpr ?_
          exact (List.mem_append.mp hg).imp (harchived g) List.mem_singleton.mp
    · exact h.returns hs _

theorem Sound.ackUnlink {todo : List Event}
    (hapart : ∀ e f, O e → O f → e.sequence = f.sequence → e = f) (h : m.Sound O)
    (hs : m.Settled) (hb : m.BeforeAck n (.unlink todo)) :
    (m.ackTo n (m.disk.ackThrough n (.unlink todo))).Sound O := by
  cases todo with
  | nil => exact h.acking m.disk rfl hs trivial
  | cons f todo =>
    have hf : f ∈ m.disk.spool.archive := hb f List.mem_cons_self
    have hholds := holds_unlink hf fun g hg =>
      hapart g f (h.offered g hg) (h.offered f (.inr hf))
    exact ⟨fun g hg => h.offered g ((hholds g).mp hg),
      fun g hg => (hholds g).mpr (h.kept g hg), h.archived,
      fun g hg => hs g ((hholds g).mp hg), fun g hg => hb g (List.mem_cons_of_mem f hg)⟩

/-- Archived files keep what was on disk there. -/
theorem Sound.ack {op : AckOp} (hapart : ∀ e f, O e → O f → e.sequence = f.sequence → e = f)
    (h : m.Sound O) (hjob : m.job = some (.ackThrough n op)) :
    (m.ackTo n (m.disk.ackThrough n op)).Sound O := by
  have hb := h.before
  rw [hjob] at hb
  obtain ⟨hs, hb⟩ := hb
  cases op with
  | readAck =>
    simp only [Disk.ackThrough]
    split
    · exact h.returns hs _
    · rename_i hle
      exact h.acking m.disk rfl hs (not_lt.mp hle)
  | removeStage => exact h.acking { m.disk with ackStage := false } rfl hs hb
  | create =>
    simp only [Disk.ackThrough]
    split
    · exact h.returns hs _
    · exact h.acking { m.disk with ackStage := true } rfl hs hb
  | write => exact h.acking m.disk rfl hs hb
  | sync => exact h.acking m.disk rfl hs hb
  | close => exact h.acking m.disk rfl hs hb
  | rename =>
    exact ⟨h.offered, h.kept, fun f hf => (h.archived f hf).trans hb, hs, rfl⟩
  | syncDir => exact h.acking m.disk rfl hs hb
  | openArchive => exact h.acking m.disk rfl hs hb
  | glob =>
    refine h.acking m.disk rfl hs ⟨hb, fun f hf => ?_, fun _ hf => (nomatch hf)⟩
    obtain ⟨hm, hle⟩ := List.mem_filter.mp hf
    exact ⟨.inl hm, by simpa using hle⟩
  | link todo archived => exact h.ackLink hs hb
  | syncArchive todo => exact h.acking m.disk rfl hs hb
  | unlink todo => exact h.ackUnlink hapart hs hb
  | syncSpool => exact h.returns hs _

/-- The events of an interrupted `Append` may be on disk. -/
theorem Sound.settled (h : m.Sound O) (f : Event) (hf : m.disk.spool.Holds f) :
    f ∈ m.appended ∨ f ∈ m.interrupted ∨ m.inFlight = some f := by
  have hb := h.before
  unfold inFlight
  split
  · rename_i e op hjob
    rw [hjob] at hb
    cases op with
    | compare => exact hb.2.elim
    | remove | syncDir =>
      obtain rfl | hf := hb.2.2 f hf
      · exact .inr (.inr rfl)
      · exact hf.imp_right .inl
    | readLive => exact (hb.2 f hf).imp_right .inl
    | _ => exact (hb.2.1 f hf).imp_right .inl
  · rename_i hjob
    have hs : m.Settled := by
      cases hj : m.job with
      | none =>
        rw [hj] at hb
        exact hb
      | some job =>
        cases job with
        | append e op => exact absurd hj (hjob e op)
        | ackThrough n op =>
          rw [hj] at hb
          exact hb.1
    exact (hs f hf).imp_right .inl

theorem Sound.step (hapart : ∀ e f, O e → O f → e.sequence = f.sequence → e = f)
    (h : m.Sound O) {a : FileAction} (ha : a ≠ .fail)
    (ho : ∀ e, a = .append e → validEvent e → O e) :
    (m.step a).Sound O := by
  cases a with
  | append e =>
    simp only [Process.step]
    split
    · exact h
    · rename_i hidle
      have hs : m.Settled := by
        have hb := h.before
        rw [hidle] at hb
        exact hb
      split
      · rename_i hvalid
        exact h.next ⟨ho e rfl hvalid, hs⟩
      · exact h.returns hs _
  | ackThrough n =>
    simp only [Process.step]
    split
    · exact h
    · rename_i hidle
      have hs : m.Settled := by
        have hb := h.before
        rw [hidle] at hb
        exact hb
      split
      · exact h.returns hs _
      · exact h.next ⟨hs, trivial⟩
  | advance =>
    simp only [Process.step]
    split
    · exact h
    · rename_i hjob
      exact h.append hjob
    · rename_i hjob
      exact h.ack hapart hjob
  | fail => exact absurd rfl ha
  | crash pid =>
    simp only [Process.step]
    split
    · exact h
    · refine ⟨h.offered, h.kept, h.archived, fun f hf => ?_⟩
      obtain hm | hm | hm := h.settled f hf
      · exact .inl hm
      · exact .inr (List.mem_append_right _ hm)
      · rw [hm]
        exact .inr List.mem_cons_self

theorem Sound.run (hapart : ∀ e f, O e → O f → e.sequence = f.sequence → e = f) (h : m.Sound O)
    {actions : List FileAction} (hio : .fail ∉ actions)
    (ho : ∀ e, .append e ∈ actions → validEvent e → O e) : (m.run actions).Sound O := by
  induction actions generalizing m with
  | nil => exact h
  | cons a actions ih =>
    refine ih (h.step hapart (fun ha => hio (ha ▸ List.mem_cons_self)) fun e ha => ?_)
      (fun hf => hio (List.mem_cons_of_mem a hf)) fun e he => ho e (List.mem_cons_of_mem a he)
    exact ho e (ha ▸ List.mem_cons_self)

/-! ## The cursor -/

theorem Sound.acked_step (h : m.Sound O) {a : FileAction} :
    m.disk.spool.acked ≤ (m.step a).disk.spool.acked := by
  have happend : ∀ e op, (m.disk.append m.pid e op).1.spool.acked = m.disk.spool.acked := by
    intro e op
    cases op <;> simp only [Disk.append]
    all_goals first | rfl | (split <;> first | rfl | (split <;> rfl))
  have hto : ∀ e (r : Disk × Next AppendOp), (m.appendTo e r).disk = r.1 := by
    rintro e ⟨d, op | ⟨err | u⟩⟩ <;> rfl
  have htoAck : ∀ n (r : Disk × Next AckOp), (m.ackTo n r).disk = r.1 := by
    rintro n ⟨d, op | result⟩ <;> rfl
  cases a with
  | append e =>
    simp only [Process.step]
    split
    · exact le_rfl
    · split <;> exact le_rfl
  | ackThrough n =>
    simp only [Process.step]
    split
    · exact le_rfl
    · split <;> exact le_rfl
  | advance =>
    simp only [Process.step]
    split
    · exact le_rfl
    · rw [hto, happend]
    · rename_i n op hjob
      have hb := h.before
      rw [hjob] at hb
      rw [htoAck]
      cases op with
      | rename => exact hb.2
      | link todo archived =>
        cases todo with
        | nil => exact le_rfl
        | cons f todo =>
          simp only [Disk.ackThrough]
          split
          · rename_i hlink
            obtain ⟨rfl, -⟩ | ⟨archive, -, rfl⟩ := Spool.link_cases hlink <;> exact le_rfl
          · exact le_rfl
      | unlink todo => cases todo <;> exact le_rfl
      | readAck | create =>
        simp only [Disk.ackThrough]
        split <;> exact le_rfl
      | _ => exact le_rfl
  | fail =>
    simp only [Process.step]
    split
    · exact le_rfl
    · rw [hto]
    · rw [htoAck]
  | crash pid =>
    simp only [Process.step]
    split <;> exact le_rfl

theorem Sound.acked_run (hapart : ∀ e f, O e → O f → e.sequence = f.sequence → e = f)
    (h : m.Sound O) {actions : List FileAction} (hio : .fail ∉ actions)
    (ho : ∀ e, .append e ∈ actions → validEvent e → O e) :
    m.disk.spool.acked ≤ (m.run actions).disk.spool.acked := by
  induction actions generalizing m with
  | nil => exact le_rfl
  | cons a actions ih =>
    refine h.acked_step.trans (ih (h.step hapart (fun ha => hio (ha ▸ List.mem_cons_self)) ?_)
      (fun hf => hio (List.mem_cons_of_mem a hf)) fun e he => ho e (List.mem_cons_of_mem a he))
    exact fun e ha => ho e (ha ▸ List.mem_cons_self)

end Process
end

/-- However often the process dies, the events whose `Append` returned success are
read, perhaps with those a crash cut off, each once and in the order of their
sequences; the cursor never falls, and what the publisher reads is what lies above it. -/
theorem spool_survives_crashes (attemptId segmentId : String) (pid : Nat)
    {actions : List FileAction} (hio : .fail ∉ actions)
    (hsize : ∀ e, .append e ∈ actions → Ipc.recordSize e ≤ maxRecord)
    (hapart : ∀ e f, .append e ∈ actions → .append f ∈ actions → e.sequence = f.sequence →
      e = f) :
    let m := (Process.fresh attemptId segmentId pid).run actions
    (∃ evs, m.disk.read = .ok evs ∧ evs.Pairwise (fun e f => e.sequence < f.sequence) ∧
      (∀ e ∈ m.appended, e ∈ evs) ∧
      (∀ e ∈ evs, e ∈ m.appended ∨ e ∈ m.interrupted ∨ m.inFlight = some e) ∧
      m.disk.readAfter m.disk.spool.acked =
        .ok (evs.filter (fun e => m.disk.spool.acked < e.sequence))) ∧
    ∀ before, before <+: actions →
      ((Process.fresh attemptId segmentId pid).run before).disk.spool.acked ≤
        m.disk.spool.acked := by
  intro m
  let O : Event → Prop := fun e => .append e ∈ actions ∧ validEvent e
  have hO : ∀ e f, O e → O f → e.sequence = f.sequence → e = f :=
    fun e f he hf => hapart e f he.1 hf.1
  have hm : m.Sound O := Process.Sound.fresh.run hO hio fun e he hv => ⟨he, hv⟩
  constructor
  · have hsmall : ∀ e, m.disk.spool.Holds e → Ipc.recordSize e ≤ maxRecord :=
      fun e he => hsize e (hm.offered e he).1
    have hagree : ∀ e f, m.disk.spool.Holds e → m.disk.spool.Holds f →
        e.sequence = f.sequence → e = f :=
      fun e f he hf => hO e f (hm.offered e he) (hm.offered f hf)
    obtain ⟨evs, hread, hsorted, hmem⟩ := m.disk.readEvents_ok hsmall hagree 0 true
    obtain ⟨new, hafter, hnew, hmemNew⟩ :=
      m.disk.readEvents_ok hsmall hagree m.disk.spool.acked false
    have hholds : ∀ e, e ∈ evs ↔ m.disk.spool.Holds e := by
      intro e
      rw [hmem]
      constructor
      · rintro ⟨-, he | ⟨-, he⟩⟩
        · exact .inl he
        · exact .inr he
      · intro he
        refine ⟨(hm.offered e he).2.2.1, ?_⟩
        exact he.imp_right fun he => ⟨rfl, he⟩
    refine ⟨evs, hread, hsorted, fun e he => (hholds e).mpr (hm.kept e he),
      fun e he => hm.settled e ((hholds e).mp he), ?_⟩
    have hsame : new = evs.filter (fun e => m.disk.spool.acked < e.sequence) := by
      have hirrefl : Std.Irrefl (fun e f : Event => e.sequence < f.sequence) :=
        ⟨fun e => lt_irrefl e.sequence⟩
      have hanti : Std.Antisymm (fun e f : Event => e.sequence < f.sequence) :=
        ⟨fun e f hef hfe => absurd hef (not_lt.mpr hfe.le)⟩
      refine List.Pairwise.eq_of_mem_iff hnew (hsorted.filter _) fun e => ?_
      rw [hmemNew, List.mem_filter, hholds, decide_eq_true_eq]
      constructor
      · rintro ⟨hlt, he | ⟨hx, -⟩⟩
        · exact ⟨.inl he, hlt⟩
        · cases hx
      · rintro ⟨he | he, hlt⟩
        · exact ⟨hlt, .inl he⟩
        · exact absurd hlt (not_lt.mpr (hm.archived e he))
    rw [← hsame]
    exact hafter
  · rintro before ⟨rest, rfl⟩
    have hbefore : ((Process.fresh attemptId segmentId pid).run before).Sound O :=
      Process.Sound.fresh.run hO (fun hf => hio (List.mem_append_left rest hf))
        fun e he hv => ⟨List.mem_append_left rest he, hv⟩
    have hrun : m = ((Process.fresh attemptId segmentId pid).run before).run rest :=
      Library.run_append
    rw [hrun]
    exact hbefore.acked_run hO (fun hf => hio (List.mem_append_right before hf))
      fun e he hv => ⟨List.mem_append_right before he, hv⟩

/-! ## A run -/

def record (n : Int) : Event := { version := 1, attemptId := "a", segmentId := "g", sequence := n }

/-- The second event is linked when its process dies; another one archives the first. -/
def crashing : List FileAction :=
  FileAction.append (record 1) :: List.replicate 9 .advance ++ FileAction.append (record 2) ::
    List.replicate 7 .advance ++ FileAction.crash 2 :: .ackThrough 1 :: List.replicate 12 .advance

theorem linked_event_survives : ∃ evs,
    ((Process.fresh "a" "g" 1).run crashing).disk.read = .ok evs ∧ record 1 ∈ evs ∧
      ∀ e ∈ evs, e = record 1 ∨ e = record 2 := by
  have hevent : ∀ e, .append e ∈ crashing → e = record 1 ∨ e = record 2 := by
    intro e he
    simpa [crashing] using he
  have hfacts : ((Process.fresh "a" "g" 1).run crashing).appended = [record 1] ∧
      ((Process.fresh "a" "g" 1).run crashing).interrupted = [record 2] ∧
      ((Process.fresh "a" "g" 1).run crashing).inFlight = none := by decide +kernel
  have hio : FileAction.fail ∉ crashing := by decide +kernel
  obtain ⟨⟨evs, hread, -, hkept, hknown, -⟩, -⟩ := spool_survives_crashes "a" "g" 1 hio
    (fun e he => by obtain rfl | rfl := hevent e he <;> decide +kernel)
    (fun e f he hf heq => by
      obtain rfl | rfl := hevent e he <;> obtain rfl | rfl := hevent f hf <;>
        first | rfl | (cases heq))
  obtain ⟨happended, hinterrupted, hflight⟩ := hfacts
  rw [happended] at hkept hknown
  rw [hinterrupted, hflight] at hknown
  refine ⟨evs, hread, hkept _ List.mem_cons_self, fun e he => ?_⟩
  obtain he | he | he := hknown e he
  · exact .inl (List.mem_singleton.mp he)
  · exact .inr (List.mem_singleton.mp he)
  · cases he

end Orchestrator.Host.Files
