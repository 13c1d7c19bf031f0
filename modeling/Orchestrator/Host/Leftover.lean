import Orchestrator.Host.Files

/-!
# What a failed `Append` leaves

An `Append` that gives up before its stage exists leaves nothing. Later it leaves
the stage, which no other `Append` of its sequence by the same process gets past, or
the event itself.
-/
namespace Orchestrator.Host.Files
open Library

namespace Process

/-- One `Append`, whose operations succeed or fail in turn. -/
def call (m : Process) (e : Event) (outcomes : List Bool) : Process :=
  m.run (.append e :: outcomes.map fun ok => if ok then .advance else .fail)

/-- `Append` returns success when no operation fails. -/
def Accepts (m : Process) (e : Event) : Prop :=
  ∃ k, (m.call e (List.replicate k true)).job = none ∧
    (m.call e (List.replicate k true)).returned = some (.ok ())

end Process

/-- A reader of the whole spool or of its end finds the event. -/
def Disk.Visible (d : Disk) (e : Event) : Prop :=
  (∃ evs, d.read = .ok evs ∧ e ∈ evs) ∨ ∃ after evs, d.readAfter after = .ok evs ∧ e ∈ evs

/-- Neither an event of the sequence is on disk nor a stage the process has for it. -/
def Disk.Free (d : Disk) (sequence : Int) (pid : Nat) : Prop :=
  (∀ f, d.spool.Holds f → f.sequence ≠ sequence) ∧ (sequence, pid) ∉ d.stages

/-- No event of the sequence has become visible, and every one can be appended: to
this spool, or to another one where the sequence is free. -/
def ReservesNothing (m m' : Process) (sequence : Int) : Prop :=
  (∀ f, f.sequence = sequence → m'.disk.Visible f → m.disk.Visible f) ∧
    ∀ d, d = m'.disk ∨ d.Free sequence m'.pid → ∀ f, validEvent f → f.sequence = sequence →
      { m' with disk := d }.Accepts f

/-! ## Calls -/

section
variable {m : Process} {e f : Event} {d : Disk} {outcomes : List Bool} {j k : Nat}

namespace Process

theorem run_idle (h : m.job = none) :
    m.run (outcomes.map fun ok => if ok then .advance else .fail) = m := by
  induction outcomes with
  | nil => rfl
  | cons ok outcomes ih =>
    have hstep : m.step (if ok then .advance else .fail) = m := by
      cases ok <;> simp only [step, h, Bool.false_eq_true, if_false, if_true]
    rw [List.map_cons, run, Library.run_cons, hstep]
    exact ih

theorem call_append (outcomes more : List Bool) : m.call e (outcomes ++ more) =
    (m.call e outcomes).run (more.map fun ok => if ok then .advance else .fail) := by
  simp only [call, run, List.map_append, Library.run_cons, Library.run_append]

/-- What an `Append` returned, it returns after any further operations. -/
theorem call_returned (h : (m.call e outcomes).job = none) (more : List Bool) :
    m.call e (outcomes ++ more) = m.call e outcomes := by
  rw [call_append, run_idle h]

theorem not_accepts (err : FileError) (h : (m.call e (List.replicate j true)).job = none)
    (herr : (m.call e (List.replicate j true)).returned = some (.error err)) : ¬ m.Accepts e := by
  rintro ⟨k, hk, hok⟩
  have hsame : m.call e (List.replicate j true) = m.call e (List.replicate k true) := by
    obtain hle | hle := Nat.le_total j k
    · obtain ⟨n, rfl⟩ := Nat.exists_eq_add_of_le hle
      rw [List.replicate_add, call_returned h]
    · obtain ⟨n, rfl⟩ := Nat.exists_eq_add_of_le hle
      rw [List.replicate_add, call_returned hk]
  rw [hsame, hok] at herr
  cases herr

theorem accepts_free (hidle : m.job = none) (hfree : m.disk.Free e.sequence m.pid)
    (hvalid : validEvent e) : m.Accepts e := by
  have hlive : m.disk.spool.events.find? e.sequence = none :=
    Table.find?_eq_none.mpr fun f hf => hfree.1 f (.inl hf)
  have harchived : m.disk.spool.archive.find? e.sequence = none :=
    Table.find?_eq_none.mpr fun f hf => hfree.1 f (.inr hf)
  obtain ⟨events, hi, -⟩ := Table.insert?_isSome fun f hf => hfree.1 f (.inl hf)
  refine ⟨9, ?_⟩
  simp only [call, run, List.replicate, List.map_cons, List.map_nil, Library.run_cons,
    Library.run_nil, step, hidle, hvalid, if_true, Disk.append, hlive, harchived, hfree.2, hi,
    if_false, appendTo, returns, and_self]

/-- An event that is found under the sequence keeps every other one out. -/
theorem not_accepts_found {old : Event} (hidle : m.job = none) (hvalid : validEvent e)
    (hold : (m.disk.spool.events.find? e.sequence).or (m.disk.spool.archive.find? e.sequence) =
      some old) (hne : old ≠ e) : ¬ m.Accepts e := by
  obtain hlive | ⟨hlive, harchived⟩ := Option.or_eq_some_iff.mp hold
  · refine not_accepts (j := 1) .conflict ?_ ?_ <;>
      simp only [call, run, List.replicate, List.map_cons, List.map_nil, Library.run_cons,
        Library.run_nil, step, hidle, hvalid, if_true, Disk.append, hlive, Disk.compare,
        require_neg hne, appendTo, returns]
  · refine not_accepts (j := 2) .conflict ?_ ?_ <;>
      simp only [call, run, List.replicate, List.map_cons, List.map_nil, Library.run_cons,
        Library.run_nil, step, hidle, hvalid, if_true, Disk.append, hlive, harchived, Disk.compare,
        require_neg hne, appendTo, returns]

/-- So does a stage. -/
theorem not_accepts_staged (hidle : m.job = none) (hvalid : validEvent e)
    (hnone : ∀ f, m.disk.spool.Holds f → f.sequence ≠ e.sequence)
    (hstage : (e.sequence, m.pid) ∈ m.disk.stages) : ¬ m.Accepts e := by
  have hlive : m.disk.spool.events.find? e.sequence = none :=
    Table.find?_eq_none.mpr fun f hf => hnone f (.inl hf)
  have harchived : m.disk.spool.archive.find? e.sequence = none :=
    Table.find?_eq_none.mpr fun f hf => hnone f (.inr hf)
  refine not_accepts (j := 3) .conflict ?_ ?_ <;>
    simp only [call, run, List.replicate, List.map_cons, List.map_nil, Library.run_cons,
      Library.run_nil, step, hidle, hvalid, if_true, Disk.append, hlive, harchived, hstage,
      appendTo, returns]

/-- Where every event of a sequence can be appended, the sequence is free. -/
theorem free_of_accepts {n : Int} (hidle : m.job = none) (hn : 1 ≤ n)
    (h : ∀ f, validEvent f → f.sequence = n → m.Accepts f) : m.disk.Free n m.pid := by
  let plain (hash : String) : Event :=
    { version := 1, sequence := n, attemptId := "a", segmentId := "g", payloadHash := hash }
  have hplain : ∀ hash, validEvent (plain hash) := fun hash =>
    ⟨rfl, hn, by simp only [plain]; decide, by simp only [plain]; decide⟩
  have hnone : ∀ f, m.disk.spool.Holds f → f.sequence ≠ n := by
    intro f hf heq
    have hsome : ∃ old, (m.disk.spool.events.find? n).or (m.disk.spool.archive.find? n) =
        some old := by
      rw [← Option.isSome_iff_exists, Option.isSome_or, Bool.or_eq_true]
      subst heq
      refine hf.imp (fun hf => ?_) fun hf => ?_
      · rw [Table.find?_of_mem hf]; rfl
      · rw [Table.find?_of_mem hf]; rfl
    obtain ⟨old, hold⟩ := hsome
    -- one of two events differs from what is found
    by_cases hx : old = plain "x"
    · refine not_accepts_found hidle (hplain "y") hold ?_ (h _ (hplain "y") rfl)
      rw [hx]
      intro hxy
      have hhash : "x" = "y" := congrArg Event.payloadHash hxy
      exact absurd hhash (by decide)
    · exact not_accepts_found hidle (hplain "x") hold hx (h _ (hplain "x") rfl)
  refine ⟨hnone, fun hstage => ?_⟩
  exact not_accepts_staged hidle (hplain "x") hnone hstage (h _ (hplain "x") rfl)

/-! ## Past the stage -/

/-- The sequence is taken, or will be when the `Append` returns. -/
def StuckAt (m : Process) (e : Event) : AppendOp → Prop
  | .readLive | .readArchived | .create => ¬ m.disk.Free e.sequence m.pid
  | .write | .sync | .close | .link => (e.sequence, m.pid) ∈ m.disk.stages
  | .compare | .remove | .syncDir => ∃ f ∈ m.disk.spool.events, f.sequence = e.sequence

def Stuck (m : Process) (e : Event) : Prop :=
  match m.job with
  | none => ¬ m.disk.Free e.sequence m.pid
  | some (.append f op) => f = e ∧ m.StuckAt e op
  | some (.ackThrough _ _) => False

theorem not_free_of_stage (h : (e.sequence, m.pid) ∈ m.disk.stages) :
    ¬ m.disk.Free e.sequence m.pid := fun hfree => hfree.2 h

theorem not_free_of_live (h : ∃ f ∈ d.spool.events, f.sequence = e.sequence) (pid : Nat) :
    ¬ d.Free e.sequence pid := by
  obtain ⟨f, hf, heq⟩ := h
  exact fun hfree => hfree.1 f (.inl hf) heq

theorem not_free_of_op {op : AppendOp} (h : m.StuckAt e op) : ¬ m.disk.Free e.sequence m.pid := by
  cases op with
  | readLive | readArchived | create => exact h
  | write | sync | close | link => exact not_free_of_stage h
  | compare | remove | syncDir => exact not_free_of_live h m.pid

/-- An `Append` that returns leaves the sequence taken if it is. -/
theorem stuck_returns (d : Disk) (h : ¬ d.Free e.sequence m.pid) (result : Except FileError Unit) :
    (m.appendTo e (d, .inr result)).Stuck e := by
  cases result <;> exact h

theorem Stuck.append {op : AppendOp} (h : m.StuckAt e op) :
    (m.appendTo e (m.disk.append m.pid e op)).Stuck e := by
  have hfree := not_free_of_op h
  cases op with
  | readLive =>
    simp only [Disk.append]
    split
    · exact stuck_returns _ hfree _
    · exact ⟨rfl, h⟩
  | readArchived =>
    simp only [Disk.append]
    split
    · exact stuck_returns _ hfree _
    · exact ⟨rfl, h⟩
  | create =>
    simp only [Disk.append]
    split
    · exact hfree
    · exact ⟨rfl, List.mem_cons_self⟩
  | write | sync | close => exact ⟨rfl, h⟩
  | link =>
    simp only [Disk.append]
    split
    · rename_i events hi
      exact ⟨rfl, e, (Table.mem_insert hi).mpr (.inr rfl), rfl⟩
    · rename_i hnone
      refine ⟨rfl, ?_⟩
      by_contra hno
      obtain ⟨events, hi, -⟩ := Table.insert?_isSome (t := m.disk.spool.events) (a := e)
        fun f hf heq => hno ⟨f, hf, heq⟩
      rw [hi] at hnone
      cases hnone
  | compare =>
    simp only [Disk.append]
    split
    · split
      · exact not_free_of_live (d := m.disk.unstage e.sequence m.pid) h m.pid
      · exact hfree
    · exact hfree
  | remove => exact ⟨rfl, h⟩
  | syncDir => exact hfree

theorem Stuck.fail {op : AppendOp} (h : m.StuckAt e op) :
    (m.appendTo e (m.disk, appendFails op)).Stuck e := by
  cases op with
  | remove => exact ⟨rfl, h⟩
  | _ => exact stuck_returns m.disk (not_free_of_op h) _

theorem Stuck.run (h : m.Stuck e) (outcomes : List Bool) :
    (m.run (outcomes.map fun ok => if ok then .advance else .fail)).Stuck e := by
  induction outcomes generalizing m with
  | nil => exact h
  | cons ok outcomes ih =>
    refine ih (m := m.step (if ok then .advance else .fail)) ?_
    unfold Stuck at h
    split at h
    · rename_i hjob
      have hstep : m.step (if ok then .advance else .fail) = m := by
        cases ok <;> simp only [step, hjob, Bool.false_eq_true, if_false, if_true]
      rw [hstep]
      unfold Stuck
      rw [hjob]
      exact h
    · rename_i f op hjob
      obtain ⟨rfl, h⟩ := h
      cases ok with
      | true => simpa only [step, hjob, if_true] using Stuck.append h
      | false => simpa only [step, hjob, Bool.false_eq_true, if_false] using Stuck.fail h
    · exact h.elim

end Process

/-! ## Exactly when nothing is left -/

/-- One of the first three operations fails. -/
theorem early_iff (outcomes : List Bool) : false ∈ outcomes.take 3 ↔
    (∃ more, outcomes = [false] ++ more) ∨ (∃ more, outcomes = [true, false] ++ more) ∨
      ∃ more, outcomes = [true, true, false] ++ more := by
  rcases outcomes with - | ⟨_ | _, - | ⟨_ | _, - | ⟨_ | _, more⟩⟩⟩ <;> simp

/-- None of the first three operations fails. -/
theorem late_cases {outcomes : List Bool} (h : false ∉ outcomes.take 3) :
    outcomes ∈ [[], [true], [true, true]] ∨ ∃ more, outcomes = [true, true, true] ++ more := by
  rcases outcomes with - | ⟨_ | _, - | ⟨_ | _, - | ⟨_ | _, more⟩⟩⟩ <;> simp at h ⊢

/-- A call that finds the sequence free, and fails before the stage exists, changes nothing. -/
theorem Process.call_early (hidle : m.job = none) (hvalid : validEvent e)
    (hfree : m.disk.Free e.sequence m.pid) (hfail : false ∈ outcomes.take 3) :
    (m.call e outcomes).disk = m.disk ∧ (m.call e outcomes).pid = m.pid ∧
      (m.call e outcomes).job = none := by
  have hlive : m.disk.spool.events.find? e.sequence = none :=
    Table.find?_eq_none.mpr fun f hf => hfree.1 f (.inl hf)
  have harchived : m.disk.spool.archive.find? e.sequence = none :=
    Table.find?_eq_none.mpr fun f hf => hfree.1 f (.inr hf)
  have hgives : ∀ first more, first ∈ [[false], [true, false], [true, true, false]] →
      (m.call e (first ++ more)).disk = m.disk ∧ (m.call e (first ++ more)).pid = m.pid ∧
        (m.call e (first ++ more)).job = none := by
    intro first more hfirst
    have hback : (m.call e first).disk = m.disk ∧ (m.call e first).pid = m.pid ∧
        (m.call e first).job = none := by
      simp only [List.mem_cons, List.not_mem_nil, or_false] at hfirst
      obtain rfl | rfl | rfl := hfirst <;>
        simp only [call, run, List.map_cons, List.map_nil, Library.run_cons, Library.run_nil, step,
          hidle, hvalid, if_true, Bool.false_eq_true, if_false, Disk.append, hlive, harchived,
          appendFails, appendTo, returns, and_self]
    rw [call_returned hback.2.2]
    exact hback
  obtain ⟨more, rfl⟩ | ⟨more, rfl⟩ | ⟨more, rfl⟩ := (early_iff outcomes).mp hfail
  · exact hgives [false] more (by simp)
  · exact hgives [true, false] more (by simp)
  · exact hgives [true, true, false] more (by simp)

/-- Once the stage is made, or where the sequence was taken before, it stays taken. -/
theorem Process.call_late (hidle : m.job = none) (hvalid : validEvent e)
    (hback : (m.call e outcomes).job = none)
    (htaken : m.disk.Free e.sequence m.pid → false ∉ outcomes.take 3) :
    ¬ (m.call e outcomes).disk.Free e.sequence (m.call e outcomes).pid := by
  have hend : (m.call e outcomes).Stuck e →
      ¬ (m.call e outcomes).disk.Free e.sequence (m.call e outcomes).pid := by
    intro h
    unfold Stuck at h
    rw [hback] at h
    exact h
  by_cases hfree : m.disk.Free e.sequence m.pid
  · have hlive : m.disk.spool.events.find? e.sequence = none :=
      Table.find?_eq_none.mpr fun f hf => hfree.1 f (.inl hf)
    have harchived : m.disk.spool.archive.find? e.sequence = none :=
      Table.find?_eq_none.mpr fun f hf => hfree.1 f (.inr hf)
    have hopen : ∀ first ∈ [[], [true], [true, true]], (m.call e first).job ≠ none := by
      intro first hfirst
      simp only [List.mem_cons, List.not_mem_nil, or_false] at hfirst
      obtain rfl | rfl | rfl := hfirst <;>
        simp only [call, run, List.map_cons, List.map_nil, Library.run_cons, Library.run_nil, step,
          hidle, hvalid, if_true, Disk.append, hlive, harchived, appendTo, ne_eq, reduceCtorEq,
          not_false_eq_true]
    have hmade : (m.call e [true, true, true]).Stuck e := by
      simp only [call, run, List.map_cons, List.map_nil, Library.run_cons, Library.run_nil, step,
        hidle, hvalid, if_true, Disk.append, hlive, harchived, hfree.2, if_false, appendTo]
      exact ⟨rfl, List.mem_cons_self⟩
    obtain hmem | ⟨more, rfl⟩ := late_cases (htaken hfree)
    · exact absurd hback (hopen outcomes hmem)
    · apply hend
      rw [call_append]
      exact hmade.run more
  · apply hend
    have hbegin : (m.step (.append e)).Stuck e := by
      simp only [step, hidle, hvalid, if_true]
      exact ⟨rfl, hfree⟩
    exact hbegin.run outcomes

/-- An `Append` that has returned reserves nothing exactly when the sequence was free and
an operation failed before the stage was made. -/
theorem failed_append_iff (hidle : m.job = none) (hvalid : validEvent e)
    (hback : (m.call e outcomes).job = none) :
    ReservesNothing m (m.call e outcomes) e.sequence ↔
      m.disk.Free e.sequence m.pid ∧ false ∈ outcomes.take 3 := by
  constructor
  · rintro ⟨-, haccepts⟩
    have hfree : (m.call e outcomes).disk.Free e.sequence (m.call e outcomes).pid :=
      Process.free_of_accepts hback hvalid.2.1 (haccepts _ (.inl rfl))
    by_contra hno
    exact Process.call_late hidle hvalid hback (fun h hmem => hno ⟨h, hmem⟩) hfree
  · rintro ⟨hfree, hfail⟩
    obtain ⟨hdisk, hpid, -⟩ := Process.call_early hidle hvalid hfree hfail
    refine ⟨fun f _ hf => hdisk ▸ hf, fun d hd f hf heq => ?_⟩
    have hd : d.Free f.sequence (m.call e outcomes).pid := by
      rw [heq]
      obtain rfl | hd := hd
      · rw [hdisk, hpid]
        exact hfree
      · exact hd
    exact Process.accepts_free hback hd hf

end

/-! ## Runs -/

def firstEvent : Event :=
  { version := 1, attemptId := "a", segmentId := "g", sequence := 1, payloadHash := "x" }

/-- The stage cannot be created, and the event can be appended later. -/
theorem refused_stage_reserves_nothing :
    ReservesNothing (Process.fresh "a" "g" 1)
      ((Process.fresh "a" "g" 1).call firstEvent [true, true, false]) 1 := by
  have hnone : ∀ f, (Process.fresh "a" "g" 1).disk.spool.Holds f → f.sequence ≠ 1 := by
    rintro f (hf | hf)
    · exact absurd hf (Table.not_mem_empty f)
    · exact absurd hf (Table.not_mem_empty f)
  exact (failed_append_iff (e := firstEvent) rfl (by decide) (by decide +kernel)).mpr
    ⟨⟨hnone, by decide⟩, by decide⟩

/-- The stage cannot be written: the same event is refused ever after. -/
theorem failed_write_reserves :
    ((Process.fresh "a" "g" 1).call firstEvent [true, true, true, false]).returned =
        some (.error .io) ∧
      ¬ ReservesNothing (Process.fresh "a" "g" 1)
        ((Process.fresh "a" "g" 1).call firstEvent [true, true, true, false]) 1 := by
  refine ⟨by decide +kernel, fun h => ?_⟩
  refine Process.not_accepts (j := 3) .conflict ?_ ?_ (h.2 _ (.inl rfl) firstEvent (by decide) rfl)
  · decide +kernel
  · decide +kernel

end Orchestrator.Host.Files
