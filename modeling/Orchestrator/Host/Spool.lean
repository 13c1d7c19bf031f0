import Orchestrator.Contract
import Orchestrator.Library.Guarded
import Orchestrator.Library.Table
import Mathlib.Data.List.Sort

/-!
# Segment spools

The directory of one segment holds a file for each event, named by its sequence,
an archive of the acknowledged ones and the sequence acknowledged so far. What
the archive holds has been acknowledged; an interrupted `archiveThrough` leaves
two copies of an event.
-/
namespace Orchestrator.Host
open Library

inductive SpoolError where
  | invalidEvent | conflict | invalidAck | staleAck
  deriving DecidableEq, Repr

/-- An attempt's directory and a segment's in it. -/
abbrev Dir := String × String

structure Spool where
  attemptId : String
  segmentId : String
  events : Table Event.sequence := .empty _
  archive : Table Event.sequence := .empty _
  acked : Int := 0

namespace Spool

def dir (s : Spool) : Dir := (s.attemptId, s.segmentId)

/-- The event is on disk, archived or not. -/
def Holds (s : Spool) (e : Event) : Prop := e ∈ s.events ∨ e ∈ s.archive

/-- `Append`: a second copy must have the same content. -/
def append (s : Spool) (e : Event) : Except SpoolError Spool := do
  require (e.version = 1 ∧ 1 ≤ e.sequence ∧ e.attemptId ≠ "" ∧ e.segmentId ≠ "") .invalidEvent
  match (s.events.find? e.sequence).or (s.archive.find? e.sequence) with
  | some old => do
    require (old = e) .conflict
    .ok s
  | none => do
    let events ← expect (s.events.insert? e) .conflict
    .ok { s with events := events }

/-- The loop of `readEvents` over the files it found, where `check` looks at a file before its
event is compared. -/
def readFiles {ε : Type} (check : Event → Except ε Unit) (conflict : ε) :
    List Event → List Event → Except ε (List Event)
  | seen, [] => .ok seen
  | seen, e :: files => do
    check e
    match seen.find? (fun old => old.sequence = e.sequence) with
    | some old => if old = e then readFiles check conflict seen files else .error conflict
    | none => readFiles check conflict (seen ++ [e]) files

def bySequence (events : List Event) : List Event :=
  events.insertionSort (fun e f => e.sequence ≤ f.sequence)

/-- The files that `readEvents` reads. -/
def filesAfter (s : Spool) (after : Int) (history : Bool) : List Event :=
  (s.events.rows ++ if history then s.archive.rows else []).filter (fun e => after < e.sequence)

def readEvents (s : Spool) (after : Int) (history : Bool) : Except SpoolError (List Event) := do
  let found ← readFiles (fun _ => .ok ()) .conflict [] (s.filesAfter after history)
  .ok (bySequence found)

def read (s : Spool) : Except SpoolError (List Event) := s.readEvents 0 true

def readAfter (s : Spool) (after : Int) : Except SpoolError (List Event) :=
  s.readEvents after false

/-- `AckThrough` up to the new `ack.json`. -/
def writeAck (s : Spool) (sequence : Int) : Except SpoolError Spool := do
  require (0 ≤ sequence) .invalidAck
  require (s.acked ≤ sequence) .staleAck
  .ok { s with acked := sequence }

/-- The files `archiveThrough` moves. -/
def archivable (s : Spool) (sequence : Int) : List Event :=
  s.events.rows.filter (fun e => e.sequence ≤ sequence)

def link (s : Spool) (e : Event) : Except SpoolError Spool :=
  match s.archive.find? e.sequence with
  | some old => do
    require (old = e) .conflict
    .ok s
  | none => do
    let archive ← expect (s.archive.insert? e) .conflict
    .ok { s with archive := archive }

def unlink (s : Spool) (e : Event) : Spool :=
  { s with events := s.events.delete (fun f => f.sequence = e.sequence) }

section
variable {s s' : Spool} {e f : Event}

theorem append_cases (h : s.append e = .ok s') : (s' = s ∧ s.Holds e) ∨
    ((∀ f, s.Holds f → f.sequence ≠ e.sequence) ∧
      ∃ events, s.events.insert? e = some events ∧ s' = { s with events := events }) := by
  simp only [append, bind_ok_iff, require_ok, exists_const] at h
  obtain ⟨-, h⟩ := h
  split at h
  · rename_i old hold
    simp only [bind_ok_iff, require_ok, exists_const, Except.ok.injEq] at h
    obtain ⟨rfl, rfl⟩ := h
    refine .inl ⟨rfl, ?_⟩
    rcases Option.or_eq_some_iff.mp hold with hold | ⟨-, hold⟩
    · exact .inl (Table.find?_eq_some.mp hold).1
    · exact .inr (Table.find?_eq_some.mp hold).1
  · rename_i hnone
    simp only [bind_ok_iff, expect_ok, Except.ok.injEq] at h
    obtain ⟨events, hi, rfl⟩ := h
    obtain ⟨hlive, harchive⟩ := Option.or_eq_none_iff.mp hnone
    refine .inr ⟨fun f hf => ?_, events, hi, rfl⟩
    cases hf with
    | inl hf => exact Table.find?_eq_none.mp hlive f hf
    | inr hf => exact Table.find?_eq_none.mp harchive f hf

theorem writeAck_ok {n : Int} (h : s.writeAck n = .ok s') :
    s.acked ≤ n ∧ s' = { s with acked := n } := by
  simp only [writeAck, bind_ok_iff, require_ok, exists_const, Except.ok.injEq] at h
  exact ⟨h.2.1, h.2.2.symm⟩

theorem link_cases (h : s.link e = .ok s') : (s' = s ∧ e ∈ s.archive) ∨
    ∃ archive, s.archive.insert? e = some archive ∧ s' = { s with archive := archive } := by
  unfold link at h
  split at h
  · rename_i old hold
    simp only [bind_ok_iff, require_ok, exists_const, Except.ok.injEq] at h
    obtain ⟨rfl, rfl⟩ := h
    exact .inl ⟨rfl, (Table.find?_eq_some.mp hold).1⟩
  · simp only [bind_ok_iff, expect_ok, Except.ok.injEq] at h
    obtain ⟨archive, hi, rfl⟩ := h
    exact .inr ⟨archive, hi, rfl⟩

/-! ## Reading -/

section Files
variable {ε : Type} {check : Event → Except ε Unit} {conflict : ε} {seen files found : List Event}
  {after : Int} {history : Bool}

theorem mem_readFiles (h : readFiles check conflict seen files = .ok found) :
    e ∈ found ↔ e ∈ seen ∨ e ∈ files := by
  induction files generalizing seen with
  | nil =>
    obtain rfl : seen = found := by simpa [readFiles] using h
    simp
  | cons f files ih =>
    rw [readFiles, bind_ok_iff] at h
    obtain ⟨-, -, h⟩ := h
    split at h
    · rename_i old hold
      split at h
      · rename_i heq
        subst heq
        have hmem := List.mem_of_find?_eq_some hold
        rw [ih h, List.mem_cons]
        constructor
        · rintro (hs | hf)
          · exact .inl hs
          · exact .inr (.inr hf)
        · rintro (hs | rfl | hf)
          · exact .inl hs
          · exact .inl hmem
          · exact .inr hf
      · cases h
    · rw [ih h, List.mem_append, List.mem_singleton, List.mem_cons, or_assoc]

/-- Every sequence is read once. -/
theorem readFiles_distinct (hseen : (seen.map Event.sequence).Nodup)
    (h : readFiles check conflict seen files = .ok found) :
    (found.map Event.sequence).Nodup := by
  induction files generalizing seen with
  | nil =>
    obtain rfl : seen = found := by simpa only [readFiles, Except.ok.injEq] using h
    exact hseen
  | cons e files ih =>
    rw [readFiles, bind_ok_iff] at h
    obtain ⟨-, -, h⟩ := h
    split at h
    · split at h
      · exact ih hseen h
      · cases h
    · rename_i hnone
      refine ih ?_ h
      rw [List.map_append, List.map_singleton, List.nodup_append]
      refine ⟨hseen, List.nodup_singleton _, ?_⟩
      intro n hn n' hn' heq
      obtain ⟨f, hf, rfl⟩ := List.mem_map.mp hn
      rw [List.mem_singleton.mp hn'] at heq
      exact absurd heq (by simpa using List.find?_eq_none.mp hnone f hf)

/-- Files that agree wherever they share a sequence are read without a conflict. -/
theorem readFiles_ok (hcheck : ∀ e ∈ files, check e = .ok ())
    (h : ∀ e ∈ seen ++ files, ∀ f ∈ seen ++ files, e.sequence = f.sequence → e = f) :
    ∃ found, readFiles check conflict seen files = .ok found := by
  induction files generalizing seen with
  | nil => exact ⟨seen, rfl⟩
  | cons f files ih =>
    have hf : f ∈ seen ++ f :: files := List.mem_append_right _ List.mem_cons_self
    have hrest : ∀ e ∈ files, check e = .ok () :=
      fun e he => hcheck e (List.mem_cons_of_mem f he)
    rw [readFiles, hcheck f List.mem_cons_self, ok_bind]
    split
    · rename_i old hold
      have hmem := List.mem_of_find?_eq_some hold
      have hseq : old.sequence = f.sequence := by simpa using List.find?_some hold
      rw [if_pos (h old (List.mem_append_left _ hmem) f hf hseq)]
      refine ih hrest fun a ha b hb => h a ?_ b ?_
      · rw [List.mem_append] at ha ⊢; exact ha.imp_right (List.mem_cons_of_mem f)
      · rw [List.mem_append] at hb ⊢; exact hb.imp_right (List.mem_cons_of_mem f)
    · refine ih hrest ?_
      simpa using h

theorem mem_filesAfter : e ∈ s.filesAfter after history ↔
    after < e.sequence ∧ (e ∈ s.events ∨ history = true ∧ e ∈ s.archive) := by
  cases history with
  | false => simp [filesAfter, Table.mem_def, and_comm]
  | true => simp [filesAfter, Table.mem_def, and_or_left, and_comm]

theorem holds_of_filesAfter (he : e ∈ s.filesAfter after history) : s.Holds e :=
  (mem_filesAfter.mp he).2.imp_right And.right

theorem mem_readEvents (h : s.readEvents after history = .ok found) :
    e ∈ found ↔ after < e.sequence ∧ (e ∈ s.events ∨ history = true ∧ e ∈ s.archive) := by
  simp only [readEvents, bind_ok_iff, Except.ok.injEq] at h
  obtain ⟨files, hfiles, rfl⟩ := h
  rw [bySequence, List.mem_insertionSort, mem_readFiles hfiles, ← mem_filesAfter]
  simp

end Files

theorem mem_readAfter {after : Int} {found : List Event} (h : s.readAfter after = .ok found) :
    e ∈ found ↔ e ∈ s.events ∧ after < e.sequence := by
  rw [mem_readEvents h]
  simp [and_comm]

theorem mem_read {found : List Event} (h : s.read = .ok found) :
    e ∈ found ↔ s.Holds e ∧ 0 < e.sequence := by
  rw [mem_readEvents h]
  simp [Holds, and_comm]

theorem readEvents_ok (h : ∀ e f, s.Holds e → s.Holds f → e.sequence = f.sequence → e = f)
    (after : Int) (history : Bool) : ∃ found, s.readEvents after history = .ok found := by
  obtain ⟨found, hfound⟩ := @readFiles_ok _ (fun _ => .ok ()) SpoolError.conflict []
    (s.filesAfter after history) (fun _ _ => rfl) fun e he f hf =>
      h e f (holds_of_filesAfter he) (holds_of_filesAfter hf)
  exact ⟨bySequence found, by simp only [readEvents, hfound, ok_bind]⟩

end
end Spool
end Orchestrator.Host
