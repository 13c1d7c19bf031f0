import Orchestrator.Library.Decimal
import Orchestrator.Library.Run
import Mathlib.Algebra.GroupWithZero.Nat

/-!
# The coordinator lock and its epochs

`Acquire` takes an exclusive lock and counts in a file of its own: `nextEpoch`
reads the number, truncates the file, and writes the next one. The processes
take turns at the file operations in between; any of them may fail, and a
process may die before any of them, which releases its lock.
-/
namespace Orchestrator.Instance
open Library

/-! ## The epoch file -/

def maxUint64 : Nat := 2 ^ 64 - 1

/-- `unicode.IsSpace`. -/
def isSpace (c : Char) : Bool :=
  (9 ≤ c.toNat && c.toNat ≤ 13) || c.toNat = 32 || c.toNat = 0x85 || c.toNat = 0xA0 ||
    c.toNat = 0x1680 || (0x2000 ≤ c.toNat && c.toNat ≤ 0x200A) || c.toNat = 0x2028 ||
    c.toNat = 0x2029 || c.toNat = 0x202F || c.toNat = 0x205F || c.toNat = 0x3000

def trimSpace (cs : List Char) : List Char := (cs.dropWhile isSpace).rdropWhile isSpace

/-- `strconv.ParseUint(text, 10, 64)` without its error: 0 for text that is no
number, the largest number for one out of range. -/
def parseUint (text : List Char) : Nat := readDigits maxUint64 text 0

/-- The first line a `bufio.Scanner` finds: none in an empty file, and none when
the line does not fit its buffer of 64 KiB. -/
def scanLine (content : List Char) : Option (List Char) :=
  let line := content.takeWhile (· ≠ '\n')
  if content = [] ∨ 64 * 1024 ≤ (line.map Char.utf8Size).sum then none
  else some (if line.getLast? = some '\r' then line.dropLast else line)

def readEpoch (content : List Char) : Nat :=
  match scanLine content with
  | some line => parseUint (trimSpace line)
  | none => 0

/-- `fmt.Fprintf(f, "%d\n", next)`. -/
def render (next : Nat) : List Char := Nat.toDigits 10 next ++ ['\n']

section File
variable {n : Nat} {cs : List Char}

theorem isSpace_digit {c : Char} (h : c.isDigit = true) : isSpace c = false := by
  simp only [Char.isDigit, Bool.and_eq_true, decide_eq_true_eq, ge_iff_le,
    UInt32.le_iff_toNat_le] at h
  have hlo : 48 ≤ c.toNat := h.1
  have hhi : c.toNat ≤ 57 := h.2
  simp only [isSpace, Bool.or_eq_false_iff, Bool.and_eq_false_iff, decide_eq_false_iff_not]
  omega

theorem trimSpace_digits (hd : ∀ c ∈ cs, c.isDigit = true) : trimSpace cs = cs := by
  have hspace : ∀ c ∈ cs, isSpace c = false := fun c hc => isSpace_digit (hd c hc)
  have hdrop : cs.dropWhile isSpace = cs := by
    cases cs with
    | nil => rfl
    | cons c cs => rw [List.dropWhile_cons_of_neg (by simp [hspace c List.mem_cons_self])]
  rw [trimSpace, hdrop, List.rdropWhile_eq_self_iff]
  intro hne
  simp [hspace _ (List.getLast_mem hne)]

/-- An epoch is read back from what was written of it, with or without the newline. -/
theorem readEpoch_digits (h : n ≤ maxUint64) {rest : List Char} (hr : rest = [] ∨ rest = ['\n']) :
    readEpoch (Nat.toDigits 10 n ++ rest) = n := by
  have hd : ∀ c ∈ Nat.toDigits 10 n, c.isDigit = true := fun c => isDigit_of_mem
  have hne : ∀ c ∈ Nat.toDigits 10 n, c ≠ '\n' := fun c hc heq => by
    have := hd c hc
    rw [heq] at this
    cases this
  have hline : (Nat.toDigits 10 n ++ rest).takeWhile (· ≠ '\n') = Nat.toDigits 10 n := by
    rw [List.takeWhile_append_of_pos (by simpa using hne)]
    rcases hr with rfl | rfl <;> simp
  have hlen : (Nat.toDigits 10 n).length ≤ 20 := by
    rw [Nat.length_toDigits_le_iff (by omega) (by omega)]
    exact lt_of_le_of_lt h (by decide)
  have hlast : (Nat.toDigits 10 n).getLast? ≠ some '\r' := fun hlast => by
    have := hd _ (List.mem_of_getLast? hlast)
    cases this
  have hscan : scanLine (Nat.toDigits 10 n ++ rest) = some (Nat.toDigits 10 n) := by
    rw [scanLine, hline, utf8Size_digits hd, if_neg, if_neg hlast]
    rintro (hnil | hlong)
    · exact Nat.toDigits_ne_nil (List.append_eq_nil_iff.mp hnil).1
    · omega
  rw [readEpoch, hscan]
  change parseUint (trimSpace (Nat.toDigits 10 n)) = n
  rw [trimSpace_digits hd, parseUint, readDigits_toDigits h]

theorem readEpoch_render (h : n ≤ maxUint64) : readEpoch (render n) = n :=
  readEpoch_digits h (.inr rfl)

end File

/-! ## Acquire -/

/-- How far the process that has the lock has come. -/
inductive Stage where
  | locked
  | opened
  | checked
  | scanned (next : Nat)
  | truncated (next : Nat)
  | rewound (next : Nat)
  | written (next : Nat)
  | held (epoch : Nat)
  deriving DecidableEq, Repr

/-- `file` is `coordinator.epoch`, `holder` who has `coordinator.lock`, and
`returned` the epochs of the locks returned so far, the latest first. -/
structure State (P : Type) where
  file : Option (List Char)
  holder : Option (P × Stage)
  returned : List Nat

def State.start (P : Type) (file : Option (List Char)) : State P := ⟨file, none, []⟩

inductive Action (P : Type) where
  | acquire (p : P)
  | advance (p : P)
  | fail (p : P) (count : Nat)
  | crash (p : P)
  | close (p : P)

section Steps
variable {P : Type}

def State.content (s : State P) : List Char := s.file.getD []

/-- `text` was read of the file; `epoch_overflow` releases the lock. -/
def State.scan (s : State P) (p : P) (text : List Char) : State P :=
  if readEpoch text = maxUint64 then { s with holder := none }
  else { s with holder := some (p, .scanned (readEpoch text + 1)) }

/-- The next operation of `p` succeeds. -/
def State.advance (s : State P) (p : P) : Stage → State P
  | .locked => { s with file := some s.content, holder := some (p, .opened) }
  | .opened => { s with holder := some (p, .checked) }
  | .checked => s.scan p s.content
  | .scanned next => { s with file := some [], holder := some (p, .truncated next) }
  | .truncated next => { s with holder := some (p, .rewound next) }
  | .rewound next => { s with file := some (render next), holder := some (p, .written next) }
  | .written next => { s with holder := some (p, .held next), returned := next :: s.returned }
  | .held _ => s

/-- The next operation of `p` fails after `count` bytes, and `Acquire` releases
the lock. Only a failed read goes unnoticed: the scanner takes what came before it. -/
def State.fail (s : State P) (p : P) (count : Nat) : Stage → State P
  | .checked => s.scan p (s.content.take count)
  | .rewound next => { s with file := some ((render next).take count), holder := none }
  | .held _ => s
  | _ => { s with holder := none }

def State.close (s : State P) : Stage → State P
  | .held _ => { s with holder := none }
  | _ => s

/-- What only the holder of the lock can do. -/
def State.turn [DecidableEq P] (s : State P) (p : P) (f : Stage → State P) : State P :=
  match s.holder with
  | some (q, stage) => if q = p then f stage else s
  | none => s

def step [DecidableEq P] (s : State P) : Action P → State P
  | .acquire p => if s.holder.isNone then { s with holder := some (p, .locked) } else s
  | .advance p => s.turn p (s.advance p)
  | .fail p count => s.turn p (s.fail p count)
  | .crash p => s.turn p (fun _ => { s with holder := none })
  | .close p => s.turn p s.close

/-- Between the truncation and the end of the write the file holds no epoch. -/
def Stage.emptied : Stage → Bool
  | .truncated _ | .rewound _ => true
  | _ => false

/-- A failure after `count` bytes that loses nothing of the number in the file. -/
def State.Harmless (s : State P) (count : Nat) : Stage → Prop
  | .checked => readEpoch s.content ≤ readEpoch (s.content.take count)
  | .truncated _ => False
  | .rewound next => (Nat.toDigits 10 next).length ≤ count
  | _ => True

/-- Once an epoch was returned, no process dies with the file emptied, and what
fails is harmless. -/
def State.Undisturbed (s : State P) : Action P → Prop
  | .crash p => s.returned ≠ [] → ∀ stage, s.holder = some (p, stage) → stage.emptied = false
  | .fail p count => s.returned ≠ [] → ∀ stage, s.holder = some (p, stage) → s.Harmless count stage
  | _ => True

/-! ## Epochs increase -/

/-- What the file or the holder keeps of the epochs returned so far. -/
def State.Covers (s : State P) : Prop :=
  match s.holder with
  | some (_, .scanned next) => (∀ e ∈ s.returned, e ≤ readEpoch s.content ∧ e < next) ∧
    next ≤ maxUint64
  | some (_, .truncated next) | some (_, .rewound next) => (∀ e ∈ s.returned, e < next) ∧
    next ≤ maxUint64
  | some (_, .written next) => (∀ e ∈ s.returned, e < next) ∧ readEpoch s.content = next
  | _ => ∀ e ∈ s.returned, e ≤ readEpoch s.content

structure Increasing (s : State P) : Prop where
  returned : s.returned.Pairwise (· > ·)
  covers : s.Covers

theorem Increasing.covered {s : State P} (h : Increasing s)
    (hs : ∀ p stage, s.holder = some (p, stage) → stage.emptied = false) :
    ∀ e ∈ s.returned, e ≤ readEpoch s.content := by
  have hc := h.covers
  unfold State.Covers at hc
  split at hc
  · exact fun e he => (hc.1 e he).1
  · rename_i hh
    cases hs _ _ hh
  · rename_i hh
    cases hs _ _ hh
  · intro e he
    rw [hc.2]
    exact (hc.1 e he).le
  · exact hc

theorem readEpoch_le (content : List Char) : readEpoch content ≤ maxUint64 := by
  have hdigits : ∀ (cs : List Char) (n : Nat), n ≤ maxUint64 →
      readDigits maxUint64 cs n ≤ maxUint64 := by
    intro cs
    induction cs with
    | nil => exact fun n hn => hn
    | cons c cs ih =>
      intro n hn
      rw [readDigits]
      split
      · simp only
        split
        · exact le_refl _
        · rename_i hle
          exact ih _ (not_lt.mp hle)
      · exact Nat.zero_le _
  unfold readEpoch
  split
  · exact hdigits _ 0 (Nat.zero_le _)
  · exact Nat.zero_le _

theorem Increasing.scan {s : State P} {p : P} {text : List Char} (h : Increasing s)
    (hc : ∀ e ∈ s.returned, e ≤ readEpoch s.content)
    (ht : s.returned ≠ [] → readEpoch s.content ≤ readEpoch text) : Increasing (s.scan p text) := by
  have hle := readEpoch_le text
  unfold State.scan
  split
  · exact ⟨h.returned, hc⟩
  · refine ⟨h.returned, fun e he => ⟨hc e he, ?_⟩, by omega⟩
    have hread := ht (List.ne_nil_of_mem he)
    have hret := hc e he
    omega

theorem Increasing.advance {s : State P} {p : P} {stage : Stage} (h : Increasing s)
    (hh : s.holder = some (p, stage)) : Increasing (s.advance p stage) := by
  have hc := h.covers
  unfold State.Covers at hc
  rw [hh] at hc
  cases stage with
  | locked => exact ⟨h.returned, hc⟩
  | opened => exact ⟨h.returned, hc⟩
  | checked => exact h.scan hc fun _ => le_refl _
  | scanned next => exact ⟨h.returned, fun e he => (hc.1 e he).2, hc.2⟩
  | truncated next => exact ⟨h.returned, hc⟩
  | rewound next => exact ⟨h.returned, hc.1, readEpoch_render hc.2⟩
  | written next =>
    refine ⟨List.pairwise_cons.mpr ⟨hc.1, h.returned⟩, fun e he => ?_⟩
    change e ≤ readEpoch s.content
    rw [hc.2]
    cases he with
    | head => exact le_refl _
    | tail _ he => exact (hc.1 e he).le
  | held epoch => exact h

/-- The lock is let go over a file that reads no less than every returned epoch. -/
theorem Increasing.release {s : State P} (h : Increasing s) (file : Option (List Char))
    (hf : ∀ e ∈ s.returned, e ≤ readEpoch (file.getD [])) :
    Increasing ({ s with file := file, holder := none } : State P) := ⟨h.returned, hf⟩

/-- A write that got past the digits leaves the whole number. -/
theorem readEpoch_cut {next count : Nat} (h : next ≤ maxUint64)
    (hcount : (Nat.toDigits 10 next).length ≤ count) :
    readEpoch ((render next).take count) = next := by
  have htake : (render next).take count =
      Nat.toDigits 10 next ++ ['\n'].take (count - (Nat.toDigits 10 next).length) := by
    rw [render, List.take_append, List.take_of_length_le hcount]
  rw [htake, readEpoch_digits h]
  cases count - (Nat.toDigits 10 next).length with
  | zero => exact .inl rfl
  | succ k => exact .inr (by simp)

theorem Increasing.fail {s : State P} {p : P} {stage : Stage} {count : Nat} (h : Increasing s)
    (hh : s.holder = some (p, stage)) (hu : s.Undisturbed (.fail p count)) :
    Increasing (s.fail p count stage) := by
  have hkeep : stage.emptied = false → ∀ e ∈ s.returned, e ≤ readEpoch s.content := by
    intro hs
    refine h.covered fun q other hq => ?_
    rw [hh, Option.some.injEq, Prod.mk.injEq] at hq
    exact hq.2 ▸ hs
  cases stage with
  | checked => exact h.scan (hkeep rfl) fun hne => hu hne _ hh
  | rewound next =>
    refine h.release _ fun e he => ?_
    have hc := h.covers
    unfold State.Covers at hc
    rw [hh] at hc
    rw [Option.getD_some, readEpoch_cut hc.2 (hu (List.ne_nil_of_mem he) _ hh)]
    exact (hc.1 e he).le
  | truncated next => exact h.release s.file fun e he => (hu (List.ne_nil_of_mem he) _ hh).elim
  | held epoch => exact h
  | locked => exact h.release s.file (hkeep rfl)
  | opened => exact h.release s.file (hkeep rfl)
  | scanned next => exact h.release s.file (hkeep rfl)
  | written next => exact h.release s.file (hkeep rfl)

variable [DecidableEq P]

/-- What the holder's turn keeps, the step keeps. -/
theorem turn_induct {s : State P} {p : P} {f : Stage → State P} {I : State P → Prop} (h : I s)
    (hf : ∀ stage, s.holder = some (p, stage) → I (f stage)) : I (s.turn p f) := by
  unfold State.turn
  split
  · rename_i q stage hh
    split
    · rename_i hq
      exact hf stage (hq ▸ hh)
    · exact h
  · exact h

theorem Increasing.step {s : State P} {a : Action P} (h : Increasing s) (hu : s.Undisturbed a) :
    Increasing (step s a) := by
  cases a with
  | acquire p =>
    simp only [Instance.step]
    split
    · rename_i hn
      refine ⟨h.returned, ?_⟩
      exact h.covered fun q stage hq => by rw [hq] at hn; cases hn
    · exact h
  | advance p => exact turn_induct h fun stage hh => h.advance hh
  | fail p count => exact turn_induct h fun stage hh => h.fail hh hu
  | crash p =>
    refine turn_induct h fun stage hh => h.release s.file fun e he => ?_
    refine h.covered (fun q other hq => ?_) e he
    rw [hh, Option.some.injEq, Prod.mk.injEq] at hq
    exact hq.2 ▸ hu (List.ne_nil_of_mem he) stage hh
  | close p =>
    refine turn_induct h fun stage hh => ?_
    cases stage with
    | held epoch =>
      refine h.release s.file (h.covered fun q other hq => ?_)
      rw [hh, Option.some.injEq, Prod.mk.injEq] at hq
      exact hq.2 ▸ rfl
    | _ => exact h

end Steps

/-- Whatever the file held at first: where no process dies or fails with the file
emptied, each returned epoch is greater than all returned before. -/
theorem epochs_increase {P : Type} [DecidableEq P] {file : Option (List Char)}
    {actions : List (Action P)} (h : AllSteps step State.Undisturbed (.start P file) actions) :
    (run step (.start P file) actions).returned.Pairwise (· > ·) := by
  have hstart : Increasing (State.start P file) :=
    ⟨List.Pairwise.nil, fun e he => absurd he List.not_mem_nil⟩
  exact (run_invariant_when hstart (fun s a hs hc => hs.step hc) h).returned

/-- The operations of one `Acquire` that succeeds. -/
def acquired (p : Nat) : List (Action Nat) :=
  .acquire p :: List.replicate 7 (.advance p)

theorem second_epoch_increases :
    (run step (State.start Nat none)
      (acquired 1 ++ [Action.crash 1] ++ acquired 2)).returned.Pairwise (· > ·) := by
  refine epochs_increase ?_
  simp only [acquired, List.replicate, List.cons_append, List.nil_append, AllSteps]
  refine ⟨trivial, trivial, trivial, trivial, trivial, trivial, trivial, trivial, ?_⟩
  refine ⟨fun _ stage hs => ?_, by simp [State.Undisturbed]⟩
  have hheld : (run step (State.start Nat none) (acquired 1)).holder = some (1, .held 1) := by
    decide
  cases hheld.symm.trans hs
  rfl

/-- Process 2 dies over the file it has truncated. -/
def diesTruncated : List (Action Nat) :=
  Action.acquire 2 :: List.replicate 4 (.advance 2) ++ [Action.crash 2]

/-- Process 3 then reads 0 and is given the epoch of process 1 once more. -/
theorem truncated_epoch_repeats :
    let s := run step (State.start Nat none)
      (acquired 1 ++ [Action.close 1] ++ diesTruncated ++ acquired 3)
    s.returned = [1, 1] ∧ ¬ s.returned.Pairwise (· > ·) := by
  decide +kernel

end Orchestrator.Instance
