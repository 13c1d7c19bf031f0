import Orchestrator.Native.Observer
import Mathlib.Logic.Relation

/-!
# What a connection can do

Every call is made of a few moves of the connection beside the queue: the parser goes on, an
upgrade, a control frame or a message is recorded, or a gap is. No move but a gap is made on a
connection that is not valid.
-/
namespace Orchestrator.Native
open Relation

/-- The parts of a connection that the parser leaves alone. -/
structure SameStatus (c c' : Connection) : Prop where
  epoch : c'.epoch = c.epoch
  valid : c'.valid = c.valid
  closed : c'.closed = c.closed
  overflowed : c'.overflowed = c.overflowed
  pending : c'.pending = c.pending

inductive Move (cfg : Config) (d : Direction) : Tap → Tap → Prop
  | parse (t : Tap) (c : Connection) (h : SameStatus t.connection c) :
      Move cfg d t { t with connection := c }
  | gap (t : Tap) (reason : String) (sizes : Option (Nat × Nat)) :
      Move cfg d t (t.gap cfg d reason sizes)
  | upgrade (t : Tap) (h : t.connection.valid = true) :
      Move cfg d t (t.emit cfg d .websocketUpgrade)
  | control (t : Tap) (opcode : String) (h : t.connection.valid = true) :
      Move cfg d t (t.emit cfg d (.wsControl opcode))
  | message (t : Tap) (payload : List UInt8) (h : t.connection.valid = true) :
      Move cfg d t (t.message cfg d payload)

abbrev Moves (cfg : Config) (d : Direction) : Tap → Tap → Prop := ReflTransGen (Move cfg d)

section
variable {c : Connection} {p : Parser} {d d' : Direction}

theorem setParser_same : SameStatus c (c.setParser p d) := by
  cases d <;> exact ⟨rfl, rfl, rfl, rfl, rfl⟩

theorem setBuffer_same {buffer : List UInt8} : SameStatus c (c.setBuffer d buffer) :=
  setParser_same

@[simp] theorem parser_setParser : (c.setParser p d).parser d = p := by cases d <;> rfl

theorem SameStatus.trans {c₁ c₂ c₃ : Connection} (h : SameStatus c₁ c₂) (h' : SameStatus c₂ c₃) :
    SameStatus c₁ c₃ :=
  ⟨h'.epoch.trans h.epoch, h'.valid.trans h.valid, h'.closed.trans h.closed,
    h'.overflowed.trans h.overflowed, h'.pending.trans h.pending⟩

end

section
variable {cfg : Config} {d : Direction} {t : Tap}

theorem complete_moves {opcode : Nat} {payload : List UInt8} (hv : t.connection.valid = true) :
    Moves cfg d t (t.complete cfg d opcode payload) := by
  unfold Tap.complete
  split
  · exact .single (.message t payload hv)
  · exact .single (.gap t _ _)

theorem setFragment_move {opcode : Option Nat} {payload : List UInt8} :
    Move cfg d t (t.setFragment d opcode payload) :=
  .parse t _ setParser_same

theorem setBuffer_move {buffer : List UInt8} : Move cfg d t (t.setBuffer d buffer) :=
  .parse t _ setBuffer_same

/-- A frame on a valid connection. -/
theorem frame_moves {opcode : Nat} {fin : Bool} {payload : List UInt8}
    (hv : t.connection.valid = true) : Moves cfg d t (t.frame cfg d opcode fin payload) := by
  unfold Tap.frame
  dsimp only
  split
  · -- control frames
    split
    · exact .single (.gap t _ _)
    · exact .single (.control t _ hv)
  split
  · -- continuations
    split
    · exact .single (.gap t _ _)
    split
    · exact .single (.gap t _ _)
    split
    · exact .head setFragment_move (complete_moves (by
        rw [Tap.setFragment, setParser_same.valid]; exact hv))
    · exact .single setFragment_move
  split
  · -- a message that begins
    split
    · exact .single (.gap t _ _)
    split
    · exact .single (.gap t _ _)
    split
    · exact complete_moves hv
    · exact .single setFragment_move
  · exact .single (.gap t _ _)

theorem parseFrames_moves {n : Nat} : Moves cfg d t (t.parseFrames cfg d n) := by
  induction n generalizing t with
  | zero => exact .refl
  | succ n ih =>
    unfold Tap.parseFrames
    split
    next hv =>
      split
      · exact .refl
      · exact .single (.gap t _ _)
      · refine .head setBuffer_move ((frame_moves ?_).trans ih)
        exact setBuffer_same.valid.trans hv
    · exact .refl

theorem upgrade_moves {key : Option (List Char)} (hv : t.connection.valid = true) :
    Moves cfg d t (t.upgrade cfg d key) := by
  have hkey : SameStatus t.connection { t.connection with clientKey := key } :=
    ⟨rfl, rfl, rfl, rfl, rfl⟩
  refine .head (.parse t _ (hkey.trans setParser_same)) (.single (.upgrade _ ?_))
  exact (hkey.trans setParser_same).valid.trans hv

theorem takeHeader_moves {header : List UInt8} (hv : t.connection.valid = true) :
    Moves cfg d t (t.takeHeader cfg d header) := by
  unfold Tap.takeHeader
  split
  · exact .single (.gap _ _ _)
  · exact upgrade_moves hv

theorem parseUpgrade_moves (hv : t.connection.valid = true) :
    Moves cfg d t (t.parseUpgrade cfg d) := by
  unfold Tap.parseUpgrade
  dsimp only
  split
  · split
    · exact .single (.gap t _ _)
    · exact .refl
  · split
    · exact .single (.gap t _ _)
    · exact .head setBuffer_move (takeHeader_moves (setBuffer_same.valid.trans hv))

theorem parseReady_moves : Moves cfg d t (t.parseReady cfg d) := by
  unfold Tap.parseReady
  split
  · exact parseFrames_moves
  · exact .refl

theorem parse_moves (hv : t.connection.valid = true) : Moves cfg d t (t.parse cfg d) := by
  unfold Tap.parse
  split
  · exact parseReady_moves
  · exact (parseUpgrade_moves hv).trans parseReady_moves

/-- All that `feed` does. -/
theorem feed_moves {incoming : List UInt8} : Moves cfg d t (t.feed cfg d incoming) := by
  unfold Tap.feed
  dsimp only
  split
  · exact .refl
  next hv =>
    split
    · exact .single (.gap t _ _)
    · exact .head setBuffer_move (parse_moves (setBuffer_same.valid.trans (by simpa using hv)))

/-- What every move keeps, a call keeps. -/
theorem Moves.keeps {t t' : Tap} (h : Moves cfg d t t') {I : Tap → Prop}
    (hI : ∀ t t', Move cfg d t t' → I t → I t') (ht : I t) : I t' := by
  induction h with
  | refl => exact ht
  | tail _ hmove ih => exact hI _ _ hmove ih

end
end Orchestrator.Native
