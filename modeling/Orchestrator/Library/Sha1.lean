import Mathlib.Data.List.Basic
import Mathlib.Algebra.Group.Nat.Defs

/-!
# SHA-1 and base64

What the opening handshake of a WebSocket computes.
-/
namespace Library

/-! ## SHA-1 -/

namespace Sha1

def rotate (x : UInt32) (n : UInt32) : UInt32 := (x <<< n) ||| (x >>> (32 - n))

/-- `n` in `k` bytes, the highest first. -/
def bigEndian : Nat → Nat → List UInt8
  | 0, _ => []
  | k + 1, n => UInt8.ofNat (n / 256 ^ k) :: bigEndian k n

theorem bigEndian_length {k n : Nat} : (bigEndian k n).length = k := by
  induction k with
  | zero => rfl
  | succ k ih => rw [bigEndian, List.length_cons, ih]

/-- The message, a one bit, zeros, and its length in bits, in blocks of 64 bytes. -/
def pad (message : List UInt8) : List UInt8 :=
  message ++ 0x80 :: List.replicate ((119 - message.length % 64) % 64) 0 ++
    bigEndian 8 (message.length * 8)

def words : List UInt8 → List UInt32
  | a :: b :: c :: d :: rest =>
    ((((a.toUInt32 <<< 8) ||| b.toUInt32) <<< 8 ||| c.toUInt32) <<< 8 ||| d.toUInt32) :: words rest
  | _ => []

/-- `n` more words of the schedule, which is in reverse. -/
def schedule : Nat → List UInt32 → List UInt32
  | 0, ws => ws.reverse
  | n + 1, ws =>
    schedule n
      (rotate (ws.getD 2 0 ^^^ ws.getD 7 0 ^^^ ws.getD 13 0 ^^^ ws.getD 15 0) 1 :: ws)

structure State where
  (a b c d e : UInt32)
  deriving DecidableEq, Repr

def State.round (s : State) (t : Nat) (w : UInt32) : State :=
  let (f, k) : UInt32 × UInt32 :=
    if t < 20 then ((s.b &&& s.c) ||| (~~~s.b &&& s.d), 0x5A827999)
    else if t < 40 then (s.b ^^^ s.c ^^^ s.d, 0x6ED9EBA1)
    else if t < 60 then ((s.b &&& s.c) ||| (s.b &&& s.d) ||| (s.c &&& s.d), 0x8F1BBCDC)
    else (s.b ^^^ s.c ^^^ s.d, 0xCA62C1D6)
  { a := rotate s.a 5 + f + s.e + k + w, b := s.a, c := rotate s.b 30, d := s.c, e := s.d }

def State.rounds (s : State) (t : Nat) : List UInt32 → State
  | [] => s
  | w :: ws => (s.round t w).rounds (t + 1) ws

def State.block (s : State) (ws : List UInt32) : State :=
  let r := s.rounds 0 (schedule 64 ws.reverse)
  { a := s.a + r.a, b := s.b + r.b, c := s.c + r.c, d := s.d + r.d, e := s.e + r.e }

/-- The first `n` blocks. -/
def State.blocks (s : State) : Nat → List UInt32 → State
  | 0, _ => s
  | n + 1, ws => (s.block (ws.take 16)).blocks n (ws.drop 16)

def start : State := ⟨0x67452301, 0xEFCDAB89, 0x98BADCFE, 0x10325476, 0xC3D2E1F0⟩

end Sha1

def sha1 (message : List UInt8) : List UInt8 :=
  let ws := Sha1.words (Sha1.pad message)
  let s := Sha1.start.blocks (ws.length / 16) ws
  [s.a, s.b, s.c, s.d, s.e].flatMap fun w => Sha1.bigEndian 4 w.toNat

/-! ## Base64 -/

def base64Alphabet : List Char :=
  "ABCDEFGHIJKLMNOPQRSTUVWXYZabcdefghijklmnopqrstuvwxyz0123456789+/".toList

def base64Digit (n : Nat) : Char := base64Alphabet.getD n '='

def base64Encode : List UInt8 → List Char
  | [] => []
  | [a] => [base64Digit (a.toNat / 4), base64Digit (a.toNat % 4 * 16), '=', '=']
  | [a, b] =>
    [base64Digit (a.toNat / 4), base64Digit (a.toNat % 4 * 16 + b.toNat / 16),
      base64Digit (b.toNat % 16 * 4), '=']
  | a :: b :: c :: rest =>
    base64Digit (a.toNat / 4) :: base64Digit (a.toNat % 4 * 16 + b.toNat / 16) ::
      base64Digit (b.toNat % 16 * 4 + c.toNat / 64) :: base64Digit (c.toNat % 64) ::
      base64Encode rest

/-- The bytes that the digits stand for, without the padding. -/
def base64Decode : List Char → List UInt8
  | w :: x :: y :: z :: rest =>
    let (w, x) := (base64Alphabet.idxOf w, base64Alphabet.idxOf x)
    UInt8.ofNat (w * 4 + x / 16) ::
      if y = '=' then []
      else
        let y := base64Alphabet.idxOf y
        UInt8.ofNat (x % 16 * 16 + y / 4) ::
          if z = '=' then []
          else UInt8.ofNat (y % 4 * 64 + base64Alphabet.idxOf z) :: base64Decode rest
  | _ => []

example : base64Encode (sha1
    ("dGhlIHNhbXBsZSBub25jZQ==258EAFA5-E914-47DA-95CA-C5AB0DC85B11".toList.map
      fun c => UInt8.ofNat c.toNat)) = "s3pPLMBiTxaQ9kYGzzhZRbK+xOo=".toList := by
  decide +kernel

end Library
