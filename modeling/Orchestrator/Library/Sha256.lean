import Orchestrator.Library.Sha1

/-!
# SHA-256

`hashlib.sha256(...).hexdigest()`. The padding of the message is that of SHA-1.
-/
namespace Library

namespace Sha256

def rotateRight (x : UInt32) (n : UInt32) : UInt32 := (x >>> n) ||| (x <<< (32 - n))

def constants : List UInt32 :=
  [0x428a2f98, 0x71374491, 0xb5c0fbcf, 0xe9b5dba5, 0x3956c25b, 0x59f111f1, 0x923f82a4, 0xab1c5ed5,
    0xd807aa98, 0x12835b01, 0x243185be, 0x550c7dc3, 0x72be5d74, 0x80deb1fe, 0x9bdc06a7, 0xc19bf174,
    0xe49b69c1, 0xefbe4786, 0x0fc19dc6, 0x240ca1cc, 0x2de92c6f, 0x4a7484aa, 0x5cb0a9dc, 0x76f988da,
    0x983e5152, 0xa831c66d, 0xb00327c8, 0xbf597fc7, 0xc6e00bf3, 0xd5a79147, 0x06ca6351, 0x14292967,
    0x27b70a85, 0x2e1b2138, 0x4d2c6dfc, 0x53380d13, 0x650a7354, 0x766a0abb, 0x81c2c92e, 0x92722c85,
    0xa2bfe8a1, 0xa81a664b, 0xc24b8b70, 0xc76c51a3, 0xd192e819, 0xd6990624, 0xf40e3585, 0x106aa070,
    0x19a4c116, 0x1e376c08, 0x2748774c, 0x34b0bcb5, 0x391c0cb3, 0x4ed8aa4a, 0x5b9cca4f, 0x682e6ff3,
    0x748f82ee, 0x78a5636f, 0x84c87814, 0x8cc70208, 0x90befffa, 0xa4506ceb, 0xbef9a3f7, 0xc67178f2]

/-- `n` more words of the schedule, which is in reverse. -/
def schedule : Nat → List UInt32 → List UInt32
  | 0, ws => ws.reverse
  | n + 1, ws =>
    let w := ws.getD 14 0
    let w' := ws.getD 1 0
    let s₀ := rotateRight w 7 ^^^ rotateRight w 18 ^^^ (w >>> 3)
    let s₁ := rotateRight w' 17 ^^^ rotateRight w' 19 ^^^ (w' >>> 10)
    schedule n ((ws.getD 15 0 + s₀ + ws.getD 6 0 + s₁) :: ws)

structure State where
  (a b c d e f g h : UInt32)
  deriving DecidableEq, Repr

def State.round (s : State) (k w : UInt32) : State :=
  let s₁ := rotateRight s.e 6 ^^^ rotateRight s.e 11 ^^^ rotateRight s.e 25
  let choice := (s.e &&& s.f) ^^^ (~~~s.e &&& s.g)
  let t₁ := s.h + s₁ + choice + k + w
  let s₀ := rotateRight s.a 2 ^^^ rotateRight s.a 13 ^^^ rotateRight s.a 22
  let majority := (s.a &&& s.b) ^^^ (s.a &&& s.c) ^^^ (s.b &&& s.c)
  { a := t₁ + (s₀ + majority), b := s.a, c := s.b, d := s.c
    e := s.d + t₁, f := s.e, g := s.f, h := s.g }

def State.rounds (s : State) : List UInt32 → List UInt32 → State
  | k :: ks, w :: ws => (s.round k w).rounds ks ws
  | _, _ => s

def State.block (s : State) (ws : List UInt32) : State :=
  let r := s.rounds constants (schedule 48 ws.reverse)
  { a := s.a + r.a, b := s.b + r.b, c := s.c + r.c, d := s.d + r.d
    e := s.e + r.e, f := s.f + r.f, g := s.g + r.g, h := s.h + r.h }

/-- The first `n` blocks. -/
def State.blocks (s : State) : Nat → List UInt32 → State
  | 0, _ => s
  | n + 1, ws => (s.block (ws.take 16)).blocks n (ws.drop 16)

def start : State :=
  ⟨0x6a09e667, 0xbb67ae85, 0x3c6ef372, 0xa54ff53a, 0x510e527f, 0x9b05688c, 0x1f83d9ab, 0x5be0cd19⟩

end Sha256

def sha256 (message : List UInt8) : List UInt8 :=
  let ws := Sha1.words (Sha1.pad message)
  let s := Sha256.start.blocks (ws.length / 16) ws
  [s.a, s.b, s.c, s.d, s.e, s.f, s.g, s.h].flatMap fun w => Sha1.bigEndian 4 w.toNat

/-- The digits `0` to `9` and `a` to `f`. -/
def hexDigit (n : Nat) : Nat := if n < 10 then 0x30 + n else 0x57 + n

/-- `hexdigest()`, in code points. -/
def hexDigest (bytes : List UInt8) : List Nat :=
  bytes.flatMap fun b => [hexDigit (b.toNat / 16), hexDigit (b.toNat % 16)]

def sha256Hex (message : List UInt8) : List Nat := hexDigest (sha256 message)

example : sha256Hex ("abc".toList.map fun c => UInt8.ofNat c.toNat) =
    "ba7816bf8f01cfea414140de5dae2223b00361a396177a9cb410ff61f20015ad".toList.map Char.toNat := by
  decide +kernel

/-- `[0-9a-f]`. -/
def isLowerHexDigit (c : Nat) : Bool := (0x30 ≤ c && c ≤ 0x39) || (0x61 ≤ c && c ≤ 0x66)

theorem hexDigit_isHex {n : Nat} (h : n < 16) : isLowerHexDigit (hexDigit n) = true := by
  unfold hexDigit isLowerHexDigit
  split <;> simp <;> omega

theorem hexDigest_isHex {bytes : List UInt8} : (hexDigest bytes).all isLowerHexDigit = true := by
  rw [List.all_eq_true]
  intro c hc
  obtain ⟨b, -, hb⟩ := List.mem_flatMap.1 hc
  have hlt := b.toNat_lt
  simp only [List.mem_cons, List.not_mem_nil, or_false] at hb
  rcases hb with rfl | rfl
  · exact hexDigit_isHex (by omega)
  · exact hexDigit_isHex (by omega)

theorem hexDigest_length {bytes : List UInt8} : (hexDigest bytes).length = 2 * bytes.length := by
  induction bytes with
  | nil => rfl
  | cons b bs ih =>
    rw [hexDigest, List.flatMap_cons, List.length_append, ← hexDigest, ih]
    simp only [List.length_cons, List.length_nil]
    omega

theorem sha256Hex_length {message : List UInt8} : (sha256Hex message).length = 64 := by
  rw [sha256Hex, hexDigest_length, sha256]
  simp [Sha1.bigEndian_length]

theorem sha256Hex_isHex {message : List UInt8} : (sha256Hex message).all isLowerHexDigit = true :=
  hexDigest_isHex

end Library
