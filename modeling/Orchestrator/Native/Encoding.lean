import Orchestrator.Native.Framing
import Mathlib.Tactic.Ring

/-!
# What the two sides send

Frames as they are written, in any of the forms that the length of a payload may take and with
any mask, the messages that they are pieces of, and the opening handshake before them. A frame
that is written is taken, and no part of one is.
-/
namespace Orchestrator.Native
open Library PythonJson Sha1

/-- Where the length of a payload is written: in the second byte, or in the two or the eight
behind it. -/
inductive LengthForm where
  | byte | word | quad
  deriving DecidableEq, Repr

def LengthForm.bound : LengthForm → Nat
  | .byte => 126
  | .word => 2 ^ 16
  | .quad => 2 ^ 63

/-- A frame that one side may send. -/
structure Frame (cfg : Config) (d : Direction) where
  opcode : Nat
  fin : Bool
  payload : List UInt8
  form : LengthForm
  mask : List UInt8
  known : opcode ∈ [0, 1, 8, 9, 10]
  fits : payload.length < form.bound
  small : payload.length ≤ cfg.maxFrameBytes
  masked : mask.length = if d = .client then 4 else 0
  control : 8 ≤ opcode → fin = true ∧ payload.length ≤ 125 ∧
    (opcode = 8 → validClosePayload payload = true)

namespace Frame
variable {cfg : Config} {d : Direction} (f : Frame cfg d)

def maskBit (d : Direction) : Nat := if d = .client then 0x80 else 0

def head : List UInt8 :=
  UInt8.ofNat ((if f.fin = true then 0x80 else 0) + f.opcode) :: match f.form with
    | .byte => [UInt8.ofNat (maskBit d + f.payload.length)]
    | .word => UInt8.ofNat (maskBit d + 126) :: bigEndian 2 f.payload.length
    | .quad => UInt8.ofNat (maskBit d + 127) :: bigEndian 8 f.payload.length

def body : List UInt8 := if d = .client then unmask f.mask 0 f.payload else f.payload

def encode : List UInt8 := f.head ++ (f.mask ++ f.body)

end Frame

theorem foldl_bigEndian {k n m : Nat} :
    (bigEndian k n).foldl (fun m b => m * 256 + b.toNat) m = m * 256 ^ k + n % 256 ^ k := by
  induction k generalizing m with
  | zero => simp [bigEndian, Nat.mod_one]
  | succ k ih =>
    have hdigit : (UInt8.ofNat (n / 256 ^ k)).toNat = n / 256 ^ k % 256 := by
      simp [UInt8.toNat_ofNat']
    have hsplit : n % 256 ^ (k + 1) = 256 ^ k * (n / 256 ^ k % 256) + n % 256 ^ k := by
      rw [pow_succ, Nat.mod_mul]
      omega
    rw [bigEndian, List.foldl_cons, ih, hdigit, hsplit]
    ring

theorem bigEndianNat_bigEndian {k n : Nat} (h : n < 256 ^ k) :
    bigEndianNat (bigEndian k n) = n := by
  rw [bigEndianNat, foldl_bigEndian, Nat.mod_eq_of_lt h]
  ring

@[simp] theorem unmask_unmask {mask : List UInt8} {i : Nat} {bs : List UInt8} :
    unmask mask i (unmask mask i bs) = bs := by
  induction bs generalizing i with
  | nil => rfl
  | cons b bs ih => rw [unmask, unmask, ih, UInt8.xor_assoc, UInt8.xor_self, UInt8.xor_zero]

section
variable {cfg : Config} {d : Direction} {f : Frame cfg d} {more : List UInt8}

@[simp] theorem Frame.body_length : f.body.length = f.payload.length := by
  unfold body
  split
  · exact unmask_length
  · rfl

theorem Frame.head_length : f.head.length = match f.form with
    | .byte => 2
    | .word => 4
    | .quad => 10 := by
  unfold head
  cases f.form <;> simp [bigEndian_length]

theorem Frame.encode_pos : 0 < f.encode.length := by
  rw [encode, head]
  simp

/-- What is behind the head of a frame. -/
theorem takePayload_encode {offset : Nat} (hoffset : f.head.length = offset) :
    takePayload cfg f.opcode f.fin (d = .client : Bool) offset f.payload.length f.encode =
      .frame f.opcode f.fin f.payload [] := by
  have hknown : f.opcode < 11 := by
    have := f.known
    simp only [List.mem_cons, List.not_mem_nil, or_false] at this
    omega
  have hcontrol : ¬ (f.opcode ≥ 8 ∧ (f.fin = false ∨ f.payload.length > 125)) := by
    rintro ⟨hop, hfin | hlong⟩
    · simp [(f.control hop).1] at hfin
    · exact absurd (f.control hop).2.1 (by omega)
  have hmask := f.masked
  unfold takePayload
  rw [if_neg (by omega), if_neg hcontrol, if_neg (by have := f.small; omega)]
  have hstart : offset + (if (d = .client : Bool) = true then 4 else 0) =
      (f.head ++ f.mask).length := by
    rw [List.length_append, hoffset, hmask]
    simp
  have hlength : f.encode.length = (f.head ++ f.mask).length + f.payload.length := by
    rw [Frame.encode, ← List.append_assoc, List.length_append, Frame.body_length]
  have hpayload : (f.encode.drop (f.head ++ f.mask).length).take f.payload.length = f.body := by
    rw [Frame.encode, ← List.append_assoc, List.drop_left,
      List.take_of_length_le Frame.body_length.le]
  dsimp only
  rw [hstart, if_neg (by omega), hpayload, List.drop_eq_nil_of_le hlength.le]
  unfold Frame.body
  by_cases hd : d = .client
  · rw [if_pos hd] at hmask
    have hmask' : (f.encode.drop offset).take 4 = f.mask := by
      rw [Frame.encode, List.drop_left' hoffset, List.take_left' hmask]
    rw [hmask', if_pos (by simpa using hd), if_pos hd, unmask_unmask]
  · rw [if_neg (by simpa using hd), if_neg hd]

/-- The first byte of a frame. -/
theorem Frame.first_byte {n : Nat}
    (h : n = (UInt8.ofNat ((if f.fin = true then 0x80 else 0) + f.opcode)).toNat) :
    n / 16 % 8 = 0 ∧ n % 16 = f.opcode ∧ (decide (n ≥ 0x80) : Bool) = f.fin := by
  have hknown := f.known
  generalize f.opcode = opcode at h hknown ⊢
  subst h
  simp only [List.mem_cons, List.not_mem_nil, or_false] at hknown
  cases f.fin <;> obtain rfl | rfl | rfl | rfl | rfl := hknown <;> decide

/-- The second one. -/
theorem Frame.second_byte {n code : Nat} (hcode : code < 128)
    (h : n = (UInt8.ofNat (Frame.maskBit d + code)).toNat) :
    n % 128 = code ∧ (decide (n ≥ 0x80) : Bool) = (d = .client : Bool) := by
  rw [UInt8.toNat_ofNat'] at h
  unfold Frame.maskBit at h
  by_cases hd : d = .client
  · rw [if_pos hd] at h
    exact ⟨by omega, by simp [hd]; omega⟩
  · rw [if_neg hd] at h
    exact ⟨by omega, by simp [hd]; omega⟩

theorem takeFrame_encode : takeFrame cfg d f.encode = .frame f.opcode f.fin f.payload [] := by
  have htake := @takePayload_encode cfg d f
  obtain ⟨hrsv, hopcode, hfin⟩ := f.first_byte rfl
  have hfits := f.fits
  have hhead := f.head_length
  generalize hencode : f.encode = bytes at htake ⊢
  unfold Frame.encode Frame.head at hencode
  rw [← hencode]
  cases hform : f.form with
  | byte =>
    simp only [hform, LengthForm.bound] at hfits hhead hencode ⊢
    obtain ⟨hcode, hmasked⟩ := @Frame.second_byte d _ f.payload.length (by omega) rfl
    simp only [List.cons_append, List.nil_append] at hencode ⊢
    unfold takeFrame
    dsimp only
    rw [hrsv, hopcode, hfin, hcode, hmasked, if_neg (by simp), if_neg (by simp),
      if_pos (by omega), hencode]
    exact htake hhead
  | word =>
    simp only [hform, LengthForm.bound] at hfits hhead hencode ⊢
    obtain ⟨hcode, hmasked⟩ := @Frame.second_byte d _ 126 (by omega) rfl
    have hlength := bigEndianNat_bigEndian (k := 2) (n := f.payload.length) (by omega)
    simp only [List.cons_append] at hencode ⊢
    unfold takeFrame
    dsimp only
    rw [hrsv, hopcode, hfin, hcode, hmasked, if_neg (by simp), if_neg (by simp),
      if_neg (by omega), if_pos rfl,
      if_neg (by rw [List.length_append, bigEndian_length]; omega),
      List.take_left' bigEndian_length, hlength, hencode]
    exact htake hhead
  | quad =>
    simp only [hform, LengthForm.bound] at hfits hhead hencode ⊢
    obtain ⟨hcode, hmasked⟩ := @Frame.second_byte d _ 127 (by omega) rfl
    have hlength := bigEndianNat_bigEndian (k := 8) (n := f.payload.length) (by omega)
    have hsign : ¬ bigEndianNat ((bigEndian 8 f.payload.length ++ (f.mask ++ f.body)).take 1) ≥
        0x80 := by
      have hdigit : (UInt8.ofNat (f.payload.length / 256 ^ 7)).toNat < 0x80 := by
        rw [UInt8.toNat_ofNat']
        omega
      rw [bigEndian, List.cons_append, List.take_succ_cons, List.take_zero, bigEndianNat,
        List.foldl_cons, List.foldl_nil]
      omega
    simp only [List.cons_append] at hencode ⊢
    unfold takeFrame
    dsimp only
    rw [hrsv, hopcode, hfin, hcode, hmasked, if_neg (by simp), if_neg (by simp),
      if_neg (by omega), if_neg (by omega), if_neg (by simp [bigEndian_length]), if_neg hsign,
      List.take_left' bigEndian_length, hlength, hencode]
    exact htake hhead

/-- A frame that is not complete is waited for. -/
theorem takeFrame_short {buffer : List UInt8} (h : buffer <+: f.encode)
    (hshort : buffer.length < f.encode.length) : takeFrame cfg d buffer = .wait := by
  obtain ⟨more, hmore⟩ := h
  by_contra hwait
  have happend := @takeFrame_append _ _ _ more hwait
  rw [hmore, takeFrame_encode] at happend
  cases htake : takeFrame cfg d buffer with
  | wait => exact hwait htake
  | bad reason sizes =>
    rw [htake] at happend
    cases happend
  | frame opcode fin payload rest =>
    rw [htake] at happend
    injection happend with _ _ _ hrest
    rw [← hmore, List.length_append, (List.append_eq_nil_iff.1 hrest.symm).2] at hshort
    simp at hshort

end

/-! ## Messages -/

/-- A JSON value as it is spelled. -/
structure Message (cfg : Config) where
  payload : List UInt8
  value : Value
  spelled : (decodeUtf8 payload).map (loads cfg.recursionLimit) = some (.ok value)
  small : payload.length ≤ cfg.maxMessageBytes

/-- Frames with the messages that end in them. A message that has begun is carried along; control
frames stand anywhere. -/
inductive Fragments {cfg : Config} {d : Direction} :
    Option (List UInt8) → List (Frame cfg d × Option (Message cfg)) → Prop
  | nil : Fragments none []
  | control {part fs} (f : Frame cfg d) (h : 8 ≤ f.opcode) (hfs : Fragments part fs) :
      Fragments part ((f, none) :: fs)
  | whole {fs} (f : Frame cfg d) (m : Message cfg) (h : f.opcode = 1 ∧ f.fin = true)
      (hpayload : f.payload = m.payload) (hfs : Fragments none fs) :
      Fragments none ((f, some m) :: fs)
  | first {fs} (f : Frame cfg d) (h : f.opcode = 1 ∧ f.fin = false)
      (hfs : Fragments (some f.payload) fs) : Fragments none ((f, none) :: fs)
  | next {part fs} (f : Frame cfg d) (h : f.opcode = 0 ∧ f.fin = false)
      (hfs : Fragments (some (part ++ f.payload)) fs) : Fragments (some part) ((f, none) :: fs)
  | last {part fs} (f : Frame cfg d) (m : Message cfg) (h : f.opcode = 0 ∧ f.fin = true)
      (hpayload : part ++ f.payload = m.payload) (hfs : Fragments none fs) :
      Fragments (some part) ((f, some m) :: fs)

/-- All that one side sends: the opening handshake, which the client's key makes valid, and the
messages in their frames. -/
structure Half (cfg : Config) (key : List Char) (d : Direction) where
  text : List UInt8
  accepted : checkUpgrade (if d = .client then none else some key) d text = .ok (some key)
  once : findMarker (text ++ marker) = some text.length
  small : text.length + 4 ≤ cfg.maxHeaderBytes
  frames : List (Frame cfg d × Option (Message cfg))
  fragments : Fragments none frames

def encodeAll {cfg : Config} {d : Direction} (fs : List (Frame cfg d × Option (Message cfg))) :
    List UInt8 :=
  fs.flatMap (·.1.encode)

namespace Half
variable {cfg : Config} {key : List Char} {d : Direction} (s : Half cfg key d)

def header : List UInt8 := s.text ++ marker

def bytes : List UInt8 := s.header ++ encodeAll s.frames

def messages : List (Message cfg) := s.frames.filterMap (·.2)

end Half
end Orchestrator.Native
