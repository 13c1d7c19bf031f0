import Orchestrator.Native.WireGate
import Orchestrator.Native.Framing
import Mathlib.Algebra.Group.Nat.Defs

/-!
# The receiving peer

What a peer without extensions makes of the bytes of one direction: the head of the handshake up
to its empty line, then frames, read byte for byte. It knows nothing of buffers, of chunks or of
the limits of a gate.
-/
namespace Orchestrator.Native
open Library

inductive WireEvent where
  | head (bytes : List UInt8)
  | message (opcode : Nat) (payload : List UInt8)
  | control (opcode : Nat) (payload : List UInt8)
  deriving DecidableEq, Repr

inductive Phase where
  | head (seen : List UInt8)
  | start
  | opened (fin : Bool) (opcode : Nat)
  | length (fin : Bool) (opcode left n : Nat)
  | mask (fin : Bool) (opcode length : Nat) (key : List UInt8)
  | payload (fin : Bool) (opcode left : Nat) (key data : List UInt8)
  | failed
  deriving DecidableEq, Repr

structure Receiver where
  phase : Phase := .head []
  /-- The opcode and the payload of a message that is not finished. -/
  part : Option (Nat × List UInt8) := none
  events : List WireEvent := []
  deriving DecidableEq, Repr

namespace Receiver

def between (part : Option (Nat × List UInt8)) (events : List WireEvent) : Receiver :=
  ⟨.start, part, events⟩

def fail (r : Receiver) : Receiver := { r with phase := .failed }

/-- A frame of a message, which has had the payload `data` before. -/
def extend (r : Receiver) (fin : Bool) (opcode : Nat) (data : List UInt8) : Receiver :=
  if fin = true then between none (r.events ++ [WireEvent.message opcode data])
  else between (some (opcode, data)) r.events

/-- A frame is complete. -/
def finish (r : Receiver) (fin : Bool) (opcode : Nat) (payload : List UInt8) : Receiver :=
  if opcode = 0 then match r.part with
    | some (first, data) => r.extend fin first (data ++ payload)
    | none => r.fail
  else if opcode = 1 ∨ opcode = 2 then match r.part with
    | none => r.extend fin opcode payload
    | some _ => r.fail
  else if opcode = 8 ∨ opcode = 9 ∨ opcode = 10 then
    if fin = true ∧ payload.length ≤ 125 ∧ ¬ (opcode = 8 ∧ payload.length = 1) then
      between r.part (r.events ++ [WireEvent.control opcode payload])
    else r.fail
  else r.fail

/-- The header of a frame is complete but for its mask. -/
def body (masked : Bool) (r : Receiver) (fin : Bool) (opcode length : Nat) : Receiver :=
  if masked = true then { r with phase := .mask fin opcode length [] }
  else if length = 0 then r.finish fin opcode []
  else { r with phase := .payload fin opcode length [] [] }

/-- One byte of a sender whose frames are masked or not. -/
def step (masked : Bool) (r : Receiver) (b : UInt8) : Receiver :=
  match r.phase with
  | .head seen =>
    let seen := seen ++ [b]
    if marker <:+ seen then { r with phase := .start, events := r.events ++ [WireEvent.head seen] }
    else { r with phase := .head seen }
  | .start =>
    if b.toNat / 16 % 8 ≠ 0 then r.fail
    else { r with phase := .opened (b.toNat ≥ 0x80) (b.toNat % 16) }
  | .opened fin opcode =>
    let code := b.toNat % 128
    if (b.toNat ≥ 0x80 : Bool) ≠ masked then r.fail
    else if code = 126 then { r with phase := .length fin opcode 2 0 }
    else if code = 127 then { r with phase := .length fin opcode 8 0 }
    else r.body masked fin opcode code
  | .length fin opcode left n =>
    let n := n * 256 + b.toNat
    if left ≤ 1 then if n ≥ 2 ^ 63 then r.fail else r.body masked fin opcode n
    else { r with phase := .length fin opcode (left - 1) n }
  | .mask fin opcode length key =>
    let key := key ++ [b]
    if key.length < 4 then { r with phase := .mask fin opcode length key }
    else if length = 0 then r.finish fin opcode []
    else { r with phase := .payload fin opcode length key [] }
  | .payload fin opcode left key data =>
    let data := data ++ [if masked = true then b ^^^ key.getD (data.length % 4) 0 else b]
    if left ≤ 1 then r.finish fin opcode data
    else { r with phase := .payload fin opcode (left - 1) key data }
  | .failed => r

end Receiver

/-- What the peer of this direction has made of `bytes`; clients mask their frames. -/
def receive (masked : Bool) (bytes : List UInt8) : Receiver := run (Receiver.step masked) {} bytes

/-- The payloads of the text messages. -/
def texts (events : List WireEvent) : List (List UInt8) :=
  events.filterMap fun
    | .message 1 payload => some payload
    | _ => none

/-! ## Reading a frame -/

namespace Receiver
section
variable {masked fin : Bool} {opcode length left n : Nat} {key data bs : List UInt8}
  {part : Option (Nat × List UInt8)} {events : List WireEvent} {b : UInt8} {r : Receiver}

theorem run_length (h : bs.length = left) (hleft : 1 ≤ left)
    (hn : bs.foldl (fun n b => n * 256 + b.toNat) n < 2 ^ 63) :
    run (step masked) ⟨.length fin opcode left n, part, events⟩ bs =
      body masked (between part events) fin opcode
        (bs.foldl (fun n b => n * 256 + b.toNat) n) := by
  induction bs generalizing left n with
  | nil => simp only [List.length_nil] at h; omega
  | cons b bs ih =>
    rw [List.length_cons] at h
    rw [run_cons, List.foldl_cons] at *
    cases bs with
    | nil =>
      have hlast : left ≤ 1 := by simp only [List.length_nil] at h; omega
      simp only [List.foldl_nil] at hn ⊢
      simp only [step, hlast, if_true, run_nil]
      rw [if_neg (by omega)]
      unfold body between
      rfl
    | cons b' bs =>
      have hmore : ¬ left ≤ 1 := by simp only [List.length_cons] at h; omega
      have hstep : step masked ⟨.length fin opcode left n, part, events⟩ b =
          ⟨.length fin opcode (left - 1) (n * 256 + b.toNat), part, events⟩ := by
        simp only [step, hmore, if_false]
      rw [hstep]
      exact ih (by omega) (by omega) hn

theorem run_payload (h : bs.length = left) (hleft : 1 ≤ left) :
    run (step masked) ⟨.payload fin opcode left key data, part, events⟩ bs =
      finish (between part events) fin opcode
        (data ++ if masked = true then unmask key data.length bs else bs) := by
  induction bs generalizing left data with
  | nil => simp only [List.length_nil] at h; omega
  | cons b bs ih =>
    rw [List.length_cons] at h
    rw [run_cons]
    let byte := if masked = true then b ^^^ key.getD (data.length % 4) 0 else b
    have hsplit : (data ++ if masked = true then unmask key data.length (b :: bs) else b :: bs) =
        (data ++ [byte]) ++
          if masked = true then unmask key (data ++ [byte]).length bs else bs := by
      cases masked <;> simp [byte, unmask]
    rw [hsplit]
    cases bs with
    | nil =>
      have hlast : left ≤ 1 := by simp only [List.length_nil] at h; omega
      have hnone : (if masked = true then unmask key (data ++ [byte]).length [] else []) = [] := by
        cases masked <;> rfl
      rw [hnone, List.append_nil, run_nil]
      simp only [step, hlast, if_true]
      rfl
    | cons b' bs =>
      have hmore : ¬ left ≤ 1 := by simp only [List.length_cons] at h; omega
      have hstep : step masked ⟨.payload fin opcode left key data, part, events⟩ b =
          ⟨.payload fin opcode (left - 1) key (data ++ [byte]), part, events⟩ := by
        simp only [step, hmore, if_false, byte]
      rw [hstep]
      exact ih (by omega) (by omega)

theorem step_between {first : UInt8} (h : ¬ first.toNat / 16 % 8 ≠ 0) :
    step masked (between part events) first =
      ⟨.opened (first.toNat ≥ 0x80) (first.toNat % 16), part, events⟩ := by
  simp only [step, between]
  rw [if_neg h]

/-- The mask and the payload behind a header. -/
theorem run_body (hkey : key.length = if masked = true then 4 else 0) (hbs : bs.length = length) :
    run (step masked) (body masked (between part events) fin opcode length) (key ++ bs) =
      finish (between part events) fin opcode (if masked = true then unmask key 0 bs else bs) := by
  cases masked with
  | false =>
    simp only [Bool.false_eq_true, if_false] at hkey ⊢
    rw [List.length_eq_zero_iff.mp hkey, List.nil_append]
    unfold body
    rw [if_neg (by decide)]
    split
    next hzero =>
      rw [List.length_eq_zero_iff.mp (hbs.trans hzero)]
      rfl
    next hzero =>
      have hrun : run (step false) ⟨.payload fin opcode length [] [], part, events⟩ bs = _ :=
        run_payload hbs (by omega)
      simpa [between] using hrun
  | true =>
    simp only [if_true] at hkey ⊢
    obtain ⟨a, b, c, d, rfl⟩ := List.length_eq_four.mp hkey
    have hmask : run (step true) (body true (between part events) fin opcode length) [a, b, c, d] =
        if length = 0 then finish (between part events) fin opcode []
        else ⟨.payload fin opcode length [a, b, c, d] [], part, events⟩ := rfl
    rw [run_append, hmask]
    split
    next hzero =>
      rw [List.length_eq_zero_iff.mp (hbs.trans hzero)]
      rfl
    next hzero =>
      have hrun : run (step true) ⟨.payload fin opcode length [a, b, c, d] [], part, events⟩ bs =
        _ := run_payload hbs (by omega)
      simpa using hrun

end
end Receiver

section
variable {server fin masked : Bool} {opcode headerLen length : Nat}
    {buffer rest header tail : List UInt8}
  {f : WireFrame} {part : Option (Nat × List UInt8)} {events : List WireEvent}

/-- The parts of a frame behind its header. -/
theorem framePayload_parts
    (h : framePayload fin masked opcode headerLen length (header ++ tail) = .frame f rest)
    (hheader : header.length = headerLen) :
    ∃ key bs, f.raw = header ++ (key ++ bs) ∧ key.length = (if masked = true then 4 else 0) ∧
      bs.length = length ∧ f.payload = (if masked = true then unmask key 0 bs else bs) ∧
      f.fin = fin ∧ f.opcode = opcode ∧ length ≤ messageLimit := by
  obtain ⟨-, -, -, hlimit, -⟩ := framePayload_frame h
  subst hheader
  unfold framePayload at h
  rw [if_neg (by omega)] at h
  dsimp only at h
  by_cases hshort : (header ++ tail).length <
      header.length + (if masked = true then 4 else 0) + length
  · rw [if_pos hshort] at h
    cases h
  rw [if_neg hshort, Nat.add_assoc, List.take_length_add_append] at h
  rw [List.length_append] at hshort
  injection h with hf hrest
  subst hf hrest
  cases masked with
  | true =>
    simp only [if_true] at hshort ⊢
    refine ⟨tail.take 4, (tail.drop 4).take length, ?_, ?_, ?_, ?_, trivial, trivial, hlimit⟩
    · rw [List.take_add]
    · rw [List.length_take]
      omega
    · rw [List.length_take, List.length_drop]
      omega
    · rw [List.drop_left, List.drop_length_add_append, List.take_take, Nat.min_eq_left (by omega),
        List.take_add, List.drop_left' (by rw [List.length_take]; omega)]
  | false =>
    simp only [Bool.false_eq_true, if_false, Nat.zero_add, Nat.add_zero] at hshort ⊢
    refine ⟨[], tail.take length, rfl, rfl, ?_, ?_, trivial, trivial, hlimit⟩
    · rw [List.length_take]
      omega
    · rw [List.drop_left]

/-- What is read behind a header that has been read. -/
theorem run_behind (hread : run (Receiver.step masked) (.between part events) header =
      Receiver.body masked (.between part events) fin opcode length)
    (h : framePayload fin masked opcode header.length length (header ++ tail) = .frame f rest) :
    run (Receiver.step masked) (.between part events) f.raw =
      (Receiver.between part events).finish f.fin f.opcode f.payload := by
  obtain ⟨key, bs, hraw, hkey, hbs, hpayload, hfin, hopcode, -⟩ := framePayload_parts h rfl
  rw [hraw, run_append, hread, Receiver.run_body hkey hbs, hpayload, hfin, hopcode]

/-- What is read of a frame whose length has bytes of its own. -/
theorem run_lengthBytes {first second : UInt8} {n : Nat} (hpos : 1 ≤ n) (hn : n ≤ tail.length)
    (hreserved : ¬ first.toNat / 16 % 8 ≠ 0)
    (hstep : Receiver.step masked ⟨.opened (first.toNat ≥ 0x80) (first.toNat % 16), part, events⟩
      second = ⟨.length (first.toNat ≥ 0x80) (first.toNat % 16) n 0, part, events⟩)
    (h : framePayload (first.toNat ≥ 0x80) masked (first.toNat % 16) (2 + n)
      (bigEndianNat (tail.take n)) (first :: second :: tail) = .frame f rest) :
    run (Receiver.step masked) (.between part events) f.raw =
      (Receiver.between part events).finish f.fin f.opcode f.payload := by
  have hlimit := (framePayload_frame h).2.2.2.1
  have htake : (tail.take n).length = n := by
    rw [List.length_take]
    omega
  have hheader : first :: second :: tail = first :: second :: tail.take n ++ tail.drop n := by
    simp
  have hsize : 2 + n = (first :: second :: tail.take n).length := by
    rw [List.length_cons, List.length_cons, htake]
    omega
  rw [hheader, hsize] at h
  refine run_behind ?_ h
  rw [run_cons, Receiver.step_between hreserved, run_cons, hstep]
  exact Receiver.run_length htake hpos (lt_of_le_of_lt hlimit (by decide))

/-- A frame that a gate has read, read by the peer. -/
theorem run_frame (h : parseFrame server buffer = .frame f rest) :
    run (Receiver.step !server) (.between part events) f.raw =
      (Receiver.between part events).finish f.fin f.opcode f.payload := by
  obtain ⟨first, second, tail, n, length, rfl, hreserved, hdirection, hlength, h⟩ :=
    parseFrame_cases h
  have hmasked : (second.toNat ≥ 0x80 : Bool) = !server := by
    generalize (second.toNat ≥ 0x80 : Bool) = masked at hdirection
    cases masked <;> cases server <;> simp_all
  rw [hmasked] at h
  cases hlength with
  | short hcode hn =>
    refine run_lengthBytes (by omega) hn hreserved ?_ h
    simp only [Receiver.step, hmasked, hcode, ne_eq, not_true_eq_false, if_false, if_true]
  | long hcode hn =>
    refine run_lengthBytes (by omega) hn hreserved ?_ h
    simp only [Receiver.step, hmasked, hcode, ne_eq, not_true_eq_false, if_false, if_true,
      Nat.reduceEqDiff]
  | own hshort hlong =>
    have hheader : first :: second :: tail = [first, second] ++ tail := rfl
    rw [hheader] at h
    refine run_behind ?_ h
    rw [run_cons, Receiver.step_between hreserved, run_cons, run_nil]
    simp only [Receiver.step, hmasked, hshort, hlong, ne_eq, not_true_eq_false, if_false]
    rfl

/-! ## The head -/

theorem no_marker_before {i j : Nat} (h : findMarker buffer = some i) (hj : j < i) :
    ¬ marker <+: buffer.drop j := by
  induction buffer generalizing i j with
  | nil => cases h
  | cons b bs ih =>
    unfold findMarker at h
    split at h
    · cases h
      omega
    next hahead =>
      obtain ⟨k, hk, rfl⟩ := Option.map_eq_some_iff.1 h
      cases j with
      | zero => exact fun hat => hahead (List.isPrefixOf_iff_prefix.2 hat)
      | succ j => exact ih hk (by omega)

/-- The head goes on as long as it does not end in an empty line. -/
theorem run_head {seen bs : List UInt8}
    (h : ∀ before, before <+: bs → before ≠ [] → ¬ marker <:+ seen ++ before) :
    run (Receiver.step masked) ⟨.head seen, part, events⟩ bs =
      ⟨.head (seen ++ bs), part, events⟩ := by
  induction bs generalizing seen with
  | nil => simp
  | cons b bs ih =>
    have hb : ¬ marker <:+ seen ++ [b] := h [b] (by simp) (by simp)
    have hstep : Receiver.step masked ⟨.head seen, part, events⟩ b =
        ⟨.head (seen ++ [b]), part, events⟩ := by
      simp only [Receiver.step]
      rw [if_neg hb]
    rw [run_cons, hstep, ih, List.append_assoc, List.singleton_append]
    intro before hbefore hne hmarker
    rw [List.append_assoc, List.singleton_append] at hmarker
    exact h (b :: before) (List.cons_prefix_cons.mpr ⟨rfl, hbefore⟩) (by simp) hmarker

/-- Where a head that ends in an empty line has it. -/
theorem marker_suffix {before : List UInt8} (h : before <+: buffer) (hm : marker <:+ before) :
    ∃ j, before.length = j + 4 ∧ marker <+: buffer.drop j := by
  obtain ⟨after, rfl⟩ := h
  obtain ⟨text, rfl⟩ := hm
  refine ⟨text.length, by simp [marker], ?_⟩
  rw [List.append_assoc, List.drop_left]
  exact List.prefix_append _ _

theorem receive_no_head (h : findMarker buffer = none) :
    receive masked buffer = ⟨.head buffer, none, []⟩ := by
  refine run_head fun before hbefore _ hm => ?_
  obtain ⟨j, -, hj⟩ := marker_suffix hbefore hm
  exact no_marker h hj

theorem receive_head {i : Nat} (h : findMarker buffer = some i) :
    receive masked (buffer.take (i + 4)) =
      .between none [.head (buffer.take (i + 4))] := by
  have hle := findMarker_le h
  have hend : marker <:+ buffer.take (i + 4) := by
    obtain ⟨after, hafter⟩ := marker_at h
    rw [List.take_add, ← hafter, List.take_left' (by simp [marker])]
    exact List.suffix_append _ _
  have hsplit : buffer.take (i + 4) = buffer.take (i + 3) ++ [buffer[i + 3]] := by
    rw [List.take_succ_eq_append_getElem (by omega)]
  have hbefore : run (Receiver.step masked) ⟨.head [], none, []⟩ (buffer.take (i + 3)) =
      ⟨.head (buffer.take (i + 3)), none, []⟩ := by
    refine run_head fun before hpre _ hm => ?_
    obtain ⟨j, hlen, hj⟩ := marker_suffix (hpre.trans (List.take_prefix _ _)) hm
    have hshort := hpre.length_le
    rw [List.length_take] at hshort
    exact no_marker_before h (by omega) hj
  unfold receive
  rw [hsplit, run_concat]
  rw [hsplit] at hend
  have hstart : ({} : Receiver) = ⟨.head [], none, []⟩ := rfl
  rw [hstart, hbefore]
  simp only [Receiver.step]
  rw [if_pos hend]
  rfl

/-! ## Events only come -/

theorem Receiver.extend_events {r : Receiver} {data : List UInt8} :
    r.events <+: (r.extend fin opcode data).events := by
  unfold Receiver.extend
  split
  · exact List.prefix_append _ _
  · exact List.prefix_rfl

theorem Receiver.finish_events {r : Receiver} {payload : List UInt8} :
    r.events <+: (r.finish fin opcode payload).events := by
  unfold Receiver.finish
  split
  · split
    · exact extend_events
    · exact List.prefix_rfl
  split
  · split
    · exact extend_events
    · exact List.prefix_rfl
  split
  · split
    · exact List.prefix_append _ _
    · exact List.prefix_rfl
  · exact List.prefix_rfl

theorem Receiver.body_events {r : Receiver} :
    r.events <+: (r.body masked fin opcode length).events := by
  unfold Receiver.body
  split
  · exact List.prefix_rfl
  split
  · exact finish_events
  · exact List.prefix_rfl

theorem Receiver.step_events {r : Receiver} {b : UInt8} :
    r.events <+: (r.step masked b).events := by
  unfold Receiver.step
  split
  · dsimp only
    split
    · exact List.prefix_append _ _
    · exact List.prefix_rfl
  · split <;> exact List.prefix_rfl
  · dsimp only
    split
    · exact List.prefix_rfl
    split
    · exact List.prefix_rfl
    split
    · exact List.prefix_rfl
    · exact body_events
  · dsimp only
    split
    · split
      · exact List.prefix_rfl
      · exact body_events
    · exact List.prefix_rfl
  · dsimp only
    split
    · exact List.prefix_rfl
    split
    · exact finish_events
    · exact List.prefix_rfl
  · dsimp only
    split
    · exact finish_events
    · exact List.prefix_rfl
  · exact List.prefix_rfl

theorem receive_events {more : List UInt8} :
    (receive masked buffer).events <+: (receive masked (buffer ++ more)).events := by
  unfold receive
  rw [run_append]
  exact run_relates (I := fun _ => True)
    (R := fun r r' : Receiver => r.events <+: r'.events) trivial
    (fun _ => List.prefix_rfl) (fun _ _ _ => List.IsPrefix.trans) (fun _ _ _ => trivial)
    fun _ _ _ => Receiver.step_events

end
end Orchestrator.Native
