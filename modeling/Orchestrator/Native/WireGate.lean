import Orchestrator.Native.Observer
import Orchestrator.Library.Run
import Mathlib.Algebra.GroupWithZero.Nat

/-!
# The gates on a relay's bytes

`NativeWebSocketGate` of `owner_helper.py`, and `AuthWebSocketGate` of `auth_wire.py` built on it.
A gate stands before the forwarding of a relay: it keeps the opening handshake and the frames of
a message back until they are complete, and releases a message once its policy has passed it.
-/
namespace Orchestrator.Native

def messageLimit : Nat := 65535
def chunkLimit : Nat := 4 * 1024 * 1024
def handshakeLimit : Nat := 65536

structure WireFrame where
  fin : Bool
  opcode : Nat
  payload : List UInt8
  raw : List UInt8
  deriving DecidableEq, Repr

/-- What `_frame` finds at the head of the buffer. -/
inductive ParsedFrame where
  | wait
  | reject (reason : String)
  | frame (f : WireFrame) (rest : List UInt8)
  deriving DecidableEq, Repr

/-- The rest of a frame, once the length of its payload is known. -/
def framePayload (fin masked : Bool) (opcode headerLen length : Nat) (buffer : List UInt8) :
    ParsedFrame :=
  if length > messageLimit then .reject "websocket_frame_too_large"
  else
    let start := headerLen + if masked = true then 4 else 0
    if buffer.length < start + length then .wait
    else
      let raw := buffer.take (start + length)
      let mask := (raw.drop headerLen).take 4
      let payload := raw.drop start
      .frame ⟨fin, opcode, if masked = true then unmask mask 0 payload else payload, raw⟩
        (buffer.drop (start + length))

/-- `_frame`. -/
def parseFrame (server : Bool) (buffer : List UInt8) : ParsedFrame :=
  match buffer with
  | first :: second :: rest =>
    let fin : Bool := first.toNat ≥ 0x80
    let opcode := first.toNat % 16
    let masked : Bool := second.toNat ≥ 0x80
    let code := second.toNat % 128
    if first.toNat / 16 % 8 ≠ 0 then .reject "websocket_compression_or_reserved"
    else if masked = server then .reject "websocket_mask_direction"
    else if code = 126 then
      if rest.length < 2 then .wait
      else framePayload fin masked opcode 4 (bigEndianNat (rest.take 2)) buffer
    else if code = 127 then
      if rest.length < 8 then .wait
      else if bigEndianNat (rest.take 1) ≥ 0x80 then .reject "websocket_length"
      else framePayload fin masked opcode 10 (bigEndianNat (rest.take 8)) buffer
    else framePayload fin masked opcode 2 code buffer
  | _ => .wait

/-! ## Gates -/

structure WireGate where
  server : Bool
  buffer : List UInt8 := []
  handshakeDone : Bool := false
  fragmentPayload : List UInt8 := []
  fragmentFrames : List (List UInt8) := []
  authClosed : Bool := false
  deriving DecidableEq, Repr

/-- What a call returns, or the reason it raises, beside what it leaves behind: the gate and the
state `π` of its policy. -/
structure Fed (π : Type*) where
  result : Except String (List UInt8)
  gate : WireGate
  policy : π

def Fed.rejected {π : Type*} (fed : Fed π) : Bool :=
  match fed.result with
  | .ok _ => false
  | .error _ => true

namespace WireGate
variable {π : Type*}

/-- The bytes that are kept between calls. -/
def retained (g : WireGate) : Nat :=
  g.buffer.length + g.fragmentPayload.length + (g.fragmentFrames.map List.length).sum

def release (g : WireGate) : WireGate := { g with fragmentPayload := [], fragmentFrames := [] }

def withhold (g : WireGate) (f : WireFrame) : WireGate :=
  { g with
    fragmentPayload := g.fragmentPayload ++ f.payload
    fragmentFrames := g.fragmentFrames ++ [f.raw] }

/-- `_complete_message`: the policy judges the payload, and the frames that carried it go out. -/
def completeMessage (accept : π → List UInt8 → Except String π) (p : π) (g : WireGate) : Fed π :=
  match accept p g.fragmentPayload with
  | .error reason => ⟨.error reason, g, p⟩
  | .ok p' => ⟨.ok g.fragmentFrames.flatten, g.release, p'⟩

/-- The branches of both gates for the frames of a message. -/
def dataFrame (accept : π → List UInt8 → Except String π) (p : π) (g : WireGate) (f : WireFrame) :
    Fed π :=
  if f.opcode = 1 then
    if g.fragmentFrames ≠ [] then ⟨.error "websocket_fragment_start", g, p⟩
    else if f.fin = true then (g.withhold f).completeMessage accept p
    else ⟨.ok [], g.withhold f, p⟩
  else
    if g.fragmentFrames = [] then ⟨.error "websocket_fragment_continuation", g, p⟩
    else if (g.withhold f).fragmentPayload.length > messageLimit then
      ⟨.error "websocket_message_too_large", g.withhold f, p⟩
    else if f.fin = true then (g.withhold f).completeMessage accept p
    else ⟨.ok [], g.withhold f, p⟩

/-- A frame in the loop of `NativeWebSocketGate._feed`. -/
def nativeFrame (accept : π → List UInt8 → Except String π) (p : π) (g : WireGate)
    (f : WireFrame) : Fed π :=
  if f.opcode = 1 ∨ f.opcode = 0 then g.dataFrame accept p f
  else ⟨.error "websocket_frame_opcode", g, p⟩

/-- A frame in the loop of `AuthWebSocketGate._feed_auth`. A close frame ends the loop, which its
empty buffer does here. -/
def authFrame (accept : π → List UInt8 → Except String π) (p : π) (g : WireGate)
    (f : WireFrame) : Fed π :=
  if f.opcode = 1 ∨ f.opcode = 0 then g.dataFrame accept p f
  else if f.opcode = 8 ∨ f.opcode = 9 ∨ f.opcode = 10 then
    if f.fin = false ∨ f.payload.length > 125 ∨ f.opcode = 8 ∧ f.payload.length = 1 then
      ⟨.error "websocket_control_frame", g, p⟩
    else if f.opcode = 8 then
      if g.buffer ≠ [] then ⟨.error "websocket_after_close", g, p⟩
      else ⟨.ok f.raw, { g.release with authClosed := true }, p⟩
    else ⟨.ok f.raw, g, p⟩
  else ⟨.error "websocket_frame_opcode", g, p⟩

/-- The loop over the frames of the buffer, each of which has two bytes at least. -/
def frames (handle : π → WireGate → WireFrame → Fed π) : Nat → π → WireGate → Fed π
  | 0, p, g => ⟨.ok [], g, p⟩
  | n + 1, p, g => match parseFrame g.server g.buffer with
    | .wait => ⟨.ok [], g, p⟩
    | .reject reason => ⟨.error reason, g, p⟩
    | .frame f rest => match handle p { g with buffer := rest } f with
      | ⟨.error reason, g', p'⟩ => ⟨.error reason, g', p'⟩
      | ⟨.ok out, g', p'⟩ => match frames handle n p' g' with
        | ⟨.error reason, g'', p''⟩ => ⟨.error reason, g'', p''⟩
        | ⟨.ok outs, g'', p''⟩ => ⟨.ok (out ++ outs), g'', p''⟩

/-- The loop, with what has gone out before it. -/
def framesAfter (handle : π → WireGate → WireFrame → Fed π) (head : List UInt8) (p : π)
    (g : WireGate) : Fed π :=
  match g.frames handle g.buffer.length p with
  | ⟨.error reason, g', p'⟩ => ⟨.error reason, g', p'⟩
  | ⟨.ok outs, g', p'⟩ => ⟨.ok (head ++ outs), g', p'⟩

def fill (g : WireGate) (data : List UInt8) : WireGate := { g with buffer := g.buffer ++ data }

def openAt (g : WireGate) (last : Nat) : WireGate :=
  { g with buffer := g.buffer.drop last, handshakeDone := true }

/-- `NativeWebSocketGate._feed`. -/
def nativeFeed (accept : π → List UInt8 → Except String π) (p : π) (g : WireGate)
    (data : List UInt8) : Fed π :=
  if data.length > chunkLimit then ⟨.error "wire_chunk", g, p⟩
  else
    let g := g.fill data
    if g.handshakeDone = true then g.framesAfter (fun p g => g.nativeFrame accept p) [] p
    else match findMarker g.buffer with
    | none =>
      if g.buffer.length > handshakeLimit then ⟨.error "websocket_handshake_size", g, p⟩
      else ⟨.ok [], g, p⟩
    | some i =>
      (g.openAt (i + 4)).framesAfter (fun p g => g.nativeFrame accept p) (g.buffer.take (i + 4)) p

/-- `_feed_auth`. -/
def feedAuth (accept : π → List UInt8 → Except String π) (p : π) (g : WireGate)
    (data : List UInt8) : Fed π :=
  if data.length > chunkLimit ∨ g.authClosed = true then ⟨.error "wire_chunk", g, p⟩
  else
    let g := g.fill data
    if g.handshakeDone = true then g.framesAfter (fun p g => g.authFrame accept p) [] p
    else match findMarker g.buffer with
    | none =>
      if g.buffer.length > handshakeLimit then ⟨.error "websocket_handshake_size", g, p⟩
      else ⟨.ok [], g, p⟩
    | some i =>
      if i + 4 > handshakeLimit then ⟨.error "websocket_handshake_size", g, p⟩
      else (g.openAt (i + 4)).framesAfter (fun p g => g.authFrame accept p)
        (g.buffer.take (i + 4)) p

/-- `AuthWebSocketGate.feed`: a rejection drops what was kept. -/
def authFeed (accept : π → List UInt8 → Except String π) (p : π) (g : WireGate)
    (data : List UInt8) : Fed π :=
  match g.feedAuth accept p data with
  | ⟨.error reason, g', p'⟩ => ⟨.error reason, { g'.release with buffer := [] }, p'⟩
  | fed => fed

end WireGate

inductive GateKind where
  | native | auth
  deriving DecidableEq, Repr

/-- `feed`. -/
def GateKind.feed {π : Type*} (kind : GateKind) (accept : π → List UInt8 → Except String π)
    (p : π) (g : WireGate) (data : List UInt8) : Fed π :=
  match kind with
  | .native => g.nativeFeed accept p data
  | .auth => g.authFeed accept p data

/-! ## Frames -/

section
variable {server fin masked : Bool} {opcode headerLen length : Nat} {buffer rest : List UInt8}
  {f : WireFrame}

theorem framePayload_frame
    (h : framePayload fin masked opcode headerLen length buffer = .frame f rest) :
    buffer = f.raw ++ rest ∧ f.raw.length = headerLen + (if masked = true then 4 else 0) + length ∧
      f.payload.length = length ∧ length ≤ messageLimit ∧
      ∀ more, framePayload fin masked opcode headerLen length (f.raw ++ more) = .frame f more := by
  unfold framePayload at h
  split at h
  · cases h
  next hsmall =>
    dsimp only at h
    generalize hstart : headerLen + (if masked = true then 4 else 0) = start at h ⊢
    split at h
    · cases h
    next hlong =>
      have hraw : (buffer.take (start + length)).length = start + length := by
        rw [List.length_take]
        omega
      injection h with hf hrest
      subst hf hrest
      refine ⟨(List.take_append_drop _ _).symm, hraw, ?_, by omega, fun more => ?_⟩
      · cases masked <;> simp [hraw]
      · rw [framePayload, if_neg hsmall]
        simp only [hstart]
        rw [if_neg (by rw [List.length_append]; omega), List.take_left' hraw, List.drop_left' hraw]

/-- A frame of more than two bytes has its own first ones. -/
theorem peel_header {first second : UInt8} {tail raw rest : List UInt8} (n : Nat)
    (hn : 2 + n ≤ raw.length) (hbuffer : first :: second :: tail = raw ++ rest) :
    ∃ left, raw = first :: second :: left ∧ n ≤ left.length ∧ tail = left ++ rest := by
  match raw, hn, hbuffer with
  | [], hn, _ => simp at hn
  | [_], hn, _ =>
    simp only [List.length_singleton] at hn
    omega
  | a :: b :: left, hn, hbuffer =>
    simp only [List.cons_append, List.cons.injEq] at hbuffer
    obtain ⟨rfl, rfl, htail⟩ := hbuffer
    exact ⟨left, rfl, by simp only [List.length_cons] at hn; omega, htail⟩

/-- Behind the first two bytes `n` bytes give the length, which the second one has or announces. -/
inductive LengthBytes (tail : List UInt8) (code : Nat) : Nat → Nat → Prop
  | short (hcode : code = 126) (hn : 2 ≤ tail.length) :
      LengthBytes tail code 2 (bigEndianNat (tail.take 2))
  | long (hcode : code = 127) (hn : 8 ≤ tail.length) (htop : ¬ bigEndianNat (tail.take 1) ≥ 0x80) :
      LengthBytes tail code 8 (bigEndianNat (tail.take 8))
  | own (hshort : code ≠ 126) (hlong : code ≠ 127) : LengthBytes tail code 0 code

theorem LengthBytes.le {tail : List UInt8} {code n length : Nat}
    (h : LengthBytes tail code n length) : n ≤ 8 := by
  cases h <;> omega

theorem LengthBytes.more {left rest : List UInt8} {code n length : Nat}
    (h : LengthBytes (left ++ rest) code n length) (hn : n ≤ left.length) (more : List UInt8) :
    LengthBytes (left ++ more) code n length := by
  have htake : ∀ k ≤ left.length, (left ++ rest).take k = (left ++ more).take k := fun k hk => by
    rw [List.take_append_of_le_length hk, List.take_append_of_le_length hk]
  cases h with
  | short hcode =>
    rw [htake 2 hn]
    exact .short hcode (by rw [List.length_append]; omega)
  | long hcode _ htop =>
    rw [htake 8 hn]
    rw [htake 1 (by omega)] at htop
    exact .long hcode (by rw [List.length_append]; omega) htop
  | own hshort hlong => exact .own hshort hlong

/-- A frame that is read has a header of one of three lengths. -/
theorem parseFrame_cases (h : parseFrame server buffer = .frame f rest) :
    ∃ first second tail n length, buffer = first :: second :: tail ∧
      ¬ first.toNat / 16 % 8 ≠ 0 ∧ ¬ (second.toNat ≥ 0x80 : Bool) = server ∧
      LengthBytes tail (second.toNat % 128) n length ∧
      framePayload (first.toNat ≥ 0x80) (second.toNat ≥ 0x80) (first.toNat % 16) (2 + n) length
        (first :: second :: tail) = .frame f rest := by
  match buffer, h with
  | first :: second :: tail, h =>
    unfold parseFrame at h
    dsimp only at h
    split at h
    · cases h
    next hreserved =>
      split at h
      · cases h
      next hdirection =>
        refine ⟨first, second, tail, ?_⟩
        split at h
        next hcode =>
          split at h
          · cases h
          next hshort => exact ⟨2, _, rfl, hreserved, hdirection, .short hcode (by omega), h⟩
        next hcode =>
          split at h
          next hcode' =>
            split at h
            · cases h
            next hshort =>
              split at h
              · cases h
              next htop => exact ⟨8, _, rfl, hreserved, hdirection, .long hcode' (by omega) htop, h⟩
          next hcode' => exact ⟨0, _, rfl, hreserved, hdirection, .own hcode hcode', h⟩

theorem parseFrame_of_length {first second : UInt8} {tail : List UInt8} {n length : Nat}
    (hreserved : ¬ first.toNat / 16 % 8 ≠ 0) (hdirection : ¬ (second.toNat ≥ 0x80 : Bool) = server)
    (h : LengthBytes tail (second.toNat % 128) n length) :
    parseFrame server (first :: second :: tail) =
      framePayload (first.toNat ≥ 0x80) (second.toNat ≥ 0x80) (first.toNat % 16) (2 + n) length
        (first :: second :: tail) := by
  rw [parseFrame]
  cases h with
  | short hcode hn => rw [if_neg hreserved, if_neg hdirection, if_pos hcode, if_neg (by omega)]
  | long hcode hn htop =>
    rw [if_neg hreserved, if_neg hdirection, if_neg (by omega), if_pos hcode, if_neg (by omega),
      if_neg htop]
  | own hshort hlong => rw [if_neg hreserved, if_neg hdirection, if_neg hshort, if_neg hlong]

/-- A frame is read off its own bytes, whatever is behind them. -/
theorem parseFrame_frame (h : parseFrame server buffer = .frame f rest) :
    buffer = f.raw ++ rest ∧ 2 ≤ f.raw.length ∧ f.raw.length ≤ 14 + f.payload.length ∧
      f.payload.length ≤ messageLimit ∧
      ∀ more, parseFrame server (f.raw ++ more) = .frame f more := by
  obtain ⟨first, second, tail, n, length, rfl, hreserved, hdirection, hlength, h⟩ :=
    parseFrame_cases h
  obtain ⟨hbuffer, hlen, hpayload, hlimit, hmore⟩ := framePayload_frame h
  obtain ⟨left, hraw, hn, rfl⟩ := peel_header n (by omega) hbuffer
  have hsmall := hlength.le
  have hmask : ∀ b : Bool, (if b = true then 4 else 0) ≤ 4 := by decide
  refine ⟨hbuffer, by omega, ?_, by omega, fun more => ?_⟩
  · have := hmask (second.toNat ≥ 0x80)
    omega
  · have hmore := hmore more
    rw [hraw] at hmore ⊢
    rwa [List.cons_append, List.cons_append,
      parseFrame_of_length hreserved hdirection (hlength.more hn more)]

theorem framePayload_wait (h : framePayload fin masked opcode headerLen length buffer = .wait) :
    buffer.length < headerLen + 4 + messageLimit := by
  unfold framePayload at h
  split at h
  · cases h
  next hsmall =>
    dsimp only at h
    have hmask : (if masked = true then 4 else 0) ≤ 4 := by cases masked <;> decide
    generalize (if masked = true then 4 else 0) = mask at h hmask
    split at h
    · omega
    · cases h

/-- A buffer in which a frame is awaited is smaller than the largest frame. -/
theorem parseFrame_wait (h : parseFrame server buffer = .wait) :
    buffer.length < 14 + messageLimit := by
  match buffer, h with
  | [], _ => simp [messageLimit]
  | [_], _ => simp [messageLimit]
  | first :: second :: tail, h =>
    unfold parseFrame at h
    dsimp only at h
    split at h
    · cases h
    split at h
    · cases h
    split at h
    · split at h
      next hshort => simp only [List.length_cons, messageLimit]; omega
      · have := framePayload_wait h
        omega
    split at h
    · split at h
      next hshort => simp only [List.length_cons, messageLimit]; omega
      · split at h
        · cases h
        · have := framePayload_wait h
          omega
    · have := framePayload_wait h
      omega

end

/-! ## What a frame does -/

namespace WireGate
section
variable {π : Type*} {kind : GateKind} {accept : π → List UInt8 → Except String π} {p p' : π}
  {g g' : WireGate} {f : WireFrame}

/-- The frame starts a message, or goes on with the one that is kept back. -/
def Continues (g : WireGate) (f : WireFrame) : Prop :=
  f.opcode = 1 ∧ g.fragmentFrames = [] ∨ f.opcode = 0 ∧ g.fragmentFrames ≠ []

/-- All that a frame can do to a gate. -/
inductive Took (kind : GateKind) (accept : π → List UInt8 → Except String π) (p : π)
    (g : WireGate) (f : WireFrame) : Fed π → Prop
  | withheld (hg : g.Continues f) (hfin : f.fin = false)
      (hsize : f.opcode = 0 → (g.withhold f).fragmentPayload.length ≤ messageLimit) :
      Took kind accept p g f ⟨.ok [], g.withhold f, p⟩
  | released {p' : π} (hg : g.Continues f) (hfin : f.fin = true)
      (haccept : accept p (g.withhold f).fragmentPayload = .ok p') :
      Took kind accept p g f ⟨.ok (g.withhold f).fragmentFrames.flatten, (g.withhold f).release, p'⟩
  | control (hkind : kind = .auth) (hf : f.opcode = 9 ∨ f.opcode = 10) (hfin : f.fin = true)
      (hsize : f.payload.length ≤ 125) : Took kind accept p g f ⟨.ok f.raw, g, p⟩
  | closed (hkind : kind = .auth) (hf : f.opcode = 8) (hfin : f.fin = true)
      (hsize : f.payload.length ≤ 125 ∧ f.payload.length ≠ 1) (hlast : g.buffer = []) :
      Took kind accept p g f ⟨.ok f.raw, { g.release with authClosed := true }, p⟩
  | refused {reason : String} : Took kind accept p g f ⟨.error reason, g, p⟩
  | spoiled {reason : String} (hg : g.Continues f) :
      Took kind accept p g f ⟨.error reason, g.withhold f, p⟩

theorem completeMessage_took (hg : g.Continues f) (hfin : f.fin = true) :
    Took kind accept p g f ((g.withhold f).completeMessage accept p) := by
  unfold completeMessage
  cases haccept : accept p (g.withhold f).fragmentPayload with
  | error reason => exact .spoiled hg
  | ok p' => exact .released hg hfin haccept

theorem dataFrame_took (hf : f.opcode = 1 ∨ f.opcode = 0) :
    Took kind accept p g f (g.dataFrame accept p f) := by
  unfold dataFrame
  split
  next hstart =>
    split
    · exact .refused
    next hempty =>
      have hg : g.Continues f := .inl ⟨hstart, not_not.mp hempty⟩
      split
      next hfin => exact completeMessage_took hg hfin
      next hfin =>
        exact .withheld hg (Bool.eq_false_iff.mpr hfin) fun h => (by rw [hstart] at h; cases h)
  next hstart =>
    split
    · exact .refused
    next hkept =>
      have hg : g.Continues f := .inr ⟨hf.resolve_left hstart, hkept⟩
      split
      · exact .spoiled hg
      next hsize =>
        split
        next hfin => exact completeMessage_took hg hfin
        next hfin => exact .withheld hg (Bool.eq_false_iff.mpr hfin) fun _ => not_lt.mp hsize

theorem nativeFrame_took : Took .native accept p g f (g.nativeFrame accept p f) := by
  unfold nativeFrame
  split
  next hf => exact dataFrame_took hf
  · exact .refused

theorem authFrame_took : Took .auth accept p g f (g.authFrame accept p f) := by
  unfold authFrame
  split
  next hf => exact dataFrame_took hf
  split
  next hf =>
    split
    · exact .refused
    next hsound =>
      have hfin : f.fin = true := by
        by_contra h
        exact hsound (.inl (Bool.eq_false_iff.mpr h))
      have hsize : f.payload.length ≤ 125 := not_lt.mp fun h => hsound (.inr (.inl h))
      split
      next hclose =>
        have hone : f.payload.length ≠ 1 := fun h => hsound (.inr (.inr ⟨hclose, h⟩))
        split
        · exact .refused
        next hlast => exact .closed rfl hclose hfin ⟨hsize, hone⟩ (not_not.mp hlast)
      next hclose => exact .control rfl (hf.resolve_left hclose) hfin hsize
  · exact .refused

/-- One pass of the loop, and the rest of them. -/
theorem frames_frame {handle : π → WireGate → WireFrame → Fed π} {n : Nat} {g'' : WireGate}
    {p'' : π} {rest out outs : List UInt8}
    (hparse : parseFrame g.server g.buffer = .frame f rest)
    (hhandle : handle p { g with buffer := rest } f = ⟨.ok out, g', p'⟩)
    (hrest : g'.frames handle n p' = ⟨.ok outs, g'', p''⟩) :
    g.frames handle (n + 1) p = ⟨.ok (out ++ outs), g'', p''⟩ := by
  rw [frames, hparse]
  dsimp only
  rw [hhandle]
  dsimp only
  rw [hrest]

end
end WireGate

end Orchestrator.Native
