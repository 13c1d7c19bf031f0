import Orchestrator.Native.WireGate
import Orchestrator.Native.Framing

/-!
# What a gate keeps between calls

The limits of a gate are on the bytes of its buffer and on the payload of an unfinished message.
The frames that are kept back are not counted, so a gate retains no more than those limits allow
but for the frames without payload of the message that the bytes which have arrived leave
unfinished.
-/
namespace Orchestrator.Native
open Library

/-! ## The frames of a stream -/

/-- The whole frames at the head of the bytes, each of which has two bytes at least. -/
def framesIn (server : Bool) : Nat → List UInt8 → List WireFrame
  | 0, _ => []
  | n + 1, bytes => match parseFrame server bytes with
    | .frame f rest => f :: framesIn server n rest
    | _ => []

/-- The frames of the unfinished message, once another frame has come: a text frame starts a
message, a continuation goes on with it, and a close frame ends it. -/
def WireFrame.joins (message : List WireFrame) (f : WireFrame) : List WireFrame :=
  if f.opcode = 1 then if f.fin = true then [] else [f]
  else if f.opcode = 0 then if f.fin = true then [] else message ++ [f]
  else if f.opcode = 8 then [] else message

/-- The frames of the message that the bytes leave unfinished. -/
def unfinished (server : Bool) (bytes : List UInt8) : List WireFrame :=
  (framesIn server bytes.length bytes).foldl WireFrame.joins []

/-- What has arrived of frames, once the opening handshake is over; `opened` says that it was
before any of these bytes. -/
def framesPart (opened : Bool) (arrived : List UInt8) : Option (List UInt8) :=
  if opened = true then some arrived
  else (findMarker arrived).map fun i => arrived.drop (i + 4)

/-- Each is a frame by itself. -/
def Whole (server : Bool) (fs : List WireFrame) : Prop :=
  ∀ f ∈ fs, parseFrame server f.raw = .frame f []

section
variable {server : Bool} {fs message : List WireFrame} {bytes more rest : List UInt8}
  {f : WireFrame} {n : Nat}

theorem Whole.parse (h : Whole server fs) (hf : f ∈ fs) :
    parseFrame server (f.raw ++ more) = .frame f more :=
  (parseFrame_frame (h f hf)).2.2.2.2 more

/-- Whole frames before bytes in which a frame is awaited are the frames of the stream. -/
theorem framesIn_whole (h : Whole server fs) (hrest : parseFrame server rest = .wait)
    (hn : ((fs.map WireFrame.raw).flatten ++ rest).length ≤ n) :
    framesIn server n ((fs.map WireFrame.raw).flatten ++ rest) = fs := by
  induction fs generalizing n with
  | nil =>
    cases n with
    | zero => rfl
    | succ n => simp [framesIn, hrest]
  | cons f fs ih =>
    have hlow := (parseFrame_frame (h f List.mem_cons_self)).2.1
    simp only [List.map_cons, List.flatten_cons, List.append_assoc, List.length_append] at hn ⊢
    obtain ⟨n, rfl⟩ : ∃ k, n = k + 1 := ⟨n - 1, by omega⟩
    rw [framesIn, h.parse List.mem_cons_self]
    dsimp only
    rw [ih (fun g hg => h g (List.mem_cons_of_mem _ hg)) (by rw [List.length_append]; omega)]

theorem whole_nil : Whole server [] := by
  intro f hf
  cases hf

theorem framesPart_none {opened : Bool} (h : framesPart opened bytes = none) : opened = false := by
  cases opened with
  | false => rfl
  | true => cases h

theorem framesPart_append {opened : Bool} {arrived : List UInt8}
    (h : framesPart opened arrived = some bytes) :
    framesPart opened (arrived ++ more) = some (bytes ++ more) := by
  unfold framesPart at h ⊢
  split at h
  · rename_i hopened
    rw [if_pos hopened, Option.some.inj h]
  · rename_i hopened
    obtain ⟨i, hi, rfl⟩ := Option.map_eq_some_iff.mp h
    rw [if_neg hopened, findMarker_append hi, Option.map_some,
      List.drop_append_of_le_length (findMarker_le hi)]

theorem mem_joins {g : WireFrame} (h : g ∈ WireFrame.joins message f) : g ∈ message ∨ g = f := by
  unfold WireFrame.joins at h
  split at h
  · split at h
    · cases h
    · exact .inr (List.mem_singleton.mp h)
  split at h
  · split at h
    · cases h
    · exact (List.mem_append.mp h).imp_right List.mem_singleton.mp
  split at h
  · cases h
  · exact .inl h

theorem mem_foldl_joins (h : f ∈ fs.foldl WireFrame.joins message) : f ∈ message ∨ f ∈ fs := by
  induction fs generalizing message with
  | nil => exact .inl h
  | cons g fs ih =>
    obtain h | h := ih h
    · obtain h | rfl := mem_joins h
      · exact .inl h
      · exact .inr List.mem_cons_self
    · exact .inr (List.mem_cons_of_mem _ h)

end

/-! ## What is kept back -/

/-- The payload of a frame, from its bytes. -/
def payloadOf (server : Bool) (raw : List UInt8) : List UInt8 :=
  match parseFrame server raw with
  | .frame f _ => f.payload
  | _ => []

namespace WireGate

/-- The frames kept back that carry no payload. -/
def emptyFrames (g : WireGate) : Nat :=
  g.fragmentFrames.countP fun raw => (payloadOf g.server raw).isEmpty

/-- What is kept back are whole frames, and their payload. -/
structure Coherent (g : WireGate) : Prop where
  payload : g.fragmentPayload = (g.fragmentFrames.map (payloadOf g.server)).flatten
  whole : ∀ raw ∈ g.fragmentFrames, ∃ f, parseFrame g.server raw = .frame f []

section
variable {server : Bool} {raw : List UInt8} {raws : List (List UInt8)} {f : WireFrame}

theorem whole_length (h : parseFrame server raw = .frame f []) :
    2 ≤ raw.length ∧ raw.length ≤ 14 + (payloadOf server raw).length := by
  obtain ⟨hraw, hlow, hhigh, -, -⟩ := parseFrame_frame h
  rw [List.append_nil] at hraw
  subst hraw
  simp only [payloadOf, h]
  exact ⟨hlow, hhigh⟩

theorem frames_length_le (h : ∀ raw ∈ raws, ∃ f, parseFrame server raw = .frame f []) :
    (raws.map List.length).sum ≤ 15 * (raws.map (payloadOf server)).flatten.length +
      14 * raws.countP (fun raw => (payloadOf server raw).isEmpty) := by
  induction raws with
  | nil => simp
  | cons raw raws ih =>
    obtain ⟨f, hf⟩ := h raw (by simp)
    have hraw := (whole_length hf).2
    have hrest := ih fun raw hmem => h raw (by simp [hmem])
    simp only [List.map_cons, List.sum_cons, List.flatten_cons, List.length_append,
      List.countP_cons]
    cases hp : payloadOf server raw with
    | nil =>
      rw [hp, List.length_nil] at hraw
      simp only [List.length_nil, List.isEmpty_nil, if_true]
      omega
    | cons b bs =>
      rw [hp, List.length_cons] at hraw
      simp only [List.length_cons, List.isEmpty_cons, Bool.false_eq_true, if_false]
      omega

theorem le_frames_length (h : ∀ raw ∈ raws, ∃ f, parseFrame server raw = .frame f []) :
    2 * raws.countP (fun raw => (payloadOf server raw).isEmpty) ≤
      (raws.map List.length).sum := by
  induction raws with
  | nil => simp
  | cons raw raws ih =>
    obtain ⟨f, hf⟩ := h raw (by simp)
    have hraw := (whole_length hf).1
    have hrest := ih fun raw hmem => h raw (by simp [hmem])
    simp only [List.map_cons, List.sum_cons, List.countP_cons]
    split <;> omega

end

section
variable {g : WireGate}

theorem Coherent.retained_le (h : g.Coherent) :
    g.retained ≤ g.buffer.length + 16 * g.fragmentPayload.length + 14 * g.emptyFrames := by
  have hframes := frames_length_le h.whole
  rw [← h.payload] at hframes
  unfold retained emptyFrames
  omega

theorem Coherent.le_retained (h : g.Coherent) : 2 * g.emptyFrames ≤ g.retained := by
  have hframes := le_frames_length h.whole
  unfold retained emptyFrames
  omega

theorem release_coherent : g.release.Coherent where
  payload := rfl
  whole := by simp [WireGate.release]

theorem Coherent.setBuffer {buffer : List UInt8} (h : g.Coherent) :
    Coherent { g with buffer := buffer } := ⟨h.payload, h.whole⟩

theorem Coherent.withhold {f : WireFrame} {buffer rest : List UInt8} (h : g.Coherent)
    (hf : parseFrame g.server buffer = .frame f rest) : (g.withhold f).Coherent := by
  have hraw := (parseFrame_frame hf).2.2.2.2 []
  rw [List.append_nil] at hraw
  constructor
  · simp only [WireGate.withhold, List.map_append, List.flatten_append, h.payload]
    simp [payloadOf, hraw]
  · intro raw hmem
    simp only [WireGate.withhold, List.mem_append, List.mem_singleton] at hmem
    obtain hmem | rfl := hmem
    · exact h.whole raw hmem
    · exact ⟨f, hraw⟩

end

/-- The frames kept back that carry no payload, by the frames that they are. -/
theorem emptyFrames_eq {g : WireGate} {fs : List WireFrame} (hwhole : Whole g.server fs)
    (h : g.fragmentFrames = fs.map WireFrame.raw) :
    g.emptyFrames = fs.countP fun f => f.payload.isEmpty := by
  unfold emptyFrames
  rw [h, List.countP_map]
  refine List.countP_congr fun f hf => ?_
  simp [payloadOf, hwhole f hf]

/-! ## One frame, and all of them -/

section
variable {π : Type*} {kind : GateKind} {accept : π → List UInt8 → Except String π} {p : π}
  {g : WireGate} {f : WireFrame} {buffer rest : List UInt8} {fed : Fed π}

/-- Coherent, with at most `n` bytes of payload kept back. -/
structure Kept (n : Nat) (g : WireGate) : Prop extends Coherent g where
  size : g.fragmentPayload.length ≤ n

/-- Where a call is rejected, its last frame may have been kept in excess. -/
def payloadRoom (rejected : Bool) : Nat :=
  if rejected = true then 2 * messageLimit else messageLimit

theorem le_payloadRoom (rejected : Bool) : messageLimit ≤ payloadRoom rejected := by
  cases rejected <;> decide

def KeptAfter (fed : Fed π) : Prop := fed.gate.Kept (payloadRoom fed.rejected)

theorem Took.kept (ht : Took kind accept p { g with buffer := rest } f fed)
    (h : g.Kept messageLimit) (hf : parseFrame g.server buffer = .frame f rest) :
    KeptAfter fed ∧ fed.gate.buffer = rest ∧ fed.gate.server = g.server := by
  have hcoherent : Coherent { g with buffer := rest } := h.toCoherent.setBuffer
  have hsize := h.size
  have hpayload := (parseFrame_frame hf).2.2.2.1
  have hadded : ({ g with buffer := rest }.withhold f).Kept (payloadRoom true) := by
    refine ⟨hcoherent.withhold hf, ?_⟩
    simp only [withhold, List.length_append, payloadRoom, if_true]
    omega
  cases ht with
  | withheld hg hfin hlimit =>
    refine ⟨⟨hadded.toCoherent, ?_⟩, rfl, rfl⟩
    obtain ⟨-, hnone⟩ | ⟨hop, -⟩ := hg
    · have hstart : g.fragmentPayload = [] := by
        rw [h.payload, hnone]
        rfl
      simpa [withhold, hstart, payloadRoom, Fed.rejected] using hpayload
    · exact hlimit hop
  | released hg hfin haccept => exact ⟨⟨release_coherent, Nat.zero_le _⟩, rfl, rfl⟩
  | control => exact ⟨⟨hcoherent, hsize⟩, rfl, rfl⟩
  | closed hkind hop hfin hsmall hlast =>
    exact ⟨⟨⟨rfl, by simp [WireGate.release]⟩, Nat.zero_le _⟩, rfl, rfl⟩
  | refused => exact ⟨⟨hcoherent, le_trans hsize (le_payloadRoom _)⟩, rfl, rfl⟩
  | spoiled hg => exact ⟨hadded, rfl, rfl⟩

/-- A frame leaves one more without payload at most. -/
theorem Took.emptyFrames_le (ht : Took kind accept p g f fed) :
    fed.gate.emptyFrames ≤ g.emptyFrames + 1 := by
  have hadded : (g.withhold f).emptyFrames ≤ g.emptyFrames + 1 := by
    simp only [emptyFrames, withhold, List.countP_append, List.countP_singleton]
    split <;> omega
  have hnone : g.release.emptyFrames = 0 := rfl
  cases ht with
  | withheld => exact hadded
  | released => exact Nat.zero_le _
  | control => exact Nat.le_succ _
  | closed => exact Nat.zero_le _
  | refused => exact Nat.le_succ _
  | spoiled => exact hadded

/-- What is kept back after a frame that was accepted. -/
theorem Took.joins {kept : List WireFrame} {out : List UInt8} (ht : Took kind accept p g f fed)
    (hkept : g.fragmentFrames = kept.map WireFrame.raw) (hok : fed.result = .ok out) :
    fed.gate.fragmentFrames = (WireFrame.joins kept f).map WireFrame.raw := by
  cases ht with
  | withheld hg hfin =>
    obtain ⟨hop, hnone⟩ | ⟨hop, -⟩ := hg
    · simp [withhold, WireFrame.joins, hop, hfin, hnone]
    · simp [withhold, WireFrame.joins, hop, hfin, hkept]
  | released hg hfin =>
    obtain ⟨hop, -⟩ | ⟨hop, -⟩ := hg <;> simp [release, WireFrame.joins, hop, hfin]
  | control hkind hop => obtain hop | hop := hop <;> simp [WireFrame.joins, hop, hkept]
  | closed hkind hop => simp [release, WireFrame.joins, hop]
  | refused => cases hok
  | spoiled => cases hok

theorem Took.server (ht : Took kind accept p g f fed) : fed.gate.server = g.server := by
  cases ht <;> rfl

theorem Took.handshakeDone (ht : Took kind accept p g f fed) :
    fed.gate.handshakeDone = g.handshakeDone := by
  cases ht <;> rfl

/-- The frames `fs` have been read from the bytes, behind those in `kept`, and the gate awaits the
next one. -/
structure Reads (server : Bool) (bytes : List UInt8) (kept fs : List WireFrame) (g : WireGate) :
    Prop where
  side : g.server = server
  done : g.handshakeDone = true
  bytes : bytes = (fs.map WireFrame.raw).flatten ++ g.buffer
  whole : Whole server fs
  waits : parseFrame server g.buffer = .wait
  keeps : g.fragmentFrames = (fs.foldl WireFrame.joins kept).map WireFrame.raw

theorem Reads.trans {server : Bool} {bytes data : List UInt8} {kept fs fs' : List WireFrame}
    {g' : WireGate} (h : Reads server bytes kept fs g)
    (h' : Reads server (g.buffer ++ data) (fs.foldl WireFrame.joins kept) fs' g') :
    Reads server (bytes ++ data) kept (fs ++ fs') g' where
  side := h'.side
  done := h'.done
  bytes := by
    rw [h.bytes, List.append_assoc, h'.bytes, List.map_append, List.flatten_append,
      List.append_assoc]
  whole := List.forall_mem_append.mpr ⟨h.whole, h'.whole⟩
  waits := h'.waits
  keeps := by rw [h'.keeps, List.foldl_append]

/-- What failed yields nothing. -/
theorem failed_not_ok {ε α : Type} {P : α → Prop} (e : ε) :
    ∀ out, (Except.error e : Except ε α) = .ok out → P out := by
  intro out h
  cases h

/-- The loop keeps what it keeps, ends where a frame is awaited and never fills the buffer. -/
theorem frames_kept {handle : π → WireGate → WireFrame → Fed π} {n : Nat}
    (took : ∀ p g f, Took kind accept p g f (handle p g f)) (h : g.Kept messageLimit)
    (hn : g.buffer.length ≤ n) :
    KeptAfter (g.frames handle n p) ∧
      (g.frames handle n p).gate.buffer.length ≤ g.buffer.length ∧
      (∀ out, (g.frames handle n p).result = .ok out →
        (g.frames handle n p).gate.buffer.length < 14 + messageLimit) := by
  induction n generalizing g p with
  | zero =>
    refine ⟨h, le_rfl, fun _ _ => ?_⟩
    simp only [frames]
    omega
  | succ n ih =>
    unfold frames
    cases hparse : parseFrame g.server g.buffer with
    | wait => exact ⟨h, le_rfl, fun _ _ => parseFrame_wait hparse⟩
    | reject reason =>
      exact ⟨⟨h.toCoherent, le_trans h.size (le_payloadRoom _)⟩, le_rfl, failed_not_ok _⟩
    | frame f rest =>
      obtain ⟨hbuffer, hlow, -⟩ := parseFrame_frame hparse
      have hshort : rest.length + 2 ≤ g.buffer.length := by
        rw [hbuffer, List.length_append]
        omega
      obtain ⟨hkept, hrest, hserver⟩ := (took p { g with buffer := rest } f).kept h hparse
      dsimp only
      generalize handle p { g with buffer := rest } f = fed at hkept hrest ⊢
      rcases fed with ⟨reason | out, g', p'⟩
      · exact ⟨hkept, by dsimp only at hrest ⊢; rw [hrest]; omega, failed_not_ok _⟩
      · dsimp only at hrest ⊢
        obtain ⟨hafter, hle, hok⟩ := ih (p := p') hkept (by rw [hrest]; omega)
        rw [hrest] at hle
        generalize frames handle n p' g' = fed at hafter hle hok ⊢
        rcases fed with ⟨reason | outs, g'', p''⟩
        · exact ⟨hafter, by dsimp only at hle ⊢; omega, failed_not_ok _⟩
        · exact ⟨hafter, by dsimp only at hle ⊢; omega, fun _ _ => hok outs rfl⟩

/-- A loop that is not rejected reads all the frames of the buffer. -/
theorem frames_reads {handle : π → WireGate → WireFrame → Fed π} {n : Nat} {kept : List WireFrame}
    {out : List UInt8} (took : ∀ p g f, Took kind accept p g f (handle p g f))
    (h : g.Kept messageLimit) (hdone : g.handshakeDone = true)
    (hkept : g.fragmentFrames = kept.map WireFrame.raw) (hn : g.buffer.length ≤ n)
    (hok : (g.frames handle n p).result = .ok out) :
    ∃ fs, Reads g.server g.buffer kept fs (g.frames handle n p).gate := by
  induction n generalizing g p kept out with
  | zero =>
    have hnone : g.buffer = [] := List.length_eq_zero_iff.mp (Nat.le_zero.mp hn)
    exact ⟨[], rfl, hdone, rfl, whole_nil, by rw [frames, hnone]; rfl, hkept⟩
  | succ n ih =>
    unfold frames at hok ⊢
    cases hparse : parseFrame g.server g.buffer with
    | wait => exact ⟨[], rfl, hdone, rfl, whole_nil, hparse, hkept⟩
    | reject reason =>
      rw [hparse] at hok
      cases hok
    | frame f rest =>
      obtain ⟨hbuffer, hlow, -, -, hself⟩ := parseFrame_frame hparse
      have hshort : rest.length + 2 ≤ g.buffer.length := by
        rw [hbuffer, List.length_append]
        omega
      have ht := took p { g with buffer := rest } f
      obtain ⟨hafter, hrest, hserver⟩ := ht.kept h hparse
      have hjoins : ∀ out, (handle p { g with buffer := rest } f).result = .ok out → _ =
          (WireFrame.joins kept f).map WireFrame.raw := fun _ hok => ht.joins hkept hok
      have hdone := ht.handshakeDone.trans hdone
      rw [hparse] at hok
      dsimp only at hok ⊢
      generalize handle p { g with buffer := rest } f = fed
        at hok hafter hrest hserver hjoins hdone ⊢
      rcases fed with ⟨reason | outs, g', p'⟩
      · cases hok
      dsimp only at hok hrest hserver hjoins hdone ⊢
      have hloop : ∀ outs', (frames handle n p' g').result = .ok outs' → ∃ fs, _ :=
        fun _ hok => ih hafter hdone (hjoins outs rfl) (by rw [hrest]; omega) hok
      generalize frames handle n p' g' = fed at hok hloop ⊢
      rcases fed with ⟨reason | outs', g'', p''⟩
      · cases hok
      obtain ⟨fs, hreads⟩ := hloop outs' rfl
      rw [hserver, hrest] at hreads
      refine ⟨f :: fs, hreads.side, hreads.done, ?_, List.forall_mem_cons.mpr ⟨?_, hreads.whole⟩,
        hreads.waits, hreads.keeps⟩
      · rw [hbuffer, hreads.bytes, List.map_cons, List.flatten_cons, List.append_assoc]
      · simpa using hself []

/-- A frame that is read has two bytes at least, so that few of those in the buffer can be without
payload. -/
theorem frames_emptyFrames {handle : π → WireGate → WireFrame → Fed π} {n : Nat}
    (took : ∀ p g f, Took kind accept p g f (handle p g f)) (h : g.Kept messageLimit) :
    2 * (g.frames handle n p).gate.emptyFrames + (g.frames handle n p).gate.buffer.length ≤
      2 * g.emptyFrames + g.buffer.length := by
  induction n generalizing g p with
  | zero => exact le_rfl
  | succ n ih =>
    unfold frames
    cases hparse : parseFrame g.server g.buffer with
    | wait => exact le_rfl
    | reject reason => exact le_rfl
    | frame f rest =>
      obtain ⟨hbuffer, hlow, -⟩ := parseFrame_frame hparse
      have hlength : g.buffer.length = f.raw.length + rest.length := by
        rw [hbuffer, List.length_append]
      have ht := took p { g with buffer := rest } f
      obtain ⟨hafter, hrest, -⟩ := ht.kept h hparse
      have hone : _ ≤ g.emptyFrames + 1 := ht.emptyFrames_le
      dsimp only
      generalize handle p { g with buffer := rest } f = fed at hafter hrest hone ⊢
      rcases fed with ⟨reason | outs, g', p'⟩
      · dsimp only at hrest hone ⊢
        rw [hrest]
        omega
      · dsimp only at hrest hone ⊢
        have hloop := ih (p := p') hafter
        rw [hrest] at hloop
        generalize frames handle n p' g' = fed at hloop ⊢
        rcases fed with ⟨reason | outs', g'', p''⟩ <;> dsimp only at hloop ⊢ <;> omega

theorem frames_server {handle : π → WireGate → WireFrame → Fed π} {n : Nat}
    (took : ∀ p g f, Took kind accept p g f (handle p g f)) :
    (g.frames handle n p).gate.server = g.server := by
  induction n generalizing g p with
  | zero => rfl
  | succ n ih =>
    unfold frames
    cases parseFrame g.server g.buffer with
    | wait => rfl
    | reject reason => rfl
    | frame f rest =>
      have hstep : _ = g.server := (took p { g with buffer := rest } f).server
      dsimp only
      generalize handle p { g with buffer := rest } f = fed at hstep ⊢
      rcases fed with ⟨reason | outs, g', p'⟩
      · exact hstep
      · have hloop := ih (g := g') (p := p')
        dsimp only at hstep ⊢
        generalize frames handle n p' g' = fed at hloop ⊢
        rcases fed with ⟨reason | outs', g'', p''⟩ <;> exact hloop.trans hstep

theorem framesAfter_kept {handle : π → WireGate → WireFrame → Fed π} {head : List UInt8}
    (took : ∀ p g f, Took kind accept p g f (handle p g f)) (h : g.Kept messageLimit) :
    KeptAfter (g.framesAfter handle head p) ∧
      (g.framesAfter handle head p).gate.buffer.length ≤ g.buffer.length ∧
      (∀ out, (g.framesAfter handle head p).result = .ok out →
        (g.framesAfter handle head p).gate.buffer.length < 14 + messageLimit) := by
  unfold framesAfter
  obtain ⟨hkept, hle, hok⟩ := frames_kept took h le_rfl
  generalize g.frames handle g.buffer.length p = fed at hkept hle hok ⊢
  rcases fed with ⟨reason | outs, g', p'⟩
  · exact ⟨hkept, hle, nofun⟩
  · exact ⟨hkept, hle, fun _ _ => hok outs rfl⟩

theorem framesAfter_reads {handle : π → WireGate → WireFrame → Fed π} {kept : List WireFrame}
    {head out : List UInt8} (took : ∀ p g f, Took kind accept p g f (handle p g f))
    (h : g.Kept messageLimit) (hdone : g.handshakeDone = true)
    (hkept : g.fragmentFrames = kept.map WireFrame.raw)
    (hok : (g.framesAfter handle head p).result = .ok out) :
    ∃ fs, Reads g.server g.buffer kept fs (g.framesAfter handle head p).gate := by
  have hreads : ∀ out, (g.frames handle g.buffer.length p).result = .ok out → ∃ fs, _ :=
    fun _ hok => frames_reads took h hdone hkept le_rfl hok
  unfold framesAfter at hok ⊢
  generalize g.frames handle g.buffer.length p = fed at hok hreads ⊢
  rcases fed with ⟨reason | outs, g', p'⟩
  · cases hok
  · exact hreads outs rfl

theorem framesAfter_server {handle : π → WireGate → WireFrame → Fed π} {head : List UInt8}
    (took : ∀ p g f, Took kind accept p g f (handle p g f)) :
    (g.framesAfter handle head p).gate.server = g.server := by
  have hloop : (g.frames handle g.buffer.length p).gate.server = g.server := frames_server took
  unfold framesAfter
  generalize g.frames handle g.buffer.length p = fed at hloop ⊢
  rcases fed with ⟨reason | outs, g', p'⟩ <;> exact hloop

theorem framesAfter_emptyFrames {handle : π → WireGate → WireFrame → Fed π} {head : List UInt8}
    (took : ∀ p g f, Took kind accept p g f (handle p g f)) (h : g.Kept messageLimit) :
    2 * (g.framesAfter handle head p).gate.emptyFrames ≤ 2 * g.emptyFrames + g.buffer.length := by
  have hloop := frames_emptyFrames (n := g.buffer.length) (p := p) took h
  unfold framesAfter
  generalize g.frames handle g.buffer.length p = fed at hloop ⊢
  rcases fed with ⟨reason | outs, g', p'⟩ <;> dsimp only at hloop ⊢ <;> omega

/-- Where a call is rejected, its bytes may still be in the buffer. -/
def bufferRoom (rejected : Bool) : Nat :=
  14 + messageLimit + if rejected = true then chunkLimit else 0

theorem bufferRoom_le (rejected : Bool) :
    bufferRoom rejected ≤ 14 + messageLimit + chunkLimit := by
  cases rejected <;> decide

/-- What holds of a gate after a call, accepted or rejected. -/
structure Within (rejected : Bool) (g : WireGate) : Prop where
  kept : g.Kept (payloadRoom rejected)
  buffer : g.buffer.length ≤ bufferRoom rejected

theorem Within.rejected (h : g.Within false) : g.Within true :=
  ⟨⟨h.kept.toCoherent, le_trans h.kept.size (by decide)⟩, le_trans h.buffer (by decide)⟩

theorem handshakeLimit_le : handshakeLimit ≤ bufferRoom false := by decide

/-- The frames of a buffer that was within the limits before `data` came. -/
theorem framesAfter_within {handle : π → WireGate → WireFrame → Fed π} {head : List UInt8}
    (took : ∀ p g f, Took kind accept p g f (handle p g f)) (h : g.Kept messageLimit)
    (hb : g.buffer.length ≤ 14 + messageLimit + chunkLimit) :
    (g.framesAfter handle head p).gate.Within (g.framesAfter handle head p).rejected := by
  have hafter : KeptAfter (g.framesAfter handle head p) ∧ _ := framesAfter_kept took h
  obtain ⟨hkept, hle, hok⟩ := hafter
  refine ⟨hkept, ?_⟩
  generalize g.framesAfter handle head p = fed at hle hok ⊢
  rcases fed with ⟨reason | outs, g', p'⟩
  · simpa [Fed.rejected, bufferRoom] using le_trans hle hb
  · simpa [Fed.rejected, bufferRoom] using le_of_lt (hok outs rfl)

theorem nativeFeed_within {data : List UInt8} (h : g.Within false) :
    (g.nativeFeed accept p data).gate.Within (g.nativeFeed accept p data).rejected := by
  unfold nativeFeed
  split
  · exact h.rejected
  next hchunk =>
    have hkept : (g.fill data).Kept messageLimit := ⟨h.kept.setBuffer, h.kept.size⟩
    have hbuffer : (g.fill data).buffer.length ≤ 14 + messageLimit + chunkLimit := by
      have hold := h.buffer
      simp only [bufferRoom, Bool.false_eq_true, if_false] at hold
      simp only [fill, List.length_append]
      omega
    have hrejected : (g.fill data).Within true :=
      ⟨⟨hkept.toCoherent, le_trans hkept.size (le_payloadRoom _)⟩, by simpa [bufferRoom]⟩
    dsimp only
    split
    · exact framesAfter_within (fun _ _ _ => nativeFrame_took) hkept hbuffer
    split
    · split
      · exact hrejected
      next hsmall => exact ⟨hkept, le_trans (not_lt.mp hsmall) handshakeLimit_le⟩
    · refine framesAfter_within (fun _ _ _ => nativeFrame_took)
        ⟨⟨hkept.payload, hkept.whole⟩, hkept.size⟩ ?_
      exact le_trans (by simp [openAt]) hbuffer

theorem feedAuth_within {data : List UInt8} (h : g.Within false) :
    (g.feedAuth accept p data).gate.Within (g.feedAuth accept p data).rejected := by
  unfold feedAuth
  split
  · exact h.rejected
  next hchunk =>
    have hkept : (g.fill data).Kept messageLimit := ⟨h.kept.setBuffer, h.kept.size⟩
    have hbuffer : (g.fill data).buffer.length ≤ 14 + messageLimit + chunkLimit := by
      have hold := h.buffer
      simp only [bufferRoom, Bool.false_eq_true, if_false] at hold
      simp only [fill, List.length_append]
      have := not_lt.mp fun hlong => hchunk (.inl hlong)
      omega
    have hrejected : (g.fill data).Within true :=
      ⟨⟨hkept.toCoherent, le_trans hkept.size (le_payloadRoom _)⟩, by simpa [bufferRoom]⟩
    dsimp only
    split
    · exact framesAfter_within (fun _ _ _ => authFrame_took) hkept hbuffer
    split
    · split
      · exact hrejected
      next hsmall => exact ⟨hkept, le_trans (not_lt.mp hsmall) handshakeLimit_le⟩
    · split
      · exact hrejected
      · refine framesAfter_within (fun _ _ _ => authFrame_took)
          ⟨⟨hkept.payload, hkept.whole⟩, hkept.size⟩ ?_
        exact le_trans (by simp [openAt]) hbuffer

/-- A rejection leaves nothing in an authentication gate. -/
theorem authFeed_within {data : List UInt8} (h : g.Within false) :
    (g.authFeed accept p data).gate.Within false := by
  have hfed : (g.feedAuth accept p data).gate.Within (g.feedAuth accept p data).rejected :=
    feedAuth_within h
  unfold authFeed
  rcases hcall : g.feedAuth accept p data with ⟨reason | out, g', p'⟩
  · exact ⟨⟨⟨rfl, by simp [release]⟩, Nat.zero_le _⟩, Nat.zero_le _⟩
  · rwa [hcall] at hfed

/-- The gate has read what has arrived: before the handshake is over all of it is in the buffer. -/
def Follows (g : WireGate) (server opened : Bool) (arrived : List UInt8) : Prop :=
  match framesPart opened arrived with
  | none => g.server = server ∧ g.handshakeDone = false ∧ g.buffer = arrived ∧ g.fragmentFrames = []
  | some bytes => ∃ fs, Reads server bytes [] fs g

theorem Follows.waiting {server opened : Bool} {arrived : List UInt8}
    (h : g.Follows server opened arrived) (hdone : g.handshakeDone = false) :
    framesPart opened arrived = none ∧ g.server = server ∧ g.buffer = arrived ∧
      g.fragmentFrames = [] := by
  unfold Follows at h
  split at h
  · rename_i hnone
    exact ⟨hnone, h.1, h.2.2⟩
  · obtain ⟨fs, hreads⟩ := h
    rw [hreads.done] at hdone
    cases hdone

theorem Follows.flowing {server opened : Bool} {arrived : List UInt8}
    (h : g.Follows server opened arrived) (hdone : g.handshakeDone = true) :
    ∃ bytes fs, framesPart opened arrived = some bytes ∧ Reads server bytes [] fs g := by
  unfold Follows at h
  split at h
  · rw [h.2.1] at hdone
    cases hdone
  · rename_i bytes hsome
    obtain ⟨fs, hreads⟩ := h
    exact ⟨bytes, fs, hsome, hreads⟩

/-- Bytes that are not rejected, behind the handshake. -/
theorem Follows.framesAfter {server opened : Bool} {arrived data out : List UInt8}
    {handle : π → WireGate → WireFrame → Fed π}
    (took : ∀ p g f, Took kind accept p g f (handle p g f)) (h : g.Follows server opened arrived)
    (hkept : g.Kept messageLimit) (hdone : g.handshakeDone = true)
    (hok : ((g.fill data).framesAfter handle [] p).result = .ok out) :
    ((g.fill data).framesAfter handle [] p).gate.Follows server opened (arrived ++ data) := by
  obtain ⟨bytes, fs, hpart, hreads⟩ := h.flowing hdone
  obtain rfl := hreads.side
  obtain ⟨fs', hloop⟩ := framesAfter_reads (g := g.fill data) took
    ⟨⟨hkept.payload, hkept.whole⟩, hkept.size⟩ hdone hreads.keeps hok
  rw [Follows, framesPart_append hpart]
  exact ⟨fs ++ fs', hreads.trans hloop⟩

/-- Bytes that are not rejected and bring the end of the handshake. -/
theorem Follows.openAt {server opened : Bool} {arrived data head out : List UInt8} {i : Nat}
    {handle : π → WireGate → WireFrame → Fed π}
    (took : ∀ p g f, Took kind accept p g f (handle p g f)) (h : g.Follows server opened arrived)
    (hkept : g.Kept messageLimit) (hdone : g.handshakeDone = false)
    (hfind : findMarker (g.fill data).buffer = some i)
    (hok : (((g.fill data).openAt (i + 4)).framesAfter handle head p).result = .ok out) :
    (((g.fill data).openAt (i + 4)).framesAfter handle head p).gate.Follows server opened
      (arrived ++ data) := by
  obtain ⟨hpart, rfl, rfl, hnone⟩ := h.waiting hdone
  have hstart : ((g.fill data).openAt (i + 4)).fragmentFrames = List.map WireFrame.raw [] := hnone
  obtain ⟨fs, hreads⟩ := framesAfter_reads (g := (g.fill data).openAt (i + 4)) took
    ⟨⟨hkept.payload, hkept.whole⟩, hkept.size⟩ rfl hstart hok
  have hfind : findMarker (g.buffer ++ data) = _ := hfind
  rw [Follows, framesPart, framesPart_none hpart, if_neg Bool.false_ne_true, hfind]
  exact ⟨fs, hreads⟩

/-- Bytes without the end of the handshake. -/
theorem Follows.fill {server opened : Bool} {arrived data : List UInt8}
    (h : g.Follows server opened arrived) (hdone : g.handshakeDone = false)
    (hfind : findMarker (g.fill data).buffer = none) :
    (g.fill data).Follows server opened (arrived ++ data) := by
  obtain ⟨hpart, rfl, rfl, hnone⟩ := h.waiting hdone
  have hfind : findMarker (g.buffer ++ data) = _ := hfind
  rw [Follows, framesPart, framesPart_none hpart, if_neg Bool.false_ne_true, hfind]
  exact ⟨rfl, hdone, rfl, hnone⟩

theorem Follows.side {server opened : Bool} {arrived : List UInt8}
    (h : g.Follows server opened arrived) : g.server = server := by
  cases hdone : g.handshakeDone with
  | false => exact (h.waiting hdone).2.1
  | true =>
    obtain ⟨bytes, fs, -, hreads⟩ := h.flowing hdone
    exact hreads.side

theorem feedAuth_server {data : List UInt8} :
    (g.feedAuth accept p data).gate.server = g.server := by
  have hloop : ∀ head (g' : WireGate), (g'.framesAfter (fun p g => g.authFrame accept p) head
      p).gate.server = g'.server := fun _ _ => framesAfter_server fun _ _ _ => authFrame_took
  unfold feedAuth
  dsimp only
  split
  · rfl
  split
  · exact hloop _ _
  split
  · split <;> rfl
  · split
    · rfl
    · exact hloop _ _

theorem nativeFeed_follows {server opened : Bool} {arrived data out : List UInt8}
    (h : g.Follows server opened arrived) (hkept : g.Kept messageLimit)
    (hok : (g.nativeFeed accept p data).result = .ok out) :
    (g.nativeFeed accept p data).gate.Follows server opened (arrived ++ data) := by
  unfold nativeFeed at hok ⊢
  split at hok
  · cases hok
  rename_i hchunk
  rw [if_neg hchunk]
  dsimp only at hok ⊢
  cases hdone : g.handshakeDone with
  | true =>
    have hfilled : (g.fill data).handshakeDone = true := hdone
    rw [if_pos hfilled] at hok ⊢
    exact h.framesAfter (fun _ _ _ => nativeFrame_took) hkept hdone hok
  | false =>
    have hfilled : ¬ (g.fill data).handshakeDone = true := by simp [WireGate.fill, hdone]
    rw [if_neg hfilled] at hok ⊢
    split at hok
    · split at hok
      · cases hok
      · rename_i hfind hsmall
        rw [if_neg hsmall]
        exact h.fill hdone hfind
    · rename_i i hfind
      exact h.openAt (fun _ _ _ => nativeFrame_took) hkept hdone hfind hok

theorem feedAuth_follows {server opened : Bool} {arrived data out : List UInt8}
    (h : g.Follows server opened arrived) (hkept : g.Kept messageLimit)
    (hok : (g.feedAuth accept p data).result = .ok out) :
    (g.feedAuth accept p data).gate.Follows server opened (arrived ++ data) := by
  unfold feedAuth at hok ⊢
  split at hok
  · cases hok
  rename_i hchunk
  rw [if_neg hchunk]
  dsimp only at hok ⊢
  cases hdone : g.handshakeDone with
  | true =>
    have hfilled : (g.fill data).handshakeDone = true := hdone
    rw [if_pos hfilled] at hok ⊢
    exact h.framesAfter (fun _ _ _ => authFrame_took) hkept hdone hok
  | false =>
    have hfilled : ¬ (g.fill data).handshakeDone = true := by simp [WireGate.fill, hdone]
    rw [if_neg hfilled] at hok ⊢
    split at hok
    · split at hok
      · cases hok
      · rename_i hfind hsmall
        rw [if_neg hsmall]
        exact h.fill hdone hfind
    · split at hok
      · cases hok
      rename_i i hfind hlate
      rw [if_neg hlate]
      exact h.openAt (fun _ _ _ => authFrame_took) hkept hdone hfind hok

theorem follows_empty {server : Bool} (hserver : g.server = server) (hbuffer : g.buffer = [])
    (hframes : g.fragmentFrames = []) : g.Follows server g.handshakeDone [] := by
  cases hdone : g.handshakeDone with
  | false => exact ⟨hserver, hdone, hbuffer, hframes⟩
  | true => exact ⟨[], hserver, hdone, by rw [hbuffer]; rfl, whole_nil, by rw [hbuffer]; rfl,
      hframes⟩

/-- After a rejection an authentication gate starts anew, behind the handshake if that is over. -/
theorem authFeed_follows {server opened : Bool} {arrived data : List UInt8}
    (h : g.Follows server opened arrived) (hkept : g.Kept messageLimit) :
    (g.authFeed accept p data).gate.Follows server
      (if (g.authFeed accept p data).rejected = true then
        (g.authFeed accept p data).gate.handshakeDone else opened)
      (if (g.authFeed accept p data).rejected = true then [] else arrived ++ data) := by
  have hfed : ∀ out, (g.feedAuth accept p data).result = .ok out → Follows _ _ _ _ :=
    fun _ hok => feedAuth_follows h hkept hok
  have hserver : (g.feedAuth accept p data).gate.server = server := feedAuth_server.trans h.side
  unfold authFeed
  generalize g.feedAuth accept p data = fed at hfed hserver ⊢
  rcases fed with ⟨reason | out, g', p'⟩
  · exact follows_empty hserver rfl rfl
  · exact hfed out rfl

/-- A native call adds no more frames without payload than its bytes make up. -/
theorem nativeFeed_emptyFrames {data : List UInt8} (h : g.Within false) :
    2 * (g.nativeFeed accept p data).gate.emptyFrames ≤
      2 * g.emptyFrames + (14 + messageLimit + chunkLimit) := by
  have hold := h.buffer
  simp only [bufferRoom, Bool.false_eq_true, if_false] at hold
  have hkept : (g.fill data).Kept messageLimit := ⟨h.kept.setBuffer, h.kept.size⟩
  unfold nativeFeed
  split
  · exact Nat.le_add_right _ _
  next hchunk =>
    have hfilled : (g.fill data).buffer.length ≤ 14 + messageLimit + chunkLimit := by
      simp only [fill, List.length_append]
      omega
    dsimp only
    split
    · exact le_trans (framesAfter_emptyFrames (fun _ _ _ => nativeFrame_took) hkept)
        (Nat.add_le_add_left hfilled _)
    split
    · split <;> exact Nat.le_add_right _ _
    · refine le_trans (framesAfter_emptyFrames (fun _ _ _ => nativeFrame_took)
        ⟨⟨hkept.payload, hkept.whole⟩, hkept.size⟩) (Nat.add_le_add_left (le_trans ?_ hfilled) _)
      simp [openAt]

/-- The frames without payload that are kept back are those that have arrived. -/
theorem Follows.emptyFrames {server opened : Bool} {arrived : List UInt8}
    (h : g.Follows server opened arrived) : g.emptyFrames =
      (framesPart opened arrived).elim 0 fun bytes =>
        (unfinished server bytes).countP fun f => f.payload.isEmpty := by
  cases hdone : g.handshakeDone with
  | false =>
    obtain ⟨hpart, -, -, hnone⟩ := h.waiting hdone
    rw [hpart, WireGate.emptyFrames, hnone]
    rfl
  | true =>
    obtain ⟨bytes, fs, hpart, hreads⟩ := h.flowing hdone
    have hframes : framesIn server bytes.length bytes = fs := by
      rw [hreads.bytes]
      exact framesIn_whole hreads.whole hreads.waits le_rfl
    have hwhole : Whole g.server (fs.foldl WireFrame.joins []) := fun f hf =>
      hreads.side ▸ hreads.whole f ((mem_foldl_joins hf).resolve_left List.not_mem_nil)
    rw [hpart, emptyFrames_eq hwhole hreads.keeps]
    simp only [Option.elim_some, unfinished, hframes]

theorem Within.retained_le {rejected : Bool} (h : g.Within rejected) :
    g.retained ≤ 14 + messageLimit + chunkLimit + 16 * (2 * messageLimit) +
      14 * g.emptyFrames := by
  have hretained := h.kept.retained_le
  have hsize : g.fragmentPayload.length ≤ 2 * messageLimit :=
    le_trans h.kept.size (by cases rejected <;> decide)
  have hbuffer : g.buffer.length ≤ 14 + messageLimit + chunkLimit :=
    le_trans h.buffer (bufferRoom_le rejected)
  omega

end
end WireGate

/-! ## Calls one after the other -/

/-- A gate between calls; whether one has been rejected, and what has arrived since the last one
that was: the bytes, and whether the opening handshake was over before them. -/
structure Gated where
  gate : WireGate
  rejected : Bool := false
  opened : Bool := false
  arrived : List UInt8 := []

section
variable {π : Type*} (kind : GateKind) (accept : π → List UInt8 → Except String π)

/-- A call under the state that the policy has at that time: the gates of the two directions
share it. -/
def Gated.call (s : Gated) (c : π × List UInt8) : Gated :=
  let fed := kind.feed accept c.1 s.gate c.2
  if fed.rejected = true then ⟨fed.gate, true, fed.gate.handshakeDone, []⟩
  else ⟨fed.gate, s.rejected, s.opened, s.arrived ++ c.2⟩

/-- The frames without payload in the message that the bytes which have arrived leave
unfinished. -/
def Gated.emptyArrived (server : Bool) (s : Gated) : Nat :=
  (framesPart s.opened s.arrived).elim 0 fun bytes =>
    (unfinished server bytes).countP fun f => f.payload.isEmpty

def gatedAfter (server : Bool) (calls : List (π × List UInt8)) : Gated :=
  run (Gated.call kind accept) ⟨{ server := server }, false, false, []⟩ calls

def retainedAfter (server : Bool) (calls : List (π × List UInt8)) : Nat :=
  (gatedAfter kind accept server calls).gate.retained

def emptyArrivedAfter (server : Bool) (calls : List (π × List UInt8)) : Nat :=
  (gatedAfter kind accept server calls).emptyArrived server

/-- What is retained where no frame without payload arrives for an unfinished message. -/
def gateBound : Nat := 8 * (14 + messageLimit + chunkLimit) + 16 * (2 * messageLimit)

end

section
variable {π : Type*} {kind : GateKind} {accept : π → List UInt8 → Except String π}
  {server : Bool} {calls : List (π × List UInt8)} {S : Set (List (π × List UInt8))}

/-- A native gate that is not called again once it has rejected. -/
def Stops (kind : GateKind) (accept : π → List UInt8 → Except String π) (server : Bool)
    (calls : List (π × List UInt8)) : Prop :=
  AllSteps (Gated.call kind accept) (fun s _ => kind = .native → s.rejected = false)
    ⟨{ server := server }, false, false, []⟩ calls

/-- Native gates keep nothing from a call they reject that later calls could add to. -/
structure Gated.Limited (kind : GateKind) (server : Bool) (s : Gated) : Prop where
  within : s.gate.Within (kind = .native ∧ s.rejected = true : Bool)
  follows : (kind = .native → s.rejected = false) → s.gate.Follows server s.opened s.arrived
  forgets : kind = .native → s.rejected = true → s.arrived = []

theorem Gated.call_limited {s : Gated} {c : π × List UInt8} (h : s.Limited kind server)
    (hc : kind = .native → s.rejected = false) : (s.call kind accept c).Limited kind server := by
  have hfollows : s.gate.Follows server s.opened s.arrived := h.follows hc
  have hwithin := h.within
  cases kind with
  | native =>
    have hquiet := hc rfl
    simp only [hquiet, and_false, Bool.false_eq_true, decide_false] at hwithin
    have hfed : (s.gate.nativeFeed accept c.1 c.2).gate.Within _ :=
      WireGate.nativeFeed_within hwithin
    have hreads : ∀ out, (s.gate.nativeFeed accept c.1 c.2).result = .ok out →
        WireGate.Follows _ _ _ _ := fun _ hok =>
      WireGate.nativeFeed_follows hfollows hwithin.kept hok
    unfold Gated.call GateKind.feed
    generalize s.gate.nativeFeed accept c.1 c.2 = fed at hfed hreads
    rcases fed with ⟨reason | out, g', p'⟩
    · refine ⟨hfed, fun hstill => ?_, fun _ _ => rfl⟩
      cases hstill rfl
    · refine ⟨?_, fun _ => hreads out rfl, fun _ hrejected => ?_⟩
      · simpa [Fed.rejected, hquiet] using hfed
      · rw [show _ = s.rejected from rfl, hquiet] at hrejected
        cases hrejected
  | auth =>
    have hwithin : s.gate.Within false := by simpa using hwithin
    have hfed : (s.gate.authFeed accept c.1 c.2).gate.Within false :=
      WireGate.authFeed_within hwithin
    have hreads : (s.gate.authFeed accept c.1 c.2).gate.Follows server _ _ :=
      WireGate.authFeed_follows hfollows hwithin.kept
    unfold Gated.call GateKind.feed
    dsimp only
    split
    · rename_i hrejected
      rw [if_pos hrejected, if_pos hrejected] at hreads
      exact ⟨by simpa using hfed, fun _ => hreads, fun hnative => by cases hnative⟩
    · rename_i hrejected
      rw [if_neg hrejected, if_neg hrejected] at hreads
      exact ⟨by simpa using hfed, fun _ => hreads, fun hnative => by cases hnative⟩

theorem Gated.call_gate {s : Gated} {c : π × List UInt8} :
    (s.call kind accept c).gate = (kind.feed accept c.1 s.gate c.2).gate := by
  unfold Gated.call
  dsimp only
  split <;> rfl

theorem run_limited (h : Stops kind accept server calls) :
    (gatedAfter kind accept server calls).Limited kind server := by
  refine run_invariant_when (I := Gated.Limited kind server) ?_
    (fun s c hs hc => Gated.call_limited hs hc) h
  have hstart : ({ server := server } : WireGate).Within false :=
    ⟨⟨⟨rfl, by simp⟩, Nat.zero_le _⟩, Nat.zero_le _⟩
  exact ⟨by simpa using hstart, fun _ => ⟨rfl, rfl, rfl, rfl⟩, fun _ h => by cases h⟩

theorem Gated.Limited.emptyArrived_le {s : Gated} (h : s.Limited kind server) :
    s.emptyArrived server ≤ s.gate.emptyFrames := by
  by_cases hc : kind = .native → s.rejected = false
  · exact le_of_eq (h.follows hc).emptyFrames.symm
  · obtain ⟨hkind, hrejected⟩ := not_forall.mp hc
    rw [Gated.emptyArrived, h.forgets hkind (Bool.not_eq_false _ ▸ hrejected)]
    cases s.opened <;> exact Nat.zero_le _

/-- What is kept back has arrived, but for what a native gate was fed with the call it rejected. -/
theorem emptyFrames_le {E : Nat} (h : Stops kind accept server calls)
    (hE : ∀ before, before <+: calls → emptyArrivedAfter kind accept server before ≤ E) :
    2 * (gatedAfter kind accept server calls).gate.emptyFrames ≤
      2 * E + (14 + messageLimit + chunkLimit) := by
  have hlimited := run_limited h
  by_cases hc : kind = .native → (gatedAfter kind accept server calls).rejected = false
  · have hcount := (hlimited.follows hc).emptyFrames
    have hle := hE calls List.prefix_rfl
    rw [emptyArrivedAfter, Gated.emptyArrived, ← hcount] at hle
    omega
  · obtain ⟨rfl, hrejected⟩ := not_forall.mp hc
    induction calls using List.reverseRecOn with
    | nil => exact absurd rfl hrejected
    | append_singleton calls c _ =>
      have hbefore : Stops .native accept server calls := AllSteps.of_append h
      have hquiet : (gatedAfter .native accept server calls).rejected = false :=
        (AllSteps.from_append h).1 rfl
      obtain ⟨hwithin, hfollows, -⟩ := run_limited hbefore
      have hwithin : (gatedAfter .native accept server calls).gate.Within false := by
        simpa only [hquiet, and_false, Bool.false_eq_true, decide_false] using hwithin
      have hcount := (hfollows fun _ => hquiet).emptyFrames
      have hle := hE calls (List.prefix_append _ _)
      rw [emptyArrivedAfter, Gated.emptyArrived, ← hcount] at hle
      have hcall : 2 * ((gatedAfter .native accept server calls).gate.nativeFeed accept c.1
          c.2).gate.emptyFrames ≤ _ := WireGate.nativeFeed_emptyFrames hwithin
      have hgate : (gatedAfter .native accept server (calls ++ [c])).gate =
          ((gatedAfter .native accept server calls).gate.nativeFeed accept c.1 c.2).gate := by
        rw [gatedAfter, run_concat, Gated.call_gate]
        rfl
      rw [hgate]
      omega

theorem retainedAfter_le {E : Nat} (h : Stops kind accept server calls)
    (hE : ∀ before, before <+: calls → emptyArrivedAfter kind accept server before ≤ E) :
    retainedAfter kind accept server calls ≤ gateBound + 14 * E := by
  have hretained := (run_limited h).within.retained_le
  have hempty := emptyFrames_le h hE
  unfold retainedAfter gateBound
  omega

theorem le_retainedAfter (h : Stops kind accept server calls) :
    2 * emptyArrivedAfter kind accept server calls ≤ retainedAfter kind accept server calls := by
  have hlimited := run_limited h
  have hretained := hlimited.within.kept.le_retained
  have harrived := hlimited.emptyArrived_le
  unfold retainedAfter emptyArrivedAfter
  omega

/-- `B` bounds what is retained at any time in these runs. -/
def RetainsAtMost (kind : GateKind) (accept : π → List UInt8 → Except String π) (server : Bool)
    (S : Set (List (π × List UInt8))) (B : Nat) : Prop :=
  ∀ calls ∈ S, ∀ before, before <+: calls → retainedAfter kind accept server before ≤ B

/-- At no time in these runs has an unfinished message arrived with more than `E` frames without
payload. -/
def EmptyAtMost (kind : GateKind) (accept : π → List UInt8 → Except String π) (server : Bool)
    (S : Set (List (π × List UInt8))) (E : Nat) : Prop :=
  ∀ calls ∈ S, ∀ before, before <+: calls → emptyArrivedAfter kind accept server before ≤ E

/-- Gates are bounded exactly where the frames without payload are that arrive for an unfinished
message. -/
theorem retained_bounded_iff (hS : ∀ calls ∈ S, Stops kind accept server calls) :
    (∀ E, EmptyAtMost kind accept server S E →
      RetainsAtMost kind accept server S (gateBound + 14 * E)) ∧
    ((∃ B, RetainsAtMost kind accept server S B) ↔ ∃ E, EmptyAtMost kind accept server S E) := by
  have stops : ∀ calls ∈ S, ∀ before, before <+: calls → Stops kind accept server before := by
    rintro calls hcalls before ⟨after, rfl⟩
    exact (hS _ hcalls).of_append
  have bounded : ∀ E, EmptyAtMost kind accept server S E →
      RetainsAtMost kind accept server S (gateBound + 14 * E) :=
    fun E hE calls hcalls before hbefore => retainedAfter_le (stops calls hcalls before hbefore)
      fun earlier hearlier => hE calls hcalls earlier (hearlier.trans hbefore)
  refine ⟨bounded, ?_, fun ⟨E, hE⟩ => ⟨_, bounded E hE⟩⟩
  rintro ⟨B, hB⟩
  refine ⟨B, fun calls hcalls before hbefore => ?_⟩
  have hle := le_retainedAfter (stops calls hcalls before hbefore)
  have hretained := hB calls hcalls before hbefore
  omega

end

/-! ## A message that is never finished -/

/-- A masked frame without payload: `0x01` starts a message, `0x00` goes on with it. -/
def emptyFrame (first : UInt8) : List UInt8 := [first, 0x80, 0, 0, 0, 0]

def passAll (_ : Unit) (_ : List UInt8) : Except String Unit := .ok ()

/-- A handshake, the start of a message, and `n` empty continuations of it. -/
def floodCalls (n : Nat) : List (Unit × List UInt8) :=
  ((), marker ++ emptyFrame 0x01) :: List.replicate n ((), emptyFrame 0x00)

/-- The gate after them. -/
def floodGate (n : Nat) : WireGate where
  server := false
  handshakeDone := true
  fragmentFrames := emptyFrame 0x01 :: List.replicate n (emptyFrame 0x00)

theorem parse_emptyFrame : parseFrame false (emptyFrame 0x00) =
    .frame ⟨false, 0, [], emptyFrame 0x00⟩ [] := by decide

theorem floodGate_frames (handle : Unit → WireGate → WireFrame → Fed Unit) (n : Nat)
    (hdata : ∀ g f, f.opcode = 0 → handle () g f = g.dataFrame passAll () f) :
    ((floodGate n).fill (emptyFrame 0x00)).framesAfter handle [] () =
      ⟨.ok [], floodGate (n + 1), ()⟩ := by
  have hstep : handle () (floodGate n) ⟨false, 0, [], emptyFrame 0x00⟩ =
      ⟨.ok [], floodGate (n + 1), ()⟩ := by
    rw [hdata _ _ rfl]
    simp [WireGate.dataFrame, WireGate.withhold, floodGate, List.replicate_succ']
  have hend : WireGate.frames handle 5 () (floodGate (n + 1)) =
      ⟨.ok [], floodGate (n + 1), ()⟩ := rfl
  have hframes : WireGate.frames handle 6 () ((floodGate n).fill (emptyFrame 0x00)) =
      ⟨.ok [], floodGate (n + 1), ()⟩ := by
    have hparse : parseFrame ((floodGate n).fill (emptyFrame 0x00)).server
        ((floodGate n).fill (emptyFrame 0x00)).buffer = _ := parse_emptyFrame
    have hpass := WireGate.frames_frame hparse hstep hend
    exact hpass
  have hlength : ((floodGate n).fill (emptyFrame 0x00)).buffer.length = 6 := rfl
  rw [WireGate.framesAfter, hlength, hframes]
  rfl

theorem floodGate_feed (kind : GateKind) (n : Nat) :
    kind.feed passAll () (floodGate n) (emptyFrame 0x00) = ⟨.ok [], floodGate (n + 1), ()⟩ := by
  have hsmall : ¬ (emptyFrame 0x00).length > chunkLimit := by decide
  cases kind with
  | native =>
    have hframes := floodGate_frames (fun p g => g.nativeFrame passAll p) n
      fun g f hf => by simp only [WireGate.nativeFrame, hf, or_true, if_true]
    rw [GateKind.feed, WireGate.nativeFeed, if_neg hsmall]
    exact hframes
  | auth =>
    have hfed : (floodGate n).feedAuth passAll () (emptyFrame 0x00) =
        ⟨.ok [], floodGate (n + 1), ()⟩ := by
      have hframes := floodGate_frames (fun p g => g.authFrame passAll p) n
        fun g f hf => by simp only [WireGate.authFrame, hf, or_true, if_true]
      rw [WireGate.feedAuth, if_neg (not_or.mpr ⟨hsmall, (by simp [floodGate])⟩)]
      exact hframes
    rw [GateKind.feed, WireGate.authFeed, hfed]

theorem floodGate_run (kind : GateKind) (n : Nat) :
    (gatedAfter kind passAll false (floodCalls n)).gate = floodGate n := by
  induction n with
  | zero => cases kind <;> rfl
  | succ n ih =>
    have hcalls : floodCalls (n + 1) = floodCalls n ++ [((), emptyFrame 0x00)] := by
      rw [floodCalls, List.replicate_succ', ← List.cons_append, floodCalls]
    rw [gatedAfter] at ih ⊢
    rw [hcalls, run_concat, Gated.call_gate, ih, floodGate_feed]

theorem floodGate_retained (n : Nat) : (floodGate n).retained = 6 * (n + 1) := by
  simp [WireGate.retained, floodGate, emptyFrame]
  omega

/-- The rule for one run of three continuations. -/
theorem flood_of_three_bounded_iff :
    (∀ E, EmptyAtMost .native passAll false {floodCalls 3} E →
      RetainsAtMost .native passAll false {floodCalls 3} (gateBound + 14 * E)) ∧
    ((∃ B, RetainsAtMost .native passAll false {floodCalls 3} B) ↔
      ∃ E, EmptyAtMost .native passAll false {floodCalls 3} E) := by
  refine retained_bounded_iff ?_
  rintro _ rfl
  unfold Stops
  decide

/-- Whoever never finishes a message grows both gates without a bound, though no call is
rejected. -/
theorem flood_exceeds_any_bound :
    ¬ ∃ B, ∀ kind calls, retainedAfter kind passAll false calls ≤ B := by
  rintro ⟨B, hB⟩
  have hbound := hB .native (floodCalls B)
  rw [retainedAfter, floodGate_run, floodGate_retained] at hbound
  omega

end Orchestrator.Native
