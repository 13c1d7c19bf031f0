import Orchestrator.Native.Encoding

/-!
# Decoding what was encoded

Each side's bytes are fed in any number of calls, those of the other side between them. The
observer records the messages in the order in which their last bytes come, provided that the
client's upgrade is complete before the server's.
-/
namespace Orchestrator.Native
open Library PythonJson

section
variable {cfg : Config} {key : List Char} {d : Direction}

/-- The records that frames make. -/
def eventCount (fs : List (Frame cfg d × Option (Message cfg))) : Nat :=
  fs.countP fun f => decide (8 ≤ f.1.opcode) || f.2.isSome

def Half.recordCount (s : Half cfg key d) : Nat := 1 + eventCount s.frames

/-- The message that the `n`th byte of frames ends. -/
def endAt : Nat → List (Frame cfg d × Option (Message cfg)) → Option (Message cfg)
  | _, [] => none
  | n, (f, m) :: fs =>
    if n < f.encode.length then none
    else if n = f.encode.length then m
    else endAt (n - f.encode.length) fs

def Half.endAt (s : Half cfg key d) (n : Nat) : Option (Message cfg) :=
  Native.endAt (n - s.header.length) s.frames

/-- The messages in the order in which their last bytes are fed, where `fed` bytes have been fed
before and each further one goes in the direction given. -/
def arrivals (s : ∀ d, Half cfg key d) :
    (Direction → Nat) → List Direction → List (Direction × Value)
  | _, [] => []
  | fed, d :: ds =>
    ((s d).endAt (fed d + 1)).toList.map (fun m => (d, m.value)) ++
      arrivals s (Function.update fed d (fed d + 1)) ds

/-- What messages are recorded as, and the requests that they leave pending; `none` where one is
refused. -/
def transcript (cfg : Config) :
    Pending → List (Direction × Value) → Option (Pending × List (Direction × Event))
  | pending, [] => some (pending, [])
  | pending, (d, value) :: rest => match processRpc cfg pending d value with
    | .gap _ => none
    | .record pending event => (transcript cfg pending rest).map fun result =>
      (result.1, (d, event) :: result.2)

/-- The records of messages. -/
def Event.isRpc : Event → Bool
  | .rpc .. | .rpcUnknown .. | .rpcResponse .. => true
  | _ => false

def rpcRecords (records : List Record) : List (Option Direction × Event) :=
  (records.filter (·.event.isRpc)).map fun r => (r.direction, r.event)

/-! ## Frames one by one -/

/-- The tap after a frame or a header: the parser has gone on, and there is a record or none. -/
def Tap.advance (t : Tap) (d : Direction) (p : Parser) (pending : Pending)
    (clientKey : Option (List Char)) (event : Option Event) : Tap :=
  ⟨{ t.connection.setParser p d with pending := pending, clientKey := clientKey },
    match event with
    | none => t.queue
    | some e =>
      ⟨t.queue.nextSequence + 1,
        t.queue.events ++ [⟨e, t.connection.epoch, t.queue.nextSequence, d⟩]⟩⟩

/-- The parser between two frames. -/
def Parser.between (part : Option (List UInt8)) (buffer : List UInt8) : Parser :=
  ⟨buffer, true, part.map fun _ => 1, part.getD []⟩

/-- What a frame is recorded as, with the message that it ends. -/
def outcome (cfg : Config) (pending : Pending) (d : Direction)
    (f : Frame cfg d × Option (Message cfg)) : Option (Pending × Option Event) :=
  match f.2 with
  | none => some (pending, if 8 ≤ f.1.opcode then some (.wsControl
      (if f.1.opcode = 8 then "close" else if f.1.opcode = 9 then "ping" else "pong")) else none)
  | some m => match processRpc cfg pending d m.value with
    | .gap _ => none
    | .record pending event => some (pending, some event)

variable {t : Tap} {part : Option (List UInt8)} {buffer : List UInt8}
  {f : Frame cfg d} {m : Option (Message cfg)} {fs : List (Frame cfg d × Option (Message cfg))}

theorem emit_of_room {event : Event} (hover : t.connection.overflowed = false)
    (hroom : t.queue.events.length < cfg.maxEvents - 1) :
    t.emit cfg d event =
      { t with queue := ⟨t.queue.nextSequence + 1,
        t.queue.events ++ [⟨event, t.connection.epoch, t.queue.nextSequence, d⟩]⟩ } := by
  have hfull : ¬ t.queue.events.length ≥ cfg.maxEvents - 1 := by omega
  unfold Tap.emit Queue.emit
  simp only [hover, hfull, if_false, Bool.false_eq_true]

/-- A message that has begun is one that is not too large. -/
theorem Fragments.part_small {part : List UInt8} (h : Fragments (some part) fs) :
    part.length ≤ cfg.maxMessageBytes := by
  generalize hpart : some part = part' at h
  induction h generalizing part with
  | nil | whole | first => cases hpart
  | control f h hfs ih => exact ih hpart
  | next f h hfs ih =>
    cases hpart
    have := ih rfl
    rw [List.length_append] at this
    omega
  | last f m h hpayload hfs ih =>
    cases hpart
    have := m.small
    rw [← hpayload, List.length_append] at this
    omega

theorem message_advance {m : Message cfg} {pending : Pending} {event : Event}
    (hover : t.connection.overflowed = false)
    (hroom : t.queue.events.length < cfg.maxEvents - 1)
    (h : processRpc cfg t.connection.pending d m.value = .record pending event) :
    t.message cfg d m.payload =
      ⟨{ t.connection with pending := pending }, ⟨t.queue.nextSequence + 1,
        t.queue.events ++ [⟨event, t.connection.epoch, t.queue.nextSequence, d⟩]⟩⟩ := by
  have htext : processText cfg t.connection.pending d m.payload = .record pending event := by
    have hspelled := m.spelled
    unfold processText
    cases hdecode : decodeUtf8 m.payload with
    | none => simp [hdecode] at hspelled
    | some s =>
      rw [hdecode, Option.map_some, Option.some_inj] at hspelled
      dsimp only
      rw [hspelled]
      exact h
  unfold Tap.message
  rw [htext]
  exact emit_of_room (t := { t with connection := _ }) hover hroom

theorem setParser_advance {p : Parser} :
    { t with connection := t.connection.setParser p d } =
      t.advance d p t.connection.pending t.connection.clientKey none := by
  cases d <;> rfl

/-- A message that is complete, in the place of the parser before it. -/
theorem complete_advance {m : Message cfg} {p p' : Parser} {pending : Pending} {event : Event}
    (hv : t.connection.valid = true) (hover : t.connection.overflowed = false)
    (hroom : t.queue.events.length < cfg.maxEvents - 1)
    (hp : p = { p' with buffer := [] })
    (h : processRpc cfg t.connection.pending d m.value = .record pending event) :
    (Tap.complete cfg { t with connection := t.connection.setParser p' d } d 1 m.payload).refill d
        [] =
      t.advance d p pending t.connection.clientKey event := by
  have hpending : (t.connection.setParser p' d).pending = t.connection.pending :=
    setParser_same.pending
  have hepoch : (t.connection.setParser p' d).epoch = t.connection.epoch := setParser_same.epoch
  unfold Tap.complete
  rw [if_pos rfl, message_advance (t := ⟨t.connection.setParser p' d, t.queue⟩)
      (setParser_same.overflowed.trans hover) hroom (hpending ▸ h),
    refill_of_valid (by exact setParser_same.valid.trans hv), hp]
  cases d <;> rfl

theorem setParser_self {c : Connection} : c.setParser (c.parser d) d = c := by
  cases d <;> rfl

theorem fragment_advance {payload : List UInt8} (hv : t.connection.valid = true)
    (hparser : t.connection.parser d = .between part buffer) :
    (t.setFragment d (some 1) payload).refill d [] =
      t.advance d (.between (some payload) []) t.connection.pending t.connection.clientKey
        none := by
  rw [refill_of_valid (setFragment_valid.trans hv), ← setParser_advance]
  unfold Tap.setFragment
  rw [hparser]
  cases d <;> rfl

theorem outcome_message {m : Message cfg} {pending pending' : Pending} {event : Option Event}
    (h : outcome cfg pending d (f, some m) = some (pending', event)) :
    ∃ e, event = some e ∧ processRpc cfg pending d m.value = .record pending' e := by
  unfold outcome at h
  dsimp only at h
  split at h
  · cases h
  next e hrpc =>
    obtain ⟨rfl, rfl⟩ := Prod.mk.inj (Option.some_inj.1 h)
    exact ⟨_, rfl, hrpc⟩

section
variable {pending : Pending} {event : Option Event}

theorem control_advance (hv : t.connection.valid = true)
    (hover : t.connection.overflowed = false)
    (hroom : event.isSome = true → t.queue.events.length < cfg.maxEvents - 1)
    (hparser : t.connection.parser d = .between part buffer) (hop : 8 ≤ f.opcode)
    (h : outcome cfg t.connection.pending d (f, none) = some (pending, event)) :
    (t.frame cfg d f.opcode f.fin f.payload).refill d [] =
      t.advance d (.between part []) pending t.connection.clientKey event := by
  have hop' : f.opcode ≥ 8 := hop
  obtain ⟨-, -, hclose⟩ := f.control hop
  have hclose' : ¬ (f.opcode = 8 ∧ validClosePayload f.payload = false) := by
    rintro ⟨hop, hbad⟩
    simp [hclose hop] at hbad
  obtain ⟨rfl, rfl⟩ := Prod.mk.inj (Option.some_inj.1 h)
  unfold Tap.frame
  rw [if_pos hop] at hroom ⊢
  rw [if_pos hop', if_neg hclose', emit_of_room hover (hroom rfl), refill_of_valid (by exact hv)]
  unfold Tap.setBuffer Connection.setBuffer
  rw [hparser]
  cases d <;> rfl

/-- A message in one frame. -/
theorem whole_advance {m : Message cfg} (hv : t.connection.valid = true)
    (hover : t.connection.overflowed = false)
    (hroom : event.isSome = true → t.queue.events.length < cfg.maxEvents - 1)
    (hparser : t.connection.parser d = .between none buffer)
    (hop : f.opcode = 1 ∧ f.fin = true) (hpayload : f.payload = m.payload)
    (h : outcome cfg t.connection.pending d (f, some m) = some (pending, event)) :
    (t.frame cfg d f.opcode f.fin f.payload).refill d [] =
      t.advance d (.between none []) pending t.connection.clientKey event := by
  obtain ⟨e, rfl, hrpc⟩ := outcome_message h
  have hself : { t with connection := t.connection.setParser (.between none buffer) d } = t := by
    rw [← hparser, setParser_self]
  have hcomplete := @complete_advance _ d _ _ (.between none [])
    (.between none buffer) _ _ hv hover (hroom rfl) rfl hrpc
  unfold Tap.frame
  rw [hparser, hop.1, hop.2, hpayload, if_neg (by decide), if_neg (by decide), if_pos (.inl rfl),
    if_neg (by simp [Parser.between]), if_neg (Nat.not_lt.2 m.small), if_pos rfl]
  rwa [hself] at hcomplete

theorem first_advance (hv : t.connection.valid = true)
    (hparser : t.connection.parser d = .between none buffer)
    (hop : f.opcode = 1 ∧ f.fin = false) (hsmall : f.payload.length ≤ cfg.maxMessageBytes) :
    (t.frame cfg d f.opcode f.fin f.payload).refill d [] =
      t.advance d (.between (some f.payload) []) t.connection.pending t.connection.clientKey
        none := by
  unfold Tap.frame
  rw [hparser, hop.1, hop.2, if_neg (by decide), if_neg (by decide), if_pos (.inl rfl),
    if_neg (by simp [Parser.between]), if_neg (Nat.not_lt.2 hsmall), if_neg (by decide)]
  exact fragment_advance hv hparser

theorem next_advance {part : List UInt8} (hv : t.connection.valid = true)
    (hparser : t.connection.parser d = .between (some part) buffer)
    (hop : f.opcode = 0 ∧ f.fin = false)
    (hsmall : (part ++ f.payload).length ≤ cfg.maxMessageBytes) :
    (t.frame cfg d f.opcode f.fin f.payload).refill d [] =
      t.advance d (.between (some (part ++ f.payload)) []) t.connection.pending
        t.connection.clientKey none := by
  have hsmall' : ¬ (part ++ f.payload).length > cfg.maxMessageBytes := Nat.not_lt.2 hsmall
  unfold Tap.frame
  rw [hparser, hop.1, hop.2, if_neg (by decide), if_pos rfl]
  simp only [Parser.between, Option.map_some, Option.getD_some, hsmall', if_false,
    Bool.false_eq_true]
  exact fragment_advance hv hparser

/-- The last of the frames of a message. -/
theorem last_advance {part : List UInt8} {m : Message cfg} (hv : t.connection.valid = true)
    (hover : t.connection.overflowed = false)
    (hroom : event.isSome = true → t.queue.events.length < cfg.maxEvents - 1)
    (hparser : t.connection.parser d = .between (some part) buffer)
    (hop : f.opcode = 0 ∧ f.fin = true) (hpayload : part ++ f.payload = m.payload)
    (h : outcome cfg t.connection.pending d (f, some m) = some (pending, event)) :
    (t.frame cfg d f.opcode f.fin f.payload).refill d [] =
      t.advance d (.between none []) pending t.connection.clientKey event := by
  obtain ⟨e, rfl, hrpc⟩ := outcome_message h
  have hsmall : ¬ m.payload.length > cfg.maxMessageBytes := Nat.not_lt.2 m.small
  have hcomplete := @complete_advance _ d _ _ (.between none [])
    (.between none buffer) _ _ hv hover (hroom rfl) rfl hrpc
  have hset : t.setFragment d none [] =
      { t with connection := t.connection.setParser (.between none buffer) d } := by
    unfold Tap.setFragment
    rw [hparser]
    rfl
  unfold Tap.frame
  rw [hparser, hop.1, hop.2, if_neg (by decide), if_pos rfl]
  simp only [Parser.between, Option.map_some, Option.getD_some, hpayload, hsmall, if_false,
    if_true]
  rw [hset]
  exact hcomplete

/-- A frame goes on as its message says. -/
theorem frame_advance (hv : t.connection.valid = true) (hover : t.connection.overflowed = false)
    (hroom : event.isSome = true → t.queue.events.length < cfg.maxEvents - 1)
    (hparser : t.connection.parser d = .between part buffer)
    (hfs : Fragments part ((f, m) :: fs))
    (h : outcome cfg t.connection.pending d (f, m) = some (pending, event)) :
    ∃ part', Fragments part' fs ∧
      (t.frame cfg d f.opcode f.fin f.payload).refill d [] =
        t.advance d (.between part' []) pending t.connection.clientKey event := by
  cases hfs with
  | control _ hop hfs => exact ⟨part, hfs, control_advance hv hover hroom hparser hop h⟩
  | whole _ m hop hpayload hfs =>
    exact ⟨none, hfs, whole_advance hv hover hroom hparser hop hpayload h⟩
  | first _ hop hfs =>
    obtain ⟨rfl, rfl⟩ := Prod.mk.inj (Option.some_inj.1 h)
    refine ⟨some f.payload, hfs, ?_⟩
    rw [if_neg (by simp [hop.1])]
    exact first_advance hv hparser hop hfs.part_small
  | next _ hop hfs =>
    obtain ⟨rfl, rfl⟩ := Prod.mk.inj (Option.some_inj.1 h)
    refine ⟨_, hfs, ?_⟩
    rw [if_neg (by simp [hop.1])]
    exact next_advance hv hparser hop hfs.part_small
  | last _ m hop hpayload hfs =>
    exact ⟨none, hfs, last_advance hv hover hroom hparser hop hpayload h⟩

end

theorem parseAll_wait (hv : t.connection.valid = true) (h : takeFrame cfg d buffer = .wait) :
    (t.setBuffer d buffer).parseAll cfg d = t.setBuffer d buffer := by
  unfold Tap.parseAll
  rw [parseFrames_succ hv, h]

theorem parseAll_frame {opcode : Nat} {fin : Bool} {payload : List UInt8}
    (hv : t.connection.valid = true)
    (h : takeFrame cfg d buffer = .frame opcode fin payload []) :
    (t.setBuffer d buffer).parseAll cfg d = (t.frame cfg d opcode fin payload).refill d [] := by
  unfold Tap.parseAll
  rw [parseFrames_succ hv, h]
  dsimp only
  rw [parser_setBuffer]
  dsimp only
  generalize t.frame cfg d opcode fin payload = t'
  cases hv' : t'.connection.valid with
  | false => rw [refill_of_invalid hv', parseFrames_of_invalid hv']
  | true =>
    rw [refill_of_valid hv']
    cases buffer.length with
    | zero => rfl
    | succ n =>
      rw [parseFrames_succ hv']
      rfl

/-! ## One side, byte by byte -/

/-- What the parser holds once `n` bytes have been fed, and the number of records to come. -/
inductive Reading (s : Half cfg key d) : Nat → Parser → Nat → Prop
  | header {buffer : List UInt8} (hbytes : buffer <+: s.header)
      (hshort : buffer.length < s.header.length) :
      Reading s buffer.length { buffer := buffer } s.recordCount
  | frames {gone fs : List (Frame cfg d × Option (Message cfg))} {part : Option (List UInt8)}
      {buffer : List UInt8} (hframes : s.frames = gone ++ fs) (hfs : Fragments part fs)
      (hbytes : buffer <+: encodeAll fs)
      (hshort : ∀ f fs', fs = f :: fs' → buffer.length < f.1.encode.length) :
      Reading s (s.header.length + (encodeAll gone).length + buffer.length)
        (.between part buffer) (eventCount fs)

/-- What one more byte makes of it. -/
inductive Next (s : Half cfg key d) (n : Nat) (b : UInt8) : Parser → Nat → Prop
  | wait {p : Parser} {left : Nat} (hend : s.endAt (n + 1) = none)
      (hreading : Reading s (n + 1) { p with buffer := p.buffer ++ [b] } left)
      (hdone : s.header.length ≤ n + 1 ↔ s.header.length ≤ n) : Next s n b p left
  | header {buffer : List UInt8} {left : Nat} (hend : s.endAt (n + 1) = none)
      (hbytes : buffer ++ [b] = s.header) (hn : n + 1 = s.header.length)
      (hreading : Reading s (n + 1) (.between none []) left) :
      Next s n b { buffer := buffer } (left + 1)
  | frame {f : Frame cfg d} {m : Option (Message cfg)}
      {fs : List (Frame cfg d × Option (Message cfg))} {part : Option (List UInt8)}
      {buffer : List UInt8} (hend : s.endAt (n + 1) = m) (hbytes : buffer ++ [b] = f.encode)
      (hn : s.header.length ≤ n) (hfs : Fragments part ((f, m) :: fs))
      (hreading : ∀ part', Fragments part' fs →
        Reading s (n + 1) (.between part' []) (eventCount fs)) :
      Next s n b (.between part buffer) (eventCount ((f, m) :: fs))

theorem prefix_next {α : Type} {xs ys : List α} {x : α} (h : xs <+: ys)
    (hx : ys[xs.length]? = some x) : xs ++ [x] <+: ys := by
  obtain ⟨zs, rfl⟩ := h
  rw [List.getElem?_append_right le_rfl, Nat.sub_self] at hx
  cases zs with
  | nil => cases hx
  | cons z zs =>
    cases hx
    exact ⟨zs, by simp⟩

theorem encodeAll_append {fs fs' : List (Frame cfg d × Option (Message cfg))} :
    encodeAll (fs ++ fs') = encodeAll fs ++ encodeAll fs' :=
  List.flatMap_append

theorem endAt_zero : endAt 0 fs = none := by
  cases fs with
  | nil => rfl
  | cons f fs => exact if_pos Frame.encode_pos

theorem endAt_append {gone : List (Frame cfg d × Option (Message cfg))} {n : Nat} (h : 0 < n) :
    endAt ((encodeAll gone).length + n) (gone ++ fs) = endAt n fs := by
  induction gone with
  | nil => simp [encodeAll]
  | cons f gone ih =>
    have hlength : (encodeAll (f :: gone)).length = f.1.encode.length + (encodeAll gone).length :=
      List.length_append
    rw [List.cons_append, endAt, if_neg (by omega), if_neg (by omega), ← ih]
    congr 1
    omega

theorem endAt_short {n : Nat} (h : n < f.encode.length) : endAt n ((f, m) :: fs) = none :=
  if_pos h

theorem endAt_here : endAt f.encode.length ((f, m) :: fs) = m := by
  rw [endAt, if_neg (lt_irrefl _), if_pos rfl]

/-- A parser that waits for bytes. -/
structure Parser.Idle (cfg : Config) (d : Direction) (p : Parser) : Prop where
  header : p.handshakeDone = false →
    findMarker p.buffer = none ∧ p.buffer.length ≤ cfg.maxHeaderBytes
  frames : p.handshakeDone = true → takeFrame cfg d p.buffer = .wait

theorem parse_idle (hv : t.connection.valid = true)
    (h : Parser.Idle cfg d { t.connection.parser d with buffer := buffer }) :
    (t.setBuffer d buffer).parse cfg d = t.setBuffer d buffer := by
  cases hdone : t.done d with
  | true => rw [parse_of_done hv hdone, parseAll_wait hv (h.frames hdone)]
  | false =>
    obtain ⟨hfind, hsmall⟩ := h.header hdone
    rw [parse_of_not_done (setBuffer_done.trans hdone), parseUpgrade_none hv hfind,
      if_neg (Nat.not_lt.2 hsmall), parseReady_of_not_done (setBuffer_done.trans hdone)]

theorem Half.header_length {s : Half cfg key d} : s.header.length = s.text.length + 4 := by
  simp [Half.header, marker]

theorem Reading.idle {s : Half cfg key d} {n left : Nat} {p : Parser} (h : Reading s n p left) :
    p.Idle cfg d := by
  cases h with
  | header hbytes hshort =>
    rename_i buffer
    have hlength := s.header_length
    have hsmall := s.small
    refine ⟨fun _ => ⟨?_, by dsimp only; omega⟩, nofun⟩
    obtain ⟨more, hmore⟩ := hbytes
    cases hfind : findMarker buffer with
    | none => rfl
    | some i =>
      have hfind' := @findMarker_append _ more _ hfind
      have hle := findMarker_le hfind
      rw [hmore, Half.header, s.once] at hfind'
      rw [← Option.some_inj.1 hfind'] at hle
      omega
  | frames hframes hfs hbytes hshort =>
    rename_i gone fs part buffer
    refine ⟨nofun, fun _ => ?_⟩
    obtain _ | ⟨⟨f, m⟩, fs⟩ := fs
    · rw [Parser.between, List.prefix_nil.1 hbytes]
      rfl
    · have hlt := hshort _ _ rfl
      exact takeFrame_short
        (List.prefix_of_prefix_length_le hbytes (List.prefix_append _ _) hlt.le) hlt

/-- A byte of the header. -/
theorem next_header {s : Half cfg key d} {b : UInt8} (hbytes : buffer <+: s.header)
    (hshort : buffer.length < s.header.length) (hbyte : s.bytes[buffer.length]? = some b) :
    Next s buffer.length b { buffer := buffer } s.recordCount := by
  rw [Half.bytes, List.getElem?_append_left hshort] at hbyte
  have hahead := prefix_next hbytes hbyte
  have hend : s.endAt (buffer.length + 1) = none := by
    rw [Half.endAt, Nat.sub_eq_zero_of_le hshort, endAt_zero]
  have hle := hahead.length_le
  rw [List.length_append, List.length_singleton] at hle
  rcases Nat.lt_or_eq_of_le hle with hlt | heq
  · refine .wait hend ?_ ⟨fun h => by omega, fun h => by omega⟩
    have hreading := Reading.header (s := s) hahead (by simpa using hlt)
    rwa [List.length_append, List.length_singleton] at hreading
  · have hbytes' : buffer ++ [b] = s.header := hahead.eq_of_length (by simpa using heq)
    have hreading := @Reading.frames _ _ _ s [] _ _ [] rfl s.fragments
      List.nil_prefix (fun _ _ _ => Frame.encode_pos)
    rw [Half.recordCount, Nat.add_comm]
    refine .header hend hbytes' heq ?_
    rwa [heq]

section
variable {s : Half cfg key d} {gone : List (Frame cfg d × Option (Message cfg))} {b : UInt8}

/-- The frames that have gone are over when the last byte of a frame has been fed. -/
theorem reading_frame_end (hframes : s.frames = gone ++ (f, m) :: fs)
    (heq : buffer.length + 1 = f.encode.length) {part' : Option (List UInt8)}
    (hfs : Fragments part' fs) :
    Reading s (s.header.length + (encodeAll gone).length + buffer.length + 1)
      (.between part' []) (eventCount fs) := by
  have hgone : (encodeAll (gone ++ [(f, m)])).length =
      (encodeAll gone).length + (buffer.length + 1) := by
    rw [encodeAll_append, List.length_append, heq]
    simp [encodeAll]
  have hreading := @Reading.frames _ _ _ s (gone ++ [(f, m)]) fs _ [] (by simp [hframes]) hfs
    List.nil_prefix (fun _ _ _ => Frame.encode_pos)
  rw [hgone] at hreading
  convert hreading using 1
  simp only [List.length_nil]
  omega

/-- A byte of a frame. -/
theorem next_frame (hframes : s.frames = gone ++ (f, m) :: fs)
    (hfs : Fragments part ((f, m) :: fs)) (hbytes : buffer <+: encodeAll ((f, m) :: fs))
    (hshort : buffer.length < f.encode.length)
    (hbyte : (encodeAll ((f, m) :: fs))[buffer.length]? = some b) :
    Next s (s.header.length + (encodeAll gone).length + buffer.length) b (.between part buffer)
      (eventCount ((f, m) :: fs)) := by
  have hencode : encodeAll ((f, m) :: fs) = f.encode ++ encodeAll fs := rfl
  rw [hencode] at hbytes hbyte
  rw [List.getElem?_append_left hshort] at hbyte
  have hahead := prefix_next
    (List.prefix_of_prefix_length_le hbytes (List.prefix_append _ _) hshort.le) hbyte
  have hend : s.endAt (s.header.length + (encodeAll gone).length + buffer.length + 1) =
      endAt (buffer.length + 1) ((f, m) :: fs) := by
    rw [Half.endAt, hframes, ← endAt_append (Nat.succ_pos _)]
    congr 1
    omega
  have hle := hahead.length_le
  rw [List.length_append, List.length_singleton] at hle
  rcases Nat.lt_or_eq_of_le hle with hlt | heq
  · refine .wait (hend.trans (endAt_short hlt)) ?_ ⟨fun _ => by omega, fun _ => by omega⟩
    have hreading := @Reading.frames _ _ _ s _ _ _ (buffer ++ [b]) hframes hfs
      (hahead.trans (List.prefix_append _ _)) (fun g fs' hg => by
        obtain ⟨rfl, -⟩ := List.cons.inj hg
        simpa using hlt)
    rwa [List.length_append, List.length_singleton, ← Nat.add_assoc] at hreading
  · refine .frame ?_ (hahead.eq_of_length (by simpa using heq)) (by omega) hfs
      fun part' hfs' => reading_frame_end hframes heq hfs'
    rw [hend, heq]
    exact endAt_here

end

theorem Reading.next {s : Half cfg key d} {n left : Nat} {p : Parser} {b : UInt8}
    (h : Reading s n p left) (hbyte : s.bytes[n]? = some b) : Next s n b p left := by
  cases h with
  | header hbytes hshort => exact next_header hbytes hshort hbyte
  | frames hframes hfs hbytes hshort =>
    rename_i gone fs part buffer
    have hsplit : s.bytes = (s.header ++ encodeAll gone) ++ encodeAll fs := by
      rw [Half.bytes, hframes, encodeAll_append, List.append_assoc]
    rw [hsplit, ← List.length_append, List.getElem?_append_right (by omega),
      Nat.add_sub_cancel_left] at hbyte
    obtain _ | ⟨⟨f, m⟩, fs⟩ := fs
    · cases hbyte
    · exact next_frame hframes hfs hbytes (hshort _ _ rfl) hbyte

/-! ## Both sides -/

/-- The connection when `fed` bytes have been fed: what it has recorded since `base`, and that
there is room for the records to come. -/
structure Sim (s : ∀ d, Half cfg key d) (base : List Record) (fed left : Direction → Nat)
    (pending : Pending) (log : List (Direction × Event)) (t : Tap) : Prop where
  valid : t.connection.valid = true
  closed : t.connection.closed = false
  overflowed : t.connection.overflowed = false
  pending : t.connection.pending = pending
  clientKey : t.connection.clientKey =
    if (s .client).header.length ≤ fed .client then some key else none
  reading : ∀ d, Reading (s d) (fed d) (t.connection.parser d) (left d)
  room : t.queue.events.length + (left .client + left .server) ≤ cfg.maxEvents - 1
  records : ∃ records, t.queue.events = base ++ records ∧ (∀ r ∈ records, r.isGap = false) ∧
    rpcRecords records = log.map fun e => (some e.1, e.2)

/-- What an event adds to the log. -/
def rpcLog (d : Direction) (event : Option Event) : List (Direction × Event) :=
  (event.filter Event.isRpc).toList.map fun e => (d, e)

section
variable {s : ∀ d, Half cfg key d} {base : List Record} {fed left : Direction → Nat}
  {pending pending' : Pending} {log : List (Direction × Event)} {p : Parser}
  {clientKey : Option (List Char)} {event : Option Event} {n : Nat}

theorem Sim.advance (h : Sim s base fed left pending log t)
    (hreading : Reading (s d) (fed d + 1) p n)
    (hleft : n + event.toList.length ≤ left d)
    (hgap : ∀ e, event = some e → ∀ epoch seq d, Record.isGap ⟨e, epoch, seq, d⟩ = false)
    (hkey : clientKey = if (s .client).header.length ≤
      Function.update fed d (fed d + 1) .client then some key else none) :
    Sim s base (Function.update fed d (fed d + 1)) (Function.update left d n) pending'
      (log ++ rpcLog d event) (t.advance d p pending' clientKey event) where
  valid := setParser_same.valid.trans h.valid
  closed := setParser_same.closed.trans h.closed
  overflowed := setParser_same.overflowed.trans h.overflowed
  pending := rfl
  clientKey := hkey
  reading := by
    intro e
    by_cases he : e = d
    · subst he
      rw [Function.update_self, Function.update_self]
      have hp : ((t.advance e p pending' clientKey event).connection.parser e) = p := by
        cases e <;> rfl
      rwa [hp]
    · rw [Function.update_of_ne he, Function.update_of_ne he]
      have hp : ((t.advance d p pending' clientKey event).connection.parser e) =
          t.connection.parser e := by
        cases d <;> cases e <;> first | rfl | exact (he rfl).elim
      rw [hp]
      exact h.reading e
  room := by
    have hroom := h.room
    have hsum : Function.update left d n .client + Function.update left d n .server +
        event.toList.length ≤ left .client + left .server := by
      cases d <;> simp [Function.update] <;> omega
    cases event <;> simp [Tap.advance] at hsum ⊢ <;> omega
  records := by
    obtain ⟨records, hevents, hgaps, hlog⟩ := h.records
    cases event with
    | none => exact ⟨records, hevents, hgaps, by simpa [rpcLog] using hlog⟩
    | some e =>
      refine ⟨records ++ [⟨e, t.connection.epoch, t.queue.nextSequence, d⟩], ?_, ?_, ?_⟩
      · simp [Tap.advance, hevents]
      · intro r hr
        rcases List.mem_append.1 hr with hr | hr
        · exact hgaps r hr
        · rw [List.mem_singleton.1 hr]
          exact hgap e rfl _ _ _
      · rw [rpcRecords, List.filter_append, List.map_append, List.map_append, ← hlog]
        congr 1
        cases hrpc : e.isRpc <;> simp [rpcLog, hrpc, Option.filter]

theorem processRequest_isRpc {fields : Fields} {e : Event}
    (h : processRequest cfg pending d fields = .record pending' e) : e.isRpc = true := by
  unfold processRequest at h
  split at h
  · split at h
    · cases h
    · dsimp only at h
      split at h
      · cases h
      · split at h
        · cases h
        · have hevent {known : Bool} {requestId : Option Id} {method method' : Text}
              {params : Params} {thread : Option Params} {probe : Option Bool} :
              (if known = true then Event.rpc requestId method params thread
                else .rpcUnknown requestId method' probe false).isRpc = true := by
            cases known <;> rfl
          split at h
          · injection h with _ h
            rw [← h]
            exact hevent
          · split at h
            · cases h
            split at h
            · cases h
            injection h with _ h
            rw [← h]
            exact hevent
  · cases h

theorem processResponse_isRpc {fields : Fields} {e : Event}
    (h : processResponse pending d fields = .record pending' e) : e.isRpc = true := by
  unfold processResponse at h
  split at h
  · cases h
  split at h
  · cases h
  split at h
  · injection h with _ h
    rw [← h]
    rfl
  · dsimp only at h
    split at h
    · injection h with _ h
      rw [← h]
      rfl
    split at h
    · injection h with _ h
      rw [← h]
      rfl
    · injection h with _ h
      rw [← h]
      rfl

theorem processRpc_isRpc {value : Value} {e : Event}
    (h : processRpc cfg pending d value = .record pending' e) : e.isRpc = true := by
  unfold processRpc at h
  split at h
  · split at h
    · cases h
    · dsimp only at h
      split at h
      · cases h
      split at h
      · exact processRequest_isRpc h
      split at h
      · exact processResponse_isRpc h
      · cases h
  · cases h

/-- What the end of a frame is recorded as, from the transcript. -/
theorem outcome_of_transcript {events : List (Direction × Event)}
    (h : transcript cfg pending (m.toList.map fun m => (d, m.value)) = some (pending', events)) :
    ∃ event, outcome cfg pending d (f, m) = some (pending', event) ∧ events = rpcLog d event := by
  cases m with
  | none =>
    obtain ⟨rfl, rfl⟩ := Prod.mk.inj (Option.some_inj.1 h)
    refine ⟨_, rfl, ?_⟩
    dsimp only
    split <;> rfl
  | some m =>
    simp only [Option.toList_some, List.map_cons, List.map_nil, transcript] at h
    unfold outcome
    dsimp only
    split at h
    · cases h
    next e hrpc =>
      obtain ⟨rfl, rfl⟩ := Prod.mk.inj (Option.some_inj.1 h)
      refine ⟨some e, rfl, ?_⟩
      simp [rpcLog, Option.filter, processRpc_isRpc hrpc]

/-- What a frame is recorded as is counted, and is not a gap. -/
theorem outcome_event (hfs : Fragments part ((f, m) :: fs))
    (h : outcome cfg pending d (f, m) = some (pending', event)) :
    eventCount fs + event.toList.length = eventCount ((f, m) :: fs) ∧
      ∀ e, event = some e → ∀ epoch seq d, Record.isGap ⟨e, epoch, seq, d⟩ = false := by
  rw [eventCount, eventCount, List.countP_cons]
  cases m with
  | none =>
    obtain ⟨rfl, rfl⟩ := Prod.mk.inj (Option.some_inj.1 h)
    dsimp only
    by_cases hop : 8 ≤ f.opcode
    · simp only [hop, if_true]
      refine ⟨by simp, fun e he _ _ _ => ?_⟩
      cases he
      rfl
    · simp only [hop, if_false]
      exact ⟨by simp, fun e he => by cases he⟩
  | some m =>
    obtain ⟨e, rfl, hrpc⟩ := outcome_message h
    refine ⟨by simp, fun e' he _ _ _ => ?_⟩
    cases he
    have hisRpc := processRpc_isRpc hrpc
    cases e <;> first | rfl | cases hisRpc

theorem setBuffer_advance : t.setBuffer d buffer =
    t.advance d { t.connection.parser d with buffer := buffer } t.connection.pending
      t.connection.clientKey none :=
  setParser_advance

/-- The header's last byte. -/
theorem header_advance {h : Half cfg key d} (hv : t.connection.valid = true)
    (hover : t.connection.overflowed = false)
    (hroom : t.queue.events.length < cfg.maxEvents - 1)
    (hparser : t.connection.parser d = { buffer := buffer })
    (hkey : t.connection.clientKey = if d = .client then none else some key) :
    (t.setBuffer d h.header).parse cfg d =
      t.advance d (.between none []) t.connection.pending (some key) (some .websocketUpgrade) := by
  have hdone : t.done d = false := by rw [Tap.done, hparser]
  have hsmall : ¬ h.text.length + 4 > cfg.maxHeaderBytes := Nat.not_lt.2 h.small
  have htext : h.header.take h.text.length = h.text := List.take_left
  have hrest : h.header.drop (h.text.length + 4) = [] :=
    List.drop_eq_nil_of_le (by simp [Half.header, marker])
  have hupgrade : (t.takeHeader cfg d h.text).refill d [] =
      t.advance d (.between none []) t.connection.pending (some key) (some .websocketUpgrade) := by
    unfold Tap.takeHeader
    rw [hkey, h.accepted]
    dsimp only
    unfold Tap.upgrade
    dsimp only
    generalize hc : Connection.setParser { t.connection with clientKey := some key } _ d = c
    have hover' : c.overflowed = false := by
      rw [← hc]
      exact setParser_same.overflowed.trans hover
    have hv' : c.valid = true := by
      rw [← hc]
      exact setParser_same.valid.trans hv
    rw [emit_of_room (t := ⟨c, t.queue⟩) hover' hroom, refill_of_valid hv', ← hc]
    cases d <;> simp only [Connection.parser] at hparser <;>
      simp [Tap.setBuffer, Connection.setBuffer, Connection.setParser, Connection.parser,
        Tap.advance, Parser.between, hparser]
  have hvalid : (t.advance d (.between none []) t.connection.pending (some key)
      (some .websocketUpgrade)).connection.valid = true :=
    setParser_same.valid.trans hv
  have hself : (t.advance d (.between none []) t.connection.pending (some key)
      (some .websocketUpgrade)).setBuffer d [] = t.advance d (.between none [])
      t.connection.pending (some key) (some .websocketUpgrade) := by
    cases d <;> rfl
  have hdone' : (t.advance d (.between none []) t.connection.pending (some key)
      (some .websocketUpgrade)).done d = true := by
    cases d <;> rfl
  rw [parse_of_not_done (setBuffer_done.trans hdone), @parseUpgrade_some _ _ _ h.header _ hv h.once,
    if_neg hsmall,
    htext, hrest, hupgrade, parseReady_of_done hvalid hdone', ← hself, parseAll_wait hvalid rfl]

theorem buffer_advance :
    ((t.advance d p pending clientKey event).connection.parser d).buffer = p.buffer := by
  cases d <;> rfl

/-- The key is known once the client's header is; no header ends here. -/
theorem Sim.knows (h : Sim s base fed left pending log t)
    (hsame : (s d).header.length ≤ fed d + 1 ↔ (s d).header.length ≤ fed d) :
    t.connection.clientKey = if (s .client).header.length ≤
      Function.update fed d (fed d + 1) .client then some key else none := by
  rw [h.clientKey]
  cases d with
  | client => simp [hsame]
  | server => simp [Function.update]

/-- A byte after which the parser waits for more. -/
theorem Sim.waits {b : UInt8} (h : Sim s base fed left pending log t)
    (hreading : Reading (s d) (fed d + 1)
      { t.connection.parser d with buffer := (t.connection.parser d).buffer ++ [b] } (left d))
    (hdone : (s d).header.length ≤ fed d + 1 ↔ (s d).header.length ≤ fed d) :
    ∃ left', Sim s base (Function.update fed d (fed d + 1)) left' pending log
        ((t.setBuffer d ((t.connection.parser d).buffer ++ [b])).parse cfg d) ∧
      (((t.setBuffer d ((t.connection.parser d).buffer ++ [b])).parse cfg d).connection.parser
        d).buffer.length ≤ (t.connection.parser d).buffer.length + 1 := by
  have hfeed : (t.setBuffer d ((t.connection.parser d).buffer ++ [b])).parse cfg d =
      t.advance d { t.connection.parser d with buffer := (t.connection.parser d).buffer ++ [b] }
        pending t.connection.clientKey none := by
    rw [parse_idle h.valid hreading.idle, setBuffer_advance, h.pending]
  rw [hfeed]
  refine ⟨Function.update left d (left d), ?_, ?_⟩
  · have hsim := @Sim.advance _ _ _ _ _ _ _ _ pending pending _ _ _ none _ h hreading (by simp)
      (fun e he => by cases he) (h.knows hdone)
    simpa [rpcLog] using hsim
  · rw [buffer_advance, List.length_append, List.length_singleton]

/-- The last byte of a header. -/
theorem Sim.opens {b : UInt8} {n : Nat} (h : Sim s base fed left pending log t)
    (hp : t.connection.parser d = { buffer := buffer }) (hleft : left d = n + 1)
    (horder : d = .server → (s d).header.length = fed d + 1 →
      (s .client).header.length ≤ fed .client)
    (hbytes : buffer ++ [b] = (s d).header) (hn : fed d + 1 = (s d).header.length)
    (hreading : Reading (s d) (fed d + 1) (.between none []) n) :
    ∃ left', Sim s base (Function.update fed d (fed d + 1)) left' pending log
        ((t.setBuffer d (buffer ++ [b])).parse cfg d) ∧
      (((t.setBuffer d (buffer ++ [b])).parse cfg d).connection.parser d).buffer.length ≤
        buffer.length + 1 := by
  have hroom := h.room
  have hsum : left d ≤ left .client + left .server := by cases d <;> omega
  have hclient : t.connection.clientKey = if d = .client then none else some key := by
    rw [h.clientKey]
    cases d with
    | client => rw [if_neg (by omega), if_pos rfl]
    | server => rw [if_pos (horder rfl hn.symm), if_neg (by decide)]
  have hfeed : (t.setBuffer d (buffer ++ [b])).parse cfg d =
      t.advance d (.between none []) pending (some key) (some .websocketUpgrade) := by
    rw [hbytes, ← h.pending]
    exact header_advance h.valid h.overflowed (by omega) hp hclient
  rw [hfeed]
  refine ⟨Function.update left d n, ?_, ?_⟩
  · have hsim := @Sim.advance _ _ _ _ _ _ _ _ pending pending _ _ (some key)
      (some .websocketUpgrade) _ h hreading (by simp [hleft])
      (fun e he _ _ _ => by cases he; rfl) ?_
    · simpa [rpcLog, Option.filter, Event.isRpc] using hsim
    cases d with
    | client => simp [hn]
    | server => simp [Function.update, horder rfl hn.symm]
  · rw [buffer_advance]
    exact Nat.zero_le _

/-- The last byte of a frame. -/
theorem Sim.frame {b : UInt8} {f : Frame cfg d} {m : Option (Message cfg)}
    {fs : List (Frame cfg d × Option (Message cfg))} {part : Option (List UInt8)}
    (h : Sim s base fed left pending log t)
    (hp : t.connection.parser d = .between part buffer)
    (hleft : left d = eventCount ((f, m) :: fs))
    (houtcome : outcome cfg pending d (f, m) = some (pending', event))
    (hbytes : buffer ++ [b] = f.encode) (hn : (s d).header.length ≤ fed d)
    (hfs : Fragments part ((f, m) :: fs))
    (hreading : ∀ part', Fragments part' fs →
      Reading (s d) (fed d + 1) (.between part' []) (eventCount fs)) :
    ∃ left', Sim s base (Function.update fed d (fed d + 1)) left' pending'
        (log ++ rpcLog d event) ((t.setBuffer d (buffer ++ [b])).parse cfg d) ∧
      (((t.setBuffer d (buffer ++ [b])).parse cfg d).connection.parser d).buffer.length ≤
        buffer.length + 1 := by
  have hroom := h.room
  have hsum : left d ≤ left .client + left .server := by cases d <;> omega
  obtain ⟨hcount, hgap⟩ := outcome_event hfs houtcome
  have hroom' : event.isSome = true → t.queue.events.length < cfg.maxEvents - 1 := by
    intro hsome
    obtain ⟨e, rfl⟩ := Option.isSome_iff_exists.1 hsome
    simp only [Option.toList_some, List.length_singleton] at hcount
    omega
  obtain ⟨part', hfs', hframe⟩ := frame_advance h.valid h.overflowed hroom' hp hfs
    (h.pending ▸ houtcome)
  have hfeed : (t.setBuffer d (buffer ++ [b])).parse cfg d =
      t.advance d (.between part' []) pending' t.connection.clientKey event := by
    rw [parse_of_done h.valid (by rw [Tap.done, hp]; rfl), hbytes,
      parseAll_frame h.valid takeFrame_encode, hframe]
  rw [hfeed]
  refine ⟨Function.update left d (eventCount fs), ?_, ?_⟩
  · exact h.advance (hreading part' hfs') (by rw [hleft]; exact hcount.le) hgap
      (h.knows ⟨fun _ => hn, fun _ => by omega⟩)
  · rw [buffer_advance]
    exact Nat.zero_le _

/-- One byte more. -/
theorem Sim.byte {b : UInt8} {events : List (Direction × Event)}
    (h : Sim s base fed left pending log t) (hbyte : (s d).bytes[fed d]? = some b)
    (hroom : (t.connection.parser d).buffer.length + 1 ≤ Tap.bufferLimit cfg)
    (horder : d = .server → (s d).header.length = fed d + 1 →
      (s .client).header.length ≤ fed .client)
    (hevents : transcript cfg pending (((s d).endAt (fed d + 1)).toList.map fun m =>
      (d, m.value)) = some (pending', events)) :
    ∃ left', Sim s base (Function.update fed d (fed d + 1)) left' pending' (log ++ events)
        (t.feed cfg d [b]) ∧
      ((t.feed cfg d [b]).connection.parser d).buffer.length ≤
        (t.connection.parser d).buffer.length + 1 := by
  rw [feed_of_valid h.valid (by simpa using hroom)]
  have hnext := (h.reading d).next hbyte
  generalize hp : t.connection.parser d = p at hnext ⊢
  generalize hl : left d = l at hnext
  cases hnext with
  | wait hend hreading hdone =>
    rw [hend] at hevents
    obtain ⟨rfl, rfl⟩ := Prod.mk.inj (Option.some_inj.1 hevents)
    subst hp hl
    rw [List.append_nil]
    exact h.waits hreading hdone
  | header hend hbytes hn hreading =>
    rw [hend] at hevents
    obtain ⟨rfl, rfl⟩ := Prod.mk.inj (Option.some_inj.1 hevents)
    rw [List.append_nil]
    exact h.opens hp hl horder hbytes hn hreading
  | frame hend hbytes hn hfs hreading =>
    rename_i f m fs part buffer
    rw [hend] at hevents
    obtain ⟨event, houtcome, rfl⟩ := outcome_of_transcript (f := f) hevents
    exact h.frame hp hl houtcome hbytes hn hfs hreading

theorem transcript_append {xs ys : List (Direction × Value)} {events : List (Direction × Event)}
    (h : transcript cfg pending (xs ++ ys) = some (pending', events)) :
    ∃ pending₁ events₁ events₂, transcript cfg pending xs = some (pending₁, events₁) ∧
      transcript cfg pending₁ ys = some (pending', events₂) ∧ events = events₁ ++ events₂ := by
  induction xs generalizing pending events with
  | nil => exact ⟨pending, [], events, rfl, h, rfl⟩
  | cons x xs ih =>
    obtain ⟨d, value⟩ := x
    rw [List.cons_append, transcript] at h
    rw [transcript]
    split at h
    · cases h
    · obtain ⟨⟨p, es⟩, hrest, heq⟩ := Option.map_eq_some_iff.1 h
      obtain ⟨rfl, rfl⟩ := Prod.mk.inj heq
      obtain ⟨pending₁, events₁, events₂, h₁, h₂, rfl⟩ := ih hrest
      dsimp only
      exact ⟨pending₁, _ :: events₁, events₂, by rw [h₁]; rfl, h₂, rfl⟩

/-- The bytes that one call brings. -/
theorem Sim.feed {chunk : List UInt8} {events : List (Direction × Event)}
    (h : Sim s base fed left pending log t) (hbytes : chunk <+: (s d).bytes.drop (fed d))
    (hroom : (t.connection.parser d).buffer.length + chunk.length ≤ Tap.bufferLimit cfg)
    (horder : d = .server → (s d).header.length ≤ fed d + chunk.length →
      (s .client).header.length ≤ fed .client)
    (hevents : transcript cfg pending (arrivals s fed (chunk.map fun _ => d)) =
      some (pending', events)) :
    ∃ left', Sim s base (Function.update fed d (fed d + chunk.length)) left' pending'
      (log ++ events) (t.feed cfg d chunk) := by
  induction chunk generalizing t fed left pending log events with
  | nil =>
    obtain ⟨rfl, rfl⟩ := Prod.mk.inj (Option.some_inj.1 hevents)
    have hidle : t.feed cfg d [] = t := by
      have hself : t.setBuffer d (t.connection.parser d).buffer = t := by cases d <;> rfl
      rw [feed_of_valid h.valid (by simpa using hroom), List.append_nil,
        @parse_idle _ _ _ (t.connection.parser d).buffer h.valid (h.reading d).idle, hself]
    refine ⟨left, ?_⟩
    rw [hidle]
    simpa using h
  | cons b chunk ih =>
    rw [List.length_cons] at hroom horder
    rw [List.map_cons, arrivals] at hevents
    obtain ⟨pending₁, events₁, events₂, hevents₁, hevents₂, rfl⟩ := transcript_append hevents
    have hbyte : (s d).bytes[fed d]? = some b := by
      obtain ⟨more, hmore⟩ := hbytes
      have hdrop := congrArg (·[0]?) hmore
      simpa using hdrop.symm
    have horder' : d = .server → (s d).header.length = fed d + 1 →
        (s .client).header.length ≤ fed .client :=
      fun hd hn => horder hd (by omega)
    obtain ⟨left₁, h₁, hbuffer⟩ := h.byte hbyte (by omega) horder' hevents₁
    have happend : t.feed cfg d (b :: chunk) = (t.feed cfg d [b]).feed cfg d chunk :=
      feed_append (a := [b]) (by simp only [List.length_singleton]; omega)
    have hbytes' : chunk <+: (s d).bytes.drop (Function.update fed d (fed d + 1) d) := by
      obtain ⟨more, hmore⟩ := hbytes
      refine ⟨more, ?_⟩
      rw [Function.update_self, ← List.drop_drop, ← hmore]
      rfl
    obtain ⟨left', h'⟩ := ih h₁ hbytes' (by omega) (fun hd hn => by
      subst hd
      rw [Function.update_self] at hn
      rw [Function.update_of_ne (by decide)]
      exact horder rfl (by omega)) hevents₂
    refine ⟨left', ?_⟩
    rw [happend]
    simpa [Nat.add_assoc, Nat.add_comm 1, List.append_assoc] using h'

end

/-! ## Runs -/

/-- The bytes of one side among those of a list of calls. -/
def bytesOf (d : Direction) (feeds : List (Direction × List UInt8)) : List UInt8 :=
  (feeds.filter (·.1 = d)).flatMap (·.2)

/-- The directions of the bytes that are fed, byte by byte. -/
def directions (feeds : List (Direction × List UInt8)) : List Direction :=
  feeds.flatMap fun feed => feed.2.map fun _ => feed.1

/-- How many bytes have been fed. -/
def countFed (fed : Direction → Nat) (feed : Direction × List UInt8) : Direction → Nat :=
  Function.update fed feed.1 (fed feed.1 + feed.2.length)

/-- The call does not complete the server's upgrade before the client's is complete. -/
def UpgradeInOrder (s : ∀ d, Half cfg key d) (fed : Direction → Nat)
    (feed : Direction × List UInt8) : Prop :=
  feed.1 = .server → (s .server).header.length ≤ fed .server + feed.2.length →
    (s .client).header.length ≤ fed .client

/-- There is room for the bytes in the buffer. -/
def BelowLimit (cfg : Config) (t : Tap) (feed : Direction × List UInt8) : Prop :=
  (t.connection.parser feed.1).buffer.length + feed.2.length ≤ Tap.bufferLimit cfg

def feedTap (cfg : Config) (t : Tap) (feed : Direction × List UInt8) : Tap :=
  t.feed cfg feed.1 feed.2

section
variable {s : ∀ d, Half cfg key d} {base : List Record} {fed left : Direction → Nat}
  {pending pending' : Pending} {log events : List (Direction × Event)}
  {feeds : List (Direction × List UInt8)}

theorem arrivals_append {ds ds' : List Direction} :
    arrivals s fed (ds ++ ds') = arrivals s fed ds ++
      arrivals s (fun d => fed d + ds.count d) ds' := by
  induction ds generalizing fed with
  | nil => simp [arrivals]
  | cons d ds ih =>
    rw [List.cons_append, arrivals, arrivals, ih, List.append_assoc]
    congr 3
    funext e
    by_cases he : e = d
    · subst he
      rw [Function.update_self, List.count_cons_self]
      omega
    · rw [Function.update_of_ne he, List.count_cons_of_ne (Ne.symm he)]

theorem Sim.run (h : Sim s base fed left pending log t)
    (hbytes : ∀ d, bytesOf d feeds <+: (s d).bytes.drop (fed d))
    (hroom : AllSteps (feedTap cfg) (BelowLimit cfg) t feeds)
    (horder : AllSteps countFed (UpgradeInOrder s) fed feeds)
    (hevents : transcript cfg pending (arrivals s fed (directions feeds)) =
      some (pending', events)) :
    ∃ left', Sim s base (run countFed fed feeds) left' pending' (log ++ events)
      (run (feedTap cfg) t feeds) := by
  induction feeds generalizing t fed left pending log events with
  | nil =>
    obtain ⟨rfl, rfl⟩ := Prod.mk.inj (Option.some_inj.1 hevents)
    exact ⟨left, by simpa using h⟩
  | cons feed feeds ih =>
    obtain ⟨d, chunk⟩ := feed
    have hcount : (fun e => fed e + (chunk.map fun _ => d).count e) = countFed fed (d, chunk) := by
      funext e
      unfold countFed
      by_cases he : e = d
      · subst he
        rw [Function.update_self]
        simp
      · rw [Function.update_of_ne he, List.count_eq_zero_of_not_mem, Nat.add_zero]
        simp [he]
    have hdirections : directions ((d, chunk) :: feeds) =
        (chunk.map fun _ => d) ++ directions feeds := rfl
    rw [hdirections, arrivals_append, hcount] at hevents
    obtain ⟨pending₁, events₁, events₂, hevents₁, hevents₂, rfl⟩ := transcript_append hevents
    have hchunk : chunk ++ bytesOf d feeds <+: (s d).bytes.drop (fed d) := by
      simpa [bytesOf] using hbytes d
    obtain ⟨left₁, h₁⟩ := h.feed ((List.prefix_append _ _).trans hchunk) hroom.1
      (fun hd hn => by subst hd; exact horder.1 rfl hn) hevents₁
    have hbytes' (e : Direction) :
        bytesOf e feeds <+: (s e).bytes.drop (countFed fed (d, chunk) e) := by
      by_cases he : e = d
      · subst he
        obtain ⟨more, hmore⟩ := hchunk
        refine ⟨more, ?_⟩
        rw [countFed, Function.update_self, ← List.drop_drop, ← hmore, List.append_assoc,
          List.drop_left]
      · rw [countFed, Function.update_of_ne he]
        simpa [bytesOf, Ne.symm he] using hbytes e
    obtain ⟨left', h'⟩ := ih h₁ hbytes' hroom.2 horder.2 hevents₂
    refine ⟨left', ?_⟩
    rw [← List.append_assoc]
    exact h'

end

/-! ## All the messages -/

theorem endAt_range : (List.range (encodeAll fs).length).flatMap (fun i =>
    (endAt (i + 1) fs).toList) = fs.filterMap (·.2) := by
  induction fs with
  | nil => rfl
  | cons f fs ih =>
    obtain ⟨f, m⟩ := f
    have hlength : (encodeAll ((f, m) :: fs)).length = f.encode.length + (encodeAll fs).length :=
      List.length_append
    obtain ⟨k, hk⟩ := Nat.exists_eq_add_of_lt (f.encode_pos)
    rw [Nat.zero_add] at hk
    have hfirst : (List.range k).flatMap (fun i => (endAt (i + 1) ((f, m) :: fs)).toList) = [] := by
      rw [List.flatMap_eq_nil_iff]
      intro i hi
      rw [endAt_short (by rw [List.mem_range] at hi; omega)]
      rfl
    have hrest (i : Nat) : endAt (f.encode.length + i + 1) ((f, m) :: fs) = endAt (i + 1) fs := by
      rw [endAt, if_neg (by omega), if_neg (by omega)]
      congr 1
      omega
    rw [hlength, List.range_add, List.flatMap_append, List.flatMap_map]
    simp only [hrest]
    rw [ih, hk, List.range_succ, List.flatMap_append, hfirst, List.flatMap_singleton, ← hk,
      endAt_here]
    cases m <;> rfl

theorem Half.endAt_range (s : Half cfg key d) :
    (List.range s.bytes.length).flatMap (fun i => (s.endAt (i + 1)).toList) = s.messages := by
  have hfirst : (List.range s.header.length).flatMap (fun i => (s.endAt (i + 1)).toList) = [] := by
    rw [List.flatMap_eq_nil_iff]
    intro i hi
    rw [List.mem_range] at hi
    rw [Half.endAt, Nat.sub_eq_zero_of_le hi, endAt_zero]
    rfl
  have hrest (i : Nat) : s.endAt (s.header.length + i + 1) = Native.endAt (i + 1) s.frames := by
    rw [Half.endAt]
    congr 1
    omega
  rw [Half.bytes, List.length_append, List.range_add, List.flatMap_append, List.flatMap_map, hfirst]
  simp only [hrest]
  rw [Native.endAt_range]
  rfl

theorem arrivals_of {s : ∀ d, Half cfg key d} {fed : Direction → Nat} {ds : List Direction} :
    ((arrivals s fed ds).filter (·.1 = d)).map (·.2) =
      (List.range (ds.count d)).flatMap fun i =>
        ((s d).endAt (fed d + i + 1)).toList.map (·.value) := by
  induction ds generalizing fed with
  | nil => rfl
  | cons e ds ih =>
    rw [arrivals, List.filter_append, List.map_append, ih]
    by_cases he : e = d
    · subst he
      rw [List.count_cons_self, Nat.add_comm (ds.count e), List.range_add, List.flatMap_append,
        List.flatMap_map, Function.update_self]
      congr 1
      · simp [List.filter_map, Function.comp_def]
      · congr 1
        funext i
        rw [Nat.add_assoc (fed e)]
    · rw [List.count_cons_of_ne he, Function.update_of_ne (Ne.symm he)]
      simp [List.filter_map, Function.comp_def, he]

/-- Every message arrives, those of one side in the order in which they are sent. -/
theorem arrivals_messages {s : ∀ d, Half cfg key d} {feeds : List (Direction × List UInt8)}
    (h : ∀ d, bytesOf d feeds = (s d).bytes) :
    ((arrivals s (fun _ => 0) (directions feeds)).filter (·.1 = d)).map (·.2) =
      (s d).messages.map (·.value) := by
  have hcount : (directions feeds).count d = (bytesOf d feeds).length := by
    clear h
    induction feeds with
    | nil => rfl
    | cons feed feeds ih =>
      obtain ⟨e, chunk⟩ := feed
      have hdirections : directions ((e, chunk) :: feeds) =
          List.replicate chunk.length e ++ directions feeds := by
        simp [directions]
      rw [hdirections, List.count_append, ih, List.count_replicate]
      by_cases he : e = d <;> simp [bytesOf, he]
  rw [arrivals_of, hcount, h, ← (s d).endAt_range, List.map_flatMap]
  simp only [Nat.zero_add]

end

/-! ## The observer -/

section
variable {κ : Type} [DecidableEq κ] {cfg : Config} {key : List Char} {o : Observer κ} {id : κ}
  {c : Connection} {t : Tap} {d : Direction}

theorem Observer.get?_putTap : (o.putTap id t).get? id = some t.connection := by
  simp [Observer.putTap, Observer.put, Observer.get?]

theorem Observer.putTap_putTap {t' : Tap} : (o.putTap id t).putTap id t' = o.putTap id t' := by
  simp [Observer.putTap, Observer.put]

theorem Observer.feed_open {bytes : List UInt8} (hget : o.get? id = some c)
    (hopen : c.closed = false) :
    o.feed cfg id d bytes = o.putTap id (Tap.feed cfg ⟨c, o.queue⟩ d bytes) := by
  unfold Observer.feed
  rw [hget]
  exact if_neg (by simp [hopen])

theorem feed_closed {bytes : List UInt8} :
    (t.feed cfg d bytes).connection.closed = t.connection.closed := by
  have hemit {t : Tap} {d : Option Direction} {event : Event} :
      (t.emit cfg d event).connection.closed = t.connection.closed := by
    unfold Tap.emit
    split
    · rfl
    · dsimp only
      split <;> rfl
  have hgap {t : Tap} {d : Option Direction} {reason : String} {sizes : Option (Nat × Nat)} :
      (t.gap cfg d reason sizes).connection.closed = t.connection.closed := by
    unfold Tap.gap
    split
    · exact hemit
    · rfl
  refine (@feed_moves cfg d t _).keeps
    (I := fun t' => t'.connection.closed = t.connection.closed) ?_ rfl
  intro t₁ t₂ hmove ht
  refine Eq.trans ?_ ht
  cases hmove with
  | parse c h => exact h.closed
  | gap => exact hgap
  | upgrade => exact hemit
  | control => exact hemit
  | message payload =>
    unfold Tap.message
    split
    · exact hgap
    · exact hemit

/-- A call of `feed` with bytes. -/
def feedObserver (cfg : Config) (id : κ) (o : Observer κ) (feed : Direction × List UInt8) :
    Observer κ :=
  o.feed cfg id feed.1 feed.2

theorem run_feedObserver {feeds : List (Direction × List UInt8)} (hget : o.get? id = some c)
    (hopen : c.closed = false) :
    (run (feedObserver cfg id) o feeds).get? id =
        some (run (feedTap cfg) ⟨c, o.queue⟩ feeds).connection ∧
      (run (feedObserver cfg id) o feeds).queue = (run (feedTap cfg) ⟨c, o.queue⟩ feeds).queue := by
  induction feeds generalizing o c with
  | nil => exact ⟨hget, rfl⟩
  | cons feed feeds ih =>
    have hfeed : feedObserver cfg id o feed =
        o.putTap id (Tap.feed cfg ⟨c, o.queue⟩ feed.1 feed.2) :=
      Observer.feed_open hget hopen
    rw [run_cons, run_cons, hfeed]
    exact ih Observer.get?_putTap (feed_closed.trans hopen)

instance {s : ∀ d, Half cfg key d} {fed : Direction → Nat} {feed : Direction × List UInt8} :
    Decidable (UpgradeInOrder s fed feed) :=
  inferInstanceAs (Decidable (_ → _ → _))

instance {feed : Direction × List UInt8} : Decidable (BelowLimit cfg t feed) :=
  inferInstanceAs (Decidable (_ ≤ _))

/-- The observer records the messages that were encoded, in the order in which their last bytes
are fed, and no gap; the client's upgrade is complete before the server's. Where the bytes are cut
makes no difference. -/
theorem decodes_what_was_encoded :
    (∀ (cfg : Config) (key : List Char) (s : ∀ d, Half cfg key d) (o : Observer κ) (id : κ)
      (epoch : Nat) (feeds : List (Direction × List UInt8)) (pending : Pending)
      (events : List (Direction × Event)),
      o.get? id = some { epoch := epoch } →
      (∀ d, bytesOf d feeds = (s d).bytes) →
      AllSteps countFed (UpgradeInOrder s) (fun _ => 0) feeds →
      AllSteps (feedTap cfg) (BelowLimit cfg) ⟨{ epoch := epoch }, o.queue⟩ feeds →
      transcript cfg [] (arrivals s (fun _ => 0) (directions feeds)) = some (pending, events) →
      o.queue.events.length + ((s .client).recordCount + (s .server).recordCount) ≤
        cfg.maxEvents - 1 →
      (∀ d, ((arrivals s (fun _ => 0) (directions feeds)).filter (·.1 = d)).map (·.2) =
        (s d).messages.map (·.value)) ∧
      ∃ c records, (run (feedObserver cfg id) o feeds).get? id = some c ∧ c.valid = true ∧
        c.pending = pending ∧
        (run (feedObserver cfg id) o feeds).queue.events = o.queue.events ++ records ∧
        (∀ r ∈ records, r.isGap = false) ∧
        rpcRecords records = events.map fun e => (some e.1, e.2)) ∧
    ∀ (cfg : Config) (o : Observer κ) (id : κ) (c : Connection) (d : Direction) (a b : List UInt8),
      o.get? id = some c → c.closed = false →
      (c.parser d).buffer.length + a.length + b.length ≤ Tap.bufferLimit cfg →
      o.feed cfg id d (a ++ b : List UInt8) = (o.feed cfg id d a).feed cfg id d b := by
  refine ⟨fun cfg key s o id epoch feeds pending events hget hbytes horder hlimit hevents hroom =>
    ⟨fun d => arrivals_messages hbytes, ?_⟩, fun cfg o id c d a b hget hopen hlimit => ?_⟩
  · obtain ⟨hget', hqueue⟩ := @run_feedObserver _ _ cfg _ _ _ feeds hget rfl
    have hstart : Sim s o.queue.events (fun _ => 0) (fun d => (s d).recordCount) [] []
        ⟨{ epoch := epoch }, o.queue⟩ := by
      have hpos (d : Direction) : 0 < (s d).header.length := by
        rw [Half.header_length]
        exact Nat.succ_pos _
      refine ⟨rfl, rfl, rfl, rfl, ?_, fun d => ?_, hroom, [], by simp,
        List.forall_mem_nil _, rfl⟩
      · rw [if_neg (by have := hpos .client; omega)]
      · have hreading := @Reading.header _ _ _ (s d) [] List.nil_prefix (hpos d)
        cases d <;> exact hreading
    obtain ⟨left, hsim⟩ := hstart.run (fun d => hbytes d ▸ List.prefix_refl _)
      hlimit horder hevents
    obtain ⟨records, hrecords, hgaps, hlog⟩ := hsim.records
    exact ⟨_, records, hget', hsim.valid, hsim.pending, hqueue ▸ hrecords, hgaps, hlog⟩
  · rw [Observer.feed_open hget hopen, Observer.feed_open hget hopen, feed_append hlimit,
      Observer.feed_open Observer.get?_putTap (feed_closed.trans hopen), Observer.putTap_putTap]
    rfl

end

/-! ## A connection -/

/-- The bytes of a text. -/
def ascii (s : String) : List UInt8 := s.toByteArray.data.toList

/-- The value of a payload that can be read. -/
def readValue (cfg : Config) (payload : List UInt8) : Option Value :=
  match (decodeUtf8 payload).map (loads cfg.recursionLimit) with
  | some (.ok value) => some value
  | _ => none

/-- A message by its payload. -/
def Message.read (cfg : Config) (payload : List UInt8) (h : (readValue cfg payload).isSome = true)
    (small : payload.length ≤ cfg.maxMessageBytes) : Message cfg where
  payload := payload
  value := (readValue cfg payload).get h
  spelled := by
    generalize hvalue : (readValue cfg payload).get h = value
    have hread : readValue cfg payload = some value := by rw [← hvalue, Option.some_get]
    unfold readValue at hread
    split at hread
    next v hspelled => rw [hspelled, Option.some_inj.1 hread]
    · cases hread
  small := small

def toyKey : List Char := "dGhlIHNhbXBsZSBub25jZQ==".toList

def toyUpgrade (d : Direction) : List UInt8 :=
  [0x0D, 0x0A].intercalate ((match d with
    | .client => ["GET / HTTP/1.1", "Host: a", "Upgrade: websocket", "Connection: Upgrade",
      "Sec-WebSocket-Version: 13", "Sec-WebSocket-Key: dGhlIHNhbXBsZSBub25jZQ=="]
    | .server => ["HTTP/1.1 101 OK", "Upgrade: websocket", "Connection: Upgrade",
      "Sec-WebSocket-Accept: s3pPLMBiTxaQ9kYGzzhZRbK+xOo="]).map ascii)

def toyHalf (d : Direction) (frames : List (Frame {} d × Option (Message {})))
    (fragments : Fragments none frames) : Half {} toyKey d where
  text := toyUpgrade d
  accepted := by cases d <;> decide +kernel
  once := by cases d <;> decide +kernel
  small := by cases d <;> decide +kernel
  frames := frames
  fragments := fragments

/-- A connection on which nothing is sent. -/
def silentHalf (d : Direction) : Half {} toyKey d := toyHalf d [] .nil

def toyRequest : Message {} :=
  .read {} (ascii "\x7b\"id\":1,\"method\":\"thread/start\"\x7d") (by decide +kernel)
    (by decide +kernel)

def toyResponse : Message {} :=
  .read {} (ascii "\x7b\"id\":1,\"result\":\x7b\x7d\x7d") (by decide +kernel) (by decide +kernel)

/-- A frame of the client whose length is written in its second byte. -/
def toyFrame (opcode : Nat) (fin : Bool) (payload : List UInt8)
    (h : opcode ∈ [0, 1, 8, 9, 10] ∧ payload.length < 126 ∧
      (8 ≤ opcode → fin = true ∧ (opcode = 8 → validClosePayload payload = true))) :
    Frame {} .client where
  opcode := opcode
  fin := fin
  payload := payload
  form := .byte
  mask := [1, 2, 3, 4]
  known := h.1
  fits := h.2.1
  small := Nat.le_trans h.2.1.le (by decide)
  masked := rfl
  control := fun hop => ⟨(h.2.2 hop).1, Nat.lt_succ_iff.1 h.2.1, (h.2.2 hop).2⟩

/-- A request in two frames with a ping between them, and its answer. -/
def toySides : ∀ d, Half {} toyKey d
  | .client => toyHalf .client
      [(toyFrame 1 false (toyRequest.payload.take 10) (by decide +kernel), none),
        (toyFrame 9 true [] (by decide +kernel), none),
        (toyFrame 0 true (toyRequest.payload.drop 10) (by decide +kernel), some toyRequest)]
      (.first _ ⟨rfl, rfl⟩ (.control _ (by decide +kernel)
        (.last _ _ ⟨rfl, rfl⟩ (List.take_append_drop _ _) .nil)))
  | .server => toyHalf .server
      [(⟨1, true, toyResponse.payload, .quad, [], by decide, by decide +kernel, by decide +kernel,
        rfl, nofun⟩, some toyResponse)]
      (.whole _ _ ⟨rfl, rfl⟩ rfl .nil)

def toyFeeds : List (Direction × List UInt8) :=
  [(.client, (toySides .client).bytes.take 100), (.client, (toySides .client).bytes.drop 100),
    (.server, (toySides .server).bytes)]

def toyObserver : Observer Nat := Observer.openConnection {} {} 7 none

theorem toy_connection_decoded :
    (∃ c records, (run (feedObserver {} 7) toyObserver toyFeeds).get? 7 = some c ∧
      c.valid = true ∧ c.pending = [] ∧
      (run (feedObserver {} 7) toyObserver toyFeeds).queue.events =
        toyObserver.queue.events ++ records ∧
      (∀ r ∈ records, r.isGap = false) ∧
      rpcRecords records = [(some .client, .rpc (some (.int 1)) (text "thread/start") [] none),
        (some .server, .rpcResponse (.int 1) .client (text "thread/start") true none)]) ∧
    toyObserver.feed {} 7 Direction.client (toyUpgrade .client ++ marker : List UInt8) =
      (toyObserver.feed {} 7 Direction.client (toyUpgrade .client)).feed {} 7 Direction.client
        marker :=
  have hevents : transcript {} [] (arrivals toySides (fun _ => 0) (directions toyFeeds)) =
      some ([], [(.client, .rpc (some (.int 1)) (text "thread/start") [] none),
        (.server, .rpcResponse (.int 1) .client (text "thread/start") true none)]) := by
    decide +kernel
  ⟨(decodes_what_was_encoded.1 {} toyKey toySides toyObserver 7 1 toyFeeds _ _ (by decide +kernel)
      (fun d => by cases d <;> decide +kernel) (by decide +kernel) (by decide +kernel) hevents
      (by decide +kernel)).2,
    decodes_what_was_encoded.2 {} toyObserver 7 { epoch := 1 } .client (toyUpgrade .client) marker
      (by decide +kernel) rfl (by decide +kernel)⟩

/-- The claim's two upgrades, the server's before the client's: the first is a gap. -/
theorem early_answer_is_a_gap :
    ¬ ∀ (cfg : Config) (key : List Char) (s : ∀ d, Half cfg key d) (o : Observer Nat)
      (id epoch : Nat)
      (feeds : List (Direction × List UInt8)) (pending : Pending)
      (events : List (Direction × Event)),
      o.get? id = some { epoch := epoch } →
      (∀ d, bytesOf d feeds = (s d).bytes) →
      AllSteps (feedTap cfg) (BelowLimit cfg) ⟨{ epoch := epoch }, o.queue⟩ feeds →
      transcript cfg [] (arrivals s (fun _ => 0) (directions feeds)) = some (pending, events) →
      o.queue.events.length + ((s .client).recordCount + (s .server).recordCount) ≤
        cfg.maxEvents - 1 →
      ∀ r ∈ (run (feedObserver cfg id) o feeds).queue.events, r.isGap = false := by
  intro h
  have hgap := h {} toyKey silentHalf toyObserver 7 1
    [(.server, (silentHalf .server).bytes), (.client, (silentHalf .client).bytes)] [] []
    (by decide +kernel) (fun d => by cases d <;> decide +kernel) (by decide +kernel)
    (by decide +kernel) (by decide +kernel)
  revert hgap
  decide +kernel

end Orchestrator.Native
