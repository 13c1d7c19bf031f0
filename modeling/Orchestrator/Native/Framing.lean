import Orchestrator.Native.Overflow

/-!
# Frames in a stream

A frame that has been taken from a buffer is the same whatever comes behind it, so it does not
matter where the stream is cut: what is fed in two calls is fed in one.
-/
namespace Orchestrator.Native

section
variable {cfg : Config} {d : Direction} {buffer more payload rest : List UInt8} {opcode n : Nat}
  {fin masked : Bool} {offset length : Nat} {reason : String} {sizes : Option (Nat × Nat)}

/-- A take that does not wait, with more bytes behind it. -/
def Take.behind (more : List UInt8) : Take → Take
  | .frame opcode fin payload rest => .frame opcode fin payload (rest ++ more)
  | take => take

theorem takePayload_append
    (h : takePayload cfg opcode fin masked offset length buffer ≠ .wait) :
    takePayload cfg opcode fin masked offset length (buffer ++ more) =
      (takePayload cfg opcode fin masked offset length buffer).behind more := by
  unfold takePayload at h ⊢
  split
  · rfl
  split
  · rfl
  split
  · rfl
  next hop hcontrol hlarge =>
    simp only [hop, hcontrol, hlarge, if_false] at h
    dsimp only at h ⊢
    generalize hstart : offset + (if masked = true then 4 else 0) = start at h ⊢
    have hlong : ¬ buffer.length < start + length := fun hshort => h (if_pos hshort)
    have hlong' : ¬ (buffer ++ more).length < start + length := by
      rw [List.length_append]; omega
    rw [if_neg hlong, if_neg hlong', Take.behind]
    have hpayload : ((buffer ++ more).drop start).take length =
        (buffer.drop start).take length := by
      rw [List.drop_append_of_le_length (by omega), List.take_append_of_le_length (by simp; omega)]
    have hrest : (buffer ++ more).drop (start + length) = buffer.drop (start + length) ++ more :=
      List.drop_append_of_le_length (by omega)
    rw [hpayload, hrest]
    cases masked with
    | false => rfl
    | true =>
      have hmask : ((buffer ++ more).drop offset).take 4 = (buffer.drop offset).take 4 := by
        simp only [if_true] at hstart
        rw [List.drop_append_of_le_length (by omega),
          List.take_append_of_le_length (by simp; omega)]
      rw [hmask]

theorem takeFrame_append (h : takeFrame cfg d buffer ≠ .wait) :
    takeFrame cfg d (buffer ++ more) = (takeFrame cfg d buffer).behind more := by
  match buffer, h with
  | [], h => exact (h rfl).elim
  | [_], h => exact (h rfl).elim
  | first :: second :: rest, h =>
    unfold takeFrame at h ⊢
    simp only [List.cons_append] at h ⊢
    split
    · rfl
    next hrsv =>
      simp only [hrsv, if_false] at h
      split
      · rfl
      next hmask =>
        simp only [hmask, if_false] at h
        split
        next hcode =>
          simp only [hcode, if_true] at h
          exact takePayload_append h
        next hcode =>
          simp only [hcode, if_false] at h
          split
          next hcode' =>
            simp only [hcode', if_true] at h
            have hlong : ¬ rest.length < 2 := fun hshort => h (if_pos hshort)
            have hlong' : ¬ (rest ++ more).length < 2 := by rw [List.length_append]; omega
            rw [if_neg hlong] at h
            rw [if_neg hlong, if_neg hlong', List.take_append_of_le_length (by omega)]
            exact takePayload_append h
          next hcode' =>
            simp only [hcode', if_false] at h
            have hlong : ¬ rest.length < 8 := fun hshort => h (if_pos hshort)
            have hlong' : ¬ (rest ++ more).length < 8 := by rw [List.length_append]; omega
            rw [if_neg hlong] at h
            rw [if_neg hlong, if_neg hlong', List.take_append_of_le_length (by omega),
              List.take_append_of_le_length (by omega)]
            split
            · rfl
            next hsign =>
              rw [if_neg hsign] at h
              exact takePayload_append h

/-- A frame takes two bytes at least. -/
theorem takeFrame_rest (h : takeFrame cfg d buffer = .frame opcode fin payload rest) :
    rest.length < buffer.length := by
  have htake {offset length : Nat} {fin' masked : Bool} {opcode' : Nat} (hoffset : 2 ≤ offset)
      (h : takePayload cfg opcode' fin' masked offset length buffer =
        .frame opcode fin payload rest) : rest.length < buffer.length := by
    unfold takePayload at h
    split at h
    · cases h
    split at h
    · cases h
    split at h
    · cases h
    dsimp only at h
    have hstart : 2 ≤ offset + if masked = true then 4 else 0 := by omega
    generalize offset + (if masked = true then 4 else 0) = start at h hstart
    by_cases hshort : buffer.length < start + length
    · rw [if_pos hshort] at h
      cases h
    · rw [if_neg hshort] at h
      injection h with _ _ _ hrest
      rw [← hrest, List.length_drop]
      omega
  match buffer, h with
  | first :: second :: tail, h =>
    unfold takeFrame at h
    dsimp only at h
    split at h
    · cases h
    split at h
    · cases h
    split at h
    · exact htake le_rfl h
    split at h
    · split at h
      · cases h
      · exact htake (by decide) h
    split at h
    · cases h
    split at h
    · cases h
    · exact htake (by decide) h

end

/-! ## The loop -/

section
variable {cfg : Config} {d : Direction} {t : Tap} {buffer more : List UInt8} {n m : Nat}

@[simp] theorem setBuffer_valid : (t.setBuffer d buffer).connection.valid = t.connection.valid :=
  setBuffer_same.valid

@[simp] theorem parser_setBuffer :
    ((t.setBuffer d buffer).connection.parser d) =
      { t.connection.parser d with buffer := buffer } := by
  cases d <;> rfl

@[simp] theorem setBuffer_setBuffer {buffer' : List UInt8} :
    (t.setBuffer d buffer).setBuffer d buffer' = t.setBuffer d buffer' := by
  cases d <;> rfl

theorem parseFrames_of_invalid (h : t.connection.valid = false) : t.parseFrames cfg d n = t := by
  cases n with
  | zero => rfl
  | succ n => exact if_neg (by simp [h])

/-- The bytes of a valid connection; one that is not has none. -/
def Tap.refill (t : Tap) (d : Direction) (buffer : List UInt8) : Tap :=
  if t.connection.valid = true then t.setBuffer d buffer else t

theorem refill_of_valid (h : t.connection.valid = true) :
    t.refill d buffer = t.setBuffer d buffer :=
  if_pos h

theorem refill_of_invalid (h : t.connection.valid = false) : t.refill d buffer = t :=
  if_neg (by simp [h])

theorem invalidate_setBuffer {c : Connection} :
    (c.setBuffer d buffer).invalidate = c.invalidate := by
  cases d <;> rfl

theorem emit_invalidated {c : Connection} {q : Queue} {d : Option Direction} {event : Event} :
    (Tap.emit cfg ⟨c.invalidate, q⟩ d event).connection.valid = false := by
  unfold Tap.emit
  split
  · rfl
  · dsimp only
    split <;> rfl

theorem gap_refill {reason : String} {sizes : Option (Nat × Nat)}
    (h : t.connection.valid = true) {e : Option Direction} :
    (t.setBuffer d buffer).gap cfg e reason sizes = (t.gap cfg e reason sizes).refill d buffer := by
  rw [gap_of_valid h, gap_of_valid (setBuffer_valid.trans h), refill_of_invalid emit_invalidated]
  simp [Tap.setBuffer, invalidate_setBuffer]

theorem emit_refill {e : Option Direction} {event : Event} (h : t.connection.valid = true) :
    (t.setBuffer d buffer).emit cfg e event = (t.emit cfg e event).refill d buffer := by
  have hover : (t.setBuffer d buffer).connection.overflowed = t.connection.overflowed :=
    setBuffer_same.overflowed
  have hepoch : (t.setBuffer d buffer).connection.epoch = t.connection.epoch :=
    setBuffer_same.epoch
  have hinvalidate : (t.setBuffer d buffer).connection.invalidate = t.connection.invalidate :=
    invalidate_setBuffer
  unfold Tap.emit
  rw [hover, hepoch, hinvalidate]
  split
  · rw [refill_of_valid h]
  · dsimp only [Tap.setBuffer]
    split
    · rw [refill_of_invalid rfl]
    · rw [Tap.refill, if_pos h]
      rfl

theorem message_refill {payload : List UInt8} (h : t.connection.valid = true) :
    (t.setBuffer d buffer).message cfg d payload =
      (t.message cfg d payload).refill d buffer := by
  have hpending : (t.setBuffer d buffer).connection.pending = t.connection.pending :=
    setBuffer_same.pending
  have hset (pending : Pending) : { t.setBuffer d buffer with connection :=
      { (t.setBuffer d buffer).connection with pending := pending } } =
      Tap.setBuffer { t with connection := { t.connection with pending := pending } } d
        buffer := by
    cases d <;> rfl
  unfold Tap.message
  rw [hpending]
  split
  · exact gap_refill h
  · rw [hset]
    exact emit_refill (t := { t with connection := { t.connection with pending := _ } }) h

theorem setFragment_setBuffer {opcode : Option Nat} {payload : List UInt8} :
    (t.setBuffer d buffer).setFragment d opcode payload =
      (t.setFragment d opcode payload).setBuffer d buffer := by
  cases d <;> rfl

theorem setFragment_valid {opcode : Option Nat} {payload : List UInt8} :
    (t.setFragment d opcode payload).connection.valid = t.connection.valid :=
  setParser_same.valid

theorem complete_refill {opcode : Nat} {payload : List UInt8} (h : t.connection.valid = true) :
    (t.setBuffer d buffer).complete cfg d opcode payload =
      (t.complete cfg d opcode payload).refill d buffer := by
  unfold Tap.complete
  split
  · exact message_refill h
  · exact gap_refill h

/-- What a frame does, it does whatever is behind it. -/
theorem frame_refill {opcode : Nat} {fin : Bool} {payload : List UInt8}
    (h : t.connection.valid = true) :
    (t.setBuffer d buffer).frame cfg d opcode fin payload =
      (t.frame cfg d opcode fin payload).refill d buffer := by
  have hset {opcode : Option Nat} {payload : List UInt8} :
      (t.setBuffer d buffer).setFragment d opcode payload =
        (t.setFragment d opcode payload).refill d buffer := by
    rw [refill_of_valid (setFragment_valid.trans h), setFragment_setBuffer]
  unfold Tap.frame
  simp only [parser_setBuffer]
  split
  · -- control frames
    split
    · exact gap_refill h
    · exact emit_refill h
  split
  · -- continuations
    split
    · exact gap_refill h
    split
    · exact gap_refill h
    split
    · rw [setFragment_setBuffer]
      exact complete_refill (setFragment_valid.trans h)
    · exact hset
  split
  · -- a message that begins
    split
    · exact gap_refill h
    split
    · exact gap_refill h
    split
    · exact complete_refill h
    · exact hset
  · exact gap_refill h

/-- More passes than there are bytes make no difference. -/
theorem parseFrames_fuel (hn : (t.connection.parser d).buffer.length < n)
    (hm : (t.connection.parser d).buffer.length < m) :
    t.parseFrames cfg d n = t.parseFrames cfg d m := by
  induction n generalizing t m with
  | zero => omega
  | succ n ih =>
    obtain _ | m := m
    · omega
    unfold Tap.parseFrames
    split
    next hv =>
      split
      · rfl
      · rfl
      next opcode fin payload rest htake =>
        have hrest := takeFrame_rest htake
        rw [frame_refill hv]
        cases hv' : (t.frame cfg d opcode fin payload).connection.valid with
        | false => rw [refill_of_invalid hv', parseFrames_of_invalid hv',
            parseFrames_of_invalid hv']
        | true =>
          rw [refill_of_valid hv']
          exact ih (by simp; omega) (by simp; omega)
    · rfl

theorem parseFrames_succ (hv : t.connection.valid = true) :
    (t.setBuffer d buffer).parseFrames cfg d (n + 1) = match takeFrame cfg d buffer with
      | .wait => t.setBuffer d buffer
      | .bad reason sizes => t.gap cfg d reason sizes
      | .frame opcode fin payload rest =>
        ((t.frame cfg d opcode fin payload).refill d rest).parseFrames cfg d n := by
  conv_lhs => unfold Tap.parseFrames
  rw [if_pos (setBuffer_valid.trans hv), parser_setBuffer]
  dsimp only
  cases takeFrame cfg d buffer with
  | wait => rfl
  | bad reason sizes =>
    dsimp only
    rw [gap_refill hv, refill_of_invalid]
    rw [gap_of_valid hv]
    exact emit_invalidated
  | frame opcode fin payload rest =>
    dsimp only
    rw [setBuffer_setBuffer, frame_refill hv]

/-- The loop over bytes that come in two parts. -/
theorem parseFrames_append {k : Nat} (hv : t.connection.valid = true)
    (hn : (buffer ++ more).length < n) (hm : buffer.length < m)
    (hk : (buffer ++ more).length < k) :
    (t.setBuffer d (buffer ++ more)).parseFrames cfg d n =
      (((t.setBuffer d buffer).parseFrames cfg d m).refill d
        ((((t.setBuffer d buffer).parseFrames cfg d m).connection.parser d).buffer ++
          more)).parseFrames cfg d k := by
  induction m generalizing t buffer n with
  | zero => omega
  | succ m ih =>
    obtain _ | n := n
    · omega
    cases htake : takeFrame cfg d buffer with
    | wait =>
      rw [parseFrames_succ (n := m) hv, htake]
      simp only [parser_setBuffer]
      rw [refill_of_valid (setBuffer_valid.trans hv), setBuffer_setBuffer]
      exact parseFrames_fuel (by simpa using hn) (by simpa using hk)
    | bad reason sizes =>
      have happend := @takeFrame_append _ _ _ more (by rw [htake]; exact Take.noConfusion)
      have hgap : (t.gap cfg d reason sizes).connection.valid = false := by
        rw [gap_of_valid hv]
        exact emit_invalidated
      rw [parseFrames_succ hv, parseFrames_succ hv, happend, htake]
      simp only [Take.behind]
      rw [refill_of_invalid hgap, parseFrames_of_invalid hgap]
    | frame opcode fin payload rest =>
      have happend := @takeFrame_append _ _ _ more (by rw [htake]; exact Take.noConfusion)
      have hrest := takeFrame_rest htake
      rw [parseFrames_succ hv, parseFrames_succ hv, happend, htake]
      simp only [Take.behind]
      rw [List.length_append] at hn hk
      cases hv' : (t.frame cfg d opcode fin payload).connection.valid with
      | false =>
        rw [refill_of_invalid hv', refill_of_invalid hv', parseFrames_of_invalid hv',
          parseFrames_of_invalid hv', refill_of_invalid hv', parseFrames_of_invalid hv']
      | true =>
        rw [refill_of_valid hv', refill_of_valid hv']
        exact ih hv' (by rw [List.length_append]; omega) (by omega)
          (by rw [List.length_append]; omega)

/-- The loop leaves no more bytes than there were. -/
theorem parseFrames_shrinks (hv : t.connection.valid = true)
    (h : ((t.setBuffer d buffer).parseFrames cfg d n).connection.valid = true) :
    (((t.setBuffer d buffer).parseFrames cfg d n).connection.parser d).buffer.length ≤
      buffer.length := by
  induction n generalizing t buffer with
  | zero => simp [Tap.parseFrames]
  | succ n ih =>
    rw [parseFrames_succ hv] at h ⊢
    cases htake : takeFrame cfg d buffer with
    | wait => simp
    | bad reason sizes =>
      rw [htake] at h
      dsimp only at h
      rw [gap_of_valid hv, emit_invalidated] at h
      cases h
    | frame opcode fin payload rest =>
      rw [htake] at h
      dsimp only at h ⊢
      cases hv' : (t.frame cfg d opcode fin payload).connection.valid with
      | false =>
        rw [refill_of_invalid hv', parseFrames_of_invalid hv', hv'] at h
        cases h
      | true =>
        rw [refill_of_valid hv'] at h ⊢
        exact (ih hv' h).trans (takeFrame_rest htake).le

/-! ## The handshake -/

/-- Whether the handshake is over in one direction. -/
def Tap.done (t : Tap) (d : Direction) : Bool := (t.connection.parser d).handshakeDone

theorem setParser_done {c : Connection} {p : Parser} {e : Direction}
    (h : p.handshakeDone = (c.parser e).handshakeDone) :
    ((c.setParser p e).parser d).handshakeDone = (c.parser d).handshakeDone := by
  cases d <;> cases e <;> first | rfl | exact h

theorem invalidate_done {c : Connection} :
    (c.invalidate.parser d).handshakeDone = (c.parser d).handshakeDone := by
  cases d <;> rfl

theorem emit_done {e : Option Direction} {event : Event} :
    (t.emit cfg e event).done d = t.done d := by
  unfold Tap.emit
  split
  · rfl
  · dsimp only
    split
    · exact invalidate_done
    · rfl

theorem gap_done {e : Option Direction} {reason : String} {sizes : Option (Nat × Nat)} :
    (t.gap cfg e reason sizes).done d = t.done d := by
  unfold Tap.gap
  split
  · exact emit_done.trans invalidate_done
  · rfl

theorem setBuffer_done {e : Direction} : (t.setBuffer e buffer).done d = t.done d :=
  setParser_done rfl

theorem setFragment_done {e : Direction} {opcode : Option Nat} {payload : List UInt8} :
    (t.setFragment e opcode payload).done d = t.done d :=
  setParser_done rfl

theorem complete_done {e : Direction} {opcode : Nat} {payload : List UInt8} :
    (t.complete cfg e opcode payload).done d = t.done d := by
  unfold Tap.complete Tap.message
  split
  · split
    · exact gap_done
    · exact emit_done
  · exact gap_done

theorem frame_done {e : Direction} {opcode : Nat} {fin : Bool} {payload : List UInt8} :
    (t.frame cfg e opcode fin payload).done d = t.done d := by
  unfold Tap.frame
  dsimp only
  split
  · split
    · exact gap_done
    · exact emit_done
  split
  · split
    · exact gap_done
    split
    · exact gap_done
    split
    · exact complete_done.trans setFragment_done
    · exact setFragment_done
  split
  · split
    · exact gap_done
    split
    · exact gap_done
    split
    · exact complete_done
    · exact setFragment_done
  · exact gap_done

theorem parseFrames_done {e : Direction} : (t.parseFrames cfg e n).done d = t.done d := by
  induction n generalizing t with
  | zero => rfl
  | succ n ih =>
    unfold Tap.parseFrames
    split
    · split
      · rfl
      · exact gap_done
      · exact ih.trans (frame_done.trans setBuffer_done)
    · rfl

theorem feed_of_invalid (h : t.connection.valid = false) : t.feed cfg d more = t :=
  if_pos h

theorem feed_of_valid (hv : t.connection.valid = true)
    (hroom : (t.connection.parser d).buffer.length + more.length ≤ Tap.bufferLimit cfg) :
    t.feed cfg d more =
      (t.setBuffer d ((t.connection.parser d).buffer ++ more)).parse cfg d := by
  unfold Tap.feed
  rw [if_neg (by simp [hv]), if_neg (by omega)]

theorem parse_of_done (hv : t.connection.valid = true) (hdone : t.done d = true) :
    (t.setBuffer d buffer).parse cfg d = (t.setBuffer d buffer).parseAll cfg d := by
  have hdone' : ((t.setBuffer d buffer).connection.parser d).handshakeDone = true :=
    setBuffer_done.trans hdone
  unfold Tap.parse Tap.parseReady
  rw [if_pos hdone', if_pos ⟨setBuffer_valid.trans hv, hdone'⟩]

/-- Past the handshake, bytes that come in two parts. -/
theorem parseAll_append (hv : t.connection.valid = true) (hdone : t.done d = true)
    (hroom : buffer.length + more.length ≤ Tap.bufferLimit cfg) :
    (t.setBuffer d (buffer ++ more)).parseAll cfg d =
      ((t.setBuffer d buffer).parseAll cfg d).feed cfg d more := by
  have happend := @parseFrames_append cfg d _ buffer more _ _ ((buffer ++ more).length + 1) hv
    (Nat.lt_succ_self _) (Nat.lt_succ_self _)
    (Nat.lt_succ_self _)
  have hshrinks := @parseFrames_shrinks cfg d _ buffer (buffer.length + 1) hv
  have hdone' : ((t.setBuffer d buffer).parseFrames cfg d (buffer.length + 1)).done d = true :=
    parseFrames_done.trans (setBuffer_done.trans hdone)
  unfold Tap.parseAll
  rw [parser_setBuffer, parser_setBuffer]
  dsimp only
  rw [happend]
  generalize (t.setBuffer d buffer).parseFrames cfg d (buffer.length + 1) = t' at hshrinks hdone' ⊢
  cases hv' : t'.connection.valid with
  | false => rw [refill_of_invalid hv', feed_of_invalid hv', parseFrames_of_invalid hv']
  | true =>
    have hshort := hshrinks hv'
    rw [refill_of_valid hv', feed_of_valid hv' (by omega), parse_of_done hv' hdone', Tap.parseAll,
      parser_setBuffer]
    exact parseFrames_fuel (by simp; omega) (by simp)

theorem takeHeader_refill {header : List UInt8} (hv : t.connection.valid = true) :
    (t.setBuffer d buffer).takeHeader cfg d header =
      (t.takeHeader cfg d header).refill d buffer := by
  have hkey : (t.setBuffer d buffer).connection.clientKey = t.connection.clientKey := by
    cases d <;> rfl
  unfold Tap.takeHeader
  rw [hkey]
  split
  · exact gap_refill hv
  next key _ =>
    have hset : { (t.setBuffer d buffer).connection with clientKey := key }.setParser
        { { (t.setBuffer d buffer).connection with clientKey := key }.parser d with
          handshakeDone := true } d =
        ({ t.connection with clientKey := key }.setParser
          { { t.connection with clientKey := key }.parser d with
            handshakeDone := true } d).setBuffer d buffer := by
      cases d <;> rfl
    unfold Tap.upgrade
    dsimp only
    rw [hset]
    exact emit_refill (t := ⟨_, t.queue⟩) (setParser_same.valid.trans hv)

theorem takeHeader_done {header : List UInt8}
    (h : (t.takeHeader cfg d header).connection.valid = true) :
    (t.takeHeader cfg d header).done d = true := by
  unfold Tap.takeHeader at h ⊢
  split at h
  · unfold Tap.gap at h
    split at h
    · rw [emit_invalidated] at h
      cases h
    next hv => exact (hv h).elim
  · unfold Tap.upgrade
    dsimp only
    rw [emit_done, Tap.done, parser_setParser]

theorem marker_at {i : Nat} (h : findMarker buffer = some i) : marker <+: buffer.drop i := by
  induction buffer generalizing i with
  | nil => cases h
  | cons b bs ih =>
    unfold findMarker at h
    split at h
    next hahead =>
      cases h
      exact List.isPrefixOf_iff_prefix.1 hahead
    · obtain ⟨j, hj, rfl⟩ := Option.map_eq_some_iff.1 h
      exact ih hj

theorem no_marker {i : Nat} (h : findMarker buffer = none) : ¬ marker <+: buffer.drop i := by
  induction buffer generalizing i with
  | nil => simp [marker]
  | cons b bs ih =>
    unfold findMarker at h
    split at h
    · cases h
    next hahead =>
      cases i with
      | zero => exact fun hat => hahead (List.isPrefixOf_iff_prefix.2 hat)
      | succ i => exact ih (Option.map_eq_none_iff.1 h)

theorem findMarker_le {i : Nat} (h : findMarker buffer = some i) : i + 4 ≤ buffer.length := by
  have hle := (marker_at h).length_le
  rw [List.length_drop] at hle
  simp only [marker, List.length_cons, List.length_nil] at hle
  omega

/-- The end of the header is where it is, whatever comes behind it. -/
theorem findMarker_append {i : Nat} (h : findMarker buffer = some i) :
    findMarker (buffer ++ more) = some i := by
  induction buffer generalizing i with
  | nil => cases h
  | cons b bs ih =>
    have hlength := findMarker_le h
    rw [List.cons_append]
    unfold findMarker at h ⊢
    split at h
    next hahead =>
      cases h
      rw [if_pos]
      exact List.isPrefixOf_iff_prefix.2
        ((List.isPrefixOf_iff_prefix.1 hahead).trans (List.prefix_append _ _))
    next hahead =>
      obtain ⟨j, hj, rfl⟩ := Option.map_eq_some_iff.1 h
      rw [if_neg, ih hj]
      · rfl
      · intro hat
        refine hahead (List.isPrefixOf_iff_prefix.2 (List.prefix_of_prefix_length_le
          (List.isPrefixOf_iff_prefix.1 hat) (List.prefix_append (b :: bs) more) ?_))
        simp only [marker, List.length_cons, List.length_nil] at hlength ⊢
        omega

/-- A marker that only more bytes bring ends in them. -/
theorem findMarker_late {i : Nat} (h : findMarker buffer = none)
    (h' : findMarker (buffer ++ more) = some i) : buffer.length < i + 4 := by
  by_contra hle
  refine no_marker (i := i) h (List.prefix_of_prefix_length_le (marker_at h') ?_ ?_)
  · rw [List.drop_append_of_le_length (by omega)]
    exact List.prefix_append _ _
  · rw [List.length_drop]
    simp only [marker, List.length_cons, List.length_nil]
    omega

theorem gap_setBuffer {reason : String} {sizes : Option (Nat × Nat)} {e : Option Direction}
    (hv : t.connection.valid = true) :
    (t.setBuffer d buffer).gap cfg e reason sizes = t.gap cfg e reason sizes := by
  rw [gap_refill hv, refill_of_invalid]
  rw [gap_of_valid hv]
  exact emit_invalidated

theorem gap_invalid {reason : String} {sizes : Option (Nat × Nat)} {e : Option Direction}
    (hv : t.connection.valid = true) :
    (t.gap cfg e reason sizes).connection.valid = false := by
  rw [gap_of_valid hv]
  exact emit_invalidated

theorem parseReady_of_invalid (h : t.connection.valid = false) : t.parseReady cfg d = t :=
  if_neg (by simp [h])

theorem parseReady_of_done (hv : t.connection.valid = true) (hdone : t.done d = true) :
    t.parseReady cfg d = t.parseAll cfg d :=
  if_pos ⟨hv, hdone⟩

theorem parseReady_of_not_done (hdone : t.done d = false) : t.parseReady cfg d = t :=
  if_neg fun h => by simp [Tap.done, h.2] at hdone

theorem parse_of_not_done (hdone : t.done d = false) :
    t.parse cfg d = (t.parseUpgrade cfg d).parseReady cfg d :=
  if_neg (by simpa [Tap.done] using hdone)

/-- Where a header ends, in a buffer that holds it. -/
theorem parseUpgrade_some {i : Nat} (hv : t.connection.valid = true)
    (hfind : findMarker buffer = some i) :
    (t.setBuffer d buffer).parseUpgrade cfg d =
      if i + 4 > cfg.maxHeaderBytes then t.gap cfg d "header_too_large"
      else (t.takeHeader cfg d (buffer.take i)).refill d (buffer.drop (i + 4)) := by
  unfold Tap.parseUpgrade
  rw [parser_setBuffer]
  dsimp only
  rw [hfind]
  dsimp only
  split
  · exact gap_setBuffer hv
  · rw [setBuffer_setBuffer, takeHeader_refill hv]

theorem parseUpgrade_none (hv : t.connection.valid = true) (hfind : findMarker buffer = none) :
    (t.setBuffer d buffer).parseUpgrade cfg d =
      if buffer.length > cfg.maxHeaderBytes then t.gap cfg d "header_too_large"
      else t.setBuffer d buffer := by
  unfold Tap.parseUpgrade
  rw [parser_setBuffer]
  dsimp only
  rw [hfind]
  dsimp only
  split
  · exact gap_setBuffer hv
  · rfl

/-- Up to the end of the handshake, bytes that come in two parts. -/
theorem parse_append (hv : t.connection.valid = true) (hdone : t.done d = false)
    (hroom : buffer.length + more.length ≤ Tap.bufferLimit cfg) :
    (t.setBuffer d (buffer ++ more)).parse cfg d =
      ((t.setBuffer d buffer).parse cfg d).feed cfg d more := by
  rw [parse_of_not_done (setBuffer_done.trans hdone),
    parse_of_not_done (setBuffer_done.trans hdone)]
  cases hfind : findMarker buffer with
  | some i =>
    have hle := findMarker_le hfind
    rw [parseUpgrade_some hv hfind, parseUpgrade_some hv (findMarker_append hfind)]
    split
    · rw [parseReady_of_invalid (gap_invalid hv), feed_of_invalid (gap_invalid hv)]
    · rw [List.take_append_of_le_length (by omega), List.drop_append_of_le_length hle]
      have hdone' := @takeHeader_done cfg d t (buffer.take i)
      generalize t.takeHeader cfg d (buffer.take i) = t' at hdone' ⊢
      cases hv' : t'.connection.valid with
      | false =>
        rw [refill_of_invalid hv', refill_of_invalid hv', parseReady_of_invalid hv',
          feed_of_invalid hv']
      | true =>
        rw [refill_of_valid hv', refill_of_valid hv',
          parseReady_of_done (setBuffer_valid.trans hv') (setBuffer_done.trans (hdone' hv')),
          parseReady_of_done (setBuffer_valid.trans hv') (setBuffer_done.trans (hdone' hv'))]
        exact parseAll_append hv' (hdone' hv') (by rw [List.length_drop]; omega)
  | none =>
    rw [parseUpgrade_none hv hfind]
    by_cases hlarge : buffer.length > cfg.maxHeaderBytes
    · rw [if_pos hlarge, parseReady_of_invalid (gap_invalid hv), feed_of_invalid (gap_invalid hv)]
      have hgap : (t.setBuffer d (buffer ++ more)).parseUpgrade cfg d =
          t.gap cfg d "header_too_large" := by
        cases hfind' : findMarker (buffer ++ more) with
        | none =>
          rw [parseUpgrade_none hv hfind', if_pos (by rw [List.length_append]; omega)]
        | some i =>
          have hlate := findMarker_late hfind hfind'
          rw [parseUpgrade_some hv hfind', if_pos (by omega)]
      rw [hgap, parseReady_of_invalid (gap_invalid hv)]
    · rw [if_neg hlarge, parseReady_of_not_done (setBuffer_done.trans hdone),
        feed_of_valid (setBuffer_valid.trans hv) (by simpa using hroom), parser_setBuffer,
        setBuffer_setBuffer, parse_of_not_done (setBuffer_done.trans hdone)]

/-- What is fed in two calls is fed in one, below the limit of the buffer. -/
theorem feed_append {a b : List UInt8}
    (hroom : (t.connection.parser d).buffer.length + a.length + b.length ≤ Tap.bufferLimit cfg) :
    t.feed cfg d (a ++ b) = (t.feed cfg d a).feed cfg d b := by
  cases hv : t.connection.valid with
  | false => rw [feed_of_invalid hv, feed_of_invalid hv, feed_of_invalid hv]
  | true =>
    rw [feed_of_valid hv (by rw [List.length_append]; omega),
      feed_of_valid (t := t) hv (by omega), ← List.append_assoc]
    cases hdone : t.done d with
    | true =>
      rw [parse_of_done hv hdone, parse_of_done hv hdone]
      exact parseAll_append hv hdone (by rw [List.length_append]; omega)
    | false => exact parse_append hv hdone (by rw [List.length_append]; omega)

end
end Orchestrator.Native
