import Orchestrator.Native.Moves
import Orchestrator.Library.Run

/-!
# The bound on the queue

The queue keeps one place free for the gap of an overflow. A connection takes it once and is
silent from then on, so the bound holds as long as no other record comes when it is taken.
-/
namespace Orchestrator.Native
open Library

/-- A queue that is full ends with a gap. -/
def Queue.EndsInGap (cfg : Config) (q : Queue) : Prop :=
  cfg.maxEvents ≤ q.events.length → ∃ r, q.events.getLast? = some r ∧ r.isGap = true

section
variable {cfg : Config} {q : Queue} {epoch : Option Nat} {d : Option Direction} {event : Event}

theorem Queue.emit_length :
    (q.emit cfg epoch d event).1.events.length = q.events.length + 1 := by
  unfold Queue.emit
  dsimp only
  split <;> simp

theorem Queue.emit_overflow :
    (q.emit cfg epoch d event).2 = true ↔ cfg.maxEvents ≤ q.events.length + 1 := by
  have := cfg.reserve
  unfold Queue.emit
  dsimp only
  split
  next h => simp only [true_iff]; omega
  next h => simp only [Bool.false_eq_true, false_iff]; omega

theorem Queue.emit_endsInGap : (q.emit cfg epoch d event).1.EndsInGap cfg := by
  intro hfull
  rw [emit_length] at hfull
  unfold Queue.emit
  have := cfg.reserve
  dsimp only
  rw [if_pos (by omega)]
  exact ⟨_, List.getLast?_concat, rfl⟩

end

/-! ## Connections -/

section
variable {cfg : Config} {t t' : Tap} {d : Option Direction} {event : Event} {reason : String}
  {sizes : Option (Nat × Nat)}

/-- A queue with room for a record, or a connection that has overflowed it. -/
def Tap.Bounded (cfg : Config) (t : Tap) : Prop :=
  t.queue.events.length ≤ cfg.maxEvents ∧
    (t.connection.overflowed = false → t.queue.events.length < cfg.maxEvents)

theorem emit_of_overflowed (h : t.connection.overflowed = true) : t.emit cfg d event = t :=
  if_pos h

theorem emit_of_not_overflowed (h : t.connection.overflowed = false) :
    (t.emit cfg d event).queue =
      (t.queue.emit cfg (some t.connection.epoch) d event).1 ∧
    ((t.emit cfg d event).connection.overflowed = true ↔
      cfg.maxEvents ≤ t.queue.events.length + 1) := by
  rw [← @Queue.emit_overflow cfg _ (some t.connection.epoch) d event]
  unfold Tap.emit
  rw [if_neg (by simp [h])]
  dsimp only
  split
  next hover => exact ⟨rfl, by simp [hover]⟩
  next hover => exact ⟨rfl, by simp [h, hover]⟩

theorem emit_endsInGap (h : t.queue.EndsInGap cfg) :
    (t.emit cfg d event).queue.EndsInGap cfg := by
  cases hover : t.connection.overflowed with
  | true => rwa [emit_of_overflowed hover]
  | false => rw [(emit_of_not_overflowed hover).1]; exact Queue.emit_endsInGap

theorem emit_bounded (h : t.Bounded cfg) : (t.emit cfg d event).Bounded cfg := by
  cases hover : t.connection.overflowed with
  | true => rwa [emit_of_overflowed hover]
  | false =>
    obtain ⟨hqueue, hoverflow⟩ := @emit_of_not_overflowed cfg _ d event hover
    have hroom := h.2 hover
    refine ⟨by rw [hqueue, Queue.emit_length]; exact hroom, fun hnot => ?_⟩
    rw [hqueue, Queue.emit_length]
    by_contra hle
    rw [hoverflow.mpr (by omega)] at hnot
    cases hnot

theorem gap_of_invalid (h : t.connection.valid = false) : t.gap cfg d reason sizes = t :=
  if_neg (by simp [h])

theorem gap_of_valid (h : t.connection.valid = true) : t.gap cfg d reason sizes =
    Tap.emit cfg { t with connection := t.connection.invalidate } d (.gap reason sizes) :=
  if_pos h

/-- What the records of a move keep, the move keeps. -/
theorem Move.keeps {d : Direction} {I : Tap → Prop} (h : Move cfg d t t')
    (hemit : ∀ (t : Tap) d event, I t → I (t.emit cfg d event))
    (hset : ∀ (t : Tap) (c : Connection), c.epoch = t.connection.epoch →
      c.overflowed = t.connection.overflowed → (c.valid = true → t.connection.valid = true) →
      I t → I { t with connection := c })
    (ht : I t) : I t' := by
  have hgap (t : Tap) (d : Option Direction) reason sizes (ht : I t) :
      I (t.gap cfg d reason sizes) := by
    cases hv : t.connection.valid with
    | false => rwa [gap_of_invalid hv]
    | true =>
      rw [gap_of_valid hv]
      exact hemit _ _ _ (hset t _ rfl rfl (fun h => nomatch h) ht)
  cases h with
  | parse c h => exact hset t c h.epoch h.overflowed (fun hc => h.valid ▸ hc) ht
  | gap reason sizes => exact hgap t d reason sizes ht
  | upgrade h => exact hemit t _ _ ht
  | control opcode h => exact hemit t _ _ ht
  | message payload h =>
    unfold Tap.message
    split
    · exact hgap t d _ _ ht
    · exact hemit _ _ _ (hset t _ rfl rfl id ht)

theorem feed_bounded {d : Direction} {incoming : List UInt8} (h : t.Bounded cfg) :
    (t.feed cfg d incoming).Bounded cfg :=
  feed_moves.keeps (fun _ _ hmove => hmove.keeps (fun _ _ _ => emit_bounded)
    fun _ _ _ hover _ ht => ⟨ht.1, fun hc => ht.2 (hover ▸ hc)⟩) h

theorem feed_endsInGap {d : Direction} {incoming : List UInt8} (h : t.queue.EndsInGap cfg) :
    (t.feed cfg d incoming).queue.EndsInGap cfg :=
  feed_moves.keeps (I := fun t => t.queue.EndsInGap cfg)
    (fun _ _ hmove => hmove.keeps (I := fun t => t.queue.EndsInGap cfg)
      (fun _ _ _ => emit_endsInGap) fun _ _ _ _ _ ht => ht) h

theorem emit_length_mono :
    t.queue.events.length ≤ (t.emit cfg d event).queue.events.length := by
  cases h : t.connection.overflowed with
  | true => rw [emit_of_overflowed h]
  | false => rw [(emit_of_not_overflowed h).1, Queue.emit_length]; omega

theorem move_length_mono {d : Direction} (h : Move cfg d t t') :
    t.queue.events.length ≤ t'.queue.events.length :=
  h.keeps (I := fun t' => t.queue.events.length ≤ t'.queue.events.length)
    (fun _ _ _ ht => ht.trans emit_length_mono) (fun _ _ _ _ _ ht => ht) le_rfl

theorem moves_length_mono {d : Direction} (h : Moves cfg d t t') :
    t.queue.events.length ≤ t'.queue.events.length :=
  h.keeps (I := fun t' => t.queue.events.length ≤ t'.queue.events.length)
    (fun _ _ hmove ht => ht.trans (move_length_mono hmove)) le_rfl

end

/-! ## What is silent -/

/-- Two taps of one connection, on queues that differ, of which neither has recorded anything
since, or both have. -/
def Alike (q q' : Queue) (t t' : Tap) : Prop :=
  (t.queue = q ∧ t'.queue = q' ∧ t.connection = t'.connection) ∨
    (q.events.length < t.queue.events.length ∧ q'.events.length < t'.queue.events.length)

section
variable {cfg : Config} {q q' : Queue} {c : Connection} {t t' : Tap} {d : Direction}

theorem Alike.refl : Alike q q' ⟨c, q⟩ ⟨c, q'⟩ := .inl ⟨rfl, rfl, rfl⟩

theorem Alike.bind {f : Tap → Tap} (h : Alike q q' t t')
    (hf : ∀ c, Alike q q' (f ⟨c, q⟩) (f ⟨c, q'⟩))
    (hmono : ∀ t : Tap, t.queue.events.length ≤ (f t).queue.events.length) :
    Alike q q' (f t) (f t') := by
  obtain ⟨c, r⟩ := t
  obtain ⟨c', r'⟩ := t'
  obtain ⟨rfl, rfl, rfl⟩ | ⟨hlt, hlt'⟩ := h
  · exact hf c
  · exact .inr ⟨hlt.trans_le (hmono _), hlt'.trans_le (hmono _)⟩

theorem alike_emit {d : Option Direction} {event : Event} :
    Alike q q' (Tap.emit cfg ⟨c, q⟩ d event) (Tap.emit cfg ⟨c, q'⟩ d event) := by
  cases hover : c.overflowed with
  | true =>
    rw [emit_of_overflowed hover, emit_of_overflowed hover]
    exact .refl
  | false =>
    refine .inr ⟨?_, ?_⟩
    · rw [(emit_of_not_overflowed hover).1, Queue.emit_length]; exact Nat.lt_succ_self _
    · rw [(emit_of_not_overflowed hover).1, Queue.emit_length]; exact Nat.lt_succ_self _

theorem alike_gap {d : Option Direction} {reason : String} {sizes : Option (Nat × Nat)} :
    Alike q q' (Tap.gap cfg ⟨c, q⟩ d reason sizes) (Tap.gap cfg ⟨c, q'⟩ d reason sizes) := by
  unfold Tap.gap
  split
  · exact alike_emit
  · exact .refl

theorem alike_message {payload : List UInt8} :
    Alike q q' (Tap.message cfg ⟨c, q⟩ d payload) (Tap.message cfg ⟨c, q'⟩ d payload) := by
  unfold Tap.message
  dsimp only
  split
  · exact alike_gap
  · exact alike_emit

theorem alike_complete {opcode : Nat} {payload : List UInt8} :
    Alike q q' (Tap.complete cfg ⟨c, q⟩ d opcode payload)
      (Tap.complete cfg ⟨c, q'⟩ d opcode payload) := by
  unfold Tap.complete
  split
  · exact alike_message
  · exact alike_gap

theorem alike_frame {opcode : Nat} {fin : Bool} {payload : List UInt8} :
    Alike q q' (Tap.frame cfg ⟨c, q⟩ d opcode fin payload)
      (Tap.frame cfg ⟨c, q'⟩ d opcode fin payload) := by
  unfold Tap.frame
  dsimp only
  split
  · -- control frames
    split
    · exact alike_gap
    · exact alike_emit
  split
  · -- continuations
    split
    · exact alike_gap
    split
    · exact alike_gap
    split
    · exact alike_complete
    · exact .refl
  split
  · -- a message that begins
    split
    · exact alike_gap
    split
    · exact alike_gap
    split
    · exact alike_complete
    · exact .refl
  · exact alike_gap

theorem alike_parseFrames {n : Nat} :
    Alike q q' (Tap.parseFrames cfg ⟨c, q⟩ d n) (Tap.parseFrames cfg ⟨c, q'⟩ d n) := by
  induction n generalizing c with
  | zero => exact .refl
  | succ n ih =>
    unfold Tap.parseFrames
    dsimp only
    split
    next hv =>
      split
      · exact .refl
      · exact alike_gap
      · exact alike_frame.bind (f := fun t => t.parseFrames cfg d n) (fun _ => ih)
          fun _ => moves_length_mono parseFrames_moves
    · exact .refl

theorem alike_parseReady :
    Alike q q' (Tap.parseReady cfg ⟨c, q⟩ d) (Tap.parseReady cfg ⟨c, q'⟩ d) := by
  unfold Tap.parseReady
  split
  · exact alike_parseFrames
  · exact .refl

theorem alike_parseUpgrade :
    Alike q q' (Tap.parseUpgrade cfg ⟨c, q⟩ d) (Tap.parseUpgrade cfg ⟨c, q'⟩ d) := by
  unfold Tap.parseUpgrade
  dsimp only
  split
  · split
    · exact alike_gap
    · exact .refl
  split
  · exact alike_gap
  unfold Tap.takeHeader Tap.setBuffer
  dsimp only
  split
  · exact alike_gap
  · exact alike_emit

theorem alike_parse : Alike q q' (Tap.parse cfg ⟨c, q⟩ d) (Tap.parse cfg ⟨c, q'⟩ d) := by
  unfold Tap.parse
  split
  · exact alike_parseReady
  · exact alike_parseUpgrade.bind (f := fun t => t.parseReady cfg d) (fun _ => alike_parseReady)
      fun _ => moves_length_mono parseReady_moves

theorem alike_feed {incoming : List UInt8} :
    Alike q q' (Tap.feed cfg ⟨c, q⟩ d incoming) (Tap.feed cfg ⟨c, q'⟩ d incoming) := by
  unfold Tap.feed
  dsimp only
  split
  · exact .refl
  split
  · exact alike_gap
  · exact alike_parse

/-- Whether bytes are recorded does not depend on what is queued. -/
theorem feed_silent_iff {incoming : List UInt8} :
    (Tap.feed cfg ⟨c, q⟩ d incoming).queue.events.length = q.events.length ↔
      (Tap.feed cfg ⟨c, {}⟩ d incoming).queue.events = [] := by
  obtain ⟨hq, hq', -⟩ | ⟨hlt, hlt'⟩ :=
    @alike_feed cfg q {} c d incoming
  · simp [hq, hq']
  · constructor
    · intro h; omega
    · intro h; simp [h] at hlt'

end

/-! ## The observer -/

/-- The records of a connection whose id is opened again. -/
def reopenRecords : Option Connection → Nat
  | none => 0
  | some c => if c.closed = true ∨ c.overflowed = true then 0 else if c.valid = true then 2 else 1

section
namespace Observer
variable {κ : Type} [DecidableEq κ] (cfg : Config) (o : Observer κ)

/-- There is room for `n` more records. -/
def Room (n : Nat) : Prop := o.queue.events.length + n ≤ cfg.maxEvents

def FitsOpen (id : κ) (epoch : Option Int) : Prop :=
  o.epochFor epoch ≠ none → o.Room cfg (1 + reopenRecords (o.get? id))

def FitsFeed (id : κ) (direction : Option Direction) (data : Option (List UInt8)) : Prop :=
  match o.get? id with
  | none => o.Room cfg 1
  | some c =>
    if c.closed = true then o.Room cfg 1
    else c.valid = true → o.Room cfg 1 ∨ ∃ d bytes, direction = some d ∧ data = some bytes ∧
      (Tap.feed cfg ⟨c, {}⟩ d bytes).queue.events = []

def FitsClose (id : κ) : Prop :=
  match o.get? id with
  | none => o.Room cfg 1
  | some c => c.closed = false → c.overflowed = false → o.Room cfg 1

/-- A call whose records find room: a connection takes the last place once, all others find
it taken. -/
def Fits : Call κ → Prop
  | .openConnection id epoch => o.FitsOpen cfg id epoch
  | .setPending _ | .drainEvents => True
  | .feed id direction data => o.FitsFeed cfg id direction data
  | .close id => o.FitsClose cfg id

end Observer
end

section
variable {κ : Type} [DecidableEq κ] {cfg : Config} {o : Observer κ} {id : κ} {c : Connection}
  {t : Tap}

/-- A connection that has overflowed is not valid. -/
def Tap.Settled (t : Tap) : Prop :=
  t.connection.overflowed = true → t.connection.valid = false

theorem emit_settled {d : Option Direction} {event : Event} (h : t.Settled) :
    (t.emit cfg d event).Settled := by
  unfold Tap.emit
  split
  · exact h
  · dsimp only
    split
    · exact fun _ => rfl
    · exact h

theorem set_settled {c : Connection} (hover : c.overflowed = t.connection.overflowed)
    (hvalid : c.valid = true → t.connection.valid = true) (h : t.Settled) :
    Tap.Settled { t with connection := c } := fun hc => by
  have := h (hover ▸ hc)
  by_contra hv
  rw [hvalid (by simpa using hv)] at this
  cases this

theorem move_settled {t' : Tap} {d : Direction} (h : Move cfg d t t') (ht : t.Settled) :
    t'.Settled :=
  h.keeps (fun _ _ _ => emit_settled) (fun _ _ _ => set_settled) ht

theorem gap_settled {d : Option Direction} {reason : String} {sizes : Option (Nat × Nat)}
    (h : t.Settled) : (t.gap cfg d reason sizes).Settled := by
  unfold Tap.gap
  split
  · exact emit_settled (set_settled rfl (fun h => nomatch h) h)
  · exact h

theorem close_settled : (t.close cfg).Settled := emit_settled fun _ => rfl

def Observer.Settled (o : Observer κ) : Prop :=
  ∀ p ∈ o.connections, Tap.Settled ⟨p.2, o.queue⟩

theorem mem_of_get? (h : o.get? id = some c) : (id, c) ∈ o.connections := by
  unfold Observer.get? at h
  obtain ⟨⟨id', c'⟩, hfind, rfl⟩ := Option.map_eq_some_iff.mp h
  have hid := List.find?_some hfind
  obtain rfl : id' = id := by simpa using hid
  exact List.mem_of_find?_eq_some hfind

theorem Observer.Settled.put (h : o.Settled) (ht : t.Settled) : (o.putTap id t).Settled := by
  intro p hp
  rcases List.mem_cons.mp hp with rfl | hp
  · exact ht
  · exact h p (List.mem_of_mem_filter hp)

theorem step_settled (h : o.Settled) (call : Call κ) : (o.step cfg call).Settled := by
  cases call with
  | openConnection id epoch =>
    change (o.openConnection cfg id epoch).Settled
    unfold Observer.openConnection
    split
    · exact h
    · exact Observer.Settled.put (o := { o with maxEpochSeen := _, nextEpoch := _ }) h
        (emit_settled fun hover => nomatch hover)
  | setPending id =>
    change (o.setPending id).Settled
    unfold Observer.setPending
    split
    · split
      · exact h
      · intro p hp
        rcases List.mem_cons.mp hp with rfl | hp
        · exact fun _ => rfl
        · exact h p (List.mem_of_mem_filter hp)
    · exact h
  | feed id direction data =>
    change (o.feed cfg id direction data).Settled
    unfold Observer.feed
    split
    · exact h
    next c hc =>
      have hc : Tap.Settled ⟨c, o.queue⟩ := h _ (mem_of_get? hc)
      split
      · exact h
      split
      · exact h.put (gap_settled hc)
      · exact h.put (gap_settled hc)
      · exact h.put (feed_moves.keeps (fun _ _ hmove => move_settled hmove) hc)
  | close id =>
    change (o.close cfg id).Settled
    unfold Observer.close
    split
    · exact h
    · split
      · exact h
      · exact h.put close_settled
  | drainEvents => exact h

end

/-! ## The bound -/

section
variable {κ : Type} [DecidableEq κ] {cfg : Config} {o : Observer κ} {id : κ} {c : Connection}
  {t : Tap}

def Observer.Bounded (cfg : Config) (o : Observer κ) : Prop :=
  o.queue.events.length ≤ cfg.maxEvents ∧ o.queue.EndsInGap cfg

theorem emit_length_of_not_overflowed {d : Option Direction} {event : Event}
    (h : t.connection.overflowed = false) :
    (t.emit cfg d event).queue.events.length = t.queue.events.length + 1 := by
  rw [(emit_of_not_overflowed h).1, Queue.emit_length]

theorem gap_length_of_valid {d : Option Direction} {reason : String}
    {sizes : Option (Nat × Nat)} (hv : t.connection.valid = true) (h : t.Settled) :
    (t.gap cfg d reason sizes).queue.events.length = t.queue.events.length + 1 ∧
    ((t.gap cfg d reason sizes).connection.overflowed = true ↔
      cfg.maxEvents ≤ t.queue.events.length + 1) := by
  have hover : t.connection.overflowed = false := by
    by_contra hover
    rw [h (by simpa using hover)] at hv
    cases hv
  rw [gap_of_valid hv]
  have hover' : t.connection.invalidate.overflowed = false := hover
  exact ⟨emit_length_of_not_overflowed hover', (@emit_of_not_overflowed cfg
    { t with connection := t.connection.invalidate } _ _ hover').2⟩

omit [DecidableEq κ] in
/-- A record of no connection. -/
theorem unknown_bounded_iff {d : Option Direction} :
    (o.unknownConnection cfg d).Bounded cfg ↔ o.Room cfg 1 := by
  unfold Observer.Bounded Observer.Room Observer.unknownConnection
  rw [Queue.emit_length]
  exact and_iff_left Queue.emit_endsInGap

theorem close_length (h : t.Settled) (hover : t.connection.overflowed = false) :
    t.queue.events.length < (t.close cfg).queue.events.length := by
  have hgap : (t.closeGap cfg).connection.overflowed = false ∧
      (t.closeGap cfg).queue.events.length = t.queue.events.length ∨
      t.queue.events.length < (t.closeGap cfg).queue.events.length := by
    unfold Tap.closeGap
    dsimp only
    split
    · exact .inl ⟨hover, rfl⟩
    next hv =>
      have hv : t.connection.valid = true := by simpa using hv
      split
      · exact .inr (by rw [(gap_length_of_valid hv h).1]; omega)
      split
      · exact .inr (by rw [(gap_length_of_valid hv h).1]; omega)
      · exact .inl ⟨hover, rfl⟩
  unfold Tap.close
  obtain ⟨hnot, hsame⟩ | hlt := hgap
  · have hlast : ((t.closeGap cfg).disconnect cfg).queue.events.length =
        (t.closeGap cfg).queue.events.length + 1 :=
      emit_length_of_not_overflowed (t := { t.closeGap cfg with connection := _ }) hnot
    omega
  · exact hlt.trans_le (emit_length_mono (t := ⟨{ (t.closeGap cfg).connection with
      closed := true, state := .disconnected, valid := false }, (t.closeGap cfg).queue⟩))

theorem close_bounded (h : t.Bounded cfg) : (t.close cfg).Bounded cfg := by
  have hgap (d : Option Direction) (reason : String) : (t.gap cfg d reason).Bounded cfg := by
    unfold Tap.gap
    split
    · exact emit_bounded (t := { t with connection := t.connection.invalidate }) h
    · exact h
  refine emit_bounded (t := { t.closeGap cfg with connection := _ }) ?_
  change (t.closeGap cfg).Bounded cfg
  unfold Tap.closeGap
  dsimp only
  split
  · exact h
  split
  · exact hgap _ _
  split
  · exact hgap _ _
  · exact h

theorem close_endsInGap (h : t.queue.EndsInGap cfg) : (t.close cfg).queue.EndsInGap cfg := by
  have hgap (d : Option Direction) (reason : String) :
      (t.gap cfg d reason).queue.EndsInGap cfg := by
    unfold Tap.gap
    split
    · exact emit_endsInGap (t := { t with connection := t.connection.invalidate }) h
    · exact h
  refine emit_endsInGap (t := { t.closeGap cfg with connection := _ }) ?_
  change (t.closeGap cfg).queue.EndsInGap cfg
  unfold Tap.closeGap
  dsimp only
  split
  · exact h
  split
  · exact hgap _ _
  split
  · exact hgap _ _
  · exact h

/-- The records of a connection whose id is opened again, and one more, find room. -/
theorem reopened_room (h : o.Settled) : (o.reopened cfg id).events.length + 1 ≤ cfg.maxEvents ↔
    o.Room cfg (1 + reopenRecords (o.get? id)) := by
  unfold Observer.reopened Observer.Room
  cases hc : o.get? id with
  | none => rfl
  | some old =>
    have hold : Tap.Settled ⟨old, o.queue⟩ := h _ (mem_of_get? hc)
    dsimp only [reopenRecords]
    by_cases hclosed : old.closed = true
    · simp [hclosed]
    rw [if_neg hclosed]
    cases hover : old.overflowed with
    | true =>
      have hsame : Tap.reopen cfg ⟨old, o.queue⟩ = ⟨{ old with closed := true }, o.queue⟩ := by
        unfold Tap.reopen
        dsimp only
        rw [gap_of_invalid (hold hover)]
        exact emit_of_overflowed (t := ⟨{ old with closed := true }, o.queue⟩) hover
      simp [hsame]
    | false =>
      cases hv : old.valid with
      | false =>
        have hsame : (Tap.reopen cfg ⟨old, o.queue⟩).queue.events.length =
            o.queue.events.length + 1 := by
          unfold Tap.reopen
          dsimp only
          rw [gap_of_invalid hv]
          exact emit_length_of_not_overflowed (t := ⟨{ old with closed := true }, o.queue⟩) hover
        simp [hsame, hclosed, Nat.add_assoc]
      | true =>
        obtain ⟨hlength, hoverflow⟩ := @gap_length_of_valid cfg _ none
          "connection_reopened" none hv hold
        unfold Tap.reopen
        dsimp only at hlength hoverflow ⊢
        generalize Tap.gap cfg ⟨old, o.queue⟩ none "connection_reopened" = t at hlength hoverflow ⊢
        obtain ⟨c, q⟩ := t
        dsimp only at hlength hoverflow ⊢
        cases hover' : c.overflowed with
        | true =>
          have := hoverflow.mp hover'
          rw [emit_of_overflowed rfl]
          simp [hlength, hclosed]
          omega
        | false =>
          rw [emit_length_of_not_overflowed rfl, hlength, if_neg (by simp [hclosed]), if_pos rfl]

theorem openConnection_bounded_iff {epoch : Option Int} (hsettled : o.Settled)
    (h : o.Bounded cfg) :
    (o.openConnection cfg id epoch).Bounded cfg ↔ o.FitsOpen cfg id epoch := by
  unfold Observer.openConnection Observer.FitsOpen
  cases hn : o.epochFor epoch with
  | none => simpa using h
  | some n =>
    have hlength : (Tap.emit cfg ⟨{ epoch := n }, o.reopened cfg id⟩ none
        .connectionOpen).queue.events.length = (o.reopened cfg id).events.length + 1 :=
      emit_length_of_not_overflowed rfl
    have hgap : (Tap.emit cfg ⟨{ epoch := n }, o.reopened cfg id⟩ none
        .connectionOpen).queue.EndsInGap cfg := by
      rw [(emit_of_not_overflowed rfl).1]
      exact Queue.emit_endsInGap
    simp only [ne_eq, reduceCtorEq, not_false_eq_true, forall_const]
    rw [← reopened_room hsettled, ← hlength]
    exact and_iff_left hgap

theorem setPending_bounded (h : o.Bounded cfg) : (o.setPending id).Bounded cfg := by
  unfold Observer.setPending
  split
  · split <;> exact h
  · exact h

/-- A gap of a connection that is valid takes a place. -/
theorem gap_bounded_iff {d : Option Direction} {reason : String}
    (hsettled : Tap.Settled ⟨c, o.queue⟩) (h : o.Bounded cfg) (hv : c.valid = true) :
    (o.putTap id (Tap.gap cfg ⟨c, o.queue⟩ d reason)).Bounded cfg ↔ o.Room cfg 1 := by
  have hends : (Tap.gap cfg ⟨c, o.queue⟩ d reason).queue.EndsInGap cfg := by
    rw [gap_of_valid hv]
    exact emit_endsInGap h.2
  unfold Observer.Room
  rw [← (@gap_length_of_valid cfg _ d reason none hv hsettled).1]
  exact and_iff_left hends

/-- Bytes take a place, unless nothing is recorded of them. -/
theorem bytes_bounded_iff {d : Direction} {bytes : List UInt8} (h : o.Bounded cfg) :
    (o.putTap id (Tap.feed cfg ⟨c, o.queue⟩ d bytes)).Bounded cfg ↔
      o.Room cfg 1 ∨ (Tap.feed cfg ⟨c, {}⟩ d bytes).queue.events = [] := by
  have hmono := moves_length_mono (@feed_moves cfg d ⟨c, o.queue⟩ bytes)
  have hsilent := @feed_silent_iff cfg o.queue c d bytes
  have hends : (Tap.feed cfg ⟨c, o.queue⟩ d bytes).queue.EndsInGap cfg := feed_endsInGap h.2
  constructor
  · rintro ⟨hle, -⟩
    change (Tap.feed cfg ⟨c, o.queue⟩ d bytes).queue.events.length ≤ _ at hle
    by_contra hnone
    obtain ⟨hroom, hempty⟩ := not_or.mp hnone
    have hloud := mt hsilent.mp hempty
    unfold Observer.Room at hroom
    dsimp only at hmono
    omega
  · rintro (hroom | hempty)
    · have hb : Tap.Bounded cfg ⟨c, o.queue⟩ := ⟨h.1, fun _ => hroom⟩
      exact ⟨(@feed_bounded _ _ d bytes hb).1, hends⟩
    · refine ⟨?_, hends⟩
      change (Tap.feed cfg ⟨c, o.queue⟩ d bytes).queue.events.length ≤ _
      rw [hsilent.mpr hempty]
      exact h.1

/-- A connection that is open takes what it is fed; one that is not valid leaves the queue. -/
theorem feed_open_bounded_iff {direction : Option Direction} {data : Option (List UInt8)}
    (hsettled : o.Settled) (h : o.Bounded cfg) (hc : o.get? id = some c)
    (hclosed : c.closed = false) :
    (o.feed cfg id direction data).Bounded cfg ↔
      (c.valid = true → o.Room cfg 1 ∨ ∃ d bytes, direction = some d ∧ data = some bytes ∧
        (Tap.feed cfg ⟨c, {}⟩ d bytes).queue.events = []) := by
  have hsettled : Tap.Settled ⟨c, o.queue⟩ := hsettled _ (mem_of_get? hc)
  unfold Observer.feed
  rw [hc]
  dsimp only
  rw [if_neg (by simp [hclosed])]
  cases hv : c.valid with
  | false =>
    simp only [Bool.false_eq_true, false_implies, iff_true]
    split
    · rw [gap_of_invalid hv]
      exact h
    · rw [gap_of_invalid hv]
      exact h
    · have hsame (d : Direction) (bytes : List UInt8) :
          Tap.feed cfg ⟨c, o.queue⟩ d bytes = ⟨c, o.queue⟩ := if_pos hv
      rw [hsame]
      exact h
  | true =>
    simp only [true_implies]
    cases direction with
    | none => simpa using gap_bounded_iff hsettled h hv
    | some d =>
      cases data with
      | none => simpa using gap_bounded_iff hsettled h hv
      | some bytes => simpa using bytes_bounded_iff h

theorem feed_bounded_iff {direction : Option Direction} {data : Option (List UInt8)}
    (hsettled : o.Settled) (h : o.Bounded cfg) :
    (o.feed cfg id direction data).Bounded cfg ↔ o.FitsFeed cfg id direction data := by
  cases hc : o.get? id with
  | none =>
    rw [Observer.feed, Observer.FitsFeed, hc]
    exact unknown_bounded_iff
  | some c =>
    cases hclosed : c.closed with
    | true =>
      rw [Observer.feed, Observer.FitsFeed, hc]
      dsimp only
      rw [if_pos hclosed, if_pos hclosed]
      exact unknown_bounded_iff
    | false =>
      rw [Observer.FitsFeed, hc]
      dsimp only
      rw [if_neg (by simp [hclosed])]
      exact feed_open_bounded_iff hsettled h hc hclosed

theorem close_bounded_iff (hsettled : o.Settled) (h : o.Bounded cfg) :
    (o.close cfg id).Bounded cfg ↔ o.FitsClose cfg id := by
  unfold Observer.close Observer.FitsClose
  cases hc : o.get? id with
  | none => exact unknown_bounded_iff
  | some c =>
    have hsettled : Tap.Settled ⟨c, o.queue⟩ := hsettled _ (mem_of_get? hc)
    dsimp only
    by_cases hclosed : c.closed = true
    · rw [if_pos hclosed]
      simpa [hclosed] using h
    rw [if_neg hclosed]
    have hends : (Tap.close cfg ⟨c, o.queue⟩).queue.EndsInGap cfg := close_endsInGap h.2
    constructor
    · rintro ⟨hle, -⟩ - hover
      have hlt := @close_length cfg _ hsettled hover
      exact Nat.succ_le_of_lt (hlt.trans_le hle)
    · intro hroom
      have hb : Tap.Bounded cfg ⟨c, o.queue⟩ := ⟨h.1, hroom (by simpa using hclosed)⟩
      exact ⟨(close_bounded hb).1, hends⟩

omit [DecidableEq κ] in
theorem drainEvents_bounded : o.drainEvents.Bounded cfg := by
  have := cfg.reserve
  refine ⟨Nat.zero_le _, fun hfull => ?_⟩
  have hfull : cfg.maxEvents ≤ 0 := hfull
  omega

/-- A call keeps the bound if and only if its records find room. -/
theorem step_bounded_iff (hsettled : o.Settled) (h : o.Bounded cfg) (call : Call κ) :
    (o.step cfg call).Bounded cfg ↔ o.Fits cfg call := by
  cases call with
  | openConnection id epoch => exact openConnection_bounded_iff hsettled h
  | setPending id => exact iff_true_intro (setPending_bounded h)
  | feed id direction data => exact feed_bounded_iff hsettled h
  | close id => exact close_bounded_iff hsettled h
  | drainEvents => exact iff_true_intro drainEvents_bounded

/-- In every state of a run the queue is within the bound, and ends with a gap when it is full,
if and only if the records of each call find room. -/
theorem queue_bounded_iff (cfg : Config) (calls : List (Call κ)) :
    (∀ before, before <+: calls →
      (run (Observer.step cfg) ({} : Observer κ) before).Bounded cfg) ↔
    AllSteps (Observer.step cfg) (Observer.Fits cfg) {} calls := by
  have hstart : ({} : Observer κ).Settled ∧ ({} : Observer κ).Bounded cfg := by
    have := cfg.reserve
    refine ⟨fun p hp => (nomatch hp), Nat.zero_le _, fun hfull => ?_⟩
    have hfull : cfg.maxEvents ≤ 0 := hfull
    omega
  refine prefixes_iff_allSteps (K := fun o => o.Settled ∧ o.Bounded cfg) hstart (fun _ h => h.2)
    (fun o call h hfits => ⟨step_settled h.1 call, (step_bounded_iff h.1 h.2 call).mpr hfits⟩)
    fun o call h hbounded => (step_bounded_iff h.1 h.2 call).mp hbounded

/-- Three calls for a connection that was never opened. -/
theorem unknown_calls_overflow :
    ¬ (run (Observer.step { maxEvents := 2 }) ({} : Observer Nat)
      [.feed 0 (some .client) (some []), .feed 0 (some .client) (some []), .close 0]).Bounded
        { maxEvents := 2 } := by
  rintro ⟨hle, -⟩
  revert hle
  decide

end
end Orchestrator.Native
