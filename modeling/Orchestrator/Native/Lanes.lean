import Orchestrator.Native.Moves
import Orchestrator.Native.Sink
import Orchestrator.Library.Run

/-!
# The connections of an activation, one by one

A connection shares with the others no more than the queue of the records. As long as its own
records find room there, what becomes of it does not depend on the others.
-/
namespace Orchestrator.Native.Activation
open Library PythonJson

/-! ## What a call adds -/

/-- Records of the connection are added. -/
structure Grows (t t' : Tap) : Prop where
  epoch : t'.connection.epoch = t.connection.epoch
  rows : ∃ new, t'.rows = t.rows ++ new ∧ ∀ r ∈ new, r.connEpoch = some t.connection.epoch

/-- What an action leaves of the connection. -/
def Action.From (c : Connection) : Action → Prop
  | .keep c' | .message c' _ => SameStatus c c'
  | .record c' event => SameStatus c c' ∧ (event = .websocketUpgrade ∨ ∃ op, event = .wsControl op)
  | .gap _ _ => True

section Adds
variable {cfg : Config} {home : Option Text} {t t' t'' : Tap} {c : Connection} {d : Direction}

theorem Grows.refl : Grows t t := ⟨rfl, [], by simp⟩

theorem Grows.trans (h : Grows t t') (h' : Grows t' t'') : Grows t t'' := by
  obtain ⟨new, hnew, hall⟩ := h.rows
  obtain ⟨new', hnew', hall'⟩ := h'.rows
  refine ⟨h'.epoch.trans h.epoch, new ++ new', by rw [hnew', hnew, List.append_assoc], ?_⟩
  intro r hr
  rcases List.mem_append.mp hr with hr | hr
  · exact hall r hr
  · rw [hall' r hr, h.epoch]

/-- Another state of the same connection. -/
theorem Grows.set (h : t'.connection.epoch = t.connection.epoch) (hrows : t'.rows = t.rows) :
    Grows t t' :=
  ⟨h, [], by simp [hrows]⟩

theorem grows_same (h : SameStatus t.connection c) : Grows t { t with connection := c } :=
  .set h.epoch rfl

theorem grows_emit {d : Option Direction} {entry : Entry} : Grows t (t.emit cfg d entry) := by
  unfold Tap.emit
  dsimp only
  split
  · exact .refl
  · split
    · exact ⟨rfl, _, rfl, by simp [Row.gap]⟩
    · exact ⟨rfl, _, rfl, by simp⟩

theorem grows_gap {d : Option Direction} {reason : String} {sizes : Option (Nat × Nat)} :
    Grows t (t.gap cfg d reason sizes) := by
  unfold Tap.gap
  split
  · have hset : Grows t { t with connection := t.connection.invalidate } := .set rfl rfl
    exact hset.trans grows_emit
  · exact .refl

theorem grows_tellHome {answered : Answered} : Grows t (t.tellHome cfg home d answered) := by
  unfold Tap.tellHome
  split
  · exact .refl
  · split
    · exact grows_emit
    · split
      · exact .set rfl rfl
      · exact grows_emit

theorem grows_message {payload : List UInt8} : Grows t (t.message cfg home d payload) := by
  unfold Tap.message
  split
  · exact grows_gap
  next pending event answered _ =>
    have hset : Grows t { t with connection := { t.connection with pending := pending } } :=
      .set rfl rfl
    dsimp only
    split
    · exact hset.trans grows_emit
    · exact (hset.trans grows_emit).trans grows_tellHome

theorem setFragment_same {opcode : Option Nat} {payload : List UInt8} :
    SameStatus c (setFragment c d opcode payload) :=
  setParser_same

theorem sameStatus_refl : SameStatus c c := ⟨rfl, rfl, rfl, rfl, rfl⟩

theorem complete_from {c' : Connection} (h : SameStatus c c') {opcode : Nat}
    {payload : List UInt8} : (complete c' opcode payload).From c := by
  unfold complete
  split
  · exact h
  · trivial

theorem frame_from {opcode : Nat} {fin : Bool} {payload : List UInt8} :
    (frame cfg c d opcode fin payload).From c := by
  unfold frame
  dsimp only
  split
  · split
    · trivial
    · exact ⟨sameStatus_refl, .inr ⟨_, rfl⟩⟩
  · split
    · split
      · trivial
      · split
        · trivial
        · split
          · exact complete_from setFragment_same
          · exact setFragment_same
    · split
      · split
        · trivial
        · split
          · trivial
          · split
            · exact complete_from sameStatus_refl
            · exact setFragment_same
      · trivial

theorem parseUpgrade_from : (parseUpgrade cfg c d).From c := by
  unfold parseUpgrade
  dsimp only
  split
  · split
    · trivial
    · exact sameStatus_refl
  · split
    · trivial
    · split
      · trivial
      next i _ _ _ key _ =>
        refine ⟨?_, .inl rfl⟩
        have hbuffer : SameStatus c (c.setBuffer d ((c.parser d).buffer.drop (i + 4))) :=
          setBuffer_same
        exact ⟨by rw [setParser_same.epoch]; exact hbuffer.epoch,
          by rw [setParser_same.valid]; exact hbuffer.valid,
          by rw [setParser_same.closed]; exact hbuffer.closed,
          by rw [setParser_same.overflowed]; exact hbuffer.overflowed,
          by rw [setParser_same.pending]; exact hbuffer.pending⟩

theorem grows_perform {action : Action} (h : action.From t.connection) :
    Grows t (t.perform cfg home d action) := by
  cases action with
  | keep c => exact grows_same h
  | gap reason sizes => exact grows_gap
  | record c event => exact (grows_same h.1).trans grows_emit
  | message c payload => exact (grows_same h).trans grows_message

theorem grows_parseFrames {n : Nat} : Grows t (t.parseFrames cfg home d n) := by
  induction n generalizing t with
  | zero => exact .refl
  | succ n ih =>
    unfold Tap.parseFrames
    split
    · split
      · exact .refl
      · exact grows_gap
      next opcode fin payload rest _ =>
        have hbuffer : SameStatus t.connection (t.connection.setBuffer d rest) := setBuffer_same
        exact ((grows_same hbuffer).trans (grows_perform frame_from)).trans ih
    · exact .refl

theorem grows_parseReady : Grows t (t.parseReady cfg home d) := by
  unfold Tap.parseReady
  split
  · exact grows_parseFrames
  · exact .refl

theorem grows_parse : Grows t (t.parse cfg home d) := by
  unfold Tap.parse
  split
  · exact grows_parseReady
  · exact (grows_perform parseUpgrade_from).trans grows_parseReady

theorem grows_feed {incoming : List UInt8} : Grows t (t.feed cfg home d incoming) := by
  unfold Tap.feed
  dsimp only
  split
  · exact .refl
  · split
    · exact grows_gap
    · exact (grows_same setBuffer_same).trans grows_parse

theorem grows_closeGap : Grows t (t.closeGap cfg) := by
  unfold Tap.closeGap
  dsimp only
  split
  · exact .refl
  · split
    · exact grows_gap
    · split
      · exact grows_gap
      · exact .refl

theorem grows_disconnect : Grows t (t.disconnect cfg) := by
  unfold Tap.disconnect
  have hset : Grows t { t with connection := { t.connection with
      closed := true, state := .disconnected, valid := false } } := .set rfl rfl
  exact hset.trans grows_emit

theorem grows_close : Grows t (t.close cfg) := grows_closeGap.trans grows_disconnect

theorem Grows.length (h : Grows t t') : t.rows.length ≤ t'.rows.length := by
  obtain ⟨new, hnew, -⟩ := h.rows
  simp [hnew]

end Adds

/-! ## Room in the queue -/

/-- One connection before two queues, to which the same has been added. -/
structure Alike (base base' : List Row) (t t' : Tap) : Prop where
  connection : t'.connection = t.connection
  raised : t'.raised = t.raised
  rows : ∃ new, t.rows = base ++ new ∧ t'.rows = base' ++ new

/-- What a call has added has found room, if it has added anything. -/
def Room (cfg : Config) (t t' : Tap) : Prop :=
  t'.rows.length < cfg.maxEvents ∨ t'.rows.length = t.rows.length

section Room
variable {cfg : Config} {home : Option Text} {base base' : List Row} {t t' t'' : Tap}
  {c : Connection} {d : Direction}

theorem Room.left (h : Room cfg t t'') (hl : Grows t t') (hr : Grows t' t'') : Room cfg t t' := by
  have := hl.length
  have := hr.length
  unfold Room at h ⊢
  omega

theorem Room.right (h : Room cfg t t'') (hl : Grows t t') (hr : Grows t' t'') :
    Room cfg t' t'' := by
  have := hl.length
  have := hr.length
  unfold Room at h ⊢
  omega

theorem Alike.refl : Alike base base' ⟨c, base, false⟩ ⟨c, base', false⟩ :=
  ⟨rfl, rfl, [], by simp⟩

theorem Alike.set (h : Alike base base' t t') :
    Alike base base' { t with connection := c } { t' with connection := c } :=
  ⟨rfl, h.raised, h.rows⟩

theorem Alike.length (h : Alike base base' t t') (hle : base'.length ≤ base.length) :
    t'.rows.length ≤ t.rows.length := by
  obtain ⟨new, hrows, hrows'⟩ := h.rows
  simp only [hrows, hrows', List.length_append]
  omega

/-- A record that finds room in the longer queue is added to both. -/
theorem Alike.emit {d : Option Direction} {entry : Entry} (h : Alike base base' t t')
    (hle : base'.length ≤ base.length) (hroom : Room cfg t (t.emit cfg d entry)) :
    Alike base base' (t.emit cfg d entry) (t'.emit cfg d entry) := by
  have hlength := h.length hle
  obtain ⟨new, hrows, hrows'⟩ := h.rows
  unfold Tap.emit at hroom ⊢
  rw [h.connection]
  dsimp only at hroom ⊢
  by_cases hover : t.connection.overflowed = true
  · rw [if_pos hover, if_pos hover]
    exact h
  · rw [if_neg hover] at hroom ⊢
    rw [if_neg hover]
    by_cases hfull : t.rows.length ≥ cfg.maxEvents - 1
    · rw [if_pos hfull] at hroom
      simp only [Room, List.length_append, List.length_singleton] at hroom
      omega
    · rw [if_neg hfull, if_neg (by omega)]
      exact ⟨rfl, h.raised, new ++ [⟨entry, some t.connection.epoch, d⟩],
        by simp [hrows], by simp [hrows']⟩

theorem Alike.gap {d : Option Direction} {reason : String} {sizes : Option (Nat × Nat)}
    (h : Alike base base' t t') (hle : base'.length ≤ base.length)
    (hroom : Room cfg t (t.gap cfg d reason sizes)) :
    Alike base base' (t.gap cfg d reason sizes) (t'.gap cfg d reason sizes) := by
  unfold Tap.gap at hroom ⊢
  rw [h.connection]
  split at hroom
  next hv =>
    rw [if_pos hv, if_pos hv]
    exact h.set.emit hle hroom
  next hv =>
    rw [if_neg hv, if_neg hv]
    exact h

theorem Alike.tellHome {answered : Answered} (h : Alike base base' t t')
    (hle : base'.length ≤ base.length)
    (hroom : Room cfg t (t.tellHome cfg home d answered)) :
    Alike base base' (t.tellHome cfg home d answered) (t'.tellHome cfg home d answered) := by
  unfold Tap.tellHome at hroom ⊢
  rw [h.connection]
  split at hroom
  next hv =>
    rw [if_pos hv, if_pos hv]
    exact h
  next hv =>
    rw [if_neg hv, if_neg hv]
    split at hroom
    next hhome => exact h.emit hle hroom
    next bytes hhome =>
      split at hroom
      next hbytes =>
        exact ⟨rfl, rfl, h.rows⟩
      next hbytes =>
        exact h.emit hle hroom

theorem Alike.message {payload : List UInt8} (h : Alike base base' t t')
    (hle : base'.length ≤ base.length)
    (hroom : Room cfg t (t.message cfg home d payload)) :
    Alike base base' (t.message cfg home d payload) (t'.message cfg home d payload) := by
  unfold Tap.message at hroom ⊢
  rw [h.connection]
  split at hroom
  next reason _ heffect => exact h.gap hle hroom
  next pending event answered heffect =>
    dsimp only at hroom ⊢
    split at hroom
    next => exact h.set.emit hle hroom
    next answered =>
      have hset : Grows t { t with connection := { t.connection with pending := pending } } :=
        .set rfl rfl
      have hemit := hset.trans (@grows_emit cfg _ (some d) (.observed event))
      have hleft := hroom.left hemit grows_tellHome
      have hright := hroom.right hemit grows_tellHome
      exact (h.set.emit hle hleft).tellHome hle hright

theorem Alike.perform {action : Action} (h : Alike base base' t t')
    (hle : base'.length ≤ base.length)
    (hroom : Room cfg t (t.perform cfg home d action)) :
    Alike base base' (t.perform cfg home d action) (t'.perform cfg home d action) := by
  cases action with
  | keep c => exact h.set
  | gap reason sizes => exact h.gap hle hroom
  | record c event => exact h.set.emit hle hroom
  | message c payload => exact h.set.message hle hroom

theorem Alike.parseFrames {n : Nat} (h : Alike base base' t t')
    (hle : base'.length ≤ base.length)
    (hroom : Room cfg t (t.parseFrames cfg home d n)) :
    Alike base base' (t.parseFrames cfg home d n) (t'.parseFrames cfg home d n) := by
  induction n generalizing t t' with
  | zero => exact h
  | succ n ih =>
    unfold Tap.parseFrames at hroom ⊢
    rw [h.connection, h.raised]
    split at hroom
    next hgo =>
      rw [if_pos hgo, if_pos hgo]
      split at hroom
      next htake => exact h
      next reason sizes htake => exact h.gap hle hroom
      next opcode fin payload rest htake =>
        have hbuffer : SameStatus t.connection (t.connection.setBuffer d rest) := setBuffer_same
        have hframe : Grows t (Tap.perform cfg home
          { t with connection := t.connection.setBuffer d rest }
            d (frame cfg (t.connection.setBuffer d rest) d opcode fin payload)) :=
          (grows_same hbuffer).trans (grows_perform frame_from)
        have hnext : Alike base base' { t with connection := t.connection.setBuffer d rest }
            ⟨t.connection.setBuffer d rest, t'.rows, t.raised⟩ := ⟨rfl, rfl, h.rows⟩
        exact ih (hnext.perform hle (hroom.left hframe grows_parseFrames))
          (hroom.right hframe grows_parseFrames)
    next hstop =>
      rw [if_neg hstop, if_neg hstop]
      exact h

theorem Alike.parseReady (h : Alike base base' t t') (hle : base'.length ≤ base.length)
    (hroom : Room cfg t (t.parseReady cfg home d)) :
    Alike base base' (t.parseReady cfg home d) (t'.parseReady cfg home d) := by
  unfold Tap.parseReady at hroom ⊢
  rw [h.connection]
  split at hroom
  next hgo =>
    rw [if_pos hgo, if_pos hgo]
    exact h.parseFrames hle hroom
  next hstop =>
    rw [if_neg hstop, if_neg hstop]
    exact h

theorem Alike.parse (h : Alike base base' t t') (hle : base'.length ≤ base.length)
    (hroom : Room cfg t (t.parse cfg home d)) :
    Alike base base' (t.parse cfg home d) (t'.parse cfg home d) := by
  unfold Tap.parse at hroom ⊢
  rw [h.connection]
  split at hroom
  next hdone =>
    rw [if_pos hdone, if_pos hdone]
    exact h.parseReady hle hroom
  next hdone =>
    rw [if_neg hdone, if_neg hdone]
    have hupgrade : Grows t (t.perform cfg home d (parseUpgrade cfg t.connection d)) :=
      grows_perform parseUpgrade_from
    exact (h.perform hle (hroom.left hupgrade grows_parseReady)).parseReady hle
      (hroom.right hupgrade grows_parseReady)

theorem Alike.feed {incoming : List UInt8} (h : Alike base base' t t')
    (hle : base'.length ≤ base.length)
    (hroom : Room cfg t (t.feed cfg home d incoming)) :
    Alike base base' (t.feed cfg home d incoming) (t'.feed cfg home d incoming) := by
  unfold Tap.feed at hroom ⊢
  rw [h.connection]
  dsimp only at hroom ⊢
  split at hroom
  next hv =>
    rw [if_pos hv, if_pos hv]
    exact h
  next hv =>
    rw [if_neg hv, if_neg hv]
    split at hroom
    next hlong =>
      rw [if_pos hlong, if_pos hlong]
      exact h.gap hle hroom
    next hlong =>
      rw [if_neg hlong, if_neg hlong]
      exact h.set.parse hle hroom

theorem Alike.closeGap (h : Alike base base' t t') (hle : base'.length ≤ base.length)
    (hroom : Room cfg t (t.closeGap cfg)) :
    Alike base base' (t.closeGap cfg) (t'.closeGap cfg) := by
  unfold Tap.closeGap at hroom ⊢
  rw [h.connection]
  dsimp only at hroom ⊢
  split at hroom
  next hv =>
    rw [if_pos hv, if_pos hv]
    exact h
  next hv =>
    rw [if_neg hv, if_neg hv]
    split at hroom
    next reason hreason =>
      exact h.gap hle hroom
    next hreason =>
      split at hroom
      next reason hreason' =>
        exact h.gap hle hroom
      next hreason' =>
        exact h

theorem Alike.disconnect (h : Alike base base' t t') (hle : base'.length ≤ base.length)
    (hroom : Room cfg t (t.disconnect cfg)) :
    Alike base base' (t.disconnect cfg) (t'.disconnect cfg) := by
  unfold Tap.disconnect at hroom ⊢
  rw [h.connection]
  exact h.set.emit hle hroom

theorem Alike.close (h : Alike base base' t t') (hle : base'.length ≤ base.length)
    (hroom : Room cfg t (t.close cfg)) : Alike base base' (t.close cfg) (t'.close cfg) :=
  (h.closeGap hle (hroom.left grows_closeGap grows_disconnect)).disconnect hle
    (hroom.right grows_closeGap grows_disconnect)

end Room

/-! ## What the records leave alone -/

section Kin
variable {κ π : Type} {p p' p'' : Protocol κ π}

/-- What the records say changes neither the ids nor the lease. -/
structure Kin (p p' : Protocol κ π) : Prop where
  epoch : p'.epoch = p.epoch
  connectionId : p'.connectionId = p.connectionId
  lease : p'.lease = p.lease
  readyPublished : p'.readyPublished = p.readyPublished


theorem Kin.refl : Kin p p := ⟨rfl, rfl, rfl, rfl⟩

theorem Kin.trans (h : Kin p p') (h' : Kin p' p'') : Kin p p'' :=
  ⟨h'.epoch.trans h.epoch, h'.connectionId.trans h.connectionId, h'.lease.trans h.lease,
    h'.readyPublished.trans h.readyPublished⟩

theorem kin_refuse {b : Prop} [Decidable b] : Kin p (p.refuse b) := by
  unfold Protocol.refuse
  split
  · exact ⟨rfl, rfl, rfl, rfl⟩
  · exact .refl

theorem kin_clientRequest {requestId : Option Id} {method : Text} {params : Params} :
    Kin p (p.clientRequest requestId method params) := by
  unfold Protocol.clientRequest
  dsimp only
  split
  · exact kin_refuse.trans ⟨rfl, rfl, rfl, rfl⟩
  split
  · exact kin_refuse.trans ⟨rfl, rfl, rfl, rfl⟩
  split
  · exact kin_refuse.trans ⟨rfl, rfl, rfl, rfl⟩
  split
  · exact ⟨rfl, rfl, rfl, rfl⟩
  split
  · exact ((kin_refuse.trans kin_refuse).trans kin_refuse).trans ⟨rfl, rfl, rfl, rfl⟩
  · exact .refl

theorem kin_started {identifier : Option Text} : Kin p (p.started identifier) := by
  unfold Protocol.started
  split <;> exact ⟨rfl, rfl, rfl, rfl⟩

theorem kin_response {d : Option Direction} {id : Id} {requestDirection : Direction}
    {method : Text} {ok : Bool} {thread : Option Params} :
    Kin p (p.response d id requestDirection method ok thread) := by
  unfold Protocol.response
  dsimp only
  split
  · split <;> exact ⟨rfl, rfl, rfl, rfl⟩
  split
  · split
    · split <;> exact ⟨rfl, rfl, rfl, rfl⟩
    · exact .refl
  split
  · split <;> exact ⟨rfl, rfl, rfl, rfl⟩
  · exact .refl

theorem kin_countTurn (method : Text) : Kin p (p.countTurn method) := by
  unfold Protocol.countTurn
  dsimp only
  split
  · exact ⟨rfl, rfl, rfl, rfl⟩
  split
  · exact ⟨rfl, rfl, rfl, rfl⟩
  · exact .refl

theorem kin_protocolEvent {row : Row} : Kin p (p.protocolEvent row) := by
  have hadd (rpc : Rpc) : Kin p (p.addRpc rpc) := ⟨rfl, rfl, rfl, rfl⟩
  have hinvalid : Kin p p.invalid := ⟨rfl, rfl, rfl, rfl⟩
  obtain ⟨entry, epoch, d⟩ := row
  cases entry with
  | initializeHome id homeMatch sha =>
    have hset : Kin p { p with initializeState := ⟨some (some id), some homeMatch, sha⟩ } :=
      ⟨rfl, rfl, rfl, rfl⟩
    exact hset.trans kin_refuse
  | observed event =>
    cases event with
    | gap reason sizes => exact ⟨rfl, rfl, rfl, rfl⟩
    | connectionClose => exact ⟨rfl, rfl, rfl, rfl⟩
    | connectionOpen => exact .refl
    | websocketUpgrade => exact ⟨rfl, rfl, rfl, rfl⟩
    | wsControl opcode => exact .refl
    | rpc requestId method params thread =>
      unfold Protocol.protocolEvent
      dsimp only
      split
      · exact hinvalid
      · have hcount := (hadd ⟨"rpc", d, some method, requestId, none, none, false⟩).trans
          (kin_countTurn method)
        split
        · exact hcount.trans kin_clientRequest
        · split
          · exact hcount.trans kin_started
          · exact hcount
    | rpcUnknown requestId method probe response =>
      unfold Protocol.protocolEvent
      dsimp only
      split
      · exact hinvalid
      · split
        · exact (hadd _).trans kin_refuse
        · split
          · exact (hadd _).trans (kin_countTurn _)
          · exact hadd _
    | rpcResponse id requestDirection method ok thread =>
      unfold Protocol.protocolEvent
      dsimp only
      split
      · exact hinvalid
      · exact (hadd _).trans kin_response

theorem kin_foldl {rows : List Row} : Kin p (rows.foldl Protocol.protocolEvent p) := by
  induction rows generalizing p with
  | nil => exact .refl
  | cons row rows ih => exact kin_protocolEvent.trans ih

end Kin

/-! ## The callbacks of a proxy -/

section Issued
variable {κ π : Type}

def Callback.epoch : Callback κ π → Nat
  | .connect _ epoch _ _ _ | .data _ epoch _ _ _ | .lifecycle _ epoch _ | .gap epoch => epoch

/-- The id of the connection is that of its epoch. -/
def Callback.Named (name : Nat → κ) : Callback κ π → Prop
  | .connect id epoch _ _ _ | .data id epoch _ _ _ | .lifecycle id epoch _ => id = name epoch
  | .gap _ => True

def Callback.connects : Callback κ π → Option Nat
  | .connect _ epoch _ _ _ => some epoch
  | _ => none

/-- Each connection has an epoch and an id of its own, and the epochs increase. -/
structure Issued (name : Nat → κ) (hs : List (Callback κ π)) : Prop where
  injective : Function.Injective name
  named : ∀ h ∈ hs, h.Named name
  positive : ∀ epoch ∈ hs.filterMap Callback.connects, 0 < epoch
  increasing : (hs.filterMap Callback.connects).Pairwise (· < ·)

/-- What holds of a sink after callbacks that a proxy issues. -/
structure Settled (name : Nat → κ) (hs : List (Callback κ π)) (s : Sink κ π) : Prop where
  epoch : ∀ e c, s.observer.connections (name e) = some c → c.epoch = e
  connected : ∀ e c, s.observer.connections (name e) = some c → e ∈ hs.filterMap Callback.connects
  protocol : ∀ e p, s.protocol e = some p →
    p.epoch = e ∧ p.connectionId = name e ∧ e ∈ hs.filterMap Callback.connects
  rows : ∀ r ∈ s.observer.rows, ∀ e, r.connEpoch = some e → e ∈ hs.filterMap Callback.connects
  seen : s.observer.maxEpochSeen = 0 ∨
    s.observer.maxEpochSeen ∈ hs.filterMap Callback.connects

def rowsOf (e : Nat) (rows : List Row) : List Row := rows.filter (·.connEpoch = some e)

section
variable {cfg : Config} {name : Nat → κ} {hs : List (Callback κ π)} {h : Callback κ π}
  {s s' : Sink κ π} {o : Observer κ} {e : Nat} {new : List Row}

theorem Issued.init (hi : Issued name (hs ++ [h])) : Issued name hs := by
  obtain ⟨hinj, hnamed, hpos, hinc⟩ := hi
  rw [List.filterMap_append] at hpos hinc
  exact ⟨hinj, fun h hh => hnamed h (List.mem_append_left _ hh),
    fun e he => hpos e (List.mem_append_left _ he), (List.pairwise_append.mp hinc).1⟩

theorem tell_apply {rows : List Row} {protocol : Nat → Option (Protocol κ π)} :
    Sink.tell rows protocol e =
      (protocol e).map fun p => (rowsOf e rows).foldl Protocol.protocolEvent p := by
  induction rows generalizing protocol with
  | nil => simp [Sink.tell, rowsOf]
  | cons row rows ih =>
    rw [rowsOf, List.filter_cons]
    cases hepoch : row.connEpoch with
    | none =>
      have hcons : Sink.tell (row :: rows) protocol = Sink.tell rows protocol := by
        simp only [Sink.tell, List.foldl_cons, hepoch]
      rw [hcons, ih]
      simp [rowsOf]
    | some epoch =>
      have hcons : Sink.tell (row :: rows) protocol = Sink.tell rows
          (Function.update protocol epoch ((protocol epoch).map (·.protocolEvent row))) := by
        simp only [Sink.tell, List.foldl_cons, hepoch]
      rw [hcons, ih]
      by_cases he : epoch = e
      · subst he
        simp [rowsOf, Function.comp_def]
      · simp [rowsOf, he, Function.update_of_ne (Ne.symm he)]

theorem observe_protocol (hrows : o.rows = s.observer.rows ++ new) :
    (s.observe o).protocol e =
      (s.protocol e).map fun p => (rowsOf e new).foldl Protocol.protocolEvent p := by
  rw [Sink.observe]
  dsimp only
  rw [tell_apply, hrows, List.drop_left]

/-- What two sinks have of a connection is the same. -/
structure Same (name : Nat → κ) (e : Nat) (s s' : Sink κ π) : Prop where
  connection : s'.observer.connections (name e) = s.observer.connections (name e)
  protocol : s'.protocol e = s.protocol e
  published : s'.published.filter (·.protocol.epoch = e) =
    s.published.filter (·.protocol.epoch = e)

theorem Same.refl : Same name e s s := ⟨rfl, rfl, rfl⟩

theorem Same.trans {s'' : Sink κ π} (h : Same name e s s') (h' : Same name e s' s'') :
    Same name e s s'' :=
  ⟨h'.connection.trans h.connection, h'.protocol.trans h.protocol, h'.published.trans h.published⟩

theorem rowsOf_eq_nil (h : ∀ r ∈ new, r.connEpoch ≠ some e) : rowsOf e new = [] := by
  rw [rowsOf, List.filter_eq_nil_iff]
  simpa using h

/-- An observer that was called for another connection. -/
theorem same_observe_other (hconn : o.connections (name e) = s.observer.connections (name e))
    (hrows : o.rows = s.observer.rows ++ new) (hnew : ∀ r ∈ new, r.connEpoch ≠ some e) :
    Same name e s (s.observe o) := by
  refine ⟨hconn, ?_, rfl⟩
  rw [observe_protocol hrows, rowsOf_eq_nil hnew]
  cases s.protocol e <;> rfl

/-! ## What a callback does to the observer -/

/-- A call of the observer for the connection of an epoch. -/
structure Called (name : Nat → κ) (e : Nat) (o o' : Observer κ) : Prop where
  others : ∀ e', e' ≠ e → o'.connections (name e') = o.connections (name e')
  epoch : ∀ c, o'.connections (name e) = some c → c.epoch = e
  rows : ∃ new, o'.rows = o.rows ++ new ∧ ∀ r ∈ new, r.connEpoch = none ∨
    r.connEpoch = some e ∧ (o'.connections (name e)).isSome = true

theorem called_unknown {d : Option Direction}
    (hepoch : ∀ c, o.connections (name e) = some c → c.epoch = e) :
    Called name e o (o.unknownConnection cfg d) :=
  ⟨fun _ _ => rfl, hepoch, _, rfl, by simp [Row.gap]⟩

end

variable [DecidableEq κ] {cfg : Config} {name : Nat → κ} {hs : List (Callback κ π)}
  {h : Callback κ π} {s s' : Sink κ π} {o : Observer κ} {e : Nat} {new : List Row}

theorem called_put {t : Tap} {c : Connection} {b : Bool} (hinj : Function.Injective name)
    (hc : c.epoch = e) (h : Grows ⟨c, o.rows, b⟩ t) : Called name e o (o.put (name e) t) := by
  obtain ⟨new, hrows, hnew⟩ := h.rows
  have hput : (o.put (name e) t).connections (name e) = some t.connection :=
    Function.update_self ..
  refine ⟨fun e' he' => ?_, fun c' hc' => ?_, new, hrows, fun r hr => .inr ⟨?_, ?_⟩⟩
  · exact Function.update_of_ne (fun heq => he' (hinj heq)) _ _
  · obtain rfl : t.connection = c' := Option.some.inj (hput.symm.trans hc')
    exact h.epoch.trans hc
  · exact (hnew r hr).trans (congrArg some hc)
  · rw [hput]
    rfl

theorem called_feed {expected : Nat → Option Text} {d : Option Direction} {bytes : List UInt8}
    (hinj : Function.Injective name)
    (hepoch : ∀ c, o.connections (name e) = some c → c.epoch = e) :
    Called name e o (o.feed cfg expected (name e) d bytes).1 := by
  unfold Observer.feed
  split
  · exact called_unknown hepoch
  next c hc =>
    split
    · exact called_unknown hepoch
    · dsimp only
      split
      · exact called_put hinj (hepoch c hc) grows_gap
      · exact called_put hinj (hepoch c hc) grows_feed

theorem called_close (hinj : Function.Injective name)
    (hepoch : ∀ c, o.connections (name e) = some c → c.epoch = e) :
    Called name e o (o.close cfg (name e)) := by
  unfold Observer.close
  split
  · exact called_unknown hepoch
  next c hc =>
    split
    · exact ⟨fun _ _ => rfl, hepoch, [], by simp⟩
    · exact called_put hinj (hepoch c hc) grows_close

/-- A connection that is new. -/
theorem called_open (hinj : Function.Injective name) (hnone : o.connections (name e) = none)
    {o' : Observer κ} (hopen : o.openConnection cfg (name e) e = some o') :
    Called name e o o' ∧ o'.maxEpochSeen = e := by
  unfold Observer.openConnection at hopen
  split at hopen
  · cases hopen
  · obtain rfl := Option.some.inj hopen
    have hrows : o.reopened cfg (name e) = o.rows := by simp [Observer.reopened, hnone]
    rw [hrows]
    have hcalled := called_put (o := o) hinj rfl
      (@grows_emit cfg ⟨{ epoch := e }, o.rows, false⟩ none (.observed .connectionOpen))
    exact ⟨⟨hcalled.others, hcalled.epoch, hcalled.rows⟩, rfl⟩

/-! ## Runs of callbacks -/

omit [DecidableEq κ] in
theorem Settled.mono {hs' : List (Callback κ π)} (h : Settled name hs s)
    (hsub : hs.filterMap Callback.connects ⊆ hs'.filterMap Callback.connects) :
    Settled name hs' s :=
  ⟨h.epoch, fun e c hc => hsub (h.connected e c hc), fun e p hp =>
    let ⟨hepoch, hid, hmem⟩ := h.protocol e p hp
    ⟨hepoch, hid, hsub hmem⟩, fun r hr e he => hsub (h.rows r hr e he), h.seen.imp_right (hsub ·)⟩

omit [DecidableEq κ] in
theorem Settled.setProtocol {p : Protocol κ π} (h : Settled name hs s) (hepoch : p.epoch = e)
    (hid : p.connectionId = name e) (hmem : e ∈ hs.filterMap Callback.connects)
    (published : List (Publication κ π)) :
    Settled name hs { s with
      protocol := Function.update s.protocol e (some p), published := published } := by
  refine ⟨h.epoch, h.connected, ?_, h.rows, h.seen⟩
  intro e' p' hp'
  have hp : Function.update s.protocol e (some p) e' = some p' := hp'
  by_cases he : e' = e
  · subst he
    rw [Function.update_self] at hp
    obtain rfl := Option.some.inj hp
    exact ⟨hepoch, hid, hmem⟩
  · rw [Function.update_of_ne he] at hp
    exact h.protocol e' p' hp

omit [DecidableEq κ] in
theorem Settled.observe {o' : Observer κ} (h : Settled name hs s)
    (hcalled : Called name e s.observer o')
    (hmem : (o'.connections (name e)).isSome = true → e ∈ hs.filterMap Callback.connects)
    (hseen : o'.maxEpochSeen = 0 ∨ o'.maxEpochSeen ∈ hs.filterMap Callback.connects) :
    Settled name hs (s.observe o') := by
  obtain ⟨new, hrows, hnew⟩ := hcalled.rows
  refine ⟨fun e' c hc => ?_, fun e' c hc => ?_, fun e' p hp => ?_, fun r hr e' he' => ?_, hseen⟩
  · by_cases he : e' = e
    · subst he
      exact hcalled.epoch c hc
    · exact h.epoch e' c ((hcalled.others e' he).symm.trans hc)
  · by_cases he : e' = e
    · subst he
      exact hmem (Option.isSome_iff_exists.mpr ⟨c, hc⟩)
    · exact h.connected e' c ((hcalled.others e' he).symm.trans hc)
  · rw [observe_protocol hrows] at hp
    obtain ⟨p₀, hp₀, rfl⟩ := Option.map_eq_some_iff.mp hp
    have hkin : Kin p₀ ((rowsOf e' new).foldl Protocol.protocolEvent p₀) := kin_foldl
    obtain ⟨hepoch, hid, hin⟩ := h.protocol e' p₀ hp₀
    exact ⟨hkin.epoch.trans hepoch, hkin.connectionId.trans hid, hin⟩
  · have hr : r ∈ s.observer.rows ++ new := hrows ▸ hr
    rcases List.mem_append.mp hr with hr | hr
    · exact h.rows r hr e' he'
    · obtain hnone | ⟨hsome, hthere⟩ := hnew r hr
      · rw [hnone] at he'
        cases he'
      · obtain rfl : e = e' := Option.some.inj (hsome.symm.trans he')
        exact hmem hthere

theorem feed_isSome {expected : Nat → Option Text} {id : κ} {d : Option Direction}
    {bytes : List UInt8} : ((o.feed cfg expected id d bytes).1.connections id).isSome =
      (o.connections id).isSome := by
  unfold Observer.feed
  split
  next hnone => rfl
  next c hc =>
    split
    · rfl
    · simp [Observer.put, hc]

theorem close_isSome {id : κ} : ((o.close cfg id).connections id).isSome =
    (o.connections id).isSome := by
  unfold Observer.close
  split
  · rfl
  next c hc =>
    split
    · rfl
    · simp [Observer.put, hc]

theorem feed_seen {expected : Nat → Option Text} {id : κ} {d : Option Direction}
    {bytes : List UInt8} : (o.feed cfg expected id d bytes).1.maxEpochSeen = o.maxEpochSeen := by
  unfold Observer.feed
  split
  · rfl
  · split <;> rfl

theorem close_seen {id : κ} : (o.close cfg id).maxEpochSeen = o.maxEpochSeen := by
  unfold Observer.close
  split
  · rfl
  · split <;> rfl

theorem settled_feed (hinj : Function.Injective name) (h : Settled name hs s)
    {d : Option Direction} {bytes : List UInt8} :
    Settled name hs (s.observe (s.observer.feed cfg s.expectedHome (name e) d bytes).1) := by
  refine h.observe (called_feed hinj (h.epoch e)) (fun hthere => ?_)
    (by rw [feed_seen]; exact h.seen)
  rw [feed_isSome] at hthere
  obtain ⟨c, hc⟩ := Option.isSome_iff_exists.mp hthere
  exact h.connected e c hc

omit [DecidableEq κ] in
/-- The connection of an epoch that is new has not been seen. -/
theorem Settled.fresh (hi : Issued name (hs ++ [h])) (hsettled : Settled name hs s)
    (hconnects : h.connects = some e) :
    s.observer.connections (name e) = none ∧ s.observer.maxEpochSeen < e := by
  have hafter : (hs ++ [h]).filterMap Callback.connects =
      hs.filterMap Callback.connects ++ [e] := by
    rw [List.filterMap_append, List.filterMap_cons, hconnects]
    rfl
  have hpos := hi.positive
  have hinc := hi.increasing
  rw [hafter] at hpos hinc
  have hbefore : ∀ e' ∈ hs.filterMap Callback.connects, e' < e := by
    intro e' he'
    exact (List.pairwise_append.mp hinc).2.2 e' he' e (List.mem_singleton_self e)
  constructor
  · by_contra hsome
    obtain ⟨c, hc⟩ := Option.ne_none_iff_exists'.mp hsome
    exact (hbefore e (hsettled.connected e c hc)).false
  · rcases hsettled.seen with hzero | hmem
    · rw [hzero]
      exact hpos e (by simp)
    · exact hbefore _ hmem

theorem settled_connect (hinj : Function.Injective name) (h : Settled name hs s)
    (hnone : s.observer.connections (name e) = none) (hmem : e ∈ hs.filterMap Callback.connects)
    (lease : Option Lease) (frontend backend : π) :
    Settled name hs (s.onConnect cfg (name e) e lease frontend backend) := by
  unfold Sink.onConnect
  dsimp only
  have hset := h.setProtocol (p := ⟨name e, e, lease.getD {}, frontend, backend,
    lease.isSome, false, [], {}, false, {}, {}, [], false, none, []⟩) rfl rfl hmem s.published
  split
  · exact hset
  next o hopen =>
    obtain ⟨hcalled, hseen⟩ := called_open hinj hnone hopen
    exact hset.observe hcalled (fun _ => hmem) (.inr (hseen ▸ hmem))

theorem settled_data (hinj : Function.Injective name) (h : Settled name hs s)
    (direction : Option Direction) (bytes : List UInt8) (publishes : Bool) :
    Settled name hs (s.onData cfg (name e) e direction bytes publishes) := by
  unfold Sink.onData
  split
  · exact h
  next p hp =>
    split
    · exact h
    · dsimp only
      have hfed := @settled_feed κ π _ cfg name _ s e hinj h direction bytes
      split
      · exact hfed
      next p' hp' =>
        split
        · obtain ⟨hepoch, hid, hmem⟩ := hfed.protocol e p' hp'
          exact hfed.setProtocol
            (p := { p' with readyPublished := p'.readyPublished || publishes }) hepoch hid hmem _
        · exact hfed

theorem settled_lifecycle (hinj : Function.Injective name) (h : Settled name hs s) (ends : Bool) :
    Settled name hs (s.onLifecycle cfg (name e) ends) := by
  unfold Sink.onLifecycle
  split
  · refine h.observe (called_close hinj (h.epoch e)) (fun hthere => ?_)
      (by rw [close_seen]; exact h.seen)
    rw [close_isSome] at hthere
    obtain ⟨c, hc⟩ := Option.isSome_iff_exists.mp hthere
    exact h.connected e c hc
  · exact h

theorem settled_step (hi : Issued name (hs ++ [h])) (hsettled : Settled name hs s) :
    Settled name (hs ++ [h]) (s.step cfg h) := by
  have hnamed := hi.named h (by simp)
  have hmono : Settled name (hs ++ [h]) s := by
    refine hsettled.mono ?_
    rw [List.filterMap_append]
    exact List.subset_append_left _ _
  cases h with
  | connect id epoch lease frontend backend =>
    obtain rfl : id = name epoch := hnamed
    have hmem : epoch ∈
        (hs ++ [Callback.connect (name epoch) epoch lease frontend backend]).filterMap
        Callback.connects := by simp [Callback.connects]
    exact settled_connect hi.injective hmono (hsettled.fresh hi rfl).1 hmem lease frontend backend
  | data id epoch direction bytes publishes =>
    obtain rfl : id = name epoch := hnamed
    exact settled_data hi.injective hmono direction bytes publishes
  | lifecycle id epoch ends =>
    obtain rfl : id = name epoch := hnamed
    exact settled_lifecycle hi.injective hmono ends
  | gap epoch =>
    refine ⟨hmono.epoch, hmono.connected, ?_, hmono.rows, hmono.seen⟩
    intro e p hp
    have hp : Function.update s.protocol epoch ((s.protocol epoch).map (·.invalid)) e = some p := hp
    by_cases he : e = epoch
    · subst he
      rw [Function.update_self] at hp
      obtain ⟨p₀, hp₀, rfl⟩ := Option.map_eq_some_iff.mp hp
      exact hmono.protocol e p₀ hp₀
    · rw [Function.update_of_ne he] at hp
      exact hmono.protocol e p hp

end Issued

end Orchestrator.Native.Activation
