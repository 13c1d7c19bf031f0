import Orchestrator.Native.Decoding
import Orchestrator.Native.Lanes

/-!
# Other connections of an activation

What becomes of the protocol of a connection, and of its ready receipt, depends on its own
callbacks alone, as long as its records find room in the queue that it shares with the others.
-/
namespace Orchestrator.Native.Activation
open Library PythonJson

section Apart
variable {κ π : Type}

/-! ## Beside other connections -/

/-- A call of the observer leaves no record of the connection beyond the room of the queue. -/
def FindsRoom (cfg : Config) (e : Nat) (o o' : Observer κ) : Prop :=
  rowsOf e o'.rows = rowsOf e o.rows ∨ o'.rows.length < cfg.maxEvents

/-- Two observers after a call of the connection: `o` and `o'` before it, `n` and `n'` after it. -/
structure Agree (name : Nat → κ) (e : Nat) (o o' n n' : Observer κ) : Prop where
  connection : n'.connections (name e) = n.connections (name e)
  rows : ∃ new new', n.rows = o.rows ++ new ∧ n'.rows = o'.rows ++ new' ∧
    rowsOf e new' = rowsOf e new ∧ new'.length = new.length

variable [DecidableEq κ] {cfg : Config} {name : Nat → κ} {hs : List (Callback κ π)}
  {h : Callback κ π} {s s' : Sink κ π} {o o' n n' : Observer κ} {e : Nat} {c : Connection}
  {t t' : Tap}

theorem rowsOf_append {rows rows' : List Row} :
    rowsOf e (rows ++ rows') = rowsOf e rows ++ rowsOf e rows' := by
  simp [rowsOf]

/-- The records of a call are those of its connection. -/
theorem room_of_finds {b : Bool} (hc : c.epoch = e) (hgrows : Grows ⟨c, o.rows, b⟩ t)
    (hroom : FindsRoom cfg e o (o.put (name e) t)) : Room cfg ⟨c, o.rows, b⟩ t := by
  obtain ⟨new, hrows, hnew⟩ := hgrows.rows
  refine hroom.symm.imp id fun hsame => ?_
  have hsame : rowsOf e t.rows = rowsOf e o.rows := hsame
  have hown : rowsOf e new = new := by
    rw [rowsOf, List.filter_eq_self]
    intro r hr
    simpa [hc] using hnew r hr
  rw [hrows, rowsOf_append, hown, List.append_right_eq_self] at hsame
  simp [hrows, hsame]

theorem agree_put (h : Alike o.rows o'.rows t t') :
    Agree name e o o' (o.put (name e) t) (o'.put (name e) t') := by
  obtain ⟨new, hrows, hrows'⟩ := h.rows
  refine ⟨?_, new, new, hrows, hrows', rfl, rfl⟩
  simp [Observer.put, h.connection]

omit [DecidableEq κ] in
theorem agree_unknown {d : Option Direction}
    (hconn : o'.connections (name e) = o.connections (name e)) :
    Agree name e o o' (o.unknownConnection cfg d) (o'.unknownConnection cfg d) :=
  ⟨hconn, _, _, rfl, rfl, rfl, rfl⟩

theorem agree_feed {expected expected' : Nat → Option Text} {d : Option Direction}
    {bytes : List UInt8} (hconn : o'.connections (name e) = o.connections (name e))
    (hepoch : ∀ c, o.connections (name e) = some c → c.epoch = e)
    (hexpected : expected' e = expected e) (hle : o'.rows.length ≤ o.rows.length)
    (hroom : FindsRoom cfg e o (o.feed cfg expected (name e) d bytes).1) :
    Agree name e o o' (o.feed cfg expected (name e) d bytes).1
        (o'.feed cfg expected' (name e) d bytes).1 ∧
      (o'.feed cfg expected' (name e) d bytes).2 = (o.feed cfg expected (name e) d bytes).2 := by
  unfold Observer.feed at hroom ⊢
  rw [hconn]
  cases hc : o.connections (name e) with
  | none => exact ⟨agree_unknown hconn, rfl⟩
  | some c =>
    have hce := hepoch c hc
    simp only [hc] at hroom
    dsimp only
    split at hroom
    next hclosed =>
      rw [if_pos hclosed, if_pos hclosed]
      exact ⟨agree_unknown hconn, rfl⟩
    next hopen =>
      rw [if_neg hopen, if_neg hopen]
      cases d with
      | none =>
        have halike := (@Alike.refl o.rows o'.rows c).gap hle (room_of_finds hce grows_gap hroom)
        exact ⟨agree_put halike, halike.raised⟩
      | some d =>
        rw [hce] at hroom ⊢
        rw [hexpected]
        have halike := (@Alike.refl o.rows o'.rows c).feed hle (room_of_finds hce grows_feed hroom)
        exact ⟨agree_put halike, halike.raised⟩

theorem agree_close (hconn : o'.connections (name e) = o.connections (name e))
    (hepoch : ∀ c, o.connections (name e) = some c → c.epoch = e)
    (hle : o'.rows.length ≤ o.rows.length) (hroom : FindsRoom cfg e o (o.close cfg (name e))) :
    Agree name e o o' (o.close cfg (name e)) (o'.close cfg (name e)) := by
  unfold Observer.close at hroom ⊢
  rw [hconn]
  cases hc : o.connections (name e) with
  | none => exact agree_unknown hconn
  | some c =>
    simp only [hc] at hroom
    dsimp only
    split at hroom
    next hclosed =>
      rw [if_pos hclosed, if_pos hclosed]
      exact ⟨hconn, [], [], by simp⟩
    next hopen =>
      rw [if_neg hopen, if_neg hopen]
      have hgrows := room_of_finds (hepoch c hc) grows_close hroom
      exact agree_put (Alike.refl.close hle hgrows)

/-- A connection that is new to both observers. -/
theorem agree_open (hnone : o.connections (name e) = none) (hnone' : o'.connections (name e) = none)
    (hseen : o.maxEpochSeen < e) (hseen' : o'.maxEpochSeen < e)
    (hle : o'.rows.length ≤ o.rows.length)
    (hroom : ∀ n, o.openConnection cfg (name e) e = some n → FindsRoom cfg e o n) :
    ∃ n n', o.openConnection cfg (name e) e = some n ∧
      o'.openConnection cfg (name e) e = some n' ∧ Agree name e o o' n n' := by
  have hreopened : o.reopened cfg (name e) = o.rows := by simp [Observer.reopened, hnone]
  have hreopened' : o'.reopened cfg (name e) = o'.rows := by simp [Observer.reopened, hnone']
  unfold Observer.openConnection at hroom ⊢
  rw [if_neg (by omega), hreopened] at hroom ⊢
  rw [if_neg (by omega), hreopened']
  refine ⟨_, _, rfl, rfl, ?_⟩
  have hroom : FindsRoom cfg e o (o.put (name e)
      (Tap.emit cfg ⟨{ epoch := e }, o.rows, false⟩ none (.observed .connectionOpen))) := by
    have hfinds := hroom _ rfl
    exact hfinds
  have hgrows : Grows ⟨{ epoch := e }, o.rows, false⟩
      (Tap.emit cfg ⟨{ epoch := e }, o.rows, false⟩ none (.observed .connectionOpen)) := grows_emit
  have hfinds := room_of_finds rfl hgrows hroom
  have halike := (@Alike.refl o.rows o'.rows { epoch := e }).emit hle hfinds
  have hagree := @agree_put κ _ name o o' e _ _ halike
  exact ⟨hagree.connection, hagree.rows⟩

/-- A sink beside one that has called its observer for the connection at least as often. -/
structure Beside (name : Nat → κ) (e : Nat) (s s' : Sink κ π) : Prop where
  same : Same name e s s'
  rows : s'.observer.rows.length ≤ s.observer.rows.length

omit [DecidableEq κ] in
theorem Agree.beside (hagree : Agree name e s.observer s'.observer n n')
    (hb : Beside name e s s') : Beside name e (s.observe n) (s'.observe n') := by
  obtain ⟨new, new', hrows, hrows', hown, hlength⟩ := hagree.rows
  refine ⟨⟨hagree.connection, ?_, hb.same.published⟩, ?_⟩
  · rw [observe_protocol hrows, observe_protocol hrows', hown, hb.same.protocol]
  · have := hb.rows
    change n'.rows.length ≤ n.rows.length
    rw [hrows, hrows', List.length_append, List.length_append]
    omega

omit [DecidableEq κ] in
/-- Both sinks change the protocol of the connection in the same way. -/
theorem Beside.setProtocol (hb : Beside name e s s') {p : Option (Protocol κ π)}
    {published published' : List (Publication κ π)}
    (hpublished : published'.filter (·.protocol.epoch = e) =
      published.filter (·.protocol.epoch = e)) :
    Beside name e
      { s with protocol := Function.update s.protocol e p, published := published }
      { s' with protocol := Function.update s'.protocol e p, published := published' } := by
  refine ⟨⟨hb.same.connection, ?_, hpublished⟩, hb.rows⟩
  simp

theorem beside_onConnect (hb : Beside name e s s')
    (hfresh : s.observer.connections (name e) = none ∧ s.observer.maxEpochSeen < e)
    (hfresh' : s'.observer.connections (name e) = none ∧ s'.observer.maxEpochSeen < e)
    {lease : Option Lease} {frontend backend : π}
    (hroom : FindsRoom cfg e s.observer
      (s.onConnect cfg (name e) e lease frontend backend).observer) :
    Beside name e (s.onConnect cfg (name e) e lease frontend backend)
      (s'.onConnect cfg (name e) e lease frontend backend) := by
  obtain ⟨n, n', hopen, hopen', hagree⟩ := @agree_open κ _ cfg name s.observer s'.observer e
    hfresh.1 hfresh'.1 hfresh.2 hfresh'.2 hb.rows (by
      intro n hn
      unfold Sink.onConnect at hroom
      dsimp only at hroom
      rw [hn] at hroom
      exact hroom)
  unfold Sink.onConnect
  dsimp only
  rw [hopen, hopen']
  exact Agree.beside hagree (hb.setProtocol hb.same.published)

theorem beside_onData (hb : Beside name e s s') (hsettled : Settled name hs s)
    {d : Option Direction} {bytes : List UInt8} {publishes : Bool}
    (hroom : FindsRoom cfg e s.observer (s.onData cfg (name e) e d bytes publishes).observer) :
    Beside name e (s.onData cfg (name e) e d bytes publishes)
      (s'.onData cfg (name e) e d bytes publishes) := by
  have hexpected : s'.expectedHome e = s.expectedHome e := by
    simp only [Sink.expectedHome, hb.same.protocol]
  unfold Sink.onData at hroom ⊢
  rw [hb.same.protocol]
  split at hroom
  next hp => exact hb
  next p hp =>
    split at hroom
    next hid =>
      rw [if_pos hid, if_pos hid]
      exact hb
    next hid =>
      rw [if_neg hid, if_neg hid]
      dsimp only at hroom ⊢
      have hfinds : FindsRoom cfg e s.observer
          (s.observer.feed cfg s.expectedHome (name e) d bytes).1 := by
        split at hroom
        · exact hroom
        · split at hroom
          · exact hroom
          · exact hroom
      obtain ⟨hagree, hraised⟩ := agree_feed hb.same.connection (hsettled.epoch e) hexpected hb.rows
        hfinds
      have hfed := Agree.beside hagree hb
      rw [hfed.same.protocol, hraised]
      have hboundary : Observer.completeBoundary
          (s'.observer.feed cfg s'.expectedHome (name e) d bytes).1 (name e) =
            Observer.completeBoundary
              (s.observer.feed cfg s.expectedHome (name e) d bytes).1 (name e) := by
        simp only [Observer.completeBoundary, hagree.connection]
      rw [hboundary]
      split
      · exact hfed
      · split
        · refine hfed.setProtocol ?_
          rw [List.filter_append, List.filter_append, hfed.same.published]
        · exact hfed

/-- What the callbacks of a connection do to it is the same beside others as without them. -/
theorem beside_own {hs' : List (Callback κ π)} (hi : Issued name (hs ++ [h]))
    (hi' : Issued name (hs' ++ [h])) (hsettled : Settled name hs s)
    (hsettled' : Settled name hs' s') (hepoch : h.epoch = e) (hb : Beside name e s s')
    (hroom : FindsRoom cfg e s.observer (s.step cfg h).observer) :
    Beside name e (s.step cfg h) (s'.step cfg h) := by
  have hnamed := hi.named h (by simp)
  cases h with
  | connect id epoch lease frontend backend =>
    obtain rfl : id = name epoch := hnamed
    obtain rfl : epoch = e := hepoch
    exact beside_onConnect hb (hsettled.fresh hi rfl) (hsettled'.fresh hi' rfl) hroom
  | data id epoch direction bytes publishes =>
    obtain rfl : id = name epoch := hnamed
    obtain rfl : epoch = e := hepoch
    exact beside_onData hb hsettled hroom
  | lifecycle id epoch ends =>
    obtain rfl : id = name epoch := hnamed
    obtain rfl : epoch = e := hepoch
    cases ends with
    | false => exact hb
    | true =>
      have hagree := agree_close hb.same.connection (hsettled.epoch epoch) hb.rows hroom
      exact Agree.beside hagree hb
  | gap epoch =>
    obtain rfl : epoch = e := hepoch
    change Beside name epoch (s.onGap epoch) (s'.onGap epoch)
    unfold Sink.onGap
    rw [hb.same.protocol]
    exact hb.setProtocol hb.same.published

omit [DecidableEq κ] in
/-- A call for one connection is nothing to another. -/
theorem Called.same (hcalled : Called name e s.observer n) {e' : Nat} (he : e' ≠ e)
    (hsame : Same name e' s s') (ho : s'.observer = s.observer) :
    Same name e' s (s'.observe n) := by
  obtain ⟨new, hrows, hnew⟩ := hcalled.rows
  rw [← ho] at hrows
  have hconn : n.connections (name e') = s'.observer.connections (name e') :=
    (hcalled.others e' he).trans hsame.connection.symm
  refine hsame.trans (same_observe_other hconn hrows fun r hr hepoch => ?_)
  obtain hnone | ⟨hsome, -⟩ := hnew r hr
  · rw [hnone] at hepoch
    cases hepoch
  · exact he (Option.some.inj (hepoch.symm.trans hsome))

omit [DecidableEq κ] in
theorem same_setProtocol {p : Option (Protocol κ π)} {e' : Nat} (he : e' ≠ e)
    {published : List (Publication κ π)}
    (hpublished : published.filter (·.protocol.epoch = e') =
      s.published.filter (·.protocol.epoch = e')) :
    Same name e' s
      { s with protocol := Function.update s.protocol e p, published := published } :=
  ⟨rfl, Function.update_of_ne he .., hpublished⟩

/-- The callbacks of another connection leave this one as it is. -/
theorem same_other (hi : Issued name (hs ++ [h])) (hsettled : Settled name hs s)
    (hepoch : h.epoch ≠ e) : Same name e s (s.step cfg h) := by
  have hnamed := hi.named h (by simp)
  cases h with
  | connect id epoch lease frontend backend =>
    obtain rfl : id = name epoch := hnamed
    change Same name e s (s.onConnect cfg (name epoch) epoch lease frontend backend)
    unfold Sink.onConnect
    dsimp only
    split
    · exact same_setProtocol (Ne.symm hepoch) rfl
    next n hopen =>
      obtain ⟨hcalled, -⟩ := called_open hi.injective (hsettled.fresh hi rfl).1 hopen
      exact Called.same hcalled (Ne.symm hepoch) (same_setProtocol (Ne.symm hepoch) rfl) rfl
  | data id epoch direction bytes publishes =>
    obtain rfl : id = name epoch := hnamed
    change Same name e s (s.onData cfg (name epoch) epoch direction bytes publishes)
    unfold Sink.onData
    split
    · exact .refl
    · split
      · exact .refl
      · dsimp only
        have hcalled := @called_feed κ _ cfg name s.observer epoch s.expectedHome direction bytes
          hi.injective (hsettled.epoch epoch)
        have hfed := Called.same hcalled (Ne.symm hepoch) .refl rfl
        split
        · exact hfed
        next p hp =>
          split
          · refine hfed.trans (same_setProtocol (Ne.symm hepoch) ?_)
            have hother : p.epoch ≠ e :=
              ((settled_feed hi.injective hsettled).protocol epoch p hp).1 ▸ hepoch
            rw [List.filter_append, List.filter_cons_of_neg (by simpa using hother),
              List.filter_nil, List.append_nil]
          · exact hfed
  | lifecycle id epoch ends =>
    obtain rfl : id = name epoch := hnamed
    cases ends with
    | false => exact .refl
    | true =>
      have hcalled :=
        @called_close κ _ cfg name s.observer epoch hi.injective (hsettled.epoch epoch)
      exact Called.same hcalled (Ne.symm hepoch) .refl rfl
  | gap epoch =>
    exact same_setProtocol (Ne.symm hepoch) rfl

end Apart

section Histories
variable {κ π : Type} [DecidableEq κ] {cfg : Config} {name name' : Nat → κ}
  {hs hs' : List (Callback κ π)} {h : Callback κ π} {s : Sink κ π} {e : Nat}

/-! ## Histories -/

theorem settled_run (hi : Issued name hs) :
    Settled name hs (run (Sink.step cfg) {} hs) := by
  induction hs using List.reverseRecOn with
  | nil =>
    refine ⟨?_, ?_, ?_, ?_, .inl rfl⟩
    · intro e c hc
      cases hc
    · intro e c hc
      cases hc
    · intro e p hp
      cases hp
    · intro r hr
      cases hr
  | append_singleton hs h ih =>
    rw [run_concat]
    exact settled_step hi (ih hi.init)

omit [DecidableEq κ] in
/-- The callbacks of one connection alone. -/
theorem Issued.filter (hi : Issued name hs) {p : Callback κ π → Bool} :
    Issued name (hs.filter p) := by
  have hsub : ((hs.filter p).filterMap Callback.connects).Sublist
      (hs.filterMap Callback.connects) := List.Sublist.filterMap _ List.filter_sublist
  exact ⟨hi.injective, fun h hh => hi.named h (List.mem_of_mem_filter hh),
    fun e he => hi.positive e (hsub.subset he), hi.increasing.sublist hsub⟩

/-- No record of the connection finds the queue full. -/
def Roomy (cfg : Config) (e : Nat) (hs : List (Callback κ π)) : Prop :=
  AllSteps (Sink.step cfg) (fun s h => FindsRoom cfg e s.observer (s.step cfg h).observer) {} hs

omit [DecidableEq κ] in
theorem Same.symm {s' : Sink κ π} (h : Same name e s s') : Same name e s' s :=
  ⟨h.connection.symm, h.protocol.symm, h.published.symm⟩

/-- A callback leaves the observer alone, or calls it for its connection. -/
theorem step_observer (hi : Issued name (hs ++ [h])) (hsettled : Settled name hs s) :
    (s.step cfg h).observer = s.observer ∨
      Called name h.epoch s.observer (s.step cfg h).observer := by
  have hnamed := hi.named h (by simp)
  cases h with
  | connect id epoch lease frontend backend =>
    obtain rfl : id = name epoch := hnamed
    change (s.onConnect cfg (name epoch) epoch lease frontend backend).observer = _ ∨
      Called name epoch s.observer
        (s.onConnect cfg (name epoch) epoch lease frontend backend).observer
    unfold Sink.onConnect
    dsimp only
    split
    · exact .inl rfl
    next o hopen =>
      exact .inr (called_open hi.injective (hsettled.fresh hi rfl).1 hopen).1
  | data id epoch direction bytes publishes =>
    obtain rfl : id = name epoch := hnamed
    have hcalled := @called_feed κ _ cfg name s.observer epoch s.expectedHome direction bytes
      hi.injective (hsettled.epoch epoch)
    change (s.onData cfg (name epoch) epoch direction bytes publishes).observer = _ ∨
      Called name epoch s.observer
        (s.onData cfg (name epoch) epoch direction bytes publishes).observer
    unfold Sink.onData
    split
    · exact .inl rfl
    · split
      · exact .inl rfl
      · dsimp only
        split
        · exact .inr hcalled
        · split
          · exact .inr hcalled
          · exact .inr hcalled
  | lifecycle id epoch ends =>
    obtain rfl : id = name epoch := hnamed
    cases ends with
    | false => exact .inl rfl
    | true => exact .inr (called_close hi.injective (hsettled.epoch epoch))
  | gap epoch => exact .inl rfl

theorem step_rows_le (hi : Issued name (hs ++ [h])) (hsettled : Settled name hs s) :
    s.observer.rows.length ≤ (s.step cfg h).observer.rows.length := by
  obtain hsame | hcalled := @step_observer κ π _ cfg name hs h s hi hsettled
  · rw [hsame]
  · obtain ⟨new, hrows, -⟩ := hcalled.rows
    rw [hrows, List.length_append]
    omega

/-- The connection fares as it does on its own. -/
theorem beside_run (hi : Issued name hs) (hroom : Roomy cfg e hs) :
    Beside name e (run (Sink.step cfg) {} hs)
      (run (Sink.step cfg) {} (hs.filter (·.epoch = e))) := by
  induction hs using List.reverseRecOn with
  | nil => exact ⟨.refl, le_refl _⟩
  | append_singleton hs h ih =>
    have hbefore := ih hi.init hroom.of_append
    have hsettled := @settled_run κ π _ cfg name hs hi.init
    have hstep : FindsRoom cfg e (run (Sink.step cfg) {} hs).observer
        ((run (Sink.step cfg) {} hs).step cfg h).observer := hroom.from_append.1
    rw [run_concat, List.filter_append]
    by_cases he : h.epoch = e
    · rw [List.filter_cons_of_pos (by simpa using he), List.filter_nil, run_concat]
      have hown : Issued name (hs.filter (·.epoch = e) ++ [h]) := by
        have hfilter := @Issued.filter κ π name (hs ++ [h]) hi (·.epoch = e)
        rwa [List.filter_append, List.filter_cons_of_pos (by simpa using he),
          List.filter_nil] at hfilter
      exact beside_own hi hown hsettled (settled_run hown.init) he hbefore hstep
    · rw [List.filter_cons_of_neg (by simpa using he), List.filter_nil, List.append_nil]
      refine ⟨(same_other hi hsettled he).symm.trans hbefore.same, ?_⟩
      exact hbefore.rows.trans (step_rows_le hi hsettled)

/-- Two histories that agree on the callbacks of a connection leave it with the same protocol, and
the same calls for its receipt, where none of its records finds the queue full. -/
theorem readiness_is_its_own (hi : Issued name hs) (hi' : Issued name' hs')
    (hsame : hs'.filter (·.epoch = e) = hs.filter (·.epoch = e)) (hroom : Roomy cfg e hs)
    (hroom' : Roomy cfg e hs') :
    (run (Sink.step cfg) {} hs').protocol e = (run (Sink.step cfg) {} hs).protocol e ∧
      (run (Sink.step cfg) {} hs').published.filter (·.protocol.epoch = e) =
        (run (Sink.step cfg) {} hs).published.filter (·.protocol.epoch = e) := by
  have halone := (beside_run hi hroom).same
  have halone' := (beside_run hi' hroom').same
  rw [hsame] at halone'
  exact ⟨halone'.protocol.symm.trans halone.protocol,
    halone'.published.symm.trans halone.published⟩

/-! ## A full queue -/

omit [DecidableEq κ] in
/-- The first record of a connection, a gap where the queue is full. -/
theorem emit_open {rows : List Row} : ∃ row,
    (Tap.emit cfg ⟨{ epoch := e }, rows, false⟩ none (.observed .connectionOpen)).rows =
        rows ++ [row] ∧ row.connEpoch = some e ∧
      ∀ p : Protocol κ π, ((p.protocolEvent row).protocolValid = true ↔
        p.protocolValid = true ∧ rows.length < cfg.maxEvents - 1) := by
  unfold Tap.emit
  dsimp only
  rw [if_neg (by simp)]
  by_cases hfull : rows.length ≥ cfg.maxEvents - 1
  · rw [if_pos hfull]
    refine ⟨_, rfl, rfl, fun p => ?_⟩
    simp [Row.gap, Protocol.protocolEvent, Protocol.invalid, hfull]
  · rw [if_neg hfull]
    refine ⟨_, rfl, rfl, fun p => ?_⟩
    have hroom : rows.length < cfg.maxEvents - 1 := by omega
    simp [Protocol.protocolEvent, hroom]

theorem step_connect {i : κ} {lease : Option Lease} {frontend backend : π} :
    s.step cfg (.connect i e lease frontend backend) =
      s.onConnect cfg i e lease frontend backend := rfl

/-- A connection that is new makes one record. Its protocol is invalid if the queue is full. -/
theorem onConnect_new {i : κ} {lease : Option Lease} {frontend backend : π}
    (hnone : s.observer.connections i = none) (hseen : s.observer.maxEpochSeen < e) :
    (s.onConnect cfg i e lease frontend backend).observer.rows.length =
        s.observer.rows.length + 1 ∧
      ∃ p, (s.onConnect cfg i e lease frontend backend).protocol e = some p ∧
        (p.protocolValid = true ↔
          lease.isSome = true ∧ s.observer.rows.length < cfg.maxEvents - 1) := by
  have hreopened : s.observer.reopened cfg i = s.observer.rows := by
    simp [Observer.reopened, hnone]
  obtain ⟨row, hrows, hepoch, hvalid⟩ := @emit_open κ π cfg e s.observer.rows
  unfold Sink.onConnect Observer.openConnection
  dsimp only
  rw [if_neg (by omega), hreopened]
  dsimp only
  have hown : rowsOf e [row] = [row] := by simp [rowsOf, hepoch]
  constructor
  · change (Tap.emit cfg _ none (.observed .connectionOpen)).rows.length = _
    rw [hrows, List.length_append, List.length_singleton]
  · rw [observe_protocol hrows, hown]
    simp only [Function.update_self, Option.map_some, List.foldl_cons, List.foldl_nil]
    exact ⟨_, rfl, hvalid _⟩

instance (cfg : Config) (e : Nat) (o o' : Observer κ) : Decidable (FindsRoom cfg e o o') :=
  inferInstanceAs (Decidable (_ ∨ _))

instance (cfg : Config) (e : Nat) (hs : List (Callback κ π)) : Decidable (Roomy cfg e hs) :=
  inferInstanceAs (Decidable (AllSteps _ _ _ _))

/-- The connections of the first epochs, with no traffic. -/
def openings (n : Nat) : List (Callback Nat Unit) :=
  (List.range n).map fun k => .connect (k + 1) (k + 1) (some {}) () ()

theorem openings_succ {n : Nat} : openings (n + 1) =
    openings n ++ [Callback.connect (n + 1) (n + 1) (some {}) () ()] := by
  simp [openings, List.range_succ]

theorem issued_openings {n : Nat} : Issued id (openings n) := by
  have hepochs : (openings n).filterMap Callback.connects = (List.range n).map (· + 1) := by
    rw [openings, List.filterMap_map]
    exact congrFun (List.filterMap_eq_map (f := (· + 1))) _
  refine ⟨Function.injective_id, ?_, ?_, ?_⟩
  · intro h hh
    obtain ⟨k, -, rfl⟩ := List.mem_map.mp hh
    rfl
  · rw [hepochs]
    intro e he
    obtain ⟨k, -, rfl⟩ := List.mem_map.mp he
    omega
  · rw [hepochs, List.pairwise_map]
    exact List.pairwise_lt_range.imp (by omega)

theorem openings_rows {n : Nat} :
    (run (Sink.step cfg) {} (openings n)).observer.rows.length = n := by
  induction n with
  | zero => rfl
  | succ n ih =>
    have hi : Issued id (openings n ++ [Callback.connect (n + 1) (n + 1) (some {}) () ()]) :=
      openings_succ ▸ issued_openings
    have hfresh := (@settled_run _ _ _ cfg _ _ hi.init).fresh hi rfl
    have hnew := (@onConnect_new Nat Unit _ cfg _ (n + 1) (n + 1) (some {}) () () hfresh.1
      hfresh.2).1
    rw [openings_succ, run_concat, step_connect, hnew, ih]

/-- The last of them is valid if the others have left room. -/
theorem openings_last {n : Nat} :
    ∃ p, (run (Sink.step cfg) {} (openings (n + 1))).protocol (n + 1) = some p ∧
      (p.protocolValid = true ↔ n < cfg.maxEvents - 1) := by
  have hi : Issued id (openings n ++ [Callback.connect (n + 1) (n + 1) (some {}) () ()]) :=
    openings_succ ▸ issued_openings
  have hfresh := (@settled_run _ _ _ cfg _ _ hi.init).fresh hi rfl
  obtain ⟨-, p, hp, hvalid⟩ := @onConnect_new Nat Unit _ cfg _ (n + 1) (n + 1) (some {}) () ()
    hfresh.1 hfresh.2
  rw [openings_rows] at hvalid
  rw [openings_succ, run_concat, step_connect, hp]
  exact ⟨p, rfl, by simpa using hvalid⟩

theorem issued_alone {e : Nat} (he : 0 < e) :
    Issued id ([] ++ [Callback.connect e e (some {}) () ()]) := by
  refine ⟨Function.injective_id, ?_, ?_, ?_⟩ <;> simp [Callback.connects, Callback.Named, he]

/-- Without the others it is valid. -/
theorem alone_last {e : Nat} (he : 0 < e) :
    ∃ p, (run (Sink.step cfg) {} [.connect e e (some {}) () ()]).protocol e = some p ∧
      p.protocolValid = true := by
  have hi := issued_alone he
  have hfresh := (@settled_run _ _ _ cfg _ _ hi.init).fresh hi rfl
  obtain ⟨-, p, hp, hvalid⟩ := @onConnect_new Nat Unit _ cfg _ e e (some {}) () () hfresh.1
    hfresh.2
  have hroom : 0 < cfg.maxEvents - 1 := by
    have := cfg.reserve
    omega
  exact ⟨p, hp, hvalid.mpr ⟨rfl, hroom⟩⟩

theorem openings_apart {n : Nat} : (openings n).filter (·.epoch = n + 1) = [] := by
  rw [List.filter_eq_nil_iff]
  intro h hh
  obtain ⟨k, hk, rfl⟩ := List.mem_map.mp hh
  have := List.mem_range.mp hk
  rw [decide_eq_true_eq]
  change ¬ k + 1 = n + 1
  omega

/-- Connections without traffic have filled the queue, and the next is invalid; it is not where
it comes first. -/
theorem crowded_connection_differs :
    ¬ ∀ (e : Nat) (hs hs' : List (Callback Nat Unit)), Issued id hs → Issued id hs' →
      hs'.filter (·.epoch = e) = hs.filter (·.epoch = e) →
      (run (Sink.step {}) {} hs').protocol e = (run (Sink.step {}) {} hs).protocol e := by
  intro h
  have hsame := h (4095 + 1) _ _ (issued_alone (Nat.succ_pos 4095)) (@issued_openings (4095 + 1))
    (by rw [openings_succ, List.filter_append, openings_apart]; rfl)
  obtain ⟨p, hp, hvalid⟩ := @openings_last {} 4095
  obtain ⟨p', hp', hvalid'⟩ := @alone_last {} (4095 + 1) (Nat.succ_pos 4095)
  rw [List.nil_append, hp, hp', Option.some.injEq] at hsame
  subst hsame
  exact Nat.lt_irrefl _ (hvalid.mp hvalid')

end Histories

/-! ## A connection that becomes ready -/

/-- A short message in one frame, whose mask is zero. -/
def toyText (d : Direction) (s : String) : List UInt8 :=
  let payload := ascii s
  match d with
  | .client => [0x81, UInt8.ofNat (0x80 + payload.length), 0, 0, 0, 0] ++ payload
  | .server => [0x81, UInt8.ofNat payload.length] ++ payload

def threadField : String := "\"thread\":\x7b\"id\":\"00000000-0000-0000-0000-000000000000\"\x7d"

def toyMessages : List (Direction × String) :=
  [(.client, "\x7b\"id\":1,\"method\":\"initialize\"\x7d"),
    (.server, "\x7b\"id\":1,\"result\":\x7b\"codexHome\":\"/h\"\x7d\x7d"),
    (.client, "\x7b\"method\":\"initialized\"\x7d"),
    (.client, "\x7b\"id\":2,\"method\":\"thread/start\"\x7d"),
    (.server, "\x7b\"id\":2,\"result\":\x7b" ++ threadField ++ "\x7d\x7d"),
    (.server, "\x7b\"method\":\"thread/started\",\"params\":\x7b" ++ threadField ++ "\x7d\x7d")]

/-- The callbacks of a connection, until its thread has started. -/
def toyCalls : List (Callback Nat Unit) :=
  Callback.connect 2 2 (some { expectedHome := some (text "/h") }) () () ::
    [Direction.client, .server].map
      (fun d => Callback.data 2 2 (some d) (toyUpgrade d ++ marker) true) ++
    toyMessages.map fun sent => Callback.data 2 2 (some sent.1) (toyText sent.1 sent.2) true

/-- The same, beside a connection that is sent bytes without an upgrade. -/
def toyBeside : List (Callback Nat Unit) :=
  Callback.connect 1 1 none () () :: toyCalls.take 4 ++
    Callback.data 1 1 (some .client) (ascii "GET") true :: toyCalls.drop 4 ++ [Callback.gap 1]

/-- The receipt is published, once, and is the same. -/
theorem second_connection_ready :
    (run (Sink.step {}) {} toyBeside).protocol 2 = (run (Sink.step {}) {} toyCalls).protocol 2 ∧
      (run (Sink.step {}) {} toyBeside).published.filter (·.protocol.epoch = 2) =
        (run (Sink.step {}) {} toyCalls).published.filter (·.protocol.epoch = 2) ∧
      (run (Sink.step {}) {} toyCalls).published.map
        (fun receipt => (receipt.protocol.epoch, receipt.succeeded)) = [(2, true)] := by
  have halone : Issued id toyCalls :=
    ⟨Function.injective_id, by simp [toyCalls, toyMessages, Callback.Named], by decide, by decide⟩
  have hbeside : Issued id toyBeside :=
    ⟨Function.injective_id, by simp [toyBeside, toyCalls, toyMessages, Callback.Named], by decide,
      by decide⟩
  have hfacts : Roomy {} 2 toyCalls ∧ Roomy {} 2 toyBeside ∧
      (run (Sink.step {}) {} toyCalls).published.map
        (fun receipt => (receipt.protocol.epoch, receipt.succeeded)) = [(2, true)] := by
    decide +kernel
  obtain ⟨hroom, hroom', hready⟩ := hfacts
  obtain ⟨hprotocol, hpublished⟩ := readiness_is_its_own halone hbeside rfl hroom hroom'
  exact ⟨hprotocol, hpublished, hready⟩

end Orchestrator.Native.Activation
