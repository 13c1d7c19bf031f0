import Orchestrator.Native.Overflow
import Mathlib.Data.List.Pairwise

/-!
# Gaps and pairs

A log of all that was recorded, also of what was drained, with the calls that silence a
connection. Nothing of an epoch is recorded behind its end, and every answer has its request.
-/
namespace Orchestrator.Native
open Library PythonJson

inductive Entry where
  | record (r : Record)
  | setPending (epoch : Nat)
  deriving DecidableEq, Repr

namespace Entry

def epoch : Entry → Option Nat
  | .record r => r.connEpoch
  | .setPending e => some e

/-- A gap, or what silences a connection. -/
def isEnd : Entry → Bool
  | .record r => r.isGap
  | .setPending _ => true

/-- What attachment is concluded from. -/
def isEvidence : Entry → Bool
  | .setPending _ => false
  | .record r => match r.event with
    | .rpc _ _ _ _ | .rpcUnknown _ _ _ _ | .rpcResponse _ _ _ _ _ | .websocketUpgrade => true
    | _ => false

/-- The request that is made, under its direction and its id. -/
def asks : Entry → Option ((Direction × Id) × Text)
  | .setPending _ => none
  | .record r => match r.event, r.direction with
    | .rpc (some id) method _ _, some d => some ((d, id), method)
    | .rpcUnknown (some id) (some method) _ false, some d => some ((d, id), method)
    | _, _ => none

/-- The request that is answered: one of the opposite direction. -/
def answers : Entry → Option ((Direction × Id) × Text)
  | .setPending _ => none
  | .record r => match r.event, r.direction with
    | .rpcResponse id _ method _ _, some d => some ((d.opposite, id), method)
    | .rpcUnknown (some id) (some method) _ true, some d => some ((d.opposite, id), method)
    | _, _ => none

end Entry

/-- No evidence of an epoch comes behind its end. -/
def Final (log : List Entry) : Prop :=
  log.Pairwise fun a b => a.isEnd = true → a.epoch = b.epoch → a.epoch ≠ none →
    b.isEvidence = false

def note (e : Nat) (waiting : Pending) (entry : Entry) : Pending :=
  if entry.epoch = some e then match entry.asks, entry.answers with
    | some request, _ => waiting ++ [request]
    | none, some request => waiting.eraseP (·.1 = request.1)
    | none, none => waiting
  else waiting

/-- The requests of an epoch that have not been answered; an answer takes one away. -/
def unanswered (e : Nat) (log : List Entry) : Pending := log.foldl (note e) []

/-- An answer has exactly one request before it that was not answered yet, and names its
method. -/
def Paired (log : List Entry) : Prop :=
  ∀ before entry after, log = before ++ entry :: after → ∀ e key method,
    entry.epoch = some e → entry.answers = some (key, method) →
      (unanswered e before).filter (·.1 = key) = [(key, method)]

/-! ## The log -/

/-- An observer, and all that it has recorded since it was made. -/
structure History (κ : Type) where
  observer : Observer κ := {}
  log : List Entry := []

section
variable {κ : Type} [DecidableEq κ] (cfg : Config)

/-- What a call adds to the log. -/
def Observer.entries (o : Observer κ) : Call κ → List Entry
  | .drainEvents => []
  | .setPending id => match o.get? id with
    | some c => if c.closed = true then [] else [.setPending c.epoch]
    | none => []
  | call => ((o.step cfg call).queue.events.drop o.queue.events.length).map .record

def History.step (h : History κ) (call : Call κ) : History κ :=
  { observer := h.observer.step cfg call, log := h.log ++ h.observer.entries cfg call }

end

/-! ## Adding to a log -/

section
variable {log : List Entry} {entry : Entry} {e : Nat}

theorem final_concat : Final (log ++ [entry]) ↔ Final log ∧
    ∀ a ∈ log, a.isEnd = true → a.epoch = entry.epoch → a.epoch ≠ none →
      entry.isEvidence = false := by
  unfold Final
  simp [List.pairwise_append]

theorem unanswered_concat : unanswered e (log ++ [entry]) = note e (unanswered e log) entry := by
  simp [unanswered]

theorem note_of_ne {waiting : Pending} (h : entry.epoch ≠ some e) :
    note e waiting entry = waiting :=
  if_neg h

theorem paired_concat : Paired (log ++ [entry]) ↔ Paired log ∧ ∀ e key method,
    entry.epoch = some e → entry.answers = some (key, method) →
      (unanswered e log).filter (·.1 = key) = [(key, method)] := by
  constructor
  · intro h
    refine ⟨fun before entry' after heq => ?_, h log entry [] rfl⟩
    exact h before entry' (after ++ [entry]) (by rw [heq]; simp)
  · rintro ⟨h, hlast⟩ before entry' after heq
    rcases List.eq_nil_or_concat after with rfl | ⟨after', last, rfl⟩
    · obtain ⟨rfl, hentry⟩ := List.append_inj' heq rfl
      obtain rfl := List.singleton_inj.mp hentry
      exact hlast
    · have heq : log ++ [entry] = (before ++ entry' :: after') ++ [last] := by
        rw [heq]; simp
      obtain ⟨heq, -⟩ := List.append_inj' heq rfl
      exact h before entry' after' heq

end

/-! ## Requests that are pending -/

section
variable {pending : Pending} {key : Direction × Id} {method : Text}

theorem pending_eraseP (h : (pending.map (·.1)).Nodup) :
    pending.eraseP (·.1 = key) = pending.erase key := by
  induction pending with
  | nil => rfl
  | cons p rest ih =>
    rw [List.map_cons, List.nodup_cons] at h
    by_cases hp : p.1 = key
    · have hrest : rest.filter (fun x => x.1 ≠ key) = rest := by
        rw [List.filter_eq_self]
        intro q hq
        have : q.1 ≠ key := fun heq => h.1 (hp ▸ heq ▸ List.mem_map_of_mem hq)
        simpa using this
      simp only [Pending.erase]
      rw [List.eraseP_cons_of_pos (by simpa using hp), List.filter_cons_of_neg (by simpa using hp),
        hrest]
    · simp only [List.eraseP_cons, hp, decide_false, cond_false, Pending.erase]
      rw [List.filter_cons_of_pos (by simpa using hp), ih h.2]
      rfl

theorem pending_filter (h : (pending.map (·.1)).Nodup) (hfind : pending.find key = some method) :
    pending.filter (·.1 = key) = [(key, method)] := by
  induction pending with
  | nil => cases hfind
  | cons p rest ih =>
    rw [List.map_cons, List.nodup_cons] at h
    by_cases hp : p.1 = key
    · have hrest : rest.filter (·.1 = key) = [] := by
        rw [List.filter_eq_nil_iff]
        intro q hq heq
        have heq : q.1 = key := by simpa using heq
        exact h.1 (hp ▸ heq ▸ List.mem_map_of_mem hq)
      have hmethod : p.2 = method := by simpa [Pending.find, hp] using hfind
      rw [List.filter_cons_of_pos (by simpa using hp), hrest, ← hmethod, ← hp]
    · rw [List.filter_cons_of_neg (by simpa using hp)]
      exact ih h.2 (by simpa [Pending.find, hp] using hfind)

theorem pending_find_none (h : pending.find key = none) : key ∉ pending.map (·.1) := by
  intro hmem
  obtain ⟨p, hp, heq⟩ := List.mem_map.mp hmem
  simp only [Pending.find, Option.map_eq_none_iff, List.find?_eq_none] at h
  exact h p hp (by simpa using heq)

theorem pending_erase_nodup (h : (pending.map (·.1)).Nodup) :
    ((pending.erase key).map (·.1)).Nodup :=
  h.sublist (List.filter_sublist.map _)

end

/-! ## Connections -/

/-- The log after the records that have come to a queue since it had `n`. -/
def logged (log : List Entry) (n : Nat) (q : Queue) : List Entry :=
  log ++ (q.events.drop n).map .record

/-- What holds between a connection and the log. -/
structure Good (log : List Entry) (c : Connection) : Prop where
  few : c.pending.length ≤ maxPendingRequests
  settled : c.overflowed = true → c.valid = false
  goesOn : c.valid = true → ∀ entry ∈ log, entry.isEnd = true → entry.epoch ≠ some c.epoch
  waiting : c.valid = true → unanswered c.epoch log = c.pending
  distinct : (c.pending.map (·.1)).Nodup

section
variable {cfg : Config} {log : List Entry} {n : Nat} {t t' : Tap} {c : Connection}
  {entry : Entry}

/-- Records of other connections change nothing. -/
theorem Good.frame (h : Good log c) (hne : entry.epoch ≠ some c.epoch) :
    Good (log ++ [entry]) c where
  few := h.few
  settled := h.settled
  goesOn hv entry' hentry hend := by
    rcases List.mem_append.mp hentry with hentry | hentry
    · exact h.goesOn hv entry' hentry hend
    · obtain rfl := List.mem_singleton.mp hentry
      exact hne
  waiting hv := by rw [unanswered_concat, note_of_ne hne]; exact h.waiting hv
  distinct := h.distinct

/-- Nor do records that are neither requests, nor answers, nor ends. -/
theorem Good.plain (h : Good log c) (hend : entry.isEnd = false) (hasks : entry.asks = none)
    (hanswers : entry.answers = none) : Good (log ++ [entry]) c where
  few := h.few
  settled := h.settled
  goesOn hv entry' hentry hend' := by
    rcases List.mem_append.mp hentry with hentry | hentry
    · exact h.goesOn hv entry' hentry hend'
    · obtain rfl := List.mem_singleton.mp hentry
      rw [hend] at hend'
      cases hend'
  waiting hv := by
    rw [unanswered_concat, note, hasks, hanswers]
    simpa using h.waiting hv
  distinct := h.distinct

theorem good_of_invalidated : Good log { c.invalidate with overflowed := true } where
  few := Nat.zero_le _
  settled _ := rfl
  goesOn hv := nomatch hv
  waiting hv := nomatch hv
  distinct := List.nodup_nil

/-- A log that is in order, with a connection that is part of it. -/
structure Orderly (log : List Entry) (c : Connection) : Prop where
  final : Final log
  paired : Paired log
  good : Good log c

theorem logged_concat {q : Queue} {r : Record} {seq : Nat} (hn : n ≤ q.events.length) :
    logged log n ⟨seq, q.events ++ [r]⟩ = logged log n q ++ [Entry.record r] := by
  simp [logged, List.drop_append_of_le_length hn]

/-- The three outcomes of a record: none, the gap of an overflow, or the record. -/
theorem emit_cases (d : Option Direction) (event : Event) (hn : n ≤ t.queue.events.length) :
    t.connection.overflowed = true ∧ t.emit cfg d event = t ∨
    (∃ seq, logged log n (t.emit cfg d event).queue = logged log n t.queue ++
        [Entry.record ⟨.gap "event_queue_overflow", some t.connection.epoch, seq, d⟩]) ∧
      (t.emit cfg d event).connection = { t.connection.invalidate with overflowed := true } ∨
    (∃ seq, logged log n (t.emit cfg d event).queue = logged log n t.queue ++
        [Entry.record ⟨event, some t.connection.epoch, seq, d⟩]) ∧
      (t.emit cfg d event).connection = t.connection := by
  cases hover : t.connection.overflowed with
  | true => exact .inl ⟨rfl, emit_of_overflowed hover⟩
  | false =>
    refine .inr ?_
    unfold Tap.emit
    rw [if_neg (by simp [hover])]
    unfold Queue.emit
    dsimp only
    split
    · exact .inl ⟨⟨t.queue.nextSequence + 1, logged_concat hn⟩, rfl⟩
    · exact .inr ⟨⟨t.queue.nextSequence, logged_concat hn⟩, rfl⟩

/-- A connection beside the log, and the place of the log from which the queue has it. -/
structure Tap.Orderly (log : List Entry) (n : Nat) (t : Tap) : Prop where
  place : n ≤ t.queue.events.length
  orderly : Native.Orderly (logged log n t.queue) t.connection

theorem Orderly.concat {entry : Entry} (hfinal : Final log) (hpaired : Paired log)
    (hgood : Good (log ++ [entry]) c)
    (hend : ∀ a ∈ log, a.isEnd = true → a.epoch = entry.epoch → a.epoch ≠ none →
      entry.isEvidence = false)
    (hanswers : ∀ e key method, entry.epoch = some e → entry.answers = some (key, method) →
      (unanswered e log).filter (·.1 = key) = [(key, method)]) :
    Orderly (log ++ [entry]) c :=
  ⟨final_concat.mpr ⟨hfinal, hend⟩, paired_concat.mpr ⟨hpaired, hanswers⟩, hgood⟩

/-- What is no evidence keeps a log in order. -/
theorem Orderly.quiet {entry : Entry} (hfinal : Final log) (hpaired : Paired log)
    (hgood : Good (log ++ [entry]) c) (hevidence : entry.isEvidence = false)
    (hanswers : entry.answers = none) : Orderly (log ++ [entry]) c :=
  .concat hfinal hpaired hgood (fun _ _ _ _ _ => hevidence)
    fun _ _ _ _ h => by rw [hanswers] at h; cases h

theorem emit_orderly {d : Option Direction} {event : Event} (hn : n ≤ t.queue.events.length)
    (hfinal : Final (logged log n t.queue)) (hpaired : Paired (logged log n t.queue))
    (hsame : t.connection.overflowed = true → Orderly (logged log n t.queue) t.connection)
    (hrecord : ∀ seq, Orderly (logged log n t.queue ++
      [Entry.record ⟨event, some t.connection.epoch, seq, d⟩]) t.connection) :
    (t.emit cfg d event).Orderly log n := by
  refine ⟨hn.trans emit_length_mono, ?_⟩
  obtain ⟨hover, heq⟩ | ⟨⟨seq, hlog⟩, hc⟩ | ⟨⟨seq, hlog⟩, hc⟩ :=
    @emit_cases cfg log _ _ d event hn
  · rw [heq]; exact hsame hover
  · rw [hlog, hc]
    exact .quiet hfinal hpaired good_of_invalidated rfl rfl
  · rw [hlog, hc]; exact hrecord seq

namespace Tap

theorem Orderly.emit_plain {d : Option Direction} {event : Event} (h : t.Orderly log n)
    (hend : ∀ seq, (Entry.record ⟨event, some t.connection.epoch, seq, d⟩).isEnd = false)
    (hevidence : t.connection.valid = true ∨
      ∀ seq, (Entry.record ⟨event, some t.connection.epoch, seq, d⟩).isEvidence = false)
    (hasks : ∀ seq, (Entry.record ⟨event, some t.connection.epoch, seq, d⟩).asks = none)
    (hanswers : ∀ seq, (Entry.record ⟨event, some t.connection.epoch, seq, d⟩).answers = none) :
    (t.emit cfg d event).Orderly log n := by
  obtain ⟨hn, hfinal, hpaired, hgood⟩ := h
  refine emit_orderly hn hfinal hpaired (fun _ => ⟨hfinal, hpaired, hgood⟩) fun seq => ?_
  refine .concat hfinal hpaired (hgood.plain (hend seq) (hasks seq) (hanswers seq))
    (fun a ha hend' hepoch _ => ?_) fun _ _ _ _ h => by rw [hanswers seq] at h; cases h
  obtain hv | hevidence := hevidence
  · exact (hgood.goesOn hv a ha hend' hepoch).elim
  · exact hevidence seq

theorem Orderly.invalidate (h : t.Orderly log n) :
    Orderly log n { t with connection := t.connection.invalidate } :=
  ⟨h.place, h.orderly.final, h.orderly.paired, Nat.zero_le _, fun _ => rfl,
    (fun h => nomatch h), (fun h => nomatch h), List.nodup_nil⟩

/-- A gap, on a connection that is not valid any more. -/
theorem Orderly.emit_gap {d : Option Direction} {reason : String} {sizes : Option (Nat × Nat)}
    (h : t.Orderly log n) (hv : t.connection.valid = false) :
    (t.emit cfg d (.gap reason sizes)).Orderly log n := by
  obtain ⟨hn, hfinal, hpaired, hgood⟩ := h
  refine emit_orderly hn hfinal hpaired (fun _ => ⟨hfinal, hpaired, hgood⟩) fun seq => ?_
  refine .quiet hfinal hpaired ⟨hgood.few, hgood.settled, ?_, ?_, hgood.distinct⟩ rfl rfl
  · intro hv'; rw [hv] at hv'; cases hv'
  · intro hv'; rw [hv] at hv'; cases hv'

theorem Orderly.gap {d : Option Direction} {reason : String} {sizes : Option (Nat × Nat)}
    (h : t.Orderly log n) : (t.gap cfg d reason sizes).Orderly log n := by
  unfold Tap.gap
  split
  · exact h.invalidate.emit_gap rfl
  · exact h

end Tap

/-! ## Messages -/

/-- What a message does to the requests that are pending. -/
inductive Exchange (pending : Pending) (d : Direction) : Pending → Event → Prop
  | other (event : Event) (hasks : ∀ e seq, (Entry.record ⟨event, e, seq, d⟩).asks = none)
      (hanswers : ∀ e seq, (Entry.record ⟨event, e, seq, d⟩).answers = none)
      (hend : ∀ e seq, (Entry.record ⟨event, e, seq, d⟩).isEnd = false) :
      Exchange pending d pending event
  | request (id : Id) (method : Text) (event : Event)
      (hasks : ∀ e seq, (Entry.record ⟨event, e, seq, d⟩).asks = some ((d, id), method))
      (hanswers : ∀ e seq, (Entry.record ⟨event, e, seq, d⟩).answers = none)
      (hend : ∀ e seq, (Entry.record ⟨event, e, seq, d⟩).isEnd = false)
      (hroom : pending.length < maxPendingRequests) (hnew : pending.find (d, id) = none) :
      Exchange pending d (pending ++ [((d, id), method)]) event
  | answer (id : Id) (method : Text) (event : Event)
      (hasks : ∀ e seq, (Entry.record ⟨event, e, seq, d⟩).asks = none)
      (hanswers : ∀ e seq,
        (Entry.record ⟨event, e, seq, d⟩).answers = some ((d.opposite, id), method))
      (hend : ∀ e seq, (Entry.record ⟨event, e, seq, d⟩).isEnd = false)
      (hfind : pending.find (d.opposite, id) = some method) :
      Exchange pending d (pending.erase (d.opposite, id)) event

section
variable {pending pending' : Pending} {d : Direction} {fields : Fields} {event : Event}

theorem processRequest_exchange
    (h : processRequest cfg pending d fields = .record pending' event) :
    Exchange pending d pending' event := by
  unfold processRequest at h
  split at h
  next method hmethod =>
    dsimp only at h
    split at h
    · cases h
    split at h
    · cases h
    split at h
    · cases h
    next params hparams =>
      cases hid : (get? fields "id").bind validId with
      | none =>
        simp only [hid] at h
        cases h
        refine .other _ ?_ ?_ ?_ <;> intro e seq <;> split <;> rfl
      | some id =>
        simp only [hid] at h
        split at h
        · cases h
        next hroom =>
          split at h
          · cases h
          next hnew =>
            cases h
            refine .request id method _ ?_ ?_ ?_ (by omega) (by simpa using hnew)
            all_goals intro e seq; split <;> rfl
  next => cases h

theorem processResponse_exchange (h : processResponse pending d fields = .record pending' event) :
    Exchange pending d pending' event := by
  unfold processResponse at h
  split at h
  · cases h
  split at h
  · cases h
  next id hid =>
    split at h
    next hnone =>
      cases h
      exact .other _ (fun _ _ => rfl) (fun _ _ => rfl) fun _ _ => rfl
    next method hfind =>
      dsimp only at h
      split at h
      · cases h
        exact .answer id method _ (fun _ _ => rfl) (fun _ _ => rfl) (fun _ _ => rfl) hfind
      split at h
      · cases h
        exact .answer id method _ (fun _ _ => rfl) (fun _ _ => rfl) (fun _ _ => rfl) hfind
      · cases h
        exact .answer id method _ (fun _ _ => rfl) (fun _ _ => rfl) (fun _ _ => rfl) hfind

theorem processText_exchange {payload : List UInt8}
    (h : processText cfg pending d payload = .record pending' event) :
    Exchange pending d pending' event := by
  unfold processText at h
  split at h
  · cases h
  split at h
  · cases h
  · cases h
  next value _ =>
    unfold processRpc at h
    split at h
    · split at h
      · cases h
      dsimp only at h
      split at h
      · cases h
      split at h
      · exact processRequest_exchange h
      split at h
      · exact processResponse_exchange h
      · cases h
    · cases h

/-- What a message does keeps the pairs. -/
theorem Exchange.good {seq : Nat} (h : Exchange c.pending d pending' event)
    (hgood : Good log c) (hv : c.valid = true) :
    Good (log ++ [Entry.record ⟨event, some c.epoch, seq, d⟩]) { c with pending := pending' } := by
  have hend : (Entry.record ⟨event, some c.epoch, seq, d⟩).isEnd = false := by cases h <;> simp [*]
  have hnote : note c.epoch c.pending (.record ⟨event, some c.epoch, seq, d⟩) = pending' := by
    have hepoch : (Entry.record ⟨event, some c.epoch, seq, d⟩).epoch = some c.epoch := rfl
    unfold note
    rw [if_pos hepoch]
    cases h with
    | other _ hasks hanswers => rw [hasks, hanswers]
    | request id method _ hasks hanswers => rw [hasks]
    | answer id method _ hasks hanswers _ hfind =>
      rw [hasks, hanswers]
      exact pending_eraseP hgood.distinct
  refine ⟨?_, hgood.settled, fun _ entry hentry hend' => ?_, fun _ => ?_, ?_⟩
  · cases h with
    | other => exact hgood.few
    | request _ _ _ _ _ _ hroom => simpa using Nat.succ_le_of_lt hroom
    | answer => exact (List.length_filter_le _ _).trans hgood.few
  · rcases List.mem_append.mp hentry with hentry | hentry
    · exact hgood.goesOn hv entry hentry hend'
    · obtain rfl := List.mem_singleton.mp hentry
      rw [hend] at hend'
      cases hend'
  · rw [unanswered_concat, hgood.waiting hv, hnote]
  · cases h with
    | other => exact hgood.distinct
    | request id method _ _ _ _ _ hnew =>
      have hfresh : (d, id) ∉ c.pending.map (·.1) := pending_find_none hnew
      rw [List.map_append, List.nodup_append]
      refine ⟨hgood.distinct, by simp, fun key hkey key' hkey' heq => hfresh ?_⟩
      obtain rfl := List.mem_singleton.mp hkey'
      have heq : key = (d, id) := heq
      exact heq ▸ hkey
    | answer => exact pending_erase_nodup hgood.distinct

end

theorem Tap.Orderly.message {d : Direction} {payload : List UInt8} (h : t.Orderly log n)
    (hv : t.connection.valid = true) : (t.message cfg d payload).Orderly log n := by
  unfold Tap.message
  split
  · exact h.gap
  next pending event heq =>
    obtain ⟨hn, hfinal, hpaired, hgood⟩ := h
    have hexchange := processText_exchange heq
    have hlive : t.connection.overflowed = true → False := fun hover => by
      rw [hgood.settled hover] at hv
      cases hv
    refine emit_orderly (t := { t with connection := { t.connection with pending := pending } })
      hn hfinal hpaired (fun hover => (hlive hover).elim) fun seq => ?_
    refine .concat hfinal hpaired (hexchange.good hgood hv)
      (fun a ha hend hepoch _ => (hgood.goesOn hv a ha hend hepoch).elim) ?_
    intro e key method hepoch hanswers
    obtain rfl : t.connection.epoch = e := Option.some.inj hepoch
    rw [hgood.waiting hv]
    cases hexchange with
    | other _ _ hnone => rw [hnone] at hanswers; cases hanswers
    | request _ _ _ _ hnone => rw [hnone] at hanswers; cases hanswers
    | answer id method' _ _ hsome _ hfind =>
      rw [hsome] at hanswers
      cases hanswers
      exact pending_filter hgood.distinct hfind

/-- A connection of which nothing but what the log does not concern has changed. -/
theorem Good.same {c' : Connection} (h : Good log c) (hepoch : c'.epoch = c.epoch)
    (hover : c'.overflowed = c.overflowed) (hvalid : c'.valid = true → c.valid = true)
    (hpending : c'.pending = c.pending) : Good log c' where
  few := hpending ▸ h.few
  settled hc := by
    have := h.settled (hover ▸ hc)
    by_contra hv
    rw [hvalid (by simpa using hv)] at this
    cases this
  goesOn hv := hepoch ▸ h.goesOn (hvalid hv)
  waiting hv := by rw [hepoch, hpending]; exact h.waiting (hvalid hv)
  distinct := hpending ▸ h.distinct

namespace Tap

theorem Orderly.set {c' : Connection} (h : t.Orderly log n)
    (hepoch : c'.epoch = t.connection.epoch) (hover : c'.overflowed = t.connection.overflowed)
    (hvalid : c'.valid = true → t.connection.valid = true)
    (hpending : c'.pending = t.connection.pending) :
    Orderly log n { t with connection := c' } :=
  ⟨h.place, h.orderly.final, h.orderly.paired,
    h.orderly.good.same hepoch hover hvalid hpending⟩

theorem Orderly.move {d : Direction} (h : t.Orderly log n) (hmove : Move cfg d t t') :
    t'.Orderly log n := by
  cases hmove with
  | parse c hc => exact h.set hc.epoch hc.overflowed (fun hv => hc.valid ▸ hv) hc.pending
  | gap reason sizes => exact h.gap
  | upgrade hv =>
    exact h.emit_plain (fun _ => rfl) (.inl hv) (fun _ => rfl) fun _ => rfl
  | control opcode hv =>
    exact h.emit_plain (fun _ => rfl) (.inl hv) (fun _ => rfl) fun _ => rfl
  | message payload hv => exact h.message hv

theorem Orderly.feed {d : Direction} {incoming : List UInt8} (h : t.Orderly log n) :
    (t.feed cfg d incoming).Orderly log n :=
  feed_moves.keeps (fun _ _ hmove ht => ht.move hmove) h

theorem Orderly.close (h : t.Orderly log n) : (t.close cfg).Orderly log n := by
  have hgap : (t.closeGap cfg).Orderly log n := by
    unfold Tap.closeGap
    dsimp only
    split
    · exact h
    split
    · exact h.gap
    split
    · exact h.gap
    · exact h
  unfold Tap.close Tap.disconnect
  refine Orderly.emit_plain ?_ (fun _ => rfl) (.inr fun _ => rfl) (fun _ => rfl) fun _ => rfl
  exact hgap.set rfl rfl (fun hv => nomatch hv) rfl

theorem Orderly.reopen (h : t.Orderly log n) : (t.reopen cfg).Orderly log n := by
  unfold Tap.reopen
  refine Orderly.emit_plain ?_ (fun _ => rfl) (.inr fun _ => rfl) (fun _ => rfl) fun _ => rfl
  exact h.gap.set rfl rfl id rfl

/-- What has come to a queue since are records of the connection. -/
structure Own (base : List Record) (e : Nat) (t : Tap) : Prop where
  epoch : t.connection.epoch = e
  added : ∃ new, t.queue.events = base ++ new ∧ ∀ r ∈ new, r.connEpoch = some e

section
variable {base : List Record} {e : Nat}

theorem Own.set {c' : Connection} (h : t.Own base e)
    (hepoch : c'.epoch = t.connection.epoch) : Own base e { t with connection := c' } :=
  ⟨hepoch.trans h.epoch, h.added⟩

theorem Own.emit {d : Option Direction} {event : Event} (h : t.Own base e) :
    (t.emit cfg d event).Own base e := by
  obtain ⟨rfl, new, hevents, hnew⟩ := h
  have hqueue : ∃ new, (t.queue.emit cfg (some t.connection.epoch) d event).1.events =
      base ++ new ∧ ∀ r ∈ new, r.connEpoch = some t.connection.epoch := by
    unfold Queue.emit
    dsimp only
    split
    all_goals
      refine ⟨new ++ [_], by rw [hevents, List.append_assoc], fun r hr => ?_⟩
      rcases List.mem_append.mp hr with hr | hr
      · exact hnew r hr
      · obtain rfl := List.mem_singleton.mp hr
        rfl
  unfold Tap.emit
  split
  · exact ⟨rfl, new, hevents, hnew⟩
  · dsimp only
    split <;> exact ⟨rfl, hqueue⟩

theorem Own.gap {d : Option Direction} {reason : String} {sizes : Option (Nat × Nat)}
    (h : t.Own base e) : (t.gap cfg d reason sizes).Own base e := by
  unfold Tap.gap
  split
  · exact (@Tap.Own.set _ _ _ t.connection.invalidate h rfl).emit
  · exact h

theorem Own.feed {d : Direction} {incoming : List UInt8} (h : t.Own base e) :
    (t.feed cfg d incoming).Own base e :=
  feed_moves.keeps (fun _ _ hmove => hmove.keeps (I := Own base e) (fun _ _ _ => Own.emit)
    fun _ _ hepoch _ _ ht => ht.set hepoch) h

theorem Own.close (h : t.Own base e) : (t.close cfg).Own base e := by
  have hgap : (t.closeGap cfg).Own base e := by
    unfold Tap.closeGap
    dsimp only
    split
    · exact h
    split
    · exact h.gap
    split
    · exact h.gap
    · exact h
  unfold Tap.close Tap.disconnect
  refine Own.emit ?_
  exact hgap.set rfl

theorem Own.reopen (h : t.Own base e) : (t.reopen cfg).Own base e := by
  unfold Tap.reopen
  refine Own.emit ?_
  exact h.gap.set rfl

end
end Tap
end

/-! ## The observer -/

section
variable {κ : Type} {cfg : Config} {o : Observer κ} {log : List Entry} {id : κ}
  {t : Tap} {c : Connection} {entry : Entry} {entries : List Entry}

/-- What holds between an observer and its log. -/
structure Observer.Orderly (log : List Entry) (o : Observer κ) : Prop where
  final : Final log
  paired : Paired log
  good : ∀ p ∈ o.connections, Good log p.2
  seen : ∀ p ∈ o.connections, p.2.epoch ≤ o.maxEpochSeen
  distinct : o.connections.Pairwise fun p p' => p.2.epoch ≠ p'.2.epoch
  recorded : ∀ entry ∈ log, ∀ e, entry.epoch = some e → e ≤ o.maxEpochSeen

theorem Good.frames (h : Good log c) (hne : ∀ entry ∈ entries, entry.epoch ≠ some c.epoch) :
    Good (log ++ entries) c := by
  induction entries generalizing log with
  | nil => simpa using h
  | cons entry entries ih =>
    rw [List.append_cons]
    exact ih (h.frame (hne entry (by simp))) fun entry' h' => hne entry' (by simp [h'])

theorem unanswered_of_none {e : Nat} (h : ∀ entry ∈ log, entry.epoch ≠ some e) :
    unanswered e log = [] := by
  induction log using List.reverseRecOn with
  | nil => rfl
  | append_singleton log entry ih =>
    rw [unanswered_concat, note_of_ne (h entry (by simp)),
      ih fun entry' h' => h entry' (by simp [h'])]

theorem Observer.Orderly.other (h : o.Orderly log) (hc : (id, c) ∈ o.connections)
    {p : κ × Connection} (hp : p ∈ o.connections) (hne : p.1 ≠ id) : c.epoch ≠ p.2.epoch := by
  have : Std.Symm fun p p' : κ × Connection => p.2.epoch ≠ p'.2.epoch :=
    ⟨fun _ _ hab => hab.symm⟩
  exact h.distinct.forall hc hp fun heq => hne (by rw [← heq])

/-- A connection as a call finds it. -/
theorem Observer.Orderly.found (h : o.Orderly log) (hc : (id, c) ∈ o.connections) :
    Tap.Orderly log o.queue.events.length ⟨c, o.queue⟩ := by
  have hlog : logged log o.queue.events.length o.queue = log := by simp [logged]
  refine ⟨le_rfl, ?_⟩
  rw [hlog]
  exact ⟨h.final, h.paired, h.good _ hc⟩

theorem own_refl : Tap.Own o.queue.events c.epoch ⟨c, o.queue⟩ :=
  ⟨rfl, [], by simp, fun _ hr => nomatch hr⟩

/-- What is said of no connection keeps a log in order. -/
theorem Observer.Orderly.concat (h : o.Orderly log) {q : Queue} (hepoch : entry.epoch = none)
    (hanswers : entry.answers = none) :
    Observer.Orderly (log ++ [entry]) { o with queue := q } := by
  refine ⟨final_concat.mpr ⟨h.final, fun a _ _ heq hne => ?_⟩,
    paired_concat.mpr ⟨h.paired, fun _ _ _ _ hans => ?_⟩, fun p hp => ?_, h.seen, h.distinct,
    fun entry' hentry e he => ?_⟩
  · exact (hne (heq.trans hepoch)).elim
  · rw [hanswers] at hans; cases hans
  · exact (h.good p hp).frame fun heq => by rw [hepoch] at heq; cases heq
  · rcases List.mem_append.mp hentry with hentry | hentry
    · exact h.recorded entry' hentry e he
    · obtain rfl := List.mem_singleton.mp hentry
      rw [hepoch] at he
      cases he

theorem unknown_orderly {d : Option Direction} (h : o.Orderly log) :
    (o.unknownConnection cfg d).Orderly
      (logged log o.queue.events.length (o.unknownConnection cfg d).queue) := by
  have hlog (seq : Nat) (r : Record) : logged log o.queue.events.length
      ⟨seq, o.queue.events ++ [r]⟩ = log ++ [Entry.record r] := by
    rw [logged_concat le_rfl]
    simp [logged]
  unfold Observer.unknownConnection Queue.emit
  dsimp only
  split
  · rw [hlog]; exact h.concat rfl rfl
  · rw [hlog]; exact h.concat rfl rfl

variable [DecidableEq κ]

/-- A connection that is put back, after what it has recorded. -/
theorem Observer.Orderly.put (h : o.Orderly log) (hc : (id, c) ∈ o.connections)
    (hepoch : t.connection.epoch = c.epoch) (hgood : Good (log ++ entries) t.connection)
    (hfinal : Final (log ++ entries)) (hpaired : Paired (log ++ entries))
    (hown : ∀ entry ∈ entries, entry.epoch = some c.epoch) :
    (o.putTap id t).Orderly (log ++ entries) := by
  refine ⟨hfinal, hpaired, fun p hp => ?_, fun p hp => ?_, ?_, fun entry hentry e he => ?_⟩
  · rcases List.mem_cons.mp hp with rfl | hp
    · exact hgood
    · obtain ⟨hp, hne⟩ := List.mem_filter.mp hp
      refine (h.good p hp).frames fun entry hentry heq => ?_
      rw [hown entry hentry] at heq
      exact h.other hc hp (by simpa using hne) (Option.some.inj heq)
  · rcases List.mem_cons.mp hp with rfl | hp
    · exact hepoch ▸ h.seen _ hc
    · exact h.seen p (List.mem_of_mem_filter hp)
  · refine List.pairwise_cons.mpr ⟨fun p hp => ?_, h.distinct.filter _⟩
    obtain ⟨hp, hne⟩ := List.mem_filter.mp hp
    rw [hepoch]
    exact h.other hc hp (by simpa using hne)
  · rcases List.mem_append.mp hentry with hentry | hentry
    · exact h.recorded entry hentry e he
    · rw [hown entry hentry] at he
      obtain rfl := Option.some.inj he
      exact h.seen _ hc

/-- What a connection does. -/
theorem Observer.Orderly.tap (h : o.Orderly log) (hc : (id, c) ∈ o.connections)
    (ht : t.Orderly log o.queue.events.length) (hown : t.Own o.queue.events c.epoch) :
    (o.putTap id t).Orderly (logged log o.queue.events.length t.queue) := by
  obtain ⟨hepoch, new, hevents, hnew⟩ := hown
  refine h.put hc hepoch ht.orderly.good ht.orderly.final ht.orderly.paired fun entry hentry => ?_
  obtain ⟨r, hr, rfl⟩ := List.mem_map.mp hentry
  rw [hevents, List.drop_left] at hr
  exact hnew r hr

theorem Observer.Orderly.get? (h : o.Orderly log) (hc : o.get? id = some c) :
    (id, c) ∈ o.connections ∧ Tap.Orderly log o.queue.events.length ⟨c, o.queue⟩ :=
  ⟨mem_of_get? hc, h.found (mem_of_get? hc)⟩

/-- The queue once the connection that had the id is closed. -/
theorem reopened_orderly (h : o.Orderly log) : ∃ new : List Record,
    (o.reopened cfg id).events = o.queue.events ++ new ∧
    Final (log ++ new.map .record) ∧ Paired (log ++ new.map .record) ∧
    (∀ p ∈ o.connections, p.1 ≠ id → Good (log ++ new.map .record) p.2) ∧
    ∀ entry ∈ log ++ new.map .record, ∀ e, entry.epoch = some e → e ≤ o.maxEpochSeen := by
  have hsame : ∃ new : List Record, o.queue.events = o.queue.events ++ new ∧
      Final (log ++ new.map .record) ∧ Paired (log ++ new.map .record) ∧
      (∀ p ∈ o.connections, p.1 ≠ id → Good (log ++ new.map .record) p.2) ∧
      ∀ entry ∈ log ++ new.map .record, ∀ e, entry.epoch = some e → e ≤ o.maxEpochSeen := by
    refine ⟨[], by simp, ?_⟩
    simpa using ⟨h.final, h.paired, fun a b hab _ => h.good (a, b) hab, h.recorded⟩
  unfold Observer.reopened
  split
  · exact hsame
  next old hold =>
    split
    · exact hsame
    obtain ⟨hmem, hfound⟩ := h.get? hold
    obtain ⟨hepoch, new, hevents, hnew⟩ := @Tap.Own.reopen cfg _ _ _ (@own_refl _ o old)
    have horderly := (@Tap.Orderly.reopen cfg _ _ _ hfound).orderly
    have hlog : logged log o.queue.events.length (Tap.reopen cfg ⟨old, o.queue⟩).queue =
        log ++ new.map .record := by
      rw [logged, hevents, List.drop_left]
    rw [hlog] at horderly
    have hown (entry : Entry) (hentry : entry ∈ new.map Entry.record) :
        entry.epoch = some old.epoch := by
      obtain ⟨r, hr, rfl⟩ := List.mem_map.mp hentry
      exact hnew r hr
    refine ⟨new, hevents, horderly.final, horderly.paired, fun p hp hne => ?_,
      fun entry hentry e he => ?_⟩
    · refine (h.good p hp).frames fun entry hentry heq => ?_
      rw [hown entry hentry] at heq
      exact h.other hmem hp hne (Option.some.inj heq)
    · rcases List.mem_append.mp hentry with hentry | hentry
      · exact h.recorded entry hentry e he
      · rw [hown entry hentry] at he
        obtain rfl := Option.some.inj he
        exact h.seen _ hmem

omit [DecidableEq κ] in
theorem epochFor_fresh {epoch : Option Int} {e : Nat} (he : o.epochFor epoch = some e) :
    o.maxEpochSeen < e := by
  unfold Observer.epochFor at he
  dsimp only at he
  rw [Option.ite_none_right_eq_some] at he
  exact Option.some.inj he.2 ▸ he.1

/-- The first record of a connection whose epoch nothing has been recorded for. -/
theorem opened_orderly {new : List Record} {e : Nat}
    (hevents : (o.reopened cfg id).events = o.queue.events ++ new)
    (hfinal : Final (log ++ new.map .record)) (hpaired : Paired (log ++ new.map .record))
    (hfresh : ∀ entry ∈ log ++ new.map Entry.record, entry.epoch ≠ some e) :
    Tap.Orderly log o.queue.events.length
      (Tap.emit cfg ⟨{ epoch := e }, o.reopened cfg id⟩ none .connectionOpen) := by
  have hlog : logged log o.queue.events.length (o.reopened cfg id) = log ++ new.map .record := by
    rw [logged, hevents, List.drop_left]
  have hplace : o.queue.events.length ≤ (o.reopened cfg id).events.length := by
    rw [hevents]
    simp
  have hstart : Tap.Orderly log o.queue.events.length ⟨{ epoch := e }, o.reopened cfg id⟩ := by
    refine ⟨hplace, ?_⟩
    rw [hlog]
    exact ⟨hfinal, hpaired, Nat.zero_le _, (fun hover => nomatch hover),
      fun _ entry hentry _ => hfresh entry hentry,
      fun _ => unanswered_of_none hfresh, List.nodup_nil⟩
  exact hstart.emit_plain (fun _ => rfl) (.inl rfl) (fun _ => rfl) fun _ => rfl

theorem openConnection_orderly {epoch : Option Int} (h : o.Orderly log) :
    (o.openConnection cfg id epoch).Orderly
      (logged log o.queue.events.length (o.openConnection cfg id epoch).queue) := by
  unfold Observer.openConnection
  split
  · have hlog : logged log o.queue.events.length o.queue = log := by simp [logged]
    rw [hlog]
    exact h
  next e he =>
    have hlt := epochFor_fresh he
    obtain ⟨new, hevents, hfinal, hpaired, hgood, hrecorded⟩ := @reopened_orderly _ cfg _ _ id _ h
    have hopened := opened_orderly hevents hfinal hpaired fun entry hentry heq => by
      have := hrecorded entry hentry e heq
      omega
    obtain ⟨hepoch, more, hmore, hown⟩ : Tap.Own (o.reopened cfg id).events e
        (Tap.emit cfg ⟨{ epoch := e }, o.reopened cfg id⟩ none .connectionOpen) :=
      Tap.Own.emit ⟨rfl, [], by simp, fun _ hr => nomatch hr⟩
    generalize Tap.emit cfg ⟨{ epoch := e }, o.reopened cfg id⟩ none .connectionOpen = t at *
    have hall : logged log o.queue.events.length t.queue =
        (log ++ new.map .record) ++ more.map .record := by
      rw [logged, hmore, hevents, List.append_assoc, List.drop_left, List.map_append,
        List.append_assoc]
    have hmoreEpoch (entry : Entry) (hentry : entry ∈ more.map Entry.record) :
        entry.epoch = some e := by
      obtain ⟨r, hr, rfl⟩ := List.mem_map.mp hentry
      exact hown r hr
    have horderly := hopened.orderly
    change Observer.Orderly (logged log o.queue.events.length t.queue) _
    rw [hall] at horderly ⊢
    refine ⟨horderly.final, horderly.paired, fun p hp => ?_, fun p hp => ?_, ?_,
      fun entry hentry e' he' => ?_⟩
    · rcases List.mem_cons.mp hp with rfl | hp
      · exact horderly.good
      · obtain ⟨hp, hne⟩ := List.mem_filter.mp hp
        refine (hgood p hp (by simpa using hne)).frames fun entry hentry heq => ?_
        rw [hmoreEpoch entry hentry] at heq
        have := h.seen p hp
        have := Option.some.inj heq
        omega
    · rcases List.mem_cons.mp hp with rfl | hp
      · exact hepoch.le
      · exact (h.seen p (List.mem_of_mem_filter hp)).trans hlt.le
    · refine List.pairwise_cons.mpr ⟨fun p hp => ?_, h.distinct.filter _⟩
      have := h.seen p (List.mem_of_mem_filter hp)
      dsimp only
      omega
    · rcases List.mem_append.mp hentry with hentry | hentry
      · exact (hrecorded entry hentry e' he').trans hlt.le
      · rw [hmoreEpoch entry hentry] at he'
        exact (Option.some.inj he').ge

theorem step_orderly {h : History κ} (ho : h.observer.Orderly h.log) (call : Call κ) :
    (h.step cfg call).observer.Orderly (h.step cfg call).log := by
  obtain ⟨o, log⟩ := h
  cases call with
  | openConnection id epoch => exact openConnection_orderly ho
  | setPending id =>
    change (o.setPending id).Orderly (log ++ o.entries cfg (.setPending id))
    unfold Observer.setPending Observer.entries
    dsimp only
    cases hc : o.get? id with
    | none => simpa using ho
    | some c =>
      dsimp only
      split
      · simpa using ho
      have hgood := ho.good _ (mem_of_get? hc)
      refine ho.put (t := ⟨{ c with state := .pending, valid := false }, o.queue⟩)
        (mem_of_get? hc) rfl ⟨hgood.few, (fun _ => rfl), (fun hv => nomatch hv),
          (fun hv => nomatch hv), hgood.distinct⟩ ?_ ?_ (by simp [Entry.epoch])
      · exact final_concat.mpr ⟨ho.final, fun _ _ _ _ _ => rfl⟩
      · exact paired_concat.mpr ⟨ho.paired, fun _ _ _ _ hans => nomatch hans⟩
  | feed id direction data =>
    change (o.feed cfg id direction data).Orderly
      (logged log o.queue.events.length (o.feed cfg id direction data).queue)
    unfold Observer.feed
    split
    · exact unknown_orderly ho
    next c hc =>
      obtain ⟨hmem, hfound⟩ := ho.get? hc
      split
      · exact unknown_orderly ho
      split
      · exact ho.tap hmem hfound.gap own_refl.gap
      · exact ho.tap hmem hfound.gap own_refl.gap
      · exact ho.tap hmem hfound.feed own_refl.feed
  | close id =>
    change (o.close cfg id).Orderly (logged log o.queue.events.length (o.close cfg id).queue)
    unfold Observer.close
    split
    · exact unknown_orderly ho
    next c hc =>
      obtain ⟨hmem, hfound⟩ := ho.get? hc
      split
      · have hlog : logged log o.queue.events.length o.queue = log := by simp [logged]
        rw [hlog]
        exact ho
      · exact ho.tap hmem hfound.close own_refl.close
  | drainEvents =>
    change o.drainEvents.Orderly (log ++ [])
    rw [List.append_nil]
    exact ⟨ho.final, ho.paired, ho.good, ho.seen, ho.distinct, ho.recorded⟩

/-- In every run nothing that attachment is concluded from is recorded of an epoch behind a gap
of it, or behind the call that silenced it; every answer has exactly one request before it that
was not answered yet; and no more than 256 requests are pending on a connection. -/
theorem gaps_final_responses_paired (cfg : Config) (calls : List (Call κ)) :
    let h := run (History.step cfg) ({} : History κ) calls
    Final h.log ∧ Paired h.log ∧
      ∀ p ∈ h.observer.connections, p.2.pending.length ≤ maxPendingRequests := by
  have hstart : ({} : History κ).observer.Orderly ({} : History κ).log :=
    ⟨.nil, fun before _ _ heq => by simp at heq, (fun _ hp => nomatch hp),
      (fun _ hp => nomatch hp), .nil, (fun _ hentry => nomatch hentry)⟩
  have h := @run_invariant _ _ _ _ calls (fun h : History κ => h.observer.Orderly h.log)
    hstart fun _ call ho => @step_orderly _ cfg _ _ ho call
  exact ⟨h.final, h.paired, fun p hp => (h.good p hp).few⟩

end
end Orchestrator.Native
