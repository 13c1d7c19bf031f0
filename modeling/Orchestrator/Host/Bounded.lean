import Orchestrator.Host.Lines
import Mathlib.Data.List.TakeWhile

/-!
# What the limit on lines costs

A collector that returns an answer has dropped some lines unseen. The reference reads them too,
and returns the same answer if and only if they could be disposed of.
-/
namespace Orchestrator.Host
open Adapter

/-! ## What records add up to -/

/-- The sessions that records name are one. -/
def Agree (es : List Adapter.Event) : Prop :=
  ∀ e ∈ es, ∀ e' ∈ es, e.sessionId ≠ "" → e'.sessionId ≠ "" → e.sessionId = e'.sessionId

/-- The texts of the messages. -/
def texts : List Adapter.Event → String
  | [] => ""
  | e :: es => (if e.kind = .message then e.text else "") ++ texts es

section
variable {provider : Provider} {es es' : List Adapter.Event} {e : Adapter.Event} {a a' : Answer}

theorem texts_append : texts (es ++ es') = texts es ++ texts es' := by
  induction es with
  | nil => simp [texts]
  | cons e es ih => simp [texts, ih, String.append_assoc]

theorem takeSession_sessionId :
    (a.takeSession provider e).sessionId =
      if e.sessionId ≠ "" then e.sessionId else a.sessionId := by
  unfold Answer.takeSession
  split <;> rfl

theorem takeSession_rest : (a.takeSession provider e).terminal = a.terminal ∧
    (a.takeSession provider e).message = a.message := by
  unfold Answer.takeSession
  split <;> exact ⟨rfl, rfl⟩

/-- The checks before the session is taken, for the providers that have one only. -/
theorem refuses_eq_none (hne : provider ≠ .codex) : a.refuses provider e = none ↔
    (e.sessionId ≠ "" → a.sessionId ≠ "" → a.sessionId = e.sessionId) := by
  unfold Answer.refuses
  split
  next h => exact ⟨nofun, fun hsame => (h.2.2 (hsame h.1 h.2.1)).elim⟩
  next h =>
    refine ⟨fun _ hid hid' => ?_, fun _ => rfl⟩
    by_contra hdiff
    exact h ⟨hid, hid', hdiff⟩

/-- An accepted record names the session there is, if it names one. -/
theorem accepts_session (h : a.accepts provider e = some a') :
    a'.sessionId = (if e.sessionId ≠ "" then e.sessionId else a.sessionId) ∧
      (e.sessionId ≠ "" → a.sessionId ≠ "" → a.sessionId = e.sessionId) := by
  unfold Answer.accepts at h
  split at h
  next hr =>
    split at h
    next hrecord =>
      cases h
      constructor
      · rw [← @takeSession_sessionId provider]
        unfold Answer.record
        repeat' split
        all_goals rfl
      · intro hid hid'
        by_contra hdiff
        simp [Answer.refuses, hid, hid', hdiff] at hr
    next => cases h
  next => cases h

theorem sums_session (h : accepted provider es = some a) :
    (∀ e ∈ es, e.sessionId = "" ∨ e.sessionId = a.sessionId) ∧
      (a.sessionId ≠ "" → ∃ e ∈ es, e.sessionId = a.sessionId) := by
  induction es using List.reverseRecOn generalizing a with
  | nil =>
    cases h
    exact ⟨by simp, fun h => (h rfl).elim⟩
  | append_singleton es e ih =>
    rw [accepted_concat, Option.bind_eq_some_iff] at h
    obtain ⟨b, hb, haccepts⟩ := h
    obtain ⟨hsession, hnamed⟩ := ih hb
    obtain ⟨hid, hsame⟩ := accepts_session haccepts
    constructor
    · intro e' he'
      rcases List.mem_append.mp he' with he' | he'
      · obtain hnone | heq := hsession e' he'
        · exact .inl hnone
        · by_cases hempty : e.sessionId = ""
          · exact .inr (by rw [hid, if_neg (not_not.mpr hempty), heq])
          · by_cases hb' : b.sessionId = ""
            · exact .inl (heq.trans hb')
            · exact .inr (by rw [hid, if_pos hempty, heq, hsame hempty hb'])
      · obtain rfl := List.mem_singleton.mp he'
        by_cases hempty : e'.sessionId = ""
        · exact .inl hempty
        · exact .inr (by rw [hid, if_pos hempty])
    · intro hne
      by_cases hempty : e.sessionId = ""
      · rw [hid, if_neg (not_not.mpr hempty)] at hne ⊢
        obtain ⟨e', he', heq⟩ := hnamed hne
        exact ⟨e', List.mem_append_left _ he', heq⟩
      · exact ⟨e, by simp, by rw [hid, if_pos hempty]⟩

/-- When the rest of `accept` meets no error. -/
theorem record_ok (hne : provider ≠ .codex) : (a.record provider e).2 = none ↔
    (isTerminal e = true → a.terminal = none) ∧ (provider = .grok → texts [e] ≠ "" →
      a.message.utf8ByteSize + (texts [e]).utf8ByteSize ≤ providerEventLimit) := by
  obtain ⟨kind, session, status, text⟩ := e
  cases provider with
  | codex => exact (hne rfl).elim
  | claude | agy =>
    cases kind <;> simp [Answer.record, isTerminal] <;> split <;> simp_all
  | grok =>
    cases kind with
    | message =>
      by_cases htext : text = ""
      · simp [Answer.record, isTerminal, texts, htext]
      · by_cases hfits : a.message.utf8ByteSize + text.utf8ByteSize > providerEventLimit
        · simp [Answer.record, isTerminal, texts, htext, hfits]
        · have hle := Nat.le_of_not_gt hfits
          simp [Answer.record, isTerminal, texts, htext, hle, Nat.not_lt.mpr hle]
    | result | question => simp [Answer.record, isTerminal, texts]; split <;> simp_all
    | init | progress | diagnostic | unknown => simp [Answer.record, isTerminal, texts]

/-- What an accepted record adds. -/
theorem record_adds (hne : provider ≠ .codex) (h : (a.record provider e).2 = none) :
    (a.record provider e).1.terminal.toList = a.terminal.toList ++ [e].filter isTerminal ∧
      (provider = .grok → (a.record provider e).1.message = a.message ++ texts [e]) := by
  have hok := (record_ok hne).mp h
  obtain ⟨kind, session, status, text⟩ := e
  cases provider with
  | codex => exact (hne rfl).elim
  | claude | agy => cases kind <;> simp_all [Answer.record, isTerminal]
  | grok =>
    cases kind with
    | message =>
      by_cases htext : text = ""
      · simp [Answer.record, isTerminal, texts, htext]
      · have hfits : ¬ a.message.utf8ByteSize + text.utf8ByteSize > providerEventLimit := by
          simpa [texts, htext] using hok.2 rfl
        simp [Answer.record, isTerminal, texts, htext, hfits]
    | result | question => simp_all [Answer.record, isTerminal, texts]
    | init | progress | diagnostic | unknown => simp [Answer.record, isTerminal, texts]

theorem accepts_eq_some : a.accepts provider e = some a' ↔ a.refuses provider e = none ∧
    ((a.takeSession provider e).record provider e).2 = none ∧
    ((a.takeSession provider e).record provider e).1 = a' := by
  unfold Answer.accepts
  split
  next hr =>
    split
    next hrecord => simp [hr, hrecord]
    next hrecord => simp [hrecord]
  next hr => simp [hr]

theorem accepted_sums (hne : provider ≠ .codex) (h : accepted provider es = some a) :
    es.filter isTerminal = a.terminal.toList ∧ (provider = .grok →
      a.message = texts es ∧ (texts es).utf8ByteSize ≤ providerEventLimit) := by
  induction es using List.reverseRecOn generalizing a with
  | nil =>
    cases h
    exact ⟨rfl, fun _ => ⟨rfl, by simp [texts]⟩⟩
  | append_singleton es e ih =>
    rw [accepted_concat, Option.bind_eq_some_iff] at h
    obtain ⟨b, hb, haccepts⟩ := h
    obtain ⟨hterminals, hmessages⟩ := ih hb
    obtain ⟨-, hok, rfl⟩ := accepts_eq_some.mp haccepts
    obtain ⟨hterminal, hmessage⟩ := @takeSession_rest provider e b
    obtain ⟨hadds, hspeaks⟩ := record_adds hne hok
    constructor
    · rw [List.filter_append, hterminals, hadds, hterminal]
    · intro hgrok
      obtain ⟨heq, hfits⟩ := hmessages hgrok
      refine ⟨by rw [hspeaks hgrok, hmessage, heq, texts_append], ?_⟩
      rw [texts_append, String.utf8ByteSize_append]
      by_cases hempty : texts [e] = ""
      · simpa [hempty] using hfits
      · have hroom := ((record_ok hne).mp hok).2 hgrok hempty
        rwa [hmessage, heq] at hroom

/-- Records of one session, with one terminal record, that fit are accepted. -/
theorem accepted_of (hne : provider ≠ .codex) (hagree : Agree es)
    (hone : (es.filter isTerminal).length ≤ 1)
    (hfits : provider = .grok → (texts es).utf8ByteSize ≤ providerEventLimit) :
    ∃ a, accepted provider es = some a := by
  induction es using List.reverseRecOn with
  | nil => exact ⟨_, rfl⟩
  | append_singleton es e ih =>
    rw [List.filter_append, List.length_append] at hone
    simp only [texts_append, String.utf8ByteSize_append] at hfits
    have hbefore : Agree es := fun e₁ he₁ e₂ he₂ =>
      hagree e₁ (List.mem_append_left _ he₁) e₂ (List.mem_append_left _ he₂)
    obtain ⟨b, hb⟩ := ih hbefore (by omega) fun hgrok => by have := hfits hgrok; omega
    obtain ⟨hterminals, hmessages⟩ := accepted_sums hne hb
    obtain ⟨hterminal, hmessage⟩ := @takeSession_rest provider e b
    rw [accepted_concat, hb]
    refine ⟨_, accepts_eq_some.mpr ⟨?_, ?_, rfl⟩⟩
    · refine (refuses_eq_none hne).mpr fun hid hid' => ?_
      obtain ⟨e', he', heq⟩ := (sums_session hb).2 hid'
      rw [← heq]
      exact hagree e' (List.mem_append_left _ he') e (by simp) (heq ▸ hid') hid
    · refine (record_ok hne).mpr ⟨fun hterm => ?_, fun hgrok _ => ?_⟩
      · rw [hterminal]
        simp only [hterminals, List.filter_cons, hterm, if_true, List.filter_nil,
          List.length_singleton] at hone
        cases hb : b.terminal with
        | none => rfl
        | some t => simp [hb] at hone
      · rw [hmessage, (hmessages hgrok).1]
        exact hfits hgrok

end

/-! ## Dropped lines -/

section
variable {provider : Provider} {lines : List Line}

def events (provider : Provider) (lines : List Line) : List Adapter.Event :=
  lines.filterMap (Line.event provider)

def keptLines (provider : Provider) (lines : List Line) : List Line :=
  lines.filter fun l => !l.dropped provider

/-- No dropped line was a record that could not be parsed, a terminal record, or one of another
session; and a message among them was empty, or not needed, as the terminal record has a text,
and fits with the others. -/
structure Disposable (provider : Provider) (lines : List Line) : Prop where
  inert : ∀ l ∈ lines, l.dropped provider = true → ∀ record, l.record provider = some record →
    ∃ e, record = .ok e ∧ isTerminal e = false
  agree : Agree (events provider lines)
  fits : provider = .grok →
    (texts (events provider lines)).utf8ByteSize ≤ providerEventLimit
  heard : provider = .grok → (∀ e ∈ events provider lines, isTerminal e = true → e.text = "") →
    ∀ l ∈ lines, l.dropped provider = true → ∀ e, l.event provider = some e →
      e.kind = .message → e.text = ""

theorem events_cons_some {l : Line} {e : Adapter.Event} (h : l.event provider = some e) :
    events provider (l :: lines) = e :: events provider lines :=
  List.filterMap_cons_some h

theorem events_cons_none {l : Line} (h : l.event provider = none) :
    events provider (l :: lines) = events provider lines :=
  List.filterMap_cons_none h

def droppedLines (provider : Provider) (lines : List Line) : List Line :=
  lines.filter fun l => l.dropped provider

/-- A measure that adds up over records is shared out between the kept lines and the dropped. -/
theorem shared_out (f : List Adapter.Event → Nat) (hnil : f [] = 0)
    (hcons : ∀ e es, f (e :: es) = f [e] + f es) : f (events provider lines) =
    f (events provider (keptLines provider lines)) +
      f (events provider (droppedLines provider lines)) := by
  induction lines with
  | nil => simp [events, keptLines, droppedLines, hnil]
  | cons l lines ih =>
    cases hd : l.dropped provider with
    | true =>
      rw [keptLines, List.filter_cons_of_neg (by simp [hd]), droppedLines,
        List.filter_cons_of_pos (by simp [hd])]
      cases he : l.event provider with
      | none => rw [events_cons_none he, events_cons_none he]; exact ih
      | some e =>
        rw [events_cons_some he, events_cons_some he, hcons, hcons e (events _ (List.filter _ _)),
          ih]
        simp only [keptLines, droppedLines]
        omega
    | false =>
      rw [keptLines, List.filter_cons_of_pos (by simp [hd]), droppedLines,
        List.filter_cons_of_neg (by simp [hd])]
      cases he : l.event provider with
      | none => rw [events_cons_none he, events_cons_none he]; exact ih
      | some e =>
        rw [events_cons_some he, events_cons_some he, hcons, hcons e (events _ (List.filter _ _)),
          ih]
        simp only [keptLines, droppedLines]
        omega

theorem terminals_shared : ((events provider lines).filter isTerminal).length =
    ((events provider (keptLines provider lines)).filter isTerminal).length +
      ((events provider (droppedLines provider lines)).filter isTerminal).length :=
  shared_out (fun es => (es.filter isTerminal).length) rfl fun e es => by
    simp only [List.filter_cons, List.filter_nil]
    split <;> simp [Nat.add_comm]

theorem texts_shared : (texts (events provider lines)).utf8ByteSize =
    (texts (events provider (keptLines provider lines))).utf8ByteSize +
      (texts (events provider (droppedLines provider lines))).utf8ByteSize :=
  shared_out (fun es => (texts es).utf8ByteSize) (by simp [texts]) fun e es => by
    simp [texts, String.utf8ByteSize_append]

/-- What records yield one after the other is what the kept yield, where the dropped add
nothing. -/
theorem kept_only {β : Type} (f : List Adapter.Event → β) (g : Adapter.Event → β → β)
    (hcons : ∀ e es, f (e :: es) = g e (f es))
    (h : ∀ l ∈ lines, l.dropped provider = true → ∀ e, l.event provider = some e →
      ∀ y, g e y = y) :
    f (events provider lines) = f (events provider (keptLines provider lines)) := by
  induction lines with
  | nil => rfl
  | cons l lines ih =>
    have ih := ih fun l' hl' => h l' (List.mem_cons_of_mem _ hl')
    have hl := h l (by simp)
    cases hd : l.dropped provider with
    | true =>
      rw [keptLines, List.filter_cons_of_neg (by simp [hd])]
      cases he : l.event provider with
      | none => rw [events_cons_none he]; exact ih
      | some e => rw [events_cons_some he, hcons, hl hd e he]; exact ih
    | false =>
      rw [keptLines, List.filter_cons_of_pos (by simp [hd])]
      cases he : l.event provider with
      | none => rw [events_cons_none he, events_cons_none he]; exact ih
      | some e =>
        rw [events_cons_some he, events_cons_some he, hcons, hcons]
        exact congrArg (g e) ih

/-- Where nothing dropped is a terminal record, the terminal records are those of the kept. -/
theorem terminals_kept (h : ∀ l ∈ lines, l.dropped provider = true →
    ∀ e, l.event provider = some e → isTerminal e = false) :
    (events provider lines).filter isTerminal =
      (events provider (keptLines provider lines)).filter isTerminal :=
  kept_only (·.filter isTerminal) (fun e es => if isTerminal e then e :: es else es)
    (fun _ _ => List.filter_cons) fun l hl hd e he y => by simp [h l hl hd e he]

/-- Where no dropped message says anything, the texts are those of the kept. -/
theorem texts_kept (h : ∀ l ∈ lines, l.dropped provider = true →
    ∀ e, l.event provider = some e → e.kind = .message → e.text = "") :
    texts (events provider lines) = texts (events provider (keptLines provider lines)) :=
  kept_only texts (fun e text => (if e.kind = .message then e.text else "") ++ text)
    (fun _ _ => rfl) fun l hl hd e he y => by
      split
      next hm => rw [h l hl hd e he hm, String.empty_append]
      next => exact String.empty_append

theorem text_of_texts {es : List Adapter.Event} (h : texts es = "") {e : Adapter.Event}
    (he : e ∈ es) (hm : e.kind = .message) : e.text = "" := by
  induction es with
  | nil => cases he
  | cons e' es ih =>
    rw [texts, String.append_eq_empty_iff] at h
    rcases List.mem_cons.mp he with rfl | he
    · simpa [hm] using h.1
    · exact ih h.2 he

theorem event_eq_some {l : Line} {e : Adapter.Event} :
    l.event provider = some e ↔ l.record provider = some (.ok e) := by
  unfold Line.event
  cases l.record provider with
  | none => simp
  | some record => cases record <;> simp [Except.toOption]

theorem mem_events {l : Line} (hl : l ∈ lines) {e : Adapter.Event}
    (he : l.event provider = some e) : e ∈ events provider lines :=
  List.mem_filterMap.mpr ⟨l, hl, he⟩

theorem kept_events_subset {e : Adapter.Event}
    (he : e ∈ events provider (keptLines provider lines)) : e ∈ events provider lines := by
  obtain ⟨l, hl, he⟩ := List.mem_filterMap.mp he
  exact mem_events (List.mem_of_mem_filter hl) he

end

/-! ## Structured records -/

section
variable {bs chunk : List UInt8} {b : Buffer}

theorem trimLeft_cons_space {a : UInt8} (h : isSpaceByte a = true) :
    trimLeft (a :: bs) = trimLeft bs := by
  cases bs with
  | nil => simp [trimLeft, h]
  | cons c bs => cases bs <;> simp [trimLeft, h]

theorem trimLeft_of_spaces (h : bs.all isSpaceByte = true) : trimLeft bs = [] := by
  induction bs with
  | nil => rfl
  | cons a bs ih =>
    simp only [List.all_cons, Bool.and_eq_true] at h
    rw [trimLeft_cons_space h.1, ih h.2]

theorem trimLeft_of_brace (h : (bs.dropWhile isSpaceByte).head? = some 0x7B) :
    (trimLeft bs).head? = some 0x7B := by
  induction bs with
  | nil => cases h
  | cons a bs ih =>
    cases ha : isSpaceByte a with
    | true =>
      rw [trimLeft_cons_space ha]
      exact ih (by simpa [List.dropWhile_cons, ha] using h)
    | false =>
      obtain rfl : a = 0x7B := by simpa [List.dropWhile_cons, ha] using h
      cases bs with
      | nil => simp [trimLeft, ha]
      | cons c bs => cases bs <;> simp [trimLeft, ha, isSpacePair, isSpaceTriple]

/-- White space of several bytes comes before the brace, or none. -/
theorem opensObject_cases (h : opensObject bs = true) :
    (bs.dropWhile isSpaceByte).head? = some 0x7B ∨
      ∃ a, (bs.dropWhile isSpaceByte).head? = some a ∧ 0x80 ≤ a.toNat := by
  induction bs with
  | nil => cases h
  | cons a bs ih =>
    cases ha : isSpaceByte a with
    | true =>
      rw [opensObject, trimLeft_cons_space ha] at h
      simpa [List.dropWhile_cons, ha] using ih h
    | false =>
      simp only [List.dropWhile_cons, ha, Bool.false_eq_true, if_false, List.head?_cons]
      by_cases hbrace : a = 0x7B
      · exact .inl (by rw [hbrace])
      · refine .inr ⟨a, rfl, ?_⟩
        cases bs with
        | nil => simp [opensObject, trimLeft, ha, hbrace] at h
        | cons c bs =>
          by_cases hpair : isSpacePair a c = true
          · simp only [isSpacePair, Bool.and_eq_true, decide_eq_true_eq] at hpair
            rw [hpair.1]
            decide
          · cases bs with
            | nil => simp [opensObject, trimLeft, ha, hbrace, hpair] at h
            | cons d bs =>
              by_cases htriple : isSpaceTriple a c d = true
              · simp only [isSpaceTriple, Bool.or_eq_true, Bool.and_eq_true,
                  decide_eq_true_eq] at htriple
                obtain ((⟨⟨rfl, -⟩, -⟩ | ⟨⟨rfl, -⟩, -⟩) | ⟨⟨rfl, -⟩, -⟩) | ⟨⟨rfl, -⟩, -⟩ := htriple
                  <;> decide
              · simp [opensObject, trimLeft, ha, hbrace, hpair, htriple] at h

/-- What the chunks of a line have shown. -/
structure Shown (bytes : List UInt8) (b : Buffer) : Prop where
  nothing : bytes.all isSpaceByte = true → b.contentObserved = false
  brace : (bytes.dropWhile isSpaceByte).head? = some 0x7B →
    b.contentObserved = true ∧ b.structured = true

theorem consumeChunk_observe :
    (b.consumeChunk chunk).contentObserved = (b.observe chunk).contentObserved ∧
    (b.consumeChunk chunk).structured = (b.observe chunk).structured ∧
    (b.consumeChunk chunk).critical = (b.observe chunk).critical ∧
    (b.consumeChunk chunk).markerTail = (b.observe chunk).markerTail := by
  unfold Buffer.consumeChunk
  dsimp only
  split
  · exact ⟨rfl, rfl, rfl, rfl⟩
  · split <;> dsimp only <;> exact ⟨rfl, rfl, rfl, rfl⟩

theorem Shown.consumeChunk (h : Shown bs b) (chunk : List UInt8) :
    Shown (bs ++ chunk) (b.consumeChunk chunk) := by
  obtain ⟨hcontent, hstructured, -⟩ := @consumeChunk_observe chunk b
  constructor
  · intro hall
    rw [List.all_append, Bool.and_eq_true] at hall
    rw [hcontent]
    simp [Buffer.observe, h.nothing hall.1, trimLeft_of_spaces hall.2]
  · intro hbrace
    rw [hcontent, hstructured]
    cases hall : bs.all isSpaceByte with
    | true =>
      have hnil : bs.dropWhile isSpaceByte = [] :=
        List.dropWhile_eq_nil_iff.mpr (by simpa using hall)
      rw [List.dropWhile_append, hnil] at hbrace
      have htrim := trimLeft_of_brace hbrace
      have hne : trimLeft chunk ≠ [] := by rintro heq; simp [heq] at htrim
      simp [Buffer.observe, h.nothing hall, hne, opensObject, htrim]
    | false =>
      have hne : bs.dropWhile isSpaceByte ≠ [] := fun hnil => by
        have := List.dropWhile_eq_nil_iff.mp hnil
        simp only [List.all_eq_false] at hall
        obtain ⟨x, hx, hx'⟩ := hall
        exact hx' (this x hx)
      obtain ⟨x, rest, heq⟩ := List.exists_cons_of_ne_nil hne
      rw [List.dropWhile_append, heq] at hbrace
      obtain ⟨hseen, hst⟩ := h.brace (by simpa [heq] using hbrace)
      simp [Buffer.observe, hseen, hst]

theorem Shown.consumePart (h : Shown bs b) (part : List UInt8) :
    Shown (bs ++ part) (b.consumePart part) := by
  have hfold (chunks : List (List UInt8)) (bs : List UInt8) (b : Buffer) (h : Shown bs b) :
      Shown (bs ++ chunks.flatten) (chunks.foldl Buffer.consumeChunk b) := by
    induction chunks generalizing bs b with
    | nil => simpa using h
    | cons chunk chunks ih =>
      rw [List.flatten_cons, ← List.append_assoc]
      exact ih _ _ (h.consumeChunk chunk)
  have hpart := hfold (Buffer.chunks ((part.length + 4095) / 4096) part) bs b h
  rwa [chunks_flatten (by omega)] at hpart

end

section
variable {ls : Lines} {P : Line → Prop}

/-- What holds of the empty line, and of a line that goes on, holds of every line. -/
theorem scan_all (hempty : P {}) (hconsume : ∀ l part, P l → P (l.consume part))
    (inputs : List Collector.Input) : ∀ l ∈ (scan inputs).all, P l := by
  have hnext (ls : Lines) (part : List UInt8) (h : ∀ l ∈ ls.all, P l) :
      ∀ l ∈ (ls.consume part).all, P l := by
    intro l hl
    rcases List.mem_append.mp hl with hl | hl
    · exact h l (List.mem_append_left _ hl)
    · obtain rfl := List.mem_singleton.mp hl
      exact hconsume _ part (h ls.last (by simp [Lines.all]))
  have hend (ls : Lines) (h : ∀ l ∈ ls.all, P l) : ∀ l ∈ ls.endLine.all, P l := by
    intro l hl
    rcases List.mem_append.mp hl with hl | hl
    · exact h l hl
    · obtain rfl := List.mem_singleton.mp hl
      exact hempty
  have hwrite (ps : List (List UInt8)) (ls : Lines) (h : ∀ l ∈ ls.all, P l) :
      ∀ l ∈ (ls.writeParts ps).all, P l := by
    induction ps generalizing ls with
    | nil => exact h
    | cons part rest ih =>
      cases rest with
      | nil => exact hnext ls part h
      | cons next rest => exact ih _ (hend _ (hnext ls part h))
  have hrun (ls : Lines) (h : ∀ l ∈ ls.all, P l) :
      ∀ l ∈ (inputs.foldl Lines.step ls).all, P l := by
    induction inputs generalizing ls with
    | nil => exact h
    | cons input inputs ih =>
      cases input with
      | write data => exact ih _ (hwrite (Collector.parts data) ls h)
      | observe appendErr => exact ih _ h
  exact hrun {} fun l hl => by
    obtain rfl := List.mem_singleton.mp hl
    exact hempty

end

section
open Library JsonReader
variable {bs : List UInt8}

theorem stepValue_of_high {a : UInt8} (ha : 0x80 ≤ a.toNat) : stepValue false [] a = none := by
  have hne (n : UInt8) (hn : n.toNat < 0x80) : a ≠ n := by
    rintro rfl
    omega
  have hdigit : isDigit a = false := by
    have : ¬ a.toNat ≤ 0x39 := by omega
    simp [isDigit, this]
  have hspace : isSpace a = false := by
    simp [isSpace, hne 0x20 (by decide), hne 0x09 (by decide), hne 0x0D (by decide),
      hne 0x0A (by decide)]
  simp [stepValue, hspace, hdigit, hne 0x7B (by decide), hne 0x5B (by decide),
    hne 0x22 (by decide), hne 0x2D (by decide), hne 0x30 (by decide), hne 0x74 (by decide),
    hne 0x66 (by decide), hne 0x6E (by decide)]

/-- A byte that is white space for the line, but not in JSON. -/
theorem stepValue_of_blank {a : UInt8} (ha : isSpaceByte a = true) (hjson : isSpace a = false) :
    stepValue false [] a = none := by
  simp only [isSpace, Bool.or_eq_false_iff, decide_eq_false_iff_not] at hjson
  obtain ⟨⟨⟨hspace, htab⟩, hreturn⟩, hfeed⟩ := hjson
  have hnat (n : UInt8) (hne : ¬ a = n) : a.toNat ≠ n.toNat := fun h => hne (UInt8.toNat_inj.mp h)
  have hrange : 9 ≤ a.toNat ∧ a.toNat ≤ 13 := by simpa [isSpaceByte, hspace] using ha
  have h9 : a.toNat ≠ 9 := hnat 0x09 htab
  have h13 : a.toNat ≠ 13 := hnat 0x0D hreturn
  have h10 : a.toNat ≠ 10 := hnat 0x0A hfeed
  obtain h | h : a.toNat = 11 ∨ a.toNat = 12 := by omega
  · obtain rfl : a = 0x0B := UInt8.toNat_inj.mp h
    rfl
  · obtain rfl : a = 0x0C := UInt8.toNat_inj.mp h
    rfl

/-- A value does not begin with a byte outside of ASCII. -/
theorem decode_of_high {a : UInt8} (h : (bs.dropWhile isSpaceByte).head? = some a)
    (ha : 0x80 ≤ a.toNat) : decode bs = none := by
  unfold decode
  induction bs with
  | nil => cases h
  | cons b bs ih =>
    cases hb : isSpaceByte b with
    | true =>
      have ih := ih (by simpa [List.dropWhile_cons, hb] using h)
      cases hjson : isSpace b with
      | true => simpa [JsonReader.read, step, stepValue, hjson] using ih
      | false => simp [JsonReader.read, step, stepValue_of_blank hb hjson]
    | false =>
      obtain rfl : b = a := by simpa [List.dropWhile_cons, hb] using h
      simp [JsonReader.read, step, stepValue_of_high ha]

theorem head_trimReturn {a : UInt8}
    (h : (bs.dropWhile isSpaceByte).head? = some a) :
    ((trimReturn bs).dropWhile isSpaceByte).head? = some a := by
  unfold trimReturn
  split
  next hlast =>
    obtain ⟨front, rfl⟩ := List.getLast?_eq_some_iff.mp hlast
    rw [List.dropWhile_append] at h
    rw [List.dropLast_concat]
    split at h
    next => simp [isSpaceByte] at h
    next hne =>
      cases hd : front.dropWhile isSpaceByte with
      | nil => simp [hd] at hne
      | cons c rest => simpa [hd] using h
  next => exact h

/-- The line of a record that Codex may have written is not dropped. -/
theorem codex_record {l : Line} (h : Shown l.bytes l.buffer)
    (hd : l.dropped .codex = true) {record : Except String Adapter.Event}
    (hr : l.record .codex = some record) : ∃ message, record = .error message := by
  have hunstructured : l.buffer.structured = false := by
    simp only [Line.dropped, Buffer.dropped, Buffer.refused, Bool.and_eq_true,
      Bool.not_eq_true', Bool.and_eq_false_iff, Bool.or_eq_false_iff] at hd
    obtain ⟨hover, hno⟩ := hd
    exact (by simpa [hover] using hno : _ ∧ _).2
  unfold Line.record at hr
  split at hr
  next hopens =>
    obtain hbrace | ⟨a, ha, hhigh⟩ := opensObject_cases hopens
    · simp [(h.brace hbrace).2] at hunstructured
    · have hnone := decode_of_high (head_trimReturn ha) hhigh
      cases hr
      exact ⟨"event_invalid_json", by simp [parseRecord, hnone]⟩
  next => cases hr

end
/-! ## The same answer -/

section
variable {provider : Provider} {a a' : Answer} {inputs : List Collector.Input}

theorem outcome_ok (h : (a.outcome provider).err = none) : ∃ t, a.terminal = some t ∧
    (a.outcome provider).terminal = some { t with
      text := if t.text = "" ∧ (provider = .grok ∨ provider = .codex) then a.message else t.text
      sessionId := if t.sessionId = "" then a.sessionId else t.sessionId } ∧
    (t.sessionId = "" → a.sessionId ≠ "") := by
  unfold Answer.outcome at h ⊢
  cases ht : a.terminal with
  | none => simp [ht] at h
  | some t =>
    simp only [ht] at h ⊢
    generalize htext : (if t.text = "" ∧ (provider = .grok ∨ provider = .codex) then a.message
      else t.text) = text at h ⊢
    by_cases hmissing : provider = .codex ∧ t.status = "completed" ∧
        text.toList.all isSpaceRune = true
    · rw [if_pos hmissing] at h
      cases h
    · rw [if_neg hmissing] at h ⊢
      by_cases hsession : (if t.sessionId = "" then a.sessionId else t.sessionId) = ""
      · rw [if_pos hsession] at h
        cases h
      · rw [if_neg hsession]
        exact ⟨t, rfl, by rw [htext], fun hid => by simpa [hid] using hsession⟩

theorem outcome_congr (hterminal : a'.terminal = a.terminal) (hsession : a'.sessionId = a.sessionId)
    (hmessage : provider = .grok ∨ provider = .codex →
      (∀ t, a.terminal = some t → t.text = "") → a'.message = a.message) :
    a'.outcome provider = a.outcome provider := by
  unfold Answer.outcome
  rw [hterminal, hsession]
  cases ht : a.terminal with
  | none => rfl
  | some t =>
    by_cases htext : t.text = "" ∧ (provider = .grok ∨ provider = .codex)
    · have hspeaks := hmessage htext.2 fun t' ht' => by
        cases ht.symm.trans ht'
        exact htext.1
      simp only [hspeaks]
    · simp only [htext, if_false]

theorem finish_ok {p : Collector} (h : p.finish.err = none) :
    p.drain.err = none ∧ p.finish = p.drain.answer.outcome p.provider := by
  unfold Collector.finish at h ⊢
  split at h
  next => cases h
  next hdrain => exact ⟨hdrain, rfl⟩

theorem drain_of_err {p : Collector} (h : p.err ≠ none) : p.drain.err ≠ none := by
  unfold Collector.drain Collector.finishLine
  simp only [h, ne_eq, not_false_eq_true, if_true]
  split <;> exact h

theorem reference_of (h : accepted provider (events provider (scan inputs).all) = some a)
    (hall : ∀ l ∈ (scan inputs).all, ∀ message, l.record provider ≠ some (.error message)) :
    reference provider (stream inputs) = a.outcome provider := by
  have hfold := foldl_refer_of (p := newProtocolCollector provider) rfl rfl rfl hall h
  rw [reference, ← map_scan, hfold]
  rfl

theorem reference_ok (h : (reference provider (stream inputs)).err = none) :
    (∀ l ∈ (scan inputs).all, ∀ message, l.record provider ≠ some (.error message)) ∧
      ∃ a, accepted provider (events provider (scan inputs).all) = some a := by
  rw [reference, ← map_scan] at h
  have hdrain := (finish_ok h).1
  have herr : (((scan inputs).all.map Line.bytes).foldl Collector.refer
      (newProtocolCollector provider)).err = none := by
    by_contra hne
    exact drain_of_err hne hdrain
  obtain ⟨hall, hfold⟩ := foldl_refer_ok rfl rfl herr
  exact ⟨hall, _, hfold⟩

/-- Nothing is dropped that Codex may have written. -/
theorem codex_events {lines : List Line} (hshown : ∀ l ∈ lines, Shown l.bytes l.buffer)
    (hall : ∀ l ∈ lines, ∀ message, l.record .codex ≠ some (.error message)) :
    events .codex lines = events .codex (keptLines .codex lines) := by
  refine kept_only id List.cons (fun _ _ => rfl) fun l hl hd e he => ?_
  exfalso
  unfold Line.event at he
  cases hr : l.record .codex with
  | none => simp [hr] at he
  | some record =>
    obtain ⟨message, rfl⟩ := codex_record (hshown l hl) hd hr
    exact hall l hl message hr

/-- The reference accepts what can be disposed of, and returns the same answer. -/
theorem Disposable.accepted {lines : List Line} (h : Disposable provider lines)
    (hkept : Kept provider lines a) (hok : (a.outcome provider).err = none)
    (hshown : ∀ l ∈ lines, Shown l.bytes l.buffer) :
    (∀ l ∈ lines, ∀ message, l.record provider ≠ some (.error message)) ∧
      ∃ a', accepted provider (events provider lines) = some a' ∧
        a'.outcome provider = a.outcome provider := by
  have hall (l : Line) (hl : l ∈ lines) (message : String) :
      l.record provider ≠ some (.error message) := by
    intro hr
    cases hd : l.dropped provider with
    | false => exact (hkept.parsed l hl).2 hd message hr
    | true =>
      obtain ⟨e, he, -⟩ := h.inert l hl hd _ hr
      cases he
  refine ⟨hall, ?_⟩
  by_cases hne : provider = .codex
  · subst hne
    exact ⟨a, by rw [codex_events hshown hall]; exact hkept.accepted, rfl⟩
  have hno (l : Line) (hl : l ∈ lines) (hd : l.dropped provider = true) (e : Adapter.Event)
      (he : l.event provider = some e) : isTerminal e = false := by
    obtain ⟨e', heq, hterm⟩ := h.inert l hl hd _ (event_eq_some.mp he)
    cases heq
    exact hterm
  have hterminals := terminals_kept hno
  obtain ⟨hkterm, hkspeaks⟩ := accepted_sums hne hkept.accepted
  obtain ⟨hksession, hknamed⟩ := sums_session hkept.accepted
  have hone : ((events provider lines).filter isTerminal).length ≤ 1 := by
    rw [hterminals]
    refine hkterm ▸ ?_
    cases a.terminal <;> simp
  obtain ⟨a', haccepted⟩ := accepted_of hne h.agree hone h.fits
  obtain ⟨hterm, hspeaks⟩ := accepted_sums hne haccepted
  have hlist : a'.terminal.toList = a.terminal.toList := by
    rw [← hterm, hterminals]
    exact hkterm
  have heq : a'.terminal = a.terminal := by simpa using congrArg List.head? hlist
  refine ⟨a', haccepted, outcome_congr heq ?_ fun hor htext => ?_⟩
  · obtain ⟨t, ht, -, hid⟩ := outcome_ok hok
    have hne' : a.sessionId ≠ "" := by
      by_cases hempty : t.sessionId = ""
      · exact hid hempty
      · have hmem : t ∈ events provider (keptLines provider lines) := by
          have : t ∈ (events provider (keptLines provider lines)).filter isTerminal := by
            refine hkterm.symm ▸ ?_
            simp [ht]
          exact List.mem_of_mem_filter this
        exact fun hnone => hempty ((hksession t hmem).elim id fun heq => heq.trans hnone)
    obtain ⟨e, he, heq⟩ := hknamed hne'
    obtain hnone | hsame := (sums_session haccepted).1 e (kept_events_subset he)
    · exact (hne' (heq.symm.trans hnone)).elim
    · exact hsame.symm.trans heq
  · have hgrok : provider = .grok := hor.resolve_right hne
    rw [(hspeaks hgrok).1, (hkspeaks hgrok).1]
    refine texts_kept fun l hl hd e he => h.heard hgrok (fun e' he' hterm' => ?_) l hl hd e he
    have hmem : e' ∈ (events provider lines).filter isTerminal :=
      List.mem_filter.mpr ⟨he', hterm'⟩
    rw [hterm, hlist] at hmem
    exact htext e' (Option.mem_toList.mp hmem)

/-- An answer that the reference returns too has not needed what was dropped. -/
theorem disposable_of {lines : List Line} (hkept : Kept provider lines a)
    (hok : (a.outcome provider).err = none) (hshown : ∀ l ∈ lines, Shown l.bytes l.buffer)
    (hall : ∀ l ∈ lines, ∀ message, l.record provider ≠ some (.error message))
    (haccepted : accepted provider (events provider lines) = some a')
    (hsame : a'.outcome provider = a.outcome provider) : Disposable provider lines := by
  obtain ⟨t, ht, hterminal, -⟩ := outcome_ok hok
  obtain ⟨t', ht', hterminal', -⟩ := outcome_ok (hsame ▸ hok)
  refine ⟨fun l hl hd record hr => ?_, fun e he e' he' hid hid' => ?_, fun hgrok => ?_,
    fun hgrok hsilent l hl hd e he hm => ?_⟩
  · cases record with
    | error message => exact (hall l hl message hr).elim
    | ok e =>
      refine ⟨e, rfl, ?_⟩
      by_contra hterm
      have hne : provider ≠ .codex := by
        rintro rfl
        obtain ⟨message, heq⟩ := codex_record (hshown l hl) hd hr
        cases heq
      have hmem : e ∈ (events provider (droppedLines provider lines)).filter isTerminal :=
        List.mem_filter.mpr ⟨mem_events (List.mem_filter.mpr ⟨hl, hd⟩) (event_eq_some.mpr hr),
          by simpa using hterm⟩
      have hpos := List.length_pos_of_mem hmem
      have hcount := @terminals_shared provider lines
      have hkterm : ((events provider (keptLines provider lines)).filter isTerminal) =
        a.terminal.toList := (accepted_sums hne hkept.accepted).1
      rw [hkterm, (accepted_sums hne haccepted).1, ht, ht'] at hcount
      simp only [Option.toList_some, List.length_singleton] at hcount
      omega
  · have hsession := (sums_session haccepted).1
    rw [(hsession e he).resolve_left hid, (hsession e' he').resolve_left hid']
  · exact ((accepted_sums (by simp [hgrok]) haccepted).2 hgrok).2
  · have hne : provider ≠ .codex := by simp [hgrok]
    obtain ⟨hkterm, hkspeaks⟩ := accepted_sums hne hkept.accepted
    obtain ⟨hterm, hspeaks⟩ := accepted_sums hne haccepted
    have hquiet (u : Adapter.Event) (hu : u ∈ (events provider lines).filter isTerminal) :
        u.text = "" :=
      hsilent u (List.mem_of_mem_filter hu) (List.mem_filter.mp hu).2
    have htext' : t'.text = "" := hquiet t' (by rw [hterm, ht']; simp)
    have htext : t.text = "" := by
      have hmem : t ∈ (events provider (keptLines provider lines)).filter isTerminal := by
        refine hkterm.symm ▸ ?_
        simp [ht]
      exact hsilent t (kept_events_subset (List.mem_of_mem_filter hmem))
        (List.mem_filter.mp hmem).2
    have hmessage : a'.message = a.message := by
      rw [hsame, hterminal] at hterminal'
      simpa [htext, htext', hgrok] using (congrArg Adapter.Event.text
        (Option.some.inj hterminal')).symm
    have hsize := @texts_shared provider lines
    have hkmessage : a.message = texts (events provider (keptLines provider lines)) :=
      (hkspeaks hgrok).1
    rw [← (hspeaks hgrok).1, ← hkmessage, hmessage] at hsize
    have hzero : (texts (events provider (droppedLines provider lines))).utf8ByteSize = 0 := by
      omega
    exact text_of_texts (String.utf8ByteSize_eq_zero_iff.mp hzero)
      (mem_events (List.mem_filter.mpr ⟨hl, hd⟩) he) hm

/-- A collector that returns an answer returns the same one as a collector without the limit on
lines, if and only if the lines it has dropped could be disposed of. -/
theorem bounded_answer_iff
    (hok : ((newProtocolCollector provider).run inputs).finish.err = none) :
    reference provider (stream inputs) = ((newProtocolCollector provider).run inputs).finish ↔
      Disposable provider (scan inputs).all := by
  have hfollows := follows_run provider inputs
  obtain ⟨herr, hfinish⟩ := finish_ok hok
  obtain ⟨-, hkept⟩ := hfollows.drain herr
  have hshown : ∀ l ∈ (scan inputs).all, Shown l.bytes l.buffer :=
    scan_all ⟨fun _ => rfl, fun h => by cases h⟩ (fun l part h => h.consumePart part) inputs
  rw [hfollows.ofProvider.1] at hfinish
  rw [hfinish] at hok ⊢
  constructor
  · intro hsame
    obtain ⟨hall, a', haccepted⟩ := reference_ok (hsame ▸ hok)
    rw [reference_of haccepted hall] at hsame
    exact disposable_of hkept hok hshown hall haccepted hsame
  · intro h
    obtain ⟨hall, a', haccepted, hsame⟩ := h.accepted hkept hok hshown
    rw [reference_of haccepted hall, hsame]

end

/-! ## A message that is dropped -/

def grokText (n : Nat) : List UInt8 :=
  ascii "\x7b\"type\":\"text\",\"data\":\"" ++ (List.replicate n 0x61 ++ ascii "\"\x7d")

def grokEnd : List UInt8 :=
  ascii "\x7b\"type\":\"end\",\"stopReason\":\"end_turn\",\"sessionId\":\"s\"\x7d"

/-- Two records that fit. -/
theorem short_message_kept : Disposable .grok
    (scan [.write (grokText 3 ++ [0x0A]), .observe none, .write (grokEnd ++ [0x0A])]).all :=
  (bounded_answer_iff (by decide +kernel)).mp (by decide +kernel)

section
open Library JsonReader

theorem read_letters (stack : List Frame) (cs : List Char) (n : Nat) (rest : List UInt8) :
    JsonReader.read stack (.string { chars := cs }) (List.replicate n 0x61 ++ rest) =
      JsonReader.read stack (.string { chars := List.replicate n 'a' ++ cs }) rest := by
  induction n generalizing cs with
  | zero => rfl
  | succ n ih =>
    have hstep : JsonReader.read stack (.string { chars := cs })
        (0x61 :: (List.replicate n 0x61 ++ rest)) =
        JsonReader.read stack (.string { chars := 'a' :: cs }) (List.replicate n 0x61 ++ rest) :=
      rfl
    rw [List.replicate_succ, List.cons_append, hstep, ih, List.replicate_succ',
      List.append_assoc]
    rfl

theorem parse_grokText (n : Nat) : parseRecord .grok (grokText n) =
    .ok { kind := .message, text := String.ofList (List.replicate n 'a') } := by
  have hpre (rest : List UInt8) :
      decode (ascii "\x7b\"type\":\"text\",\"data\":\"" ++ rest) = JsonReader.read
        [.object [("type".toList, .string "text".toList)] (some "data".toList)] (.string {}) rest :=
    rfl
  have hpost (cs : List Char) : JsonReader.read
      [.object [("type".toList, .string "text".toList)] (some "data".toList)]
      (.string { chars := cs }) (ascii "\"\x7d") =
      some (.object [("type".toList, .string "text".toList),
        ("data".toList, .string cs.reverse)], []) :=
    rfl
  have hfields (cs : List Char) : parseObject [("type".toList, .string "text".toList),
      ("data".toList, .string cs)] .grok = .ok { kind := .message, text := String.ofList cs } :=
    rfl
  have hdecode : decode (grokText n) = some (.object [("type".toList, .string "text".toList),
      ("data".toList, .string (List.replicate n 'a'))], []) := by
    rw [grokText, hpre, read_letters, hpost]
    simp
  rw [parseRecord, hdecode]
  exact hfields _

end

section
variable {b : Buffer} {chunk part : List UInt8}

/-- Every marker has this letter. -/
theorem hasMarker_false {probe : List UInt8} (h : 0x72 ∉ probe) : hasMarker probe = false := by
  rw [hasMarker, List.any_eq_false]
  intro marker hm hin
  have hletters : ∀ marker ∈ markers, (0x72 : UInt8) ∈ marker := by decide
  have hmem : 0x72 ∈ compact probe := (decide_eq_true_eq.mp hin).subset (hletters marker hm)
  exact h (List.mem_of_mem_filter hmem)

/-- A line without that letter is not taken for a record that matters. -/
theorem consumePart_uncritical (hpart : 0x72 ∉ part) :
    (({} : Buffer).consumePart part).critical = false := by
  have hfold (chunks : List (List UInt8)) (b : Buffer) (hb : b.critical = false)
      (htail : 0x72 ∉ b.markerTail) (h : 0x72 ∉ chunks.flatten) :
      (chunks.foldl Buffer.consumeChunk b).critical = false := by
    induction chunks generalizing b with
    | nil => exact hb
    | cons chunk chunks ih =>
      rw [List.flatten_cons, List.mem_append, not_or] at h
      have hprobe : 0x72 ∉ b.markerTail ++ chunk := by simp [htail, h.1]
      obtain ⟨-, -, hcritical, hkept⟩ := @consumeChunk_observe chunk b
      have htail' : (b.observe chunk).markerTail =
          (b.markerTail ++ chunk).drop ((b.markerTail ++ chunk).length - 128) := by
        dsimp only [Buffer.observe]
      refine ih _ ?_ ?_ h.2
      · rw [hcritical]
        simp [Buffer.observe, hb, hasMarker_false hprobe]
      · rw [hkept, htail']
        exact fun hm => hprobe (List.mem_of_mem_drop hm)
  refine hfold _ _ rfl (by simp) ?_
  rwa [chunks_flatten (by omega)]

/-- A line that is longer than the limit is oversized. -/
theorem consumePart_oversized (h : part.length > providerEventLimit) :
    (({} : Buffer).consumePart part).oversized = true := by
  have hfold (chunks : List (List UInt8)) (b : Buffer)
      (hb : b.oversized = false → b.line.length ≤ providerEventLimit) :
      (chunks.foldl Buffer.consumeChunk b).oversized = false →
        (chunks.foldl Buffer.consumeChunk b).line.length ≤ providerEventLimit := by
    induction chunks generalizing b with
    | nil => exact hb
    | cons chunk chunks ih =>
      refine ih _ fun hover => ?_
      cases hb' : b.oversized with
      | true => simp [Buffer.consumeChunk, Buffer.observe, hb'] at hover
      | false =>
        by_cases hlong : b.line.length + chunk.length > providerEventLimit
        · simp [Buffer.consumeChunk, Buffer.observe, hb', hlong] at hover
        · have hline : (b.consumeChunk chunk).line = b.line ++ chunk := by
            simp [Buffer.consumeChunk, Buffer.observe, hb', hlong]
          rw [hline, List.length_append]
          exact Nat.le_of_not_gt hlong
  by_contra hover
  have hover : (({} : Buffer).consumePart part).oversized = false := by simpa using hover
  have hwhole : (({} : Buffer).consumePart part).line = part :=
    Line.Whole.consume (l := {}) (fun _ => rfl) part hover
  have hfits := hfold _ {} (by simp) hover
  rw [show ((Buffer.chunks ((part.length + 4095) / 4096) part).foldl Buffer.consumeChunk
    {}).line = part from hwhole] at hfits
  omega

theorem parts_single {bs : List UInt8} (h : 0x0A ∉ bs) : Collector.parts bs = [bs] := by
  induction bs with
  | nil => rfl
  | cons b bs ih =>
    rw [List.mem_cons, not_or] at h
    rw [Collector.parts, if_neg (Ne.symm h.1), ih h.2]

theorem parts_line {bs : List UInt8} (h : 0x0A ∉ bs) :
    Collector.parts (bs ++ [0x0A]) = [bs, []] := by
  rw [parts_append, parts_single h]
  simp [Collector.parts, joinParts]

theorem grokText_lacks (n : Nat) {b : UInt8} (hb : b ≠ 0x61)
    (hpre : b ∉ ascii "\x7b\"type\":\"text\",\"data\":\"") (hpost : b ∉ ascii "\"\x7d") :
    b ∉ grokText n := by
  simp only [grokText, List.mem_append, List.mem_replicate, not_or, not_and]
  exact ⟨hpre, fun _ => hb, hpost⟩

/-- The record of a long message is dropped. -/
theorem finishLine_grokText {n : Nat} (hn : (grokText n).length > providerEventLimit) :
    ((newProtocolCollector .grok).consumePart (grokText n)).finishLine =
      { newProtocolCollector .grok with droppedOversize := 1 } := by
  have hover := consumePart_oversized hn
  have hcritical := consumePart_uncritical (grokText_lacks n (b := 0x72) (by decide)
    (by decide) (by decide))
  unfold Collector.finishLine Collector.consumePart
  simp [newProtocolCollector, hover, hcritical, Buffer.refused]

theorem utf8ByteSize_letters (n : Nat) :
    (String.ofList (List.replicate n 'a')).utf8ByteSize = n := by
  induction n with
  | zero => rfl
  | succ n ih =>
    rw [List.replicate_succ, ← List.singleton_append, String.ofList_append,
      String.utf8ByteSize_append, ih, Nat.add_comm]
    rfl

theorem opensObject_grokText (n : Nat) : opensObject (grokText n) = true :=
  decide_eq_true (@trimLeft_of_brace (grokText n) rfl)

theorem trimReturn_grokText (n : Nat) : trimReturn (grokText n) = grokText n := by
  have hlast : (grokText n).getLast? = some 0x7D := by
    rw [grokText, List.getLast?_append, List.getLast?_append]
    rfl
  rw [trimReturn, hlast]
  rfl

/-- The reference takes the message in. -/
theorem refer_grokText {n : Nat} (hfits : n ≤ providerEventLimit) :
    (newProtocolCollector .grok).refer (grokText n) = { newProtocolCollector .grok with
      answer := { message := String.ofList (List.replicate n 'a') } } := by
  have haccepts : ({} : Answer).accepts .grok
      { kind := .message, text := String.ofList (List.replicate n 'a') } =
      some { message := String.ofList (List.replicate n 'a') } := by
    refine accepts_eq_some.mpr ⟨rfl, ?_⟩
    by_cases hempty : String.ofList (List.replicate n 'a') = ""
    · simp [Answer.takeSession, Answer.record, isTerminal, hempty]
    · have hsize := utf8ByteSize_letters n
      have hroom : ¬ n > providerEventLimit := Nat.not_lt.mpr hfits
      simp [Answer.takeSession, Answer.record, hempty, hsize, hroom]
  have hopens := opensObject_grokText n
  have hrefer : (newProtocolCollector .grok).refer (grokText n) =
      (newProtocolCollector .grok).accept
        { kind := .message, text := String.ofList (List.replicate n 'a') } := by
    simp [Collector.refer, newProtocolCollector, hopens, trimReturn_grokText, parse_grokText]
  rw [hrefer, Collector.accept_of_accepts rfl haccepts]

theorem refer_grokEnd (text : String) :
    ({ newProtocolCollector .grok with answer := { message := text } } : Collector).refer grokEnd =
      { newProtocolCollector .grok with
        answer := {
          terminal := some { kind := .result, sessionId := "s", status := "end_turn" }
          sessionId := "s"
          message := text } } := by
  have hopens : opensObject grokEnd = true := by decide +kernel
  have hparse : parseRecord .grok (trimReturn grokEnd) =
      .ok { kind := .result, sessionId := "s", status := "end_turn" } := by decide +kernel
  have haccepts : ({ message := text } : Answer).accepts .grok
      { kind := .result, sessionId := "s", status := "end_turn" } = some {
        terminal := some { kind := .result, sessionId := "s", status := "end_turn" }
        sessionId := "s"
        message := text } :=
    accepts_eq_some.mpr ⟨rfl, rfl, rfl⟩
  have hrefer : ({ newProtocolCollector .grok with answer := { message := text } } :
      Collector).refer grokEnd =
      ({ newProtocolCollector .grok with answer := { message := text } } : Collector).accept
        { kind := .result, sessionId := "s", status := "end_turn" } := by
    simp [Collector.refer, newProtocolCollector, hopens, hparse]
  rw [hrefer, Collector.accept_of_accepts rfl haccepts]

/-- The end of the turn is the answer of the collector, with no text. -/
theorem write_grokEnd :
    (({ newProtocolCollector .grok with droppedOversize := 1 } : Collector).setSessionObserver
      none |>.write (grokEnd ++ [0x0A])).finish =
        { terminal := some { kind := .result, sessionId := "s", status := "end_turn" }
          sessionId := "s" } := by
  decide +kernel

/-- A message of `n` bytes, and then the end of the turn. -/
def grokMessage (n : Nat) : List Collector.Input :=
  [.write (grokText n ++ [0x0A]), .observe none, .write (grokEnd ++ [0x0A])]

/-- A message that fits, in a record that is too long, is not in the answer. -/
theorem message_lost {n : Nat} (hlong : providerEventLimit < n + 25)
    (hfits : n ≤ providerEventLimit) :
    let answer : Adapter.Event := { kind := .result, sessionId := "s", status := "end_turn" }
    ((newProtocolCollector .grok).run (grokMessage n)).finish =
      { terminal := some answer, sessionId := "s" } ∧
    reference .grok (stream (grokMessage n)) = {
      terminal := some { answer with text := String.ofList (List.replicate n 'a') }
      sessionId := "s" } := by
  have hparts : Collector.parts (grokText n ++ [0x0A]) = [grokText n, []] :=
    parts_line (grokText_lacks n (by decide) (by decide) (by decide))
  constructor
  · have hlength : (grokText n).length = n + 25 := by
      simp only [grokText, List.length_append, List.length_replicate]
      rw [show (ascii "\x7b\"type\":\"text\",\"data\":\"").length = 23 by decide,
        show (ascii "\"\x7d").length = 2 by decide]
      omega
    have hfirst : (newProtocolCollector .grok).write (grokText n ++ [0x0A]) =
        { newProtocolCollector .grok with droppedOversize := 1 } := by
      rw [Collector.write, hparts, Collector.writeParts, finishLine_grokText (by omega)]
      · rfl
      · simp
    rw [grokMessage, Collector.run, List.foldl_cons, Collector.step, hfirst]
    exact write_grokEnd
  · have hend : Collector.parts (grokEnd ++ [0x0A]) = [grokEnd, []] := parts_line (by decide)
    have hstream : Collector.parts (stream (grokMessage n)) = [grokText n, grokEnd, []] := by
      simp only [grokMessage, stream, List.append_nil]
      rw [parts_append, hparts, hend]
      rfl
    have hlast (p : Collector) : p.refer [] = p := by
      unfold Collector.refer
      split <;> rfl
    dsimp only
    rw [reference, hstream, List.foldl_cons, List.foldl_cons, List.foldl_cons, List.foldl_nil,
      refer_grokText hfits, refer_grokEnd, hlast]
    simp [Collector.finish, Collector.drain, newProtocolCollector, Answer.outcome]

theorem message_differs {n : Nat} (hlong : providerEventLimit < n + 25)
    (hfits : n ≤ providerEventLimit) :
    ((newProtocolCollector .grok).run (grokMessage n)).finish.err = none ∧
      reference .grok (stream (grokMessage n)) ≠
        ((newProtocolCollector .grok).run (grokMessage n)).finish := by
  obtain ⟨hfinish, hreference⟩ := message_lost hlong hfits
  rw [hfinish, hreference]
  refine ⟨rfl, fun heq => ?_⟩
  have htext : String.ofList (List.replicate n 'a') = "" :=
    congrArg (fun o => (o.terminal.map Adapter.Event.text).getD "") heq
  have hsize := utf8ByteSize_letters n
  rw [htext] at hsize
  obtain rfl : 0 = n := hsize
  exact absurd hlong (by decide)

/-- A message of 65,520 bytes does not reach the answer, which comes without an error. -/
theorem long_message_lost :
    ((newProtocolCollector .grok).run (grokMessage 65520)).finish.err = none ∧
      reference .grok (stream (grokMessage 65520)) ≠
        ((newProtocolCollector .grok).run (grokMessage 65520)).finish :=
  message_differs (by decide) (by decide)

end
end Orchestrator.Host
