import Orchestrator.Host.Collector

/-!
# The lines of a worker's output

What a collector does depends on the lines of the stream, and on what the writes have shown it
of each of them; until a line is too long, that is all of it. As long as no error is met, the
answer is what the records of the lines add up to.
-/
namespace Orchestrator.Host
open Adapter

/-! ## Lines -/

/-- A line with all of its bytes, beside what the collector keeps of it. -/
structure Line where
  bytes : List UInt8 := []
  buffer : Buffer := {}
  deriving DecidableEq, Repr

namespace Line
variable (provider : Provider) (l : Line)

def consume (part : List UInt8) : Line := ⟨l.bytes ++ part, l.buffer.consumePart part⟩

def dropped : Bool := l.buffer.dropped provider

/-- The record of the line, however long it is. -/
def record : Option (Except String Adapter.Event) :=
  if opensObject l.bytes = true then some (parseRecord provider (trimReturn l.bytes)) else none

def event : Option Adapter.Event := (l.record provider).bind Except.toOption

end Line

/-- The lines that are complete, and the one that is not. -/
structure Lines where
  complete : List Line := []
  last : Line := {}
  deriving DecidableEq, Repr

namespace Lines

def all (ls : Lines) : List Line := ls.complete ++ [ls.last]

def endLine (ls : Lines) : Lines := { complete := ls.all }

def consume (ls : Lines) (part : List UInt8) : Lines := { ls with last := ls.last.consume part }

def writeParts (ls : Lines) : List (List UInt8) → Lines
  | [] => ls
  | [part] => ls.consume part
  | part :: rest => (ls.consume part).endLine.writeParts rest

def step (ls : Lines) : Collector.Input → Lines
  | .write data => ls.writeParts (Collector.parts data)
  | .observe _ => ls

end Lines

/-- The lines of what is written, as the writes cut it. -/
def scan (inputs : List Collector.Input) : Lines := inputs.foldl Lines.step {}

/-- The bytes that are written. -/
def stream : List Collector.Input → List UInt8
  | [] => []
  | .write data :: inputs => data ++ stream inputs
  | .observe _ :: inputs => stream inputs

/-! ## The bytes of the lines -/

section
variable {ls : Lines} {inputs : List Collector.Input}

open Collector (parts)

/-- The first part of what is written goes on with the last line. -/
def joinParts : List (List UInt8) → List (List UInt8) → List (List UInt8)
  | [line], part :: rest => (line ++ part) :: rest
  | line :: lines, more => line :: joinParts lines more
  | [], more => more

theorem parts_ne_nil (bs : List UInt8) : parts bs ≠ [] := by
  cases bs with
  | nil => simp [parts]
  | cons b bs =>
    rw [parts]
    split
    · simp
    · split <;> simp

theorem joinParts_concat (lines : List (List UInt8)) (line part : List UInt8)
    (rest : List (List UInt8)) :
    joinParts (lines ++ [line]) (part :: rest) = lines ++ (line ++ part) :: rest := by
  induction lines with
  | nil => rfl
  | cons first lines ih =>
    cases lines with
    | nil => rfl
    | cons second lines => exact congrArg (first :: ·) ih

theorem parts_append (xs ys : List UInt8) : parts (xs ++ ys) = joinParts (parts xs) (parts ys) := by
  obtain ⟨part, rest, hys⟩ := List.exists_cons_of_ne_nil (parts_ne_nil ys)
  induction xs with
  | nil => simp [parts, hys, joinParts]
  | cons x xs ih =>
    obtain ⟨line, lines, hxs⟩ := List.exists_cons_of_ne_nil (parts_ne_nil xs)
    rw [List.cons_append, parts, parts, ih, hxs, hys]
    split
    · rfl
    · cases lines <;> rfl

theorem map_writeParts (ps : List (List UInt8)) (hps : ps ≠ []) :
    (ls.writeParts ps).all.map Line.bytes = joinParts (ls.all.map Line.bytes) ps := by
  induction ps generalizing ls with
  | nil => exact (hps rfl).elim
  | cons part rest ih =>
    have hjoin (rest : List (List UInt8)) : joinParts (ls.all.map Line.bytes) (part :: rest) =
        ls.complete.map Line.bytes ++ (ls.last.bytes ++ part) :: rest := by
      rw [Lines.all, List.map_append]
      exact joinParts_concat _ _ _ _
    cases rest with
    | nil =>
      rw [hjoin]
      simp [Lines.writeParts, Lines.consume, Lines.all, Line.consume]
    | cons next rest =>
      have hend : (ls.consume part).endLine.all.map Line.bytes =
          (ls.complete.map Line.bytes ++ [ls.last.bytes ++ part]) ++ [[]] := by
        simp [Lines.endLine, Lines.all, Lines.consume, Line.consume]
      change ((ls.consume part).endLine.writeParts (next :: rest)).all.map Line.bytes = _
      rw [ih (by simp), hend, joinParts_concat, hjoin]
      simp

theorem map_foldl_step {before : List UInt8} (h : ls.all.map Line.bytes = parts before) :
    (inputs.foldl Lines.step ls).all.map Line.bytes = parts (before ++ stream inputs) := by
  induction inputs generalizing ls before with
  | nil => simpa [stream] using h
  | cons input inputs ih =>
    cases input with
    | write data =>
      have hnext : (ls.step (.write data)).all.map Line.bytes = parts (before ++ data) := by
        rw [parts_append, ← h]
        exact map_writeParts _ (parts_ne_nil data)
      rw [List.foldl_cons, ih hnext, stream, List.append_assoc]
    | observe appendErr => exact ih h

/-- The lines that are scanned are those of the stream. -/
theorem map_scan (inputs : List Collector.Input) :
    (scan inputs).all.map Line.bytes = parts (stream inputs) :=
  @map_foldl_step {} inputs [] rfl

end

/-! ## What is kept of a line -/

section
variable {b : Buffer} {l : Line}

theorem chunks_flatten {n : Nat} {part : List UInt8} (h : part.length ≤ n * 4096) :
    (Buffer.chunks n part).flatten = part := by
  induction n generalizing part with
  | zero =>
    have hnil : part = [] := List.length_eq_zero_iff.mp (by omega)
    simp [Buffer.chunks, hnil]
  | succ n ih =>
    rw [Buffer.chunks, List.flatten_cons, ih (by simp; omega), List.take_append_drop]

/-- Until it is too long, all of a line is kept. -/
def Line.Whole (l : Line) : Prop := l.buffer.oversized = false → l.buffer.line = l.bytes

theorem foldl_consumeChunk {chunks : List (List UInt8)} {bytes : List UInt8}
    (h : b.oversized = false → b.line = bytes) :
    (chunks.foldl Buffer.consumeChunk b).oversized = false →
      (chunks.foldl Buffer.consumeChunk b).line = bytes ++ chunks.flatten := by
  induction chunks generalizing b bytes with
  | nil => simpa using h
  | cons chunk chunks ih =>
    rw [List.foldl_cons, List.flatten_cons, ← List.append_assoc]
    refine ih fun hover => ?_
    have hb : b.oversized = false := by
      cases hb : b.oversized with
      | false => rfl
      | true => simp [Buffer.consumeChunk, Buffer.observe, hb] at hover
    rw [← h hb]
    by_cases hlong : b.line.length + chunk.length > providerEventLimit
    · simp [Buffer.consumeChunk, Buffer.observe, hb, hlong] at hover
    · simp [Buffer.consumeChunk, Buffer.observe, hb, hlong]

theorem Line.Whole.consume (h : l.Whole) (part : List UInt8) : (l.consume part).Whole := by
  have hflat : (Buffer.chunks ((part.length + 4095) / 4096) part).flatten = part :=
    chunks_flatten (by omega)
  have hfold := @foldl_consumeChunk _ (Buffer.chunks ((part.length + 4095) / 4096) part) _ h
  rwa [hflat] at hfold

end
/-! ## Accepting records -/

/-- The answer after a record, if it is accepted. -/
def Answer.accepts (provider : Provider) (a : Answer) (e : Adapter.Event) : Option Answer :=
  if a.refuses provider e = none then
    if ((a.takeSession provider e).record provider e).2 = none then
      some ((a.takeSession provider e).record provider e).1
    else none
  else none

/-- The answer after all of the records, if they are accepted. -/
def accepted (provider : Provider) (es : List Adapter.Event) : Option Answer :=
  es.foldlM (Answer.accepts provider) {}

section
variable {p : Collector} {e : Adapter.Event} {a : Answer} {provider : Provider}

theorem accepted_concat {es : List Adapter.Event} :
    accepted provider (es ++ [e]) = (accepted provider es).bind (·.accepts provider e) := by
  simp [accepted, List.foldlM_append]

namespace Collector

theorem reportSession_rest : p.reportSession.provider = p.provider ∧
    p.reportSession.parser = p.parser ∧ p.reportSession.buffer = p.buffer ∧
    p.reportSession.answer = p.answer ∧ (p.reportSession.err = none → p.err = none) := by
  unfold reportSession
  split
  · exact ⟨rfl, rfl, rfl, rfl, id⟩
  · split
    · exact ⟨rfl, rfl, rfl, rfl, id⟩
    · split
      · exact ⟨rfl, rfl, rfl, rfl, id⟩
      · exact ⟨rfl, rfl, rfl, rfl, fun h => by cases h⟩

theorem takeSession_rest : (p.takeSession e).provider = p.provider ∧
    (p.takeSession e).parser = p.parser ∧
    (p.takeSession e).answer = p.answer.takeSession p.provider e ∧
    ((p.takeSession e).err = none → p.err = none) := by
  unfold takeSession
  dsimp only
  split
  · obtain ⟨hprovider, hparser, -, hrest⟩ :=
      reportSession_rest (p := { p with answer := p.answer.takeSession p.provider e })
    exact ⟨hprovider, hparser, hrest⟩
  · exact ⟨rfl, rfl, rfl, id⟩

theorem accept_rest :
    (p.accept e).provider = p.provider ∧ (p.accept e).parser = p.parser := by
  obtain ⟨hprovider, hparser, -⟩ := takeSession_rest (p := p) (e := e)
  unfold accept
  split
  · exact ⟨rfl, rfl⟩
  · exact ⟨hprovider, hparser⟩

/-- Where no error is met, a record is accepted. -/
theorem accept_ok (h : (p.accept e).err = none) :
    p.err = none ∧ p.answer.accepts p.provider e = some (p.accept e).answer := by
  obtain ⟨hprovider, -, hanswer, herr⟩ := takeSession_rest (p := p) (e := e)
  unfold accept at h ⊢
  cases hr : p.answer.refuses p.provider e with
  | some message => simp [hr] at h
  | none =>
    simp only [hr, hprovider, hanswer, Option.or_eq_none_iff] at h ⊢
    exact ⟨herr h.2, by simp [Answer.accepts, hr, h.1]⟩

/-- A collector without an observer meets no other errors. -/
theorem accept_of_accepts (hnone : p.onSession = none)
    (h : p.answer.accepts p.provider e = some a) : p.accept e = { p with answer := a } := by
  have hquiet : p.takeSession e = { p with answer := p.answer.takeSession p.provider e } := by
    simp [takeSession, reportSession, hnone]
  unfold Answer.accepts at h
  split at h
  next hr =>
    split at h
    next hrecord =>
      cases h
      simp [accept, hr, hquiet, hrecord]
    next => cases h
  next => cases h

end Collector

/-! ## Following the lines -/

theorem parse_ok {parser parser' : StreamParser} {line : List UInt8}
    (h : parser.parse line = .ok (parser', e)) :
    parser'.provider = parser.provider ∧ parseRecord parser.provider line = .ok e := by
  unfold StreamParser.parse at h
  simp only [bind, Except.bind, pure, Except.pure, throw, throwThe, MonadExceptOf.throw] at h
  split at h
  · cases h
  split at h
  · cases h
  unfold ParseEvent at h
  split at h
  · cases h
  next hevent =>
    split at hevent
    · cases hevent
    · cases h
      exact ⟨rfl, hevent⟩

/-- The lines that are complete have met no error, and the answer is what they add up to. -/
structure Kept (provider : Provider) (lines : List Line) (a : Answer) : Prop where
  parsed : ∀ l ∈ lines, l.buffer.refused provider = false ∧
    (l.dropped provider = false → ∀ message, l.record provider ≠ some (.error message))
  accepted : accepted provider
    ((lines.filter fun l => !l.dropped provider).filterMap (Line.event provider)) = some a

theorem Kept.concat {lines : List Line} {l : Line} {a' : Answer} (h : Kept provider lines a)
    (hrefused : l.buffer.refused provider = false)
    (hdropped : l.dropped provider = true → a' = a)
    (hrecord : l.dropped provider = false →
      l.record provider = none ∧ a' = a ∨
      ∃ e, l.record provider = some (.ok e) ∧ a.accepts provider e = some a') :
    Kept provider (lines ++ [l]) a' := by
  constructor
  · intro l' hl'
    rcases List.mem_append.mp hl' with hl' | hl'
    · exact h.parsed l' hl'
    · obtain rfl := List.mem_singleton.mp hl'
      refine ⟨hrefused, fun hkept message hm => ?_⟩
      obtain ⟨hnone, -⟩ | ⟨e, he, -⟩ := hrecord hkept
      · cases hnone.symm.trans hm
      · cases he.symm.trans hm
  · rw [List.filter_append, List.filterMap_append]
    cases hd : l.dropped provider with
    | true => simpa [hd, hdropped hd] using h.accepted
    | false =>
      obtain ⟨hnone, rfl⟩ | ⟨e, he, ha⟩ := hrecord hd
      · simpa [hd, Line.event, hnone] using h.accepted
      · have hevent : [l].filterMap (Line.event provider) = [e] := by
          simp [Line.event, he, Except.toOption]
        have hlast : ([l].filter fun l => !l.dropped provider) = [l] := by simp [hd]
        rw [hlast, hevent, accepted_concat, h.accepted]
        exact ha

structure Follows (provider : Provider) (p : Collector) (ls : Lines) : Prop where
  ofProvider : p.provider = provider ∧ p.parser.provider = provider
  buffer : p.buffer = ls.last.buffer
  whole : ∀ l ∈ ls.all, l.Whole
  kept : p.err = none → Kept provider ls.complete p.answer

variable {ls : Lines}

theorem Follows.consume (h : Follows provider p ls) (part : List UInt8) :
    Follows provider (p.consumePart part) (ls.consume part) := by
  refine ⟨h.ofProvider, ?_, fun l hl => ?_, h.kept⟩
  · exact congrArg (·.consumePart part) h.buffer
  · rcases List.mem_append.mp hl with hl | hl
    · exact h.whole l (List.mem_append_left _ hl)
    · obtain rfl := List.mem_singleton.mp hl
      exact (h.whole ls.last (by simp [Lines.all])).consume part

theorem parseLine_rest {line : List UInt8} : (p.parseLine line).provider = p.provider ∧
    (p.parseLine line).parser.provider = p.parser.provider := by
  unfold Collector.parseLine
  split
  · split
    next parser event hparse =>
      obtain ⟨hprovider, hparser⟩ := Collector.accept_rest (p := { p with parser := parser })
        (e := event)
      exact ⟨hprovider, hparser ▸ (parse_ok hparse).1⟩
    next => exact ⟨rfl, rfl⟩
  · exact ⟨rfl, rfl⟩

/-- A line that is kept, and accepted. -/
theorem Kept.parseLine {lines : List Line} {l : Line} (h : Kept provider lines p.answer)
    (hprovider : p.provider = provider) (hparser : p.parser.provider = provider)
    (hover : l.buffer.oversized = false) (herr : (p.parseLine l.bytes).err = none) :
    Kept provider (lines ++ [l]) (p.parseLine l.bytes).answer := by
  refine h.concat (by simp [Buffer.refused, hover])
    (fun hd => by simp [Line.dropped, Buffer.dropped, hover] at hd) fun _ => ?_
  unfold Collector.parseLine at herr ⊢
  split at herr
  next hopens =>
    simp only [hopens, if_true]
    split at herr
    next parser event hparse =>
      obtain ⟨-, haccepts⟩ := Collector.accept_ok herr
      refine .inr ⟨event, ?_, hprovider ▸ haccepts⟩
      rw [Line.record, if_pos hopens, ← hparser, (parse_ok hparse).2]
    next => cases herr
  next hopens =>
    simp only [hopens]
    exact .inl ⟨by rw [Line.record, if_neg hopens], rfl⟩

theorem Follows.finishLine (h : Follows provider p ls) :
    Follows provider p.finishLine ls.endLine := by
  obtain ⟨hprovider, hparser⟩ := h.ofProvider
  refine ⟨?_, rfl, fun l hl => ?_, fun herr => ?_⟩
  · unfold Collector.finishLine
    dsimp only
    split
    · exact h.ofProvider
    · split
      · split <;> exact h.ofProvider
      · exact ⟨parseLine_rest.1.trans hprovider, parseLine_rest.2.trans hparser⟩
  · rcases List.mem_append.mp hl with hl | hl
    · exact h.whole l hl
    · obtain rfl := List.mem_singleton.mp hl
      exact fun _ => rfl
  · unfold Collector.finishLine at herr ⊢
    dsimp only at herr ⊢
    split at herr
    next hne => exact (hne herr).elim
    next hnone =>
      have hkept := h.kept (Decidable.not_not.mp hnone)
      rw [if_neg hnone]
      split at herr
      next hover =>
        rw [if_pos hover]
        split at herr
        next => cases herr
        next hkeep =>
          have hrefused : ls.last.buffer.refused provider = false := by
            rw [← h.buffer, ← hprovider]
            simpa using hkeep
          have hdropped : ls.last.dropped provider = true := by
            rw [h.buffer] at hover
            simp [Line.dropped, Buffer.dropped, hover, hrefused]
          rw [if_neg hkeep]
          exact hkept.concat hrefused (fun _ => rfl) fun hd => by simp [hdropped] at hd
      next hover =>
        rw [if_neg hover]
        have hover : ls.last.buffer.oversized = false := by
          rw [← h.buffer]
          simpa using hover
        have hline : p.buffer.line = ls.last.bytes := by
          rw [h.buffer]
          exact h.whole ls.last (by simp [Lines.all]) hover
        rw [hline] at herr ⊢
        exact hkept.parseLine hprovider hparser hover herr

theorem Follows.writeParts (h : Follows provider p ls) (ps : List (List UInt8)) :
    Follows provider (p.writeParts ps) (ls.writeParts ps) := by
  induction ps generalizing p ls with
  | nil => exact h
  | cons part rest ih =>
    cases rest with
    | nil => exact h.consume part
    | cons next rest => exact ih (h.consume part).finishLine

theorem Follows.step (h : Follows provider p ls) (input : Collector.Input) :
    Follows provider (p.step input) (ls.step input) := by
  cases input with
  | write data => exact h.writeParts (Collector.parts data)
  | observe appendErr =>
    change Follows provider (p.setSessionObserver appendErr) ls
    unfold Collector.setSessionObserver
    split
    · exact h
    · obtain ⟨hprovider, hparser, hbuffer, hanswer, herr⟩ := Collector.reportSession_rest
        (p := { p with onSession := some appendErr })
      refine ⟨⟨hprovider.trans h.ofProvider.1, ?_⟩, hbuffer.trans h.buffer, h.whole, fun hn => ?_⟩
      · rw [hparser]
        exact h.ofProvider.2
      · rw [hanswer]
        exact h.kept (herr hn)

theorem follows_run (provider : Provider) (inputs : List Collector.Input) :
    Follows provider ((newProtocolCollector provider).run inputs) (scan inputs) := by
  have hrun (p : Collector) (ls : Lines) (h : Follows provider p ls) :
      Follows provider (p.run inputs) (inputs.foldl Lines.step ls) := by
    induction inputs generalizing p ls with
    | nil => exact h
    | cons input inputs ih => exact ih _ _ (h.step input)
  refine hrun _ _ ⟨⟨rfl, rfl⟩, rfl, fun l hl => ?_, fun _ => ⟨by simp, rfl⟩⟩
  obtain rfl := List.mem_singleton.mp hl
  exact fun _ => rfl

/-- Where `Finish` meets no error, no line has, and the answer is what they add up to. -/
theorem Follows.drain (h : Follows provider p ls) (herr : p.drain.err = none) :
    p.drain.provider = provider ∧ Kept provider ls.all p.drain.answer := by
  unfold Collector.drain at herr ⊢
  split at herr
  next hline =>
    rw [if_pos hline]
    exact ⟨h.finishLine.ofProvider.1, h.finishLine.kept herr⟩
  next hline =>
    rw [if_neg hline]
    simp only [ne_eq, not_or, Decidable.not_not, Bool.not_eq_true, h.buffer] at hline
    have hbytes : ls.last.bytes = [] :=
      (h.whole ls.last (by simp [Lines.all]) hline.2).symm.trans hline.1
    refine ⟨h.ofProvider.1, (h.kept herr).concat ?_ (fun _ => rfl) fun _ => .inl ⟨?_, rfl⟩⟩
    · simp [Buffer.refused, hline.2]
    · simp [Line.record, opensObject, hbytes, trimLeft]

/-! ## The reference -/

/-- A line of any length, by the same parser and the same rules. -/
def Collector.refer (p : Collector) (line : List UInt8) : Collector :=
  if p.err ≠ none then p
  else if opensObject line = true then
    match parseRecord p.provider (trimReturn line) with
    | .ok event => p.accept event
    | .error message => { p with err := some message }
  else p

/-- What a collector without the limit on lines makes of a stream. -/
def reference (provider : Provider) (bytes : List UInt8) : Outcome :=
  ((Collector.parts bytes).foldl Collector.refer (newProtocolCollector provider)).finish

theorem foldl_refer_of_err {lines : List (List UInt8)} (h : p.err ≠ none) :
    lines.foldl Collector.refer p = p := by
  induction lines with
  | nil => rfl
  | cons line lines ih => rw [List.foldl_cons, Collector.refer, if_pos h, ih]

section
variable {lines : List Line}

theorem refer_of_none {l : Line} (h : l.record p.provider = none) : p.refer l.bytes = p := by
  have hopens : opensObject l.bytes ≠ true := by
    unfold Line.record at h
    split at h
    · cases h
    · assumption
  simp [Collector.refer, hopens]

theorem refer_of_ok {l : Line} (herr : p.err = none) (h : l.record p.provider = some (.ok e)) :
    p.refer l.bytes = p.accept e := by
  unfold Line.record at h
  split at h
  next hopens => simp [Collector.refer, herr, hopens, Option.some.inj h]
  next => cases h

theorem refer_of_error {l : Line} {message : String} (herr : p.err = none)
    (h : l.record p.provider = some (.error message)) : (p.refer l.bytes).err ≠ none := by
  unfold Line.record at h
  split at h
  next hopens => simp [Collector.refer, herr, hopens, Option.some.inj h]
  next => cases h

/-- A reference that meets no error has parsed and accepted every line. -/
theorem foldl_refer_ok (hprovider : p.provider = provider) (hp : p.err = none)
    (herr : ((lines.map Line.bytes).foldl Collector.refer p).err = none) :
    (∀ l ∈ lines, ∀ message, l.record provider ≠ some (.error message)) ∧
      (lines.filterMap (Line.event provider)).foldlM (Answer.accepts provider) p.answer =
        some ((lines.map Line.bytes).foldl Collector.refer p).answer := by
  subst hprovider
  induction lines generalizing p with
  | nil => exact ⟨by simp, rfl⟩
  | cons l lines ih =>
    rw [List.map_cons, List.foldl_cons] at herr ⊢
    have hp' : (p.refer l.bytes).err = none := by
      by_contra hne
      exact hne (foldl_refer_of_err hne ▸ herr)
    cases hr : l.record p.provider with
    | none =>
      rw [refer_of_none hr] at herr ⊢
      obtain ⟨hall, hfold⟩ := ih hp herr
      refine ⟨fun l' hl' message hm => ?_, by simpa [Line.event, hr] using hfold⟩
      rcases List.mem_cons.mp hl' with rfl | hl'
      · cases hr.symm.trans hm
      · exact hall l' hl' message hm
    | some record =>
      cases record with
      | error message => exact (refer_of_error hp hr hp').elim
      | ok e =>
        rw [refer_of_ok hp hr] at herr hp' ⊢
        obtain ⟨hprovider, -⟩ := Collector.accept_rest (p := p) (e := e)
        obtain ⟨hall, hfold⟩ := ih hp' herr
        rw [hprovider] at hall hfold
        refine ⟨fun l' hl' message hm => ?_, ?_⟩
        · rcases List.mem_cons.mp hl' with rfl | hl'
          · cases hr.symm.trans hm
          · exact hall l' hl' message hm
        · have hevent : l.event p.provider = some e := by simp [Line.event, hr, Except.toOption]
          rw [List.filterMap_cons_some hevent, List.foldlM_cons, (Collector.accept_ok hp').2]
          exact hfold

/-- What adds up is accepted by the reference. -/
theorem foldl_refer_of (hprovider : p.provider = provider) (hnone : p.onSession = none)
    (hp : p.err = none)
    (hall : ∀ l ∈ lines, ∀ message, l.record provider ≠ some (.error message))
    (hfold : (lines.filterMap (Line.event provider)).foldlM (Answer.accepts provider) p.answer =
      some a) :
    (lines.map Line.bytes).foldl Collector.refer p = { p with answer := a } := by
  subst hprovider
  induction lines generalizing p with
  | nil =>
    cases hfold
    rfl
  | cons l lines ih =>
    rw [List.map_cons, List.foldl_cons]
    have hrest (l' : Line) (hl' : l' ∈ lines) := hall l' (List.mem_cons_of_mem _ hl')
    cases hr : l.record p.provider with
    | none =>
      rw [refer_of_none hr]
      exact ih hnone hp hrest (by simpa [Line.event, hr] using hfold)
    | some record =>
      cases record with
      | error message => exact (hall l (by simp) message hr).elim
      | ok e =>
        have hevent : l.event p.provider = some e := by simp [Line.event, hr, Except.toOption]
        rw [List.filterMap_cons_some hevent, List.foldlM_cons, Option.bind_eq_bind,
          Option.bind_eq_some_iff] at hfold
        obtain ⟨a', haccepts, hfold⟩ := hfold
        rw [refer_of_ok hp hr, Collector.accept_of_accepts hnone haccepts]
        exact ih hnone hp hrest hfold

end

end
end Orchestrator.Host
