import Orchestrator.Host.Chunking

/-!
# Lines on which two cuts disagree

A line that one cut shows to be refused, and another does not, ends what is read or is dropped. The
answer is the same only where what follows hides the difference: the error of a refused line comes
anyway, before any line takes a session or gives another error, or the observer fails later.
-/
namespace Orchestrator.Host
open Adapter

/-! ## Sessions and the observer -/

/-- The observer that is installed next, as the error that its append returns, if any. -/
def observer : List (Entry (List UInt8)) → Option (Option String)
  | [] => none
  | .observe appendErr :: _ => some appendErr
  | .line _ :: entries => observer entries

namespace Collector

/-- The observer is called once, as soon as it is installed and there is a session. -/
structure Sound (p : Collector) : Prop where
  told : p.reported = none ↔ p.observerErr = false ∧ p.sessionReported = false
  unset : p.onSession = none → p.reported = none
  seen : p.reported ≠ none → p.answer.sessionObserved = true
  known : p.onSession ≠ none → p.answer.sessionObserved = true → p.reported ≠ none
  named : p.answer.sessionObserved = true → p.answer.sessionId ≠ ""
  empty : p.buffer = {}

/-- What an entry does not take back. -/
structure Leads (p q : Collector) : Prop where
  provider : q.provider = p.provider
  session : p.answer.sessionId ≠ "" → q.answer.sessionId = p.answer.sessionId
  observed : p.answer.sessionObserved = true → q.answer.sessionObserved = true
  reported : p.reported ≠ none → q.reported = p.reported
  installed : p.onSession ≠ none → q.onSession = p.onSession

section
variable {p q r : Collector} {appendErr : Option String} {line : List UInt8} {refused : Bool}
  {provider : Provider} {after : List (Entry (List UInt8))}

theorem Leads.refl (p : Collector) : p.Leads p :=
  ⟨rfl, fun _ => rfl, id, fun _ => rfl, fun _ => rfl⟩

theorem Leads.trans (h : p.Leads q) (h' : q.Leads r) : p.Leads r where
  provider := h'.provider.trans h.provider
  session hne := (h'.session (by rwa [h.session hne])).trans (h.session hne)
  observed hp := h'.observed (h.observed hp)
  reported hne := (h'.reported (by rwa [h.reported hne])).trans (h.reported hne)
  installed hne := (h'.installed (by rwa [h.installed hne])).trans (h.installed hne)

/-- The observer is called with the session, and its append returns. -/
def report (p : Collector) (appendErr : Option String) : Collector :=
  { p with
    reported := some (providerSessionKind p.provider.name, p.answer.sessionId)
    sessionReported := appendErr.isNone
    observerErr := appendErr.isSome
    err := appendErr.or p.err }

theorem reportSession_cases
    (told : p.reported = none ↔ p.observerErr = false ∧ p.sessionReported = false) :
    (p.reportSession = p ∧
      (p.onSession ≠ none → p.answer.sessionObserved = true → p.reported ≠ none)) ∨
    ∃ appendErr, p.onSession = some appendErr ∧ p.answer.sessionObserved = true ∧
      p.reported = none ∧ p.reportSession = p.report appendErr := by
  unfold reportSession
  split
  · rename_i hnone
    exact .inl ⟨rfl, fun hne => absurd hnone hne⟩
  · rename_i appendErr hsome
    split
    · rename_i hquiet
      refine .inl ⟨rfl, fun _ hobserved hnone => ?_⟩
      obtain ⟨herr, hreported⟩ := told.mp hnone
      simp [herr, hreported, hobserved] at hquiet
    · rename_i hquiet
      simp only [not_or, Bool.not_eq_true, Bool.not_eq_false] at hquiet
      obtain ⟨herr, hobserved, hreported⟩ := hquiet
      refine .inr ⟨appendErr, hsome, hobserved, told.mpr ⟨herr, hreported⟩, ?_⟩
      cases appendErr with
      | none => simp [report, herr]
      | some message => simp [report, hreported]

/-- All but that an observer is told as soon as there is a session. -/
structure Settling (p : Collector) : Prop where
  told : p.reported = none ↔ p.observerErr = false ∧ p.sessionReported = false
  unset : p.onSession = none → p.reported = none
  seen : p.reported ≠ none → p.answer.sessionObserved = true
  named : p.answer.sessionObserved = true → p.answer.sessionId ≠ ""
  empty : p.buffer = {}

theorem Settling.reportSession (h : p.Settling) : p.reportSession.Sound ∧ p.Leads p.reportSession ∧
    p.reportSession.onSession = p.onSession ∧ p.reportSession.answer = p.answer := by
  obtain ⟨hsame, hknown⟩ | ⟨appendErr, hon, hobserved, hnone, hreport⟩ := reportSession_cases h.told
  · rw [hsame]
    exact ⟨⟨h.told, h.unset, h.seen, hknown, h.named, h.empty⟩, .refl p, rfl, rfl⟩
  · rw [hreport]
    refine ⟨⟨by cases appendErr <;> simp [report], fun hunset => ?_, fun _ => hobserved,
      fun _ _ => by simp [report], h.named, h.empty⟩,
      ⟨rfl, fun _ => rfl, id, fun hne => absurd hnone hne, fun _ => rfl⟩, rfl, rfl⟩
    cases hon.symm.trans hunset

/-- A record that is not refused has the session of the answer, or the answer has none. -/
theorem session_of_refuses {a : Answer} {e : Adapter.Event} (h : a.refuses provider e = none)
    (hsession : e.sessionId ≠ "") (hknown : a.sessionId ≠ "") : e.sessionId = a.sessionId := by
  unfold Answer.refuses at h
  split at h
  · cases h
  · rename_i hsame
    by_contra hne
    exact hsame ⟨hsession, hknown, Ne.symm hne⟩

theorem record_session {a : Answer} {e : Adapter.Event} :
    (a.record provider e).1.sessionId = a.sessionId ∧
      (a.record provider e).1.sessionObserved = a.sessionObserved := by
  unfold Answer.record
  repeat' split
  all_goals exact ⟨rfl, rfl⟩

theorem Sound.takeSession_leads {e : Adapter.Event} (h : p.Sound)
    (haccept : p.answer.refuses p.provider e = none) :
    (p.takeSession e).Sound ∧ p.Leads (p.takeSession e) ∧
      (p.takeSession e).onSession = p.onSession := by
  unfold Collector.takeSession Answer.takeSession
  by_cases hsession : e.sessionId ≠ ""
  · simp only [if_pos hsession]
    have hnew : (p.answer.sessionObserved || isAuthoritativeSessionEvent p.provider e) = true →
        e.sessionId ≠ "" := fun _ => hsession
    have hleads {observed : Bool} (hobserved : p.answer.sessionObserved = true → observed = true) :
        p.Leads { p with answer := { p.answer with
          sessionId := e.sessionId, sessionObserved := observed } } :=
      ⟨rfl, fun hne => session_of_refuses haccept hsession hne, hobserved, fun _ => rfl,
        fun _ => rfl⟩
    split
    · rename_i hauthority
      obtain ⟨hsound, hreport, hon, -⟩ := Settling.reportSession (p := { p with
        answer := { p.answer with
          sessionId := e.sessionId
          sessionObserved :=
            p.answer.sessionObserved || isAuthoritativeSessionEvent p.provider e } })
        ⟨h.told, h.unset, fun hne => by simp [h.seen hne], hnew, h.empty⟩
      exact ⟨hsound, (hleads fun hobserved => by simp [hobserved]).trans hreport, hon⟩
    · rename_i hauthority
      have hother : isAuthoritativeSessionEvent p.provider e = false := by
        simpa [hsession] using hauthority
      simp only [hother, Bool.or_false]
      exact ⟨⟨h.told, h.unset, h.seen, h.known, fun _ => hsession, h.empty⟩, hleads id, trivial⟩
  · rw [if_neg hsession, if_neg fun hboth => hsession hboth.1]
    exact ⟨h, .refl p, rfl⟩

/-- What a record does to the session. -/
theorem Sound.accept_leads (h : p.Sound) (e : Adapter.Event) :
    (p.accept e).Sound ∧ p.Leads (p.accept e) ∧ (p.accept e).onSession = p.onSession := by
  unfold Collector.accept
  split
  · exact ⟨⟨h.told, h.unset, h.seen, h.known, h.named, h.empty⟩,
      ⟨rfl, fun _ => rfl, id, fun _ => rfl, fun _ => rfl⟩, rfl⟩
  · rename_i haccept
    obtain ⟨hsound, hleads, hon⟩ := h.takeSession_leads haccept
    obtain ⟨hid, hobserved⟩ := @record_session (p.takeSession e).provider (p.takeSession e).answer e
    refine ⟨⟨hsound.told, hsound.unset, fun hne => hobserved.trans (hsound.seen hne),
        fun hne ho => ?_, fun ho => ?_, hsound.empty⟩,
      ⟨hleads.provider, fun hne => hid.trans (hleads.session hne), fun ho => ?_, hleads.reported,
        hleads.installed⟩, hon⟩
    · exact hsound.known hne (hobserved.symm.trans ho)
    · exact fun hempty => hsound.named (hobserved.symm.trans ho) (hid.symm.trans hempty)
    · exact hobserved.trans (hleads.observed ho)

theorem Sound.readLine_leads (h : p.Sound) (line : List UInt8) (refused : Bool) :
    (p.readLine line refused).Sound ∧ p.Leads (p.readLine line refused) ∧
      (p.readLine line refused).onSession = p.onSession := by
  have hplain : ∀ {p' : Collector}, p'.provider = p.provider → p'.answer = p.answer →
      p'.reported = p.reported → p'.onSession = p.onSession → p'.observerErr = p.observerErr →
      p'.sessionReported = p.sessionReported → p'.buffer = p.buffer →
      p'.Sound ∧ p.Leads p' ∧ p'.onSession = p.onSession := by
    intro p' hprovider hanswer hreported hon herr hflag hbuffer
    refine ⟨⟨?_, ?_, ?_, ?_, ?_, hbuffer.trans h.empty⟩, ⟨hprovider, fun _ => by rw [hanswer],
      fun ho => by rwa [hanswer], fun _ => hreported, fun _ => hon⟩, hon⟩
    · rw [hreported, herr, hflag]
      exact h.told
    · rw [hon, hreported]
      exact h.unset
    · rw [hanswer, hreported]
      exact h.seen
    · rw [hon, hanswer, hreported]
      exact h.known
    · rw [hanswer]
      exact h.named
  unfold Collector.readLine
  split
  · exact ⟨h, .refl p, rfl⟩
  split
  · exact hplain rfl rfl rfl rfl rfl rfl rfl
  split
  · exact hplain rfl rfl rfl rfl rfl rfl rfl
  unfold Collector.parseLine
  split
  · split
    · rename_i parser e _
      have hparsed : Sound { p with parser := parser } :=
        ⟨h.told, h.unset, h.seen, h.known, h.named, h.empty⟩
      obtain ⟨hsound, hleads, hon⟩ := hparsed.accept_leads e
      exact ⟨hsound, ⟨hleads.provider, hleads.session, hleads.observed, hleads.reported,
        hleads.installed⟩, hon⟩
    · exact hplain rfl rfl rfl rfl rfl rfl rfl
  · exact ⟨h, .refl p, rfl⟩

/-- What the installation of an observer does. -/
theorem Sound.observe_cases (h : p.Sound) (appendErr : Option String) :
    p.onSession ≠ none ∧ p.setSessionObserver appendErr = p ∨
    p.onSession = none ∧ p.answer.sessionObserved = false ∧
      p.setSessionObserver appendErr = { p with onSession := some appendErr } ∨
    p.onSession = none ∧ p.answer.sessionObserved = true ∧
      p.setSessionObserver appendErr = { p with onSession := some appendErr }.report appendErr := by
  unfold Collector.setSessionObserver
  split
  · rename_i hset
    exact .inl ⟨hset, rfl⟩
  · rename_i hset
    have hnone : p.onSession = none := not_not.mp hset
    have hunset : p.reported = none := h.unset hnone
    obtain ⟨hsame, hknown⟩ | ⟨appendErr', hon, hobserved, -, hreport⟩ :=
      reportSession_cases (p := { p with onSession := some appendErr }) h.told
    · refine .inr (.inl ⟨hnone, ?_, hsame⟩)
      by_contra hobserved
      exact hknown (Option.some_ne_none _) (by simpa using hobserved) hunset
    · cases hon
      exact .inr (.inr ⟨hnone, hobserved, hreport⟩)

theorem Sound.observe_leads (h : p.Sound) (appendErr : Option String) :
    (p.setSessionObserver appendErr).Sound ∧ p.Leads (p.setSessionObserver appendErr) ∧
      (p.setSessionObserver appendErr).onSession ≠ none := by
  unfold Collector.setSessionObserver
  split
  · rename_i hset
    exact ⟨h, .refl p, hset⟩
  · rename_i hset
    have hnone : p.onSession = none := not_not.mp hset
    obtain ⟨hsound, hleads, hon, -⟩ := Settling.reportSession
      (p := { p with onSession := some appendErr })
      ⟨h.told, fun _ => h.unset hnone, h.seen, h.named, h.empty⟩
    refine ⟨hsound, ⟨hleads.provider, hleads.session, hleads.observed, hleads.reported,
      fun hne => absurd hnone hne⟩, ?_⟩
    rw [hon]
    exact Option.some_ne_none _

theorem Sound.read_leads (h : p.Sound) (e : Entry (List UInt8 × Bool)) :
    (p.read e).Sound ∧ p.Leads (p.read e) := by
  cases e with
  | line l => exact ⟨(h.readLine_leads l.1 l.2).1, (h.readLine_leads l.1 l.2).2.1⟩
  | observe appendErr => exact ⟨(h.observe_leads appendErr).1, (h.observe_leads appendErr).2.1⟩

theorem Sound.readAll_leads (h : p.Sound) :
    (p.readAll provider after).Sound ∧ p.Leads (p.readAll provider after) := by
  induction after generalizing p with
  | nil => exact ⟨h, .refl p⟩
  | cons entry after ih =>
    obtain ⟨hsound, hleads⟩ :=
      h.read_leads (entry.map fun line => (line, alwaysRefused provider line))
    obtain ⟨hrest, hleads'⟩ := ih hsound
    exact ⟨hrest, hleads.trans hleads'⟩

/-! ## After an error -/

/-- The call of the observer and the error in the end, once there is an error: the lines are
skipped, but an observer is told of a session that is there. -/
def ending (p : Collector) (after : List (Entry (List UInt8))) :
    Option (String × String) × Option String :=
  match observer after with
  | none => (p.reported, p.err)
  | some appendErr =>
    if p.onSession = none ∧ p.answer.sessionObserved = true then
      (some (providerSessionKind p.provider.name, p.answer.sessionId), appendErr.or p.err)
    else (p.reported, p.err)

theorem ending_observe : p.ending (.observe appendErr :: after) =
    if p.onSession = none ∧ p.answer.sessionObserved = true then
      (some (providerSessionKind p.provider.name, p.answer.sessionId), appendErr.or p.err)
    else (p.reported, p.err) := rfl

theorem ending_of_set (h : p.onSession ≠ none) : p.ending after = (p.reported, p.err) := by
  unfold ending
  split
  · rfl
  · rw [if_neg fun hboth => h hboth.1]

theorem answers_of_err (h : p.Sound) (herr : p.err ≠ none) : (p.readAll provider after).answers =
    ((p.ending after).1, ⟨none, p.answer.sessionId, (p.ending after).2⟩) := by
  induction after generalizing p with
  | nil =>
    obtain ⟨message, hmessage⟩ := Option.ne_none_iff_exists'.mp herr
    simp [readAll, answers, finish, drain, h.empty, ending, observer, hmessage]
  | cons entry after ih =>
    cases entry with
    | line line =>
      have hskip : p.readLine line (alwaysRefused provider line) = p := by
        simp [readLine, herr]
      exact (congrArg (fun q => (q.readAll provider after).answers) hskip).trans (ih h herr)
    | observe appendErr =>
      obtain ⟨hsound, -, hset⟩ := h.observe_leads appendErr
      have herr' := read_of_err herr (e := .observe appendErr)
      refine (ih hsound herr').trans ?_
      rw [ending_of_set hset, ending_observe]
      obtain ⟨hon, hsame⟩ | ⟨hon, hobserved, hsame⟩ | ⟨hon, hobserved, hsame⟩ :=
        h.observe_cases appendErr
      · rw [hsame, if_neg fun hboth => hon hboth.1]
      · rw [hsame, if_neg (by simp [hobserved])]
      · rw [hsame, if_pos ⟨hon, hobserved⟩]
        rfl

end
end Collector

/-! ## What hides the difference -/

def refusal : String := "provider_critical_event_too_large"

/-- No session was taken, as far as the answer and an observer tell. -/
structure KeepsSession (p q : Collector) (after : List (Entry (List UInt8))) : Prop where
  sessionId : q.answer.sessionId = p.answer.sessionId
  reported : q.reported = p.reported
  observed : q.answer.sessionObserved = p.answer.sessionObserved ∨ observer after = none

/-- Among the lines that follow, one gives the error of a refused line before any takes a session
or gives another error. -/
def Overtaken (provider : Provider) (p : Collector) : List (Entry (List UInt8)) → Prop
  | [] => False
  | .observe appendErr :: after => Overtaken provider (p.setSessionObserver appendErr) after
  | .line line :: after =>
    let q := p.readLine line (alwaysRefused provider line)
    KeepsSession p q after ∧ (q.err = some refusal ∨ q.err = none ∧ Overtaken provider q after)

/-- An observer that comes later fails with a session that was there before. -/
def FailsLater (p : Collector) (after : List (Entry (List UInt8))) : Prop :=
  p.onSession = none ∧ p.answer.sessionObserved = true ∧
    ∃ message, observer after = some (some message)

/-- A collector that has dropped a line, and one that has refused it. -/
structure Twins (d r : Collector) (after : List (Entry (List UInt8))) : Prop where
  provider : d.provider = r.provider
  onSession : d.onSession = r.onSession
  session : KeepsSession r d after
  dropped : d.Sound
  refused : r.Sound

section
variable {d r : Collector} {provider : Provider} {after : List (Entry (List UInt8))}
  {appendErr : Option String}

/-- With the same error, they end alike. -/
theorem Twins.answers (h : Twins d r after) (herr : d.err = r.err) (hne : r.err ≠ none) :
    (d.readAll provider after).answers = (r.readAll provider after).answers := by
  rw [Collector.answers_of_err h.dropped (by rwa [herr]), Collector.answers_of_err h.refused hne]
  have hending : d.ending after = r.ending after := by
    unfold Collector.ending
    cases hafter : observer after with
    | none => rw [h.session.reported, herr]
    | some appendErr =>
      have hobserved := h.session.observed.resolve_right (by simp [hafter])
      simp only [h.onSession, hobserved, h.provider, h.session.sessionId, h.session.reported, herr]
  rw [hending, h.session.sessionId]

theorem Twins.observe (h : Twins d r (.observe appendErr :: after)) :
    Twins (d.setSessionObserver appendErr) (r.setSessionObserver appendErr) after := by
  have hobserved : d.answer.sessionObserved = r.answer.sessionObserved :=
    h.session.observed.resolve_right (by simp [observer])
  obtain ⟨hsound, hleads, -⟩ := h.dropped.observe_leads appendErr
  obtain ⟨hsound', hleads', -⟩ := h.refused.observe_leads appendErr
  have hrest : (d.setSessionObserver appendErr).onSession =
        (r.setSessionObserver appendErr).onSession ∧
      KeepsSession (r.setSessionObserver appendErr) (d.setSessionObserver appendErr) after := by
    obtain ⟨hon, hsame⟩ | ⟨hon, ho, hsame⟩ | ⟨hon, ho, hsame⟩ := h.dropped.observe_cases appendErr
    · obtain ⟨hon', hsame'⟩ | ⟨hon', -⟩ | ⟨hon', -⟩ := h.refused.observe_cases appendErr
      · rw [hsame, hsame']
        exact ⟨h.onSession, h.session.sessionId, h.session.reported, .inl hobserved⟩
      · exact absurd (h.onSession.trans hon') hon
      · exact absurd (h.onSession.trans hon') hon
    · obtain ⟨hon', hsame'⟩ | ⟨hon', ho', hsame'⟩ | ⟨hon', ho', hsame'⟩ :=
        h.refused.observe_cases appendErr
      · exact absurd (h.onSession.symm.trans hon) hon'
      · rw [hsame, hsame']
        exact ⟨rfl, h.session.sessionId, h.session.reported, .inl hobserved⟩
      · cases ho.symm.trans (hobserved.trans ho')
    · obtain ⟨hon', hsame'⟩ | ⟨hon', ho', hsame'⟩ | ⟨hon', ho', hsame'⟩ :=
        h.refused.observe_cases appendErr
      · exact absurd (h.onSession.symm.trans hon) hon'
      · cases ho'.symm.trans (hobserved.symm.trans ho)
      · rw [hsame, hsame']
        refine ⟨rfl, h.session.sessionId, ?_, .inl hobserved⟩
        simp only [Collector.report, h.provider, h.session.sessionId]
  exact ⟨hleads.provider.trans (h.provider.trans hleads'.provider.symm), hrest.1, hrest.2, hsound,
    hsound'⟩

theorem Twins.line {line : List UInt8} (h : Twins d r (.line line :: after))
    (hkeeps : KeepsSession d (d.readLine line (alwaysRefused provider line)) after) :
    Twins (d.readLine line (alwaysRefused provider line)) r after := by
  obtain ⟨hsound, hleads, hon⟩ := h.dropped.readLine_leads line (alwaysRefused provider line)
  have hobserved : d.answer.sessionObserved = r.answer.sessionObserved ∨ observer after = none :=
    h.session.observed
  refine ⟨hleads.provider.trans h.provider, hon.trans h.onSession,
    ⟨hkeeps.sessionId.trans h.session.sessionId, hkeeps.reported.trans h.session.reported, ?_⟩,
    hsound, h.refused⟩
  obtain heq | hnone := hkeeps.observed
  · exact hobserved.imp_left heq.trans
  · exact .inr hnone

theorem readAll_line {p : Collector} {line : List UInt8} :
    p.readAll provider (.line line :: after) =
      (p.readLine line (alwaysRefused provider line)).readAll provider after := rfl

theorem readAll_observe {p : Collector} : p.readAll provider (.observe appendErr :: after) =
    (p.setSessionObserver appendErr).readAll provider after := rfl

/-- After an error the lines are skipped. -/
theorem readLine_of_err {p : Collector} {line : List UInt8} {refused : Bool} (h : p.err ≠ none) :
    p.readLine line refused = p := by
  rw [Collector.readLine, if_pos h]

/-- Unless it fails, an observer leaves the error what it is. -/
theorem observe_err {p : Collector} (h : p.Sound)
    (hnot : ¬ FailsLater p (.observe appendErr :: after)) :
    (p.setSessionObserver appendErr).err = p.err := by
  obtain ⟨-, hsame⟩ | ⟨-, -, hsame⟩ | ⟨hon, hobserved, hsame⟩ := h.observe_cases appendErr
  · rw [hsame]
  · rw [hsame]
  · rw [hsame]
    cases appendErr with
    | none => rfl
    | some message => exact absurd ⟨hon, hobserved, message, rfl⟩ hnot

theorem ending_err {p : Collector} (hnot : ¬ FailsLater p after) : (p.ending after).2 = p.err := by
  unfold Collector.ending
  cases hafter : observer after with
  | none => rfl
  | some appendErr =>
    dsimp only
    split
    · rename_i hboth
      cases appendErr with
      | none => rfl
      | some message => exact absurd ⟨hboth.1, hboth.2, message, hafter⟩ hnot
    · rfl

/-- The observer fails with the session that both have, whatever the lines before it say. -/
theorem FailsLater.answers (h : FailsLater d after) (hd : d.Sound) (hr : r.Sound)
    (hprovider : d.provider = r.provider) (hon : r.onSession = none)
    (hobserved : r.answer.sessionObserved = true)
    (hid : d.answer.sessionId = r.answer.sessionId) (herr : r.err ≠ none) :
    (d.readAll provider after).answers = (r.readAll provider after).answers := by
  obtain ⟨hunset, hseen, message, hafter⟩ := h
  induction after generalizing d with
  | nil => cases hafter
  | cons entry after ih =>
    cases entry with
    | line line =>
      obtain ⟨hsound, hleads, hon'⟩ := hd.readLine_leads line (alwaysRefused provider line)
      rw [readAll_line, readAll_line, readLine_of_err herr]
      exact ih hsound (hleads.provider.trans hprovider)
        ((hleads.session (hd.named hseen)).trans hid) (hon'.trans hunset) (hleads.observed hseen)
        hafter
    | observe appendErr =>
      cases hafter
      have htwins : Twins d r (.observe (some message) :: after) :=
        ⟨hprovider, hunset.trans hon.symm, ⟨hid, (hd.unset hunset).trans (hr.unset hon).symm,
          .inl (hseen.trans hobserved.symm)⟩, hd, hr⟩
      have hfails {p : Collector} (hp : p.Sound) (hnone : p.onSession = none)
          (ho : p.answer.sessionObserved = true) :
          (p.setSessionObserver (some message)).err = some message := by
        obtain ⟨hset, -⟩ | ⟨-, hnot, -⟩ | ⟨-, -, hsame⟩ := hp.observe_cases (some message)
        · exact absurd hnone hset
        · cases hnot.symm.trans ho
        · rw [hsame]
          rfl
      have hsame := (hfails hd hunset hseen).trans (hfails hr hon hobserved).symm
      exact htwins.observe.answers hsame
        (by rw [hfails hr hon hobserved]; exact Option.some_ne_none _)

/-- The error of a refused line comes anyway. -/
theorem Overtaken.answers (h : Overtaken provider d after) (htwins : Twins d r after)
    (herr : d.err = none) (hrefused : r.err = some refusal) :
    (d.readAll provider after).answers = (r.readAll provider after).answers := by
  have hne : r.err ≠ none := by rw [hrefused]; exact Option.some_ne_none _
  induction after generalizing d r with
  | nil => cases h
  | cons entry after ih =>
    cases entry with
    | line line =>
      obtain ⟨hkeeps, hdone⟩ := h
      have hnext := htwins.line hkeeps
      rw [readAll_line, readAll_line, readLine_of_err hne]
      obtain hsame | ⟨hquiet, hrest⟩ := hdone
      · exact hnext.answers (hsame.trans hrefused.symm) hne
      · exact ih hrest hnext hquiet hrefused hne
    | observe appendErr =>
      by_cases hfails : FailsLater d (.observe appendErr :: after)
      · have hobserved := htwins.session.observed.resolve_right (by simp [observer])
        exact hfails.answers htwins.dropped htwins.refused htwins.provider
          (htwins.onSession.symm.trans hfails.1) (hobserved.symm.trans hfails.2.1)
          htwins.session.sessionId hne
      · have hfails' : ¬ FailsLater r (.observe appendErr :: after) := fun hf => hfails
          ⟨htwins.onSession.trans hf.1,
            (htwins.session.observed.resolve_right (by simp [observer])).trans hf.2.1, hf.2.2⟩
        have hrefused' := (observe_err htwins.refused hfails').trans hrefused
        rw [readAll_observe, readAll_observe]
        exact ih h htwins.observe ((observe_err htwins.dropped hfails).trans herr) hrefused'
          (by rw [hrefused']; exact Option.some_ne_none _)

/-! ## Nothing else hides it -/

theorem outcome_err {a : Answer} : (a.outcome provider).err ≠ some refusal := by
  unfold Answer.outcome
  cases a.terminal with
  | none => simp [refusal]
  | some t =>
    dsimp only
    generalize (if t.sessionId = "" then a.sessionId else t.sessionId) = session
    generalize (if t.text = "" ∧ (provider = .grok ∨ provider = .codex) then a.message
      else t.text) = text
    split
    · simp [refusal]
    · split <;> simp [refusal]

/-- What a collector answers that gives the error of a refused line in the end. -/
theorem answers_refusal {p : Collector} {sessionId : String} {reported : Option (String × String)}
    (h : p.Sound) (hsame : p.answers = (reported, ⟨none, sessionId, some refusal⟩)) :
    p.reported = reported ∧ p.answer.sessionId = sessionId ∧ p.err = some refusal := by
  have hdrain : p.drain = p := by simp [Collector.drain, h.empty]
  obtain ⟨hreported, hfinish⟩ := Prod.mk.inj hsame
  rw [hdrain] at hreported
  unfold Collector.finish at hfinish
  rw [hdrain] at hfinish
  cases herr : p.err with
  | none =>
    rw [herr] at hfinish
    exact absurd (congrArg Outcome.err hfinish) outcome_err
  | some message =>
    rw [herr] at hfinish
    obtain ⟨-, hid, hmessage⟩ := Outcome.mk.inj hfinish
    exact ⟨hreported, hid, hmessage⟩

/-- Where an observer comes, it is installed in the end. -/
theorem readAll_installed {p : Collector} (h : p.Sound) (hafter : observer after = some appendErr) :
    (p.readAll provider after).onSession ≠ none := by
  induction after generalizing p with
  | nil => cases hafter
  | cons entry after ih =>
    cases entry with
    | line line => exact ih (h.readLine_leads line _).1 hafter
    | observe appendErr' =>
      obtain ⟨hsound, -, hset⟩ := h.observe_leads appendErr'
      rw [readAll_observe, hsound.readAll_leads.2.installed hset]
      exact hset

/-- A line that takes a session is told apart from one that is refused. -/
theorem Twins.keepsSession {line : List UInt8} (h : Twins d r (.line line :: after))
    (hnot : ¬ FailsLater r after) (hrefused : r.err = some refusal)
    (hsame : (d.readAll provider (.line line :: after)).answers =
      (r.readAll provider after).answers) :
    KeepsSession d (d.readLine line (alwaysRefused provider line)) after := by
  obtain ⟨hsound, hleads, hon⟩ := h.dropped.readLine_leads line (alwaysRefused provider line)
  have hne : r.err ≠ none := by rw [hrefused]; exact Option.some_ne_none _
  rw [readAll_line] at hsame
  generalize d.readLine line (alwaysRefused provider line) = q at hsound hleads hon hsame ⊢
  obtain ⟨hfinal, hleads'⟩ : (q.readAll provider after).Sound ∧ q.Leads _ := hsound.readAll_leads
  rw [Collector.answers_of_err h.refused hne, ending_err hnot, hrefused] at hsame
  obtain ⟨hreported, hid, -⟩ := answers_refusal hfinal hsame
  have hsession : q.answer.sessionId = d.answer.sessionId := by
    by_cases hempty : d.answer.sessionId = ""
    · by_contra hnew
      rw [hempty] at hnew
      rw [hleads'.session hnew, ← h.session.sessionId, hempty] at hid
      exact hnew hid
    · exact hleads.session hempty
  have hcall : q.reported = d.reported := by
    by_cases hnone : d.reported = none
    · by_contra hnew
      rw [hnone] at hnew
      have hset : r.onSession ≠ none := by
        rw [← h.onSession, ← hon]
        exact fun hunset => hnew (hsound.unset hunset)
      rw [Collector.ending_of_set hset, hleads'.reported hnew, ← h.session.reported,
        hnone] at hreported
      exact hnew hreported
    · exact hleads.reported hnone
  refine ⟨hsession, hcall, ?_⟩
  cases hafter : observer after with
  | none => exact .inr rfl
  | some appendErr =>
    refine .inl ?_
    have hobserved : d.answer.sessionObserved = r.answer.sessionObserved :=
      h.session.observed.resolve_right (by simp [observer, hafter])
    cases hd : d.answer.sessionObserved with
    | true => exact hleads.observed hd
    | false =>
      -- the observer would be called with it
      by_contra hnew
      rw [Bool.not_eq_false] at hnew
      have hquiet : d.reported = none := by
        by_contra hcalled
        cases hd.symm.trans (h.dropped.seen hcalled)
      have hcalled := hfinal.known (readAll_installed hsound hafter) (hleads'.observed hnew)
      rw [hreported, Collector.ending, hafter] at hcalled
      dsimp only at hcalled
      rw [if_neg (by rw [← hobserved, hd]; simp), ← h.session.reported] at hcalled
      exact hcalled hquiet

theorem Twins.failsLater_iff (h : Twins d r after) : FailsLater d after ↔ FailsLater r after := by
  have hobserved (hafter : observer after ≠ none) :
      d.answer.sessionObserved = r.answer.sessionObserved := h.session.observed.resolve_right hafter
  constructor
  · rintro ⟨hon, ho, message, hafter⟩
    exact ⟨h.onSession.symm.trans hon, (hobserved (by simp [hafter])).symm.trans ho, message,
      hafter⟩
  · rintro ⟨hon, ho, message, hafter⟩
    exact ⟨h.onSession.trans hon, (hobserved (by simp [hafter])).trans ho, message, hafter⟩

theorem Twins.overtaken (h : Twins d r after) (herr : d.err = none)
    (hrefused : r.err = some refusal) (hnot : ¬ FailsLater r after)
    (hsame : (d.readAll provider after).answers = (r.readAll provider after).answers) :
    Overtaken provider d after := by
  have hne : r.err ≠ none := by rw [hrefused]; exact Option.some_ne_none _
  induction after generalizing d r with
  | nil =>
    rw [Collector.answers_of_err h.refused hne, ending_err hnot, hrefused] at hsame
    cases herr.symm.trans (answers_refusal h.dropped hsame).2.2
  | cons entry after ih =>
    cases entry with
    | observe appendErr =>
      have hquiet := (observe_err h.dropped fun hf => hnot (h.failsLater_iff.mp hf)).trans herr
      have hrefused' := (observe_err h.refused hnot).trans hrefused
      have hset := (h.refused.observe_leads appendErr).2.2
      exact ih h.observe hquiet hrefused' (fun hlater => hset hlater.1) hsame
        (by rw [hrefused']; exact Option.some_ne_none _)
    | line line =>
      have hnot : ¬ FailsLater r after := hnot
      rw [readAll_line (p := r), readLine_of_err hne] at hsame
      have hkeeps := h.keepsSession hnot hrefused hsame
      have hnext := h.line hkeeps
      refine ⟨hkeeps, ?_⟩
      rw [readAll_line] at hsame
      generalize d.readLine line (alwaysRefused provider line) = q at hnext hsame
      cases hq : q.err with
      | none => exact .inr ⟨rfl, ih hnext hq hrefused hnot hsame hne⟩
      | some message =>
        have hnot' : ¬ FailsLater q after := fun hf => hnot (hnext.failsLater_iff.mp hf)
        rw [Collector.answers_of_err hnext.dropped (by rw [hq]; exact Option.some_ne_none _),
          Collector.answers_of_err hnext.refused hne, ending_err hnot', ending_err hnot, hq,
          hrefused] at hsame
        exact .inl (congrArg (fun a => a.2.err) hsame)

/-- The answer is the same whether a line was dropped or refused only where what follows hides
it. -/
theorem Twins.answers_iff (h : Twins d r after) (herr : d.err = none)
    (hrefused : r.err = some refusal) :
    (d.readAll provider after).answers = (r.readAll provider after).answers ↔
      FailsLater d after ∨ Overtaken provider d after := by
  constructor
  · intro hsame
    by_cases hfails : FailsLater d after
    · exact .inl hfails
    · exact .inr (h.overtaken herr hrefused (fun hf => hfails (h.failsLater_iff.mpr hf)) hsame)
  · have hne : r.err ≠ none := by rw [hrefused]; exact Option.some_ne_none _
    rintro (hfails | hover)
    · have hfails' := h.failsLater_iff.mp hfails
      exact hfails.answers h.dropped h.refused h.provider hfails'.1 hfails'.2.1
        h.session.sessionId hne
    · exact hover.answers h herr hrefused

end

/-! ## The same answer, however the lines are cut -/

section Same
variable {provider : Provider} {p : Collector} {inputs : List Collector.Input}
  {entries before : List (Entry Line)} {s : List (Entry (List UInt8))}

theorem newProtocolCollector_sound : (newProtocolCollector provider).Sound :=
  ⟨⟨fun _ => ⟨rfl, rfl⟩, fun _ => rfl⟩, fun _ => rfl, fun h => absurd rfl h, fun h => absurd rfl h,
    fun h => (by cases h), rfl⟩

/-- A line that one cut shows to be refused and another does not, reached without an error, is
followed by what hides the difference. -/
def Harmless (provider : Provider) (s : List (Entry (List UInt8))) : Prop :=
  ∀ before line after, s = before ++ .line line :: after →
    sometimesRefused provider line = true → alwaysRefused provider line = false →
    let p := (newProtocolCollector provider).readAll provider before
    p.err = none →
      FailsLater (p.readLine line false) after ∨ Overtaken provider (p.readLine line false) after

/-- Whether the line is refused or dropped. -/
theorem readLine_twins {line : List UInt8} {after : List (Entry (List UInt8))} (h : p.Sound)
    (herr : p.err = none) (hlong : providerEventLimit < line.length) :
    Twins (p.readLine line false) (p.readLine line true) after ∧
      (p.readLine line false).err = none ∧ (p.readLine line true).err = some refusal := by
  have hdropped := (h.readLine_leads line false).1
  have hrefused := (h.readLine_leads line true).1
  have hd : p.readLine line false = { p with droppedOversize := p.droppedOversize + 1 } := by
    simp [Collector.readLine, herr, hlong]
  have hr : p.readLine line true = { p with err := some refusal } := by
    simp [Collector.readLine, herr, refusal]
  rw [hd] at hdropped ⊢
  rw [hr] at hrefused ⊢
  exact ⟨⟨rfl, rfl, ⟨rfl, rfl, .inl rfl⟩, hdropped, hrefused⟩, herr, rfl⟩

theorem readLine_answers_iff {line : List UInt8} {after : List (Entry (List UInt8))}
    (h : p.Sound) (herr : p.err = none) (hsometimes : sometimesRefused provider line = true) :
    ((p.readLine line false).readAll provider after).answers =
        ((p.readLine line true).readAll provider after).answers ↔
      FailsLater (p.readLine line false) after ∨
        Overtaken provider (p.readLine line false) after := by
  have hlong : providerEventLimit < line.length := by
    simp only [sometimesRefused, Bool.and_eq_true, decide_eq_true_eq] at hsometimes
    exact hsometimes.1
  obtain ⟨htwins, hd, hr⟩ := readLine_twins h herr hlong
  exact htwins.answers_iff hd hr

/-- The answer to what follows such a line is the same. -/
theorem harmless_iff : Harmless provider s ↔ ∀ before line after,
    s = before ++ .line line :: after → sometimesRefused provider line = true →
    alwaysRefused provider line = false →
    let p := (newProtocolCollector provider).readAll provider before
    p.err = none → ((p.readLine line false).readAll provider after).answers =
      ((p.readLine line true).readAll provider after).answers := by
  have hsound (before : List (Entry (List UInt8))) :
      ((newProtocolCollector provider).readAll provider before).Sound :=
    newProtocolCollector_sound.readAll_leads.1
  constructor
  · intro h before line after hs hsometimes hnot p herr
    exact (readLine_answers_iff (hsound before) herr hsometimes).mpr
      (h before line after hs hsometimes hnot herr)
  · intro h before line after hs hsometimes hnot p herr
    exact (readLine_answers_iff (hsound before) herr hsometimes).mp
      (h before line after hs hsometimes hnot herr)

/-- After an error it does not matter what was seen of the lines. -/
theorem foldl_read_of_err (h : p.err ≠ none) :
    (entries.map (.map (Line.judged provider))).foldl Collector.read p =
      p.readAll provider (entries.map (.map Line.bytes)) := by
  induction entries generalizing p with
  | nil => rfl
  | cons entry entries ih =>
    have hsame : p.read (entry.map (Line.judged provider)) =
        p.read ((entry.map Line.bytes).map fun line => (line, alwaysRefused provider line)) := by
      cases entry with
      | line l => simp [Entry.map, Collector.read, Collector.readLine, h]
      | observe appendErr => rfl
    rw [List.map_cons, List.foldl_cons, ih (Collector.read_of_err h), hsame]
    rfl

theorem Harmless.answers (h : Harmless provider s)
    (hs : s = (before ++ entries).map (.map Line.bytes))
    (hp : p = (newProtocolCollector provider).readAll provider (before.map (.map Line.bytes)))
    (hheld : ∀ l, .line l ∈ entries → Held l.bytes l.buffer) :
    ((entries.map (.map (Line.judged provider))).foldl Collector.read p).answers =
      (p.readAll provider (entries.map (.map Line.bytes))).answers := by
  induction entries generalizing before p with
  | nil => rfl
  | cons entry entries ih =>
    -- where this entry is read alike, so is the rest
    have hnext (hsame : p.read (entry.map (Line.judged provider)) = p.read
        ((entry.map Line.bytes).map fun line => (line, alwaysRefused provider line))) :
        (((entry :: entries).map (.map (Line.judged provider))).foldl Collector.read p).answers =
          (p.readAll provider ((entry :: entries).map (.map Line.bytes))).answers := by
      rw [List.map_cons, List.foldl_cons, hsame, @ih _ (before ++ [entry])
        (by simpa using hs) (by simp [hp, Collector.readAll]) fun l hl =>
          hheld l (List.mem_cons_of_mem _ hl)]
      rfl
    cases entry with
    | observe appendErr => exact hnext rfl
    | line l =>
      have hl := hheld l List.mem_cons_self
      by_cases herr : p.err = none
      · by_cases hflag : l.buffer.refused provider = alwaysRefused provider l.bytes
        · exact hnext (by simp [Entry.map, Line.judged, hflag])
        · have hnot : alwaysRefused provider l.bytes = false := by
            by_contra halways
            have halways : alwaysRefused provider l.bytes = true := by simpa using halways
            exact hflag ((hl.always halways).trans halways.symm)
          have hrefused : l.buffer.refused provider = true := by simpa [hnot] using hflag
          have hafter := harmless_iff.mp h (before.map (.map Line.bytes)) l.bytes
            (entries.map (.map Line.bytes)) (by simp [hs, Entry.map]) (hl.sometimes hrefused) hnot
            (hp ▸ herr)
          rw [← hp] at hafter
          have herr' : (p.readLine l.bytes true).err ≠ none := by simp [Collector.readLine, herr]
          have hread := @foldl_read_of_err provider _ entries herr'
          simp only [List.map_cons, List.foldl_cons, Entry.map, Line.judged, hrefused,
            Collector.read, Collector.readAll, hnot] at hread hafter ⊢
          rw [hread, ← hafter]
      · refine hnext ?_
        simp [Entry.map, Collector.read, Collector.readLine, herr]

/-- Cuts that agree, if any cut of the lines is among them, leave only harmless lines. -/
theorem harmless_of_agree {cutsOf : List Collector.Input → Prop}
    (hexists : ∀ cuts, Cuts cuts s → ∃ cut, cutsOf cut ∧ trace cut = cuts.map (Entry.map lineOf))
    (h : ∀ cut cut', cutsOf cut → cutsOf cut' → ((newProtocolCollector provider).run cut).answers =
      ((newProtocolCollector provider).run cut').answers) : Harmless provider s := by
  rw [harmless_iff]
  intro before line after hs hsometimes hnot p herr
  obtain ⟨chunks, hpieces, hrefused⟩ := exists_refused hsometimes
  obtain ⟨cut, hcut, htrace⟩ := hexists (s.map (Entry.map bytewise))
    ⟨map_flatten_bytewise, fun _ => small_bytewise⟩
  obtain ⟨cut', hcut', htrace'⟩ := hexists
    (before.map (Entry.map bytewise) ++ Entry.line chunks :: after.map (Entry.map bytewise)) (by
      refine ⟨?_, fun c hc => ?_⟩
      · rw [List.map_append, map_flatten_bytewise, List.map_cons, map_flatten_bytewise, hs,
          Entry.map, hpieces.flatten]
      · rcases List.mem_append.mp hc with hc | hc
        · exact small_bytewise hc
        · rcases List.mem_cons.mp hc with heq | hc
          · cases heq
            exact hpieces.small
          · exact small_bytewise hc)
  have hsame := h cut cut' hcut hcut'
  have hjudged : (lineOf chunks).judged provider = (line, true) := by
    rw [Line.judged, lineOf, hpieces.flatten, hrefused]
  rw [run_answers, run_answers, htrace, htrace', map_judged_bytewise, List.map_append,
    List.map_append, map_judged_bytewise, List.map_cons, List.map_cons, map_judged_bytewise, hs,
    List.map_append, List.map_cons] at hsame
  simpa [Entry.map, hjudged, hnot, Collector.read, p, Collector.readAll] using hsame

/-- Where its lines are harmless, a cut is read as if they were cut byte by byte. -/
theorem run_of_harmless (h : Harmless provider (script inputs)) :
    ((newProtocolCollector provider).run inputs).answers =
      ((newProtocolCollector provider).readAll provider (script inputs)).answers := by
  rw [run_answers]
  exact @Harmless.answers provider _ _ [] _ h rfl rfl fun l hl => (trace_held l hl).1

/-- However the lines are cut, the observer is called alike and the answer is the same, if and only
if no line that one cut shows to be refused, and another does not, makes a difference. Without an
observer this is so of any two ways to write the same bytes. -/
theorem cuts_agree_iff (provider : Provider) (inputs : List Collector.Input) (bytes : List UInt8) :
    ((∀ cut cut', script cut = script inputs → script cut' = script inputs →
      ((newProtocolCollector provider).run cut).answers =
        ((newProtocolCollector provider).run cut').answers) ↔
      Harmless provider (script inputs)) ∧
    ((∀ cut cut', Writes cut → Writes cut' → stream cut = bytes → stream cut' = bytes →
      ((newProtocolCollector provider).run cut).answers =
        ((newProtocolCollector provider).run cut').answers) ↔
      Harmless provider ((Collector.parts bytes).map .line)) := by
  refine ⟨⟨fun h => ?_, fun h cut cut' hcut hcut' => ?_⟩, fun h => ?_,
    fun h cut cut' hw hw' hcut hcut' => ?_⟩
  · refine harmless_of_agree (fun cuts hcuts => ?_) h
    obtain ⟨cut, hscript, htrace, -⟩ := exists_cut hcuts
    exact ⟨cut, hscript, htrace⟩
  · rw [run_of_harmless (hcut ▸ h), run_of_harmless (hcut' ▸ h), hcut, hcut']
  · have hall (cut cut' : List Collector.Input) (hcut : Writes cut ∧ stream cut = bytes)
        (hcut' : Writes cut' ∧ stream cut' = bytes) := h cut cut' hcut.1 hcut'.1 hcut.2 hcut'.2
    refine harmless_of_agree (fun cuts hcuts => ?_) hall
    obtain ⟨cut, hwrites, hstream, htrace⟩ := exists_writes hcuts
    exact ⟨cut, ⟨hwrites, hstream⟩, htrace⟩
  · have hscript : script cut = (Collector.parts bytes).map .line := by
      rw [script_of_writes hw, hcut]
    have hscript' : script cut' = (Collector.parts bytes).map .line := by
      rw [script_of_writes hw', hcut']
    rw [run_of_harmless (hscript ▸ h), run_of_harmless (hscript' ▸ h), hscript, hscript']

end Same

/-! ## Where two cuts differ -/

/-- After white space of two bytes, a brace opens a line of `n` letters. -/
def blankLine (n : Nat) : List UInt8 := 0xC2 :: 0x85 :: 0x7B :: List.replicate n 0x61

section Differ
variable {n : Nat} {l : Line} {inputs : List Collector.Input}

theorem blankLine_lacks {b : UInt8} (hb : b ∉ [0xC2, 0x85, 0x7B, 0x61]) : b ∉ blankLine n := by
  simp only [List.mem_cons, not_or] at hb
  simp [blankLine, List.mem_replicate, hb]

/-- The answer depends on whether the writes have shown the brace. -/
theorem answers_blankLine (htrace : trace inputs = [.line l]) (hbytes : l.bytes = blankLine n)
    (hlong : providerEventLimit < n) :
    ((newProtocolCollector .codex).run inputs).answers =
      (none, ⟨none, "", some (if l.buffer.structured = true then
        "provider_critical_event_too_large" else "provider_terminal_missing")⟩) := by
  have hheld := (@trace_held inputs l (by simp [htrace])).1
  rw [hbytes] at hheld
  have hlength : providerEventLimit < (blankLine n).length := by
    simp only [blankLine, List.length_cons, List.length_replicate]
    omega
  have hover : l.buffer.oversized = true := by
    by_contra hover
    exact absurd (hheld.line (by simpa using hover)).2 (Nat.not_le.mpr hlength)
  have hcritical : l.buffer.critical = false := by
    by_contra hcritical
    obtain ⟨probe, hin, -, hm⟩ :=
      hasWindow_iff.mp (hheld.looked.wide (by simpa using hcritical))
    have hlacks : 0x72 ∉ probe := fun hmem => blankLine_lacks (by decide) (hin.subset hmem)
    rw [hasMarker_false hlacks] at hm
    cases hm
  have hrefused : l.buffer.refused .codex = l.buffer.structured := by
    simp [Buffer.refused, hover, hcritical]
  rw [run_answers, htrace]
  cases hstructured : l.buffer.structured with
  | true =>
    simp [Entry.map, Line.judged, Collector.read, Collector.readLine, hrefused, hstructured,
      newProtocolCollector, Collector.answers, Collector.finish, Collector.drain]
  | false =>
    simp [Entry.map, Line.judged, Collector.read, Collector.readLine, hrefused, hstructured,
      newProtocolCollector, Collector.answers, Collector.finish, Collector.drain, hbytes, hlength,
      Answer.outcome]

/-- The line in one write, and with the white space cut. -/
def wholeCut (n : Nat) : List Collector.Input := [.write (blankLine n)]

def blankCut (n : Nat) : List Collector.Input :=
  [.write [0xC2], .write (0x85 :: 0x7B :: List.replicate n 0x61)]

theorem wholeCut_structured : (({} : Buffer).consumePart (blankLine n)).structured = true := by
  have hcount : ((blankLine n).length + 4095) / 4096 = (n + 2) / 4096 + 1 := by
    simp only [blankLine, List.length_cons, List.length_replicate]
    omega
  let first := 0xC2 :: 0x85 :: 0x7B :: (List.replicate n (0x61 : UInt8)).take 4093
  have hfirst : (blankLine n).take 4096 = first := rfl
  have htrim : (trimLeft first).head? = some 0x7B := by
    rw [trimLeft_cons_pair rfl rfl]
    exact trimLeft_of_brace rfl
  have hne : trimLeft first ≠ [] := by
    intro hnil
    rw [hnil] at htrim
    cases htrim
  obtain ⟨hcontent, hstructured, -⟩ := @consumeChunk_observe first {}
  rw [Buffer.consumePart, hcount, Buffer.chunks, hfirst, List.foldl_cons, structured_stays,
    hstructured]
  · simp [Buffer.observe, hne, opensObject, htrim]
  · rw [hcontent]
    simp [Buffer.observe, hne]

theorem blankCut_structured (part : List UInt8) :
    ((({} : Buffer).consumePart [0xC2]).consumePart part).structured = false := by
  have hcut : ({} : Buffer).consumePart [0xC2] =
      { line := [0xC2], contentObserved := true, markerTail := [0xC2] } := by decide +kernel
  rw [hcut]
  exact structured_stays rfl

theorem trace_wholeCut : trace (wholeCut n) = [.line (({} : Line).consume (blankLine n))] := by
  have hlacks : 0x0A ∉ blankLine n := blankLine_lacks (by decide)
  rw [trace, wholeCut, List.foldl_cons, Trace.step, parts_single hlacks]
  rfl

theorem trace_blankCut : trace (blankCut n) = [.line ((({} : Line).consume [0xC2]).consume
    (0x85 :: 0x7B :: List.replicate n 0x61))] := by
  have hlacks : 0x0A ∉ blankLine n := blankLine_lacks (by decide)
  have hlacks' : 0x0A ∉ 0x85 :: 0x7B :: List.replicate n (0x61 : UInt8) := fun hmem =>
    hlacks (List.mem_cons_of_mem _ hmem)
  have hfirst : Collector.parts [0xC2] = [[0xC2]] := parts_single (by decide)
  rw [trace, blankCut, List.foldl_cons, List.foldl_cons, Trace.step, Trace.step, hfirst,
    parts_single hlacks']
  rfl

/-- A line over the limit that opens with white space of two bytes is refused in one write, and
dropped where the white space is cut. -/
theorem cuts_differ (hlong : providerEventLimit < n) :
    stream (wholeCut n) = stream (blankCut n) ∧
      ((newProtocolCollector .codex).run (wholeCut n)).answers ≠
        ((newProtocolCollector .codex).run (blankCut n)).answers := by
  constructor
  · simp [stream, wholeCut, blankCut, blankLine]
  · have hwhole := answers_blankLine trace_wholeCut rfl hlong
    have hblank := answers_blankLine trace_blankCut rfl hlong
    rw [Line.consume, wholeCut_structured, if_pos rfl] at hwhole
    rw [Line.consume, Line.consume, blankCut_structured, if_neg Bool.false_ne_true] at hblank
    rw [hwhole, hblank]
    intro hsame
    have herr := congrArg (fun a => a.2.err) hsame
    exact absurd herr (by simp)

/-- 65,537 letters are too long for a line. -/
theorem long_line_differs : stream (wholeCut 65537) = stream (blankCut 65537) ∧
    ((newProtocolCollector .codex).run (wholeCut 65537)).answers ≠
      ((newProtocolCollector .codex).run (blankCut 65537)).answers :=
  cuts_differ (by decide)

end Differ

end Orchestrator.Host
