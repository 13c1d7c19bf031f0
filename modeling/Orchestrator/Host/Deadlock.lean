import Orchestrator.Host.Mutexes

/-!
# No thread waits for ever

Who holds a mutex is at an operation that goes on by itself, except for a request whose
acknowledgement is awaited. As long as the reader is there to deliver it, some thread can take a
step until `RunSource` has returned.
-/
namespace Orchestrator.Host.Threads
open Library

/-- The publisher has not been started. -/
def Main.early : Main → Bool
  | .reconcile _ | .announce => true
  | _ => false

namespace Session

section
variable (s : Session)

/-! ## What must not happen -/

/-- An acknowledgement is awaited and has not come. -/
def awaits : Bool :=
  match s.call with
  | some (_, .awaiting) => s.answered = false
  | _ => false

/-- The reader has failed. -/
def failed : Bool := s.reader = .done ∨ s.reader = .pushing .failure

/-- The reader waits for room in the queue. -/
def stuffed : Bool :=
  match s.reader with
  | .pushing _ => 8 ≤ s.frames.length
  | _ => false

/-- The main loop is left: the owner is lost, a frame or an error ends the session. -/
def leaves : Action → Bool
  | .main c => c ≠ .succeed
  | .takeFrame ok =>
    ok = false ∨ s.frames.head? = some .unsupported ∨ s.frames.head? = some .failure
  | .takeWorkerError | .takePublisherError => true
  | _ => false

/-- The request in flight is at this operation. -/
def isAt (c : Call) : Bool := s.call.any (·.2 = c)

/-- While an acknowledgement is awaited, the reader does not fail, and no frame finds the queue
full unless the main loop empties it; no request is written that would not be seen answered; the
main loop is not left with the reader waiting for room; a request is not answered again when it
is over, nor given up while the reader offers an answer. -/
def Heard (a : Action) : Prop :=
  match a with
  | .arrive f => s.awaits = true → f ≠ .failure ∧ (s.main = .serve ∨ s.frames.length < 8)
  | .answer => s.answered = true → s.isAt .writing = true ∨ s.isAt .awaiting = true
  | .call .succeed => s.isAt .writing = true → s.answered = false →
      s.failed = false ∧ (s.main = .serve ∨ s.stuffed = false)
  | .call .fail => s.reader = .offering → s.isAt .writing = false
  | .call .giveUp => s.reader ≠ .offering
  | a => s.leaves a = true → s.main = .serve → s.awaits = true → s.stuffed = false

instance (a : Action) : Decidable (s.Heard a) := by
  unfold Heard
  split <;> infer_instance

end

/-! ## A thread that can go on -/

/-- The publisher is started after the announcement, and the context cancelled at the end. -/
structure Phased (m : Main) (pb : Publisher) (cancelled : Bool) : Prop where
  unstarted : m.early = true → pb = .unstarted
  started : pb = .unstarted → m.early = true ∨ m = .returned
  cancels : m = .awaitPublisher → cancelled = true

/-- An acknowledgement that is awaited can be delivered. -/
structure Hears (s : Session) : Prop where
  awaited : s.awaits = true → s.failed = false ∧ (s.main = .serve ∨ s.stuffed = false)
  offering : s.reader = .offering → s.answered = true →
    s.isAt .writing = true ∨ s.isAt .awaiting = true

/-- Where the threads stand, as far as the mutexes, the queue and the context tell. -/
structure Live (s : Session) : Prop extends
    Phased s.main s.publisher s.cancelled, Hears s, Locked s

variable {s s' : Session} {who : Party} {p : Publish} {c : Choice}

/-- A step is possible. -/
def CanStep (s : Session) : Prop := ∃ a, s.step a ≠ none

/-- A request goes on, while the main loop is not there. -/
theorem Live.call_steps (h : s.Live) {who : Party} {c : Call} (hcall : s.call = some (who, c))
    (hmain : s.main ≠ .serve) : s.CanStep := by
  have hoffers (ho : s.reader = .offering) (ha : s.answered = false) : s.CanStep :=
    ⟨.handOver, by simp [step, Session.handOver, ho, ha]⟩
  cases c with
  | opening => exact ⟨.call .fail, by simp [step, hcall, callStep]⟩
  | writing => exact ⟨.call .fail, by simp [step, hcall, callStep]⟩
  | awaiting =>
    cases ha : s.answered with
    | true => exact ⟨.call .succeed, by simp [step, hcall, callStep, ha]⟩
    | false =>
      have hawaits : s.awaits = true := by simp [awaits, hcall, ha]
      obtain ⟨hfailed, hstuffed⟩ := h.awaited hawaits
      have hstuffed := hstuffed.resolve_left hmain
      cases hr : s.reader with
      | reading => exact ⟨.arrive .stop, by simp [step, hr]⟩
      | pushing f =>
        have hroom : s.frames.length < 8 := by simpa [stuffed, hr] using hstuffed
        exact ⟨.handOver, by simp [step, Session.handOver, hr, hroom]⟩
      | offering => exact hoffers hr ha
      | done => simp [failed, hr] at hfailed
  | closing ok =>
    by_cases ho : s.reader = .offering
    · have ha : s.answered = false := by
        simpa [isAt, hcall] using h.offering ho
      exact hoffers ho ha
    · exact ⟨.call .succeed, by simp [step, hcall, callStep, ho]⟩

/-- Where the mutex of the session is taken, its holder goes on. -/
theorem Live.mutex_steps (h : s.Live) (hmain : s.main ≠ .serve)
    (hfree : s.call = none → s.CanStep) : s.CanStep := by
  cases hcall : s.call with
  | none => exact hfree hcall
  | some held =>
    obtain ⟨who, c⟩ := held
    exact h.call_steps hcall hmain

/-- `PublishAll` goes on, once it has got `publishMu`. -/
theorem Live.publish_steps (h : s.Live) (hmain : s.main ≠ .serve) {who : Party} {p : Publish}
    (hp : s.publish? who = some p) (hlocked : p.locked = true) : s.CanStep := by
  have hpublish {c : Choice} (hnext : s.publish who c p ≠ none) : s.CanStep := by
    cases who with
    | main =>
      refine ⟨.main c, ?_⟩
      change s.main.publish? = some p at hp
      cases hm : s.main <;> rw [hm] at hp <;> simp_all [Main.publish?, step, mainStep]
    | publisher =>
      refine ⟨.publisher c, ?_⟩
      change s.publisher.publish? = some p at hp
      cases hm : s.publisher <;> rw [hm] at hp <;>
        simp_all [Publisher.publish?, step, publisherStep]
    | worker i => cases hp
  cases p with
  | lock => cases hlocked
  | next => exact hpublish (c := .succeed) (by simp [Session.publish])
  | mutex =>
    exact h.mutex_steps hmain fun hfree =>
      hpublish (c := .succeed) (by simp [Session.publish, hfree])
  | calling =>
    have hcalls : s.calls who = true := by cases who <;> simp_all [calls, Session.publish?]
    obtain ⟨⟨who', c⟩, hcall, -⟩ := Option.map_eq_some_iff.mp ((h.calling who).mpr hcalls)
    exact h.call_steps hcall hmain

/-- A thread in `PublishAll` gets `publishMu`, or its holder goes on. -/
theorem Live.publishing_steps (h : s.Live) (hmain : s.main ≠ .serve) {who : Party} {p : Publish}
    (hp : s.publish? who = some p) (hlock : p = .lock → s.publishing = none → s.CanStep) :
    s.CanStep := by
  cases hlocked : p.locked with
  | true => exact h.publish_steps hmain hp hlocked
  | false =>
    have hpl : p = .lock := by cases p <;> first | rfl | cases hlocked
    cases hheld : s.publishing with
    | none => exact hlock hpl hheld
    | some who' =>
      obtain ⟨p', hp', hlocked'⟩ := (Option.any_eq_true _ _).mp ((h.locks who').mp hheld)
      exact h.publish_steps hmain hp' hlocked'

theorem Live.canStep (h : s.Live) (hmain : s.main ≠ .returned) : s.CanStep := by
  cases hm : s.main with
  | reconcile p | flush p =>
    have hp : s.publish? .main = some p := by simp [Session.publish?, hm, Main.publish?]
    refine h.publishing_steps (by simp [hm]) hp fun hl hfree => ⟨.main .succeed, ?_⟩
    simp [step, mainStep, hm, hl, Session.publish, hfree]
  | announce =>
    refine h.mutex_steps (by simp [hm]) fun hfree => ⟨.main .succeed, ?_⟩
    simp [step, mainStep, hm, hfree]
  | serve => exact ⟨.main .succeed, by simp [step, mainStep, hm]⟩
  | teardown => exact ⟨.main .succeed, by simp [step, mainStep, hm]⟩
  | cancelRun => exact ⟨.main .succeed, by simp [step, mainStep, hm]⟩
  | awaitPublisher =>
    have hcancelled := h.cancels hm
    cases hp : s.publisher with
    | unstarted =>
      have hstarted := h.started hp
      simp [hm, Main.early] at hstarted
    | idle => exact ⟨.publisher .fail, by simp [step, publisherStep, hp, hcancelled]⟩
    | publish p =>
      have hpub : s.publish? .publisher = some p := by
        simp [Session.publish?, hp, Publisher.publish?]
      refine h.publishing_steps (by simp [hm]) hpub fun hl hfree => ⟨.publisher .succeed, ?_⟩
      simp [step, publisherStep, hp, hl, Session.publish, hfree]
    | report => exact ⟨.publisher .succeed, by simp [step, publisherStep, hp]⟩
    | done => exact ⟨.main .succeed, by simp [step, mainStep, hm, hp]⟩
  | returned => exact (hmain hm).elim

theorem Live.not_deadlock (h : s.Live) : ¬ s.Deadlock := by
  rintro ⟨hmain, hstuck⟩
  obtain ⟨a, ha⟩ := h.canStep hmain
  exact ha (hstuck a)

theorem live_fresh : ({} : Session).Live where
  unstarted _ := rfl
  started _ := .inl rfl
  cancels := by simp
  awaited := by simp [awaits]
  offering := by simp
  locks := by
    rintro (_ | _ | _) <;>
      simp [holds, Session.publish?, Main.publish?, Publisher.publish?, Publish.locked]
  calling := by
    rintro (_ | _ | _) <;> simp [calls, Session.publish?, Main.publish?, Publisher.publish?]

theorem workerStep_rest {i : Nat} {next : Worker} (hs : s.workerStep i next = some s') :
    ∃ ws b n call,
      s' = { s with workers := ws, signalled := b, workerErrors := n, call := call } ∧
      (call = s.call ∨ s.call = none ∧ call = some (.worker i, .opening)) := by
  cases hw : s.workers[i]? with
  | none => simp [Session.workerStep, hw] at hs
  | some w =>
    simp only [Session.workerStep, hw] at hs
    cases w with
    | provide | running =>
      simp only at hs
      split at hs <;> cases hs
      exact ⟨_, _, _, _, rfl, .inl rfl⟩
    | mutex =>
      simp only at hs
      split at hs
      next hfree =>
        cases hs
        exact ⟨_, _, _, _, rfl, .inr ⟨hfree, rfl⟩⟩
      next => cases hs
    | report =>
      simp only at hs
      split at hs
      · cases hs
        exact ⟨_, _, _, _, rfl, .inl rfl⟩
      · split at hs <;> cases hs
        exact ⟨_, _, _, _, rfl, .inl rfl⟩
    | calling | done => simp at hs

/-! ## The order of the session -/

section
variable {m : Main} {pb : Publisher} {b : Bool}

theorem Phased.of_early (hm : m.early = true) : Phased m .unstarted b :=
  ⟨fun _ => rfl, fun _ => .inl hm, by rintro rfl; cases hm⟩

theorem Phased.of_late (hm : m.early = false) (hpb : pb ≠ .unstarted)
    (hb : m = .awaitPublisher → b = true) : Phased m pb b :=
  ⟨fun h => (by simp [hm] at h), fun h => (hpb h).elim, hb⟩

theorem Phased.of_returned : Phased .returned pb b := ⟨(nomatch ·), fun _ => .inr rfl, (nomatch ·)⟩

theorem Phased.running (h : Phased m pb b) (hm : m.early = false) (hne : m ≠ .returned) :
    pb ≠ .unstarted := by
  intro hpb
  obtain he | he := h.started hpb
  · simp [hm] at he
  · exact hne he

/-- The publisher goes on: what the main loop has done is not touched. -/
theorem Phased.publisher (h : Phased m pb b) {pb' : Publisher} (hpb : pb ≠ .unstarted)
    (hpb' : pb' ≠ .unstarted) : Phased m pb' b :=
  ⟨fun he => (hpb (h.unstarted he)).elim, fun he => (hpb' he).elim, h.cancels⟩

end

theorem setPublish_phased (h : Phased s.main s.publisher s.cancelled)
    (hp : s.publish? who = some p) (q : Publish) :
    Phased (s.setPublish who q).main (s.setPublish who q).publisher
      (s.setPublish who q).cancelled := by
  cases who with
  | worker i => cases hp
  | publisher =>
    change s.publisher.publish? = some p at hp
    exact h.publisher (by rintro he; simp [he, Publisher.publish?] at hp) (by simp [setPublish])
  | main =>
    change s.main.publish? = some p at hp
    simp only [setPublish]
    cases hmain : s.main <;> rw [hmain] at hp h <;> cases hp
    · rw [h.unstarted rfl]
      exact .of_early rfl
    · exact .of_late rfl (h.running rfl (by simp)) (by simp)

theorem published_phased (h : Phased s.main s.publisher s.cancelled)
    (hp : s.publish? who = some p) (ok : Bool) :
    Phased (s.published who ok).main (s.published who ok).publisher
      (s.published who ok).cancelled := by
  cases who with
  | worker i => cases hp
  | publisher =>
    change s.publisher.publish? = some p at hp
    exact h.publisher (by rintro he; simp [he, Publisher.publish?] at hp)
      (by cases ok <;> simp [published])
  | main =>
    change s.main.publish? = some p at hp
    simp only [published]
    cases hmain : s.main <;> rw [hmain] at hp h <;> cases hp
    · rw [h.unstarted rfl]
      cases ok
      · exact .of_returned
      · exact .of_early rfl
    · exact .of_late rfl (h.running rfl (by simp)) (by simp)

theorem publish_phased (h : Phased s.main s.publisher s.cancelled) (hp : s.publish? who = some p)
    (hs : s.publish who c p = some s') : Phased s'.main s'.publisher s'.cancelled := by
  obtain ⟨rfl, -, rfl⟩ | ⟨rfl, rfl⟩ | ⟨rfl, ok, rfl⟩ | ⟨rfl, -, rfl⟩ := publish_cases hs
  · exact setPublish_phased (s := { s with publishing := some who }) h hp .next
  · exact setPublish_phased h hp .mutex
  · exact published_phased h hp ok
  · exact setPublish_phased (s := { s with call := some (who, .opening) }) h hp .calling

theorem resume_phased (h : Phased s.main s.publisher s.cancelled) (hlocked : s.Locked)
    {call : Call} (hcall : s.call = some (who, call)) (ok : Bool) :
    Phased (s.resume who ok).main (s.resume who ok).publisher (s.resume who ok).cancelled := by
  have hcalls : s.calls who = true := (hlocked.calling who).mp (by simp [hcall])
  have hpublish (hp : s.publish? who = some .calling) :
      let t := if ok then { s with call := none }.setPublish who .next
        else { s with call := none }.published who false
      Phased t.main t.publisher t.cancelled := by
    cases ok with
    | true => exact setPublish_phased (s := { s with call := none }) h hp .next
    | false => exact published_phased (s := { s with call := none }) h hp false
  cases who with
  | worker i => exact h
  | main => exact hpublish (by simpa [calls] using hcalls)
  | publisher => exact hpublish (by simpa [calls] using hcalls)

theorem callStep_phased (h : Phased s.main s.publisher s.cancelled) (hlocked : s.Locked)
    {call : Call} (hcall : s.call = some (who, call)) (hs : s.callStep who c call = some s') :
    Phased s'.main s'.publisher s'.cancelled := by
  cases call with
  | opening =>
    dsimp only [Session.callStep] at hs
    split at hs
    · split at hs
      · cases hs
      · cases hs
        exact h
    · cases hs
      exact resume_phased h hlocked hcall false
  | writing =>
    cases hs
    exact h
  | awaiting =>
    dsimp only [Session.callStep] at hs
    split at hs <;> split at hs <;> cases hs
    · exact h
    · exact h
  | closing ok =>
    dsimp only [Session.callStep] at hs
    split at hs <;> cases hs
    exact resume_phased h hlocked hcall ok

theorem handOver_phased (h : Phased s.main s.publisher s.cancelled)
    (hs : s.step .handOver = some s') : Phased s'.main s'.publisher s'.cancelled := by
  dsimp only [Session.step, Session.handOver] at hs
  split at hs
  · split at hs <;> cases hs
    exact h
  · split at hs <;> cases hs
    exact h
  · cases hs
  · cases hs

theorem mainStep_phased (h : Phased s.main s.publisher s.cancelled) {c : Choice}
    (hs : s.step (.main c) = some s') : Phased s'.main s'.publisher s'.cancelled := by
  cases hm : s.main with
  | reconcile p | flush p =>
    simp only [Session.step, Session.mainStep, hm] at hs
    have hpub : s.publish? .main = some p := by
      simp [Session.publish?, hm, Main.publish?]
    exact publish_phased h hpub hs
  | announce =>
    simp only [Session.step, Session.mainStep, hm] at hs
    split at hs
    · cases hs
      split
      · exact .of_late rfl (by simp) (by simp)
      · exact .of_returned
    · cases hs
  | serve =>
    rw [hm] at h
    simp only [Session.step, Session.mainStep, hm] at hs
    cases hs
    split
    · simpa only [hm]
    · exact .of_late rfl (h.running rfl (by simp)) (by simp)
  | teardown =>
    rw [hm] at h
    simp only [Session.step, Session.mainStep, hm] at hs
    cases hs
    exact .of_late rfl (h.running rfl (by simp)) (by simp)
  | cancelRun =>
    rw [hm] at h
    simp only [Session.step, Session.mainStep, hm] at hs
    cases hs
    exact .of_late rfl (h.running rfl (by simp)) fun _ => rfl
  | awaitPublisher =>
    simp only [Session.step, Session.mainStep, hm] at hs
    split at hs
    · cases hs
      exact .of_returned
    · cases hs
  | returned => simp [Session.step, Session.mainStep, hm] at hs

theorem takeFrame_phased (h : Phased s.main s.publisher s.cancelled) {ok : Bool}
    (hs : s.step (.takeFrame ok) = some s') : Phased s'.main s'.publisher s'.cancelled := by
  cases hm : s.main with
  | serve =>
    rw [hm] at h
    have hrunning := h.running rfl (by simp)
    simp only [Session.step, Session.takeFrame, hm] at hs
    cases hf : s.frames with
    | nil => simp [hf] at hs
    | cons f rest =>
      simp only [hf] at hs
      cases f <;> cases hs <;> cases ok <;> exact .of_late rfl hrunning (by simp)
  | reconcile _ | announce | teardown | flush _ | cancelRun | awaitPublisher | returned =>
    simp [Session.step, Session.takeFrame, hm] at hs

theorem publisherStep_phased (h : Phased s.main s.publisher s.cancelled) {c : Choice}
    (hs : s.step (.publisher c) = some s') : Phased s'.main s'.publisher s'.cancelled := by
  cases hp : s.publisher with
  | publish p =>
    simp only [Session.step, Session.publisherStep, hp] at hs
    have hpub : s.publish? .publisher = some p := by
      simp [Session.publish?, hp, Publisher.publish?]
    exact publish_phased h hpub hs
  | unstarted | done => simp [Session.step, Session.publisherStep, hp] at hs
  | idle =>
    rw [hp] at h
    simp only [Session.step, Session.publisherStep, hp] at hs
    split at hs <;> split at hs <;> cases hs <;> exact h.publisher (by simp) (by simp)
  | report =>
    rw [hp] at h
    simp only [Session.step, Session.publisherStep, hp] at hs
    cases hs
    exact h.publisher (by simp) (by simp)

theorem Live.phased (h : s.Live) {a : Action} (hs : s.step a = some s') :
    Phased s'.main s'.publisher s'.cancelled := by
  have hphase := h.toPhased
  cases a with
  | answer | arrive f =>
    dsimp only [Session.step] at hs
    split at hs <;> cases hs
    try split
    all_goals exact hphase
  | handOver => exact handOver_phased hphase hs
  | call c =>
    dsimp only [Session.step] at hs
    split at hs
    next who call hcall => exact callStep_phased hphase h.toLocked hcall hs
    next => cases hs
  | main c => exact mainStep_phased hphase hs
  | takeFrame ok => exact takeFrame_phased hphase hs
  | takeWorkerError | takePublisherError =>
    dsimp only [Session.step] at hs
    split at hs
    next hserve =>
      rw [hserve.1] at hphase
      cases hs
      exact .of_late rfl (hphase.running rfl (by simp)) (by simp)
    next => cases hs
  | publisher c => exact publisherStep_phased hphase hs
  | worker i next =>
    obtain ⟨ws, b, n, call, rfl, -⟩ := workerStep_rest hs
    exact hphase

/-! ## What is awaited is heard -/

/-- The request in flight is where it was, and the queue has the room it had. -/
structure Calm (s s' : Session) : Prop where
  reader : s'.reader = s.reader
  frames : s'.frames.length ≤ s.frames.length
  answered : s'.answered = s.answered
  call : s'.call = s.call ∨
    s.call = none ∧ (s'.call = none ∨ ∃ who, s'.call = some (who, .opening))
  main : s.main = .serve → s'.main = .serve ∨ (s.awaits = true → s.stuffed = false)

theorem Calm.awaits (h : Calm s s') (haw : s'.awaits = true) : s.awaits = true := by
  obtain hcall | ⟨-, hcall | ⟨who, hcall⟩⟩ := h.call
  · simpa [Session.awaits, hcall, h.answered] using haw
  · simp [Session.awaits, hcall] at haw
  · simp [Session.awaits, hcall] at haw

theorem Calm.stuffed (h : Calm s s') (hroom : s.stuffed = false) : s'.stuffed = false := by
  have hframes := h.frames
  cases hr : s.reader <;> simp_all [Session.stuffed, h.reader]
  omega

theorem Hears.calm (h : s.Hears) (hcalm : Calm s s') : s'.Hears where
  awaited haw := by
    have haw := hcalm.awaits haw
    obtain ⟨hfailed, hroom⟩ := h.awaited haw
    refine ⟨by simpa [Session.failed, hcalm.reader] using hfailed, ?_⟩
    obtain hserve | hroom := hroom
    · exact (hcalm.main hserve).imp id fun hleft => hcalm.stuffed (hleft haw)
    · exact .inr (hcalm.stuffed hroom)
  offering ho ha := by
    have hin := h.offering (hcalm.reader ▸ ho) (hcalm.answered ▸ ha)
    obtain hcall | ⟨hnone, -⟩ := hcalm.call
    · simpa only [isAt, hcall] using hin
    · simp [isAt, hnone] at hin

theorem publish_calm (hp : s.publish? who = some p) (hs : s.publish who c p = some s') :
    Calm s s' := by
  have hserve (hmain : s.main = .serve) : who = .publisher := by
    cases who with
    | main => simp [Session.publish?, hmain, Main.publish?] at hp
    | publisher => rfl
    | worker i => cases hp
  have hset (t : Session) (hr : t.reader = s.reader) (hf : t.frames = s.frames)
      (ha : t.answered = s.answered) (hm : t.main = s.main)
      (hc : t.call = s.call ∨
        s.call = none ∧ (t.call = none ∨ ∃ who, t.call = some (who, .opening)))
      (q : Publish) : Calm s (t.setPublish who q) := by
    refine ⟨?_, ?_, ?_, ?_, fun hmain => ?_⟩
    · cases who <;> exact hr
    · cases who <;> exact Nat.le_of_eq (congrArg List.length hf)
    · cases who <;> exact ha
    · cases who <;> exact hc
    · obtain rfl := hserve hmain
      exact .inl (hm.trans hmain)
  obtain ⟨rfl, -, rfl⟩ | ⟨rfl, rfl⟩ | ⟨rfl, ok, rfl⟩ | ⟨rfl, hfree, rfl⟩ := publish_cases hs
  · exact hset { s with publishing := some who } rfl rfl rfl rfl (.inl rfl) .next
  · exact hset s rfl rfl rfl rfl (.inl rfl) .mutex
  · refine ⟨?_, ?_, ?_, ?_, fun hmain => ?_⟩
    · cases who <;> rfl
    · cases who <;> exact Nat.le_refl _
    · cases who <;> rfl
    · cases who <;> exact .inl rfl
    · obtain rfl := hserve hmain
      exact .inl hmain
  · exact hset { s with call := some (who, .opening) } rfl rfl rfl rfl
      (.inr ⟨hfree, .inr ⟨who, rfl⟩⟩) .calling

/-- The main loop changes the request and the queue by taking a frame only. -/
theorem mainStep_calm (hheard : s.Heard (.main c)) (hs : s.mainStep c = some s') :
    Calm s s' := by
  have hleft (hc : c ≠ .succeed) (hmain : s.main = .serve) (haw : s.awaits = true) :
      s.stuffed = false := hheard (by simpa [leaves] using hc) hmain haw
  cases hm : s.main with
  | reconcile p | flush p =>
    simp only [Session.mainStep, hm] at hs
    have hpub : s.publish? .main = some p := by
      simp [Session.publish?, hm, Main.publish?]
    exact publish_calm hpub hs
  | announce =>
    simp only [Session.mainStep, hm] at hs
    split at hs <;> cases hs
    split <;> exact ⟨rfl, Nat.le_refl _, rfl, .inl rfl, by simp [hm]⟩
  | serve =>
    simp only [Session.mainStep, hm] at hs
    cases hs
    split
    · exact ⟨rfl, Nat.le_refl _, rfl, .inl rfl, .inl⟩
    next hne => exact ⟨rfl, Nat.le_refl _, rfl, .inl rfl, fun hmain => .inr (hleft hne hmain)⟩
  | teardown | cancelRun =>
    simp only [Session.mainStep, hm] at hs
    cases hs
    exact ⟨rfl, Nat.le_refl _, rfl, .inl rfl, by simp [hm]⟩
  | awaitPublisher =>
    simp only [Session.mainStep, hm] at hs
    split at hs <;> cases hs
    exact ⟨rfl, Nat.le_refl _, rfl, .inl rfl, by simp [hm]⟩
  | returned => simp [Session.mainStep, hm] at hs

theorem publisherStep_calm (hs : s.publisherStep c = some s') : Calm s s' := by
  cases hp : s.publisher with
  | publish p =>
    simp only [Session.publisherStep, hp] at hs
    have hpub : s.publish? .publisher = some p := by
      simp [Session.publish?, hp, Publisher.publish?]
    exact publish_calm hpub hs
  | unstarted | done => simp [Session.publisherStep, hp] at hs
  | idle =>
    simp only [Session.publisherStep, hp] at hs
    split at hs <;> split at hs <;> cases hs <;> exact ⟨rfl, Nat.le_refl _, rfl, .inl rfl, .inl⟩
  | report =>
    simp only [Session.publisherStep, hp] at hs
    cases hs
    exact ⟨rfl, Nat.le_refl _, rfl, .inl rfl, .inl⟩

theorem takeFrame_calm {ok : Bool} (hheard : s.Heard (.takeFrame ok))
    (hs : s.takeFrame ok = some s') : Calm s s' := by
  cases hm : s.main with
  | serve =>
    simp only [Session.takeFrame, hm] at hs
    cases hf : s.frames with
    | nil => simp [hf] at hs
    | cons f rest =>
      have hrest : rest.length ≤ s.frames.length := by simp [hf]
      have hleft (hl : s.leaves (.takeFrame ok) = true) (haw : s.awaits = true) :
          s.stuffed = false := hheard hl hm haw
      simp only [hf] at hs
      cases f with
      | launch =>
        cases hs
        cases ok with
        | true => exact ⟨rfl, hrest, rfl, .inl rfl, fun _ => .inl rfl⟩
        | false => exact ⟨rfl, hrest, rfl, .inl rfl, fun _ => .inr (hleft (by simp [leaves]))⟩
      | stop =>
        cases hs
        cases ok with
        | true => exact ⟨rfl, hrest, rfl, .inl rfl, fun _ => .inl rfl⟩
        | false => exact ⟨rfl, hrest, rfl, .inl rfl, fun _ => .inr (hleft (by simp [leaves]))⟩
      | unsupported | failure =>
        cases hs
        exact ⟨rfl, hrest, rfl, .inl rfl, fun _ => .inr (hleft (by simp [leaves, hf]))⟩
  | reconcile _ | announce | teardown | flush _ | cancelRun | awaitPublisher | returned =>
    simp [Session.takeFrame, hm] at hs

theorem resume_rest (who : Party) (ok : Bool) : (s.resume who ok).call = none ∧
    (s.resume who ok).reader = s.reader ∧ (s.resume who ok).answered = s.answered := by
  cases who <;> cases ok <;> exact ⟨rfl, rfl, rfl⟩

/-- Where nothing is awaited, the reader must not offer an answer to a full channel. -/
theorem Hears.of_quiet (hawaits : s.awaits = false)
    (hoffers : s.reader = .offering → s.answered = false) : s.Hears where
  awaited haw := by simp [hawaits] at haw
  offering ho ha := by simp [hoffers ho] at ha

theorem Hears.resume (h : s.Hears) {call : Call} (hcall : s.call = some (who, call))
    (hw : call ≠ .writing) (ha : call ≠ .awaiting) (ok : Bool) : (s.resume who ok).Hears := by
  obtain ⟨hnone, hreader, hanswered⟩ := resume_rest (s := s) who ok
  refine .of_quiet (by simp [Session.awaits, hnone]) fun ho => ?_
  rw [hanswered]
  simpa [isAt, hcall, hw, ha] using h.offering (hreader ▸ ho)

theorem Hears.callStep (h : s.Hears) {call : Call} (hcall : s.call = some (who, call))
    (hheard : s.Heard (.call c)) (hs : s.callStep who c call = some s') : s'.Hears := by
  cases call with
  | opening =>
    dsimp only [Session.callStep] at hs
    split at hs
    · split at hs <;> cases hs
      exact .of_quiet rfl fun _ => rfl
    · cases hs
      exact h.resume hcall (by simp) (by simp) false
  | writing =>
    cases hs
    have hwriting : s.isAt .writing = true := by simp [isAt, hcall]
    cases c with
    | succeed =>
      refine ⟨fun haw => hheard hwriting ?_, fun _ _ => .inr rfl⟩
      simpa [Session.awaits] using haw
    | fail => exact .of_quiet rfl fun ho => by simp [hheard ho] at hwriting
    | giveUp => exact .of_quiet rfl fun ho => (hheard ho).elim
  | awaiting =>
    dsimp only [Session.callStep] at hs
    split at hs
    next hgive =>
      subst hgive
      split at hs <;> cases hs
      exact .of_quiet rfl fun ho => (hheard ho).elim
    next =>
      split at hs <;> cases hs
      exact .of_quiet rfl fun _ => rfl
  | closing ok =>
    dsimp only [Session.callStep] at hs
    split at hs <;> cases hs
    exact h.resume hcall (by simp) (by simp) ok

theorem awaits_of_answered (h : s.answered = true) : s.awaits = false := by
  unfold Session.awaits
  split <;> simp [h]

theorem Hears.step (h : s.Hears) {a : Action} (hheard : s.Heard a) (hs : s.step a = some s') :
    s'.Hears := by
  cases a with
  | answer =>
    dsimp only [Session.step] at hs
    split at hs
    next hreads =>
      cases hs
      split
      next hanswered =>
        -- a second answer: the request still awaits the first
        have hquiet := awaits_of_answered (s := { s with reader := .offering }) hanswered
        exact ⟨fun haw => by simp [hquiet] at haw, fun _ _ => hheard hanswered⟩
      next =>
        exact .of_quiet (awaits_of_answered rfl) fun ho => by cases hreads.1.symm.trans ho
    next => cases hs
  | arrive f =>
    dsimp only [Session.step] at hs
    split at hs <;> cases hs
    refine ⟨fun haw => ?_, by simp⟩
    obtain ⟨hf, hroom⟩ := hheard haw
    exact ⟨by simp [failed, hf], hroom.imp id fun hroom => by simpa [stuffed] using hroom⟩
  | handOver =>
    dsimp only [Session.step, Session.handOver] at hs
    split at hs
    next f hr =>
      split at hs <;> cases hs
      refine ⟨fun haw => ?_, by split <;> simp⟩
      obtain ⟨hfailed, -⟩ := h.awaited haw
      have hf : f ≠ .failure := by rintro rfl; simp [failed, hr] at hfailed
      exact ⟨by simp [failed, hf], .inr (by simp [stuffed, hf])⟩
    next hr =>
      split at hs <;> cases hs
      exact .of_quiet (awaits_of_answered rfl) (by simp)
    next => cases hs
    next => cases hs
  | call c =>
    dsimp only [Session.step] at hs
    split at hs
    next who call hcall => exact h.callStep hcall hheard hs
    next => cases hs
  | main c => exact h.calm (mainStep_calm hheard hs)
  | takeFrame ok => exact h.calm (takeFrame_calm hheard hs)
  | takeWorkerError | takePublisherError =>
    dsimp only [Session.step] at hs
    split at hs <;> cases hs
    exact h.calm ⟨rfl, Nat.le_refl _, rfl, .inl rfl, fun hmain => .inr (hheard rfl hmain)⟩
  | publisher c => exact h.calm (publisherStep_calm hs)
  | worker i next =>
    obtain ⟨ws, b, n, call, rfl, hcall⟩ := workerStep_rest hs
    refine h.calm ⟨rfl, Nat.le_refl _, rfl, hcall.imp id fun hc => ⟨hc.1, .inr ⟨_, hc.2⟩⟩, .inl⟩

theorem Live.act (h : s.Live) {a : Action} (hheard : s.Heard a) : (s.act a).Live := by
  unfold Session.act
  cases hs : s.step a with
  | none => exact h
  | some s' =>
    exact ⟨h.phased hs, h.toHears.step hheard hs,
      h.toLocked.step (fun hm => h.unstarted (by simp [hm, Main.early])) hs⟩

/-- In a run whose steps are all heard, some thread can take a step until `RunSource` has
returned. -/
theorem no_deadlock {actions : List Action}
    (hheard : AllSteps Session.act Session.Heard {} actions) :
    ¬ (Session.run {} actions).Deadlock :=
  (run_invariant_when live_fresh (fun _ _ hs hc => Live.act hs hc) hheard).not_deadlock

/-- A session that publishes an event, serves, and loses the connection. -/
theorem lost_connection_returns :
    ¬ (Session.run {} [.main .succeed, .main .succeed, .main .succeed, .call .succeed,
      .call .succeed, .answer, .call .succeed, .call .succeed, .main .giveUp, .main .succeed,
      .arrive .failure, .handOver, .takeFrame true, .main .succeed, .main .succeed,
      .main .giveUp, .main .succeed, .publisher .fail]).Deadlock :=
  no_deadlock (by decide)

/-- The reconcile awaits the acknowledgement of its event, and the connection is lost; or nine
frames arrive before the acknowledgement. -/
theorem reconcile_deadlocks :
    (Session.run {} [.main .succeed, .main .succeed, .main .succeed, .call .succeed,
      .call .succeed, .arrive .failure, .handOver]).Deadlock ∧
    (Session.run {} ([Action.main .succeed, .main .succeed, .main .succeed, .call .succeed,
      .call .succeed] ++ (List.replicate 8 [Action.arrive .stop, .handOver]).flatten ++
      [Action.arrive .stop])).Deadlock := by
  have hlost : Session.run {} [.main .succeed, .main .succeed, .main .succeed, .call .succeed,
      .call .succeed, .arrive .failure, .handOver] = {
        main := .reconcile .calling, reader := .done, frames := [.failure],
        publishing := some .main, call := some (.main, .awaiting) } := by decide
  have hfull : Session.run {} ([Action.main .succeed, .main .succeed, .main .succeed,
      .call .succeed, .call .succeed] ++
      (List.replicate 8 [Action.arrive .stop, .handOver]).flatten ++ [Action.arrive .stop]) = {
        main := .reconcile .calling, reader := .pushing .stop, frames := List.replicate 8 .stop,
        publishing := some .main, call := some (.main, .awaiting) } := by decide
  rw [hlost, hfull]
  refine ⟨⟨by simp, fun a => ?_⟩, ⟨by simp, fun a => ?_⟩⟩
  · cases a with
    | call c => cases c <;> rfl
    | main c => cases c <;> rfl
    | worker i next => simp [Session.step, workerStep]
    | _ => rfl
  · cases a with
    | call c => cases c <;> rfl
    | main c => cases c <;> rfl
    | worker i next => simp [Session.step, workerStep]
    | _ => rfl

end Session
end Orchestrator.Host.Threads
