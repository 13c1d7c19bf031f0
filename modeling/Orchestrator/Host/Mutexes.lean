import Orchestrator.Host.Session

/-!
# The mutexes of a Host session

Who holds `publishMu`, or the mutex of the session, is the thread that is at an operation under
it: every operation takes or leaves a mutex together with its thread.
-/
namespace Orchestrator.Host.Threads
open Library

/-! ## A mutex and its holder -/

section
variable {α : Type} [DecidableEq α]

/-- The holder is who is at an operation under the mutex. -/
def Held (holder : Option α) (under : α → Bool) : Prop :=
  ∀ who, holder = some who ↔ under who = true

variable {holder : Option α} {under : α → Bool} {who : α}

theorem Held.acquire (h : Held none under) : Held (some who) (Function.update under who true) := by
  intro who'
  by_cases heq : who' = who
  · simp [heq]
  · rw [Function.update_of_ne heq, ← h who']
    simpa using fun h => heq h.symm

theorem Held.release (h : Held (some who) under) :
    Held none (Function.update under who false) := by
  intro who'
  by_cases heq : who' = who
  · simp [heq]
  · rw [Function.update_of_ne heq, ← h who']
    simpa using fun h => heq h.symm

theorem Held.stay (h : Held holder under) {b : Bool} (hb : under who = b) :
    Held holder (Function.update under who b) := by
  rwa [← hb, Function.update_eq_self]

end

/-! ## Where the threads stand -/

/-- The operation of `PublishAll` the main loop is at. -/
def Main.publish? : Main → Option Publish
  | .reconcile p | .flush p => some p
  | _ => none

def Publisher.publish? : Publisher → Option Publish
  | .publish p => some p
  | _ => none

/-- The operations under `publishMu`. -/
def Publish.locked : Publish → Bool
  | .lock => false
  | .next | .mutex | .calling => true

namespace Session

/-- The operation of `PublishAll` a thread is at. -/
def publish? (s : Session) : Party → Option Publish
  | .main => s.main.publish?
  | .publisher => s.publisher.publish?
  | .worker _ => none

/-- The thread is at an operation under `publishMu`. -/
def holds (s : Session) (who : Party) : Bool := (s.publish? who).any Publish.locked

/-- The thread has a request in flight. -/
def calls (s : Session) : Party → Bool
  | .worker i => s.workers[i]? = some .calling
  | who => s.publish? who = some .calling

/-- The mutexes are held by who is at an operation under them. -/
structure Locked (s : Session) : Prop where
  locks : Held s.publishing s.holds
  calling : Held (s.call.map Prod.fst) s.calls

variable {s s' : Session} {who : Party} {p : Publish} {c : Choice}

/-! ## What one operation changes -/

theorem publish?_setPublish (hp : s.publish? who ≠ none) (p : Publish) :
    (s.setPublish who p).publish? = Function.update s.publish? who (some p) := by
  funext who'
  cases who with
  | main =>
    cases hm : s.main <;> simp [Session.publish?, hm, Main.publish?] at hp <;>
      cases who' <;> simp [Function.update, Session.publish?, setPublish, hm, Main.publish?]
  | publisher =>
    cases who' <;> simp [Function.update, Session.publish?, setPublish, Publisher.publish?]
  | worker i => simp [Session.publish?] at hp

theorem publish?_published (hp : s.publish? who ≠ none) (ok : Bool) :
    (s.published who ok).publish? = Function.update s.publish? who none := by
  funext who'
  cases who with
  | main =>
    cases hm : s.main <;> simp [Session.publish?, hm, Main.publish?] at hp <;>
      cases who' <;> cases ok <;>
      simp [Function.update, Session.publish?, published, hm, Main.publish?]
  | publisher =>
    cases who' <;> cases ok <;>
      simp [Function.update, Session.publish?, published, Publisher.publish?]
  | worker i => simp [Session.publish?] at hp

theorem holds_update {o : Option Publish} (h : s'.publish? = Function.update s.publish? who o) :
    s'.holds = Function.update s.holds who (o.any Publish.locked) := by
  funext who'
  by_cases heq : who' = who
  · simp [holds, h, heq]
  · simp [holds, h, heq]

theorem calls_update {o : Option Publish} (h : s'.publish? = Function.update s.publish? who o)
    (hw : s'.workers = s.workers) (hp : s.publish? who ≠ none) :
    s'.calls = Function.update s.calls who (o = some .calling) := by
  funext who'
  by_cases heq : who' = who
  · subst heq
    cases who' with
    | main | publisher => simp only [calls, h, Function.update_self]
    | worker i => simp [Session.publish?] at hp
  · cases who' <;> simp [calls, h, heq, hw]

/-- An operation of `PublishAll` takes or leaves a mutex, or neither. -/
theorem publish_cases (h : s.publish who c p = some s') :
    (p = .lock ∧ s.publishing = none ∧
      s' = { s with publishing := some who }.setPublish who .next) ∨
    (p = .next ∧ s' = s.setPublish who .mutex) ∨
    (p = .next ∧ ∃ ok, s' = s.published who ok) ∨
    (p = .mutex ∧ s.call = none ∧
      s' = { s with call := some (who, .opening) }.setPublish who .calling) := by
  cases p with
  | lock =>
    rw [Session.publish] at h
    split at h
    next hfree => exact .inl ⟨rfl, hfree, (Option.some.inj h).symm⟩
    next => cases h
  | next =>
    cases c with
    | succeed => exact .inr (.inl ⟨rfl, (Option.some.inj h).symm⟩)
    | fail => exact .inr (.inr (.inl ⟨rfl, false, (Option.some.inj h).symm⟩))
    | giveUp => exact .inr (.inr (.inl ⟨rfl, true, (Option.some.inj h).symm⟩))
  | mutex =>
    rw [Session.publish] at h
    split at h
    next hfree => exact .inr (.inr (.inr ⟨rfl, hfree, (Option.some.inj h).symm⟩))
    next => cases h
  | calling => cases h

theorem setPublish_rest (who : Party) (p : Publish) :
    (s.setPublish who p).publishing = s.publishing ∧ (s.setPublish who p).call = s.call ∧
      (s.setPublish who p).workers = s.workers := by
  cases who <;> exact ⟨rfl, rfl, rfl⟩

theorem published_rest (who : Party) (hw : ∀ i, who ≠ .worker i) (ok : Bool) :
    (s.published who ok).publishing = none ∧ (s.published who ok).call = s.call ∧
      (s.published who ok).workers = s.workers := by
  cases who with
  | worker i => exact (hw i rfl).elim
  | main | publisher => exact ⟨rfl, rfl, rfl⟩

/-- The mutexes after a thread has gone on in `PublishAll`, or left it. -/
theorem Locked.update (h : s.Locked) (hp : s.publish? who ≠ none) {o : Option Publish}
    (hviews : s'.publish? = Function.update s.publish? who o) (hworkers : s'.workers = s.workers)
    (hlocks : Held s.publishing s.holds →
      Held s'.publishing (Function.update s.holds who (o.any Publish.locked)))
    (hcalling : Held (s.call.map Prod.fst) s.calls →
      Held (s'.call.map Prod.fst) (Function.update s.calls who (o = some .calling))) :
    s'.Locked where
  locks := by rw [holds_update hviews]; exact hlocks h.locks
  calling := by rw [calls_update hviews hworkers hp]; exact hcalling h.calling

/-- Before its request a thread in `PublishAll` has not got the mutex of the session. -/
theorem not_calls (hp : s.publish? who = some p) (hne : p ≠ .calling) : s.calls who = false := by
  cases who with
  | main | publisher => simp [calls, hp, hne]
  | worker i => cases hp

theorem Locked.publish (h : s.Locked) (hp : s.publish? who = some p)
    (hs : s.publish who c p = some s') : s'.Locked := by
  have hsome : s.publish? who ≠ none := by simp [hp]
  have hholds : s.holds who = p.locked := by simp [holds, hp]
  have hnw (i : Nat) : who ≠ .worker i := by rintro rfl; cases hp
  obtain ⟨rfl, hfree, rfl⟩ | ⟨rfl, rfl⟩ | ⟨rfl, ok, rfl⟩ | ⟨rfl, hfree, rfl⟩ := publish_cases hs
  · obtain ⟨hlock, hcall, hworkers⟩ := setPublish_rest
      (s := { s with publishing := some who }) who .next
    have hviews := publish?_setPublish (s := { s with publishing := some who }) hsome .next
    refine h.update hsome hviews hworkers (fun hl => ?_) fun hc => ?_
    · rw [hlock]
      rw [hfree] at hl
      exact hl.acquire
    · rw [hcall]
      exact Held.stay hc (not_calls hp (by simp))
  · obtain ⟨hlock, hcall, hworkers⟩ := setPublish_rest (s := s) who .mutex
    refine h.update hsome (publish?_setPublish hsome .mutex) hworkers (fun hl => ?_) fun hc => ?_
    · rw [hlock]
      exact Held.stay hl hholds
    · rw [hcall]
      exact Held.stay hc (not_calls hp (by simp))
  · obtain ⟨hlock, hcall, hworkers⟩ := published_rest (s := s) who hnw ok
    refine h.update hsome (publish?_published hsome ok) hworkers (fun hl => ?_) fun hc => ?_
    · rw [hlock]
      rw [(hl who).mpr hholds] at hl
      exact hl.release
    · rw [hcall]
      exact Held.stay hc (not_calls hp (by simp))
  · obtain ⟨hlock, hcall, hworkers⟩ := setPublish_rest
      (s := { s with call := some (who, .opening) }) who .calling
    have hviews := publish?_setPublish
      (s := { s with call := some (who, .opening) }) hsome .calling
    refine h.update hsome hviews hworkers (fun hl => ?_) fun hc => ?_
    · rw [hlock]
      exact Held.stay hl hholds
    · rw [hcall]
      rw [hfree] at hc
      exact hc.acquire

theorem calls_worker {i : Nat} {next : Worker} (hi : i < s.workers.length)
    (hviews : s'.publish? = s.publish?) (hworkers : s'.workers = s.workers.set i next) :
    s'.calls = Function.update s.calls (.worker i) (next = .calling) := by
  funext who
  cases who with
  | main | publisher => simp [calls, hviews]
  | worker j =>
    by_cases heq : j = i
    · subst heq
      simp [calls, hworkers, hi]
    · rw [Function.update_of_ne (by simpa using heq)]
      simp [calls, hworkers, Ne.symm heq]

/-- The request of a thread is over. -/
theorem Locked.resume (h : s.Locked) {call : Call} (hcall : s.call = some (who, call))
    (ok : Bool) : (s.resume who ok).Locked := by
  have hcalls : s.calls who = true := (h.calling who).mp (by simp [hcall])
  have hfreed (hc : Held (s.call.map Prod.fst) s.calls) :
      Held none (Function.update s.calls who false) := by
    rw [hcall] at hc
    exact hc.release
  have hpublish (hp : s.publish? who = some .calling) (hnw : ∀ i, who ≠ .worker i) :
      (if ok then { s with call := none }.setPublish who .next
        else { s with call := none }.published who false).Locked := by
    have hsome : s.publish? who ≠ none := by simp [hp]
    have hholds : s.holds who = true := by simp [holds, hp, Publish.locked]
    cases ok with
    | true =>
      obtain ⟨hlock, hnone, hworkers⟩ := setPublish_rest (s := { s with call := none }) who .next
      have hviews := publish?_setPublish (s := { s with call := none }) hsome .next
      refine h.update hsome hviews hworkers (fun hl => ?_) fun hc => ?_
      · simp only [if_true, hlock]
        exact Held.stay hl hholds
      · simp only [if_true, hnone]
        exact hfreed hc
    | false =>
      obtain ⟨hlock, hnone, hworkers⟩ :=
        published_rest (s := { s with call := none }) who hnw false
      have hviews := publish?_published (s := { s with call := none }) hsome false
      refine h.update hsome hviews hworkers (fun hl => ?_) fun hc => ?_
      · rw [(hl who).mpr hholds] at hl
        simpa [hlock] using hl.release
      · simpa [hnone] using hfreed hc
  cases who with
  | worker i =>
    have hi : s.workers[i]? = some .calling := by simpa [calls] using hcalls
    obtain ⟨hlt, -⟩ := List.getElem?_eq_some_iff.mp hi
    refine ⟨h.locks, ?_⟩
    have hnext : (s.resume (.worker i) ok).calls = Function.update s.calls (.worker i)
        ((if ok then Worker.running else .report) = .calling) := calls_worker hlt rfl rfl
    rw [hnext]
    cases ok <;> exact hfreed h.calling
  | main => exact hpublish (by simpa [calls] using hcalls) (by simp)
  | publisher => exact hpublish (by simpa [calls] using hcalls) (by simp)

/-- Elsewhere a thread moves outside of the mutexes. -/
theorem Locked.same (h : s.Locked) (hpublishing : s'.publishing = s.publishing)
    (hcall : s'.call.map Prod.fst = s.call.map Prod.fst)
    (hholds : ∀ who, s'.holds who = s.holds who) (hcalls : ∀ who, s'.calls who = s.calls who) :
    s'.Locked where
  locks := by rw [hpublishing, funext hholds]; exact h.locks
  calling := by rw [hcall, funext hcalls]; exact h.calling

theorem Locked.callStep (h : s.Locked) {call : Call} (hcall : s.call = some (who, call))
    (hs : s.callStep who c call = some s') : s'.Locked := by
  cases call with
  | opening =>
    dsimp only [Session.callStep] at hs
    split at hs
    · split at hs
      · cases hs
      · cases hs
        exact h.same rfl (by simp [hcall]) (fun _ => rfl) fun _ => rfl
    · cases hs
      exact h.resume hcall false
  | writing =>
    cases hs
    exact h.same rfl (by simp [hcall]) (fun _ => rfl) fun _ => rfl
  | awaiting =>
    dsimp only [Session.callStep] at hs
    split at hs
    · split at hs
      · cases hs
        exact h.same rfl (by simp [hcall]) (fun _ => rfl) fun _ => rfl
      · cases hs
    · split at hs
      · cases hs
        exact h.same rfl (by simp [hcall]) (fun _ => rfl) fun _ => rfl
      · cases hs
  | closing ok =>
    dsimp only [Session.callStep] at hs
    split at hs
    · cases hs
    · cases hs
      exact h.resume hcall ok

/-- The operation is not under a mutex. -/
def Outside (o : Option Publish) : Prop := o = none ∨ o = some .lock

theorem Outside.holds {o : Option Publish} (h : Outside o) : o.any Publish.locked = false := by
  obtain rfl | rfl := h <;> rfl

theorem Outside.calls {o : Option Publish} (h : Outside o) : o ≠ some .calling := by
  obtain rfl | rfl := h <;> simp

/-- The main loop and the publisher move outside of the mutexes. -/
theorem Locked.outside (h : s.Locked) (hpublishing : s'.publishing = s.publishing)
    (hcall : s'.call = s.call) (hworkers : s'.workers = s.workers)
    (hviews : ∀ who, s'.publish? who = s.publish? who ∨
      Outside (s.publish? who) ∧ Outside (s'.publish? who)) : s'.Locked := by
  refine h.same hpublishing (by rw [hcall]) (fun who => ?_) fun who => ?_
  · obtain heq | ⟨hout, hout'⟩ := hviews who
    · simp only [Session.holds, heq]
    · simp only [Session.holds, hout.holds, hout'.holds]
  · have hcalling : s'.publish? who = some .calling ↔ s.publish? who = some .calling := by
      obtain heq | ⟨hout, hout'⟩ := hviews who
      · rw [heq]
      · simp only [hout.calls, hout'.calls]
    cases who with
    | worker i => simp only [Session.calls, hworkers]
    | main | publisher => simp only [Session.calls, hcalling]

theorem Locked.mainStep (h : s.Locked)
    (hannounce : s.main = .announce → s.publisher = .unstarted)
    (hs : s.mainStep c = some s') : s'.Locked := by
  have hmoves {m : Main} {pb : Publisher} {b : Bool} (hm : Outside s.main.publish?)
      (hnext : Outside m.publish?)
      (hpb : pb = s.publisher ∨ Outside s.publisher.publish? ∧ Outside pb.publish?) :
      ({ s with main := m, publisher := pb, cancelled := b } : Session).Locked := by
    refine h.outside rfl rfl rfl fun who => ?_
    cases who with
    | main => exact .inr ⟨hm, hnext⟩
    | publisher => exact hpb.imp (congrArg Publisher.publish?) id
    | worker i => exact .inl rfl
  have hnone : Outside none := .inl rfl
  have hlock : Outside (some .lock) := .inr rfl
  cases hm : s.main with
  | reconcile p | flush p =>
    simp only [Session.mainStep, hm] at hs
    have hpub : s.publish? .main = some p := by
      simp [Session.publish?, hm, Main.publish?]
    exact h.publish hpub hs
  | announce =>
    simp only [Session.mainStep, hm] at hs
    have hpb : s.publisher = .unstarted := hannounce hm
    split at hs
    · cases hs
      split
      · exact hmoves (by simpa [hm]) hnone (.inr ⟨by simpa [hpb], hnone⟩)
      · exact hmoves (by simpa [hm]) hnone (.inl rfl)
    · cases hs
  | serve =>
    simp only [Session.mainStep, hm] at hs
    cases hs
    split
    · exact h
    · exact hmoves (by simpa [hm]) hnone (.inl rfl)
  | teardown =>
    simp only [Session.mainStep, hm] at hs
    cases hs
    exact hmoves (by simpa [hm]) hlock (.inl rfl)
  | cancelRun =>
    simp only [Session.mainStep, hm] at hs
    cases hs
    exact hmoves (by simpa [hm]) hnone (.inl rfl)
  | awaitPublisher =>
    simp only [Session.mainStep, hm] at hs
    split at hs
    · cases hs
      exact hmoves (by simpa [hm]) hnone (.inl rfl)
    · cases hs
  | returned => simp [Session.mainStep, hm] at hs

theorem Locked.publisherStep (h : s.Locked) (hs : s.publisherStep c = some s') : s'.Locked := by
  have hmoves {pb : Publisher} {b e : Bool} (hp : Outside s.publisher.publish?)
      (hnext : Outside pb.publish?) :
      ({ s with publisher := pb, signalled := b, publisherErrors := e } : Session).Locked := by
    refine h.outside rfl rfl rfl fun who => ?_
    cases who with
    | main | worker i => exact .inl rfl
    | publisher => exact .inr ⟨hp, hnext⟩
  cases hp : s.publisher with
  | publish p =>
    simp only [Session.publisherStep, hp] at hs
    have hpub : s.publish? .publisher = some p := by
      simp [Session.publish?, hp, Publisher.publish?]
    exact h.publish hpub hs
  | unstarted | done => simp [Session.publisherStep, hp] at hs
  | idle =>
    simp only [Session.publisherStep, hp] at hs
    split at hs
    · split at hs
      · cases hs
        exact hmoves (.inl (by simp [hp, Publisher.publish?])) (.inr rfl)
      · cases hs
    · split at hs
      · cases hs
        exact hmoves (.inl (by simp [hp, Publisher.publish?])) (.inl rfl)
      · cases hs
  | report =>
    simp only [Session.publisherStep, hp] at hs
    cases hs
    exact hmoves (.inl (by simp [hp, Publisher.publish?])) (.inl rfl)

theorem Locked.workerStep (h : s.Locked) {i : Nat} {next : Worker}
    (hs : s.workerStep i next = some s') : s'.Locked := by
  have hmoves {w next : Worker} (hw : s.workers[i]? = some w) (hne : w ≠ .calling)
      (hne' : next ≠ .calling) (b : Bool) (n : Nat) :
      ({ s with signalled := b, workerErrors := n }.setWorker i next).Locked := by
    obtain ⟨hlt, -⟩ := List.getElem?_eq_some_iff.mp hw
    have hcalls : ({ s with signalled := b, workerErrors := n }.setWorker i next).calls =
        Function.update s.calls (.worker i) (next = .calling) := calls_worker hlt rfl rfl
    refine ⟨h.locks, ?_⟩
    rw [hcalls]
    exact Held.stay h.calling (by simp [Session.calls, hw, hne, hne'])
  cases hw : s.workers[i]? with
  | none => simp [Session.workerStep, hw] at hs
  | some w =>
    simp only [Session.workerStep, hw] at hs
    cases w with
    | provide =>
      simp only at hs
      split at hs
      next hnext =>
        cases hs
        have hne : next ≠ .calling := by obtain rfl | rfl | rfl | rfl := hnext <;> simp
        exact hmoves hw (by simp) hne _ _
      next => cases hs
    | mutex =>
      simp only at hs
      split at hs
      next hfree =>
        cases hs
        obtain ⟨hlt, -⟩ := List.getElem?_eq_some_iff.mp hw
        have hcalls : ({ s with call := some (.worker i, .opening) }.setWorker i .calling).calls =
            Function.update s.calls (.worker i) (Worker.calling = .calling) :=
          calls_worker hlt rfl rfl
        refine ⟨h.locks, ?_⟩
        rw [hcalls]
        have hc := h.calling
        rw [hfree] at hc
        exact hc.acquire
      next => cases hs
    | running =>
      simp only at hs
      split at hs
      next hnext =>
        cases hs
        have hne : next ≠ .calling := by obtain rfl | rfl | rfl := hnext <;> simp
        exact hmoves hw (by simp) hne _ _
      next => cases hs
    | report =>
      simp only at hs
      split at hs
      · cases hs
        exact hmoves hw (by simp) (by simp) _ _
      · split at hs
        · cases hs
          exact hmoves hw (by simp) (by simp) _ _
        · cases hs
    | calling | done => simp at hs

theorem Locked.takeFrame (h : s.Locked) {ok : Bool} (hs : s.takeFrame ok = some s') :
    s'.Locked := by
  have hserve {m : Main} {ws : List Worker} {fs : List Frame} (hm : s.main = .serve)
      (hnext : m.publish? = none)
      (hws : ∀ i : Nat, ws[i]? = some Worker.calling ↔ s.workers[i]? = some Worker.calling) :
      ({ s with main := m, workers := ws, frames := fs } : Session).Locked := by
    have hm' : s.main.publish? = none := by rw [hm]; rfl
    refine h.same rfl rfl (fun who => ?_) fun who => ?_
    · cases who with
      | main => simp [Session.holds, Session.publish?, hnext, hm']
      | publisher | worker i => rfl
    · cases who with
      | main => simp [Session.calls, Session.publish?, hnext, hm']
      | publisher => rfl
      | worker i => simp [Session.calls, hws]
  cases hm : s.main with
  | serve =>
    have hgone : ({ s with main := .teardown, frames := s.frames.tail } : Session).Locked :=
      hserve hm rfl fun _ => Iff.rfl
    simp only [Session.takeFrame, hm] at hs
    cases hf : s.frames with
    | nil => simp [hf] at hs
    | cons f rest =>
      simp only [hf, List.tail_cons] at hs hgone
      cases f with
      | launch =>
        cases hs
        cases ok with
        | true =>
          refine hserve hm (by simp [Main.publish?]) fun i => ?_
          rw [List.getElem?_append]
          split
          next => rfl
          next hge =>
            rw [List.getElem?_eq_none (Nat.le_of_not_lt hge), List.getElem?_singleton]
            split <;> simp
        | false => exact hgone
      | stop =>
        cases hs
        cases ok with
        | true => exact hserve hm rfl fun _ => Iff.rfl
        | false => exact hgone
      | unsupported | failure =>
        cases hs
        exact hgone
  | reconcile _ | announce | teardown | flush _ | cancelRun | awaitPublisher | returned =>
    simp [Session.takeFrame, hm] at hs

theorem Locked.step (h : s.Locked)
    (hannounce : s.main = .announce → s.publisher = .unstarted) {a : Action}
    (hs : s.step a = some s') : s'.Locked := by
  have hreads {r : Reader} {fs : List Frame} {b : Bool} :
      ({ s with reader := r, frames := fs, answered := b } : Session).Locked :=
    h.same rfl rfl (fun _ => rfl) fun _ => rfl
  have hleaves (hm : s.main = .serve) (n : Nat) (b : Bool) :
      ({ s with main := .teardown, workerErrors := n, publisherErrors := b } : Session).Locked := by
    refine h.outside rfl rfl rfl fun who => ?_
    cases who with
    | main => exact .inl (by simp [Session.publish?, hm, Main.publish?])
    | publisher | worker i => exact .inl rfl
  cases a with
  | answer =>
    dsimp only [Session.step] at hs
    split at hs
    · cases hs
      split <;> exact hreads
    · cases hs
  | arrive f =>
    dsimp only [Session.step] at hs
    split at hs
    · cases hs
      exact hreads
    · cases hs
  | handOver =>
    dsimp only [Session.step, Session.handOver] at hs
    split at hs
    · split at hs
      · cases hs
        exact hreads
      · cases hs
    · split at hs
      · cases hs
      · cases hs
        exact hreads
    · cases hs
    · cases hs
  | call c =>
    dsimp only [Session.step] at hs
    split at hs
    next who call hcall => exact h.callStep hcall hs
    next => cases hs
  | main c => exact h.mainStep hannounce hs
  | takeFrame ok => exact h.takeFrame hs
  | takeWorkerError =>
    dsimp only [Session.step] at hs
    split at hs
    next hserve =>
      cases hs
      exact hleaves hserve.1 _ _
    next => cases hs
  | takePublisherError =>
    dsimp only [Session.step] at hs
    split at hs
    next hserve =>
      cases hs
      exact hleaves hserve.1 _ _
    next => cases hs
  | publisher c => exact h.publisherStep hs
  | worker i next => exact h.workerStep hs

end Session
end Orchestrator.Host.Threads
