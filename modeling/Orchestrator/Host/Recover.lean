import Orchestrator.Host.StopSegment

/-!
# A grant that is delivered again

The first delivery of a grant starts the goroutine that launches the worker, in the
process it reaches; every later one, in whatever process, starts one that reads the
spool and closes the segment if nothing is in it. All of them share the spool, and a
process that dies takes its goroutines along, not the worker.
-/
namespace Orchestrator.Host.Worker
open Library

/-- `recoverDuplicateGrant`: what comes next. -/
inductive Recovery where
  | read
  /-- The read of `ensureLaunchUnknown`. -/
  | ensure
  | write (block : Block) (todo : List Write)
  | done
  deriving DecidableEq, Repr

/-- One operation, with the event it appends. -/
def Recovery.go (spool : List EventKind) (ok : Bool) : Recovery → Recovery × Option EventKind
  | .read =>
    if ok = false ∨ .exited ∈ spool then (.done, none)
    else if spool = [] then (.write .failed Block.failed.writes, none)
    else (.ensure, none)
  | .ensure =>
    if ok = false ∨ .unknown ∈ spool then (.done, none)
    else (.write .unknown Block.unknown.writes, none)
  | .write _ [] => (.done, none)
  | .write block (.publish :: todo) => (if ok then .write block todo else .done, none)
  | .write block (.append kind :: todo) =>
    if ok then (.write block todo, some kind) else (.done, none)
  | .done => (.done, none)

/-- A segment at its Host. `accepted` says that the ledger has the grant, `running` that the
goroutine of its first delivery belongs to this process; `recoveries` are those of the later
ones. -/
structure Delivery where
  accepted : Bool := false
  running : Bool := false
  launch : Launch := {}
  recoveries : List Recovery := []
  deriving DecidableEq, Repr

/-- The worker has not been started, and the goroutine is on its way to start it. -/
def Pc.mayStart : Pc → Bool
  | .invocation | .reportCapability | .check _ | .publishPrepared | .appendPrepared
  | .firstStopTest | .start _ | .spawn => true
  | _ => false

/-- Nothing has been prepared. -/
def Pc.early : Pc → Bool
  | .invocation | .reportCapability | .check _ | .publishPrepared | .appendPrepared => true
  | _ => false

/-- The worker has been prepared, and not been started. -/
def Pc.starting : Pc → Bool
  | .firstStopTest | .start _ | .spawn => true
  | _ => false

/-- The coordinator takes the segment for ended. -/
def settles : EventKind → Bool
  | .failed | .stopped | .exited => true
  | _ => false

/-- What becomes of a segment at its Host. -/
inductive Incident where
  /-- The frame arrives, and `acceptGrant` looks into the ledger. -/
  | deliver
  | launch (a : Action)
  | recover (i : Nat) (ok : Bool)
  /-- The Host dies and is started again. -/
  | restart
  deriving DecidableEq, Repr

namespace Delivery
variable (d : Delivery)

def step : Incident → Delivery
  | .deliver =>
    if d.accepted = true then { d with recoveries := d.recoveries ++ [Recovery.read] }
    else { d with accepted := true, running := true }
  | .launch a =>
    if a.own = true ∧ d.running = false then d else { d with launch := d.launch.step a }
  | .recover i ok =>
    match d.recoveries[i]? with
    | none => d
    | some r =>
      let (r', event) := r.go d.launch.spool ok
      { d with
        recoveries := d.recoveries.set i r'
        launch := match event with
          | none => d.launch
          | some kind => d.launch.append kind }
  | .restart =>
    { d with
      running := false
      recoveries := []
      launch := { d.launch with
        observing := false, stopRequested := false, registered := false, stoppers := 0 } }

/-- The process tree is gone, or was never started and never will be. -/
def Gone : Prop :=
  d.launch.tree = .gone ∨
    d.launch.tree = .unborn ∧ d.accepted = true ∧
      (d.running = false ∨ d.launch.pc.mayStart = false)

instance : Decidable d.Gone := inferInstanceAs (Decidable (_ ∨ _))

/-- Whatever settles the segment has been appended where nothing ran and nothing will. -/
def ExitedMeansGone : Prop := ∀ kind ∈ d.launch.spool, settles kind = true → d.Gone

instance : Decidable d.ExitedMeansGone :=
  inferInstanceAs (Decidable (∀ kind ∈ d.launch.spool, _))

/-- A recovery that finds nothing in the spool finds no goroutine either that may still start
the worker. -/
def Recovers : Incident → Prop
  | .recover i _ => d.recoveries[i]? = some .read → d.launch.spool = [] →
      d.running = false ∨ d.launch.pc.mayStart = false
  | _ => True

instance : (a : Incident) → Decidable (d.Recovers a)
  | .recover _ _ => inferInstanceAs (Decidable (_ → _))
  | .deliver | .launch _ | .restart => isTrue trivial

/-- A recovery has read something, or what it read lets it close the segment. -/
def Backed : Recovery → Prop
  | .read | .done => True
  | .ensure => d.launch.spool ≠ []
  | .write block todo => todo <:+ block.writes ∧
      (block = .failed ∧ d.Gone ∨ block = .unknown ∧ d.launch.spool ≠ [])

/-- What every delivery keeps to whose recoveries all find the goroutine gone. -/
structure Sound : Prop where
  heeds : d.running = true ∨ d.accepted = false → d.launch.Heeds false
  stopped : d.running = true → ∀ todo, d.launch.pc = .write .stopped todo →
    d.launch.tree = .unborn ∨ d.launch.tree = .gone
  fresh : d.accepted = false → d.running = false ∧ d.launch.pc = .invocation ∧
    d.launch.spool = [] ∧ d.launch.tree = .unborn ∧ d.launch.observing = false
  prepared : d.launch.spool = [] → d.launch.tree = .unborn ∧ d.launch.pc.starting = false
  early : d.running = true → d.launch.pc.early = true →
    d.launch.spool = [] ∧ d.launch.observing = false
  recoveries : ∀ r ∈ d.recoveries, d.accepted = true ∧ d.Backed r
  settled : d.ExitedMeansGone

end Delivery

/-! ## What the goroutine cannot do -/

namespace Launch
variable {s : Launch}

/-- A property of all operations that may follow `execute`. -/
theorem back_induct {P : Pc → Prop} (hdone : P .done) (hensure : P .ensureUnknown)
    (hfailed : P (.write .failed Block.failed.writes)) {status : Status} :
    P (s.back status).pc := by
  cases status with
  | finished | interrupted => exact hdone
  | unknown => exact hensure
  | empty | failed => exact hfailed

theorem returns_induct {P : Pc → Prop} (hdone : P .done) (hensure : P .ensureUnknown)
    (hfailed : P (.write .failed Block.failed.writes)) {status : Status}
    (hderegister : P (.deregister status)) : P (s.returns status).pc := by
  unfold returns
  split
  · exact hderegister
  · exact back_induct hdone hensure hfailed

theorem mayStart_go {ok : Bool} (h : s.pc.mayStart = false) :
    (s.go ok).pc.mayStart = false := by
  have hreturns {u : Launch} {status : Status} : (u.returns status).pc.mayStart = false :=
    returns_induct (P := fun pc => pc.mayStart = false) rfl rfl rfl rfl
  unfold go
  cases hpc : s.pc with
  | write block todo =>
    cases todo with
    | nil => cases block <;> first | exact hreturns | rfl
    | cons write todo =>
      cases ok with
      | true => cases write <;> rfl
      | false => cases block <;> first | exact hreturns | rfl
  | observe =>
    cases ok with
    | true => rfl
    | false => exact hreturns
  | writeArtifact kind =>
    cases ok with
    | true => rfl
    | false => exact hreturns
  | clearStop status => exact back_induct (P := fun pc => pc.mayStart = false) rfl rfl rfl
  | birth | register | secondStopTest | wait | stopAfterWait | confirm | lastStopTest | finish
  | deregister status | ensureUnknown | done =>
    dsimp only
    repeat' split
    all_goals first | rfl | (rw [hpc]; rfl)
  | _ =>
    rw [hpc] at h
    cases h

theorem step_observing {a : Action} (ha : a.own = false) :
    (s.step a).observing = s.observing := by
  cases a with
  | go ok | finish kind => cases ha
  | stopSegment => rfl
  | exit killed | vanish | reap | session | lookUp =>
    rw [step]
    split <;> rfl

/-- Only the collector appends beside the goroutine. -/
theorem step_spool {a : Action} (ha : a.own = false) : (s.step a).spool = s.spool ∨
    s.observing = true ∧ (s.step a).spool = s.spool ++ [EventKind.session] := by
  cases a with
  | go ok | finish kind => cases ha
  | stopSegment => exact .inl rfl
  | session =>
    rw [step]
    split
    · next hobs => exact .inr ⟨hobs.1, rfl⟩
    · exact .inl rfl
  | exit killed | vanish | reap | lookUp =>
    rw [step]
    split <;> exact .inl rfl

theorem step_grows {a : Action} : s.spool <+: (s.step a).spool := by
  cases hown : a.own with
  | false =>
    obtain h | ⟨-, h⟩ := step_spool (s := s) hown
    · exact ⟨[], by rw [List.append_nil, h]⟩
    · exact ⟨[.session], h.symm⟩
  | true =>
    cases a with
    | go ok =>
      change s.spool <+: (s.go ok).spool
      obtain h | ⟨kind, h, -⟩ : (s.go ok).spool = s.spool ∨ _ := go_spool
      · exact ⟨[], by rw [List.append_nil, h]⟩
      · exact ⟨[kind], h.symm⟩
    | finish kind =>
      rw [step]
      split <;> exact List.prefix_rfl
    | exit killed | vanish | reap | session | stopSegment | lookUp => cases hown

theorem starting_le {pc : Pc} (h : pc.mayStart = false) : pc.starting = false := by
  cases pc <;> first | rfl | cases h

/-- Before a worker is started, `prepared` is appended. -/
theorem starting_go {ok : Bool} (h : s.pc.starting = false) (hs : (s.go ok).spool = []) :
    (s.go ok).pc.starting = false := by
  cases hpc : s.pc with
  | invocation | reportCapability | publishPrepared =>
    rw [go, hpc]
    cases ok <;> rfl
  | check todo =>
    rw [go, hpc]
    cases todo with
    | nil => rfl
    | cons check todo => cases ok <;> rfl
  | appendPrepared =>
    rw [go, hpc] at hs ⊢
    cases ok with
    | true => simp at hs
    | false => rfl
  | firstStopTest | start todo | spawn =>
    rw [hpc] at h
    cases h
  | _ => exact starting_le (mayStart_go (by rw [hpc]; rfl))

theorem Heeds.append {flagged : Bool} {kind : EventKind} (h : s.Heeds flagged)
    (hpc : s.pc.early = false) (hkind : kind ≠ .prepared) : (s.append kind).Heeds flagged := by
  obtain ⟨hwaited, h⟩ := h
  refine ⟨hwaited, ?_⟩
  rw [show (s.append kind).pc = s.pc from rfl]
  cases hat : s.pc with
  | write block todo =>
    rw [hat] at h
    refine ⟨h.1, ?_⟩
    cases block with
    | failed =>
      refine ⟨h.2.1, fun hmem => ?_⟩
      obtain hmem | hmem := List.mem_append.mp hmem
      · exact h.2.2 hmem
      · exact hkind (List.mem_singleton.mp hmem).symm
    | spawned | stopped | terminal | lost | unknown => exact h.2
  | invocation | reportCapability | check todo | publishPrepared | appendPrepared =>
    rw [hat] at hpc
    cases hpc
  | _ =>
    rw [hat] at h
    exact h

theorem early_mayStart {pc : Pc} (h : pc.early = true) : pc.mayStart = true := by
  cases pc <;> first | rfl | cases h

theorem early_go {ok : Bool} (h : s.pc.early = false) : (s.go ok).pc.early = false := by
  have hearly {pc : Pc} (h : pc.mayStart = false) : pc.early = false := by
    cases pc <;> first | rfl | cases h
  cases hpc : s.pc with
  | firstStopTest =>
    rw [go, hpc]
    dsimp only
    split <;> rfl
  | start todo =>
    rw [go, hpc]
    cases todo with
    | nil => rfl
    | cons check todo => cases ok <;> rfl
  | spawn =>
    rw [go, hpc]
    cases ok <;> rfl
  | invocation | reportCapability | check todo | publishPrepared | appendPrepared =>
    rw [hpc] at h
    cases h
  | _ => exact hearly (mayStart_go (by rw [hpc]; rfl))

/-- Before anything is prepared, nothing is appended and nothing observed. -/
theorem early_silent {ok : Bool} (h : s.pc.early = true) (h' : (s.go ok).pc.early = true) :
    (s.go ok).spool = s.spool ∧ (s.go ok).observing = s.observing := by
  cases hpc : s.pc with
  | invocation | reportCapability | publishPrepared | appendPrepared =>
    rw [go, hpc] at h' ⊢
    cases ok <;> first | exact ⟨rfl, rfl⟩ | cases h'
  | check todo =>
    rw [go, hpc] at h' ⊢
    cases todo with
    | nil => exact ⟨rfl, rfl⟩
    | cons check todo => cases ok <;> exact ⟨rfl, rfl⟩
  | _ =>
    rw [hpc] at h
    cases h

section
variable {ok : Bool} {todo : List Write}

theorem returns_not_stopped {status : Status} : (s.returns status).pc ≠ .write .stopped todo :=
  returns_induct (P := fun pc => pc ≠ .write .stopped todo) (by simp) (by simp) (by simp) (by simp)

theorem back_not_stopped {status : Status} : (s.back status).pc ≠ .write .stopped todo :=
  back_induct (P := fun pc => pc ≠ .write .stopped todo) (by simp) (by simp) (by simp)

/-- No other block leads to the one that records a stop. -/
theorem go_write_stopped {block : Block} {todo' : List Write} (hpc : s.pc = .write block todo')
    (h : (s.go ok).pc = .write .stopped todo) : block = .stopped := by
  rw [go, hpc] at h
  cases block with
  | stopped => rfl
  | _ =>
    cases todo' with
    | nil => first | exact (returns_not_stopped h).elim | cases h
    | cons write todo' =>
      cases ok with
      | true => cases write <;> cases h
      | false => first | exact (returns_not_stopped h).elim | cases h

theorem go_stopAfterWait_stopped (hpc : s.pc = .stopAfterWait)
    (h : (s.go ok).pc = .write .stopped todo) : s.tree = .gone := by
  rw [go, hpc] at h
  dsimp only at h
  by_cases hgone : s.tree = .gone
  · exact hgone
  · rw [if_neg hgone] at h
    split at h
    · rw [hpc] at h
      cases h
    · cases h

/-- The goroutine records a stop only of a worker that was not started or is gone. -/
theorem go_stopped (h : (s.go ok).pc = .write .stopped todo) :
    (∃ todo', s.pc = .write .stopped todo') ∨ s.pc = .firstStopTest ∨ s.pc = .lastStopTest ∨
      s.tree = .gone := by
  cases hpc : s.pc with
  | firstStopTest => exact .inr (.inl rfl)
  | lastStopTest => exact .inr (.inr (.inl rfl))
  | write block todo' =>
    obtain rfl := go_write_stopped hpc h
    exact .inl ⟨todo', rfl⟩
  | stopAfterWait => exact .inr (.inr (.inr (go_stopAfterWait_stopped hpc h)))
  | check todo' | start todo' =>
    rw [go, hpc] at h
    cases todo' with
    | nil => cases h
    | cons check todo' =>
      cases ok with
      | true => cases h
      | false => cases h
  | clearStop status =>
    rw [go, hpc] at h
    exact (back_not_stopped h).elim
  | publishPrepared | appendPrepared =>
    rw [go, hpc] at h
    cases ok with
    | true => cases h
    | false => cases h
  | observe | writeArtifact kind =>
    rw [go, hpc] at h
    cases ok with
    | true => cases h
    | false => exact (returns_not_stopped h).elim
  | _ =>
    rw [go, hpc] at h
    dsimp only at h
    repeat' split at h
    all_goals first | cases h | (rw [hpc] at h; cases h)

end

end Launch
namespace Delivery
variable {d : Delivery}

theorem Gone.of_eq {d' : Delivery} (h : d.Gone) (htree : d'.launch.tree = d.launch.tree)
    (haccepted : d'.accepted = d.accepted) (hrunning : d.running = false → d'.running = false)
    (hpc : d'.launch.pc = d.launch.pc) : d'.Gone := by
  unfold Gone
  rw [htree, haccepted, hpc]
  exact h.imp_right fun ⟨ht, ha, hr⟩ => ⟨ht, ha, hr.imp_left hrunning⟩

/-- What the goroutine does of its own. -/
theorem Gone.go (h : d.Gone) (hs : d.launch.Heeds false) {ok : Bool} (hr : d.running = true) :
    ({ d with launch := d.launch.go ok } : Delivery).Gone := by
  obtain ht | ⟨ht, ha, hstart⟩ := h
  · left
    refine (Launch.go_tree fun hpc => ?_).trans ht
    have hs := hs.2
    rw [hpc] at hs
    cases hs.1.symm.trans ht
  · have hstart : d.launch.pc.mayStart = false := hstart.resolve_left (by simp [hr])
    refine .inr ⟨(Launch.go_tree fun hpc => ?_).trans ht, ha, .inr (Launch.mayStart_go hstart)⟩
    rw [hpc] at hstart
    cases hstart

/-- What happens around it. -/
theorem Gone.around (h : d.Gone) {u : Launch} (hu : Launch.Around d.launch u) :
    ({ d with launch := u } : Delivery).Gone := by
  obtain ht | ⟨ht, hacc, hstart⟩ := h
  · left
    obtain h | h | h := hu.tree <;> simp_all
  · refine .inr ⟨?_, hacc, hu.pc ▸ hstart⟩
    obtain h | h | h := hu.tree <;> simp_all

theorem Gone.launch (h : d.Gone) (hs : d.running = true → d.launch.Heeds false) {a : Action}
    (ha : a.own = true → d.running = true) :
    ({ d with launch := d.launch.step a } : Delivery).Gone := by
  cases a with
  | go ok => exact h.go (hs (ha rfl)) (ha rfl)
  | finish kind =>
    simp only [Launch.step]
    split
    · obtain ht | ⟨ht, hacc, -⟩ := h
      · exact .inl ht
      · exact .inr ⟨ht, hacc, .inr rfl⟩
    · exact h
  | exit killed | vanish | reap | session | stopSegment | lookUp =>
    exact h.around (Launch.step_around rfl)

/-- The goroutine appends an event that settles the segment only where it has seen to it. -/
theorem Sound.settling (h : d.Sound) (hr : d.running = true) {block : Block} {todo : List Write}
    {kind : EventKind} (hpc : d.launch.pc = .write block (.append kind :: todo))
    (hkind : settles kind = true) : d.Gone := by
  have hheeds := (h.heeds (.inl hr)).2
  rw [hpc] at hheeds
  have hacc : d.accepted = true := by
    cases hacc : d.accepted with
    | true => rfl
    | false => rw [(h.fresh hacc).1] at hr; cases hr
  have hstart : d.launch.pc.mayStart = false := by rw [hpc]; rfl
  have hmem : block ≠ .terminal → kind ∈ appends block.writes := fun hb =>
    appends_mem (hheeds.1 hb) (List.mem_cons_self ..)
  rw [appends_writes] at hmem
  cases block with
  | terminal => exact .inl hheeds.2.2
  | failed => exact .inr ⟨hheeds.2.1, hacc, .inr hstart⟩
  | stopped =>
    obtain ht | ht := h.stopped hr _ hpc
    · exact .inr ⟨ht, hacc, .inr hstart⟩
    · exact .inl ht
  | spawned =>
    have hk : kind = .spawned ∨ kind = .running := by simpa using hmem (by decide)
    obtain rfl | rfl := hk <;> cases hkind
  | lost | unknown =>
    have hk : kind = .unknown := by simpa using hmem (by decide)
    rw [hk] at hkind
    cases hkind

theorem Sound.stopped_step (h : d.Sound) (hr : d.running = true) {a : Action} {todo : List Write}
    (hpc : (d.launch.step a).pc = .write .stopped todo) :
    (d.launch.step a).tree = .unborn ∨ (d.launch.step a).tree = .gone := by
  cases hown : a.own with
  | false =>
    have haround := Launch.step_around (s := d.launch) hown
    rw [haround.pc] at hpc
    have ht := h.stopped hr todo hpc
    obtain h | h | h := haround.tree <;> simp_all
  | true =>
    cases a with
    | go ok =>
      have hpc : (d.launch.go ok).pc = .write .stopped todo := hpc
      have htree (hspawn : d.launch.pc ≠ .spawn)
          (ht : d.launch.tree = .unborn ∨ d.launch.tree = .gone) :
          (d.launch.go ok).tree = .unborn ∨ (d.launch.go ok).tree = .gone := by
        rw [Launch.go_tree hspawn]
        exact ht
      have hheeds := (h.heeds (.inl hr)).2
      obtain ⟨todo', hat⟩ | hat | hat | hgone := Launch.go_stopped hpc
      · exact htree (by simp [hat]) (h.stopped hr _ hat)
      · rw [hat] at hheeds
        exact htree (by simp [hat]) (.inl hheeds.1)
      · rw [hat] at hheeds
        exact htree (by simp [hat]) (.inr hheeds.1)
      · refine htree (fun hat => ?_) (.inr hgone)
        rw [hat] at hheeds
        cases hheeds.1.symm.trans hgone
    | finish kind =>
      simp only [Launch.step] at hpc ⊢
      split at hpc
      · cases hpc
      · next hfinish =>
        rw [if_neg hfinish]
        exact h.stopped hr todo hpc
    | exit killed | vanish | reap | session | stopSegment | lookUp => cases hown

theorem Sound.prepared_step (h : d.Sound) {a : Action} (hspool : (d.launch.step a).spool = []) :
    (d.launch.step a).tree = .unborn ∧ (d.launch.step a).pc.starting = false := by
  cases hown : a.own with
  | false =>
    have haround := Launch.step_around (s := d.launch) hown
    obtain heq | ⟨-, heq⟩ := Launch.step_spool (s := d.launch) hown
    · obtain ⟨htree, hpc⟩ := h.prepared (heq.symm.trans hspool)
      refine ⟨?_, haround.pc ▸ hpc⟩
      obtain h | h | h := haround.tree <;> simp_all
    · rw [heq] at hspool
      simp at hspool
  | true =>
    cases a with
    | go ok =>
      have hspool : (d.launch.go ok).spool = [] := hspool
      have hold : d.launch.spool = [] := by
        obtain heq | ⟨kind, heq, -⟩ : (d.launch.go ok).spool = _ ∨ _ := Launch.go_spool
        · exact heq.symm.trans hspool
        · rw [heq] at hspool
          simp at hspool
      obtain ⟨htree, hpc⟩ := h.prepared hold
      refine ⟨(Launch.go_tree fun hat => ?_).trans htree, Launch.starting_go hpc hspool⟩
      rw [hat] at hpc
      cases hpc
    | finish kind =>
      simp only [Launch.step] at hspool ⊢
      split at hspool
      · next hfinish =>
        rw [if_pos hfinish]
        exact ⟨(h.prepared hspool).1, rfl⟩
      · next hfinish =>
        rw [if_neg hfinish]
        exact h.prepared hspool
    | exit killed | vanish | reap | session | stopSegment | lookUp => cases hown

/-- An event that the worker's goroutine or its collector appends. -/
theorem Sound.appended (h : d.Sound) {a : Action} (ha : a.own = true → d.running = true)
    {kind : EventKind} (hkind : kind ∈ (d.launch.step a).spool) (hs : settles kind = true) :
    d.Gone := by
  cases hown : a.own with
  | false =>
    obtain heq | ⟨-, heq⟩ := Launch.step_spool (s := d.launch) hown
    · exact h.settled kind (heq ▸ hkind) hs
    · rw [heq] at hkind
      obtain hkind | hkind := List.mem_append.mp hkind
      · exact h.settled kind hkind hs
      · rw [List.mem_singleton.mp hkind] at hs
        cases hs
  | true =>
    cases a with
    | go ok =>
      have hkind : kind ∈ (d.launch.go ok).spool := hkind
      obtain heq | ⟨kind', heq, hpc⟩ : (d.launch.go ok).spool = _ ∨ _ := Launch.go_spool
      · exact h.settled kind (heq ▸ hkind) hs
      · rw [heq] at hkind
        obtain hkind | hkind := List.mem_append.mp hkind
        · exact h.settled kind hkind hs
        · rw [← List.mem_singleton.mp hkind] at hpc
          obtain ⟨-, rfl⟩ | ⟨block, todo, hpc⟩ := hpc
          · cases hs
          · exact h.settling (ha rfl) hpc hs
    | finish kind' =>
      refine h.settled kind ?_ hs
      simp only [Launch.step] at hkind
      split at hkind
      · exact hkind
      · exact hkind
    | exit killed | vanish | reap | session | stopSegment | lookUp => cases hown

theorem Sound.early_step (h : d.Sound) (hr : d.running = true) {a : Action}
    (hpc : (d.launch.step a).pc.early = true) :
    (d.launch.step a).spool = [] ∧ (d.launch.step a).observing = false := by
  cases hown : a.own with
  | false =>
    have haround := Launch.step_around (s := d.launch) hown
    obtain ⟨hspool, hobs⟩ := h.early hr (haround.pc ▸ hpc)
    refine ⟨?_, (Launch.step_observing hown).trans hobs⟩
    obtain heq | ⟨hyes, -⟩ := Launch.step_spool (s := d.launch) hown
    · exact heq.trans hspool
    · cases hyes.symm.trans hobs
  | true =>
    cases a with
    | go ok =>
      have hpc : (d.launch.go ok).pc.early = true := hpc
      have hold : d.launch.pc.early = true := by
        cases hold : d.launch.pc.early with
        | true => rfl
        | false => cases (Launch.early_go hold).symm.trans hpc
      obtain ⟨hspool, hobs⟩ := Launch.early_silent hold hpc
      exact ⟨hspool.trans (h.early hr hold).1, hobs.trans (h.early hr hold).2⟩
    | finish kind =>
      simp only [Launch.step] at hpc ⊢
      split at hpc
      · cases hpc
      · next hfinish =>
        rw [if_neg hfinish]
        exact h.early hr hpc
    | exit killed | vanish | reap | session | stopSegment | lookUp => cases hown

theorem Backed.mono {d' : Delivery} {r : Recovery} (h : d.Backed r) (hgone : d.Gone → d'.Gone)
    (hspool : d.launch.spool ≠ [] → d'.launch.spool ≠ []) : d'.Backed r := by
  cases r with
  | read | done => trivial
  | ensure => exact hspool h
  | write block todo =>
    exact ⟨h.1, h.2.imp (fun ⟨hb, hg⟩ => ⟨hb, hgone hg⟩) (fun ⟨hb, hs⟩ => ⟨hb, hspool hs⟩)⟩

/-- One operation of a recovery, that has read an empty spool only of a worker that is not
going to be started. -/
theorem Backed.go {r : Recovery} (ok : Bool) (h : d.Backed r)
    (hread : r = .read → d.launch.spool = [] → d.Gone) :
    d.Backed (r.go d.launch.spool ok).1 ∧ ∀ kind, (r.go d.launch.spool ok).2 = some kind →
      ∃ block : Block, kind ∈ appends block.writes ∧
        (block = .failed ∧ d.Gone ∨ block = .unknown ∧ d.launch.spool ≠ []) := by
  cases r with
  | read =>
    rw [Recovery.go]
    split
    · exact ⟨trivial, fun _ hk => (nomatch hk)⟩
    · split
      · next hnil =>
        exact ⟨⟨List.suffix_rfl, .inl ⟨rfl, hread rfl hnil⟩⟩, fun _ hk => (nomatch hk)⟩
      · next hne => exact ⟨hne, fun _ hk => (nomatch hk)⟩
  | ensure =>
    rw [Recovery.go]
    split
    · exact ⟨trivial, fun _ hk => (nomatch hk)⟩
    · exact ⟨⟨List.suffix_rfl, .inr ⟨rfl, h⟩⟩, fun _ hk => (nomatch hk)⟩
  | write block todo =>
    cases todo with
    | nil => exact ⟨trivial, fun _ hk => (nomatch hk)⟩
    | cons write todo =>
      have hrest : d.Backed (.write block todo) :=
        ⟨(List.suffix_cons write todo).trans h.1, h.2⟩
      cases write with
      | publish =>
        rw [Recovery.go]
        refine ⟨?_, fun _ hk => (nomatch hk)⟩
        cases ok with
        | true => exact hrest
        | false => trivial
      | append kind =>
        cases ok with
        | true =>
          refine ⟨hrest, fun kind' hk => ⟨block, ?_, h.2⟩⟩
          obtain rfl : kind = kind' := Option.some.inj hk
          exact appends_mem h.1 (List.mem_cons_self ..)
        | false => exact ⟨trivial, fun _ hk => (nomatch hk)⟩
  | done => exact ⟨trivial, fun _ hk => (nomatch hk)⟩

/-- Whatever the goroutine does, and whatever happens around it. -/
theorem Sound.launch (h : d.Sound) {a : Action} (ha : a.own = true → d.running = true) :
    ({ d with launch := d.launch.step a } : Delivery).Sound where
  heeds hr := (h.heeds hr).step
  stopped hr _ hpc := h.stopped_step hr hpc
  fresh hacc := by
    obtain ⟨hr, hpc, hspool, htree, hobs⟩ := h.fresh hacc
    have hown : a.own = false := by
      cases hown : a.own with
      | false => rfl
      | true => cases hr.symm.trans (ha hown)
    have haround := Launch.step_around (s := d.launch) hown
    refine ⟨hr, haround.pc.trans hpc, ?_, ?_, (Launch.step_observing hown).trans hobs⟩
    · obtain heq | ⟨hyes, -⟩ := Launch.step_spool (s := d.launch) hown
      · exact heq.trans hspool
      · cases hyes.symm.trans hobs
    · obtain h | h | h := haround.tree <;> simp_all
  prepared := h.prepared_step
  early hr hpc := h.early_step hr hpc
  recoveries r hr := by
    obtain ⟨hacc, hback⟩ := h.recoveries r hr
    refine ⟨hacc, hback.mono (fun hg => hg.launch (fun hr => h.heeds (.inl hr)) ha) ?_⟩
    intro hne hnil
    obtain ⟨later, heq⟩ : d.launch.spool <+: (d.launch.step a).spool := Launch.step_grows
    rw [show (d.launch.step a).spool = [] from hnil] at heq
    exact hne (List.append_eq_nil_iff.mp heq).1
  settled _ hkind hs :=
    (h.appended ha hkind hs).launch (fun hr => h.heeds (.inl hr)) ha

theorem Sound.deliver (h : d.Sound) : (d.step .deliver).Sound := by
  cases hacc : d.accepted with
  | true =>
    rw [step, if_pos hacc]
    refine { h with recoveries := fun r hr => ?_ }
    obtain hr | hr := List.mem_append.mp hr
    · exact h.recoveries r hr
    · rw [List.mem_singleton.mp hr]
      exact ⟨hacc, trivial⟩
  | false =>
    obtain ⟨hr, hpc, hspool, htree, hobs⟩ := h.fresh hacc
    rw [step, if_neg (by simp [hacc])]
    exact {
      heeds := fun _ => h.heeds (.inr hacc)
      stopped := fun _ todo hat => by rw [hpc] at hat; cases hat
      fresh := fun h => by cases h
      prepared := h.prepared
      early := fun _ _ => ⟨hspool, hobs⟩
      recoveries := fun r hr => by cases hacc.symm.trans (h.recoveries r hr).1
      settled := fun kind hkind => by rw [hspool] at hkind; cases hkind }

theorem Sound.restart (h : d.Sound) : (d.step .restart).Sound := by
  have hgone (hg : d.Gone) : (d.step .restart).Gone :=
    hg.imp_right fun ⟨ht, hacc, _⟩ => ⟨ht, hacc, .inl rfl⟩
  refine {
    heeds := ?_, stopped := fun hr => (nomatch hr), fresh := ?_, prepared := h.prepared,
    early := fun hr => (nomatch hr), recoveries := fun r hr => (nomatch hr),
    settled := fun kind hkind hs => hgone (h.settled kind hkind hs) }
  · rintro (hr | hacc)
    · cases hr
    · obtain ⟨-, hpc, hspool, htree, -⟩ := h.fresh hacc
      refine ⟨(h.heeds (.inr hacc)).1, ?_⟩
      rw [show (d.step .restart).launch.pc = .invocation from hpc]
      refine ⟨htree, rfl, ?_, fun hf => (nomatch hf)⟩
      change quiet d.launch.spool = []
      rw [hspool]
      rfl
  · intro hacc
    obtain ⟨-, hpc, hspool, htree, -⟩ := h.fresh hacc
    exact ⟨rfl, hpc, hspool, htree, rfl⟩

/-- A recovery appends an event of its block. -/
theorem Sound.append (h : d.Sound) {block : Block} {kind : EventKind}
    (hkind : kind ∈ appends block.writes)
    (hback : block = .failed ∧ d.Gone ∨ block = .unknown ∧ d.launch.spool ≠ []) :
    ({ d with launch := d.launch.append kind } : Delivery).Sound := by
  have hprepared : kind ≠ .prepared := by
    rintro rfl
    rw [appends_writes] at hkind
    obtain ⟨rfl, -⟩ | ⟨rfl, -⟩ := hback <;> simp at hkind
  have hacc : d.accepted = true := by
    cases hacc : d.accepted with
    | true => rfl
    | false =>
      obtain ⟨-, -, hspool, htree, -⟩ := h.fresh hacc
      obtain ⟨-, hg | ⟨-, hyes, -⟩⟩ | ⟨-, hne⟩ := hback
      · cases htree.symm.trans hg
      · exact hacc.symm.trans hyes
      · exact (hne hspool).elim
  -- where nothing has been prepared, a recovery has nothing to go by
  have hlate (hr : d.running = true) : d.launch.pc.early = false := by
    cases hearly : d.launch.pc.early with
    | false => rfl
    | true =>
      obtain ⟨-, hg | ⟨-, -, hno | hstart⟩⟩ | ⟨-, hne⟩ := hback
      · have hheeds := (h.heeds (.inl hr)).2
        cases hpc : d.launch.pc with
        | invocation | reportCapability | check todo | publishPrepared | appendPrepared =>
          rw [hpc] at hheeds
          cases hheeds.1.symm.trans hg
        | _ =>
          rw [hpc] at hearly
          cases hearly
      · exact hr.symm.trans hno
      · exact (Launch.early_mayStart hearly).symm.trans hstart
      · exact (hne (h.early hr hearly).1).elim
  have hgone (hg : d.Gone) : ({ d with launch := d.launch.append kind } : Delivery).Gone :=
    hg.of_eq rfl rfl id rfl
  exact {
    heeds := fun hr => by
      obtain hr | hno := hr
      · exact (h.heeds (.inl hr)).append (hlate hr) hprepared
      · cases hacc.symm.trans hno
    stopped := h.stopped
    fresh := fun hno => by cases hacc.symm.trans hno
    prepared := fun hnil => by simp at hnil
    early := fun hr hearly => by cases (hlate hr).symm.trans hearly
    recoveries := fun r hr => by
      obtain ⟨hacc, hb⟩ := h.recoveries r hr
      exact ⟨hacc, hb.mono hgone fun _ => by simp⟩
    settled := fun kind' hmem hs => by
      obtain hmem | hmem := List.mem_append.mp hmem
      · exact hgone (h.settled kind' hmem hs)
      · rw [List.mem_singleton.mp hmem] at hs
        obtain ⟨-, hg⟩ | ⟨rfl, -⟩ := hback
        · exact hgone hg
        · rw [appends_writes] at hkind
          obtain rfl : kind = .unknown := by simpa using hkind
          cases hs }

/-- A recovery appends `exited` only to a spool that it has found empty, or `unknown`. -/
theorem Sound.recover (h : d.Sound) {i : Nat} {ok : Bool} (hc : d.Recovers (.recover i ok)) :
    (d.step (.recover i ok)).Sound := by
  simp only [step]
  cases hat : d.recoveries[i]? with
  | none => exact h
  | some r =>
    obtain ⟨hacc, hback⟩ := h.recoveries r (List.mem_of_getElem? hat)
    have hset {r' : Recovery} (hb : d.Backed r') :
        ({ d with recoveries := d.recoveries.set i r' } : Delivery).Sound := by
      refine { h with recoveries := fun r hr => ?_ }
      obtain hr | rfl := List.mem_or_eq_of_mem_set hr
      · exact h.recoveries r hr
      · exact ⟨hacc, hb⟩
    have hread (hr : r = .read) (hnil : d.launch.spool = []) : d.Gone :=
      .inr ⟨(h.prepared hnil).1, hacc, hc (hr ▸ hat) hnil⟩
    obtain ⟨hrest, happend⟩ := Backed.go ok hback hread
    dsimp only
    cases hevent : (r.go d.launch.spool ok).2 with
    | none => exact hset hrest
    | some kind =>
      obtain ⟨block, hkind, hb⟩ := happend kind hevent
      exact (hset hrest).append hkind hb

/-- One incident, where the recoveries find the goroutine gone. -/
theorem Sound.step (h : d.Sound) {a : Incident} (hc : d.Recovers a) : (d.step a).Sound := by
  cases a with
  | deliver => exact h.deliver
  | launch a =>
    simp only [Delivery.step]
    split
    · exact h
    · next hown =>
      refine h.launch fun ha => ?_
      cases hr : d.running with
      | true => rfl
      | false => exact (hown ⟨ha, hr⟩).elim
  | recover i ok => exact h.recover hc
  | restart => exact h.restart

theorem Sound.fresh_delivery : ({} : Delivery).Sound where
  heeds _ := ⟨by simp, rfl, rfl, rfl, by simp⟩
  stopped hr := by cases hr
  fresh _ := ⟨rfl, rfl, rfl, rfl, rfl⟩
  prepared _ := ⟨rfl, rfl⟩
  early hr := by cases hr
  recoveries r hr := by cases hr
  settled kind hkind := by cases hkind

end Delivery
end Orchestrator.Host.Worker
