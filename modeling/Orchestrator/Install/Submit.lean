import Orchestrator.Install.Pins

/-!
# Pins of a rejected submit

`submit` pins the running version for every task before it asks the coordinator, and takes the
pins back when a pin or the request is rejected: all that it passed over, those that were there
before as well.
-/
namespace Orchestrator.Install

/-- A task of the request, with what its two calls find. -/
structure SubmitTask where
  id : String
  pin : PinCall
  unpin : UnpinCall
  deriving DecidableEq, Repr

/-- What the coordinator answers: `unreachable` is an error that is not `remoteError`. -/
inductive Response where
  | accepted | rejected | unreachable
  deriving DecidableEq, Repr

inductive SubmitResult where
  | submitted | uncertain
  | pinRejected (e : PinError)
  | rejected
  deriving DecidableEq, Repr

/-- The loop over the tasks; `testFake` is `ORCHESTRATOR_ENABLE_TEST_FAKE`. -/
def pinTasks (testFake : Bool) (version : String) :
    List SubmitTask → List SubmitTask → Pins → (Except PinError Unit × List SubmitTask) × Pins
  | [], pinned, s => ((.ok (), pinned), s)
  | task :: tasks, pinned, s => match pinRunningVersion version task.id task.pin s with
    | (.ok (), s') => pinTasks testFake version tasks (pinned ++ [task]) s'
    | (.error e, s') =>
      if testFake = true ∧ e = .runningPackageInvalid then pinTasks testFake version tasks pinned s'
      else ((.error e, pinned), s')

/-- The rollback. -/
def unpinTasks (pinned : List SubmitTask) (s : Pins) : Pins :=
  pinned.foldl (fun s task => (unpinRunningVersion task.id task.unpin s).2) s

/-- `submit`, from the first pin on. -/
def submit (testFake : Bool) (version : String) (tasks : List SubmitTask) (response : Response)
    (s : Pins) : SubmitResult × Pins :=
  match pinTasks testFake version tasks [] s with
  | ((.error e, pinned), s') => (.pinRejected e, unpinTasks pinned s')
  | ((.ok (), pinned), s') => match response with
    | .accepted => (.submitted, s')
    | .unreachable => (.uncertain, s')
    | .rejected => (.rejected, unpinTasks pinned s')

/-- A pin or the request has been rejected. -/
def SubmitResult.failed : SubmitResult → Prop
  | .pinRejected _ | .rejected => True
  | .submitted | .uncertain => False

section
variable {testFake : Bool} {version : String} {tasks pinned : List SubmitTask} {s s' : Pins}

/-- The tasks of the request that are pinned, up to the first that is not and ends the loop. -/
def passedTasks (testFake : Bool) (version : String) : List SubmitTask → Pins → List SubmitTask
  | [], _ => []
  | task :: tasks, s => match pinRunningVersion version task.id task.pin s with
    | (.ok (), s') => task :: passedTasks testFake version tasks s'
    | (.error e, s') =>
      if testFake = true ∧ e = .runningPackageInvalid then passedTasks testFake version tasks s'
      else []

/-- The call at which the loop stops creates a file. -/
def leavesFile (testFake : Bool) (version : String) : List SubmitTask → Pins → Prop
  | [], _ => False
  | task :: tasks, s => match pinRunningVersion version task.id task.pin s with
    | (.ok (), s') => leavesFile testFake version tasks s'
    | (.error e, s') =>
      if testFake = true ∧ e = .runningPackageInvalid then leavesFile testFake version tasks s'
      else task.pin.creates task.id s

theorem pinTasks_passed : (pinTasks testFake version tasks pinned s).1.2 =
    pinned ++ passedTasks testFake version tasks s := by
  induction tasks generalizing pinned s with
  | nil => rw [pinTasks, passedTasks, List.append_nil]
  | cons task tasks ih =>
    unfold pinTasks passedTasks
    split
    · rw [ih, List.append_assoc, List.singleton_append]
    · split
      · exact ih
      · rw [List.append_nil]

/-- All of the tasks are pinned, and nothing else has changed. -/
structure PinnedBy (version : String) (tasks : List SubmitTask) (s s' : Pins) : Prop where
  ids : ∀ task ∈ tasks, isId task.id = true
  before : ∀ task ∈ tasks, s task.id = none ∨ s task.id = pinFile version task.id
  here : ∀ task ∈ tasks, s' task.id = pinFile version task.id
  elsewhere : ∀ id, id ∉ tasks.map (·.id) → s' id = s id

theorem pinnedBy_nil : PinnedBy version [] s s where
  ids _ ht := by cases ht
  before _ ht := by cases ht
  here _ ht := by cases ht
  elsewhere _ _ := rfl

theorem PinnedBy.mem_or {id : String} (h : PinnedBy version tasks s s') :
    s' id = s id ∨ ∃ task ∈ tasks, task.id = id := by
  by_cases hid : id ∈ tasks.map (·.id)
  · exact .inr (List.mem_map.1 hid)
  · exact .inl (h.elsewhere id hid)

theorem PinnedBy.concat {task : SubmitTask} {s'' : Pins} (h : PinnedBy version tasks s s')
    (hpin : pinRunningVersion version task.id task.pin s' = (.ok (), s'')) :
    PinnedBy version (tasks ++ [task]) s s'' := by
  obtain ⟨hid, rfl, hbefore⟩ := pin_ok hpin
  refine ⟨fun t ht => ?_, fun t ht => ?_, fun t ht => ?_, fun id hnot => ?_⟩
  · rcases List.mem_append.1 ht with ht | ht
    · exact h.ids t ht
    · rw [List.mem_singleton.1 ht]
      exact hid
  · rcases List.mem_append.1 ht with ht | ht
    · exact h.before t ht
    · rw [List.mem_singleton.1 ht]
      rcases @PinnedBy.mem_or _ _ _ _ task.id h with hsame | ⟨t', ht', heq⟩
      · rwa [hsame] at hbefore
      · rw [← heq]
        exact h.before t' ht'
  · by_cases htask : t.id = task.id
    · rw [htask, Function.update_self]
    · rw [Function.update_of_ne htask]
      rcases List.mem_append.1 ht with ht | ht
      · exact h.here t ht
      · exact (htask (congrArg _ (List.mem_singleton.1 ht))).elim
  · rw [List.map_append, List.mem_append, not_or] at hnot
    have hne : id ≠ task.id := fun heq => hnot.2 (List.mem_singleton.2 heq)
    rw [Function.update_of_ne hne]
    exact h.elsewhere id hnot.1

/-- The loop, and a file that its last call may have left. -/
theorem pinTasks_spec {s₀ : Pins} {r : Except PinError Unit} {pinned' : List SubmitTask}
    (h : PinnedBy version pinned s₀ s)
    (hrun : pinTasks testFake version tasks pinned s = ((r, pinned'), s')) :
    ∃ s₁, PinnedBy version pinned' s₀ s₁ ∧
      (¬ leavesFile testFake version tasks s ∧ s' = s₁ ∨
        leavesFile testFake version tasks s ∧ r ≠ .ok () ∧
          ∃ id f, s₁ id = none ∧ s' = Function.update s₁ id (some f)) := by
  induction tasks generalizing pinned s with
  | nil =>
    cases hrun
    exact ⟨_, h, .inl ⟨fun hleft => hleft, rfl⟩⟩
  | cons task tasks ih =>
    unfold pinTasks at hrun
    unfold leavesFile
    split at hrun
    next s₂ hpin => exact ih (h.concat hpin) hrun
    next e s₂ hpin =>
      split at hrun
      next hskip =>
        rw [if_pos hskip]
        have hsame := pin_skipped (hskip.2 ▸ hpin)
        rw [hsame] at hrun ⊢
        exact ih h hrun
      next hstop =>
        rw [if_neg hstop]
        cases hrun
        refine ⟨_, h, ?_⟩
        rcases pin_error hpin with ⟨hcreates, hs⟩ | ⟨hcreates, hnone, f, hs⟩
        · exact .inl ⟨hcreates, hs⟩
        · exact .inr ⟨hcreates, nofun, task.id, f, hnone, hs⟩

/-- The rollback of tasks that are pinned. -/
theorem unpinTasks_apply {id : String} (hids : ∀ task ∈ tasks, isId task.id = true)
    (hs : ∀ task ∈ tasks, s task.id = none ∨ s task.id = pinFile version task.id) :
    unpinTasks tasks s id =
      if ∃ task ∈ tasks, task.id = id ∧ task.unpin.removes = true then none else s id := by
  induction tasks generalizing s with
  | nil => simp [unpinTasks]
  | cons task tasks ih =>
    have htask := @unpin_pinned _ _ _ task.unpin (hids task List.mem_cons_self)
      (hs task List.mem_cons_self)
    have hnext : ∀ t ∈ tasks, (unpinRunningVersion task.id task.unpin s).2 t.id = none ∨
        (unpinRunningVersion task.id task.unpin s).2 t.id = pinFile version t.id := by
      intro t ht
      rw [htask]
      split
      · by_cases hsame : t.id = task.id
        · exact .inl (by rw [hsame, Function.update_self])
        · rw [Function.update_of_ne hsame]
          exact hs t (List.mem_cons_of_mem _ ht)
      · exact hs t (List.mem_cons_of_mem _ ht)
    have hrest := ih (fun t ht => hids t (List.mem_cons_of_mem _ ht)) hnext
    rw [unpinTasks, List.foldl_cons, ← unpinTasks, hrest, htask]
    by_cases hlater : ∃ t ∈ tasks, t.id = id ∧ t.unpin.removes = true
    · rw [if_pos hlater, if_pos]
      obtain ⟨t, ht, hfacts⟩ := hlater
      exact ⟨t, List.mem_cons_of_mem _ ht, hfacts⟩
    · rw [if_neg hlater]
      by_cases hnow : task.id = id ∧ task.unpin.removes = true
      · rw [if_pos hnow.2, ← hnow.1, Function.update_self,
          if_pos ⟨task, List.mem_cons_self, rfl, hnow.2⟩]
      · have hnone : ¬ ∃ t ∈ task :: tasks, t.id = id ∧ t.unpin.removes = true := by
          rintro ⟨t, ht, hfacts⟩
          rcases List.mem_cons.1 ht with rfl | ht
          · exact hnow hfacts
          · exact hlater ⟨t, ht, hfacts⟩
        rw [if_neg hnone]
        split
        next hremoves =>
          exact Function.update_of_ne (fun heq => hnow ⟨heq.symm, hremoves⟩) _ _
        · rfl

/-- The rollback gives the pins back exactly if it removes those that were not there. -/
theorem rollback_restores_iff (h : PinnedBy version tasks s s') :
    unpinTasks tasks s' = s ↔ ∀ task ∈ tasks, s task.id = none ↔
      ∃ other ∈ tasks, other.id = task.id ∧ other.unpin.removes = true := by
  have happly (id : String) := @unpinTasks_apply _ _ _ id h.ids fun task ht =>
    .inr (h.here task ht)
  constructor
  · intro hsame task ht
    have hid := congrFun hsame task.id
    rw [happly] at hid
    split at hid
    next hremoved => exact ⟨fun _ => hremoved, fun _ => hid.symm⟩
    next hkept =>
      rw [h.here task ht] at hid
      exact ⟨fun hnone => (by rw [hnone] at hid; cases hid), fun hremoved => (hkept hremoved).elim⟩
  · intro hback
    funext id
    rw [happly]
    split
    next hremoved =>
      obtain ⟨task, ht, rfl, hremoves⟩ := hremoved
      exact ((hback task ht).2 ⟨task, ht, rfl, hremoves⟩).symm
    next hkept =>
      rcases @PinnedBy.mem_or _ _ _ _ id h with hsame | ⟨task, ht, rfl⟩
      · exact hsame
      · rcases h.before task ht with hnone | hpin
        · exact (hkept ((hback task ht).1 hnone)).elim
        · rw [h.here task ht, hpin]

/-- A file that the failing call has left stays. -/
theorem rollback_keeps_left {id : String} {f : PinFile} (h : PinnedBy version tasks s s')
    (hnone : s' id = none) : unpinTasks tasks (Function.update s' id (some f)) ≠ s := by
  have hnot : ∀ task ∈ tasks, task.id ≠ id := by
    rintro task ht rfl
    rw [h.here task ht] at hnone
    cases hnone
  have happly :=
    @unpinTasks_apply version _ (Function.update s' id (some f)) id h.ids fun task ht =>
      .inr (by rw [Function.update_of_ne (hnot task ht)]; exact h.here task ht)
  rw [if_neg fun ⟨task, ht, heq, _⟩ => hnot task ht heq, Function.update_self] at happly
  intro hsame
  rw [hsame] at happly
  rcases @PinnedBy.mem_or _ _ _ _ id h with hold | ⟨task, ht, heq⟩
  · rw [hold, happly] at hnone
    cases hnone
  · exact hnot task ht heq

/-- A submit whose pin or request is rejected leaves the pins as they were exactly if the pins it
takes back are those it has made, and the call that failed has made none. -/
theorem rejected_submit_keeps_pins_iff {response : Response}
    (hfail : (submit testFake version tasks response s).1.failed) :
    (submit testFake version tasks response s).2 = s ↔
      (∀ task ∈ passedTasks testFake version tasks s, s task.id = none ↔
        ∃ other ∈ passedTasks testFake version tasks s,
          other.id = task.id ∧ other.unpin.removes = true) ∧
      ¬ leavesFile testFake version tasks s := by
  rcases hrun : pinTasks testFake version tasks [] s with ⟨⟨r, passed⟩, s'⟩
  have hpassed : passedTasks testFake version tasks s = passed := by
    have hall := @pinTasks_passed testFake version tasks [] s
    rw [hrun] at hall
    exact hall.symm
  have hfinal : (submit testFake version tasks response s).2 = unpinTasks passed s' := by
    unfold submit at hfail ⊢
    rw [hrun] at hfail ⊢
    cases r with
    | error e => rfl
    | ok u =>
      cases response with
      | rejected => rfl
      | accepted => exact hfail.elim
      | unreachable => exact hfail.elim
  rw [hfinal, hpassed]
  obtain ⟨s₁, hpinned, ⟨hleft, rfl⟩ | ⟨hleft, -, id, f, hnone, rfl⟩⟩ :=
    pinTasks_spec pinnedBy_nil hrun
  · rw [rollback_restores_iff hpinned]
    exact ⟨fun hback => ⟨hback, hleft⟩, fun hback => hback.1⟩
  · exact ⟨fun hsame => (rollback_keeps_left hpinned hnone hsame).elim,
      fun hback => (hback.2 hleft).elim⟩

end

/-! ## A task that is already active -/

def toyPin : PinCall := ⟨true, true, true, true, .written, true⟩

def toyUnpin : UnpinCall := ⟨true, true, true, true, true⟩

/-- Nothing is pinned: a rejected request leaves it so. -/
theorem fresh_submit_keeps_pins :
    (submit false "1.0.0" [⟨"task", toyPin, toyUnpin⟩] .rejected fun _ => none).2 =
      fun _ => none := by
  have hfail : (submit false "1.0.0" [⟨"task", toyPin, toyUnpin⟩] .rejected fun _ =>
    none).1.failed := trivial
  exact (rejected_submit_keeps_pins_iff hfail).2 ⟨by decide, fun hleft => hleft⟩

/-- A request with the id of an active task is rejected, and the pin of that task is gone. -/
theorem rejected_submit_unpins_active :
    ¬ ∀ (testFake : Bool) (version : String) (tasks : List SubmitTask) (response : Response)
      (s : Pins), (submit testFake version tasks response s).1.failed →
        (submit testFake version tasks response s).2 = s := by
  intro h
  have hsame := h false "1.0.0" [⟨"task", toyPin, toyUnpin⟩] .rejected
    (Function.update (fun _ => none) "task" (pinFile "1.0.0" "task")) trivial
  have hpin := congrFun hsame "task"
  revert hpin
  decide

end Orchestrator.Install
