import Orchestrator.Library.Run
import Mathlib.Data.List.Induction
import Mathlib.Logic.Function.Basic

/-!
# Waiting for a broadcast

A writer announces what it has written by closing the current signal and putting a
new one in its place. A waiter takes the signal first, looks, and sleeps under that
signal if it found nothing. Any number of both run at once.

A waiter that sleeps under an open signal has missed only what is still to be
announced (`no_lost_wakeup`).
-/
namespace Library

/-- Signals are numbered as they are made. -/
structure Signals where
  current : Nat
  closed : List Nat

def Signals.fresh : Signals := ⟨0, []⟩

def Signals.broadcast (g : Signals) : Signals := ⟨g.current + 1, g.current :: g.closed⟩

inductive WaitPhase where
  | start
  | holding (signal : Nat)
  | blocked (signal : Nat)
  | done
  deriving DecidableEq, Repr

def WaitPhase.signal : WaitPhase → Option Nat
  | .holding n | .blocked n => some n
  | _ => none

structure Waiter (κ : Type*) where
  query : κ
  phase : WaitPhase
  deriving DecidableEq, Repr

/-- How what is shared is written, which writes are announced, and when a look at
it ends the wait. -/
structure Service (σ ι κ : Type*) where
  exec : σ → ι → Option σ
  announces : ι → Bool
  answers : σ → κ → Bool

/-- `announcing` are the writers that have written and not announced it yet. -/
structure Broadcast (σ κ : Type*) where
  shared : σ
  signals : Signals
  waiters : Nat → Option (Waiter κ)
  announcing : Nat → Bool

inductive BroadcastStep (ι κ : Type*) where
  | arrive (w : Nat) (query : κ)
  | capture (w : Nat)
  | look (w : Nat)
  | wake (w : Nat)
  | leave (w : Nat)
  | write (h : Nat) (op : ι)
  | announce (h : Nat)

variable {σ ι κ ρ : Type*}

def Broadcast.fresh (shared : σ) : Broadcast σ κ where
  shared := shared
  signals := .fresh
  waiters := fun _ => none
  announcing := fun _ => false

def Broadcast.setPhase (b : Broadcast σ κ) (w : Nat) (query : κ) (phase : WaitPhase) :
    Broadcast σ κ :=
  { b with waiters := Function.update b.waiters w (some ⟨query, phase⟩) }

/-- A step that is not enabled changes nothing. -/
def Service.step (v : Service σ ι κ) (b : Broadcast σ κ) : BroadcastStep ι κ → Broadcast σ κ
  | .arrive w query =>
    match b.waiters w with
    | none => b.setPhase w query .start
    | some _ => b
  | .capture w =>
    match b.waiters w with
    | some ⟨query, .start⟩ => b.setPhase w query (.holding b.signals.current)
    | _ => b
  | .look w =>
    match b.waiters w with
    | some ⟨query, .holding n⟩ =>
      b.setPhase w query (if v.answers b.shared query then .done else .blocked n)
    | _ => b
  | .wake w =>
    match b.waiters w with
    | some ⟨query, .blocked n⟩ => if n ∈ b.signals.closed then b.setPhase w query .start else b
    | _ => b
  | .leave w =>
    match b.waiters w with
    | some ⟨query, .blocked _⟩ => b.setPhase w query .done
    | _ => b
  | .write h op =>
    if b.announcing h then b
    else match v.exec b.shared op with
      | none => b
      | some shared =>
        { b with
          shared := shared
          announcing := Function.update b.announcing h (v.announces op) }
  | .announce h =>
    if b.announcing h then
      { b with
        signals := b.signals.broadcast
        announcing := Function.update b.announcing h false }
    else b

def Service.run (v : Service σ ι κ) (b : Broadcast σ κ) (steps : List (BroadcastStep ι κ)) :
    Broadcast σ κ :=
  Library.run v.step b steps

/-- What queries look for: only announced writes add to it, and a look finds it. -/
structure Service.Shows (v : Service σ ι κ) (I : σ → Prop) (visible : σ → κ → ρ → Prop) :
    Prop where
  keep : ∀ {s i s'}, I s → v.exec s i = some s' → I s'
  quiet : ∀ {s i s' k r}, I s → v.exec s i = some s' → v.announces i = false →
    visible s' k r → visible s k r
  found : ∀ {s k r}, I s → visible s k r → v.answers s k = true

/-- The writer that has made `r` visible is still to announce it. -/
def Service.Owes (v : Service σ ι κ) (visible : σ → κ → ρ → Prop) (b : Broadcast σ κ)
    (steps : List (BroadcastStep ι κ)) (k : κ) (r : ρ) : Prop :=
  ∃ before h op after, steps = before ++ .write h op :: after ∧ .announce h ∉ after ∧
    (v.run b steps).announcing h = true ∧ ¬ visible (v.run b before).shared k r ∧
    visible (v.run b (before ++ [BroadcastStep.write h op])).shared k r

section
variable {v : Service σ ι κ} {I : σ → Prop} {visible : σ → κ → ρ → Prop} {b : Broadcast σ κ}
  {a : BroadcastStep ι κ} {steps : List (BroadcastStep ι κ)} {k : κ} {r : ρ} {w h n : Nat}

theorem Broadcast.setPhase_self {query : κ} {phase : WaitPhase} :
    (b.setPhase w query phase).waiters w = some ⟨query, phase⟩ :=
  Function.update_self w _ b.waiters

theorem Broadcast.setPhase_of_ne {w' : Nat} {query : κ} {phase : WaitPhase} (h : w' ≠ w) :
    (b.setPhase w query phase).waiters w' = b.waiters w' :=
  Function.update_of_ne h _ b.waiters

/-! ## What one step does -/

/-- A step writes, announces, or moves one waiter on. -/
theorem step_cases : v.step b a = b ∨
    (∃ h op shared, a = .write h op ∧ b.announcing h = false ∧ v.exec b.shared op = some shared ∧
      v.step b a = { b with
        shared := shared
        announcing := Function.update b.announcing h (v.announces op) }) ∨
    (∃ h, a = .announce h ∧ b.announcing h = true ∧ v.step b a = { b with
      signals := b.signals.broadcast
      announcing := Function.update b.announcing h false }) ∨
    ∃ w query phase, (∀ h, a ≠ .announce h) ∧ v.step b a = b.setPhase w query phase ∧
      ((∀ n, phase ≠ .blocked n) ∧ (∀ n, phase.signal = some n → n = b.signals.current) ∨
        ∃ n, b.waiters w = some ⟨query, .holding n⟩ ∧ v.answers b.shared query = false ∧
          phase = .blocked n) := by
  cases a with
  | arrive w query =>
    cases hw : b.waiters w with
    | none =>
      refine .inr (.inr (.inr ⟨w, query, .start, nofun, ?_, .inl ⟨nofun, nofun⟩⟩))
      simp only [Service.step, hw]
    | some x => exact .inl (by simp only [Service.step, hw])
  | capture w =>
    simp only [Service.step]
    split
    · rename_i query hw
      refine .inr (.inr (.inr ⟨w, query, _, nofun, rfl, .inl ⟨nofun, fun n hn => ?_⟩⟩))
      exact (Option.some.inj hn).symm
    · exact .inl rfl
  | look w =>
    simp only [Service.step]
    split
    · rename_i query n hw
      refine .inr (.inr (.inr ⟨w, query, _, nofun, rfl, ?_⟩))
      cases hx : v.answers b.shared query with
      | true => exact .inl ⟨nofun, nofun⟩
      | false => exact .inr ⟨n, hw, rfl, rfl⟩
    · exact .inl rfl
  | wake w =>
    simp only [Service.step]
    split
    · rename_i query n hw
      split
      · exact .inr (.inr (.inr ⟨w, query, .start, nofun, rfl, .inl ⟨nofun, nofun⟩⟩))
      · exact .inl rfl
    · exact .inl rfl
  | leave w =>
    simp only [Service.step]
    split
    · rename_i query n hw
      exact .inr (.inr (.inr ⟨w, query, .done, nofun, rfl, .inl ⟨nofun, nofun⟩⟩))
    · exact .inl rfl
  | write h op =>
    cases hh : b.announcing h with
    | true => exact .inl (by simp only [Service.step, hh, if_true])
    | false =>
      cases hx : v.exec b.shared op with
      | none => exact .inl (by simp only [Service.step, hh, hx]; rfl)
      | some shared =>
        exact .inr (.inl ⟨h, op, shared, rfl, hh, hx, by simp only [Service.step, hh, hx]; rfl⟩)
  | announce h =>
    cases hh : b.announcing h with
    | true => exact .inr (.inr (.inl ⟨h, rfl, hh, by simp only [Service.step, hh, if_true]⟩))
    | false => exact .inl (by simp only [Service.step, hh]; rfl)

/-- Only a write that is announced makes anything visible. -/
theorem Service.Shows.step (hv : v.Shows I visible) (hI : I b.shared)
    (hnew : visible (v.step b a).shared k r) : visible b.shared k r ∨
      ∃ h op, a = .write h op ∧ v.announces op = true ∧ (v.step b a).announcing h = true := by
  obtain hsame | ⟨h, op, shared, rfl, hh, hx, hstep⟩ | ⟨h, rfl, hh, hstep⟩ |
    ⟨w, query, phase, -, hstep, -⟩ := step_cases (v := v) (b := b) (a := a)
  · exact .inl (hsame ▸ hnew)
  · rw [hstep] at hnew ⊢
    cases hop : v.announces op with
    | true => exact .inr ⟨h, op, rfl, hop, Function.update_self h true b.announcing⟩
    | false => exact .inl (hv.quiet hI hx hop hnew)
  · rw [hstep] at hnew
    exact .inl hnew
  · rw [hstep] at hnew
    exact .inl hnew

/-- Who is to announce goes on to be, until it does. -/
theorem announcing_step (hh : b.announcing h = true) (hne : a ≠ .announce h) :
    (v.step b a).announcing h = true := by
  obtain hsame | ⟨h', op, shared, rfl, hh', hx, hstep⟩ | ⟨h', rfl, hh', hstep⟩ |
    ⟨w, query, phase, -, hstep, -⟩ := step_cases (v := v) (b := b) (a := a)
  · rw [hsame]
    exact hh
  · have hapart : h ≠ h' := by
      rintro rfl
      rw [hh] at hh'
      cases hh'
    rw [hstep]
    exact (Function.update_of_ne hapart _ _).trans hh
  · have hapart : h ≠ h' := by
      rintro rfl
      exact hne rfl
    rw [hstep]
    exact (Function.update_of_ne hapart _ _).trans hh
  · rw [hstep]
    exact hh

theorem announcing_run (hh : b.announcing h = true) (hne : .announce h ∉ steps) :
    (v.run b steps).announcing h = true := by
  induction steps generalizing b with
  | nil => exact hh
  | cons a steps ih =>
    obtain ⟨ha, hsteps⟩ := not_or.mp (mt List.mem_cons.mpr hne)
    exact ih (announcing_step hh fun heq => ha heq.symm) hsteps

/-! ## Signals -/

/-- The signals below the current one are closed, and no waiter has one above it. -/
structure Broadcast.Signalled (b : Broadcast σ κ) : Prop where
  closed : ∀ n, n ∈ b.signals.closed ↔ n < b.signals.current
  taken : ∀ w x n, b.waiters w = some x → x.phase.signal = some n → n ≤ b.signals.current

theorem Broadcast.Signalled.fresh (s : σ) : (Broadcast.fresh (κ := κ) s).Signalled :=
  ⟨fun n => iff_of_false List.not_mem_nil (Nat.not_lt_zero n), fun _ _ _ hw => nomatch hw⟩

theorem Broadcast.Signalled.step (hb : b.Signalled) : (v.step b a).Signalled := by
  obtain hsame | ⟨h, op, shared, rfl, hh, hx, hstep⟩ | ⟨h, rfl, hh, hstep⟩ |
    ⟨w, query, phase, -, hstep, hphase⟩ := step_cases (v := v) (b := b) (a := a)
  · exact hsame.symm ▸ hb
  · rw [hstep]
    exact ⟨hb.closed, hb.taken⟩
  · rw [hstep]
    refine ⟨fun n => ?_, fun w x n hw hn => ?_⟩
    · simp only [Signals.broadcast, List.mem_cons, hb.closed n]
      omega
    · exact Nat.le_succ_of_le (hb.taken w x n hw hn)
  · rw [hstep]
    refine ⟨hb.closed, fun w' x n hw hn => ?_⟩
    by_cases hww : w' = w
    · subst hww
      obtain rfl := Option.some.inj (Broadcast.setPhase_self.symm.trans hw)
      obtain ⟨-, hcur⟩ | ⟨m, hm, -, rfl⟩ := hphase
      · exact Nat.le_of_eq (hcur n hn)
      · exact hb.taken w' _ n hm hn
    · exact hb.taken w' x n ((Broadcast.setPhase_of_ne hww).symm.trans hw) hn

/-! ## No lost wakeup -/

theorem Service.Owes.concat (ho : v.Owes visible b steps k r)
    (hkeep : ∀ h, (v.run b steps).announcing h = true → a ≠ .announce h) :
    v.Owes visible b (steps ++ [a]) k r := by
  obtain ⟨before, h, op, after, rfl, hnone, hh, hbefore, hafter⟩ := ho
  have hne := hkeep h hh
  refine ⟨before, h, op, after ++ [a], by simp, ?_, ?_, hbefore, hafter⟩
  · rw [List.mem_append, List.mem_singleton, not_or]
    exact ⟨hnone, fun heq => hne heq.symm⟩
  · rw [Service.run, run_concat]
    exact announcing_step hh hne

/-- Every waiter that sleeps under an open signal sees only what is owed to it. -/
def Broadcast.Awake (v : Service σ ι κ) (visible : σ → κ → ρ → Prop) (b : Broadcast σ κ)
    (steps : List (BroadcastStep ι κ)) : Prop :=
  ∀ w k n, (v.run b steps).waiters w = some ⟨k, .blocked n⟩ →
    n ∉ (v.run b steps).signals.closed → ∀ r, visible (v.run b steps).shared k r →
    v.Owes visible b steps k r

theorem awake_concat (hv : v.Shows I visible) (hI : I (v.run b steps).shared)
    (hs : (v.run b steps).Signalled) (hw : b.Awake v visible steps) :
    b.Awake v visible (steps ++ [a]) := by
  have hrun : v.run b (steps ++ [a]) = v.step (v.run b steps) a := run_concat
  unfold Broadcast.Awake
  rw [hrun]
  intro w k n hwait hopen r hr
  obtain hsame | ⟨h, op, shared, rfl, hh, hx, hstep⟩ | ⟨h, rfl, hh, hstep⟩ |
    ⟨w', query, phase, hquiet, hstep, hphase⟩ :=
      step_cases (v := v) (b := v.run b steps) (a := a)
  · rw [hsame] at hwait hopen hr
    refine (hw w k n hwait hopen r hr).concat fun h hh heq => ?_
    -- an announcement by `h` would have changed the signal
    have hcur := congrArg (fun b => b.signals.current) hsame
    simp only [heq, Service.step, hh, if_true, Signals.broadcast] at hcur
    omega
  · have hold : (v.run b steps).waiters w = some ⟨k, .blocked n⟩ := by
      rw [hstep] at hwait
      exact hwait
    have hopen' : n ∉ (v.run b steps).signals.closed := by
      rw [hstep] at hopen
      exact hopen
    by_cases hseen : visible (v.run b steps).shared k r
    · exact (hw w k n hold hopen' r hseen).concat fun h _ => nofun
    · obtain hseen' | ⟨h', op', heq, -, hann⟩ := hv.step hI hr
      · exact absurd hseen' hseen
      · cases heq
        refine ⟨steps, h, op, [], rfl, List.not_mem_nil, ?_, hseen, ?_⟩
        · rw [hrun]
          exact hann
        · rw [hrun]
          exact hr
  · -- the signal this waiter holds has just been closed
    rw [hstep] at hwait hopen
    refine absurd ?_ hopen
    have hle := hs.taken w _ n hwait rfl
    simp only [Signals.broadcast, List.mem_cons, hs.closed n]
    omega
  · rw [hstep] at hwait hopen hr
    by_cases hww : w = w'
    · subst hww
      cases Option.some.inj (Broadcast.setPhase_self.symm.trans hwait)
      obtain ⟨hno, -⟩ | ⟨m, -, hfound, -⟩ := hphase
      · exact absurd rfl (hno n)
      · rw [hv.found hI hr] at hfound
        cases hfound
    · have hold : (v.run b steps).waiters w = some ⟨k, .blocked n⟩ :=
        (Broadcast.setPhase_of_ne hww).symm.trans hwait
      exact (hw w k n hold hopen r hr).concat fun h _ => hquiet h

theorem run_shared (hv : v.Shows I visible) (hI : I b.shared) : I (v.run b steps).shared := by
  refine run_invariant (I := fun b : Broadcast σ κ => I b.shared) hI fun b a hb => ?_
  obtain hsame | ⟨h, op, shared, rfl, hh, hx, hstep⟩ | ⟨h, rfl, hh, hstep⟩ |
    ⟨w, query, phase, -, hstep, -⟩ := step_cases (v := v) (b := b) (a := a)
  · exact hsame.symm ▸ hb
  · rw [hstep]
    exact hv.keep hb hx
  · rw [hstep]
    exact hb
  · rw [hstep]
    exact hb

theorem run_signalled (hb : b.Signalled) : (v.run b steps).Signalled :=
  run_invariant hb fun _ _ h => h.step

/-- A waiter asleep under an open signal has missed only what its writer is still to announce. -/
theorem no_lost_wakeup {s : σ} (hv : v.Shows I visible) (hI : I s) :
    (Broadcast.fresh s).Awake v visible steps := by
  induction steps using List.reverseRecOn with
  | nil => exact fun w k n hw => nomatch hw
  | append_singleton steps a ih =>
    exact awake_concat hv (run_shared hv hI) (run_signalled (.fresh s)) ih

end
end Library
