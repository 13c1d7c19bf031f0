import Orchestrator.Host.Execute
import Orchestrator.Ipc.Messages
import Orchestrator.Store.Operations
import Mathlib.Data.List.Induction
import Mathlib.Logic.Function.Basic

/-!
# The ledger of grants

A Host keeps a file for each launch command it has accepted: created once, and
compared with whatever arrives under the same command later. The file is made in
several operations, each of which may fail, and the process may die at each; what
it has written stays.
-/
namespace Orchestrator.Host.Grants
open Library Store

/-! ## Records -/

structure GrantLedgerRecord where
  version : Int
  commandId : String
  reservationId : String
  attemptId : String
  segmentId : String
  grantSha256 : String

def GrantLedgerRecord.text (r : GrantLedgerRecord) : List Char :=
  Json.object [("version", Json.number r.version),
    ("command_id", Json.quote r.commandId),
    ("reservation_id", Json.quote r.reservationId),
    ("attempt_id", Json.quote r.attemptId),
    ("segment_id", Json.quote r.segmentId),
    ("grant_sha256", Json.quote r.grantSha256)] ++ ['\n']

/-- What of a grant its identity is taken from: everything but the epoch. -/
def grantBody (grant : LaunchCommand) : String :=
  String.ofList (Ipc.marshalLaunch (Source.identityGrant grant))

def grantRecord (p : Platform) (grant : LaunchCommand) : GrantLedgerRecord where
  version := 1
  commandId := grant.commandId
  reservationId := grant.reservationId
  attemptId := grant.attemptId
  segmentId := grant.segmentId
  grantSha256 := p.runtimeHash (grantBody grant)

/-- `recordBody`, in bytes. -/
def recordBody (p : Platform) (grant : LaunchCommand) : List UInt8 :=
  (String.ofList (grantRecord p grant).text).toByteArray.data.toList

/-- The file of a command, in `.grants`. -/
def ledgerName (p : Platform) (commandId : String) : String := p.runtimeHash commandId ++ ".json"

/-! ## acceptGrant -/

/-- The file operation that comes next. -/
inductive FileOp where
  | mkdir | lstat | create | readBack | write | sync | close | openDir | syncDir
  deriving DecidableEq, Repr

/-- What `acceptGrant` returns; `launched` goes on to `ExecuteLaunch`, `duplicate` to
`recoverDuplicateGrant`, and the others end `RunSource`. -/
inductive Outcome where
  | launched | duplicate | conflict | failed
  deriving DecidableEq, Repr

/-- Launch messages come one at a time; `delivered` and `outcomes` are the past. -/
structure Ledger where
  files : String → Option (List UInt8)
  accepting : Option (LaunchCommand × FileOp)
  delivered : List LaunchCommand
  outcomes : List (LaunchCommand × Outcome)

def Ledger.fresh : Ledger := ⟨fun _ => none, none, [], []⟩

inductive Action where
  | deliver (grant : LaunchCommand) (epoch : Nat)
  /-- The next operation succeeds. -/
  | advance
  /-- It fails, a write after some bytes. -/
  | fail (count : Nat)
  /-- The process dies at it, a write after some bytes. -/
  | crash (count : Nat)

/-- `invalid_launch_grant`. -/
def Invalid (grant : LaunchCommand) : Prop :=
  grant.commandId = "" ∨ grant.reservationId = "" ∨ grant.attemptId = "" ∨ grant.segmentId = ""

instance (grant : LaunchCommand) : Decidable (Invalid grant) :=
  inferInstanceAs (Decidable (_ ∨ _))

namespace Ledger
variable (s : Ledger) (p : Platform)

def next (grant : LaunchCommand) (op : FileOp) : Ledger := { s with accepting := some (grant, op) }

def returns (grant : LaunchCommand) (outcome : Outcome) : Ledger :=
  { s with accepting := none, outcomes := (grant, outcome) :: s.outcomes }

def store (grant : LaunchCommand) (content : List UInt8) : Ledger :=
  { s with files := Function.update s.files (ledgerName p grant.commandId) (some content) }

/-- `RunSource` takes the message up under the epoch of its session. -/
def deliver (grant : LaunchCommand) : Ledger :=
  let s := { s with delivered := grant :: s.delivered }
  if Invalid grant then s.returns grant .failed else s.next grant .mkdir

def advance (grant : LaunchCommand) : FileOp → Ledger
  | .mkdir => s.next grant .lstat
  | .lstat => s.next grant .create
  | .create =>
    match s.files (ledgerName p grant.commandId) with
    | none => (s.store p grant []).next grant .write
    | some _ => s.next grant .readBack
  | .readBack =>
    if s.files (ledgerName p grant.commandId) = some (recordBody p grant) then
      s.returns grant .duplicate
    else s.returns grant .conflict
  | .write => (s.store p grant (recordBody p grant)).next grant .sync
  | .sync => s.next grant .close
  | .close => s.next grant .openDir
  | .openDir => s.next grant .syncDir
  | .syncDir => s.returns grant .launched

/-- What an interrupted operation leaves on disk. -/
def interrupted (grant : LaunchCommand) (op : FileOp) (count : Nat) : Ledger :=
  if op = .write then s.store p grant ((recordBody p grant).take count) else s

/-- A record that cannot be read counts as another one. -/
def fail (grant : LaunchCommand) (op : FileOp) (count : Nat) : Ledger :=
  (s.interrupted p grant op count).returns grant (if op = .readBack then .conflict else .failed)

def crash (grant : LaunchCommand) (op : FileOp) (count : Nat) : Ledger :=
  { s.interrupted p grant op count with accepting := none }

end Ledger

def step (p : Platform) (s : Ledger) : Action → Ledger
  | .deliver grant epoch =>
    match s.accepting with
    | none => s.deliver { grant with executionEpoch := epoch }
    | some _ => s
  | .advance =>
    match s.accepting with
    | none => s
    | some (grant, op) => s.advance p grant op
  | .fail count =>
    match s.accepting with
    | none => s
    | some (grant, op) => s.fail p grant op count
  | .crash count =>
    match s.accepting with
    | none => s
    | some (grant, op) => s.crash p grant op count

def run (p : Platform) (actions : List Action) : Ledger := Library.run (step p) .fresh actions

/-- Neither a crash nor a failed write leaves a part of a record, and no record on disk turns
out to be unreadable. -/
def Intact (p : Platform) (s : Ledger) : Action → Prop
  | .fail count => ∀ grant op, s.accepting = some (grant, op) →
      op ≠ .readBack ∧ (op = .write → (recordBody p grant).length ≤ count)
  | .crash count => ∀ grant op, s.accepting = some (grant, op) →
      op = .write → (recordBody p grant).length ≤ count
  | _ => True

section
variable {p : Platform} {s : Ledger} {a : Action} {actions : List Action}
    {grant g g' : LaunchCommand}
  {content : List UInt8} {count : Nat}

/-- Equal records hold equal hashes. -/
theorem hash_of_recordBody (h : recordBody p g = recordBody p g') :
    p.runtimeHash (grantBody g) = p.runtimeHash (grantBody g') := by
  have htext : (grantRecord p g).text = (grantRecord p g').text :=
    String.ofList_injective (String.toByteArray_inj.mp (ByteArray.ext (Array.toList_inj.mp h)))
  have hversion : (grantRecord p g).version = (grantRecord p g').version := rfl
  simp only [GrantLedgerRecord.text, Json.object, Json.members, Json.member, List.cons_append,
    List.append_assoc, List.cons.injEq, true_and, List.append_cancel_left_eq, List.nil_append,
    hversion] at htext
  obtain ⟨-, htext⟩ := Json.quote_append_inj htext
  simp only [List.cons.injEq, true_and, List.append_cancel_left_eq] at htext
  obtain ⟨-, htext⟩ := Json.quote_append_inj htext
  simp only [List.cons.injEq, true_and, List.append_cancel_left_eq] at htext
  obtain ⟨-, htext⟩ := Json.quote_append_inj htext
  simp only [List.cons.injEq, true_and, List.append_cancel_left_eq] at htext
  obtain ⟨-, htext⟩ := Json.quote_append_inj htext
  simp only [List.cons.injEq, true_and, List.append_cancel_left_eq] at htext
  exact (Json.quote_append_inj htext).1

theorem recordBody_congr (h : Source.identityGrant g = Source.identityGrant g') :
    recordBody p g = recordBody p g' := by
  have hfield : ∀ {α : Type} (f : LaunchCommand → α) (_ : ∀ c, f (Source.identityGrant c) = f c),
      f g = f g' := fun f hf => by rw [← hf g, h, hf]
  have hrecord : grantRecord p g = grantRecord p g' := by
    unfold grantRecord grantBody
    rw [h, hfield LaunchCommand.commandId fun _ => rfl,
      hfield LaunchCommand.reservationId fun _ => rfl,
      hfield LaunchCommand.attemptId fun _ => rfl, hfield LaunchCommand.segmentId fun _ => rfl]
  rw [recordBody, recordBody, hrecord]

theorem Ledger.store_self :
    (s.store p g content).files (ledgerName p g.commandId) = some content :=
  Function.update_self (ledgerName p g.commandId) _ s.files

theorem Ledger.store_of_ne {path : String} (h : path ≠ ledgerName p g.commandId) :
    (s.store p g content).files path = s.files path :=
  Function.update_of_ne h _ s.files

theorem Ledger.delivered_interrupted {op : FileOp} :
    (s.interrupted p g op count).delivered = s.delivered := by
  unfold Ledger.interrupted
  split <;> rfl

theorem recordBody_ne_nil : recordBody p g ≠ [] := by
  intro h
  have htext : (grantRecord p g).text = [] :=
    String.ofList_injective (String.toByteArray_inj.mp (ByteArray.ext (Array.toList_inj.mp h)))
  cases htext

/-! ## What the files hold -/

def Outcome.accepted : Outcome → Bool
  | .launched | .duplicate => true
  | _ => false

/-- What the files look like before the operation. -/
def Ledger.Before (s : Ledger) (p : Platform) (grant : LaunchCommand) : FileOp → Prop
  | .mkdir | .lstat | .create => True
  | .readBack => (s.files (ledgerName p grant.commandId)).isSome
  | .write => s.files (ledgerName p grant.commandId) = some []
  | _ => s.files (ledgerName p grant.commandId) = some (recordBody p grant) ∧
      ∀ o ∈ s.outcomes, o.2 = .launched → o.1.commandId ≠ grant.commandId

structure Ledger.Recorded (s : Ledger) (p : Platform) : Prop where
  accepting : ∀ g op, s.accepting = some (g, op) → g ∈ s.delivered ∧ s.Before p g op
  known : ∀ o ∈ s.outcomes, o.1 ∈ s.delivered
  accepted : ∀ o ∈ s.outcomes, o.2.accepted = true →
    s.files (ledgerName p o.1.commandId) = some (recordBody p o.1)
  once : ∀ commandId, s.outcomes.countP
    (fun o => o.1.commandId = commandId ∧ o.2 = .launched) ≤ 1

theorem Ledger.Recorded.fresh : Ledger.fresh.Recorded p :=
  ⟨fun _ _ h => (nomatch h), fun _ h => (nomatch h), fun _ h => (nomatch h), fun _ => Nat.zero_le 1⟩

/-- While a file is new or incomplete, no accepted grant has it. -/
theorem Ledger.Recorded.apart (h : s.Recorded p)
    (hfile : s.files (ledgerName p g.commandId) = none ∨
      s.files (ledgerName p g.commandId) = some []) :
    ∀ o ∈ s.outcomes, o.2.accepted = true →
      ledgerName p o.1.commandId ≠ ledgerName p g.commandId := by
  intro o ho hacc heq
  have hrecord := h.accepted o ho hacc
  rw [heq] at hrecord
  obtain hfile | hfile := hfile
  · rw [hfile] at hrecord
    cases hrecord
  · rw [hfile] at hrecord
    exact recordBody_ne_nil (Option.some.inj hrecord).symm

/-- A file that no accepted grant has may be written. -/
theorem Ledger.Recorded.store (h : s.Recorded p)
    (hfile : s.files (ledgerName p g.commandId) = none ∨
      s.files (ledgerName p g.commandId) = some []) :
    ∀ o ∈ s.outcomes, o.2.accepted = true →
      (s.store p g content).files (ledgerName p o.1.commandId) = some (recordBody p o.1) := by
  intro o ho hacc
  exact (Ledger.store_of_ne (h.apart hfile o ho hacc)).trans (h.accepted o ho hacc)

theorem Ledger.Recorded.next {op : FileOp} (h : s.Recorded p) (hg : g ∈ s.delivered)
    (hop : s.Before p g op) : (s.next g op).Recorded p := by
  refine ⟨fun g' op' heq => ?_, h.known, h.accepted, h.once⟩
  cases heq
  exact ⟨hg, by cases op <;> exact hop⟩

/-- A grant is refused, or its operation is interrupted. -/
theorem Ledger.Recorded.refuse (h : s.Recorded p) {outcome : Outcome} (hg : g ∈ s.delivered)
    (hno : outcome.accepted = false) : (s.returns g outcome).Recorded p := by
  refine ⟨fun _ _ heq => (nomatch heq), List.forall_mem_cons.mpr ⟨hg, h.known⟩,
    fun o ho hacc => ?_, fun commandId => ?_⟩
  · obtain rfl | ho := List.mem_cons.mp ho
    · rw [hno] at hacc
      cases hacc
    · exact h.accepted o ho hacc
  · refine le_of_eq_of_le (List.countP_cons_of_neg ?_) (h.once commandId)
    rw [decide_eq_true_eq]
    rintro ⟨-, rfl⟩
    cases hno

theorem Ledger.Recorded.interrupted {op : FileOp} (h : s.Recorded p)
    (hop : s.accepting = some (g, op)) :
    ({ s.interrupted p g op count with accepting := none } : Ledger).Recorded p := by
  unfold Ledger.interrupted
  split
  · rename_i hw
    subst hw
    exact ⟨fun _ _ heq => (nomatch heq), h.known,
      h.store (.inr (h.accepting g .write hop).2), h.once⟩
  · exact ⟨fun _ _ heq => (nomatch heq), h.known, h.accepted, h.once⟩

/-- A grant is accepted whose record is in its file; launched, if it is the first. -/
theorem Ledger.Recorded.accept {outcome : Outcome} (h : s.Recorded p) (hg : g ∈ s.delivered)
    (hfile : s.files (ledgerName p g.commandId) = some (recordBody p g))
    (hfirst : outcome = .launched →
      ∀ o ∈ s.outcomes, o.2 = .launched → o.1.commandId ≠ g.commandId) :
    (s.returns g outcome).Recorded p := by
  refine ⟨fun _ _ heq => (nomatch heq), List.forall_mem_cons.mpr ⟨hg, h.known⟩,
    fun o ho hacc => ?_, fun commandId => ?_⟩
  · obtain rfl | ho := List.mem_cons.mp ho
    · exact hfile
    · exact h.accepted o ho hacc
  · by_cases hnew : g.commandId = commandId ∧ outcome = .launched
    · obtain ⟨rfl, hlaunched⟩ := hnew
      have hzero : s.outcomes.countP
          (fun o => o.1.commandId = g.commandId ∧ o.2 = .launched) = 0 := by
        refine List.countP_eq_zero.mpr fun o ho hx => ?_
        rw [decide_eq_true_eq] at hx
        exact hfirst hlaunched o ho hx.2 hx.1
      rw [Ledger.returns, List.countP_cons, hzero]
      split <;> omega
    · refine le_of_eq_of_le (List.countP_cons_of_neg ?_) (h.once commandId)
      rwa [decide_eq_true_eq]

/-- The file is created, or is there already and read. -/
theorem Ledger.Recorded.create (h : s.Recorded p) (hop : s.accepting = some (g, .create)) :
    (s.advance p g .create).Recorded p := by
  have hg : g ∈ s.delivered := (h.accepting g .create hop).1
  simp only [Ledger.advance]
  split
  · rename_i hnone
    refine Ledger.Recorded.next ⟨fun g' op' heq => ?_, h.known, h.store (.inl hnone), h.once⟩ hg
      Ledger.store_self
    rw [Ledger.store, hop] at heq
    cases heq
    exact ⟨hg, trivial⟩
  · rename_i hsome
    exact h.next hg (Option.isSome_iff_exists.mpr ⟨_, hsome⟩)

/-- The record is written: no grant of the command can have been launched before. -/
theorem Ledger.Recorded.write (h : s.Recorded p) (hop : s.accepting = some (g, .write)) :
    (s.advance p g .write).Recorded p := by
  obtain ⟨hg, hempty⟩ := h.accepting g .write hop
  have hfresh : ∀ o ∈ s.outcomes, o.2 = .launched → o.1.commandId ≠ g.commandId := by
    intro o ho hl heq
    exact h.apart (.inr hempty) o ho (by rw [hl]; rfl) (congrArg (ledgerName p) heq)
  refine ⟨fun g' op' heq => ?_, h.known, h.store (.inr hempty), h.once⟩
  cases heq
  exact ⟨hg, Ledger.store_self, hfresh⟩

theorem Ledger.Recorded.advance {op : FileOp} (h : s.Recorded p)
    (hop : s.accepting = some (g, op)) : (s.advance p g op).Recorded p := by
  obtain ⟨hg, hbefore⟩ := h.accepting g op hop
  cases op with
  | mkdir => exact h.next hg trivial
  | lstat => exact h.next hg trivial
  | create => exact h.create hop
  | readBack =>
    simp only [Ledger.advance]
    split
    · rename_i hsame
      exact h.accept hg hsame nofun
    · exact h.refuse hg rfl
  | write => exact h.write hop
  | sync => exact h.next hg hbefore
  | close => exact h.next hg hbefore
  | openDir => exact h.next hg hbefore
  | syncDir => exact h.accept hg hbefore.1 fun _ => hbefore.2

theorem Ledger.Recorded.step (h : s.Recorded p) : (Grants.step p s a).Recorded p := by
  cases a with
  | deliver grant epoch =>
    simp only [Grants.step]
    split
    · rename_i hidle
      have hs : ({ s with
          delivered := { grant with executionEpoch := epoch } :: s.delivered } :
          Ledger).Recorded p := by
        refine ⟨fun g op heq => ?_, fun o ho => List.mem_cons_of_mem _ (h.known o ho), h.accepted,
          h.once⟩
        rw [hidle] at heq
        cases heq
      unfold Ledger.deliver
      split
      · exact hs.refuse List.mem_cons_self rfl
      · exact hs.next List.mem_cons_self trivial
    · exact h
  | advance =>
    simp only [Grants.step]
    split
    · exact h
    · rename_i hop
      exact h.advance hop
  | fail count =>
    simp only [Grants.step]
    split
    · exact h
    · rename_i g op hop
      refine Ledger.Recorded.refuse (s := { s.interrupted p g op count with accepting := none })
        (h.interrupted hop) ?_ ?_
      · rw [Ledger.delivered_interrupted]
        exact (h.accepting g op hop).1
      · split <;> rfl
  | crash count =>
    simp only [Grants.step]
    split
    · exact h
    · rename_i hop
      exact h.interrupted hop

theorem recorded_run (actions : List Action) : (run p actions).Recorded p :=
  run_invariant (I := fun s : Ledger => s.Recorded p) .fresh fun _ _ h => h.step

/-! ## Whole records -/

/-- The file of its command holds the record of another grant, one that was delivered. -/
def Ledger.Disputed (s : Ledger) (p : Platform) (g : LaunchCommand) : Prop :=
  ∃ g' ∈ s.delivered, ledgerName p g'.commandId = ledgerName p g.commandId ∧
    s.files (ledgerName p g.commandId) = some (recordBody p g') ∧ recordBody p g' ≠ recordBody p g

/-- What is written goes to a file that is new or empty, so not to this one. -/
theorem Ledger.Disputed.store (h : s.Disputed p g)
    (hfile : s.files (ledgerName p g'.commandId) = none ∨
      s.files (ledgerName p g'.commandId) = some []) : (s.store p g' content).Disputed p g := by
  obtain ⟨known, hknown, hname, hrecord, hne⟩ := h
  refine ⟨known, hknown, hname, ?_, hne⟩
  rw [Ledger.store_of_ne fun heq => ?_, hrecord]
  rw [heq] at hrecord
  obtain hfile | hfile := hfile
  · rw [hfile] at hrecord
    cases hrecord
  · rw [hfile] at hrecord
    exact recordBody_ne_nil (Option.some.inj hrecord).symm

/-- A file that is not just being written holds the record of a grant. -/
structure Ledger.Whole (s : Ledger) (p : Platform) : Prop where
  files : ∀ path content, s.files path = some content →
    (∀ g, s.accepting = some (g, .write) → path ≠ ledgerName p g.commandId) →
    ∃ g ∈ s.delivered, path = ledgerName p g.commandId ∧ content = recordBody p g
  conflicts : ∀ g, (g, .conflict) ∈ s.outcomes → s.Disputed p g

theorem Ledger.Whole.fresh : Ledger.fresh.Whole p :=
  ⟨fun _ _ h => (nomatch h), fun _ h => (nomatch h)⟩

theorem Ledger.Whole.next {op op' : FileOp} (h : s.Whole p) (hop : s.accepting = some (g, op))
    (hw : op ≠ .write) : (s.next g op').Whole p := by
  refine ⟨fun path content hfile _ => h.files path content hfile fun g' heq => ?_, h.conflicts⟩
  rw [hop] at heq
  cases heq
  exact absurd rfl hw

/-- With the record of the grant in its file, every file is whole. -/
theorem Ledger.Whole.write (h : s.Whole p) (hr : s.Recorded p)
    (hop : s.accepting = some (g, .write)) :
    ({ s.store p g (recordBody p g) with accepting := none } : Ledger).Whole p := by
  obtain ⟨hg, hempty⟩ := hr.accepting g .write hop
  refine ⟨fun path content hfile _ => ?_, fun g' hm => (h.conflicts g' hm).store (.inr hempty)⟩
  by_cases hpath : path = ledgerName p g.commandId
  · refine ⟨g, hg, hpath, ?_⟩
    rw [hpath] at hfile
    exact (Option.some.inj (Ledger.store_self.symm.trans hfile)).symm
  · refine h.files path content ((Ledger.store_of_ne hpath).symm.trans hfile) fun g' heq => ?_
    rw [hop] at heq
    cases heq
    exact hpath

theorem Ledger.Whole.refuse (h : s.Whole p) {outcome : Outcome}
    (hw : ∀ g, s.accepting ≠ some (g, .write)) (hc : outcome = .conflict → s.Disputed p g) :
    (s.returns g outcome).Whole p := by
  refine ⟨fun path content hfile _ => h.files path content hfile fun g' heq => absurd heq (hw g'),
    fun g' hm => ?_⟩
  obtain heq | hm := List.mem_cons.mp hm
  · cases heq
    exact hc rfl
  · exact h.conflicts g' hm

/-- An operation that leaves no part of a record behind. -/
theorem Ledger.Whole.interrupted {op : FileOp} (h : s.Whole p) (hr : s.Recorded p)
    (hop : s.accepting = some (g, op)) (hall : op = .write → (recordBody p g).length ≤ count) :
    ({ s.interrupted p g op count with accepting := none } : Ledger).Whole p := by
  unfold Ledger.interrupted
  split
  · rename_i hw
    rw [List.take_of_length_le (hall hw)]
    exact h.write hr (hw ▸ hop)
  · rename_i hw
    refine ⟨fun path content hfile _ => h.files path content hfile fun g' heq => ?_, h.conflicts⟩
    rw [hop] at heq
    cases heq
    exact absurd rfl hw

theorem Ledger.Whole.create (h : s.Whole p) (hop : s.accepting = some (g, .create)) :
    (s.advance p g .create).Whole p := by
  simp only [Ledger.advance]
  split
  · rename_i hnone
    refine ⟨fun path content hfile hpath => ?_, fun g' hm => (h.conflicts g' hm).store (.inl hnone)⟩
    have hne : path ≠ ledgerName p g.commandId := hpath g rfl
    refine h.files path content ((Ledger.store_of_ne hne).symm.trans hfile) fun g' heq => ?_
    rw [hop] at heq
    cases heq
  · exact h.next hop nofun

/-- A record that differs is the record of another grant: it is whole, as nothing is being
written. -/
theorem Ledger.Whole.readBack (h : s.Whole p) (hr : s.Recorded p)
    (hop : s.accepting = some (g, .readBack)) : (s.advance p g .readBack).Whole p := by
  have hnot : ∀ g', s.accepting ≠ some (g', .write) := by
    intro g' heq
    rw [hop] at heq
    cases heq
  simp only [Ledger.advance]
  split
  · exact h.refuse hnot nofun
  · rename_i hdiffer
    obtain ⟨content, hfile⟩ := Option.isSome_iff_exists.mp (hr.accepting g .readBack hop).2
    obtain ⟨g', hg', hpath, hcontent⟩ :=
      h.files _ content hfile fun g' heq => absurd heq (hnot g')
    rw [hcontent] at hfile
    exact h.refuse hnot fun _ => ⟨g', hg', hpath.symm, hfile, fun heq =>
      hdiffer (hfile.trans (congrArg some heq))⟩

theorem Ledger.Whole.advance {op : FileOp} (h : s.Whole p) (hr : s.Recorded p)
    (hop : s.accepting = some (g, op)) : (s.advance p g op).Whole p := by
  cases op with
  | create => exact h.create hop
  | readBack => exact h.readBack hr hop
  | write =>
    have hw := h.write hr hop
    exact ⟨fun path content hfile _ => hw.files path content hfile fun _ heq => (nomatch heq),
      hw.conflicts⟩
  | syncDir =>
    refine h.refuse (fun g' heq => ?_) nofun
    rw [hop] at heq
    cases heq
  | _ => exact h.next hop nofun

theorem Ledger.Whole.step (h : s.Whole p) (hr : s.Recorded p) (hi : Intact p s a) :
    (Grants.step p s a).Whole p := by
  cases a with
  | deliver grant epoch =>
    simp only [Grants.step]
    split
    · rename_i hidle
      have hs : ({ s with
          delivered := { grant with executionEpoch := epoch } :: s.delivered } :
          Ledger).Whole p := by
        refine ⟨fun path content hfile _ => ?_, fun g hm => ?_⟩
        · obtain ⟨g, hg, hx⟩ := h.files path content hfile fun g heq => by
            rw [hidle] at heq
            cases heq
          exact ⟨g, List.mem_cons_of_mem _ hg, hx⟩
        · obtain ⟨g', hg', hx⟩ := h.conflicts g hm
          exact ⟨g', List.mem_cons_of_mem _ hg', hx⟩
      have hno : ∀ g, s.accepting ≠ some (g, .write) := by
        intro g heq
        rw [hidle] at heq
        cases heq
      unfold Ledger.deliver
      split
      · exact hs.refuse hno nofun
      · exact ⟨fun path content hfile _ => hs.files path content hfile fun g heq =>
          absurd heq (hno g), hs.conflicts⟩
    · exact h
  | advance =>
    simp only [Grants.step]
    split
    · exact h
    · rename_i hop
      exact h.advance hr hop
  | fail count =>
    simp only [Grants.step]
    split
    · exact h
    · rename_i g op hop
      obtain ⟨hread, hall⟩ := hi g op hop
      rw [Ledger.fail, if_neg hread]
      exact (h.interrupted hr hop hall).refuse (fun _ heq => (nomatch heq)) nofun
  | crash count =>
    simp only [Grants.step]
    split
    · exact h
    · rename_i g op hop
      exact h.interrupted hr hop (hi g op hop)

/-! ## At most one launch -/

theorem commandId_of_ledgerName {c c' : String} (h : ledgerName p c = ledgerName p c') :
    p.runtimeHash c = p.runtimeHash c' :=
  (String.append_left_inj ".json").mp h

/-- The hashes of the delivered grants do not collide. -/
structure Apart (p : Platform) (delivered : List LaunchCommand) : Prop where
  commands : ∀ g ∈ delivered, ∀ g' ∈ delivered,
    p.runtimeHash g.commandId = p.runtimeHash g'.commandId → g.commandId = g'.commandId
  bodies : ∀ g ∈ delivered, ∀ g' ∈ delivered,
    p.runtimeHash (grantBody g) = p.runtimeHash (grantBody g') → grantBody g = grantBody g'

/-- Only a failed operation, or a grant that names nothing, ends `acceptGrant` so. -/
theorem failed_step (h : (g, .failed) ∈ (step p s a).outcomes) :
    (g, .failed) ∈ s.outcomes ∨ Invalid g ∨ ∃ count, a = .fail count := by
  cases a with
  | deliver grant epoch =>
    simp only [step] at h
    split at h
    · unfold Ledger.deliver at h
      split at h
      · rename_i hinvalid
        obtain heq | h := List.mem_cons.mp h
        · cases heq
          exact .inr (.inl hinvalid)
        · exact .inl h
      · exact .inl h
    · exact .inl h
  | advance =>
    simp only [step] at h
    split at h
    · exact .inl h
    · rename_i g' op hop
      have hold : ∀ outcome : Outcome, outcome ≠ .failed →
          (g, .failed) ∈ (s.returns g' outcome).outcomes → (g, .failed) ∈ s.outcomes := by
        intro outcome hne hm
        obtain heq | hm := List.mem_cons.mp hm
        · cases heq
          exact absurd rfl hne
        · exact hm
      cases op <;> simp only [Ledger.advance] at h
      case create =>
        split at h
        · exact .inl h
        · exact .inl h
      case readBack =>
        split at h
        · exact .inl (hold .duplicate nofun h)
        · exact .inl (hold .conflict nofun h)
      case syncDir => exact .inl (hold .launched nofun h)
      all_goals exact .inl h
  | fail count => exact .inr (.inr ⟨count, rfl⟩)
  | crash count =>
    simp only [step] at h
    split at h
    · exact .inl h
    · refine .inl ?_
      unfold Ledger.crash Ledger.interrupted at h
      split at h
      · exact h
      · exact h

theorem failed_run (h : (g, .failed) ∈ (run p actions).outcomes) :
    Invalid g ∨ ∃ count, .fail count ∈ actions := by
  induction actions using List.reverseRecOn with
  | nil => cases h
  | append_singleton actions a ih =>
    rw [run, run_concat] at h
    obtain h | h | ⟨count, rfl⟩ := failed_step h
    · exact (ih h).imp_right fun ⟨count, hc⟩ => ⟨count, List.mem_append_left _ hc⟩
    · exact .inl h
    · exact .inr ⟨count, List.mem_append_right _ List.mem_cons_self⟩

/-- In every run a command is launched at most once, and no two grants of it are accepted that
differ in more than their epoch. Where no record is left in part, a grant is only refused as
contradicting the ledger when it differs from the one recorded there, and from every grant of its
command that was accepted. -/
theorem launched_at_most_once (p : Platform) (actions : List Action)
    (hhash : Apart p (run p actions).delivered) :
    (∀ commandId, (run p actions).outcomes.countP
      (fun o => o.1.commandId = commandId ∧ o.2 = .launched) ≤ 1) ∧
    (∀ o ∈ (run p actions).outcomes, ∀ o' ∈ (run p actions).outcomes, o.2.accepted = true →
      o'.2.accepted = true → o.1.commandId = o'.1.commandId → grantBody o.1 = grantBody o'.1) ∧
    (∀ g, (g, .failed) ∈ (run p actions).outcomes → Invalid g ∨ ∃ count, .fail count ∈ actions) ∧
    (AllSteps (step p) (Intact p) .fresh actions → ∀ g,
      (g, .conflict) ∈ (run p actions).outcomes →
        (∃ g' ∈ (run p actions).delivered, g'.commandId = g.commandId ∧
          (run p actions).files (ledgerName p g.commandId) = some (recordBody p g') ∧
          Source.identityGrant g' ≠ Source.identityGrant g) ∧
        ∀ o ∈ (run p actions).outcomes, o.2.accepted = true → o.1.commandId = g.commandId →
          Source.identityGrant o.1 ≠ Source.identityGrant g) := by
  have hr : (run p actions).Recorded p := recorded_run actions
  refine ⟨hr.once, fun o ho o' ho' hacc hacc' hid => ?_, fun g => failed_run,
    fun hintact g hm => ?_⟩
  · have hfile := hr.accepted o ho hacc
    rw [hid, hr.accepted o' ho' hacc'] at hfile
    exact hhash.bodies o.1 (hr.known o ho) o'.1 (hr.known o' ho')
      (hash_of_recordBody (Option.some.inj hfile).symm)
  · have hboth : (run p actions).Recorded p ∧ (run p actions).Whole p := by
      refine run_invariant_when (I := fun s : Ledger => s.Recorded p ∧ s.Whole p)
        ⟨.fresh, .fresh⟩ (fun s a hs hi => ?_) hintact
      exact ⟨hs.1.step, hs.2.step hs.1 hi⟩
    obtain ⟨g', hg', hname, hrecord, hne⟩ := hboth.2.conflicts g hm
    have hcommand : g'.commandId = g.commandId :=
      hhash.commands g' hg' g (hr.known _ hm) (commandId_of_ledgerName hname)
    refine ⟨⟨g', hg', hcommand, hrecord, fun heq => hne (recordBody_congr heq)⟩,
      fun o ho hacc hid heq => hne ?_⟩
    -- What was accepted is what is recorded.
    have hfile := hr.accepted o ho hacc
    rw [hid, hrecord] at hfile
    exact (Option.some.inj hfile).trans (recordBody_congr heq)

/-! ## The ledger of the Host -/

/-- A delivery that is not interrupted. -/
def accept (p : Platform) (s : Ledger) (grant : LaunchCommand) (epoch : Nat) : Ledger :=
  Library.run (step p) s (.deliver grant epoch :: List.replicate 8 .advance)

/-- The file of the command holds the record of the grant the Host has a worker for. -/
def Ledger.Mirrors (s : Ledger) (p : Platform) (h : Source) (commandId : String) : Prop :=
  s.files (ledgerName p commandId) =
    (h.workers.find? commandId).map fun k => recordBody p k.grant

/-- What an uninterrupted delivery does, by what the file of its command holds. -/
theorem accept_cases {epoch : Nat} (hidle : s.accepting = none) (hvalid : ¬ Invalid g)
    (hg : g.executionEpoch = epoch) : (accept p s g epoch).accepting = none ∧
    ((s.files (ledgerName p g.commandId) = none ∧
        (accept p s g epoch).files (ledgerName p g.commandId) = some (recordBody p g) ∧
        (accept p s g epoch).outcomes = (g, .launched) :: s.outcomes) ∨
      (s.files (ledgerName p g.commandId) = some (recordBody p g) ∧
        (accept p s g epoch).files = s.files ∧
        (accept p s g epoch).outcomes = (g, .duplicate) :: s.outcomes) ∨
      ∃ content, s.files (ledgerName p g.commandId) = some content ∧ content ≠ recordBody p g ∧
        (accept p s g epoch).files = s.files ∧
        (accept p s g epoch).outcomes = (g, .conflict) :: s.outcomes) := by
  subst hg
  unfold accept
  cases hfile : s.files (ledgerName p g.commandId) with
  | none =>
    simp [Library.run, List.replicate, step, hidle, Ledger.deliver, hvalid, Ledger.next,
      Ledger.advance, hfile, Ledger.store, Ledger.returns]
  | some content =>
    by_cases hsame : content = recordBody p g
    · simp [Library.run, List.replicate, step, hidle, Ledger.deliver, hvalid, Ledger.next,
        Ledger.advance, hfile, Ledger.returns, hsame]
    · simp [Library.run, List.replicate, step, hidle, Ledger.deliver, hvalid, Ledger.next,
        Ledger.advance, hfile, Ledger.returns, hsame]

/-- A command keeps the grant it was first accepted with. -/
theorem acceptGrant_grant (h : Source) (provider : String) (observed : Observed)
    (hvalid : ¬ Invalid g) :
    ((h.acceptGrant p g provider observed).workers.find? g.commandId).map Worker.grant =
      some (((h.workers.find? g.commandId).map Worker.grant).getD g) := by
  have hcommand : ¬ (g.commandId = "" ∨ g.reservationId = "" ∨ g.attemptId = "" ∨
      g.segmentId = "") := hvalid
  rw [Source.acceptGrant, if_neg hcommand]
  cases hfind : h.workers.find? g.commandId with
  | some k =>
    simp only [Option.map_some, Option.getD_some]
    split
    · rw [Source.setWorker, Table.find?_update, hfind, Option.map_some, Option.map_some]
      refine congrArg some ?_
      unfold Table.patch
      split <;> rfl
    · rw [hfind, Option.map_some]
  | none =>
    obtain ⟨workers, hi, -⟩ := Table.insert?_isSome (t := h.workers)
      (a := ⟨g, execute p g provider observed, [], 0⟩) (Table.find?_eq_none.mp hfind)
    have hfound := Table.find?_of_mem ((Table.mem_insert hi).mpr (.inr rfl))
    simp only [hi, Option.getD_some, Option.map_none, Option.getD_none]
    rw [hfound, Option.map_some]

/-- The files tell grants apart as the Host's table of workers does. -/
theorem accept_mirrors {h : Source} {provider : String} {observed : Observed}
    (hidle : s.accepting = none) (hvalid : ¬ Invalid g) (hm : s.Mirrors p h g.commandId) :
    (accept p s g g.executionEpoch).Mirrors p (h.acceptGrant p g provider observed)
      g.commandId := by
  have hgrant := acceptGrant_grant (p := p) h provider observed hvalid
  have hmap : ∀ w : Option Worker, w.map (fun k => recordBody p k.grant) =
      (w.map Worker.grant).map (recordBody p) := by
    intro w
    rw [Option.map_map]
    rfl
  rw [Ledger.Mirrors, hmap] at hm ⊢
  rw [hgrant, Option.map_some]
  obtain ⟨-, ⟨hfile, hnew, -⟩ | ⟨hfile, hsame, -⟩ | ⟨content, hfile, -, hsame, -⟩⟩ :=
    accept_cases (p := p) hidle hvalid rfl
  · rw [hfile] at hm
    rw [hnew, Option.map_eq_none_iff.mp hm.symm]
    rfl
  · rw [hfile] at hm
    obtain ⟨k, hk, hrecord⟩ := Option.map_eq_some_iff.mp hm.symm
    rw [hsame, hfile, hk, Option.getD_some, hrecord]
  · rw [hfile] at hm
    obtain ⟨k, hk, hrecord⟩ := Option.map_eq_some_iff.mp hm.symm
    rw [hsame, hfile, hk, Option.getD_some, hrecord]

/-- An uninterrupted delivery is a duplicate where the Host has a worker for the same grant, and is
refused where it has one for another, as long as their records differ. -/
theorem accept_outcome {h : Source} (hidle : s.accepting = none) (hvalid : ¬ Invalid g)
    (hm : s.Mirrors p h g.commandId) :
    (accept p s g g.executionEpoch).outcomes = (g, match h.workers.find? g.commandId with
      | none => .launched
      | some k => if recordBody p k.grant = recordBody p g then .duplicate else .conflict) ::
        s.outcomes := by
  rw [Ledger.Mirrors] at hm
  obtain ⟨-, ⟨hfile, -, hout⟩ | ⟨hfile, -, hout⟩ | ⟨content, hfile, hne, -, hout⟩⟩ :=
    accept_cases (p := p) hidle hvalid rfl
  · rw [hfile] at hm
    rw [hout, Option.map_eq_none_iff.mp hm.symm]
  · rw [hfile] at hm
    obtain ⟨k, hk, hrecord⟩ := Option.map_eq_some_iff.mp hm.symm
    simp only [hout, hk, hrecord, if_true]
  · rw [hfile] at hm
    obtain ⟨k, hk, hrecord⟩ := Option.map_eq_some_iff.mp hm.symm
    simp only [hout, hk, hrecord, if_neg hne]

end

def toyGrant : LaunchCommand :=
  { commandId := "command-11", reservationId := "reservation-11", attemptId := "attempt-11",
    segmentId := "segment-11" }

theorem toyGrant_valid (epoch : Nat) : ¬ Invalid { toyGrant with executionEpoch := epoch } := by
  have hvalid : ¬ Invalid toyGrant := by decide
  exact hvalid

/-- The process dies between the creation of the file and the write. -/
def tornActions : List Action :=
  [.deliver toyGrant 1, .advance, .advance, .advance, .crash 0,
    .deliver toyGrant 2, .advance, .advance, .advance, .advance]

/-- Delivered again, the grant is refused as another one. -/
theorem torn_record_conflicts :
    ({ toyGrant with executionEpoch := 2 }, .conflict) ∈ (run toyPlatform tornActions).outcomes ∧
      ∀ g ∈ (run toyPlatform tornActions).delivered,
        Source.identityGrant g = Source.identityGrant toyGrant := by
  have hne : some [] ≠ some (recordBody toyPlatform { toyGrant with executionEpoch := 2 }) := by
    intro h
    exact recordBody_ne_nil (Option.some.inj h).symm
  have hrun : run toyPlatform tornActions = {
      files := Function.update (Function.update (fun _ => none)
        (ledgerName toyPlatform toyGrant.commandId) (some []))
        (ledgerName toyPlatform toyGrant.commandId) (some [])
      accepting := none
      delivered := [{ toyGrant with executionEpoch := 2 }, { toyGrant with executionEpoch := 1 }]
      outcomes := [({ toyGrant with executionEpoch := 2 }, .conflict)] } := by
    simp only [run, tornActions, Library.run, List.foldl_cons, List.foldl_nil, step, Ledger.fresh,
      Ledger.deliver, toyGrant_valid, if_false, Ledger.next, Ledger.advance, Ledger.store,
      Ledger.crash, Ledger.interrupted, if_true, List.take_zero, Function.update_self, hne,
      Ledger.returns]
  rw [hrun]
  exact ⟨List.mem_cons_self, by simp [Source.identityGrant]⟩

/-- A launch, and its command again after a reconnection. -/
def resentActions : List Action :=
  [Action.deliver toyGrant 1] ++ List.replicate 8 Action.advance ++
    [Action.crash 0, .deliver toyGrant 2] ++ List.replicate 4 Action.advance

theorem resent_is_duplicate : (run toyPlatform resentActions).outcomes.map Prod.snd =
      [.duplicate, .launched] ∧
    (run toyPlatform resentActions).outcomes.countP
      (fun o => o.1.commandId = "command-11" ∧ o.2 = .launched) ≤ 1 := by
  have hfacts : (run toyPlatform resentActions).outcomes.map Prod.snd = [.duplicate, .launched] ∧
      (run toyPlatform resentActions).delivered =
        [{ toyGrant with executionEpoch := 2 }, { toyGrant with executionEpoch := 1 }] := by
    have hsame : recordBody toyPlatform { toyGrant with executionEpoch := 1 } =
        recordBody toyPlatform { toyGrant with executionEpoch := 2 } := recordBody_congr rfl
    simp only [run, resentActions, List.replicate, List.cons_append, List.nil_append, Library.run,
      List.foldl_cons, List.foldl_nil, step, Ledger.fresh, Ledger.deliver, toyGrant_valid, if_false,
      Ledger.next, Ledger.advance, Ledger.store, Function.update_self, Ledger.returns,
      hsame, if_true, List.map_cons, List.map_nil, and_self]
  obtain ⟨houtcomes, hdelivered⟩ := hfacts
  have hgrant : ∀ g ∈ (run toyPlatform resentActions).delivered, g.commandId = "command-11" ∧
      Source.identityGrant g = toyGrant := by
    rw [hdelivered]
    decide
  have hapart : Apart toyPlatform (run toyPlatform resentActions).delivered := by
    refine ⟨fun g hg g' hg' _ => ?_, fun g hg g' hg' _ => ?_⟩
    · exact (hgrant g hg).1.trans (hgrant g' hg').1.symm
    · rw [grantBody, grantBody, (hgrant g hg).2, (hgrant g' hg').2]
  exact ⟨houtcomes, (launched_at_most_once toyPlatform resentActions hapart).1 "command-11"⟩

end Orchestrator.Host.Grants
