import Orchestrator.Gitops.Recorded

/-!
# What a cleanup records

A call of `Cleanup` keeps the discipline but for two ways out: the last look at the root fails, or
the record of a root that was missing from the start does.
-/
namespace Orchestrator.Gitops
open Library Prog

/-- The root cannot be looked at, though it may be gone. -/
def LostRoot (req : CleanupRequest) (e : Event) : Prop := ∃ err, e = ⟨.lstat req.root, .error err⟩

def MissingRoot (req : CleanupRequest) (e : Event) : Prop := e = ⟨.stat req.root, .notExist⟩

/-- A journal that does not take the record of a root that is gone. -/
def Unrecorded (e : Event) : Prop :=
  ∃ o err, e = ⟨.recordCleanup o, some err⟩ ∧ o.state = .removed

/-- What happens to a cleanup that breaks its discipline. -/
def Interrupted (req : CleanupRequest) (t : List Event) : Prop :=
  (∃ e ∈ t, LostRoot req e) ∨ (∃ e ∈ t, MissingRoot req e) ∧ ∃ e ∈ t, Unrecorded e

section
variable {ρ : Type} {req : CleanupRequest} {out : CleanupOutcome} {r : CleanupReceipt}

/-! ## After the intent -/

theorem found_not_missing {path : String} {file : FileId} :
    ¬ MissingRoot req ⟨.stat path, (Stat.found file : Stat)⟩ := by
  generalize hroot : req.root = root
  rw [MissingRoot, hroot]
  intro h
  cases h

/-- Neither of the two looks at the root that matter. -/
structure Harmless (req : CleanupRequest) (e : Event) : Prop where
  works : Works e
  found : ¬ LostRoot req e
  there : ¬ MissingRoot req e

/-- An operation that is no look at a path. -/
def Plain (e : Event) : Prop := Works e ∧ e.1.stats = false

theorem Looks.plain {e : Event} (h : Looks e) : Plain e := ⟨.inl h.1, h.2⟩

theorem Plain.harmless {e : Event} (h : Plain e) : Harmless req e where
  works := h.1
  found := by
    rintro ⟨err, rfl⟩
    cases h.2
  there := by
    rintro rfl
    cases h.2

/-- How a cleanup ends that has found its root: with a record, or with a root that is lost. -/
structure Cleared (req : CleanupRequest) (body : List Event) (e : Event) (x : Cleaned) : Prop where
  found : ∀ y ∈ body, ¬ LostRoot req y
  ends : (∃ o, ∃ ans : Option Err, e = ⟨.recordCleanup o, ans⟩ ∧
      (x.1.state = .removed → ans = none) ∧
      (o.state = .removed → ∀ y ∈ body, ¬ MissingRoot req y)) ∨
    LostRoot req e ∧ x.1.state ≠ .removed

theorem Cleared.append {first body : List Event} {e : Event} {x : Cleaned}
    (hfirst : ∀ e ∈ first, Harmless req e) (h : Cleared req body e x) :
    Cleared req (first ++ body) e x where
  found := fun y hy => (List.mem_append.mp hy).elim (fun hy => (hfirst y hy).found) (h.found y)
  ends := h.ends.imp_left fun ⟨o, ans, he, hkept, hthere⟩ => ⟨o, ans, he, hkept,
    fun ho y hy => (List.mem_append.mp hy).elim (fun hy => (hfirst y hy).there) (hthere ho y)⟩

theorem Closes.afterPlain {α : Type} {p : Script Cleaned α} {f : α → Script Cleaned Cleaned}
    (h : Only Plain p) (hf : ∀ a, Closes (f a) (Cleared req)) : Closes (p >>= f) (Cleared req) :=
  Closes.after h (fun _ he => he.1)
    (fun _ _ _ _ hfirst h => h.append fun e he => (hfirst e he).harmless) hf

theorem closes_cons {op : Op} {ans : Ans op} {p : Script Cleaned Cleaned}
    (he : Harmless req ⟨op, ans⟩) (h : Closes p (Cleared req)) :
    Ensures p fun rest x => ∃ body e y, ⟨op, ans⟩ :: rest = body ++ [e] ∧ x = .ok y ∧
      (∀ e ∈ body, Works e) ∧ Cleared req body e y := by
  refine Ensures.imp h fun rest x hx => ?_
  obtain ⟨body, e, y, rfl, rfl, hbody, hy⟩ := hx
  refine ⟨⟨op, ans⟩ :: body, e, y, rfl, rfl, by simpa using ⟨he.works, hbody⟩, ?_⟩
  have hfirst : ∀ y ∈ [(⟨op, ans⟩ : Event)], Harmless req y := by simpa using he
  exact hy.append hfirst

/-- The record of an outcome that is pending says nothing of the looks before it. -/
theorem cleared_pending {body : List Event} {cause : Option Err} {ans : Option Err}
    (hbody : ∀ y ∈ body, ¬ LostRoot req y) (h : out.state = .pending) :
    Cleared req body ⟨.recordCleanup out, ans⟩ (out, cause) :=
  ⟨hbody, .inl ⟨out, ans, rfl, by simp [h], by simp [h]⟩⟩

theorem records_cleanup {cause : Option Err} : Ensures (recordCleanup out cause) fun t x =>
    ∃ ans : Option Err, ∃ cause, t = [⟨.recordCleanup out, ans⟩] ∧ x = .ok (out, cause) := by
  refine ensures_call fun (ans : Option Err) => ?_
  cases ans with
  | none => exact ensures_done ⟨none, cause, rfl, rfl⟩
  | some e => cases cause with
    | none => exact ensures_done ⟨some e, some e, rfl, rfl⟩
    | some cause => exact ensures_done ⟨some e, some (.join cause e), rfl, rfl⟩

theorem closes_failCleanup {code : Code} {cause : Err} (h : out.state = .pending) :
    Closes (failCleanup out code cause) (Cleared req) := by
  refine records_cleanup.imp fun t x hx => ?_
  obtain ⟨ans, cause, rfl, rfl⟩ := hx
  exact ⟨[], _, _, rfl, rfl, by simp, cleared_pending (by simp) (by simpa using h)⟩

theorem plain_deletePrivateRef {repo ref expected : String} :
    Only Plain (deletePrivateRef repo ref expected : Script ρ _) := by
  have hrepo : Only Plain (validateRepo repo : Script ρ _) :=
    quiet_validateRepo.imp fun _ => Looks.plain
  have href : Only Plain (privateRefOID repo ref : Script ρ _) :=
    quiet_privateRefOID.imp fun _ => Looks.plain
  unfold deletePrivateRef
  split
  · exact only_pure _
  refine hrepo.bind fun root => ?_
  split
  · exact only_pure _
  split
  · exact only_pure _
  refine href.bind fun current => ?_
  split
  · exact only_pure _
  · exact only_pure _
  split
  · exact only_pure _
  refine (only_ask fun _ => ⟨.inr rfl, rfl⟩).bind fun (r : Ran) => ?_
  split
  · exact only_pure _
  refine href.bind fun left => ?_
  split <;> exact only_pure _

theorem plain_deleteOwnRef : Only Plain (deleteOwnRef r) := by
  unfold deleteOwnRef
  split
  · exact only_pure _
  · exact plain_deletePrivateRef

theorem closes_finishCleanup {removed : Nat} (h : out.state = .pending) :
    Closes (finishCleanup req out r removed) (Cleared req) := by
  refine ensures_call fun (last : Stat) => ?_
  cases last with
  | found file =>
    exact closes_cons ⟨.inl rfl, nofun, nofun⟩ (closes_failCleanup h)
  | error e =>
    refine ensures_done ⟨[], _, _, rfl, rfl, by simp, by simp, .inr ⟨⟨e, rfl⟩, ?_⟩⟩
    simp [h]
  | notExist =>
    refine closes_cons ⟨.inl rfl, nofun, nofun⟩ ?_
    refine Closes.afterPlain plain_deleteOwnRef fun deleted => ?_
    cases deleted with
    | some e => exact closes_failCleanup h
    | none =>
      refine ensures_call fun (ans : Option Err) => ?_
      cases ans with
      | none =>
        exact ensures_done ⟨[], _, _, rfl, rfl, by simp, by simp,
          .inl ⟨_, none, rfl, fun _ => rfl, by simp⟩⟩
      | some e =>
        exact ensures_done ⟨[], _, _, rfl, rfl, by simp, by simp,
          .inl ⟨_, some e, rfl, nofun, by simp⟩⟩

theorem closes_removeRoot {h : Held} {current : Files} (hout : out.state = .pending) :
    Closes (removeRoot req out r h current) (Cleared req) := by
  have hremove {name : String} {files : Files} {root : FileId} :
      Only Plain (ask (.removeAnchoredTree name files root) : Script Cleaned _) :=
    only_ask fun _ => ⟨.inr rfl, rfl⟩
  have hquarantine {name label : String} :
      Only Plain (ask (.quarantineAt name label) : Script Cleaned _) :=
    only_ask fun _ => ⟨.inr rfl, rfl⟩
  have hhook {set : Bool} {hook : Hook} : Only Plain (callHook set hook : Script Cleaned _) :=
    quiet_callHook.imp fun _ => Looks.plain
  refine Closes.afterPlain hquarantine fun (quarantined : Except Err String) => ?_
  cases quarantined with
  | error e => exact closes_failCleanup hout
  | ok name =>
  refine ensures_call fun (moved : Stat) => ?_
  -- the quarantine may stand at the path of the root: that this is missing is seen, not recorded
  have hfail {code : Code} {cause : Err} :
      Ensures (failCleanup out code cause) fun rest x => ∃ body e y,
        ⟨.stat (join (dir req.root) name), moved⟩ :: rest = body ++ [e] ∧ x = .ok y ∧
          (∀ e ∈ body, Works e) ∧ Cleared req body e y := by
    refine records_cleanup.imp fun t x hx => ?_
    obtain ⟨ans, cause, rfl, rfl⟩ := hx
    refine ⟨[⟨.stat _, moved⟩], _, _, rfl, rfl, ?_, cleared_pending ?_ (by simpa using hout)⟩
    · simpa using .inl rfl
    · rintro y hy ⟨err, rfl⟩
      cases List.mem_singleton.mp hy
  cases moved with
  | notExist => exact hfail
  | error e => exact hfail
  | found file =>
  by_cases hsame : file = h.rootInfo
  case neg =>
    simp only [hsame, decide_false]
    exact hfail
  simp only [hsame, decide_true]
  refine closes_cons ⟨.inl rfl, nofun, found_not_missing⟩ ?_
  refine Closes.afterPlain hhook fun failed => ?_
  cases failed with
  | some e => exact closes_failCleanup hout
  | none =>
  refine Closes.afterPlain hhook fun failed => ?_
  cases failed with
  | some e => exact closes_failCleanup hout
  | none =>
  refine Closes.afterPlain hremove fun (failed : Option Err) => ?_
  cases failed with
  | some e => exact closes_failCleanup hout
  | none =>
  refine Closes.afterPlain hquarantine fun (admin : Except Err String) => ?_
  cases admin with
  | error e => exact closes_failCleanup hout
  | ok admin =>
  refine Closes.afterPlain hremove fun (failed : Option Err) => ?_
  cases failed with
  | some e => exact closes_failCleanup hout
  | none => exact closes_finishCleanup hout

theorem quiet_checkRef : Quiet (checkRefAfterIntent r) := by
  unfold checkRefAfterIntent
  split
  · exact only_pure _
  refine quiet_privateRefOID.bind fun current => ?_
  split
  · exact only_pure _
  · split <;> exact only_pure _

theorem closes_classifyRoot {h : Held} (hout : out.state = .pending) :
    Closes (classifyRoot req out r h) (Cleared req) := by
  have hquiet {α : Type} {p : Script Cleaned α} (hp : Quiet p) : Only Plain p :=
    hp.imp fun _ => Looks.plain
  have hask {op : Op} (hkind : op.kind = .query) (hstats : op.stats = false) :
      Only Plain (ask op : Script Cleaned _) := only_ask fun _ => ⟨.inl hkind, hstats⟩
  refine Closes.afterPlain (hquiet quiet_checkRef) fun failed => ?_
  cases failed with
  | some e => exact closes_failCleanup hout
  | none =>
  refine Closes.afterPlain (hask rfl rfl) fun (current : Except Err Files) => ?_
  cases current with
  | error e => exact closes_failCleanup hout
  | ok current =>
  refine Closes.afterPlain (hask rfl rfl) fun (latest : Except Err DirectoryIdentity) => ?_
  split
  · exact closes_failCleanup hout
  split
  · exact closes_failCleanup hout
  refine Closes.afterPlain (hquiet quiet_callHook) fun failed => ?_
  cases failed with
  | some e => exact closes_failCleanup hout
  | none =>
  refine Closes.afterPlain (hask rfl rfl) fun (latest : Except Err DirectoryIdentity) => ?_
  split
  · exact closes_failCleanup hout
  refine Closes.afterPlain (hask rfl rfl) fun (linked : Option Err) => ?_
  cases linked with
  | some e => exact closes_failCleanup hout
  | none => exact closes_removeRoot hout

/-! ## Before the intent -/

/-- The outcome of a cleanup that has come to its end. -/
abbrev removedOutcome (out : CleanupOutcome) : Prop := out.state = .removed

abbrev Prepares {α : Type} (p : Script Cleaned α) : Prop := Early Looks removedOutcome p

theorem prepares_checkPrivateRef (h : ¬ removedOutcome out) : Prepares (checkPrivateRef out r) := by
  refine (early_ensure h).bind fun _ => ?_
  split
  · exact (only_pure _).early
  refine (early_attempt? h).bind fun _ => (early_attempt? h).bind fun _ => ?_
  refine (Only.early quiet_validateRepo).bind fun repo => ?_
  cases repo with
  | error e => exact early_exit h
  | ok repo => exact (Only.early quiet_canonicalPath).bind fun _ => early_ensure h

theorem prepares_checkWriters {pids : List Int} (h : ¬ removedOutcome out) :
    Prepares (checkWriters out pids) := by
  induction pids with
  | nil => exact (only_pure _).early
  | cons pid pids ih =>
    unfold checkWriters
    dsimp only
    split
    · refine (early_ask fun _ => ⟨rfl, rfl⟩).bind fun (gone : Bool) => ?_
      exact (early_ensure h).bind fun _ => ih
    · exact ih

/-- A query, and the root is not lost. -/
def Asked (req : CleanupRequest) (e : Event) : Prop := e.1.kind = .query ∧ ¬ LostRoot req e

/-- Queries only, and a root that goes missing ends the program. -/
def Seeks {α : Type} (req : CleanupRequest) (p : Script Cleaned α) : Prop :=
  Ensures p fun t x => (∀ e ∈ t, Asked req e) ∧ ∀ a, x = .ok a → ∀ e ∈ t, ¬ MissingRoot req e

theorem Early.seeks {α : Type} {p : Script Cleaned α} (h : Prepares p) : Seeks req p := by
  refine Ensures.imp h fun t x ⟨hlooks, _⟩ => ⟨fun e he => ?_, fun _ _ e he => ?_⟩
  · exact ⟨(hlooks e he).1, (hlooks e he).plain.harmless.found⟩
  · exact (hlooks e he).plain.harmless.there

theorem Seeks.bind {α β : Type} {p : Script Cleaned α} {f : α → Script Cleaned β}
    (h : Seeks req p) (hf : ∀ a, Seeks req (f a)) : Seeks req (p >>= f) := by
  refine Ensures.bind (Ensures.imp h fun t x ⟨hasked, hthere⟩ => ?_)
  cases x with
  | error y => exact ⟨hasked, nofun⟩
  | ok a =>
    refine Ensures.imp (hf a) fun t' x' ⟨hasked', hthere'⟩ => ⟨?_, ?_⟩
    · exact fun e he => (List.mem_append.mp he).elim (hasked e) (hasked' e)
    · exact fun b hb e he => (List.mem_append.mp he).elim (hthere a rfl e) (hthere' b hb e)

/-- A look at a path that goes on only if something is there. -/
theorem seeks_stat {α : Type} {path : String} {f : Ans (.stat path) → Script Cleaned α}
    (hfound : ∀ file : FileId, Seeks req (f (.found file)))
    (hnone : ∀ stat : Stat, (∀ file, stat ≠ .found file) → ∃ y, f stat = .exit y) :
    Seeks req (ask (.stat path) >>= f) := by
  have hasked (stat : Stat) : Asked req ⟨.stat path, stat⟩ := ⟨rfl, nofun⟩
  have hexit (stat : Stat) (h : ∀ file, stat ≠ .found file) :
      Ensures (f stat) fun t x => (∀ e ∈ ⟨.stat path, stat⟩ :: t, Asked req e) ∧
        ∀ a, x = .ok a → ∀ e ∈ ⟨.stat path, stat⟩ :: t, ¬ MissingRoot req e := by
    obtain ⟨y, hy⟩ := hnone stat h
    rw [hy]
    exact ensures_exit ⟨by simpa using hasked stat, nofun⟩
  refine ensures_call fun (stat : Stat) => ?_
  cases stat with
  | notExist => exact hexit .notExist nofun
  | error e => exact hexit (.error e) nofun
  | found file =>
    refine Ensures.imp (hfound file) fun t x ⟨hquery, hthere⟩ => ⟨?_, ?_⟩
    · simpa using ⟨hasked _, fun e he => hquery e he⟩
    · intro a ha e he
      rcases List.mem_cons.mp he with rfl | he
      · exact found_not_missing
      · exact hthere a ha e he

theorem seeks_holdRoot (h : ¬ removedOutcome out) : Seeks req (holdRoot req out r) := by
  have hask {op : Op} (hop : op.kind = .query ∧ op.stats = false) :
      Seeks req (ask op : Script Cleaned _) := (early_ask fun _ => hop).seeks
  refine (hask ⟨rfl, rfl⟩).bind fun _ => (early_attempt h).seeks.bind fun _ => ?_
  refine (early_ensure h).seeks.bind fun _ => ?_
  refine (hask ⟨rfl, rfl⟩).bind fun _ => (early_attempt h).seeks.bind fun _ => ?_
  refine seeks_stat (fun file => ?_) fun stat hstat => ?_
  · refine (early_ensure h).seeks.bind fun _ => ?_
    refine (hask ⟨rfl, rfl⟩).bind fun _ => (early_attempt h).seeks.bind fun _ => ?_
    refine (hask ⟨rfl, rfl⟩).bind fun _ => (early_attempt h).seeks.bind fun _ => ?_
    refine (hask ⟨rfl, rfl⟩).bind fun _ => (early_attempt? h).seeks.bind fun _ => ?_
    exact (prepares_checkWriters h).seeks.bind fun _ => (Only.early (only_pure _)).seeks
  · cases stat with
    | found file => exact absurd rfl (hstat file)
    | notExist => exact ⟨_, rfl⟩
    | error e => exact ⟨_, rfl⟩

/-! ## The whole call -/

/-- The discipline is kept exactly when nothing interrupts the call. -/
def Fair (req : CleanupRequest) (t : List Event) (x : Except Cleaned Cleaned) : Prop :=
  Disciplined t (removedOutcome (value x).1) ↔ ¬ Interrupted req t

theorem fair_of_asked {t : List Event} {x : Except Cleaned Cleaned} (h : ∀ e ∈ t, Asked req e) :
    Fair req t x := by
  refine iff_of_true (disciplined_of_queries fun e he => (h e he).1) ?_
  rintro (⟨e, he, hlost⟩ | ⟨-, e, he, o, err, rfl, -⟩)
  · exact (h e he).2 hlost
  · cases (h _ he).1

theorem fair_of_refused {t : List Event} {intent : CleanupIntent} {e : Err}
    {x : Except Cleaned Cleaned} (h : ∀ e ∈ t, Asked req e) :
    Fair req (t ++ [⟨.persistCleanupIntent intent, some e⟩]) x := by
  refine iff_of_true (disciplined_of_refused (fun e he => (h e he).1) rfl rfl) ?_
  rintro (⟨y, hy, err, rfl⟩ | ⟨-, y, hy, o, err, rfl, -⟩)
  · rcases List.mem_append.mp hy with hy | hy
    · exact (h _ hy).2 ⟨err, rfl⟩
    · cases List.mem_singleton.mp hy
  · rcases List.mem_append.mp hy with hy | hy
    · cases (h _ hy).1
    · cases List.mem_singleton.mp hy

/-- A call that ends in a record is interrupted when this is not taken of a missing root. -/
theorem interrupted_iff {t : List Event} {o : CleanupOutcome} {ans : Option Err}
    (h : ∀ e ∈ t, ¬ LostRoot req e ∧ e.1.kind ≠ .record) :
    Interrupted req (t ++ [⟨.recordCleanup o, ans⟩]) ↔
      (∃ e ∈ t, MissingRoot req e) ∧ o.state = .removed ∧ ans.isSome = true := by
  constructor
  · rintro (⟨e, he, hlost⟩ | ⟨⟨e, he, hmissing⟩, y, hy, o', err, rfl, ho⟩)
    · rcases List.mem_append.mp he with he | he
      · exact absurd hlost (h e he).1
      · obtain ⟨err, rfl⟩ := hlost
        cases List.mem_singleton.mp he
    · refine ⟨⟨e, ?_, hmissing⟩, ?_⟩
      · rcases List.mem_append.mp he with he | he
        · exact he
        · rw [hmissing] at he
          cases List.mem_singleton.mp he
      · rcases List.mem_append.mp hy with hy | hy
        · exact absurd rfl (h _ hy).2
        · cases List.mem_singleton.mp hy
          exact ⟨ho, rfl⟩
  · rintro ⟨⟨e, he, hmissing⟩, ho, hans⟩
    obtain ⟨err, rfl⟩ := Option.isSome_iff_exists.mp hans
    exact .inr ⟨⟨e, by simp [he], hmissing⟩, _, by simp, o, err, rfl, ho⟩

theorem recordFailed_cleanup {o : CleanupOutcome} {ans : Option Err} :
    recordFailed ⟨.recordCleanup o, ans⟩ = ans.isSome := rfl

/-- After an intent and plain work, the record of a missing root. -/
theorem fair_of_missing {first body : List Event} {intent : CleanupIntent} {o : CleanupOutcome}
    {ans : Option Err} {x : Except Cleaned Cleaned} (hfirst : ∀ e ∈ first, Asked req e)
    (hmissing : ∃ e ∈ first, MissingRoot req e) (hbody : ∀ e ∈ body, Plain e)
    (hx : (value x).1.state = o.state) :
    Fair req (first ++ ⟨.persistCleanupIntent intent, none⟩ ::
      (body ++ [⟨.recordCleanup o, ans⟩])) x := by
  have hbefore : ∀ e ∈ first ++ (⟨.persistCleanupIntent intent, none⟩ : Event) :: body,
      ¬ LostRoot req e ∧ e.1.kind ≠ .record := by
    intro e he
    rcases List.mem_append.mp he with he | he
    · exact ⟨(hfirst e he).2, fun hkind => by cases hkind.symm.trans (hfirst e he).1⟩
    · rcases List.mem_cons.mp he with rfl | he
      · exact ⟨nofun, nofun⟩
      · refine ⟨(hbody e he).harmless.found, fun hkind => ?_⟩
        rcases (hbody e he).1 with hk | hk <;> cases hk.symm.trans hkind
  have hinterrupted := @interrupted_iff req _ o ans hbefore
  simp only [List.append_assoc, List.cons_append] at hinterrupted
  rw [Fair, hinterrupted, disciplined_iff (fun e he => (hfirst e he).1) rfl
    (fun e he => (hbody e he).1) (.inr rfl), recordFailed_cleanup]
  obtain ⟨e, he, hmissing⟩ := hmissing
  have hthere : ∃ e ∈ first ++ (⟨.persistCleanupIntent intent, none⟩ : Event) :: body,
      MissingRoot req e := ⟨e, by simp [he], hmissing⟩
  simp only [removedOutcome, hx]
  constructor
  · rintro ⟨-, hkept⟩ ⟨-, ho, hans⟩
    simp [hkept ho] at hans
  · intro h
    refine ⟨rfl, fun ho => ?_⟩
    by_contra hans
    exact h ⟨hthere, ho, by simpa [Option.isSome_iff_ne_none] using hans⟩

theorem fair_of_cleared {first body : List Event} {intent : CleanupIntent} {e : Event}
    {x : Cleaned} (hfirst : ∀ e ∈ first, Asked req e) (hthere : ∀ e ∈ first, ¬ MissingRoot req e)
    (hbody : ∀ e ∈ body, Works e) (h : Cleared req body e x) :
    Fair req (first ++ ⟨.persistCleanupIntent intent, none⟩ :: (body ++ [e])) (.ok x) := by
  have hiff (he : e.1.kind = .query ∨ e.1.kind = .record) :
      Disciplined (first ++ ⟨.persistCleanupIntent intent, none⟩ :: (body ++ [e]))
        (removedOutcome x.1) ↔
      e.1.kind = .record ∧ (removedOutcome x.1 → recordFailed e = false) :=
    disciplined_iff (fun e he => (hfirst e he).1) rfl hbody he
  rcases h.ends with ⟨o, ans, rfl, hkept, hgone⟩ | ⟨⟨err, rfl⟩, hx⟩
  · have hbefore : ∀ e ∈ first ++ (⟨.persistCleanupIntent intent, none⟩ : Event) :: body,
        ¬ LostRoot req e ∧ e.1.kind ≠ .record := by
      intro e he
      rcases List.mem_append.mp he with he | he
      · exact ⟨(hfirst e he).2, fun hkind => by cases hkind.symm.trans (hfirst e he).1⟩
      · rcases List.mem_cons.mp he with rfl | he
        · exact ⟨nofun, nofun⟩
        · refine ⟨h.found e he, fun hkind => ?_⟩
          rcases hbody e he with hk | hk <;> cases hk.symm.trans hkind
    have hinterrupted := @interrupted_iff req _ o ans hbefore
    simp only [List.append_assoc, List.cons_append] at hinterrupted
    rw [Fair, hinterrupted, value, hiff (.inr rfl), recordFailed_cleanup]
    refine iff_of_true ⟨rfl, fun hx => by simp [hkept hx]⟩ ?_
    rintro ⟨⟨e, he, hmissing⟩, ho, -⟩
    rcases List.mem_append.mp he with he | he
    · exact hthere e he hmissing
    · rcases List.mem_cons.mp he with rfl | he
      · cases hmissing
      · exact hgone ho e he hmissing
  · rw [Fair, value, hiff (.inl rfl)]
    refine iff_of_false (fun h => by cases h.1) fun h => h (.inl ⟨_, ?_, err, rfl⟩)
    simp

/-! ### The program -/

/-- After exchanges that satisfy `K`, the discipline is kept exactly when nothing interrupts. -/
def Settles (req : CleanupRequest) (K : List Event → Prop) (p : Script Cleaned Cleaned) : Prop :=
  ∀ first, K first → Ensures p fun t x => Fair req (first ++ t) x

/-- The root has been there all along. -/
def Present (req : CleanupRequest) (first : List Event) : Prop :=
  (∀ e ∈ first, Asked req e) ∧ ∀ e ∈ first, ¬ MissingRoot req e

def Missing (req : CleanupRequest) (first : List Event) : Prop :=
  (∀ e ∈ first, Asked req e) ∧ ∃ e ∈ first, MissingRoot req e

theorem Settles.after {α : Type} {p : Script Cleaned α} {f : α → Script Cleaned Cleaned}
    (h : Seeks req p) (hf : ∀ a, Settles req (Present req) (f a)) :
    Settles req (Present req) (p >>= f) := by
  intro first ⟨hasked, hthere⟩
  refine Ensures.bind (Ensures.imp h fun t x ⟨hasked', hthere'⟩ => ?_)
  have hall : ∀ e ∈ first ++ t, Asked req e := fun e he =>
    (List.mem_append.mp he).elim (hasked e) (hasked' e)
  cases x with
  | error y => exact fair_of_asked hall
  | ok a =>
    have hpresent : Present req (first ++ t) := ⟨hall, fun e he =>
      (List.mem_append.mp he).elim (hthere e) (hthere' a rfl e)⟩
    refine (hf a (first ++ t) hpresent).imp fun rest y hy => ?_
    simpa using hy

theorem settles_found {intent : CleanupIntent} {h : Held} (hout : out.state = .pending) :
    Settles req (Present req) (do
      attempt? (← ask (.persistCleanupIntent intent)) fun e => (out, some e)
      classifyRoot req out r h) := by
  intro first ⟨hasked, hthere⟩
  refine ensures_call fun (ans : Option Err) => ?_
  cases ans with
  | some e =>
    rw [attempt?_some]
    exact ensures_exit (fair_of_refused hasked)
  | none =>
    rw [attempt?_none]
    refine (closes_classifyRoot hout).imp fun t x hx => ?_
    obtain ⟨body, e, y, rfl, rfl, hbody, hy⟩ := hx
    exact fair_of_cleared hasked hthere hbody hy

theorem settles_missing :
    Settles req (Missing req) (cleanupMissing req out r) := by
  intro first ⟨hasked, hmissing⟩
  unfold cleanupMissing
  split
  · refine records_cleanup.imp fun t x hx => ?_
    obtain ⟨ans, cause, rfl, rfl⟩ := hx
    have hbefore : ∀ e ∈ first, ¬ LostRoot req e ∧ e.1.kind ≠ .record := fun e he =>
      ⟨(hasked e he).2, fun hkind => by cases hkind.symm.trans (hasked e he).1⟩
    rw [Fair, interrupted_iff hbefore, disciplined_record_iff (fun e he => (hasked e he).1) rfl,
      recordFailed_cleanup]
    simp [removedOutcome, value, hmissing]
  · refine ensures_call fun (ans : Option Err) => ?_
    cases ans with
    | some e =>
      rw [attempt?_some]
      exact ensures_exit (fair_of_refused hasked)
    | none =>
      rw [attempt?_none]
      refine Ensures.bind (Ensures.imp plain_deletePrivateRef fun body x hx => ?_)
      obtain ⟨hplain, deleted, rfl⟩ := hx
      cases deleted with
      | some e =>
        refine records_cleanup.imp fun t x hx => ?_
        obtain ⟨ans, cause, rfl, rfl⟩ := hx
        exact fair_of_missing hasked hmissing hplain rfl
      | none =>
        refine records_cleanup.imp fun t x hx => ?_
        obtain ⟨ans, cause, rfl, rfl⟩ := hx
        exact fair_of_missing hasked hmissing hplain rfl

theorem settles_stat {f : Ans (.stat req.root) → Script Cleaned Cleaned}
    (hfound : ∀ file : FileId, Settles req (Present req) (f (.found file)))
    (hmissing : Settles req (Missing req) (f Stat.notExist))
    (herror : ∀ e : Err, ∃ x, f (Stat.error e) = pure x) :
    Settles req (Present req) (ask (.stat req.root) >>= f) := by
  intro first ⟨hasked, hthere⟩
  have hall (stat : Stat) : ∀ e ∈ first ++ [(⟨.stat req.root, stat⟩ : Event)], Asked req e := by
    intro e he
    rcases List.mem_append.mp he with he | he
    · exact hasked e he
    · obtain rfl := List.mem_singleton.mp he
      exact ⟨rfl, nofun⟩
  refine ensures_call fun (stat : Stat) => ?_
  cases stat with
  | found file =>
    refine (hfound file (first ++ [⟨.stat req.root, Stat.found file⟩]) ⟨hall _, ?_⟩).imp
      fun t x hx => by simpa using hx
    intro e he
    rcases List.mem_append.mp he with he | he
    · exact hthere e he
    · obtain rfl := List.mem_singleton.mp he
      exact found_not_missing
  | notExist =>
    refine (hmissing (first ++ [⟨.stat req.root, Stat.notExist⟩]) ⟨hall _, ?_⟩).imp
      fun t x hx => by simpa using hx
    exact ⟨_, by simp, rfl⟩
  | error e =>
    obtain ⟨x, hx⟩ := herror e
    rw [hx]
    exact ensures_done (fair_of_asked (hall _))

theorem settles_cleanup : Settles req (Present req) (cleanup req) := by
  have hask {op : Op} (hop : op.kind = .query ∧ op.stats = false) :
      Seeks req (ask op : Script Cleaned _) := (early_ask fun _ => hop).seeks
  have hpending {out : CleanupOutcome} (h : out.state = .pending) : ¬ removedOutcome out := by
    simp [removedOutcome, h]
  refine Settles.after (early_attempt (hpending rfl)).seeks fun _ => ?_
  refine Settles.after (early_ensure (hpending rfl)).seeks fun _ => ?_
  refine Settles.after (prepares_checkPrivateRef (hpending rfl)).seeks fun _ => ?_
  refine Settles.after (hask ⟨rfl, rfl⟩) fun _ => ?_
  refine Settles.after (early_attempt? (hpending rfl)).seeks fun _ => ?_
  refine Settles.after (Only.early quiet_canonicalPath).seeks fun _ => ?_
  refine Settles.after (early_ensure (hpending rfl)).seeks fun _ => ?_
  refine settles_stat (fun file => ?_) settles_missing fun e => ⟨_, rfl⟩
  exact Settles.after (seeks_holdRoot (hpending rfl)) fun held => settles_found rfl

end

/-! ## The discipline -/

theorem returns_value {ρ : Type} {p : Script ρ ρ} {t : List Event} {x : ρ} (h : Returns p t x) :
    ∃ r, Exec p t r ∧ value r = x :=
  h.elim (fun h => ⟨_, h, rfl⟩) fun h => ⟨_, h, rfl⟩

theorem fair_cleanup {req : CleanupRequest} {t : List Event} {x : Cleaned}
    (h : Returns (cleanup req) t x) :
    Disciplined t (x.1.state = .removed) ↔ ¬ Interrupted req t := by
  obtain ⟨r, hr, rfl⟩ := returns_value h
  exact settles_cleanup [] ⟨by simp, by simp⟩ t r hr

/-- Integrations keep the discipline, and so do cleanups that nothing interrupts. -/
theorem journal_discipline (t : List Event) :
    (∀ req x, Returns (integrate req) t x → Orderly req t (x.1.state = .integrated)) ∧
    ∀ req x, Returns (cleanup req) t x →
      (Disciplined t (x.1.state = .removed) ↔ ¬ Interrupted req t) := by
  refine ⟨fun req x h => ?_, fun req x h => fair_cleanup h⟩
  obtain ⟨r, hr, rfl⟩ := returns_value h
  exact integrate_orderly t r hr

/-- A worktree with nothing in it, at a root that is there until it is looked at a last time. -/
def emptyWorktree (last : Stat) : ∀ op, Ans op
  | .git _ _ => ({} : Ran)
  | .canonicalPath path => path
  | .lstat _ => last
  | .stat _ => Stat.found ⟨1, 1⟩
  | .directoryIdentity _ => (.ok {} : Except Err DirectoryIdentity)
  | .openDir _ => (.ok ⟨1, 1⟩ : Except Err FileId)
  | .writerGone _ => true
  | .snapshot _ => (.ok [] : Except Err Files)
  | .prepareCleanupAdmin _ _ => (.ok ⟨"w", ⟨1, 2⟩, []⟩ : Except Err CleanupAdmin)
  | .quarantineAt _ label => (.ok label : Except Err String)
  | .noSymlinkComponents _ | .acquireIntegrationLock _ | .removeAnchoredTree _ _ _ | .hook _
  | .persistIntegrationIntent _ | .recordIntegration _ | .persistCleanupIntent _
  | .recordCleanup _ => (none : Option Err)

def cleanupOf (root : String) : CleanupRequest where
  root := root
  receipt := { attemptID := "a", repoRoot := "/r", commonDir := "/r/.git", commitOID := "c",
               worktreeIdentity := root, rootIdentity := {}, files := [] }
  candidateReceipt := none
  activePIDs := []
  hasJournal := true
  hasBeforeRemove := false
  hasAfterQuarantine := false
  hasBeforeAnchoredRemove := false

theorem returns_run {ρ : Type} (env : ∀ op, Ans op) (p : Script ρ ρ) :
    Returns p (p.run env).1 (value (p.run env).2) := by
  have h := exec_run env p
  cases hr : (p.run env).2 with
  | ok x => exact .inl (by rwa [hr] at h)
  | error x => exact .inr (by rwa [hr] at h)

/-- The worktree and its administrative directory are gone, and nothing is recorded of it. -/
theorem lost_root_is_not_recorded :
    ¬ ∀ req t x, Returns (cleanup req) t x → Disciplined t (x.1.state = .removed) := by
  intro h
  have hreturns := returns_run (emptyWorktree (.error (.raw 5))) (cleanup (cleanupOf "/w"))
  refine (fair_cleanup hreturns).mp (h _ _ _ hreturns) (.inl ?_)
  exact ⟨⟨.lstat "/w", Stat.error (.raw 5)⟩, List.mem_of_getLast? rfl, .raw 5, rfl⟩

/-- The same worktree, gone at the last look: one record after the intent. -/
theorem journal_discipline_of_empty_worktree :
    let r := (cleanup (cleanupOf "/w")).run (emptyWorktree .notExist)
    Disciplined r.1 ((value r.2).1.state = .removed) := by
  refine ((journal_discipline _).2 _ _ (returns_run _ _)).mpr ?_
  rintro (⟨e, he, err, rfl⟩ | ⟨⟨e, he, rfl⟩, -⟩)
  · cases answer_of_mem_run he
  · cases answer_of_mem_run he

end Orchestrator.Gitops
