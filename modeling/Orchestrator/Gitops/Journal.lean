import Orchestrator.Gitops.Integrate

/-!
# The discipline of the journal

An intent before every side effect, and exactly one record after every intent, whatever git, the
files, the hooks and the journal do.
-/
namespace Orchestrator.Gitops
open Library Prog

/-! ## Kinds of operations -/

inductive Kind where
  | query | effect | intent | record
  deriving DecidableEq

/-- The git commands that only read, or that write nothing but objects no ref names. -/
def readOnly : List String → Bool
  | "symbolic-ref" :: args => args == ["-q", "HEAD"]
  | command :: _ =>
    ["rev-parse", "status", "diff-tree", "merge-base", "write-tree"].contains command
  | [] => false

/-- What an operation does to the target, the worktree, or the journal. -/
def Op.kind : Op → Kind
  | .git _ args => if readOnly args then .query else .effect
  | .quarantineAt _ _ | .removeAnchoredTree _ _ _ => .effect
  | .persistIntegrationIntent _ | .persistCleanupIntent _ => .intent
  | .recordIntegration _ | .recordCleanup _ => .record
  | _ => .query

theorem kind_git {dir : String} {args : List String} (h : readOnly args = true) :
    (Op.git dir args).kind = .query :=
  if_pos h

/-- The intent is in the journal. -/
def persisted : Event → Bool
  | ⟨.persistIntegrationIntent _, (ans : Option Err)⟩ => ans.isNone
  | ⟨.persistCleanupIntent _, (ans : Option Err)⟩ => ans.isNone
  | _ => false

def recordFailed : Event → Bool
  | ⟨.recordIntegration _, (ans : Option Err)⟩ => ans.isSome
  | ⟨.recordCleanup _, (ans : Option Err)⟩ => ans.isSome
  | _ => false

def records (t : List Event) : Nat := t.countP fun e => e.1.kind = .record

/-- The discipline of a call; `final` says that it returns a state that is final. -/
structure Disciplined (t : List Event) (final : Prop) : Prop where
  recorded : ∀ before i after, t = before ++ i :: after → persisted i = true → records after = 1
  intended : ∀ before e after, t = before ++ e :: after → e.1.kind = .effect →
    ∃ i ∈ before, persisted i = true
  kept : final → ∀ e ∈ t, recordFailed e = false

theorem kind_of_persisted {e : Event} (h : persisted e = true) : e.1.kind = .intent := by
  unfold persisted at h
  split at h
  · rfl
  · rfl
  · cases h

theorem kind_of_recordFailed {e : Event} (h : recordFailed e = true) : e.1.kind = .record := by
  unfold recordFailed at h
  split at h
  · rfl
  · rfl
  · cases h

theorem disciplined_of_queries {t : List Event} {final : Prop}
    (h : ∀ e ∈ t, e.1.kind = .query) : Disciplined t final where
  recorded := by
    rintro before i after rfl hi
    cases (kind_of_persisted hi).symm.trans (h i (by simp))
  intended := by
    rintro before e after rfl he
    cases he.symm.trans (h e (by simp))
  kept := fun _ e he => by
    by_contra hfailed
    cases (kind_of_recordFailed (by simpa using hfailed)).symm.trans (h e he)

/-- A query or an effect. -/
def Works (e : Event) : Prop := e.1.kind = .query ∨ e.1.kind = .effect

/-- A call that fails to persist its intent. -/
theorem disciplined_of_refused {t : List Event} {i : Event} {final : Prop}
    (h : ∀ e ∈ t, e.1.kind = .query) (hi : i.1.kind = .intent) (hrefused : persisted i = false) :
    Disciplined (t ++ [i]) final where
  recorded := by
    intro before j after heq hj
    have hmem : j ∈ t ++ [i] := by simp [heq]
    rcases List.mem_append.mp hmem with hmem | hmem
    · cases (kind_of_persisted hj).symm.trans (h j hmem)
    · obtain rfl : j = i := by simpa using hmem
      simp [hrefused] at hj
  intended := by
    intro before e after heq he
    have hmem : e ∈ t ++ [i] := by simp [heq]
    rcases List.mem_append.mp hmem with hmem | hmem
    · cases he.symm.trans (h e hmem)
    · obtain rfl : e = i := by simpa using hmem
      cases he.symm.trans hi
  kept := fun _ e hmem => by
    by_contra hfailed
    have hkind := kind_of_recordFailed (e := e) (by simpa using hfailed)
    rcases List.mem_append.mp hmem with hmem | hmem
    · cases hkind.symm.trans (h e hmem)
    · obtain rfl : e = i := by simpa using hmem
      cases hkind.symm.trans hi

/-- An element that is not in `t` stands at `i` or after it. -/
theorem split_after {α : Type} {t rest before after : List α} {i x : α}
    (h : t ++ i :: rest = before ++ x :: after) (hx : x ∉ t) :
    (x = i ∧ after = rest) ∨ i ∈ before ∧ x ∈ rest := by
  rcases List.append_eq_append_iff.mp h with ⟨mid, rfl, hmid⟩ | ⟨mid, rfl, hmid⟩
  · cases mid with
    | nil =>
      obtain ⟨rfl, rfl⟩ := List.cons.inj hmid
      exact .inl ⟨rfl, rfl⟩
    | cons y mid =>
      obtain ⟨rfl, rfl⟩ := List.cons.inj hmid
      exact .inr ⟨by simp, by simp⟩
  · cases mid with
    | nil =>
      obtain ⟨rfl, rfl⟩ := List.cons.inj hmid
      exact .inl ⟨rfl, rfl⟩
    | cons y mid =>
      obtain ⟨rfl, rfl⟩ := List.cons.inj hmid
      exact absurd (by simp) hx

/-- After the intent only the last exchange may be a record: whether it is one decides. -/
theorem disciplined_iff {t body : List Event} {i e : Event} {final : Prop}
    (h : ∀ e ∈ t, e.1.kind = .query) (hi : persisted i = true) (hbody : ∀ e ∈ body, Works e)
    (he : e.1.kind = .query ∨ e.1.kind = .record) :
    Disciplined (t ++ i :: (body ++ [e])) final ↔
      e.1.kind = .record ∧ (final → recordFailed e = false) := by
  have hnone : ∀ x ∈ body, x.1.kind ≠ .record := fun x hx hrecord => by
    rcases hbody x hx with hx | hx <;> cases hx.symm.trans hrecord
  have hcount : records (body ++ [e]) = if e.1.kind = .record then 1 else 0 := by
    have hzero : List.countP (fun e : Event => decide (e.1.kind = .record)) body = 0 :=
      List.countP_eq_zero.mpr fun x hx => by simpa using hnone x hx
    simp [records, List.countP_append, List.countP_singleton, hzero]
  constructor
  · intro hd
    refine ⟨?_, fun hfinal => hd.kept hfinal e (by simp)⟩
    have hone := hd.recorded t i (body ++ [e]) rfl hi
    by_contra hquery
    rw [hcount, if_neg hquery] at hone
    cases hone
  · rintro ⟨hrecord, hkept⟩
    have hrest : ∀ x ∈ body ++ [e], x.1.kind ≠ .intent := by
      intro x hx hintent
      rcases List.mem_append.mp hx with hx | hx
      · rcases hbody x hx with hx | hx <;> cases hx.symm.trans hintent
      · obtain rfl : x = e := by simpa using hx
        cases hrecord.symm.trans hintent
    refine ⟨?_, ?_, ?_⟩
    · intro before j after heq hj
      have hkind := kind_of_persisted hj
      have hj : j ∉ t := fun hmem => by cases hkind.symm.trans (h j hmem)
      rcases split_after heq hj with ⟨-, rfl⟩ | ⟨-, hmem⟩
      · rw [hcount, if_pos hrecord]
      · exact absurd hkind (hrest j hmem)
    · intro before x after heq hx
      have hkind := kind_of_persisted hi
      have hmem : x ∉ t := fun hmem => by cases hx.symm.trans (h x hmem)
      rcases split_after heq hmem with ⟨rfl, -⟩ | ⟨hmem, -⟩
      · cases hx.symm.trans hkind
      · exact ⟨i, hmem, hi⟩
    · intro hfinal x hx
      by_contra hfailed
      have hkind := kind_of_recordFailed (e := x) (by simpa using hfailed)
      rcases List.mem_append.mp hx with hx | hx
      · cases hkind.symm.trans (h x hx)
      · rcases List.mem_cons.mp hx with rfl | hx
        · cases hkind.symm.trans (kind_of_persisted hi)
        · rcases List.mem_append.mp hx with hx | hx
          · exact hnone x hx hkind
          · obtain rfl : x = e := by simpa using hx
            exact hfailed (hkept hfinal)

/-- A call that records without an intent. -/
theorem disciplined_record_iff {t : List Event} {e : Event} {final : Prop}
    (h : ∀ e ∈ t, e.1.kind = .query) (he : e.1.kind = .record) :
    Disciplined (t ++ [e]) final ↔ (final → recordFailed e = false) := by
  refine ⟨fun hd hfinal => hd.kept hfinal e (by simp), fun hkept => ⟨?_, ?_, ?_⟩⟩
  · intro before i after heq hi
    have hmem : i ∈ t ++ [e] := by simp [heq]
    rcases List.mem_append.mp hmem with hmem | hmem
    · cases (kind_of_persisted hi).symm.trans (h i hmem)
    · obtain rfl : i = e := by simpa using hmem
      cases (kind_of_persisted hi).symm.trans he
  · intro before x after heq hx
    have hmem : x ∈ t ++ [e] := by simp [heq]
    rcases List.mem_append.mp hmem with hmem | hmem
    · cases hx.symm.trans (h x hmem)
    · obtain rfl : x = e := by simpa using hmem
      cases hx.symm.trans he
  · intro hfinal x hx
    rcases List.mem_append.mp hx with hx | hx
    · by_contra hfailed
      cases (kind_of_recordFailed (by simpa using hfailed)).symm.trans (h x hx)
    · obtain rfl : x = e := by simpa using hx
      exact hkept hfinal

/-! ## Programs that only look -/

section
variable {ρ α β : Type} {P Q : Event → Prop}

/-- A program whose exchanges all satisfy `P`, and that does not return early. -/
def Only (P : Event → Prop) (p : Script ρ α) : Prop :=
  Ensures p fun t r => (∀ e ∈ t, P e) ∧ ∃ a, r = .ok a

theorem only_pure (a : α) : Only P (pure a : Script ρ α) :=
  ensures_done ⟨by simp, a, rfl⟩

theorem only_ask {op : Op} (h : ∀ ans, P ⟨op, ans⟩) : Only P (ask op : Script ρ (Ans op)) := by
  intro t r hr
  cases hr with
  | ask ans hr =>
    cases hr
    exact ⟨by simpa using h ans, ans, rfl⟩

theorem Only.bind {p : Script ρ α} {f : α → Script ρ β} (h : Only P p) (hf : ∀ a, Only P (f a)) :
    Only P (p >>= f) := by
  refine Ensures.bind (h.imp fun t r hr => ?_)
  obtain ⟨hfirst, a, rfl⟩ := hr
  refine (hf a).imp fun t' r' hr' => ?_
  obtain ⟨hrest, b, rfl⟩ := hr'
  exact ⟨fun e he => (List.mem_append.mp he).elim (hfirst e) (hrest e), b, rfl⟩

theorem Only.imp {p : Script ρ α} (h : Only P p) (hPQ : ∀ e, P e → Q e) : Only Q p :=
  Ensures.imp h fun _ _ hr => ⟨fun e he => hPQ e (hr.1 e he), hr.2⟩

/-- `os.Stat` and `os.Lstat`. -/
def Op.stats : Op → Bool
  | .stat _ | .lstat _ => true
  | _ => false

/-- A query of anything but `os.Stat` and `os.Lstat`. -/
def Looks (e : Event) : Prop := e.1.kind = .query ∧ e.1.stats = false

abbrev Quiet (p : Script ρ α) : Prop := Only Looks p

theorem quiet_git {dir : String} {args : List String} (h : (Op.git dir args).kind = .query) :
    Quiet (ask (.git dir args) : Script ρ _) :=
  only_ask fun _ => ⟨h, rfl⟩

theorem quiet_gitText {dir : String} {args : List String} (h : (Op.git dir args).kind = .query) :
    Quiet (gitText dir args : Script ρ _) := by
  refine (quiet_git h).bind fun r => ?_
  split
  · exact only_pure _
  · split <;> exact only_pure _

theorem quiet_rev {repo arg : String} : Quiet (rev repo arg : Script ρ _) :=
  quiet_gitText (kind_git rfl)

theorem quiet_canonicalPath {path : String} : Quiet (canonicalPath path : Script ρ _) :=
  only_ask fun _ => ⟨rfl, rfl⟩

theorem quiet_validateRepo {repo : String} : Quiet (validateRepo repo : Script ρ _) := by
  refine (quiet_gitText (kind_git rfl)).bind fun root => ?_
  split
  · exact only_pure _
  · refine (quiet_gitText (kind_git rfl)).bind fun common => ?_
    split
    · exact only_pure _
    · exact quiet_canonicalPath.bind fun _ => quiet_canonicalPath.bind fun _ => only_pure _

theorem quiet_validateOID {repo oid : String} :
    Quiet (validateOIDInRepo repo oid : Script ρ _) := by
  unfold validateOIDInRepo
  split
  · exact only_pure _
  · refine quiet_rev.bind fun result => ?_
    split <;> exact only_pure _

theorem quiet_candidatePaths {repo oid : String} :
    Quiet (candidatePaths repo oid : Script ρ _) := by
  refine quiet_validateOID.bind fun failed => ?_
  split
  · exact only_pure _
  · refine (quiet_gitText (kind_git rfl)).bind fun text => ?_
    split <;> exact only_pure _

theorem quiet_targetStatus {target : String} : Quiet (targetStatus target : Script ρ _) := by
  refine (quiet_gitText (kind_git rfl)).bind fun text => ?_
  split <;> exact only_pure _

theorem quiet_isAncestor {repo ancestor oid : String} :
    Quiet (isAncestor repo ancestor oid : Script ρ _) :=
  (quiet_git (kind_git rfl)).bind fun _ => only_pure _

theorem quiet_privateRefOID {repo ref : String} : Quiet (privateRefOID repo ref : Script ρ _) := by
  refine quiet_validateRepo.bind fun root => ?_
  split
  · exact only_pure _
  · refine (quiet_git (kind_git rfl)).bind fun r => ?_
    split
    · split <;> exact only_pure _
    · split <;> exact only_pure _

theorem query_anyInProgress {repo : String} {names : List String} :
    Only (fun e => e.1.kind = .query) (anyInProgress repo names : Script ρ _) := by
  induction names with
  | nil => exact only_pure _
  | cons name names ih =>
    have hpath : Quiet (gitText repo ["rev-parse", "--git-path", name] : Script ρ _) :=
      quiet_gitText (kind_git rfl)
    refine (hpath.imp fun _ he => he.1).bind fun path => ?_
    cases path with
    | error e => exact ih
    | ok path =>
      refine (only_ask fun _ => rfl).bind fun (stat : Stat) => ?_
      cases stat with
      | found file => exact only_pure _
      | notExist => exact ih
      | error e => exact ih

end

/-! ## Programs that may fail -/

section
variable {σ α β : Type} {P : Event → Prop} {final : σ → Prop} {out : σ}

/-- A program whose exchanges all satisfy `P`; an outcome that is returned early is not final. -/
def Early (P : Event → Prop) (final : σ → Prop) (p : Script (σ × Option Err) α) : Prop :=
  Ensures p fun t r => (∀ e ∈ t, P e) ∧ ∀ x, r = .error x → ¬ final x.1

theorem Only.early {p : Script (σ × Option Err) α} (h : Only P p) : Early P final p :=
  Ensures.imp h fun t r ⟨hP, a, hr⟩ => ⟨hP, fun x hx => by rw [hr] at hx; cases hx⟩

theorem Early.bind {p : Script (σ × Option Err) α} {f : α → Script (σ × Option Err) β}
    (h : Early P final p) (hf : ∀ a, Early P final (f a)) : Early P final (p >>= f) := by
  refine Ensures.bind (Ensures.imp h fun t r hr => ?_)
  obtain ⟨hP, hexit⟩ := hr
  cases r with
  | error x => exact ⟨hP, fun x' hx => by cases hx; exact hexit x rfl⟩
  | ok a =>
    refine (hf a).imp fun t' r' hr' => ?_
    exact ⟨fun e he => (List.mem_append.mp he).elim (hP e) (hr'.1 e), hr'.2⟩

theorem early_ask {op : Op} (h : ∀ ans, P ⟨op, ans⟩) :
    Early P final (ask op : Script (σ × Option Err) _) :=
  (only_ask h).early

section
variable (h : ¬ final out)
include h

theorem early_exit {e : Option Err} :
    Early P final (.exit (out, e) : Script (σ × Option Err) α) :=
  ensures_exit ⟨by simp, fun x hx => by cases hx; exact h⟩

theorem early_attempt {result : Except Err α} {f : Err → Option Err} :
    Early P final (attempt result fun e => (out, f e)) := by
  cases result with
  | error e => exact early_exit h
  | ok a => exact (only_pure a).early

theorem early_attempt? {result : Option Err} {f : Err → Option Err} :
    Early P final (attempt? result fun e => (out, f e)) := by
  cases result with
  | some e => exact early_exit h
  | none => exact (only_pure ()).early

theorem early_ensure {p : Prop} [Decidable p] {e : Option Err} :
    Early P final (ensure p (out, e)) := by
  unfold ensure
  split
  · exact (only_pure ()).early
  · exact early_exit h

end
end

/-! ## Integration -/

section
variable {req : IntegrationRequest} {out : IntegrationOutcome}

theorem quiet_validateReview : Quiet (validateReview req) := by
  unfold validateReview
  split
  · exact only_pure _
  · refine quiet_canonicalPath.bind fun target => ?_
    split
    · exact only_pure _
    · split <;> exact only_pure _

/-- The outcome of an integration that has come to its end. -/
abbrev integratedOutcome (out : IntegrationOutcome) : Prop := out.state = .integrated

/-- The checks ask queries only. -/
abbrev Checks {α : Type} (p : Script Integrated α) : Prop :=
  Early (fun e => e.1.kind = .query) integratedOutcome p

theorem Only.checks {α : Type} {p : Script Integrated α} (h : Quiet p) : Checks p :=
  (h.imp fun _ he => he.1).early

theorem checks_inputs {inputs : List String} (h : ¬ integratedOutcome out) :
    Checks (checkInputs req out inputs) := by
  induction inputs with
  | nil => exact (only_pure ()).early
  | cons input inputs ih =>
    exact (Only.checks quiet_isAncestor).bind fun _ => (early_attempt? h).bind fun _ => ih

theorem checks_target (h : ¬ integratedOutcome out) : Checks (checkTarget req out) := by
  refine (Only.checks quiet_validateReview).bind fun _ => (early_attempt? h).bind fun _ => ?_
  refine (Only.checks quiet_validateRepo).bind fun _ => (early_attempt h).bind fun ⟨_, _⟩ => ?_
  refine (Only.checks quiet_validateRepo).bind fun _ => (early_attempt h).bind fun ⟨_, _⟩ => ?_
  refine (Only.checks quiet_canonicalPath).bind fun _ => (early_ensure h).bind fun _ => ?_
  refine (early_ask fun _ => rfl).bind fun _ => (early_ensure h).bind fun _ => ?_
  refine (early_ask fun _ => rfl).bind fun _ => (early_attempt? h).bind fun _ => ?_
  refine (Only.checks (quiet_gitText (kind_git rfl))).bind fun ref => ?_
  cases ref with
  | error e => exact early_exit h
  | ok ref =>
    refine (early_ensure h).bind fun _ => ?_
    refine (Only.checks quiet_rev).bind fun _ => (early_attempt h).bind fun _ => ?_
    refine (early_ensure h).bind fun _ => query_anyInProgress.early.bind fun _ => ?_
    refine (early_ensure h).bind fun _ => (Only.checks quiet_targetStatus).bind fun _ => ?_
    refine (early_attempt h).bind fun ⟨_, _⟩ => (early_ensure h).bind fun _ => ?_
    refine (Only.checks quiet_candidatePaths).bind fun _ => (early_attempt h).bind fun _ => ?_
    refine (checks_inputs h).bind fun _ => (early_ensure h).bind fun _ => ?_
    refine (Only.checks quiet_isAncestor).bind fun _ => (early_attempt? h).bind fun _ => ?_
    refine (Only.checks quiet_rev).bind fun _ => (early_attempt h).bind fun _ => ?_
    refine (Only.checks (quiet_gitText (kind_git rfl))).bind fun _ => ?_
    exact (early_attempt h).bind fun _ => (only_pure _).early

end
end Orchestrator.Gitops
