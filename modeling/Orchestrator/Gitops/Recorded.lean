import Orchestrator.Gitops.Journal

/-!
# What an integration records

A call of `Integrate` that has persisted its intent ends in the record of its outcome, and the
outcome is integrated where the target has been seen to be the candidate.
-/
namespace Orchestrator.Gitops
open Library Prog

/-! ## Programs that end in a record -/

section
variable {ρ α : Type} {P : Event → Prop}

/-- A program that works, and returns after one last exchange; `post` is of the exchanges before,
the last one and what is returned. -/
def Closes (p : Script ρ ρ) (post : List Event → Event → ρ → Prop) : Prop :=
  Ensures p fun t r => ∃ body e x,
    t = body ++ [e] ∧ r = .ok x ∧ (∀ e ∈ body, Works e) ∧ post body e x

theorem Closes.after {p : Script ρ α} {f : α → Script ρ ρ} {post : List Event → Event → ρ → Prop}
    (h : Only P p) (hworks : ∀ e, P e → Works e)
    (hpost : ∀ first body e x, (∀ e ∈ first, P e) → post body e x → post (first ++ body) e x)
    (hf : ∀ a, Closes (f a) post) : Closes (p >>= f) post := by
  refine Ensures.bind (Ensures.imp h fun first r hr => ?_)
  obtain ⟨hfirst, a, rfl⟩ := hr
  refine (hf a).imp fun rest r hrest => ?_
  obtain ⟨body, e, x, rfl, rfl, hbody, he⟩ := hrest
  refine ⟨first ++ body, e, x, by simp, rfl, fun e he => ?_, hpost first body e x hfirst he⟩
  exact (List.mem_append.mp he).elim (fun he => hworks e (hfirst e he)) (hbody e)

theorem works_of_looks {e : Event} (h : Looks e) : Works e := .inl h.1

end

/-! ## Integration -/

/-- The output of a command that has succeeded. -/
def Saw (t : List Event) (dir : String) (args : List String) (text : String) : Prop :=
  ∃ r : Ran, ⟨.git dir args, r⟩ ∈ t ∧ r.error = none ∧ r.exitCode = 0 ∧ r.stdout = text

/-- The target was seen to be the candidate after a merge that succeeded. -/
structure Observed (req : IntegrationRequest) (tree : String) (t : List Event) : Prop where
  merged : ∃ before, ∃ r : Ran, ∃ after,
    t = before ++ ⟨.git req.targetWorktree (mergeArgs req.candidateOID), r⟩ :: after ∧
    r.error = none ∧ r.exitCode = 0 ∧
    Saw after req.targetWorktree ["rev-parse", "--verify", "HEAD"] req.candidateOID ∧
    Saw after req.targetWorktree ["symbolic-ref", "-q", "HEAD"] req.targetRef ∧
    Saw after req.targetWorktree ["rev-parse", "--verify", treeOf "HEAD"] tree ∧
    Saw after req.targetWorktree ["write-tree"] tree

/-- The same, of the tree that the candidate was seen to have. -/
def Proven (req : IntegrationRequest) (t : List Event) : Prop :=
  ∃ tree, Saw t req.repoRoot ["rev-parse", "--verify", treeOf req.candidateOID] tree ∧
    Observed req tree t

section
variable {ρ : Type} {req : IntegrationRequest} {out : IntegrationOutcome} {tree : String}
  {first t : List Event} {dir text : String} {args : List String}

theorem Saw.mono {s t : List Event} (h : Saw s dir args text) (hst : s ⊆ t) : Saw t dir args text :=
  have ⟨r, hr, hrest⟩ := h
  ⟨r, hst hr, hrest⟩

theorem Observed.extend (h : Observed req tree t) : Observed req tree (t ++ first) := by
  obtain ⟨before, r, after, rfl, herror, hcode, hhead, href, htree, hindex⟩ := h.merged
  have hsub : after ⊆ after ++ first := List.subset_append_left _ _
  exact ⟨before, r, after ++ first, by simp, herror, hcode, hhead.mono hsub, href.mono hsub,
    htree.mono hsub, hindex.mono hsub⟩

theorem Observed.append (h : Observed req tree t) : Observed req tree (first ++ t) := by
  obtain ⟨before, r, after, rfl, hrest⟩ := h.merged
  exact ⟨first ++ before, r, after, by simp, hrest⟩

/-- What `gitText` returns is what the command has printed. -/
theorem saw_gitText : Ensures (gitText dir args : Script ρ _) fun t r =>
    ∃ result, r = .ok result ∧ ∀ text, result = .ok text → Saw t dir args text := by
  refine ensures_call fun (r : Ran) => ?_
  rcases herror : r.error with - | e
  · dsimp only
    split
    · exact ensures_done ⟨_, rfl, nofun⟩
    case isFalse hcode =>
      refine ensures_done ⟨_, rfl, fun text htext => ⟨r, by simp, herror, by simpa using hcode, ?_⟩⟩
      cases htext
      rfl
  · exact ensures_done ⟨_, rfl, nofun⟩

/-- What is known of the exchanges of `inspect`. -/
structure Inspected (req : IntegrationRequest) (t : List Event) (s : Seen) : Prop where
  quiet : ∀ e ∈ t, Looks e
  head : ∀ text, s.head = .ok text → Saw t req.targetWorktree ["rev-parse", "--verify", "HEAD"] text
  ref : ∀ text, s.ref = .ok text → Saw t req.targetWorktree ["symbolic-ref", "-q", "HEAD"] text
  tree : ∀ text, s.tree = .ok text →
    Saw t req.targetWorktree ["rev-parse", "--verify", treeOf "HEAD"] text
  index : ∀ text, s.index = .ok text → Saw t req.targetWorktree ["write-tree"] text

theorem quiet_callHook {set : Bool} {h : Hook} : Quiet (callHook set h : Script ρ _) := by
  cases set with
  | true => exact only_ask fun _ => ⟨rfl, rfl⟩
  | false => exact only_pure _

theorem quiet_inspect : Quiet (inspect req) :=
  quiet_rev.bind fun _ => quiet_targetStatus.bind fun _ =>
    (quiet_gitText (kind_git rfl)).bind fun _ => quiet_rev.bind fun _ =>
    (quiet_gitText (kind_git rfl)).bind fun _ => only_pure _

theorem inspect_inspected : Ensures (inspect req) fun t r =>
    ∃ s, r = .ok s ∧ Inspected req t s := by
  have hquiet : Quiet (inspect req) := quiet_inspect
  suffices h : Ensures (inspect req) fun t r => ∃ s, r = .ok s ∧
      (∀ text, s.head = .ok text →
        Saw t req.targetWorktree ["rev-parse", "--verify", "HEAD"] text) ∧
      (∀ text, s.ref = .ok text → Saw t req.targetWorktree ["symbolic-ref", "-q", "HEAD"] text) ∧
      (∀ text, s.tree = .ok text →
        Saw t req.targetWorktree ["rev-parse", "--verify", treeOf "HEAD"] text) ∧
      ∀ text, s.index = .ok text → Saw t req.targetWorktree ["write-tree"] text by
    intro t r hr
    obtain ⟨s, hs, hhead, href, htree, hindex⟩ := h t r hr
    exact ⟨s, hs, (hquiet t r hr).1, hhead, href, htree, hindex⟩
  refine Ensures.bind (saw_gitText.imp fun t₁ r₁ h₁ => ?_)
  obtain ⟨head, rfl, hhead⟩ := h₁
  refine Ensures.bind (Ensures.imp quiet_targetStatus fun t₂ r₂ h₂ => ?_)
  obtain ⟨-, status, rfl⟩ := h₂
  refine Ensures.bind (saw_gitText.imp fun t₃ r₃ h₃ => ?_)
  obtain ⟨ref, rfl, href⟩ := h₃
  refine Ensures.bind (saw_gitText.imp fun t₄ r₄ h₄ => ?_)
  obtain ⟨tree, rfl, htree⟩ := h₄
  refine Ensures.bind (saw_gitText.imp fun t₅ r₅ h₅ => ?_)
  obtain ⟨index, rfl, hindex⟩ := h₅
  refine ensures_done ⟨_, rfl, fun text h => (hhead text h).mono ?_,
    fun text h => (href text h).mono ?_, fun text h => (htree text h).mono ?_,
    fun text h => (hindex text h).mono ?_⟩
  all_goals
    intro e he
    simp [he]

theorem seen_of_proves {s : Seen} (h : s.proves req tree = true) :
    s.head = .ok req.candidateOID ∧ s.ref = .ok req.targetRef ∧ s.tree = .ok tree ∧
      s.index = .ok tree := by
  unfold Seen.proves at h
  split at h
  case h_1 head dirty entries ref tree' index hhead hstatus href htree hindex =>
    simp only [Bool.and_eq_true, decide_eq_true_eq] at h
    obtain ⟨⟨⟨⟨rfl, rfl⟩, rfl⟩, rfl⟩, -⟩ := h
    exact ⟨hhead, href, htree, hindex⟩
  case h_2 => cases h

/-- The record of an integration, and what is returned with it. -/
def Merged (req : IntegrationRequest) (tree : String) (body : List Event) (e : Event)
    (x : Integrated) : Prop :=
  ∃ o ans, e = ⟨.recordIntegration o, ans⟩ ∧ (x.1.state = .integrated → ans = none) ∧
    (o.state = .integrated ∨ x.1.state = .integrated → Observed req tree body)

theorem Merged.append {body : List Event} {e : Event} {x : Integrated}
    (h : Merged req tree body e x) : Merged req tree (first ++ body) e x := by
  obtain ⟨o, ans, rfl, hkept, hseen⟩ := h
  exact ⟨o, ans, rfl, hkept, fun h => (hseen h).append⟩

theorem closes_recordIntegration {cause : Err} (h : out.state ≠ .integrated) :
    Closes (recordIntegration out cause) (Merged req tree) := by
  refine ensures_call fun (ans : Option Err) => ?_
  cases ans with
  | none =>
    refine ensures_done ⟨[], _, _, rfl, rfl, by simp, out, none, rfl, fun _ => rfl, ?_⟩
    exact fun h' => h'.elim (absurd · h) (absurd · h)
  | some e =>
    refine ensures_done ⟨[], _, _, rfl, rfl, by simp, out, some e, rfl, (absurd · h), ?_⟩
    exact fun h' => h'.elim (absurd · h) (absurd · h)

/-- The merge goes before everything that is seen. -/
theorem closes_merge :
    Closes (merge req out tree) (Merged req tree) := by
  refine ensures_call fun (r : Ran) => ?_
  refine Ensures.bind (inspect_inspected.imp fun t e he => ?_)
  obtain ⟨s, rfl, hs⟩ := he
  have hworks : ∀ e ∈ (⟨.git req.targetWorktree (mergeArgs req.candidateOID), r⟩ : Event) :: t,
      Works e := by
    intro e he
    rcases List.mem_cons.mp he with rfl | he
    · exact .inr rfl
    · exact works_of_looks (hs.quiet e he)
  dsimp only
  split
  case isTrue hproven =>
    obtain ⟨herror, hcode, hseen⟩ := hproven
    obtain ⟨hhead, href, htree, hindex⟩ := seen_of_proves hseen
    have hobserved : Observed req tree
        (⟨.git req.targetWorktree (mergeArgs req.candidateOID), r⟩ :: t) :=
      ⟨[], r, t, rfl, by simpa using herror, hcode, hs.head _ hhead, hs.ref _ href,
        hs.tree _ htree, hs.index _ hindex⟩
    refine ensures_call fun (ans : Option Err) => ?_
    cases ans with
    | none =>
      exact ensures_done ⟨_, _, _, rfl, rfl, hworks, _, none, rfl, fun _ => rfl, fun _ => hobserved⟩
    | some e =>
      exact ensures_done ⟨_, _, _, rfl, rfl, hworks, _, some e, rfl, nofun, fun _ => hobserved⟩
  case isFalse =>
    have hcloses {o : IntegrationOutcome} {cause : Err} (ho : o.state ≠ .integrated) :
        Closes (recordIntegration o cause) (Merged req tree) := closes_recordIntegration ho
    refine (hcloses (by simp)).imp fun rest r' hrest => ?_
    obtain ⟨body, e, x, rfl, rfl, hbody, hx⟩ := hrest
    refine ⟨(⟨.git req.targetWorktree (mergeArgs req.candidateOID), r⟩ :: t) ++ body, e, x,
      by simp, rfl, fun e he => ?_, hx.append⟩
    exact (List.mem_append.mp he).elim (hworks e) (hbody e)

theorem Closes.afterLooking {α : Type} {p : Script Integrated α}
    {f : α → Script Integrated Integrated} (h : Quiet p)
    (hf : ∀ a, Closes (f a) (Merged req tree)) : Closes (p >>= f) (Merged req tree) :=
  Closes.after h (fun _ => works_of_looks) (fun _ _ _ _ _ h => h.append) hf

theorem closes_mergeTarget {base : String} (h : out.state ≠ .integrated) :
    Closes (mergeTarget req out base tree) (Merged req tree) := by
  refine Closes.afterLooking quiet_callHook fun failed => ?_
  cases failed with
  | some e => exact closes_recordIntegration h
  | none =>
    refine Closes.afterLooking (quiet_gitText (kind_git rfl)) fun ref => ?_
    refine Closes.afterLooking quiet_rev fun head => ?_
    split
    · exact closes_merge
    · exact closes_recordIntegration (by simp)

/-! ### The whole call -/

/-- The discipline of an integration, and that an integrated target has been seen to be so. -/
structure Orderly (req : IntegrationRequest) (t : List Event) (final : Prop) : Prop where
  disciplined : Disciplined t final
  proven : final → Proven req t
  recorded : ∀ before o ans after, t = before ++ ⟨.recordIntegration o, ans⟩ :: after →
    o.state = .integrated → Proven req before

theorem orderly_of_queries {t : List Event} {final : Prop} (h : ∀ e ∈ t, e.1.kind = .query)
    (hfinal : ¬ final) : Orderly req t final where
  disciplined := disciplined_of_queries h
  proven := fun hf => absurd hf hfinal
  recorded := by
    rintro before o ans after rfl -
    cases h ⟨.recordIntegration o, ans⟩ (by simp)

theorem orderly_of_refused {t : List Event} {i : Event} {final : Prop}
    (h : ∀ e ∈ t, e.1.kind = .query) (hi : i.1.kind = .intent) (hrefused : persisted i = false)
    (hfinal : ¬ final) : Orderly req (t ++ [i]) final where
  disciplined := disciplined_of_refused h hi hrefused
  proven := fun hf => absurd hf hfinal
  recorded := by
    rintro before o ans after heq -
    have hmem : (⟨.recordIntegration o, ans⟩ : Event) ∈ t ++ [i] := by simp [heq]
    rcases List.mem_append.mp hmem with hmem | hmem
    · cases h _ hmem
    · obtain rfl : _ = i := List.mem_singleton.mp hmem
      cases hi

theorem orderly_of_merged {body : List Event} {i e : Event} {x : Integrated}
    (hfirst : ∀ e ∈ first, e.1.kind = .query)
    (hsaw : Saw first req.repoRoot ["rev-parse", "--verify", treeOf req.candidateOID] tree)
    (hi : persisted i = true) (hbody : ∀ e ∈ body, Works e) (h : Merged req tree body e x) :
    Orderly req (first ++ i :: (body ++ [e])) (x.1.state = .integrated) := by
  obtain ⟨o, ans, rfl, hkept, hseen⟩ := h
  have hproven (hstate : o.state = .integrated ∨ x.1.state = .integrated) :
      Proven req (first ++ i :: body) := by
    refine ⟨tree, hsaw.mono (List.subset_append_left _ _), ?_⟩
    have hobserved : Observed req tree ((first ++ [i]) ++ body) := (hseen hstate).append
    simpa using hobserved
  refine ⟨(disciplined_iff hfirst hi hbody (.inr rfl)).mpr ⟨rfl, fun hx => ?_⟩, fun hx => ?_, ?_⟩
  · obtain rfl := hkept hx
    rfl
  · obtain ⟨tree', hsaw', hobserved⟩ := hproven (.inr hx)
    have heq : first ++ i :: (body ++ [⟨.recordIntegration o, ans⟩]) =
      (first ++ i :: body) ++ [⟨.recordIntegration o, ans⟩] := by simp
    rw [heq]
    exact ⟨tree', hsaw'.mono (List.subset_append_left _ _), hobserved.extend⟩
  · intro before o' ans' after heq hstate
    have heq' : (first ++ i :: body) ++ ⟨.recordIntegration o, ans⟩ :: [] =
      before ++ (⟨.recordIntegration o', ans'⟩ : Event) :: after := by simpa using heq
    have hnot : (⟨.recordIntegration o', ans'⟩ : Event) ∉ first ++ i :: body := by
      intro hmem
      rcases List.mem_append.mp hmem with hmem | hmem
      · cases hfirst _ hmem
      · rcases List.mem_cons.mp hmem with rfl | hmem
        · cases kind_of_persisted hi
        · rcases hbody _ hmem with hkind | hkind <;> cases hkind
    obtain ⟨hlast, rfl⟩ | ⟨-, hmem⟩ := split_after heq' hnot
    · obtain ⟨hbefore, -⟩ := List.append_inj' heq' rfl
      cases hlast
      rw [← hbefore]
      exact hproven (.inl hstate)
    · cases hmem

/-- What a call returns, early or at its end. -/
def value {ρ : Type} : Except ρ ρ → ρ
  | .ok x => x
  | .error x => x

theorem integrate_orderly : Ensures (integrate req) fun t r =>
    Orderly req t ((value r).1.state = .integrated) := by
  refine Ensures.bind (Ensures.imp (checks_target (by simp)) fun t₁ r₁ h₁ => ?_)
  obtain ⟨hquery, hexit⟩ := h₁
  cases r₁ with
  | error x =>
    exact orderly_of_queries hquery (hexit x rfl)
  | ok c =>
  have hrev : Quiet (rev req.repoRoot (treeOf req.candidateOID) : Script Integrated _) := quiet_rev
  refine Ensures.bind ((hrev.and saw_gitText).imp fun t₂ r₂ h₂ => ?_)
  obtain ⟨⟨hlooks, -⟩, tree, rfl, hsaw⟩ := h₂
  have hquery₂ : ∀ e ∈ t₁ ++ t₂, e.1.kind = .query := fun e he =>
    (List.mem_append.mp he).elim (hquery e) fun he => (hlooks e he).1
  cases tree with
  | error e =>
    refine ensures_exit (orderly_of_queries (t := t₁ ++ (t₂ ++ [])) ?_ nofun)
    simpa using hquery₂
  | ok tree =>
  simp only [attempt_ok]
  refine Ensures.bind (Ensures.imp quiet_canonicalPath fun t₃ r₃ h₃ => ?_)
  obtain ⟨hlooks₃, identity, rfl⟩ := h₃
  have hquery₃ : ∀ e ∈ t₁ ++ t₂ ++ t₃, e.1.kind = .query := fun e he =>
    (List.mem_append.mp he).elim (hquery₂ e) fun he => (hlooks₃ e he).1
  refine ensures_call fun (ans : Option Err) => ?_
  cases ans with
  | some e =>
    rw [attempt?_some]
    refine ensures_exit ?_
    have horderly : Orderly req (t₁ ++ t₂ ++ t₃ ++
        [⟨.persistIntegrationIntent (integrationIntent req identity c), some e⟩]) False :=
      orderly_of_refused hquery₃ rfl rfl id
    simpa [value] using horderly
  | none =>
    rw [attempt?_none]
    refine (closes_mergeTarget (by simp)).imp fun rest r hrest => ?_
    obtain ⟨body, e, x, rfl, rfl, hbody, hx⟩ := hrest
    have horderly := orderly_of_merged hquery₃
      (i := ⟨.persistIntegrationIntent (integrationIntent req identity c), none⟩)
      ((hsaw tree rfl).mono (by simp)) rfl hbody hx
    simpa [value] using horderly

end
end Orchestrator.Gitops
