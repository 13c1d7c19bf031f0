import Mathlib.Data.List.Nodup
import Mathlib.Data.List.Perm.Subperm
import Mathlib.Logic.Relation

/-!
# Depth-first search for cycles

A search with three colours over the nodes of a finite graph: what is on the path, what is done,
and what has not been seen. It ends with every node done if and only if no edge leaves the nodes
and no node reaches itself, in whatever order it starts.
-/
namespace Library

variable {α : Type} (nodes : List α) (next : α → List α)

/-- No edge leaves the nodes, and no node reaches itself. -/
structure Acyclic : Prop where
  closed : ∀ a ∈ nodes, ∀ b ∈ next a, b ∈ nodes
  irrefl : ∀ a ∈ nodes, ¬ Relation.TransGen (fun a b => b ∈ next a) a a

/-- Each node comes before those that it leads to, the last one first. -/
def Ordered : List α → Prop
  | [] => True
  | a :: rest => a ∉ rest ∧ (∀ b ∈ next a, b ∈ rest) ∧ Ordered rest

variable {nodes next} {path done done' : List α} {a b : α}

/-! ## What is ordered has no cycles -/

theorem Ordered.closed (h : Ordered next done) (ha : a ∈ done) (hb : b ∈ next a) : b ∈ done := by
  induction done with
  | nil => cases ha
  | cons c rest ih =>
    obtain ⟨-, hnext, hrest⟩ := h
    rcases List.mem_cons.1 ha with rfl | ha
    · exact List.mem_cons_of_mem _ (hnext b hb)
    · exact List.mem_cons_of_mem _ (ih hrest ha)

theorem Ordered.reaches (h : Ordered next done) (ha : a ∈ done)
    (hab : Relation.ReflTransGen (fun a b => b ∈ next a) a b) : b ∈ done := by
  induction hab with
  | refl => exact ha
  | tail _ hb ih => exact h.closed ih hb

theorem Ordered.irrefl (h : Ordered next done) (ha : a ∈ done) :
    ¬ Relation.TransGen (fun a b => b ∈ next a) a a := by
  induction done with
  | nil => cases ha
  | cons c rest ih =>
    obtain ⟨hnew, hnext, hrest⟩ := h
    rcases List.mem_cons.1 ha with rfl | ha
    · intro hcycle
      obtain ⟨b, hb, hback⟩ := Relation.TransGen.head'_iff.1 hcycle
      exact hnew (hrest.reaches (hnext b hb) hback)
    · exact ih hrest ha

/-! ## What visits add -/

/-- What a visit adds to the nodes that are done: nodes, none of them on the path. -/
structure Visited (nodes : List α) (next : α → List α) (path done done' : List α) : Prop where
  ordered : Ordered next done'
  grows : done ⊆ done'
  nodes : ∀ b ∈ done', b ∈ done ∨ b ∈ nodes
  path : ∀ b ∈ done', b ∈ done ∨ b ∉ path

theorem Visited.refl (h : Ordered next done) : Visited nodes next path done done :=
  ⟨h, List.Subset.refl _, fun _ => .inl, fun _ => .inl⟩

theorem Visited.trans {done'' : List α} (h : Visited nodes next path done done')
    (h' : Visited nodes next path done' done'') : Visited nodes next path done done'' where
  ordered := h'.ordered
  grows := List.Subset.trans h.grows h'.grows
  nodes := fun b hb => (h'.nodes b hb).elim (h.nodes b) .inr
  path := fun b hb => (h'.path b hb).elim (h.path b) .inr

/-- Visits of several nodes, each of which is done afterwards. -/
theorem visited_foldlM {f : List α → α → Option (List α)} {l : List α}
    (hf : ∀ {done done' b}, f done b = some done' → Ordered next done →
      Visited nodes next path done done' ∧ b ∈ done')
    (h : l.foldlM f done = some done') (hdone : Ordered next done) :
    Visited nodes next path done done' ∧ ∀ b ∈ l, b ∈ done' := by
  induction l generalizing done with
  | nil =>
    cases h
    exact ⟨.refl hdone, nofun⟩
  | cons b l ih =>
    rw [List.foldlM_cons] at h
    obtain ⟨mid, hmid, hrest⟩ := Option.bind_eq_some_iff.1 h
    obtain ⟨hvisited, hb⟩ := hf hmid hdone
    obtain ⟨hvisited', hl⟩ := ih hrest hvisited.ordered
    refine ⟨hvisited.trans hvisited', fun c hc => ?_⟩
    rcases List.mem_cons.1 hc with rfl | hc
    · exact hvisited'.grows hb
    · exact hl c hc

theorem length_le_of_path (hpath : path.Nodup) (hnodes : path ⊆ nodes) :
    path.length ≤ nodes.length := (hpath.subperm hnodes).length_le

theorem foldlM_isSome {f : List α → α → Option (List α)} {l : List α}
    (hf : ∀ b ∈ l, ∀ done, (f done b).isSome = true) : (l.foldlM f done).isSome = true := by
  induction l generalizing done with
  | nil => rfl
  | cons b l ih =>
    obtain ⟨mid, hmid⟩ := Option.isSome_iff_exists.1 (hf b List.mem_cons_self done)
    rw [List.foldlM_cons, hmid, Option.bind_eq_bind, Option.bind_some]
    exact ih fun c hc => hf c (List.mem_cons_of_mem _ hc)

/-! ## The search -/

variable [DecidableEq α] {fuel : Nat} {order : List α}

section
variable (nodes next)

/-- The nodes that are done when the visit of `a` ends; `none` where it finds a cycle, or an edge
to something else than a node. -/
def search : Nat → List α → List α → α → Option (List α)
  | 0, _, _, _ => none
  | fuel + 1, path, done, a =>
    if a ∈ path ∨ a ∉ nodes then none
    else if a ∈ done then some done
    else ((next a).foldlM (search fuel (a :: path)) done).map (a :: ·)

/-- The visits of all nodes, one after the other. -/
def searchAll (fuel : Nat) (order : List α) : Option (List α) :=
  order.foldlM (search nodes next fuel []) []

end

theorem search_refuses (h : a ∈ path ∨ a ∉ nodes) : search nodes next fuel path done a = none := by
  cases fuel with
  | zero => rfl
  | succ fuel => rw [search, if_pos h]

/-- The search orders what it visits. -/
theorem search_visited (h : search nodes next fuel path done a = some done')
    (hdone : Ordered next done) : Visited nodes next path done done' ∧ a ∈ done' := by
  induction fuel generalizing path done done' a with
  | zero => cases h
  | succ fuel ih =>
    unfold search at h
    split at h
    · cases h
    next hnode =>
      obtain ⟨hpath, ha⟩ := not_or.1 hnode
      split at h
      next hmem =>
        cases h
        exact ⟨.refl hdone, hmem⟩
      next hnew =>
        obtain ⟨below, hbelow, rfl⟩ := Option.map_eq_some_iff.1 h
        obtain ⟨hvisited, hall⟩ := visited_foldlM (fun hb hd => ih hb hd) hbelow hdone
        -- the node itself is on the path of the visits below it
        have hself : a ∉ below := fun hmem =>
          (hvisited.path a hmem).elim hnew fun hnot => hnot List.mem_cons_self
        refine ⟨⟨⟨hself, hall, hvisited.ordered⟩, List.subset_cons_of_subset _ hvisited.grows,
          fun b hb => ?_, fun b hb => ?_⟩, List.mem_cons_self⟩
        · rcases List.mem_cons.1 hb with rfl | hb
          · exact .inr (not_not.1 ha)
          · exact hvisited.nodes b hb
        · rcases List.mem_cons.1 hb with rfl | hb
          · exact .inr hpath
          · exact (hvisited.path b hb).imp_right fun hnot hmem =>
              hnot (List.mem_cons_of_mem _ hmem)

/-- Every node on the path reaches the one that is visited, so that it is none of them. -/
theorem search_isSome (h : Acyclic nodes next) (ha : a ∈ nodes) (hpath : path.Nodup)
    (hnodes : path ⊆ nodes)
    (hreach : ∀ b ∈ path, Relation.TransGen (fun a b => b ∈ next a) b a)
    (hfuel : nodes.length < fuel + path.length) :
    (search nodes next fuel path done a).isSome = true := by
  induction fuel generalizing path done a with
  | zero =>
    have hle := length_le_of_path hpath hnodes
    omega
  | succ fuel ih =>
    have hnew : a ∉ path := fun hmem => h.irrefl a ha (hreach a hmem)
    rw [search, if_neg (not_or.2 ⟨hnew, not_not.2 ha⟩)]
    split
    · rfl
    · rw [Option.isSome_map]
      refine foldlM_isSome fun b hb done => ?_
      refine ih (h.closed a ha b hb) (List.nodup_cons.2 ⟨hnew, hpath⟩)
        (List.cons_subset.2 ⟨ha, hnodes⟩) (fun c hc => ?_) (by rw [List.length_cons]; omega)
      rcases List.mem_cons.1 hc with rfl | hc
      · exact .single hb
      · exact (hreach c hc).tail hb

/-- The visits succeed if and only if there are no cycles, with enough fuel and in any order. -/
theorem searchAll_isSome_iff (horder : ∀ a, a ∈ order ↔ a ∈ nodes) (hfuel : nodes.length < fuel) :
    (searchAll nodes next fuel order).isSome = true ↔ Acyclic nodes next := by
  constructor
  · intro h
    obtain ⟨done, hdone⟩ := Option.isSome_iff_exists.1 h
    obtain ⟨hvisited, hall⟩ :=
      @visited_foldlM _ nodes next [] _ _ _ _ (fun hb hd => search_visited hb hd) hdone trivial
    have hmem : ∀ a ∈ nodes, a ∈ done := fun a ha => hall a ((horder a).2 ha)
    refine ⟨fun a ha b hb => ?_, fun a ha => hvisited.ordered.irrefl (hmem a ha)⟩
    exact (hvisited.nodes b (hvisited.ordered.closed (hmem a ha) hb)).elim nofun id
  · intro h
    refine foldlM_isSome fun a ha done => ?_
    exact search_isSome h ((horder a).1 ha) .nil (List.nil_subset _) nofun (by simpa using hfuel)

end Library
