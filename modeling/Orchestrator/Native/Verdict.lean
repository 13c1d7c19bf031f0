import Orchestrator.Native.DeliveryAudit

/-!
# The verdict of an audit

What a capture holds, read without any checks, and what the verdict says of it.
-/
namespace Orchestrator.Native
open Library PythonJson

/-! ## Captures -/

/-- The value under nested keys. -/
def at? (v : Value) : List String → Option Value
  | [] => some v
  | key :: path => (dict? v).bind fun fields => (get? fields key).bind (at? · path)

def textAt (v : Value) (path : List String) : Option Text := (at? v path).bind Value.str?

def listAt (v : Value) (path : List String) : List Value := ((at? v path).bind list?).getD []

/-- A turn whose items are all there. -/
def FullTurn (turn : Value) : Prop :=
  textAt turn ["itemsView"] = none ∨ textAt turn ["itemsView"] = some (text "full")

instance (turn : Value) : Decidable (FullTurn turn) := inferInstanceAs (Decidable (_ ∨ _))

/-- The copy of an item in a turn. -/
structure Copy where
  turnId : Text
  item : Value

def turnCopies (turn : Value) : List Copy :=
  if FullTurn turn then
    (listAt turn ["items"]).map fun item => ⟨(textAt turn ["id"]).getD [], item⟩
  else []

/-- The copies a read captured in full views. -/
def readCopies (read : Value) : List Copy :=
  let method := textAt read ["request", "method"]
  if method = some (text "thread/read") then
    (listAt read ["response", "result", "thread", "turns"]).flatMap turnCopies
  else if method = some (text "thread/items/list") then
    (listAt read ["response", "result", "data"]).map fun entry =>
      ⟨(textAt entry ["turnId"]).getD [], (at? entry ["item"]).getD .null⟩
  else if textAt read ["request", "params", "itemsView"] = some (text "full") then
    (listAt read ["response", "result", "data"]).flatMap turnCopies
  else []

def copies (data : Value) : List Copy := (listAt data ["reads"]).flatMap readCopies

/-! ## Items -/

namespace Copy

/-- The items of two copies are the same. -/
def key (c : Copy) : Text × Option Text := (c.turnId, textAt c.item ["id"])

/-- `type`, `name` and `namespace`, up to equality. -/
def identity (c : Copy) : Option Text × Normal × Normal :=
  (textAt c.item ["type"], normal ((at? c.item ["name"]).getD .null),
    normal ((at? c.item ["namespace"]).getD .null))

/-- An output of the tool that shows deliveries. -/
def IsDelivery (c : Copy) : Prop :=
  textAt c.item ["type"] = some (text "functionCallOutput") ∧
    textAt c.item ["name"] = some (text "g0_delivery")

/-- What the output is read as. -/
def delivered (c : Copy) (depth : Nat) : Option Value :=
  (textAt c.item ["output"]).bind (parse depth)

/-- The copy shows this envelope. -/
def Delivers (c : Copy) (depth : Nat) (intent : Value) : Prop :=
  c.IsDelivery ∧ ∃ v, c.delivered depth = some v ∧ Equal v intent

end Copy

/-! ## Page chains -/

/-- A page of the list, requested with one cursor and leading to the next, with full items. -/
structure FullPage (q : Query) (cursor next : Option Text) (read : Value) : Prop where
  method : textAt read ["request", "method"] = some q.method
  sortDirection : textAt read ["request", "params", "sortDirection"] = q.sortDirection
  turnId : textAt read ["request", "params", "turnId"] = q.turnId
  itemsView : textAt read ["request", "params", "itemsView"] = q.itemsView
  cursor : textAt read ["request", "params", "cursor"] = cursor
  next : textAt read ["response", "result", "nextCursor"] = next
  full : q.method = text "thread/items/list" ∨
    (q.method = text "thread/turns/list" ∧ q.itemsView = some (text "full") ∧
      ∀ turn ∈ listAt read ["response", "result", "data"], FullTurn turn)

/-- The pages of a list from a cursor to its end. -/
inductive FollowsPages (q : Query) : Option Text → List Value → Prop
  | last {cursor : Option Text} {read : Value} (h : FullPage q cursor none read) :
      FollowsPages q cursor [read]
  | next {cursor : Option Text} {next : Text} {read : Value} {reads : List Value}
      (h : FullPage q cursor (some next) read) (hreads : FollowsPages q (some next) reads) :
      FollowsPages q cursor (read :: reads)

/-- The whole thread, which is not paginated. -/
structure FullThread (read : Value) : Prop where
  method : textAt read ["request", "method"] = some (text "thread/read")
  unpaginated : textAt read ["response", "result", "thread", "historyMode"] ≠
    some (text "paginated")
  full : ∀ turn ∈ listAt read ["response", "result", "thread", "turns"], FullTurn turn

/-- The reads are one read of the whole thread, or all pages of one list. -/
def CompleteCapture (data : Value) : Prop :=
  (∃ read, listAt data ["reads"] = [read] ∧ FullThread read) ∨
    ∃ q, FollowsPages q none (listAt data ["reads"])

/-! ## Reading values -/

section Values
variable {v w : Value} {fields : Fields} {key : String} {s t : Text} {o : Option Value}
  {required optional strings : List String}

theorem guard_eq_some {p : Prop} [Decidable p] {u : Unit} :
    (guard p : Option Unit) = some u ↔ p := by
  unfold guard
  split <;> simp_all

theorem at_field (h : dict? v = some fields) {path : List String} :
    at? v (key :: path) = (get? fields key).bind (at? · path) := by
  rw [at?, h, Option.bind_some]

theorem at_cons (h : dict? v = some fields) (hw : get? fields key = some w) {path : List String} :
    at? v (key :: path) = at? w path := by
  rw [at_field h, hw, Option.bind_some]

theorem textAt_field (h : dict? v = some fields) :
    textAt v [key] = (get? fields key).bind Value.str? := by
  rw [textAt, at_field h]
  cases get? fields key <;> rfl

theorem shape_dict (h : shape v required optional = some fields) : dict? v = some fields := by
  simp only [shape, Option.bind_eq_bind, Option.bind_eq_some_iff, guard_eq_some, exists_const,
    Option.pure_def, Option.some.injEq] at h
  obtain ⟨fields', h, -, rfl⟩ := h
  exact h

theorem isStr_iff : isStr o s = true ↔ o.bind Value.str? = some s := by
  cases o with
  | none => simp [isStr]
  | some v => cases v <;> simp [isStr, Value.str?]

theorem safe_str (h : safe o = some s) : o.bind Value.str? = some s := by
  simp only [safe, Option.bind_eq_bind, Option.bind_eq_some_iff, guard_eq_some, exists_const,
    Option.pure_def, Option.some.injEq] at h
  obtain ⟨s', ⟨v, rfl, hv⟩, -, rfl⟩ := h
  exact hv

theorem oneOf_str (h : oneOf o strings = some s) : o.bind Value.str? = some s := by
  simp only [oneOf, Option.bind_eq_bind, Option.bind_eq_some_iff, guard_eq_some, exists_const,
    Option.pure_def, Option.some.injEq] at h
  obtain ⟨s', ⟨v, rfl, hv⟩, -, rfl⟩ := h
  exact hv

/-- A word that may be left out is the one given, or the default. -/
theorem oneOfOr_cases {word : String} (h : oneOfOr fields key word strings = some t) :
    strField fields key = some t ∨ strField fields key = none ∧ t = text word := by
  unfold oneOfOr at h
  split at h
  · exact .inl (oneOf_str h)
  · rename_i hkey
    cases h
    rw [hasKey, Bool.not_eq_true, Option.isSome_eq_false_iff, Option.isNone_iff_eq_none] at hkey
    exact .inr ⟨by rw [strField, hkey, Option.bind_none], rfl⟩

theorem oneOf_mem (h : oneOf o strings = some s) : s ∈ strings.map text := by
  simp only [oneOf, Option.bind_eq_bind, Option.bind_eq_some_iff, guard_eq_some, exists_const,
    Option.pure_def, Option.some.injEq] at h
  obtain ⟨s', -, hmem, rfl⟩ := h
  exact hmem

theorem cursorOf_str {cursor : Option Text} (h : cursorOf fields key = some cursor) :
    (get? fields key).bind Value.str? = cursor := by
  unfold cursorOf at h
  split at h
  case h_1 hget =>
    cases h
    rw [hget]
    rfl
  case h_2 hget =>
    cases h
    rw [hget]
    rfl
  case h_3 hget =>
    split at h
    · cases h
      rw [hget]
      rfl
    · cases h
  case h_4 => cases h

theorem listField_eq {limit : Nat} {items : List Value}
    (h : listField fields key limit = some items) :
    (get? fields key).bind list? = some items := by
  simp only [listField, Option.bind_eq_bind, Option.bind_eq_some_iff, guard_eq_some, exists_const,
    Option.pure_def, Option.some.injEq] at h
  obtain ⟨items', ⟨v, hv, hlist⟩, -, rfl⟩ := h
  rw [hv]
  exact hlist

theorem listAt_field (h : dict? v = some fields) {limit : Nat} {items : List Value}
    (hitems : listField fields key limit = some items) : listAt v [key] = items := by
  have heq := listField_eq hitems
  rw [listAt, at_field h]
  cases hget : get? fields key with
  | none => simp [hget] at heq
  | some w =>
    rw [hget, Option.bind_some] at heq
    simp [at?, heq]

end Values

/-! ## Copies -/

section Items
variable {depth : Nat} {intent : Envelope} {s s' : Items} {turnId : Text} {item : Value}
  {done : List Copy} {c : Copy} {v : Value}

theorem envelope_value (h : envelope v = some intent) : intent.value = v ∧
    ∃ fields, dict? v = some fields ∧
      (get? fields "delivery_id").bind Value.str? = some intent.deliveryId := by
  simp only [envelope, Option.bind_eq_bind, Option.bind_eq_some_iff, guard_eq_some, exists_const,
    Option.pure_def, Option.some.injEq] at h
  obtain ⟨fields, hfields, -, id, hid, _, -, _, -, _, -, -, _, -, -, _, -, -, rfl⟩ := h
  exact ⟨rfl, fields, shape_dict hfields, safe_str hid⟩

theorem deliveryId_of_equal {found : Envelope} (hf : envelope v = some found)
    (hi : envelope intent.value = some intent) (h : Equal found.value intent.value) :
    found.deliveryId = intent.deliveryId := by
  obtain ⟨rfl, fields, hfields, hid⟩ := envelope_value hf
  obtain ⟨-, fields', hfields', hid'⟩ := envelope_value hi
  have hdict : found.value = .dict fields := by
    revert hfields
    cases found.value <;> simp [dict?]
  have hdict' : intent.value = .dict fields' := by
    revert hfields'
    cases intent.value <;> simp [dict?]
  rw [hdict, hdict'] at h
  exact Option.some.inj ((get?_of_equal h hid).symm.trans hid')

/-- What `audit` stores of the identity of a copy. -/
def Identity.Of (i : Identity) (c : Copy) : Prop :=
  c.identity = (some i.kind, i.name, i.namespaceName)

/-- A delivery is stored as it is read, and counted if it shows the intent. -/
theorem scanDelivery_cases {key : ItemKey} (hi : envelope intent.value = some intent)
    (h : scanDelivery depth intent s key c.item = some s') : ∃ v,
    c.delivered depth = some v ∧ settled s.observed key (canonical v) ∧
      s'.observed = (key, canonical v) :: s.observed ∧ s'.identities = s.identities ∧
      ((Equal v intent.value ∧ s'.matched ≠ []) ∨
        (¬ Equal v intent.value ∧ s'.matched = s.matched)) := by
  simp only [scanDelivery, deliveredEnvelope, Option.bind_eq_bind, Option.bind_eq_some_iff,
    guard_eq_some, exists_const] at h
  obtain ⟨fields, hfields, -, found, ⟨output, ⟨o, ho, hstr⟩, v, hparse, hv⟩, hsettled, h⟩ := h
  obtain ⟨hvalue, -⟩ := envelope_value hv
  have hdelivered : c.delivered depth = some v := by
    rw [Copy.delivered, textAt_field (shape_dict hfields), ho, Option.bind_some, hstr,
      Option.bind_some, hparse]
  refine ⟨v, hdelivered, hvalue ▸ hsettled, ?_⟩
  split at h
  · rename_i hid
    cases h
    rw [hvalue]
    exact ⟨rfl, rfl, .inr ⟨fun heq => hid (deliveryId_of_equal hv hi (hvalue ▸ heq)), rfl⟩⟩
  · simp only [Option.bind_eq_some_iff, guard_eq_some, exists_const, Option.pure_def,
      Option.some.injEq] at h
    obtain ⟨hequal, -, rfl⟩ := h
    rw [hvalue] at hequal ⊢
    refine ⟨rfl, rfl, .inl ⟨hequal, ?_⟩⟩
    split
    · rename_i hmem
      exact List.ne_nil_of_mem hmem
    · exact List.cons_ne_nil _ _

theorem isDelivery_iff {fields : Fields} (h : dict? c.item = some fields) :
    isDelivery fields = true ↔ c.IsDelivery := by
  rw [isDelivery, Bool.and_eq_true, isStr_iff, isStr_iff, Copy.IsDelivery, textAt_field h,
    textAt_field h]

/-- A copy is stored under its key, if that agrees with the copy before it. -/
theorem scanItem_cases (hi : envelope intent.value = some intent)
    (h : scanItem depth intent s c.turnId c.item = some s') : ∃ id i,
    textAt c.item ["id"] = some id ∧ i.Of c ∧ settled s.identities (c.turnId, id) i ∧
      s'.identities = ((c.turnId, id), i) :: s.identities ∧
      ((¬ c.IsDelivery ∧ s'.observed = s.observed ∧ s'.matched = s.matched) ∨
        (c.IsDelivery ∧ ∃ v, c.delivered depth = some v ∧
          settled s.observed (c.turnId, id) (canonical v) ∧
          s'.observed = ((c.turnId, id), canonical v) :: s.observed ∧
          ((Equal v intent.value ∧ s'.matched ≠ []) ∨
            (¬ Equal v intent.value ∧ s'.matched = s.matched)))) := by
  simp only [scanItem, Option.bind_eq_bind, Option.bind_eq_some_iff, guard_eq_some,
    exists_const] at h
  obtain ⟨fields, hfields, id, hid, kind, hkind, hsettled, h⟩ := h
  have hof : (⟨kind, getNormal fields "name", getNormal fields "namespace"⟩ : Identity).Of c := by
    rw [Identity.Of, Copy.identity, textAt_field hfields, Option.bind_eq_some_iff.mpr hkind,
      at_field hfields, at_field hfields]
    simp [getNormal, at?]
  have hkey : textAt c.item ["id"] = some id := by
    rw [textAt_field hfields, safe_str hid]
  refine ⟨id, _, hkey, hof, hsettled, ?_⟩
  split at h
  · rename_i hdelivery
    obtain ⟨v, hv, hold, hobserved, hidentities, hmatched⟩ := scanDelivery_cases hi h
    exact ⟨hidentities, .inr ⟨(isDelivery_iff hfields).mp hdelivery, v, hv, hold, hobserved,
      hmatched⟩⟩
  · rename_i hdelivery
    cases h
    exact ⟨rfl, .inl ⟨fun hd => hdelivery ((isDelivery_iff hfields).mpr hd), rfl, rfl⟩⟩

theorem lookup_settled {β : Type} [DecidableEq β] {seen : List (ItemKey × β)} {key k : ItemKey}
    {b b' : β} (h : settled seen key b) (hk : seen.lookup k = some b') :
    ((key, b) :: seen).lookup k = some b' := by
  by_cases heq : k = key
  · subst heq
    rw [List.lookup_cons_self]
    obtain hnone | hsome := h
    · rw [hk] at hnone
      cases hnone
    · rw [← hsome, hk]
  · rwa [List.lookup_cons, beq_false_of_ne heq]

/-- What is stored of the copies that were scanned. -/
structure Seen (depth : Nat) (intent : Value) (done : List Copy) (s : Items) : Prop where
  identity : ∀ c ∈ done, ∃ id i, textAt c.item ["id"] = some id ∧ Identity.Of i c ∧
    s.identities.lookup (c.turnId, id) = some i
  body : ∀ c ∈ done, c.IsDelivery → ∃ id v, textAt c.item ["id"] = some id ∧
    c.delivered depth = some v ∧ s.observed.lookup (c.turnId, id) = some (canonical v)
  matched : s.matched ≠ [] ↔ ∃ c ∈ done, c.Delivers depth intent

theorem Seen.scan (hs : Seen depth intent.value done s) (hi : envelope intent.value = some intent)
    (h : scanItem depth intent s c.turnId c.item = some s') :
    Seen depth intent.value (done ++ [c]) s' := by
  obtain ⟨id, i, hid, hof, hsettled, hidentities, hrest⟩ := scanItem_cases hi h
  have hdone : ∀ {P : Copy → Prop}, (∀ x ∈ done, P x) → P c → ∀ x ∈ done ++ [c], P x := by
    intro P hold hnew x hx
    obtain hx | hx := List.mem_append.mp hx
    · exact hold x hx
    · rwa [List.mem_singleton.mp hx]
  refine ⟨hdone (fun x hx => ?_) ⟨id, i, hid, hof, ?_⟩, hdone (fun x hx hd => ?_) fun hd => ?_, ?_⟩
  · obtain ⟨xid, xi, hxid, hxof, hlookup⟩ := hs.identity x hx
    refine ⟨xid, xi, hxid, hxof, ?_⟩
    rw [hidentities]
    exact lookup_settled hsettled hlookup
  · rw [hidentities, List.lookup_cons_self]
  · obtain ⟨xid, v, hxid, hv, hlookup⟩ := hs.body x hx hd
    refine ⟨xid, v, hxid, hv, ?_⟩
    obtain ⟨-, hobserved, -⟩ | ⟨-, w, -, hsame, hobserved, -⟩ := hrest
    · rwa [hobserved]
    · rw [hobserved]
      exact lookup_settled hsame hlookup
  · obtain ⟨hnot, -⟩ | ⟨-, w, hw, -, hobserved, -⟩ := hrest
    · exact absurd hd hnot
    · refine ⟨id, w, hid, hw, ?_⟩
      rw [hobserved, List.lookup_cons_self]
  · have hsplit : (∃ x ∈ done ++ [c], x.Delivers depth intent.value) ↔
        (∃ x ∈ done, x.Delivers depth intent.value) ∨ c.Delivers depth intent.value := by
      simp only [List.mem_append, List.mem_singleton]
      constructor
      · rintro ⟨x, hx | rfl, hdel⟩
        · exact .inl ⟨x, hx, hdel⟩
        · exact .inr hdel
      · rintro (⟨x, hx, hdel⟩ | hdel)
        · exact ⟨x, .inl hx, hdel⟩
        · exact ⟨c, .inr rfl, hdel⟩
    rw [hsplit, ← hs.matched]
    obtain ⟨hnot, -, hmatched⟩ | ⟨hd, w, hw, -, -, ⟨hequal, hmatched⟩ | ⟨hne, hmatched⟩⟩ := hrest
    · rw [hmatched, or_iff_left fun hdel => hnot hdel.1]
    · exact iff_of_true hmatched (.inr ⟨hd, w, hw, hequal⟩)
    · rw [hmatched, or_iff_left]
      rintro ⟨-, w', hw', hequal⟩
      rw [hw] at hw'
      cases hw'
      exact hne hequal

/-- `scan_item` of a copy. -/
def scanCopy (depth : Nat) (intent : Envelope) (s : Items) (c : Copy) : Option Items :=
  scanItem depth intent s c.turnId c.item

theorem Seen.scanAll {cs : List Copy} (hs : Seen depth intent.value done s)
    (hi : envelope intent.value = some intent)
    (h : cs.foldlM (scanCopy depth intent) s = some s') :
    Seen depth intent.value (done ++ cs) s' := by
  induction cs generalizing s done with
  | nil =>
    cases h
    rwa [List.append_nil]
  | cons c cs ih =>
    rw [List.foldlM_cons, Option.bind_eq_bind, Option.bind_eq_some_iff] at h
    obtain ⟨s₁, h₁, h₂⟩ := h
    have hall := ih (hs.scan hi h₁) h₂
    rwa [List.append_assoc] at hall

end Items

/-! ## Turns -/

/-- A fold of folds, seen through a part of its state. -/
theorem foldlM_flatMap {α β σ τ : Type} {f : τ → α → Option τ} {g : σ → β → Option σ} {π : τ → σ}
    {parts : α → List β} {as : List α} {t t' : τ}
    (hf : ∀ t a t', a ∈ as → f t a = some t' → (parts a).foldlM g (π t) = some (π t'))
    (h : as.foldlM f t = some t') : (as.flatMap parts).foldlM g (π t) = some (π t') := by
  induction as generalizing t with
  | nil =>
    cases h
    rfl
  | cons a as ih =>
    rw [List.foldlM_cons, Option.bind_eq_bind, Option.bind_eq_some_iff] at h
    obtain ⟨t₁, h₁, h₂⟩ := h
    rw [List.flatMap_cons, List.foldlM_append, hf t a t₁ List.mem_cons_self h₁]
    exact ih (fun t a t' ha => hf t a t' (List.mem_cons_of_mem _ ha)) h₂

section Turns
variable {depth : Nat} {intent : Envelope} {s s' : AuditState} {turn : Value} {turns : List Value}
  {full : Bool}

/-- The view of a turn that is in order. -/
theorem fullTurn_iff {fields : Fields} {view : Text} (h : dict? turn = some fields)
    (hview : oneOfOr fields "itemsView" "full" itemsViews = some view) :
    FullTurn turn ↔ view = text "full" := by
  rw [FullTurn, textAt_field h, ← strField]
  obtain hgiven | ⟨hnone, rfl⟩ := oneOfOr_cases hview
  · simp [hgiven]
  · simp [hnone]

/-- A turn is scanned if it is full, and spoils completeness if not. -/
theorem scanTurn_cases (h : scanTurn depth intent full s turn = some s') :
    s'.previousNext = s.previousNext ∧ s'.previousQuery = s.previousQuery ∧
      s'.requestIds = s.requestIds ∧
      ((full = true ∧ FullTurn turn ∧ s'.complete = s.complete ∧
          (turnCopies turn).foldlM (scanCopy depth intent) s.items = some s'.items) ∨
        (¬ (full = true ∧ FullTurn turn) ∧ s'.complete = false ∧ s'.items = s.items)) := by
  simp only [scanTurn, Option.bind_eq_bind, Option.bind_eq_some_iff] at h
  obtain ⟨fields, hfields, id, hid, _, -, items, hitems, view, hview, h⟩ := h
  have hturn := fullTurn_iff (shape_dict hfields) hview
  split at h
  · rename_i hnot
    cases h
    refine ⟨rfl, rfl, rfl, .inr ⟨?_, rfl, rfl⟩⟩
    rw [hturn]
    rintro ⟨rfl, rfl⟩
    simp at hnot
  · rename_i hnot
    rw [not_or, Bool.not_eq_false, not_not] at hnot
    simp only [Option.bind_eq_some_iff, Option.pure_def, Option.some.injEq] at h
    obtain ⟨scanned, hscan, rfl⟩ := h
    refine ⟨rfl, rfl, rfl, .inl ⟨hnot.1, hturn.mpr hnot.2, rfl, ?_⟩⟩
    rw [turnCopies, if_pos (hturn.mpr hnot.2), listAt_field (shape_dict hfields) hitems,
      textAt_field (shape_dict hfields), safe_str hid, List.foldlM_map]
    exact hscan

/-- What the turns of a read leave. -/
theorem scanTurns_spec (h : turns.foldlM (scanTurn depth intent full) s = some s') :
    s'.previousNext = s.previousNext ∧ s'.previousQuery = s.previousQuery ∧
      (s'.complete = true → s.complete = true ∧
        ∀ turn ∈ turns, full = true ∧ FullTurn turn) := by
  induction turns generalizing s with
  | nil =>
    cases h
    exact ⟨rfl, rfl, fun hc => ⟨hc, by simp⟩⟩
  | cons turn turns ih =>
    rw [List.foldlM_cons, Option.bind_eq_bind, Option.bind_eq_some_iff] at h
    obtain ⟨s₁, h₁, h₂⟩ := h
    obtain ⟨hnext, hquery, -, hturn⟩ := scanTurn_cases h₁
    obtain ⟨hnext', hquery', hcomplete⟩ := ih h₂
    refine ⟨hnext'.trans hnext, hquery'.trans hquery, fun hc => ?_⟩
    obtain ⟨hc₁, hall⟩ := hcomplete hc
    obtain ⟨hfull, hturn, hsame, -⟩ | ⟨-, hfalse, -⟩ := hturn
    · exact ⟨hsame ▸ hc₁, List.forall_mem_cons.mpr ⟨⟨hfull, hturn⟩, hall⟩⟩
    · rw [hfalse] at hc₁
      cases hc₁

theorem scanTurns_items (h : turns.foldlM (scanTurn depth intent true) s = some s') :
    (turns.flatMap turnCopies).foldlM (scanCopy depth intent) s.items = some s'.items := by
  refine foldlM_flatMap (π := AuditState.items) (fun s turn s' _ hs => ?_) h
  obtain ⟨-, -, -, ⟨-, -, -, hitems⟩ | ⟨hnot, -, hsame⟩⟩ := scanTurn_cases hs
  · exact hitems
  · have hpart : ¬ FullTurn turn := fun hturn => hnot ⟨rfl, hturn⟩
    rw [turnCopies, if_neg hpart, hsame]
    rfl

/-- Turns that are not asked for in full are not scanned. -/
theorem scanTurns_skip (h : turns.foldlM (scanTurn depth intent false) s = some s') :
    s'.items = s.items := by
  have hnone := @foldlM_flatMap _ _ _ _ _ (scanCopy depth intent) AuditState.items
    (fun _ => []) _ _ _ (fun s turn s' _ hs => ?_) h
  · rw [List.flatMap_eq_nil_iff.mpr fun _ _ => rfl] at hnone
    exact (Option.some.inj hnone).symm
  · obtain ⟨-, -, -, ⟨hfull, -⟩ | ⟨-, -, hsame⟩⟩ := scanTurn_cases hs
    · cases hfull
    · rw [hsame]
      rfl

end Turns

/-! ## Reads -/

section Reads
variable {depth : Nat} {intent : Envelope} {single : Bool} {s s' : AuditState}
  {read params result : Value} {method : Text}

theorem readThread_cases (h : readThread depth intent single s params result = some s') :
    ((listAt result ["thread", "turns"]).flatMap turnCopies).foldlM (scanCopy depth intent)
        s.items = some s'.items ∧
      s'.previousNext = s.previousNext ∧ s'.previousQuery = s.previousQuery ∧
      (s'.complete = true → s.complete = true ∧ single = true ∧
        textAt result ["thread", "historyMode"] ≠ some (text "paginated") ∧
        ∀ turn ∈ listAt result ["thread", "turns"], FullTurn turn) := by
  simp only [readThread, Option.bind_eq_bind, Option.bind_eq_some_iff, guard_eq_some,
    exists_const] at h
  obtain ⟨_, -, -, -, result', hresult, thread, ⟨v, hv, hthread⟩, -, turns, hturns, h⟩ := h
  have hat : ∀ path, at? result ("thread" :: path) = at? v path := fun path =>
    at_cons (shape_dict hresult) hv
  have hlist : listAt result ["thread", "turns"] = turns := by
    rw [listAt, hat, ← listAt, listAt_field hthread hturns]
  have hmode : textAt result ["thread", "historyMode"] = strField thread "historyMode" := by
    rw [textAt, hat, ← textAt, textAt_field hthread, strField]
  rw [hlist, hmode]
  obtain ⟨hnext, hquery, hcomplete⟩ := scanTurns_spec h
  have hitems := scanTurns_items h
  split at h
  · rename_i hspoilt
    rw [if_pos hspoilt] at hnext hquery hcomplete hitems
    exact ⟨hitems, hnext, hquery, fun hc => absurd (hcomplete hc).1 Bool.false_ne_true⟩
  · rename_i hgood
    rw [if_neg hgood] at hnext hquery hcomplete hitems
    rw [not_or, Bool.not_eq_false] at hgood
    refine ⟨hitems, hnext, hquery, fun hc => ⟨(hcomplete hc).1, hgood.2, fun hpaginated => ?_,
      fun turn hturn => ((hcomplete hc).2 turn hturn).2⟩⟩
    exact hgood.1 (isStr_iff.mpr hpaginated)

/-- The copies of a page, from the parts it is read from. -/
def pageCopies (method : Text) (params result : Value) : List Copy :=
  if method = text "thread/items/list" then
    (listAt result ["data"]).map fun entry =>
      ⟨(textAt entry ["turnId"]).getD [], (at? entry ["item"]).getD .null⟩
  else if textAt params ["itemsView"] = some (text "full") then
    (listAt result ["data"]).flatMap turnCopies
  else []

theorem scanEntry_copy {turnId : Option Text} {s s' : Items} {entry : Value}
    (h : scanEntry depth intent turnId s entry = some s') :
    scanCopy depth intent s
      ⟨(textAt entry ["turnId"]).getD [], (at? entry ["item"]).getD .null⟩ = some s' := by
  simp only [scanEntry, Option.bind_eq_bind, Option.bind_eq_some_iff, guard_eq_some,
    exists_const] at h
  obtain ⟨fields, hfields, id, hid, -, item, hitem, h⟩ := h
  rw [textAt_field (shape_dict hfields), safe_str hid, at_cons (shape_dict hfields) hitem]
  exact h

theorem scanEntries_copies {turnId : Option Text} {s s' : Items} {entries : List Value}
    (h : entries.foldlM (scanEntry depth intent turnId) s = some s') :
    (entries.map fun entry => (⟨(textAt entry ["turnId"]).getD [],
      (at? entry ["item"]).getD .null⟩ : Copy)).foldlM (scanCopy depth intent) s = some s' := by
  have hall := @foldlM_flatMap _ _ _ _ _ (scanCopy depth intent) id
    (fun entry => [⟨(textAt entry ["turnId"]).getD [], (at? entry ["item"]).getD .null⟩]) _ _ _
    (fun s entry s' _ hs => ?_) h
  · rwa [← List.map_eq_flatMap] at hall
  · rw [List.foldlM_cons, id, scanEntry_copy hs]
    rfl

/-- What the flag says of the chain. -/
theorem chained {cursor : Option Text} {q : Query}
    (h : (s.complete && !decide (cursor ≠ s.previousNext ∨
      s.previousQuery ≠ none ∧ (s.previousQuery ≠ some q ∨ s.previousNext = none))) = true) :
    s.complete = true ∧ cursor = s.previousNext ∧
      (s.previousQuery = none ∨ (s.previousQuery = some q ∧ s.previousNext ≠ none)) := by
  rw [Bool.and_eq_true, Bool.not_eq_true', decide_eq_false_iff_not] at h
  tauto

/-- A view that is not asked for is a summary. -/
theorem fullView_iff {fields : Fields} {view : Text}
    (h : oneOfOr fields "itemsView" "summary" itemsViews = some view) :
    view = text "full" ↔ strField fields "itemsView" = some (text "full") := by
  obtain hgiven | ⟨hnone, rfl⟩ := oneOfOr_cases h
  · rw [hgiven, Option.some.injEq]
  · rw [hnone]
    decide

theorem scanTurns_copies {full : Bool} {turns : List Value}
    (h : turns.foldlM (scanTurn depth intent full) s = some s') :
    (if full = true then turns.flatMap turnCopies else []).foldlM (scanCopy depth intent) s.items =
      some s'.items := by
  cases full with
  | true => exact scanTurns_items h
  | false =>
    rw [scanTurns_skip h]
    rfl

theorem readPage_cases (h : readPage depth intent s method params result = some s') :
    (pageCopies method params result).foldlM (scanCopy depth intent) s.items = some s'.items ∧
      ∃ q : Query, q.method = method ∧
        textAt params ["sortDirection"] = q.sortDirection ∧
        textAt params ["turnId"] = q.turnId ∧ textAt params ["itemsView"] = q.itemsView ∧
        s'.previousQuery = some q ∧ textAt result ["nextCursor"] = s'.previousNext ∧
        (s'.complete = true → s.complete = true ∧ textAt params ["cursor"] = s.previousNext ∧
          (s.previousQuery = none ∨ (s.previousQuery = some q ∧ s.previousNext ≠ none)) ∧
          (method ≠ text "thread/items/list" → q.itemsView = some (text "full") ∧
            ∀ turn ∈ listAt result ["data"], FullTurn turn)) := by
  simp only [readPage, Option.bind_eq_bind, Option.bind_eq_some_iff, guard_eq_some,
    exists_const] at h
  obtain ⟨params', hparams, -, result', hresult, data, hdata, cursor, hcursor, next, hnext, _, -,
    -, _, -, -, h⟩ := h
  have hp : ∀ key, textAt params [key] = strField params' key := fun key =>
    textAt_field (shape_dict hparams)
  have hlist : listAt result ["data"] = data := listAt_field (shape_dict hresult) hdata
  have hnext' : textAt result ["nextCursor"] = next := by
    rw [textAt_field (shape_dict hresult), cursorOf_str hnext]
  have hcursor' : textAt params ["cursor"] = cursor := by
    rw [textAt_field (shape_dict hparams), cursorOf_str hcursor]
  rw [hnext', hcursor', hp, hp, hp, hlist]
  split at h
  · rename_i hitems
    simp only [Option.bind_eq_some_iff, Option.pure_def, Option.some.injEq] at h
    obtain ⟨items, hscan, rfl⟩ := h
    refine ⟨?_, _, rfl, rfl, rfl, rfl, rfl, rfl, fun hc => ?_⟩
    · rw [pageCopies, if_pos hitems, hlist]
      exact scanEntries_copies hscan
    · obtain ⟨hold, hstart, hquery⟩ := chained hc
      exact ⟨hold, hstart, hquery, fun hne => absurd hitems hne⟩
  · rename_i hitems
    simp only [Option.bind_eq_some_iff] at h
    obtain ⟨view, hview, h⟩ := h
    obtain ⟨hnext, hquery, hcomplete⟩ := scanTurns_spec h
    refine ⟨?_, _, rfl, rfl, rfl, rfl, hquery, hnext.symm, fun hc => ?_⟩
    · have hcopies := scanTurns_copies h
      simp only [decide_eq_true_eq, fullView_iff hview] at hcopies
      rw [pageCopies, if_neg hitems, hp, hlist]
      exact hcopies
    · obtain ⟨hc, hturns⟩ := hcomplete hc
      rw [Bool.and_eq_true, decide_eq_true_eq] at hc
      obtain ⟨hold, hstart, hquery⟩ := chained hc.1
      exact ⟨hold, hstart, hquery, fun _ => ⟨(fullView_iff hview).mp hc.2, fun turn hturn =>
        (hturns turn hturn).2⟩⟩

/-- A read passes its parts on. -/
theorem auditRead_cases (h : auditRead depth intent single s read = some s') :
    (readCopies read).foldlM (scanCopy depth intent) s.items = some s'.items ∧
      (s'.complete = true → s.complete = true ∧
        ((single = true ∧ FullThread read ∧ s'.previousNext = s.previousNext) ∨
          ∃ q, FullPage q s.previousNext s'.previousNext read ∧ s'.previousQuery = some q ∧
            (s.previousQuery = none ∨ (s.previousQuery = some q ∧ s.previousNext ≠ none)))) := by
  simp only [auditRead, Option.bind_eq_bind, Option.bind_eq_some_iff, guard_eq_some,
    exists_const] at h
  obtain ⟨fields, hfields, request, ⟨rq, hrq, hrequest⟩, response, ⟨rs, hrs, hresponse⟩, _, -, -,
    -, method, hmethod, params, hparams, result, hresult, h⟩ := h
  have hat : ∀ path, at? read ("request" :: "params" :: path) = at? params path := fun path => by
    rw [at_cons (shape_dict hfields) hrq, at_cons (shape_dict hrequest) hparams]
  have hat' : ∀ path, at? read ("response" :: "result" :: path) = at? result path := fun path => by
    rw [at_cons (shape_dict hfields) hrs, at_cons (shape_dict hresponse) hresult]
  have hname : textAt read ["request", "method"] = some method := by
    rw [textAt, at_cons (shape_dict hfields) hrq, ← textAt, textAt_field (shape_dict hrequest),
      oneOf_str hmethod]
  have htext : ∀ path, textAt read ("request" :: "params" :: path) = textAt params path :=
    fun path => by rw [textAt, hat, textAt]
  have htext' : ∀ path, textAt read ("response" :: "result" :: path) = textAt result path :=
    fun path => by rw [textAt, hat', textAt]
  have hlist : ∀ path, listAt read ("response" :: "result" :: path) = listAt result path :=
    fun path => by rw [listAt, hat', listAt]
  split at h
  · rename_i hthread
    obtain ⟨hitems, hnext, -, hcomplete⟩ := readThread_cases h
    refine ⟨?_, fun hc => ?_⟩
    · simp only [readCopies, hname, hthread, if_true, hlist]
      exact hitems
    · obtain ⟨hold, hsingle, hmode, hfull⟩ := hcomplete hc
      refine ⟨hold, .inl ⟨hsingle, ⟨hname.trans (congrArg some hthread), ?_, ?_⟩, hnext⟩⟩
      · rwa [htext']
      · rwa [hlist]
  · rename_i hpage
    obtain ⟨hitems, q, hq, hsort, hturn, hview, hquery, hnext, hcomplete⟩ := readPage_cases h
    refine ⟨?_, fun hc => ?_⟩
    · simp only [readCopies, hname, Option.some.injEq, hpage, if_false, htext, hlist]
      exact hitems
    · obtain ⟨hold, hcursor, hchain, hfull⟩ := hcomplete hc
      refine ⟨hold, .inr ⟨q, ⟨hname.trans (congrArg some hq.symm), ?_, ?_, ?_, ?_, ?_, ?_⟩, hquery,
        hchain⟩⟩
      · exact (htext _).trans hsort
      · exact (htext _).trans hturn
      · exact (htext _).trans hview
      · exact (htext _).trans hcursor
      · exact (htext' _).trans hnext
      · by_cases hitems : method = text "thread/items/list"
        · exact .inl (hq.trans hitems)
        · have hturns : method = text "thread/turns/list" := by
            have hmem := oneOf_mem hmethod
            simp only [List.map_cons, List.map_nil, List.mem_cons, List.not_mem_nil,
              or_false] at hmem
            obtain hm | hm | hm := hmem
            · exact absurd hm hpage
            · exact hm
            · exact absurd hm hitems
          rw [hlist]
          exact .inr ⟨hq.trans hturns, hfull hitems⟩

theorem reads_copies {reads : List Value}
    (h : reads.foldlM (auditRead depth intent single) s = some s') :
    (reads.flatMap readCopies).foldlM (scanCopy depth intent) s.items = some s'.items :=
  foldlM_flatMap (π := AuditState.items) (fun _ _ _ _ hs => (auditRead_cases hs).1) h

/-- Several reads that are complete follow the pages of one list, the one that was begun. -/
theorem reads_follow {reads : List Value} (hne : reads ≠ [])
    (h : reads.foldlM (auditRead depth intent false) s = some s') (hc : s'.complete = true)
    (hend : s'.previousNext = none) : s.complete = true ∧ ∃ q, FollowsPages q s.previousNext reads ∧
      (s.previousQuery = none ∨ (s.previousQuery = some q ∧ s.previousNext ≠ none)) := by
  induction reads generalizing s with
  | nil => exact absurd rfl hne
  | cons read reads ih =>
    rw [List.foldlM_cons, Option.bind_eq_bind, Option.bind_eq_some_iff] at h
    obtain ⟨s₁, h₁, h₂⟩ := h
    have hread := (auditRead_cases h₁).2
    cases reads with
    | nil =>
      cases h₂
      obtain ⟨hold, ⟨hfalse, -⟩ | ⟨q, hpage, -, hquery⟩⟩ := hread hc
      · cases hfalse
      · rw [hend] at hpage
        exact ⟨hold, q, .last hpage, hquery⟩
    | cons read' reads =>
      obtain ⟨hc₁, q, hfollows, hbegun⟩ := ih (List.cons_ne_nil _ _) h₂
      obtain ⟨hold, ⟨hfalse, -⟩ | ⟨q₁, hpage, hquery₁, hquery⟩⟩ := hread hc₁
      · cases hfalse
      rw [hquery₁] at hbegun
      obtain hnone | ⟨hsame, hnext⟩ := hbegun
      · cases hnone
      cases hsame
      obtain ⟨next, hnext⟩ := Option.ne_none_iff_exists'.mp hnext
      rw [hnext] at hpage hfollows
      exact ⟨hold, q, .next hpage hfollows, hquery⟩

end Reads

/-! ## Audits -/

section Audits
variable {depth : Nat} {data : Value} {report : AuditReport}

/-- Two copies of an item agree. -/
structure Copy.Agrees (depth : Nat) (c c' : Copy) : Prop where
  identity : c.identity = c'.identity
  body : c.IsDelivery → ∃ v v', c.delivered depth = some v ∧ c'.delivered depth = some v' ∧
    canonical v = canonical v'

theorem normal_eq_str {v : Value} {s : Text} : normal v = .str s ↔ v = .str s := by
  cases v <;> simp [normal]

theorem IsDelivery.of_identity {c c' : Copy} (h : c.identity = c'.identity) (hd : c.IsDelivery) :
    c'.IsDelivery := by
  obtain ⟨hkind, hrest⟩ := Prod.mk.inj h
  obtain ⟨hname, -⟩ := Prod.mk.inj hrest
  refine ⟨hkind.symm.trans hd.1, ?_⟩
  obtain ⟨v, hv, hstr⟩ := Option.bind_eq_some_iff.mp hd.2
  have hvs : v = .str (text "g0_delivery") := by
    cases v <;> simp_all [Value.str?]
  rw [hv, Option.getD_some, hvs, normal, eq_comm, normal_eq_str] at hname
  rw [textAt]
  cases hat : at? c'.item ["name"] with
  | none => rw [hat] at hname; cases hname
  | some w =>
    rw [hat, Option.getD_some] at hname
    rw [hname]
    rfl

theorem Seen.agrees {intent : Value} {done : List Copy} {s : Items} (hs : Seen depth intent done s)
    {c c' : Copy} (hc : c ∈ done) (hc' : c' ∈ done) (hkey : c.key = c'.key) :
    c.Agrees depth c' := by
  obtain ⟨hturn, hitem⟩ := Prod.mk.inj hkey
  obtain ⟨id, i, hid, hof, hi⟩ := hs.identity c hc
  obtain ⟨id', i', hid', hof', hi'⟩ := hs.identity c' hc'
  obtain rfl : id = id' := by
    rw [hid, hid'] at hitem
    exact Option.some.inj hitem
  rw [hturn, hi'] at hi
  obtain rfl : i' = i := Option.some.inj hi
  have hidentity : c.identity = c'.identity := hof.trans hof'.symm
  refine ⟨hidentity, fun hd => ?_⟩
  obtain ⟨_, v, hv, hdel, hb⟩ := hs.body c hc hd
  obtain ⟨_, v', hv', hdel', hb'⟩ := hs.body c' hc' (IsDelivery.of_identity hidentity hd)
  rw [hid] at hv
  rw [hid'] at hv'
  cases hv
  cases hv'
  rw [hturn, hb'] at hb
  exact ⟨v, v', hdel, hdel', (Option.some.inj hb).symm⟩

/-- An accepted capture has been scanned from its first copy to its last. -/
theorem audit_cases (h : audit depth data = some report) : ∃ intent s,
    at? data ["intent"] = some intent.value ∧ envelope intent.value = some intent ∧
      (listAt data ["reads"]).foldlM (auditRead depth intent
        ((listAt data ["reads"]).length = 1)) { complete := !(listAt data ["reads"]).isEmpty } =
          some s ∧
      report.transportEvidence =
        (if s.items.matched ≠ [] then .exactHistoryMarker else .uncertain) ∧
      report.capturedPageChainComplete = (s.complete && s.previousNext = none) := by
  simp only [audit, Option.bind_eq_bind, Option.bind_eq_some_iff, guard_eq_some, exists_const,
    Option.pure_def, Option.some.injEq] at h
  obtain ⟨fields, hfields, -, intent, ⟨v, hv, hintent⟩, reads, hreads, _, -, s, hs, _, -, rfl⟩ := h
  have hlist : listAt data ["reads"] = reads := listAt_field (shape_dict hfields) hreads
  obtain ⟨rfl, -⟩ := envelope_value hintent
  rw [hlist]
  exact ⟨intent, s, at_cons (shape_dict hfields) hv, hintent, hs, rfl, rfl⟩

theorem audit_seen (h : audit depth data = some report) : ∃ intent s,
    at? data ["intent"] = some intent ∧ Seen depth intent (copies data) s ∧
      (report.transportEvidence = .exactHistoryMarker ↔ s.matched ≠ []) := by
  obtain ⟨intent, s, hintent, henvelope, hs, hevidence, -⟩ := audit_cases h
  have hempty : Seen depth intent.value [] ({} : Items) :=
    ⟨by simp, by simp, iff_of_false (fun hne => hne rfl) (by simp)⟩
  have hseen := hempty.scanAll henvelope (reads_copies hs)
  rw [List.nil_append] at hseen
  refine ⟨_, _, hintent, hseen, ?_⟩
  rw [hevidence]
  split
  · rename_i hne
    exact iff_of_true rfl hne
  · rename_i hne
    exact iff_of_false nofun hne

theorem complete_of_audit (h : audit depth data = some report)
    (hc : report.capturedPageChainComplete = true) : CompleteCapture data := by
  obtain ⟨intent, s, -, -, hs, -, hcomplete⟩ := audit_cases h
  rw [hcomplete, Bool.and_eq_true, decide_eq_true_eq] at hc
  obtain ⟨hc, hend⟩ := hc
  rw [CompleteCapture]
  generalize hreads : listAt data ["reads"] = reads at hs ⊢
  by_cases hsingle : reads.length = 1
  · obtain ⟨read, rfl⟩ := List.length_eq_one_iff.mp hsingle
    rw [List.foldlM_cons, Option.bind_eq_bind, Option.bind_eq_some_iff] at hs
    obtain ⟨s', hs', heq⟩ := hs
    cases heq
    obtain ⟨-, ⟨-, hthread, -⟩ | ⟨q, hpage, -⟩⟩ := (auditRead_cases hs').2 hc
    · exact .inl ⟨read, rfl, hthread⟩
    · rw [hend] at hpage
      exact .inr ⟨q, .last hpage⟩
  · rw [decide_eq_false hsingle] at hs
    cases reads with
    | nil =>
      cases hs
      cases hc
    | cons read reads =>
      obtain ⟨-, q, hfollows, -⟩ := reads_follow (List.cons_ne_nil _ _) hs hc hend
      exact .inr ⟨q, hfollows⟩

end Audits

/-- The evidence is that of the copies captured in full views, completeness is not claimed without
cause, and copies that disagree are refused. -/
theorem audit_exact (depth : Nat) (data : Value) :
    (∀ report, audit depth data = some report →
      (report.transportEvidence = .exactHistoryMarker ↔ ∃ intent,
        at? data ["intent"] = some intent ∧ ∃ c ∈ copies data, c.Delivers depth intent) ∧
      (report.capturedPageChainComplete = true → CompleteCapture data)) ∧
    ∀ c ∈ copies data, ∀ c' ∈ copies data, c.key = c'.key → ¬ c.Agrees depth c' →
      audit depth data = none := by
  refine ⟨fun report h => ⟨?_, complete_of_audit h⟩, fun c hc c' hc' hkey hnot => ?_⟩
  · obtain ⟨intent, s, hintent, hseen, hevidence⟩ := audit_seen h
    rw [hevidence, hseen.matched, hintent]
    simp
  · cases h : audit depth data with
    | none => rfl
    | some report =>
      obtain ⟨intent, s, -, hseen, -⟩ := audit_seen h
      exact absurd (hseen.agrees hc hc' hkey) hnot

/-! ## Two captures -/

def toyField (key : String) (v : Value) : Text × Value := (text key, v)

def toyStr (s : String) : Value := .str (text s)

def toyBody : Fields :=
  [toyField "version" (.int 1), toyField "delivery_id" (toyStr "d"),
    toyField "controller_thread_id" (toyStr "t"), toyField "controller_epoch" (.int 1),
    toyField "events" (.list [.dict [toyField "event_id" (toyStr "e"),
      toyField "event_revision" (.int 1), toyField "kind" (toyStr "result"),
      toyField "payload_hash" (.str (List.replicate 64 0x30)),
      toyField "action_slot" (toyStr "s")]])]

def toyIntent : Value :=
  .dict (toyBody ++ [toyField "payload_hash"
    (.str (sha256Hex ((encodeUtf8 (canonical (.dict toyBody))).getD [])))])

def toyRead (id : Int) (method : String) (params result : Value) : Value :=
  .dict [toyField "request" (.dict [toyField "id" (.int id), toyField "method" (toyStr method),
      toyField "params" params]),
    toyField "response" (.dict [toyField "id" (.int id), toyField "result" result])]

def toyCapture (reads : List Value) : Value :=
  .dict [toyField "version" (.int 1), toyField "intent" toyIntent, toyField "reads" (.list reads),
    toyField "acks" (.list [])]

def toyItem (kind : String) (more : Fields) : Value :=
  .dict (toyField "id" (toyStr "i") :: toyField "type" (toyStr kind) :: more)

def toyThread : Value := .dict [toyField "threadId" (toyStr "t")]

/-- The items of the thread are one output that shows the intent. -/
def shownCapture : Value := toyCapture [toyRead 1 "thread/items/list" toyThread
  (.dict [toyField "data" (.list [.dict [toyField "turnId" (toyStr "u"),
    toyField "item" (toyItem "functionCallOutput" [toyField "name" (toyStr "g0_delivery"),
      toyField "namespace" (toyStr "orchestration"),
      toyField "output" (.str (canonical toyIntent))])]])])]

theorem shown_is_reported : ∃ report, audit 100 shownCapture = some report ∧
    report.transportEvidence = .exactHistoryMarker ∧ CompleteCapture shownCapture := by
  have hfacts : (audit 100 shownCapture).any (fun report => report.capturedPageChainComplete) =
      true ∧ ((copies shownCapture).any fun c =>
        isStr (at? c.item ["type"]) (text "functionCallOutput") &&
          isStr (at? c.item ["name"]) (text "g0_delivery") &&
          (c.delivered 100).any (fun v => Equal v toyIntent)) = true := by decide +kernel
  obtain ⟨haudit, hcopies⟩ := hfacts
  obtain ⟨report, h, hcomplete⟩ := (Option.any_eq_true _ _).mp haudit
  obtain ⟨c, hc, hdelivers⟩ := List.any_eq_true.mp hcopies
  simp only [Bool.and_eq_true, isStr_iff] at hdelivers
  obtain ⟨v, hv, hequal⟩ := (Option.any_eq_true _ _).mp hdelivers.2
  obtain ⟨hevidence, hchain⟩ := (audit_exact 100 shownCapture).1 report h
  exact ⟨report, h, hevidence.mpr ⟨toyIntent, rfl, c, hc, hdelivers.1, v, hv,
    of_decide_eq_true hequal⟩, hchain hcomplete⟩

/-- The copies a read captured, whatever their view. -/
def capturedCopies (read : Value) : List Copy :=
  (listAt read ["response", "result", "data"]).flatMap fun entry =>
    match at? entry ["item"] with
    | some item => [⟨(textAt entry ["turnId"]).getD [], item⟩]
    | none => (listAt entry ["items"]).map fun item => ⟨(textAt entry ["id"]).getD [], item⟩

/-- A summary has another kind for an item than the list of items. -/
def summaryCapture : Value := toyCapture
  [toyRead 1 "thread/turns/list" toyThread (.dict [toyField "data" (.list [.dict [
      toyField "id" (toyStr "u"), toyField "status" (toyStr "completed"),
      toyField "itemsView" (toyStr "summary"),
      toyField "items" (.list [toyItem "agentMessage" []])]])]),
    toyRead 2 "thread/items/list" toyThread (.dict [toyField "data" (.list [.dict [
      toyField "turnId" (toyStr "u"), toyField "item" (toyItem "userMessage" [])]])])]

/-- The two copies are captured, and the audit accepts them. -/
theorem summary_may_disagree : (audit 100 summaryCapture).isSome = true ∧
    ∃ c ∈ (listAt summaryCapture ["reads"]).flatMap capturedCopies,
      ∃ c' ∈ (listAt summaryCapture ["reads"]).flatMap capturedCopies,
        c.key = c'.key ∧ c.identity ≠ c'.identity := by
  decide +kernel

end Orchestrator.Native
