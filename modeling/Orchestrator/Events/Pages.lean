import Orchestrator.Events.Ordered
import Orchestrator.Invariants.Gate
import Orchestrator.Library.Decimal
import Orchestrator.Library.Paging
import Mathlib.Data.List.Sort

/-!
# Reading page by page

The pages of a task are cuts of its rows in delivery order, so a reader that
follows the cursors sees every event that waits, each once and in its order.
-/
namespace Orchestrator.Store
open Library

/-! ## Cursors -/

section Cursors
variable {p : Platform} {taskId : String} {n : Nat} {value proof : List Char}

theorem splitLastDash_append (hproof : '-' ∉ proof) :
    splitLastDash (value ++ '-' :: proof) = some (value, proof) := by
  have hall : ∀ c ∈ proof.reverse, decide (c ≠ '-') = true := fun c hc =>
    decide_eq_true fun h => hproof (h ▸ List.mem_reverse.mp hc)
  have hrev : (value ++ '-' :: proof).reverse = proof.reverse ++ '-' :: value.reverse := by simp
  simp only [splitLastDash, hrev, List.takeWhile_append_of_pos hall,
    List.dropWhile_append_of_pos hall]
  simp

theorem parseOrdinal_toDigits (h : n ≤ maxInt64) : parseOrdinal (Nat.toDigits 10 n) = some n := by
  have hne : Nat.toDigits 10 n ≠ [] := Nat.toDigits_ne_nil
  have hdigits : parseDigits (Nat.toDigits 10 n) = some n := by
    have hof : Nat.ofDigitChars 10 (Nat.toDigits 10 n) 0 = n := Nat.ofDigitChars_ten_toDigits
    rw [parseDigits, hof, if_pos]
    exact ⟨hne, List.all_eq_true.mpr fun c => isDigit_of_mem, h⟩
  unfold parseOrdinal
  split
  · rename_i cs hcs
    have hplus : ('+' : Char).isDigit = true := isDigit_of_mem (hcs ▸ List.mem_cons_self)
    cases hplus
  · exact hdigits

/-- A cursor is read back as the ordinal it was made for. -/
theorem parse_deliveryCursor (hhash : ∀ x, '-' ∉ (p.runtimeHash x).toList) (hn : 1 ≤ n)
    (hle : n ≤ maxInt64) : p.parseDeliveryCursor taskId (p.deliveryCursor taskId n) = some n := by
  have htext : (p.deliveryCursor taskId n).toList = cursorPrefix ++ (Nat.toDigits 10 n ++
      '-' :: p.cursorProof taskId (Nat.toDigits 10 n)) := by
    rw [Platform.deliveryCursor, String.toList_ofList, List.append_assoc]
  have hne : p.deliveryCursor taskId n ≠ "" := by
    intro h
    rw [h] at htext
    cases htext
  have hproof : '-' ∉ p.cursorProof taskId (Nat.toDigits 10 n) := fun h =>
    hhash _ (List.mem_of_mem_take h)
  rw [Platform.parseDeliveryCursor, if_neg hne, htext, if_pos (List.prefix_append _ _),
    List.drop_left]
  simp only [Option.bind_eq_bind, Option.bind_some, splitLastDash_append hproof,
    if_pos (Nat.toDigits_ne_nil (b := 10) (n := n)), parseOrdinal_toDigits hle, and_true, if_pos hn]

end Cursors

/-! ## Rows -/

section Rows
variable {s : State} {taskId : String} {diag : Bool}

theorem nodup_deliverable (h : Ordered s) : ((s.deliverable taskId diag).map Prod.fst).Nodup := by
  have hkeys : ∀ {α : Type} {key : α → String} (t : Table key) (q : α → Bool),
      ((t.rows.filter q).map key).Nodup := fun t q => t.keyed.sublist (List.filter_sublist.map _)
  rw [State.deliverable, List.map_append, List.map_map, List.map_map, List.nodup_append]
  refine ⟨hkeys s.runtimeEvents _, hkeys s.reportEvents _, ?_⟩
  intro a ha b hb heq
  obtain ⟨r, hr, rfl⟩ := List.mem_map.mp ha
  obtain ⟨q, hq, rfl⟩ := List.mem_map.mp hb
  simp only [List.mem_filter, Bool.and_eq_true, decide_eq_true_eq] at hr hq
  refine h.apart r hr.1 hr.2.2 q hq.1 ?_ heq
  have := hq.2.1
  cases diag <;> simp_all [ReportEvent.deliverable]

/-- At most one event is joined to a place. -/
theorem joined_sublist (h : Ordered s) (o : DeliveryOrder) :
    ((((s.deliverable taskId diag).filter (fun x => x.1 = o.eventId)).map
      (fun x => (⟨o.ordinal, x.2⟩ : PendingRow))).map PendingRow.ordinal).Sublist [o.ordinal] := by
  have hone : ((s.deliverable taskId diag).filter (fun x => x.1 = o.eventId)).length ≤ 1 := by
    have hnodup : ((s.deliverable taskId diag).map Prod.fst).Nodup := nodup_deliverable h
    have hcount := List.nodup_iff_count_le_one.mp hnodup o.eventId
    rw [List.count_eq_countP, List.countP_map, List.countP_eq_length_filter] at hcount
    exact hcount
  generalize (s.deliverable taskId diag).filter (fun x => x.1 = o.eventId) = joined at hone ⊢
  cases joined with
  | nil => exact List.nil_sublist _
  | cons x rest =>
    obtain rfl : rest = [] :=
      List.length_eq_zero_iff.mp (Nat.le_zero.mp (Nat.le_of_succ_le_succ hone))
    exact List.Sublist.refl _

/-- The rows of a task stand in the order of their ordinals, no two of one. -/
theorem pendingRows_sorted (h : Ordered s) :
    ((s.pendingRows taskId diag).map PendingRow.ordinal).Pairwise (· < ·) := by
  have hsub : ∀ order : List DeliveryOrder, (((order.flatMap fun o =>
      ((s.deliverable taskId diag).filter (fun x => x.1 = o.eventId)).map
        (fun x => (⟨o.ordinal, x.2⟩ : PendingRow))).map PendingRow.ordinal).Sublist
          (order.map DeliveryOrder.ordinal)) := by
    intro order
    induction order with
    | nil => exact List.Sublist.refl _
    | cons o order ih =>
      rw [List.flatMap_cons, List.map_append, List.map_cons, ← List.singleton_append]
      exact (joined_sublist h o).append ih
  have hplaces : (s.deliveryOrder.rows.map DeliveryOrder.ordinal).Pairwise (· < ·) := by
    rw [h.numbered]
    exact List.pairwise_lt_range'
  have hjoined := hplaces.sublist ((hsub (s.deliveryOrder.rows.filter fun o =>
    o.taskId = taskId)).trans (List.filter_sublist.map DeliveryOrder.ordinal))
  rw [State.pendingRows, List.Pairwise.insertionSort_eq]
  · exact hjoined
  · exact (List.pairwise_map.mp hjoined).imp fun hlt => le_of_lt hlt

theorem mem_pendingRows {row : PendingRow} : row ∈ s.pendingRows taskId diag ↔
    ∃ o ∈ s.deliveryOrder, o.taskId = taskId ∧ o.ordinal = row.ordinal ∧
      (o.eventId, row.event) ∈ s.deliverable taskId diag := by
  simp only [State.pendingRows, List.mem_insertionSort, List.mem_flatMap, List.mem_filter,
    List.mem_map, decide_eq_true_eq]
  constructor
  · rintro ⟨o, ⟨ho, htask⟩, x, ⟨hx, hid⟩, rfl⟩
    exact ⟨o, ho, htask, rfl, hid ▸ hx⟩
  · rintro ⟨o, ho, htask, hord, hx⟩
    refine ⟨o, ⟨ho, htask⟩, _, ⟨hx, rfl⟩, ?_⟩
    rw [hord]

end Rows

/-! ## Pages -/

def PageBuffer.page (b : PageBuffer) : Page PendingRow Nat := ⟨b.rows, b.next⟩

section Pages
variable {p : Platform} {limit : Nat} {b : PageBuffer} {rows : List PendingRow}

/-- What a page takes, and when it says that rows are left. -/
theorem fillPage_spec (rows : List PendingRow) (hlimit : 1 ≤ limit) (hopen : b.next = none)
    (hle : b.rows.length ≤ limit) :
    ∃ taken, taken <+: rows ∧ (p.fillPage limit b rows).rows = b.rows ++ taken ∧
      (p.fillPage limit b rows).rows.length ≤ limit ∧
      (((p.fillPage limit b rows).next = none ∧ taken = rows) ∨
        ∃ row, (p.fillPage limit b rows).rows.getLast? = some row ∧
          (p.fillPage limit b rows).next = some row.ordinal) := by
  induction rows generalizing b with
  | nil => exact ⟨[], List.prefix_rfl, (List.append_nil _).symm, hle, .inl ⟨hopen, rfl⟩⟩
  | cons row rows ih =>
    unfold Platform.fillPage
    split
    · rename_i hfull
      refine ⟨[], List.nil_prefix, (List.append_nil _).symm, hle, .inr ?_⟩
      have hpos : 0 < b.rows.length := by
        obtain hfull | ⟨hpos, -⟩ := hfull
        · exact Nat.lt_of_lt_of_le hlimit hfull
        · exact hpos
      obtain ⟨last, hlast⟩ := List.getLast?_isSome.mpr (List.ne_nil_of_length_pos hpos) |>
        Option.isSome_iff_exists.mp
      exact ⟨last, hlast, by rw [PageBuffer.lastOrdinal, hlast]; rfl⟩
    · rename_i hroom
      have hlt : b.rows.length < limit := by
        by_contra hle'
        exact hroom (.inl (not_lt.mp hle'))
      obtain ⟨taken, hpre, hrows, hlen, hend⟩ := ih (b := { b with
        rows := b.rows ++ [row]
        bytes := b.bytes + p.encodedLen row.event + 1 }) hopen (by
        rw [List.length_append]
        exact hlt)
      refine ⟨row :: taken, List.cons_prefix_cons.mpr ⟨rfl, hpre⟩, ?_, hlen, ?_⟩
      · rw [hrows, List.append_assoc, List.singleton_append]
      · exact hend.imp_left fun ⟨hnone, htaken⟩ => ⟨hnone, by rw [htaken]⟩

theorem one_le_pageLimit (limit : Int) : 1 ≤ pageLimit limit := by
  unfold pageLimit
  split
  · decide
  · omega

/-- A page is a cut of the rows above its cursor. -/
theorem collectPage_cuts {s : State} (taskId : String) (ordinal : Nat) (limit : Int) (diag : Bool)
    (h : Ordered s) : (p.collectPage s taskId ordinal limit diag).page.Cuts PendingRow.ordinal
      ((s.pendingRows taskId diag).filter fun row => ordinal < row.ordinal) := by
  have hsorted : (((s.pendingRows taskId diag).filter
      fun row => ordinal < row.ordinal).map PendingRow.ordinal).Pairwise (· < ·) :=
    (pendingRows_sorted h).sublist (List.filter_sublist.map _)
  obtain ⟨taken, hpre, hrows, hlen, hend⟩ := fillPage_spec (p := p)
    (b := {}) (((s.pendingRows taskId diag).filter
      fun row => ordinal < row.ordinal).take (pageLimit limit + 1)) (one_le_pageLimit limit) rfl
      (Nat.zero_le _)
  rw [List.nil_append] at hrows
  have hcut : (p.collectPage s taskId ordinal limit diag).page.rows = taken := hrows
  have hfirst : taken <+: (s.pendingRows taskId diag).filter fun row => ordinal < row.ordinal :=
    hpre.trans (List.take_prefix _ _)
  refine ⟨?_, fun hnone => ?_, fun n hn => ?_⟩
  · exact hcut ▸ hfirst
  · -- had rows been left behind the look-ahead row, the page would be over its limit
    obtain ⟨-, htaken⟩ | ⟨row, -, hnext⟩ := hend
    · refine hcut.trans (htaken.trans (List.take_of_length_le ?_))
      have hlen' : taken.length ≤ pageLimit limit := by
        rw [← hrows]
        exact hlen
      rw [htaken, List.length_take] at hlen'
      omega
    · rw [PageBuffer.page, Platform.collectPage, hnext] at hnone
      cases hnone
  · obtain ⟨hnone, -⟩ | ⟨row, hlast, hnext⟩ := hend
    · rw [PageBuffer.page, Platform.collectPage, hnone] at hn
      cases hn
    · rw [PageBuffer.page, Platform.collectPage, hnext, Option.some.injEq] at hn
      have hm : row ∈ taken := hrows ▸ List.mem_of_getLast? hlast
      refine ⟨row, hcut ▸ hm, hn, fun b hb => ?_⟩
      have hb' : b ∈ taken := hcut ▸ hb
      have htaken : (taken.map PendingRow.ordinal).Pairwise (· < ·) :=
        hsorted.sublist (hfirst.sublist.map _)
      obtain ⟨before, hbefore⟩ := List.getLast?_eq_some_iff.mp (hrows ▸ hlast)
      rw [hbefore, List.map_append, List.pairwise_append] at htaken
      rw [hbefore, List.mem_append, List.mem_singleton] at hb'
      rw [← hn]
      obtain hb' | rfl := hb'
      · exact le_of_lt (htaken.2.2 b.ordinal (List.mem_map_of_mem hb') row.ordinal (by simp))
      · exact le_refl _

end Pages

/-! ## Readers -/

/-- What happens before a page is read, and the limit it is read with. -/
structure PageRead where
  ops : List Op
  limit : Int

/-- The pages a reader gets that follows the cursors, each with the state it was read from. -/
def DB.follow (d : DB) (taskId : String) (diag : Bool) :
    State → String → List PageRead → List (State × PageBuffer)
  | _, _, [] => []
  | s, cursor, r :: reads =>
    match d.collectRows (d.run s r.ops) taskId cursor r.limit diag with
    | none => []
    | some page => (d.run s r.ops, page) ::
      match page.next with
      | none => []
      | some _ => d.follow taskId diag (d.run s r.ops) (d.nextCursor taskId page) reads

/-- The last page carries no cursor. -/
def Finished (chain : List (State × PageBuffer)) : Prop :=
  ∃ r, chain.getLast? = some r ∧ r.2.next = none

section Readers
variable {d : DB} {limits : ConcurrencyLimits} {taskId cursor : String} {diag : Bool} {s : State}
  {start : Nat} {reads : List PageRead}

def snapshot (taskId : String) (diag : Bool) (r : State × PageBuffer) :
    List PendingRow × Page PendingRow Nat :=
  (r.1.pendingRows taskId diag, r.2.page)

theorem ended_snapshot (taskId : String) (diag : Bool) {chain : List (State × PageBuffer)} :
    Ended (chain.map (snapshot taskId diag)) ↔ Finished chain := by
  rw [Ended, Finished, List.getLast?_map]
  constructor
  · rintro ⟨r, hr, hnone⟩
    obtain ⟨x, hx, rfl⟩ := Option.map_eq_some_iff.mp hr
    exact ⟨x, hx, hnone⟩
  · rintro ⟨x, hx, hnone⟩
    exact ⟨_, by rw [hx]; rfl, hnone⟩

theorem ordinal_bounds (h : Ordered s) {row : PendingRow} (hrow : row ∈ s.pendingRows taskId diag) :
    1 ≤ row.ordinal ∧ row.ordinal ≤ s.deliveryOrder.rows.length := by
  obtain ⟨o, ho, -, hord, -⟩ := mem_pendingRows.mp hrow
  have hm : o.ordinal ∈ s.deliveryOrder.rows.map DeliveryOrder.ordinal := List.mem_map_of_mem ho
  rw [h.numbered, List.mem_range'_1, hord] at hm
  omega

/-- A reader reads cuts, each from where the one before it ended, and is never turned away. -/
theorem follow_reads (diag : Bool) (hhash : ∀ x, '-' ∉ (d.runtimeHash x).toList)
    (hr : d.Reachable limits s)
    (hcursor : d.parseDeliveryCursor taskId cursor = some start)
    (hfit : (d.run s (reads.flatMap PageRead.ops)).deliveryOrder.rows.length ≤ maxInt64) :
    Reads PendingRow.ordinal start
      ((d.follow taskId diag s cursor reads).map (snapshot taskId diag)) ∧
      (∀ r ∈ d.follow taskId diag s cursor reads, d.Reachable limits r.1 ∧
        r.1.deliveryOrder.rows <+:
        (d.run s (reads.flatMap PageRead.ops)).deliveryOrder.rows) ∧
      (¬ Finished (d.follow taskId diag s cursor reads) →
        (d.follow taskId diag s cursor reads).length = reads.length) := by
  induction reads generalizing s cursor start with
  | nil => exact ⟨.nil _, fun r hr => absurd hr List.not_mem_nil, fun _ => rfl⟩
  | cons r reads ih =>
    have hr' := reachable_run hr r.ops
    have hordered := ordered_of_reachable hr'
    have hrows : d.collectRows (d.run s r.ops) taskId cursor r.limit diag =
        some (d.collectPage (d.run s r.ops) taskId start r.limit diag) := by
      rw [Platform.collectRows, hcursor, Option.map_some]
    have hcuts := collectPage_cuts (p := d.toPlatform) taskId start r.limit diag hordered
    rw [List.flatMap_cons, DB.run, run_append] at hfit ⊢
    have hplaces : (d.run s r.ops).deliveryOrder.rows <+:
        (d.run (d.run s r.ops) (reads.flatMap PageRead.ops)).deliveryOrder.rows := places_run _
    simp only [DB.follow, hrows]
    generalize hpage : d.collectPage (d.run s r.ops) taskId start r.limit diag = page at hcuts
    cases hn : page.next with
    | none =>
      refine ⟨.last hcuts hn, fun x hx => ?_, fun hopen => absurd ⟨_, rfl, hn⟩ hopen⟩
      obtain rfl := List.mem_singleton.mp hx
      exact ⟨hr', hplaces⟩
    | some n =>
      obtain ⟨row, hrow, hord, -⟩ := hcuts.last n hn
      have hm : row ∈ (d.run s r.ops).pendingRows taskId diag :=
        List.mem_of_mem_filter (hcuts.head.subset hrow)
      obtain ⟨hpos, hle⟩ := ordinal_bounds hordered hm
      rw [hord] at hpos hle
      have hnext : d.parseDeliveryCursor taskId (d.nextCursor taskId page) = some n := by
        rw [Platform.nextCursor, hn, Option.map_some, Option.getD_some]
        exact parse_deliveryCursor hhash hpos (hle.trans (hplaces.length_le.trans hfit))
      obtain ⟨hreads, hall, hlen⟩ := ih hr' hnext hfit
      refine ⟨.next hcuts hn hreads, fun x hx => ?_, fun hopen => ?_⟩
      · obtain rfl | hx := List.mem_cons.mp hx
        · exact ⟨hr', hplaces⟩
        · exact hall x hx
      · rw [List.length_cons, List.length_cons, hlen fun hend => hopen ?_]
        rw [← ended_snapshot taskId diag] at hend ⊢
        exact (ended_cons hn).mpr hend

/-- Rising ordinals name one row each. -/
theorem filter_ordinal {rows : List PendingRow} {row : PendingRow} {n : Nat}
    (hrising : (rows.map PendingRow.ordinal).Pairwise (· < ·)) (hrow : row ∈ rows)
    (hn : row.ordinal = n) : rows.filter (fun row => row.ordinal = n) = [row] := by
  have hnodup : (rows.map PendingRow.ordinal).Nodup := hrising.imp fun h => ne_of_lt h
  have hrows : rows.Nodup := List.Nodup.of_map _ hnodup
  refine List.perm_singleton.mp ((List.perm_ext_iff_of_nodup (hrows.filter _)
    (List.nodup_singleton row)).mpr fun x => ?_)
  rw [List.mem_filter, List.mem_singleton, decide_eq_true_eq]
  constructor
  · rintro ⟨hx, hord⟩
    exact List.inj_on_of_nodup_map hnodup hx hrow (hord.trans hn.symm)
  · rintro rfl
    exact ⟨hrow, hn⟩

/-- A page shows rows of the state it was read from. -/
theorem page_subset {cursor : Nat} {chain : List (State × PageBuffer)}
    (h : Reads PendingRow.ordinal cursor (chain.map (snapshot taskId diag)))
    {r : State × PageBuffer}
    (hr : r ∈ chain) {row : PendingRow} (hrow : row ∈ r.2.rows) :
    row ∈ r.1.pendingRows taskId diag :=
  h.subset (List.mem_map_of_mem hr) hrow

/-- What may be delivered has a place. -/
theorem placed_of_deliverable (h : Ordered s) (hb : Bound s) :
    (∀ r ∈ s.runtimeEvents, r.taskId = taskId → r.deliveryStatus = .pending →
      ∃ o ∈ s.deliveryOrder, o.eventId = r.eventId ∧ o.taskId = taskId ∧
        (o.eventId, r.delivered) ∈ s.deliverable taskId diag) ∧
    ∀ r ∈ s.reportEvents, r.body.taskId = taskId → r.deliverable diag = true →
      ∃ o ∈ s.deliveryOrder, o.eventId = r.eventId ∧ o.taskId = taskId ∧
        (o.eventId, r.delivered) ∈ s.deliverable taskId diag := by
  constructor
  · intro r hr htask hst
    obtain ⟨o, ho, hid, hot⟩ := h.runtime r hr hst
    refine ⟨o, ho, hid, hot.trans htask, List.mem_append_left _ (List.mem_map.mpr ⟨r, ?_, ?_⟩)⟩
    · exact List.mem_filter.mpr ⟨hr, by simp [htask, hst]⟩
    · rw [hid]
  · intro r hr htask hdel
    have hany : r.deliverable true = true := by
      cases diag <;> simp_all [ReportEvent.deliverable]
    obtain ⟨o, ho, hid, hot⟩ := h.reports r hr hany
    obtain ⟨c, hc, hcid, -, hct, -⟩ := hb.reports r hr
    refine ⟨o, ho, hid, hot.trans htask, List.mem_append_right _ (List.mem_map.mpr ⟨r, ?_, ?_⟩)⟩
    · refine List.mem_filter.mpr ⟨hr, ?_⟩
      rw [hdel, ← hcid, Table.find?_of_mem hc, Bool.true_and, Option.any_some, decide_eq_true_eq]
      exact hct.symm.trans htask
    · rw [hid]

end Readers

/-- Whatever is committed and acknowledged between the reads: the pages show rising ordinals above
the start; every event that waits with such an ordinal all along is shown once; no read is
turned away; and the reader comes to the end, unless events go on being committed. -/
theorem pages_exact (d : DB) (limits : ConcurrencyLimits)
    (hhash : ∀ x, '-' ∉ (d.runtimeHash x).toList) (ops : List Op) (taskId cursor : String)
    (diag : Bool) (start : Nat) (hcursor : d.parseDeliveryCursor taskId cursor = some start)
    (reads : List PageRead)
    (hfit : (d.run (d.run (State.fresh limits) ops)
      (reads.flatMap PageRead.ops)).deliveryOrder.rows.length ≤ maxInt64)
    (chain : List (State × PageBuffer))
    (hchain : chain = d.follow taskId diag (d.run (State.fresh limits) ops) cursor reads) :
    ((chain.flatMap fun r => r.2.rows).map PendingRow.ordinal).Pairwise (· < ·) ∧
    (∀ row ∈ chain.flatMap fun r => r.2.rows, start < row.ordinal) ∧
    (Finished chain → ∀ o : DeliveryOrder, o.taskId = taskId → start < o.ordinal →
      (∀ r ∈ chain, o ∈ r.1.deliveryOrder ∧
        ∃ e, (o.eventId, e) ∈ r.1.deliverable taskId diag) →
      ∃ row, (chain.flatMap fun r => r.2.rows).filter (fun row => row.ordinal = o.ordinal) = [row] ∧
        ∃ r ∈ chain, (o.eventId, row.event) ∈ r.1.deliverable taskId diag) ∧
    (∀ r ∈ chain, (∀ x ∈ r.1.runtimeEvents, x.taskId = taskId → x.deliveryStatus = .pending →
        ∃ o ∈ r.1.deliveryOrder, o.eventId = x.eventId ∧ o.taskId = taskId ∧
          (o.eventId, x.delivered) ∈ r.1.deliverable taskId diag) ∧
      ∀ x ∈ r.1.reportEvents, x.body.taskId = taskId → x.deliverable diag = true →
        ∃ o ∈ r.1.deliveryOrder, o.eventId = x.eventId ∧ o.taskId = taskId ∧
          (o.eventId, x.delivered) ∈ r.1.deliverable taskId diag) ∧
    (¬ Finished chain → chain.length = reads.length) ∧
    ∀ before after, reads = before ++ after →
      (∀ r ∈ after, ∀ op ∈ r.ops, op.commits = false) →
      (d.run (d.run (State.fresh limits) ops)
        (before.flatMap PageRead.ops)).deliveryOrder.rows.length - start < reads.length →
      Finished chain := by
  have hr : d.Reachable limits (d.run (State.fresh limits) ops) := ⟨ops, rfl⟩
  obtain ⟨hreads, hstates, hlen⟩ := follow_reads diag hhash hr hcursor hfit
  rw [← hchain] at hreads hstates hlen
  have hseen : seen (chain.map (snapshot taskId diag)) = chain.flatMap fun r => r.2.rows := by
    rw [seen, List.flatMap_map]
    rfl
  have hsorted : ∀ r ∈ chain.map (snapshot taskId diag),
      (r.1.map PendingRow.ordinal).Pairwise (· < ·) := by
    intro r hm
    obtain ⟨x, hx, rfl⟩ := List.mem_map.mp hm
    exact pendingRows_sorted (ordered_of_reachable (hstates x hx).1)
  have hrising := hreads.increasing hsorted
  rw [hseen] at hrising
  refine ⟨hrising, fun row hrow => hreads.above (hseen ▸ hrow),
    fun hend o htask hstart hwaits => ?_,
    fun r hm => ?_, hlen, fun before after hsplit hquiet hlong => ?_⟩
  · have hkeys : ∀ r ∈ chain.map (snapshot taskId diag), ∃ row ∈ r.1, row.ordinal = o.ordinal := by
      intro r hm
      obtain ⟨x, hx, rfl⟩ := List.mem_map.mp hm
      obtain ⟨ho, e, he⟩ := hwaits x hx
      exact ⟨⟨o.ordinal, e⟩, mem_pendingRows.mpr ⟨o, ho, htask, rfl, he⟩, rfl⟩
    obtain ⟨row, hrow, hord⟩ :=
      hreads.complete ((ended_snapshot taskId diag).mpr hend) hsorted hstart hkeys
    rw [hseen] at hrow
    refine ⟨row, filter_ordinal hrising hrow hord, ?_⟩
    obtain ⟨r, hm, hrm⟩ := List.mem_flatMap.mp hrow
    obtain ⟨ho, -⟩ := hwaits r hm
    obtain ⟨o', ho', -, hord', he⟩ := mem_pendingRows.mp (page_subset hreads hm hrm)
    have hordered := ordered_of_reachable (hstates r hm).1
    have hplaces : (r.1.deliveryOrder.rows.map DeliveryOrder.ordinal).Nodup := by
      rw [hordered.numbered]
      exact List.nodup_range'
    obtain rfl : o' = o := List.inj_on_of_nodup_map hplaces ho' ho (hord'.trans hord)
    exact ⟨r, hm, he⟩
  · exact placed_of_deliverable (ordered_of_reachable (hstates r hm).1)
      (bound_of_reachable (hstates r hm).1)
  · by_contra hopen
    have hquietRun : (d.run (d.run (State.fresh limits) ops)
        (reads.flatMap PageRead.ops)).deliveryOrder =
        (d.run (d.run (State.fresh limits) ops) (before.flatMap PageRead.ops)).deliveryOrder := by
      rw [hsplit, List.flatMap_append, DB.run, run_append]
      refine order_run _ fun op hop => ?_
      obtain ⟨r, hm, hop⟩ := List.mem_flatMap.mp hop
      exact hquiet r hm op hop
    rw [← hquietRun, ← hlen hopen] at hlong
    have hpass := hreads.length_le (max start (d.run (d.run (State.fresh limits) ops)
      (reads.flatMap PageRead.ops)).deliveryOrder.rows.length)
      (fun hend => hopen ((ended_snapshot taskId diag).mp hend)) (le_max_left _ _)
      fun r hm row hrow => ?_
    · rw [List.length_map] at hpass
      omega
    · obtain ⟨x, hx, rfl⟩ := List.mem_map.mp hm
      have hbounds := ordinal_bounds (ordered_of_reachable (hstates x hx).1) hrow
      exact (hbounds.2.trans (hstates x hx).2.length_le).trans (le_max_right _ _)

/-- Two events wait and are read one a page. -/
def waitingOps : List Op :=
  toyStart [toyTask "a" 1 []] ++ [toyClaim 11, toyCommit "a" 11 1 .result,
    toyCommit "a" 11 2 .unknown]

theorem hexDigits_ne_dash {k n : Nat} : '-' ∉ hexDigits k n := by
  have hdigit : ∀ m < 16, hexDigit m ≠ '-' := by decide
  induction k generalizing n with
  | zero => exact List.not_mem_nil
  | succ k ih =>
    rw [hexDigits, List.mem_cons, not_or]
    exact ⟨(hdigit _ (Nat.mod_lt _ (by omega))).symm, ih⟩

theorem toyDigest_ne_dash (text : String) : '-' ∉ (toyDigest text).toList := by
  rw [toyDigest, String.toList_ofList]
  exact hexDigits_ne_dash

def waitingReads : List PageRead :=
  [⟨[], 1⟩, ⟨[], 1⟩, ⟨[], 1⟩]

def waitingChain : List (State × PageBuffer) :=
  toyDB.follow "a" false (toyDB.run (State.fresh {}) waitingOps) "" waitingReads

theorem waiting_read :
    (waitingChain.map fun r => r.2.rows.map PendingRow.ordinal) = [[1], [2]] ∧
    Finished waitingChain ∧
    ((waitingChain.flatMap fun r => r.2.rows).map PendingRow.ordinal).Pairwise (· < ·) := by
  have hfacts : (waitingChain.map fun r => r.2.rows.map PendingRow.ordinal) = [[1], [2]] ∧
      (toyDB.run (toyDB.run (State.fresh {}) waitingOps)
        (waitingReads.flatMap PageRead.ops)).deliveryOrder.rows.length ≤ maxInt64 ∧
      (toyDB.run (toyDB.run (State.fresh {}) waitingOps)
        (([] : List PageRead).flatMap PageRead.ops)).deliveryOrder.rows.length - 0 <
          waitingReads.length := by
    decide +kernel
  obtain ⟨hpages, hfit, hlong⟩ := hfacts
  have hcursor : toyDB.parseDeliveryCursor "a" "" = some 0 := if_pos rfl
  have hquiet : ∀ r ∈ waitingReads, ∀ op ∈ r.ops, op.commits = false := by
    intro r hr op hop
    obtain rfl : r = ⟨[], 1⟩ := by simpa [waitingReads] using hr
    exact absurd hop List.not_mem_nil
  obtain ⟨hrising, -, -, -, -, hends⟩ := pages_exact toyDB {} toyDigest_ne_dash waitingOps "a" ""
    false 0 hcursor waitingReads hfit waitingChain rfl
  exact ⟨hpages, hends [] waitingReads rfl hquiet hlong, hrising⟩

end Orchestrator.Store
