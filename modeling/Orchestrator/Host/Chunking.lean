import Orchestrator.Host.Bounded

/-!
# How writes cut a line

A line that is too long is refused if a write has shown a marker, or a first brace, of it. What a
write shows depends on where it is cut: a marker is looked for in a chunk and the 128 bytes before
it, and white space of several bytes is none when it is cut.
-/
namespace Orchestrator.Host
open Adapter

/-! ## Windows -/

/-- A marker stands in so many bytes in a row. -/
def hasWindow (n : Nat) (bs : List UInt8) : Bool := bs.tails.any fun rest => hasMarker (rest.take n)

section Windows
variable {n m : Nat} {bs probe probe' chunk : List UInt8} {chunks : List (List UInt8)} {b : Buffer}

theorem hasMarker_mono (h : probe <:+: probe') (hm : hasMarker probe = true) :
    hasMarker probe' = true := by
  simp only [hasMarker, List.any_eq_true, decide_eq_true_eq] at hm ⊢
  obtain ⟨marker, hmarker, hin⟩ := hm
  exact ⟨marker, hmarker, hin.trans (h.filter _)⟩

theorem hasMarker_ne_nil (hm : hasMarker probe = true) : probe ≠ [] := by
  rintro rfl
  revert hm
  decide

theorem hasWindow_iff : hasWindow n bs = true ↔
    ∃ probe, probe <:+: bs ∧ probe.length ≤ n ∧ hasMarker probe = true := by
  simp only [hasWindow, List.any_eq_true, List.mem_tails]
  constructor
  · rintro ⟨rest, hrest, hm⟩
    exact ⟨rest.take n, (List.take_prefix _ _).isInfix.trans hrest.isInfix, by simp, hm⟩
  · rintro ⟨probe, ⟨s, t, rfl⟩, hlen, hm⟩
    refine ⟨probe ++ t, ⟨s, by simp⟩, hasMarker_mono ?_ hm⟩
    rw [List.take_append, List.take_of_length_le hlen]
    exact (List.prefix_append _ _).isInfix

theorem hasWindow_mono (h : probe <:+: bs) (hle : n ≤ m) (hw : hasWindow n probe = true) :
    hasWindow m bs = true := by
  obtain ⟨w, hin, hlen, hm⟩ := hasWindow_iff.mp hw
  exact hasWindow_iff.mpr ⟨w, hin.trans h, hlen.trans hle, hm⟩

/-- A short piece of a line that goes on is a piece of what was there, or of its end and the
rest. -/
theorem infix_append_cases {w : List UInt8} (h : w <:+: bs ++ chunk) (hlen : w.length ≤ 129) :
    w <:+: bs ∨ w <:+: bs.drop (bs.length - 128) ++ chunk := by
  obtain ⟨x, y, hxy⟩ := h
  by_cases hin : x.length + w.length ≤ bs.length
  · left
    have hahead : x ++ w <+: bs := by
      have hall : x ++ w <+: bs ++ chunk := hxy ▸ List.prefix_append _ _
      exact List.prefix_of_prefix_length_le hall (List.prefix_append _ _) (by simpa using hin)
    exact ((List.suffix_append x w).isInfix).trans hahead.isInfix
  · right
    have hle : bs.length - 128 ≤ x.length := by omega
    rw [← List.drop_append_of_le_length (Nat.sub_le _ _), ← hxy, List.append_assoc,
      List.drop_append_of_le_length hle]
    exact ⟨x.drop (bs.length - 128), y, by simp⟩

/-! ## What the chunks of a line show -/

/-- What chunks of at most `n` bytes have shown of a line. -/
structure Looked (n : Nat) (bs : List UInt8) (b : Buffer) : Prop where
  tail : b.markerTail = bs.drop (bs.length - 128)
  narrow : hasWindow 129 bs = true → b.critical = true
  wide : b.critical = true → hasWindow (128 + n) bs = true

theorem Looked.empty (n : Nat) : Looked n [] {} :=
  ⟨rfl, fun h => by
    obtain ⟨w, hin, -, hm⟩ := hasWindow_iff.mp h
    rw [List.infix_nil] at hin
    exact absurd hin (hasMarker_ne_nil hm), nofun⟩

theorem Looked.consumeChunk (h : Looked n bs b) (hchunk : chunk.length ≤ n) :
    Looked n (bs ++ chunk) (b.consumeChunk chunk) := by
  obtain ⟨-, -, hcritical, htail⟩ := @consumeChunk_observe chunk b
  have hprobe : b.markerTail ++ chunk = (bs ++ chunk).drop (bs.length - 128) := by
    rw [h.tail, List.drop_append_of_le_length (Nat.sub_le _ _)]
  have hcritical' : (b.consumeChunk chunk).critical =
      (b.critical || hasMarker (b.markerTail ++ chunk)) := hcritical
  refine ⟨?_, fun hw => ?_, fun hc => ?_⟩
  · rw [htail]
    simp only [Buffer.observe]
    have hlast : bs.length - 128 + (bs.length + chunk.length - (bs.length - 128) - 128) =
        bs.length + chunk.length - 128 := by omega
    rw [hprobe, List.drop_drop, List.length_drop, List.length_append, hlast]
  · rw [hcritical', Bool.or_eq_true]
    obtain ⟨w, hin, hlen, hm⟩ := hasWindow_iff.mp hw
    obtain hin | hin := infix_append_cases hin hlen
    · exact .inl (h.narrow (hasWindow_iff.mpr ⟨w, hin, hlen, hm⟩))
    · exact .inr (hasMarker_mono (h.tail ▸ hin) hm)
  · rw [hcritical', Bool.or_eq_true] at hc
    obtain hc | hm := hc
    · exact hasWindow_mono (List.prefix_append _ _).isInfix le_rfl (h.wide hc)
    · refine hasWindow_iff.mpr ⟨_, ?_, ?_, hm⟩
      · rw [hprobe]
        exact (List.drop_suffix _ _).isInfix
      · rw [List.length_append, h.tail, List.length_drop]
        omega

theorem Looked.consumeAll (h : Looked n bs b) (hchunks : ∀ chunk ∈ chunks, chunk.length ≤ n) :
    Looked n (bs ++ chunks.flatten) (chunks.foldl Buffer.consumeChunk b) := by
  induction chunks generalizing bs b with
  | nil => simpa using h
  | cons chunk chunks ih =>
    rw [List.flatten_cons, ← List.append_assoc]
    exact ih (h.consumeChunk (hchunks chunk List.mem_cons_self))
      fun c hc => hchunks c (List.mem_cons_of_mem _ hc)

/-- What has been seen stays seen. -/
theorem critical_mono (h : b.critical = true) :
    (chunks.foldl Buffer.consumeChunk b).critical = true := by
  induction chunks generalizing b with
  | nil => exact h
  | cons chunk chunks ih =>
    refine ih ?_
    rw [(@consumeChunk_observe chunk b).2.2.1]
    simp [Buffer.observe, h]

theorem structured_stays (h : b.contentObserved = true) :
    (chunks.foldl Buffer.consumeChunk b).structured = b.structured := by
  induction chunks generalizing b with
  | nil => rfl
  | cons chunk chunks ih =>
    obtain ⟨hcontent, hstructured, -⟩ := @consumeChunk_observe chunk b
    rw [List.foldl_cons, ih (by rw [hcontent]; simp [Buffer.observe, h]), hstructured]
    simp [Buffer.observe, h]

end Windows

/-! ## What opens a line -/

section Opening
variable {a : UInt8} {bs chunk : List UInt8} {chunks : List (List UInt8)} {b : Buffer}

theorem trimLeft_cons_pair {c : UInt8} (ha : isSpaceByte a = false) (h : isSpacePair a c = true) :
    trimLeft (a :: c :: bs) = trimLeft bs := by
  cases bs <;> simp [trimLeft, ha, h]

theorem trimLeft_append (h : trimLeft bs = []) : trimLeft (bs ++ chunk) = trimLeft chunk := by
  fun_induction trimLeft bs with
  | case1 => rfl
  | case2 a rest ha ih =>
    rw [List.cons_append, trimLeft_cons_space ha]
    exact ih h
  | case4 a ha b rest' hpair ih =>
    rw [List.cons_append, List.cons_append, trimLeft_cons_pair (by simpa using ha) hpair]
    exact ih h
  | case6 a ha b hpair c rest'' htriple ih =>
    simp only [List.cons_append, trimLeft, ha, hpair, htriple, if_true]
    exact ih h
  | _ => cases h

theorem opensObject_append (h : opensObject bs = true) : opensObject (bs ++ chunk) = true := by
  rw [opensObject, decide_eq_true_eq] at h ⊢
  fun_induction trimLeft bs with
  | case1 => cases h
  | case2 a rest ha ih =>
    rw [List.cons_append, trimLeft_cons_space ha]
    exact ih h
  | case4 a ha b rest' hpair ih =>
    rw [List.cons_append, List.cons_append, trimLeft_cons_pair (by simpa using ha) hpair]
    exact ih h
  | case6 a ha b hpair c rest'' htriple ih =>
    simp only [List.cons_append, trimLeft, ha, hpair, htriple, if_true]
    exact ih h
  | _ =>
    refine trimLeft_of_brace ?_
    cases h
    rfl

/-- What the chunks have shown of the first byte that is not white space. -/
structure Opened (bs : List UInt8) (b : Buffer) : Prop where
  blank : b.contentObserved = false → trimLeft bs = []
  opens : b.structured = true → b.contentObserved = true ∧ opensObject bs = true

theorem Opened.consumeChunk (h : Opened bs b) (chunk : List UInt8) :
    Opened (bs ++ chunk) (b.consumeChunk chunk) := by
  obtain ⟨hcontent, hstructured, -⟩ := @consumeChunk_observe chunk b
  constructor
  · intro hblank
    simp only [hcontent, Buffer.observe, Bool.or_eq_false_iff, decide_eq_false_iff_not,
      not_and, not_not] at hblank
    rw [trimLeft_append (h.blank hblank.1), hblank.2 hblank.1]
  · intro hopens
    rw [hcontent]
    rw [hstructured] at hopens
    simp only [Buffer.observe] at hopens ⊢
    split at hopens
    · rename_i hfirst
      rw [opensObject, trimLeft_append (h.blank hfirst.1), ← opensObject]
      exact ⟨by simp [hfirst], hopens⟩
    · obtain ⟨hseen, hobject⟩ := h.opens hopens
      exact ⟨by simp [hseen], opensObject_append hobject⟩

/-- The same where every chunk is one byte, and white space of several bytes is cut. -/
structure OpenedBytewise (bs : List UInt8) (b : Buffer) : Prop where
  blank : b.contentObserved = false → bs.all isSpaceByte = true
  opens : b.structured = true →
    b.contentObserved = true ∧ (bs.dropWhile isSpaceByte).head? = some 0x7B

theorem trimLeft_singleton : trimLeft [a] = if isSpaceByte a = true then [] else [a] := by
  simp [trimLeft]

theorem OpenedBytewise.consumeByte (h : OpenedBytewise bs b) (a : UInt8) :
    OpenedBytewise (bs ++ [a]) (b.consumeChunk [a]) := by
  obtain ⟨hcontent, hstructured, -⟩ := @consumeChunk_observe [a] b
  constructor
  · intro hblank
    simp only [hcontent, Buffer.observe, Bool.or_eq_false_iff, decide_eq_false_iff_not,
      not_and, not_not, trimLeft_singleton] at hblank
    have hspace : isSpaceByte a = true := by
      by_contra hne
      have := hblank.2 hblank.1
      simp [hne] at this
    simp [h.blank hblank.1, hspace]
  · intro hopens
    rw [hcontent]
    rw [hstructured] at hopens
    simp only [Buffer.observe] at hopens ⊢
    split at hopens
    · rename_i hfirst
      rw [trimLeft_singleton] at hfirst
      have hne : isSpaceByte a = false := by
        by_contra hspace
        simp [Bool.not_eq_false _ ▸ hspace] at hfirst
      have hnil : bs.dropWhile isSpaceByte = [] :=
        List.dropWhile_eq_nil_iff.mpr (by simpa using h.blank hfirst.1)
      refine ⟨by simp [hfirst.1, trimLeft_singleton, hne], ?_⟩
      rw [List.dropWhile_append, hnil]
      simpa [opensObject, trimLeft_singleton, hne] using hopens
    · obtain ⟨hseen, hbrace⟩ := h.opens hopens
      refine ⟨by simp [hseen], ?_⟩
      rw [List.dropWhile_append]
      split
      · rename_i hempty
        rw [List.isEmpty_iff] at hempty
        rw [hempty] at hbrace
        cases hbrace
      · rw [List.head?_append, hbrace]
        rfl

theorem OpenedBytewise.consumeAll {more : List UInt8} (h : OpenedBytewise bs b) :
    OpenedBytewise (bs ++ more) ((more.map fun a => [a]).foldl Buffer.consumeChunk b) := by
  induction more generalizing bs b with
  | nil => simpa using h
  | cons a more ih =>
    have hnext := ih (h.consumeByte a)
    rwa [List.append_assoc] at hnext

end Opening

/-! ## The ways of cutting a line -/

/-- A line in pieces, each of which is looked at as a whole. -/
structure Pieces (bs : List UInt8) (chunks : List (List UInt8)) : Prop where
  flatten : chunks.flatten = bs
  small : ∀ chunk ∈ chunks, chunk ≠ [] ∧ chunk.length ≤ 4096

/-- A line byte by byte. -/
def bytewise (bs : List UInt8) : List (List UInt8) := bs.map fun b => [b]

/-- However it is cut, the line is refused. -/
def alwaysRefused (provider : Provider) (bs : List UInt8) : Bool :=
  providerEventLimit < bs.length &&
    (hasWindow 129 bs || provider = .codex && (bs.dropWhile isSpaceByte).head? = some 0x7B)

/-- Cut in some way, the line is refused. -/
def sometimesRefused (provider : Provider) (bs : List UInt8) : Bool :=
  providerEventLimit < bs.length &&
    (hasWindow 4224 bs || provider = .codex && opensObject bs)

/-- What is held of a line. -/
structure Held (bs : List UInt8) (b : Buffer) : Prop where
  line : b.oversized = false → b.line = bs ∧ bs.length ≤ providerEventLimit
  long : b.oversized = true → providerEventLimit < bs.length
  looked : Looked 4096 bs b
  opened : Opened bs b
  shown : Shown bs b

section Cuts
variable {provider : Provider} {bs part chunk : List UInt8} {chunks : List (List UInt8)}
  {b : Buffer}

theorem Pieces.bytewise (bs : List UInt8) : Pieces bs (bytewise bs) := by
  refine ⟨?_, fun chunk hchunk => ?_⟩
  · induction bs with
    | nil => rfl
    | cons a bs ih => exact congrArg (a :: ·) ih
  · obtain ⟨a, -, rfl⟩ := List.mem_map.mp hchunk
    simp

theorem Pieces.cons (hne : chunk ≠ []) (hlen : chunk.length ≤ 4096) (h : Pieces bs chunks) :
    Pieces (chunk ++ bs) (chunk :: chunks) := by
  refine ⟨by rw [List.flatten_cons, h.flatten], fun c hc => ?_⟩
  rcases List.mem_cons.mp hc with rfl | hc
  · exact ⟨hne, hlen⟩
  · exact h.small c hc

theorem Pieces.append {bs' : List UInt8} {chunks' : List (List UInt8)} (h : Pieces bs chunks)
    (h' : Pieces bs' chunks') : Pieces (bs ++ bs') (chunks ++ chunks') := by
  refine ⟨by rw [List.flatten_append, h.flatten, h'.flatten], fun c hc => ?_⟩
  rcases List.mem_append.mp hc with hc | hc
  · exact h.small c hc
  · exact h'.small c hc

theorem held_empty : Held [] {} :=
  ⟨fun _ => ⟨rfl, Nat.zero_le _⟩, nofun, .empty 4096, ⟨fun _ => rfl, nofun⟩, ⟨fun _ => rfl, nofun⟩⟩

theorem Held.consumeChunk (h : Held bs b) (hchunk : chunk.length ≤ 4096) :
    Held (bs ++ chunk) (b.consumeChunk chunk) := by
  refine ⟨fun hover => ?_, fun hover => ?_, h.looked.consumeChunk hchunk,
    h.opened.consumeChunk chunk, h.shown.consumeChunk chunk⟩
  · cases hb : b.oversized with
    | true => simp [Buffer.consumeChunk, Buffer.observe, hb] at hover
    | false =>
      obtain ⟨hline, -⟩ := h.line hb
      by_cases hlong : b.line.length + chunk.length > providerEventLimit
      · simp [Buffer.consumeChunk, Buffer.observe, hb, hlong] at hover
      · have hnew : (b.consumeChunk chunk).line = b.line ++ chunk := by
          simp [Buffer.consumeChunk, Buffer.observe, hb, hlong]
        rw [hnew, List.length_append, ← hline]
        exact ⟨rfl, Nat.le_of_not_gt hlong⟩
  · rw [List.length_append]
    cases hb : b.oversized with
    | true => exact Nat.lt_add_right _ (h.long hb)
    | false =>
      obtain ⟨hline, -⟩ := h.line hb
      by_cases hlong : b.line.length + chunk.length > providerEventLimit
      · rwa [hline] at hlong
      · simp [Buffer.consumeChunk, Buffer.observe, hb, hlong] at hover

theorem Held.consumeAll (h : Held bs b) (hchunks : ∀ chunk ∈ chunks, chunk.length ≤ 4096) :
    Held (bs ++ chunks.flatten) (chunks.foldl Buffer.consumeChunk b) := by
  induction chunks generalizing bs b with
  | nil => simpa using h
  | cons chunk chunks ih =>
    rw [List.flatten_cons, ← List.append_assoc]
    exact ih (h.consumeChunk (hchunks chunk List.mem_cons_self))
      fun c hc => hchunks c (List.mem_cons_of_mem _ hc)

theorem chunks_small {n : Nat} : ∀ chunk ∈ Buffer.chunks n part, chunk.length ≤ 4096 := by
  induction n generalizing part with
  | zero => exact fun chunk hchunk => absurd hchunk List.not_mem_nil
  | succ n ih =>
    intro chunk hchunk
    rcases List.mem_cons.mp hchunk with rfl | hchunk
    · exact List.length_take_le _ _
    · exact ih chunk hchunk

theorem Held.consumePart (h : Held bs b) (part : List UInt8) :
    Held (bs ++ part) (b.consumePart part) := by
  have hall := h.consumeAll (@chunks_small part ((part.length + 4095) / 4096))
  rwa [chunks_flatten (by omega)] at hall

theorem consumePart_small (hne : chunk ≠ []) (hlen : chunk.length ≤ 4096) :
    b.consumePart chunk = b.consumeChunk chunk := by
  have hpos := List.length_pos_of_ne_nil hne
  have hone : (chunk.length + 4095) / 4096 = 1 := by omega
  rw [Buffer.consumePart, hone]
  simp [Buffer.chunks, List.take_of_length_le hlen]

theorem Held.always (h : Held bs b) (hrefused : alwaysRefused provider bs = true) :
    b.refused provider = true := by
  simp only [alwaysRefused, Bool.and_eq_true, Bool.or_eq_true, decide_eq_true_eq] at hrefused
  obtain ⟨hlong, hseen⟩ := hrefused
  have hover : b.oversized = true := by
    by_contra hover
    exact absurd (h.line (by simpa using hover)).2 (Nat.not_le.mpr hlong)
  simp only [Buffer.refused, hover, Bool.true_and, Bool.or_eq_true, Bool.and_eq_true,
    decide_eq_true_eq]
  obtain hwindow | ⟨hcodex, hbrace⟩ := hseen
  · exact .inl (h.looked.narrow hwindow)
  · exact .inr ⟨hcodex, (h.shown.brace hbrace).2⟩

theorem Held.sometimes (h : Held bs b) (hrefused : b.refused provider = true) :
    sometimesRefused provider bs = true := by
  simp only [Buffer.refused, Bool.or_eq_true, Bool.and_eq_true, decide_eq_true_eq] at hrefused
  simp only [sometimesRefused, Bool.or_eq_true, Bool.and_eq_true, decide_eq_true_eq]
  obtain ⟨hover, hcritical | ⟨hcodex, hstructured⟩⟩ := hrefused
  · exact ⟨h.long hover, .inl (h.looked.wide hcritical)⟩
  · exact ⟨h.long hover, .inr ⟨hcodex, (h.opened.opens hstructured).2⟩⟩

/-- Byte by byte, a line is refused only if it always is. -/
theorem bytewise_refused :
    ((bytewise bs).foldl Buffer.consumeChunk {}).refused provider = alwaysRefused provider bs := by
  have hpieces := Pieces.bytewise bs
  have hheld := held_empty.consumeAll fun chunk hchunk => (hpieces.small chunk hchunk).2
  rw [hpieces.flatten, List.nil_append] at hheld
  refine Bool.eq_iff_iff.mpr ⟨fun hrefused => ?_, hheld.always⟩
  have hlooked := @Looked.consumeAll 1 [] (bytewise bs) {} (.empty 1) fun chunk hchunk => by
    obtain ⟨a, -, rfl⟩ := List.mem_map.mp hchunk
    simp
  have hopened := @OpenedBytewise.consumeAll [] {} bs ⟨fun _ => rfl, nofun⟩
  rw [hpieces.flatten] at hlooked
  simp only [Buffer.refused, Bool.or_eq_true, Bool.and_eq_true, decide_eq_true_eq] at hrefused
  simp only [alwaysRefused, Bool.or_eq_true, Bool.and_eq_true, decide_eq_true_eq]
  obtain ⟨hover, hcritical | ⟨hcodex, hstructured⟩⟩ := hrefused
  · exact ⟨hheld.long hover, .inl (hlooked.wide hcritical)⟩
  · exact ⟨hheld.long hover, .inr ⟨hcodex, (hopened.opens hstructured).2⟩⟩

theorem brace_shown (hb : b.contentObserved = false) (rest : List UInt8) :
    ∃ chunks, Pieces (0x7B :: rest) chunks ∧
      (chunks.foldl Buffer.consumeChunk b).structured = true := by
  have htrim : trimLeft [0x7B] = [0x7B] := by decide
  obtain ⟨hcontent, hstructured, -⟩ := @consumeChunk_observe [0x7B] b
  refine ⟨[0x7B] :: bytewise rest,
    @Pieces.cons rest [0x7B] _ (by simp) (by simp) (Pieces.bytewise rest), ?_⟩
  rw [List.foldl_cons, structured_stays, hstructured]
  · simp [Buffer.observe, hb, htrim, opensObject]
  · rw [hcontent]
    simp [Buffer.observe, hb, htrim]

/-- Cut between its characters, a line shows that it opens an object. -/
theorem exists_structured (h : opensObject bs = true) (hb : b.contentObserved = false) :
    ∃ chunks, Pieces bs chunks ∧ (chunks.foldl Buffer.consumeChunk b).structured = true := by
  have hblank (chunk : List UInt8) (hne : chunk ≠ []) (hlen : chunk.length ≤ 4096)
      (htrim : trimLeft chunk = []) (b : Buffer) (hb : b.contentObserved = false)
      (rest : List UInt8) (ih : ∀ b : Buffer, b.contentObserved = false → ∃ chunks,
        Pieces rest chunks ∧ (chunks.foldl Buffer.consumeChunk b).structured = true) :
      ∃ chunks, Pieces (chunk ++ rest) chunks ∧
        (chunks.foldl Buffer.consumeChunk b).structured = true := by
    obtain ⟨hcontent, -⟩ := @consumeChunk_observe chunk b
    obtain ⟨chunks, hpieces, hshows⟩ := ih (b.consumeChunk chunk)
      (by rw [hcontent]; simp [Buffer.observe, hb, htrim])
    exact ⟨chunk :: chunks, hpieces.cons hne hlen, hshows⟩
  rw [opensObject, decide_eq_true_eq] at h
  fun_induction trimLeft bs generalizing b with
  | case1 => cases h
  | case2 a rest ha ih =>
    exact hblank [a] (by simp) (by simp) (by simp [trimLeft, ha]) b hb rest fun b hb => ih h hb
  | case4 a ha c rest hpair ih =>
    exact hblank [a, c] (by simp) (by simp) (by simp [trimLeft, ha, hpair]) b hb rest
      fun b hb => ih h hb
  | case6 a ha c hpair d rest htriple ih =>
    exact hblank [a, c, d] (by simp) (by simp) (by simp [trimLeft, ha, hpair, htriple]) b hb rest
      fun b hb => ih h hb
  | _ =>
    cases h
    exact brace_shown hb _

/-- A wide window stands in one chunk, and what is kept before it. -/
theorem exists_critical (h : hasWindow 4224 bs = true) :
    ∃ chunks, Pieces bs chunks ∧ (chunks.foldl Buffer.consumeChunk {}).critical = true := by
  obtain ⟨w, ⟨x, y, rfl⟩, hlen, hm⟩ := hasWindow_iff.mp h
  have hpos := List.length_pos_of_ne_nil (hasMarker_ne_nil hm)
  let front := x ++ w.take (w.length - 4096)
  let chunk := w.drop (w.length - 4096)
  have hchunk : chunk.length = min w.length 4096 := by
    rw [List.length_drop]
    omega
  have hfront : front.length - 128 ≤ x.length := by
    simp only [front, List.length_append, List.length_take]
    omega
  have hpieces : Pieces (front ++ (chunk ++ y)) (bytewise front ++ chunk :: bytewise y) :=
    (Pieces.bytewise front).append ((Pieces.bytewise y).cons
      (List.ne_nil_of_length_pos (by omega)) (by omega))
  have hall : front ++ (chunk ++ y) = x ++ w ++ y := by
    simp only [front, chunk, List.append_assoc]
    rw [← List.append_assoc (w.take _), List.take_append_drop]
  refine ⟨_, hall ▸ hpieces, ?_⟩
  have hlooked := @Looked.consumeAll 1 [] (bytewise front) {} (.empty 1) fun c hc => by
    obtain ⟨a, -, rfl⟩ := List.mem_map.mp hc
    simp
  rw [(Pieces.bytewise front).flatten, List.nil_append] at hlooked
  obtain ⟨-, -, hcritical, -⟩ :=
    @consumeChunk_observe chunk ((bytewise front).foldl Buffer.consumeChunk {})
  have hprobe : front.drop (front.length - 128) ++ chunk = x.drop (front.length - 128) ++ w := by
    rw [List.drop_append_of_le_length hfront, List.append_assoc, List.take_append_drop]
  rw [List.foldl_append, List.foldl_cons]
  refine critical_mono ?_
  rw [hcritical]
  simp only [Buffer.observe, hlooked.tail, hprobe, Bool.or_eq_true]
  exact .inr (hasMarker_mono (List.suffix_append _ _).isInfix hm)

theorem exists_refused (h : sometimesRefused provider bs = true) : ∃ chunks, Pieces bs chunks ∧
    (chunks.foldl Buffer.consumeChunk {}).refused provider = true := by
  simp only [sometimesRefused, Bool.or_eq_true, Bool.and_eq_true, decide_eq_true_eq] at h
  obtain ⟨hlong, hshows⟩ := h
  have hover {chunks : List (List UInt8)} (hpieces : Pieces bs chunks) :
      (chunks.foldl Buffer.consumeChunk {}).oversized = true := by
    have hheld := held_empty.consumeAll fun chunk hchunk => (hpieces.small chunk hchunk).2
    rw [hpieces.flatten] at hheld
    by_contra hover
    exact absurd (hheld.line (by simpa using hover)).2 (Nat.not_le.mpr hlong)
  obtain hwindow | ⟨hcodex, hopens⟩ := hshows
  · obtain ⟨chunks, hpieces, hcritical⟩ := exists_critical hwindow
    exact ⟨chunks, hpieces, by simp [Buffer.refused, hover hpieces, hcritical]⟩
  · obtain ⟨chunks, hpieces, hstructured⟩ := exists_structured (b := {}) hopens rfl
    exact ⟨chunks, hpieces, by simp [Buffer.refused, hover hpieces, hcodex, hstructured]⟩

end Cuts

/-! ## What is read -/

/-- What a collector meets: a line, or its observer between two lines. -/
inductive Entry (α : Type) where
  | line (l : α)
  | observe (appendErr : Option String)

namespace Entry
variable {α β : Type}

def map (f : α → β) : Entry α → Entry β
  | .line l => .line (f l)
  | .observe appendErr => .observe appendErr

end Entry

/-- The entries that are complete, and the line that is not. -/
structure Trace where
  complete : List (Entry Line) := []
  last : Line := {}

namespace Trace

def all (t : Trace) : List (Entry Line) := t.complete ++ [Entry.line t.last]

def endLine (t : Trace) : Trace := { complete := t.all }

def consume (t : Trace) (part : List UInt8) : Trace := { t with last := t.last.consume part }

def writeParts (t : Trace) : List (List UInt8) → Trace
  | [] => t
  | [part] => t.consume part
  | part :: rest => (t.consume part).endLine.writeParts rest

def step (t : Trace) : Collector.Input → Trace
  | .write data => t.writeParts (Collector.parts data)
  | .observe appendErr => { t with complete := t.complete ++ [Entry.observe appendErr] }

end Trace

def trace (inputs : List Collector.Input) : List (Entry Line) :=
  (inputs.foldl Trace.step {}).all

/-- The lines that are written, and where the observer comes, however the lines are cut. -/
def script (inputs : List Collector.Input) : List (Entry (List UInt8)) :=
  (trace inputs).map (Entry.map Line.bytes)

namespace Collector

/-- A line of which the writes have shown that it is to be refused, or not. -/
def readLine (p : Collector) (line : List UInt8) (refused : Bool) : Collector :=
  if p.err ≠ none then p
  else if refused = true then { p with err := some "provider_critical_event_too_large" }
  else if providerEventLimit < line.length then
    { p with droppedOversize := p.droppedOversize + 1 }
  else p.parseLine line

def read (p : Collector) : Entry (List UInt8 × Bool) → Collector
  | .line l => p.readLine l.1 l.2
  | .observe appendErr => p.setSessionObserver appendErr

/-- The entries, where only those lines are refused that are however they are cut. -/
def readAll (provider : Provider) (p : Collector) (entries : List (Entry (List UInt8))) :
    Collector :=
  (entries.map (.map fun line => (line, alwaysRefused provider line))).foldl read p

/-- The call of the observer, and the answer. -/
def answers (p : Collector) : Option (String × String) × Outcome := (p.drain.reported, p.finish)

end Collector

def Line.judged (provider : Provider) (l : Line) : List UInt8 × Bool :=
  (l.bytes, l.buffer.refused provider)

section Reading
variable {p p₀ : Collector} {bs part line : List UInt8} {b : Buffer} {t : Trace}
  {provider : Provider} {refused : Bool} {inputs : List Collector.Input}

namespace Collector

theorem reportSession_buffer :
    ({ p with buffer := b } : Collector).reportSession = { p.reportSession with buffer := b } := by
  unfold reportSession
  dsimp only
  split
  · rfl
  · split
    · rfl
    · split <;> rfl

theorem takeSession_buffer {e : Adapter.Event} :
    ({ p with buffer := b } : Collector).takeSession e =
      { p.takeSession e with buffer := b } := by
  unfold takeSession
  dsimp only
  split
  · exact @reportSession_buffer { p with answer := p.answer.takeSession p.provider e } b
  · rfl

theorem accept_buffer {e : Adapter.Event} :
    ({ p with buffer := b } : Collector).accept e = { p.accept e with buffer := b } := by
  unfold accept
  dsimp only
  split
  · rfl
  · rw [takeSession_buffer]

theorem parseLine_buffer :
    ({ p with buffer := b } : Collector).parseLine line =
      { p.parseLine line with buffer := b } := by
  unfold parseLine
  dsimp only
  split
  · split
    next parser event _ => exact @accept_buffer { p with parser := parser } b event
    next => rfl
  · rfl

theorem setSessionObserver_buffer {appendErr : Option String} :
    ({ p with buffer := b } : Collector).setSessionObserver appendErr =
      { p.setSessionObserver appendErr with buffer := b } := by
  unfold setSessionObserver
  dsimp only
  split
  · rfl
  · exact @reportSession_buffer { p with onSession := some appendErr } b

theorem readLine_provider : (p.readLine line refused).provider = p.provider := by
  unfold readLine
  split
  · rfl
  · split
    · rfl
    · split
      · rfl
      · exact parseLine_rest.1

theorem setSessionObserver_rest {appendErr : Option String} :
    (p.setSessionObserver appendErr).provider = p.provider ∧
    (p.setSessionObserver appendErr).buffer = p.buffer ∧
    ((p.setSessionObserver appendErr).err = none → p.err = none) := by
  unfold setSessionObserver
  split
  · exact ⟨rfl, rfl, id⟩
  · obtain ⟨hprovider, -, hbuffer, -, herr⟩ :=
      @reportSession_rest { p with onSession := some appendErr }
    exact ⟨hprovider, hbuffer, herr⟩

/-- The end of a line, of which the writes have shown what they have. -/
theorem finishLine_read (h : Held bs p.buffer) : p.finishLine =
    ({ p with buffer := {} } : Collector).readLine bs (p.buffer.refused p.provider) := by
  unfold finishLine readLine
  dsimp only
  split
  · rfl
  next herr =>
    cases hover : p.buffer.oversized with
    | true =>
      rw [if_pos rfl, if_pos (h.long hover)]
      split <;> rfl
    | false =>
      obtain ⟨hline, hshort⟩ := h.line hover
      have hrefused : p.buffer.refused p.provider = false := by simp [Buffer.refused, hover]
      rw [if_neg Bool.false_ne_true, hrefused, if_neg Bool.false_ne_true,
        if_neg (Nat.not_lt.mpr hshort), @parseLine_buffer p bs {}, hline]

/-- An error stays an error, whatever is read. -/
theorem read_of_err (h : p.err ≠ none) {e : Entry (List UInt8 × Bool)} : (p.read e).err ≠ none := by
  cases e with
  | line l => simp [read, readLine, h]
  | observe appendErr => exact fun hnone => h (setSessionObserver_rest.2.2 hnone)

end Collector

/-- A collector has read the lines that are complete, and looks at the one that is not. -/
structure Reads (p₀ p : Collector) (t : Trace) : Prop where
  provider : p.provider = p₀.provider
  buffer : p.buffer = t.last.buffer
  held : ∀ l, .line l ∈ t.all → Held l.bytes l.buffer ∧ 0x0A ∉ l.bytes
  reads : ({ p with buffer := {} } : Collector) =
    (t.complete.map (.map (Line.judged p₀.provider))).foldl Collector.read p₀

theorem Reads.last (h : Reads p₀ p t) : Held t.last.bytes p.buffer :=
  h.buffer ▸ (h.held t.last (by simp [Trace.all])).1

theorem Reads.consume (h : Reads p₀ p t) (hpart : 0x0A ∉ part) :
    Reads p₀ (p.consumePart part) (t.consume part) := by
  refine ⟨h.provider, congrArg (·.consumePart part) h.buffer, fun l hl => ?_, h.reads⟩
  rcases List.mem_append.mp hl with hl | hl
  · exact h.held l (List.mem_append_left _ hl)
  · obtain rfl : l = t.last.consume part := by simpa [Trace.consume] using hl
    obtain ⟨hheld, hlacks⟩ := h.held t.last (by simp [Trace.all])
    exact ⟨hheld.consumePart part, by simp [Line.consume, hlacks, hpart]⟩

/-- Where the line ends, it is read. -/
theorem Reads.read_all (h : Reads p₀ p t) :
    (t.all.map (.map (Line.judged p₀.provider))).foldl Collector.read p₀ = p.finishLine := by
  rw [Collector.finishLine_read h.last, Trace.all, List.map_append, List.foldl_append, ← h.reads,
    h.buffer, h.provider]
  rfl

theorem Reads.finishLine (h : Reads p₀ p t) : Reads p₀ p.finishLine t.endLine := by
  have hprovider : p.finishLine.provider = p₀.provider := by
    rw [Collector.finishLine_read h.last, Collector.readLine_provider]
    exact h.provider
  refine ⟨hprovider, rfl, fun l hl => ?_, h.read_all.symm⟩
  rcases List.mem_append.mp hl with hl | hl
  · exact h.held l hl
  · obtain rfl : l = {} := by simpa [Trace.endLine] using hl
    exact ⟨held_empty, List.not_mem_nil⟩

theorem Reads.observe (h : Reads p₀ p t) (appendErr : Option String) :
    Reads p₀ (p.setSessionObserver appendErr) (t.step (.observe appendErr)) := by
  obtain ⟨hprovider, hbuffer, -⟩ := @Collector.setSessionObserver_rest p appendErr
  refine ⟨hprovider.trans h.provider, hbuffer.trans h.buffer, fun l hl => ?_, ?_⟩
  · refine h.held l ?_
    simpa [Trace.step, Trace.all] using hl
  · rw [Trace.step, List.map_append, List.foldl_append, ← h.reads]
    exact Collector.setSessionObserver_buffer.symm

theorem parts_lacks : ∀ part ∈ Collector.parts bs, 0x0A ∉ part := by
  induction bs with
  | nil => simp [Collector.parts]
  | cons b bs ih =>
    obtain ⟨first, rest, hbs⟩ := List.exists_cons_of_ne_nil (parts_ne_nil bs)
    rw [Collector.parts, hbs]
    rw [hbs] at ih
    intro part hpart
    split at hpart
    next =>
      rcases List.mem_cons.mp hpart with rfl | hpart
      · exact List.not_mem_nil
      · exact ih part hpart
    next hb =>
      rcases List.mem_cons.mp hpart with rfl | hpart
      · have hfirst := ih first List.mem_cons_self
        simp [hfirst, Ne.symm hb]
      · exact ih part (List.mem_cons_of_mem _ hpart)

theorem Reads.writeParts {ps : List (List UInt8)} (h : Reads p₀ p t)
    (hps : ∀ part ∈ ps, 0x0A ∉ part) : Reads p₀ (p.writeParts ps) (t.writeParts ps) := by
  induction ps generalizing p t with
  | nil => exact h
  | cons part rest ih =>
    have hconsume := h.consume (hps part List.mem_cons_self)
    cases rest with
    | nil => exact hconsume
    | cons next rest => exact ih hconsume.finishLine fun c hc => hps c (List.mem_cons_of_mem _ hc)

theorem Reads.run (h : Reads p₀ p t) (inputs : List Collector.Input) :
    Reads p₀ (p.run inputs) (inputs.foldl Trace.step t) := by
  induction inputs generalizing p t with
  | nil => exact h
  | cons input inputs ih =>
    refine ih ?_
    cases input with
    | write data => exact h.writeParts parts_lacks
    | observe appendErr => exact h.observe appendErr

/-- The last line is read as the others are. -/
theorem Reads.answers (h : Reads p₀ p t) : p.answers =
    ((t.all.map (.map (Line.judged p₀.provider))).foldl Collector.read p₀).answers := by
  have hdrained (p : Collector) (hbuffer : p.buffer = {}) : p.drain = p := by
    simp [Collector.drain, hbuffer]
  rw [h.read_all]
  by_cases hline : p.buffer.line ≠ [] ∨ p.buffer.oversized = true
  · have hdrain : p.drain = p.finishLine := if_pos hline
    have hprovider : p.finishLine.provider = p.provider :=
      h.finishLine.provider.trans h.provider.symm
    unfold Collector.answers Collector.finish
    rw [hdrain, hdrained p.finishLine rfl, hprovider]
  · have hdrain : p.drain = p := if_neg hline
    simp only [ne_eq, not_or, Decidable.not_not, Bool.not_eq_true] at hline
    have hempty : t.last.bytes = [] := (h.last.line hline.2).1.symm.trans hline.1
    have hread : ({ p with buffer := {} } : Collector).readLine t.last.bytes
        (p.buffer.refused p.provider) = { p with buffer := {} } := by
      simp [Collector.readLine, Collector.parseLine, Buffer.refused, hline.2, hempty, opensObject,
        trimLeft]
    rw [Collector.finishLine_read h.last, hread]
    unfold Collector.answers Collector.finish
    rw [hdrain, hdrained _ rfl]

theorem reads_run (provider : Provider) (inputs : List Collector.Input) :
    Reads (newProtocolCollector provider) ((newProtocolCollector provider).run inputs)
      (inputs.foldl Trace.step {}) := by
  refine Reads.run ⟨rfl, rfl, fun l hl => ?_, rfl⟩ inputs
  obtain rfl : l = {} := by simpa [Trace.all] using hl
  exact ⟨held_empty, List.not_mem_nil⟩

/-- The answer is what is read of the lines, with what the writes have shown of them. -/
theorem run_answers : ((newProtocolCollector provider).run inputs).answers =
    (((trace inputs).map (.map (Line.judged provider))).foldl Collector.read
      (newProtocolCollector provider)).answers :=
  (reads_run provider inputs).answers

theorem trace_held : ∀ l, .line l ∈ trace inputs → Held l.bytes l.buffer ∧ 0x0A ∉ l.bytes :=
  (reads_run .codex inputs).held

end Reading

/-! ## Writing the pieces -/

/-- A line, cut into pieces. -/
def lineOf (chunks : List (List UInt8)) : Line :=
  ⟨chunks.flatten, chunks.foldl Buffer.consumeChunk {}⟩

/-- No observer is installed. -/
def Writes (inputs : List Collector.Input) : Prop := ∀ input ∈ inputs, ∃ data, input = .write data

/-- The writes of an entry. -/
def Entry.inputs : Entry (List (List UInt8)) → List Collector.Input
  | .line chunks => chunks.map Collector.Input.write ++ [Collector.Input.write [0x0A]]
  | .observe appendErr => [.observe appendErr]

section Writing
variable {chunks : List (List UInt8)} {t : Trace} {bs : List UInt8}
  {cuts : List (Entry (List (List UInt8)))}

/-- Each of the pieces is one chunk of its line. -/
structure Writable (chunks : List (List UInt8)) : Prop where
  small : ∀ chunk ∈ chunks, chunk ≠ [] ∧ chunk.length ≤ 4096
  lacks : 0x0A ∉ chunks.flatten

theorem write_chunks (h : Writable chunks) : (chunks.map .write).foldl Trace.step t =
    { t with last := ⟨t.last.bytes ++ chunks.flatten,
      chunks.foldl Buffer.consumeChunk t.last.buffer⟩ } := by
  induction chunks generalizing t with
  | nil => simp
  | cons chunk chunks ih =>
    obtain ⟨hne, hlen⟩ := h.small chunk List.mem_cons_self
    have hlacks := h.lacks
    rw [List.flatten_cons, List.mem_append, not_or] at hlacks
    have hrest : Writable chunks := ⟨fun c hc => h.small c (List.mem_cons_of_mem _ hc), hlacks.2⟩
    have hstep : t.step (.write chunk) = t.consume chunk := by
      rw [Trace.step, parts_single hlacks.1, Trace.writeParts]
    rw [List.map_cons, List.foldl_cons, hstep, ih hrest]
    simp [Trace.consume, Line.consume, consumePart_small hne hlen]

theorem write_entries (h : ∀ chunks, .line chunks ∈ cuts → Writable chunks) (ht : t.last = {}) :
    (cuts.flatMap Entry.inputs).foldl Trace.step t =
      { complete := t.complete ++ cuts.map (.map lineOf) } := by
  induction cuts generalizing t with
  | nil =>
    cases t
    cases ht
    simp
  | cons entry cuts ih =>
    have hrest (chunks : List (List UInt8)) (hc : .line chunks ∈ cuts) :=
      h chunks (List.mem_cons_of_mem _ hc)
    rw [List.flatMap_cons, List.foldl_append]
    cases entry with
    | line chunks =>
      have hend : (Entry.inputs (.line chunks)).foldl Trace.step t =
          { complete := t.complete ++ [Entry.line (lineOf chunks)] } := by
        rw [Entry.inputs, List.foldl_append, write_chunks (h chunks List.mem_cons_self)]
        simp [Trace.step, Collector.parts, Trace.writeParts, Trace.consume, Line.consume,
          Trace.endLine, Trace.all, ht, lineOf, Buffer.consumePart, Buffer.chunks]
      rw [hend, ih hrest rfl]
      simp [Entry.map]
    | observe appendErr =>
      have hstep : (Entry.inputs (.observe appendErr)).foldl Trace.step t =
          { t with complete := t.complete ++ [Entry.observe appendErr] } := rfl
      rw [hstep]
      refine (ih (t := { t with complete := t.complete ++ [Entry.observe appendErr] }) hrest
        ht).trans ?_
      simp [Entry.map]

/-- Lines can be cut in any way, where there is no observer by writes alone. -/
theorem exists_inputs (h : ∀ chunks, .line chunks ∈ cuts → Writable chunks)
    (hlast : cuts.getLast? = some (.line chunks)) :
    ∃ inputs, trace inputs = cuts.map (.map lineOf) ∧
      ((∀ appendErr, Entry.observe appendErr ∉ cuts) → Writes inputs) := by
  obtain ⟨front, rfl⟩ := List.getLast?_eq_some_iff.mp hlast
  refine ⟨front.flatMap Entry.inputs ++ chunks.map .write, ?_, fun hnone input hinput => ?_⟩
  · have hfront := write_entries (t := {}) (fun c hc => h c (List.mem_append_left _ hc)) rfl
    rw [trace, List.foldl_append, hfront, write_chunks (h chunks (by simp))]
    simp [Trace.all, Entry.map, lineOf]
  · simp only [List.mem_append, List.mem_flatMap, List.mem_map] at hinput
    obtain ⟨entry, hentry, hinput⟩ | ⟨chunk, -, rfl⟩ := hinput
    · cases entry with
      | line chunks =>
        simp only [Entry.inputs, List.mem_append, List.mem_map, List.mem_singleton] at hinput
        obtain ⟨chunk, -, rfl⟩ | rfl := hinput
        · exact ⟨chunk, rfl⟩
        · exact ⟨[0x0A], rfl⟩
      | observe appendErr => exact absurd (List.mem_append_left _ hentry) (hnone appendErr)
    · exact ⟨chunk, rfl⟩

end Writing

/-! ## Any way to cut a script -/

section Cutting
variable {provider : Provider} {inputs : List Collector.Input} {s : List (Entry (List UInt8))}

/-- Pieces that can be written one by one, and make up the lines of a script. -/
structure Cuts (cuts : List (Entry (List (List UInt8)))) (s : List (Entry (List UInt8))) :
    Prop where
  lines : cuts.map (Entry.map List.flatten) = s
  small : ∀ chunks, Entry.line chunks ∈ cuts → ∀ c ∈ chunks, c ≠ [] ∧ c.length ≤ 4096

/-- The lines of a script can be cut in any way. -/
theorem exists_cut {cuts : List (Entry (List (List UInt8)))} (h : Cuts cuts (script inputs)) :
    ∃ cut, script cut = script inputs ∧ trace cut = cuts.map (Entry.map lineOf) ∧
      ((∀ appendErr, Entry.observe appendErr ∉ cuts) → Writes cut) := by
  have hwritable (chunks : List (List UInt8)) (hchunks : Entry.line chunks ∈ cuts) :
      Writable chunks := by
    refine ⟨h.small chunks hchunks, ?_⟩
    have hline : .line chunks.flatten ∈ script inputs :=
      h.lines ▸ List.mem_map.mpr ⟨Entry.line chunks, hchunks, rfl⟩
    obtain ⟨entry, hentry, heq⟩ := List.mem_map.mp hline
    cases entry with
    | line l =>
      have hbytes : l.bytes = chunks.flatten := Entry.line.inj heq
      exact hbytes ▸ (trace_held l hentry).2
    | observe appendErr => cases heq
  have hlast : (script inputs).getLast? =
      some (.line (inputs.foldl Trace.step {}).last.bytes) := by
    simp [script, trace, Trace.all, Entry.map]
  rw [← h.lines, List.getLast?_map, Option.map_eq_some_iff] at hlast
  obtain ⟨entry, hentry, heq⟩ := hlast
  cases entry with
  | line chunks =>
    obtain ⟨cut, hcut, hwrites⟩ := exists_inputs hwritable hentry
    refine ⟨cut, ?_, hcut, hwrites⟩
    rw [script, hcut, List.map_map, ← h.lines]
    refine List.map_congr_left fun entry _ => ?_
    cases entry <;> rfl
  | observe appendErr => cases heq

theorem judged_bytewise {bs : List UInt8} :
    (lineOf (bytewise bs)).judged provider = (bs, alwaysRefused provider bs) := by
  rw [Line.judged, lineOf, (Pieces.bytewise bs).flatten, bytewise_refused]

theorem map_judged_bytewise :
    ((s.map (Entry.map bytewise)).map (Entry.map lineOf)).map (Entry.map (Line.judged provider)) =
      s.map (Entry.map fun line => (line, alwaysRefused provider line)) := by
  rw [List.map_map, List.map_map]
  refine List.map_congr_left fun entry _ => ?_
  cases entry with
  | line bs => exact congrArg Entry.line judged_bytewise
  | observe appendErr => rfl

theorem map_flatten_bytewise : (s.map (Entry.map bytewise)).map (Entry.map List.flatten) = s := by
  rw [List.map_map]
  refine (List.map_congr_left fun entry _ => ?_).trans (List.map_id s)
  cases entry with
  | line bs => exact congrArg Entry.line (Pieces.bytewise bs).flatten
  | observe appendErr => rfl

theorem small_bytewise {chunks : List (List UInt8)}
    (h : Entry.line chunks ∈ s.map (Entry.map bytewise)) :
    ∀ c ∈ chunks, c ≠ [] ∧ c.length ≤ 4096 := by
  obtain ⟨entry, -, heq⟩ := List.mem_map.mp h
  cases entry with
  | line bs =>
    cases heq
    exact (Pieces.bytewise bs).small
  | observe appendErr => cases heq

/-- The lines of writes alone. -/
def Lines.trace (ls : Lines) : Trace := ⟨ls.complete.map .line, ls.last⟩

theorem writeParts_trace {ls : Lines} (ps : List (List UInt8)) :
    ls.trace.writeParts ps = (ls.writeParts ps).trace := by
  induction ps generalizing ls with
  | nil => rfl
  | cons part rest ih =>
    cases rest with
    | nil => rfl
    | cons next rest =>
      have hend : (ls.trace.consume part).endLine = (ls.consume part).endLine.trace := by
        simp [Lines.trace, Trace.endLine, Trace.all, Trace.consume, Lines.endLine, Lines.all,
          Lines.consume]
      rw [Trace.writeParts, hend, ih]
      · rfl
      · simp

/-- Writes alone have the same script where they write the same bytes. -/
theorem script_of_writes (h : Writes inputs) :
    script inputs = (Collector.parts (stream inputs)).map .line := by
  have hrun (ls : Lines) :
      inputs.foldl Trace.step ls.trace = (inputs.foldl Lines.step ls).trace := by
    induction inputs generalizing ls with
    | nil => rfl
    | cons input inputs ih =>
      obtain ⟨data, rfl⟩ := h input List.mem_cons_self
      have hstep : ls.trace.step (.write data) = (ls.step (.write data)).trace :=
        writeParts_trace _
      rw [List.foldl_cons, List.foldl_cons, hstep]
      exact ih (fun i hi => h i (List.mem_cons_of_mem _ hi)) _
  have hlines : trace inputs = (scan inputs).all.map .line := by
    rw [trace, show ({} : Trace) = Lines.trace {} from rfl, hrun]
    simp [Lines.trace, Trace.all, Lines.all, scan]
  rw [script, hlines, ← map_scan, List.map_map, List.map_map]
  rfl

theorem parts_injective {xs ys : List UInt8} (h : Collector.parts xs = Collector.parts ys) :
    xs = ys := by
  induction xs generalizing ys with
  | nil =>
    cases ys with
    | nil => rfl
    | cons y ys =>
      obtain ⟨part, rest, hys⟩ := List.exists_cons_of_ne_nil (parts_ne_nil ys)
      simp only [Collector.parts, hys] at h
      split at h <;> simp at h
  | cons x xs ih =>
    obtain ⟨part, rest, hxs⟩ := List.exists_cons_of_ne_nil (parts_ne_nil xs)
    cases ys with
    | nil =>
      simp only [Collector.parts, hxs] at h
      split at h <;> simp at h
    | cons y ys =>
      obtain ⟨part', rest', hys⟩ := List.exists_cons_of_ne_nil (parts_ne_nil ys)
      have hrest (heq : part :: rest = part' :: rest') : xs = ys := ih (by rw [hxs, hys, heq])
      simp only [Collector.parts, hxs, hys] at h
      by_cases hx : x = 0x0A <;> by_cases hy : y = 0x0A
      · rw [if_pos hx, if_pos hy] at h
        rw [hx, hy, hrest (List.cons.inj h).2]
      · simp [hx, hy] at h
      · simp [hx, hy] at h
      · rw [if_neg hx, if_neg hy] at h
        obtain ⟨hline, htail⟩ := List.cons.inj h
        obtain ⟨rfl, hpart⟩ := List.cons.inj hline
        rw [hrest (by rw [hpart, htail])]

/-- The lines of some bytes can be cut in any way, by writes alone. -/
theorem exists_writes {bytes : List UInt8} {cuts : List (Entry (List (List UInt8)))}
    (h : Cuts cuts ((Collector.parts bytes).map .line)) :
    ∃ cut, Writes cut ∧ stream cut = bytes ∧ trace cut = cuts.map (Entry.map lineOf) := by
  have hwhole : Writes [.write bytes] := fun input hinput => ⟨bytes, List.mem_singleton.mp hinput⟩
  have hscript : script [.write bytes] = (Collector.parts bytes).map .line := by
    rw [script_of_writes hwhole, stream, stream, List.append_nil]
  obtain ⟨cut, hcut, htrace, hwrites⟩ := exists_cut (hscript ▸ h)
  have hnone (appendErr : Option String) : Entry.observe appendErr ∉ cuts := by
    intro hmem
    have hline : Entry.observe appendErr ∈ (Collector.parts bytes).map Entry.line :=
      h.lines ▸ List.mem_map.mpr ⟨Entry.observe appendErr, hmem, rfl⟩
    obtain ⟨part, -, heq⟩ := List.mem_map.mp hline
    cases heq
  refine ⟨cut, hwrites hnone, parts_injective ?_, htrace⟩
  rw [hscript, script_of_writes (hwrites hnone)] at hcut
  exact List.map_injective_iff.mpr (fun _ _ heq => Entry.line.inj heq) hcut

end Cutting

end Orchestrator.Host
