import Mathlib.Data.List.Basic
import Mathlib.Algebra.GroupWithZero.Nat

/-!
# Writing JSON

Strings, numbers and objects as an encoder writes them that escapes for HTML: a
quoted string can be told from whatever follows it, and its size is the sum of what its
characters take.
-/
namespace Library.Json

/-! ## Strings -/

def hex4 (n : Nat) : List Char :=
  [(n / 4096).digitChar, (n / 256 % 16).digitChar, (n / 16 % 16).digitChar, (n % 16).digitChar]

def shortEscape : Char → Option Char
  | '"' => some '"'
  | '\\' => some '\\'
  | '\n' => some 'n'
  | '\r' => some 'r'
  | '\t' => some 't'
  | '\x08' => some 'b'
  | '\x0c' => some 'f'
  | _ => none

/-- The character a short escape stands for. -/
def unescape : Char → Option Char
  | '"' => some '"'
  | '\\' => some '\\'
  | 'n' => some '\n'
  | 'r' => some '\r'
  | 't' => some '\t'
  | 'b' => some '\x08'
  | 'f' => some '\x0c'
  | _ => none

/-- Control characters, and those with a meaning in HTML or JavaScript. -/
def hexEscaped (c : Char) : Bool :=
  c.toNat < 0x20 || c = '<' || c = '>' || c = '&' || c.toNat = 0x2028 || c.toNat = 0x2029

def escapeChar (c : Char) : List Char :=
  match shortEscape c with
  | some e => ['\\', e]
  | none => if hexEscaped c then '\\' :: 'u' :: hex4 c.toNat else [c]

def quote (s : String) : List Char := '"' :: (s.toList.flatMap escapeChar ++ ['"'])

/-! ## Objects -/

def member (field : String × List Char) : List Char := quote field.1 ++ ':' :: field.2

def members : List (String × List Char) → List Char
  | [] => []
  | [field] => member field
  | field :: fields => member field ++ ',' :: members fields

def object (fields : List (String × List Char)) : List Char := '{' :: (members fields ++ ['}'])

def array (items : List (List Char)) : List Char :=
  '[' :: (List.intercalate [','] items ++ [']'])

def number (n : Int) : List Char := (toString n).toList

/-! ## Embedded text -/

def isSpace (c : Char) : Bool := c = ' ' || c = '\t' || c = '\r' || c = '\n'

/-- What becomes of a character of an embedded text, in or outside a string. -/
def escapeRaw (c : Char) : List Char :=
  if c = '<' ∨ c = '>' ∨ c = '&' ∨ c.toNat = 0x2028 ∨ c.toNat = 0x2029 then
    '\\' :: 'u' :: hex4 c.toNat
  else [c]

/-- Text that is JSON already, without the space between its tokens; `inString` says whether it
begins inside a string. -/
def compact : Bool → List Char → List Char
  | _, [] => []
  | true, '\\' :: c :: cs => '\\' :: c :: compact true cs
  | inString, '"' :: cs => '"' :: compact (!inString) cs
  | inString, c :: cs =>
    if inString = false ∧ isSpace c then compact inString cs
    else escapeRaw c ++ compact inString cs

/-! ## Sizes -/

def bytes (cs : List Char) : Nat := (cs.map Char.utf8Size).sum

/-! ## Reading a string back -/

section
variable {c c' : Char} {x y : List Char} {s t : String}

theorem unescape_shortEscape {e : Char} (h : shortEscape c = some e) : unescape e = some c := by
  unfold shortEscape at h
  split at h <;> cases h <;> rfl

theorem shortEscape_ne_u : shortEscape c ≠ some 'u' := by
  intro h
  cases unescape_shortEscape h

theorem digitChar_inj {m n : Nat} (hm : m < 16) (hn : n < 16) (h : m.digitChar = n.digitChar) :
    m = n := by
  have hall : ∀ m < 16, ∀ n < 16, m.digitChar = n.digitChar → m = n := by decide
  exact hall m hm n hn h

theorem hex4_append_inj {m n : Nat} (hm : m < 65536) (hn : n < 65536)
    (h : hex4 m ++ x = hex4 n ++ y) : m = n ∧ x = y := by
  simp only [hex4, List.cons_append, List.nil_append, List.cons.injEq] at h
  obtain ⟨h₃, h₂, h₁, h₀, hxy⟩ := h
  have h₃ := digitChar_inj (by omega) (by omega) h₃
  have h₂ := digitChar_inj (by omega) (by omega) h₂
  have h₁ := digitChar_inj (by omega) (by omega) h₁
  have h₀ := digitChar_inj (by omega) (by omega) h₀
  exact ⟨by omega, hxy⟩

theorem hexEscaped_lt (h : hexEscaped c = true) : c.toNat < 65536 := by
  simp only [hexEscaped, Bool.or_eq_true, decide_eq_true_eq] at h
  obtain ((((h | rfl) | rfl) | rfl) | h) | h := h
  · omega
  · decide
  · decide
  · decide
  · omega
  · omega

/-- What a character becomes: a backslash, and then one that is no `u`, or `u` and four digits. -/
theorem escapeChar_cases : (∃ e, shortEscape c = some e ∧ escapeChar c = ['\\', e]) ∨
    (shortEscape c = none ∧ hexEscaped c = true ∧ escapeChar c = '\\' :: 'u' :: hex4 c.toNat) ∨
    (shortEscape c = none ∧ c ≠ '\\' ∧ c ≠ '"' ∧ escapeChar c = [c]) := by
  unfold escapeChar
  cases h : shortEscape c with
  | some e => exact .inl ⟨e, rfl, rfl⟩
  | none =>
    by_cases hx : hexEscaped c = true
    · exact .inr (.inl ⟨rfl, hx, if_pos hx⟩)
    · refine .inr (.inr ⟨rfl, ?_, ?_, if_neg hx⟩)
      · rintro rfl
        cases h
      · rintro rfl
        cases h

theorem escapeChar_append_inj (h : escapeChar c ++ x = escapeChar c' ++ y) : c = c' ∧ x = y := by
  obtain ⟨e, he, hc⟩ | ⟨hn, hx, hc⟩ | ⟨hn, hb, -, hc⟩ := escapeChar_cases (c := c) <;>
    obtain ⟨e', he', hc'⟩ | ⟨hn', hx', hc'⟩ | ⟨hn', hb', -, hc'⟩ := escapeChar_cases (c := c') <;>
    rw [hc, hc'] at h <;> simp only [List.cons_append, List.nil_append, List.cons.injEq,
      true_and] at h
  · obtain ⟨rfl, hxy⟩ := h
    have heq := (unescape_shortEscape he).symm.trans (unescape_shortEscape he')
    exact ⟨Option.some.inj heq, hxy⟩
  · exact absurd (h.1 ▸ he) shortEscape_ne_u
  · exact absurd h.1.symm hb'
  · exact absurd (h.1 ▸ he') shortEscape_ne_u
  · obtain ⟨hnat, hxy⟩ := hex4_append_inj (hexEscaped_lt hx) (hexEscaped_lt hx') h
    exact ⟨Char.toNat_inj.mp hnat, hxy⟩
  · exact absurd h.1.symm hb'
  · exact absurd h.1 hb
  · exact absurd h.1 hb
  · exact h

theorem quote_not_escape (h : '"' :: x = escapeChar c ++ y) : False := by
  obtain ⟨e, -, hc⟩ | ⟨-, -, hc⟩ | ⟨-, -, hq, hc⟩ := escapeChar_cases (c := c) <;>
    rw [hc] at h <;> cases h
  exact hq rfl

/-- A quoted string ends where it ends, whatever follows. -/
theorem quote_append_inj (h : quote s ++ x = quote t ++ y) : s = t ∧ x = y := by
  have hlists : ∀ (cs ds : List Char),
      cs.flatMap escapeChar ++ '"' :: x = ds.flatMap escapeChar ++ '"' :: y → cs = ds ∧ x = y := by
    intro cs
    induction cs with
    | nil =>
      intro ds h
      cases ds with
      | nil => exact ⟨rfl, (List.cons.inj h).2⟩
      | cons d ds =>
        rw [List.flatMap_cons, List.append_assoc] at h
        exact (quote_not_escape h).elim
    | cons c cs ih =>
      intro ds h
      cases ds with
      | nil =>
        rw [List.flatMap_cons, List.append_assoc] at h
        exact (quote_not_escape h.symm).elim
      | cons d ds =>
        rw [List.flatMap_cons, List.flatMap_cons, List.append_assoc, List.append_assoc] at h
        obtain ⟨rfl, hrest⟩ := escapeChar_append_inj h
        obtain ⟨rfl, hxy⟩ := ih ds hrest
        exact ⟨rfl, hxy⟩
  simp only [quote, List.cons_append, List.append_assoc, List.nil_append, List.cons.injEq,
    true_and] at h
  obtain ⟨hst, hxy⟩ := hlists _ _ h
  exact ⟨String.toList_inj.mp hst, hxy⟩

/-! ## Sizes -/

@[simp] theorem bytes_nil : bytes [] = 0 := rfl

@[simp] theorem bytes_cons : bytes (c :: x) = c.utf8Size + bytes x := rfl

@[simp] theorem bytes_append : bytes (x ++ y) = bytes x + bytes y := by
  rw [bytes, List.map_append, List.sum_append]
  rfl

theorem bytes_quote : bytes (quote s) = bytes (s.toList.flatMap escapeChar) + 2 := by
  rw [quote, bytes_cons, bytes_append]
  simp only [bytes_cons, bytes_nil]
  have hquote : ('"' : Char).utf8Size = 1 := by decide
  omega

theorem bytes_member {field : String × List Char} :
    bytes (member field) = bytes (quote field.1) + 1 + bytes field.2 := by
  have hcolon : (':' : Char).utf8Size = 1 := by decide
  rw [member, bytes_append, bytes_cons, hcolon, Nat.add_assoc]

/-- Members, each with the comma or brace that follows it. -/
theorem bytes_members {fields : List (String × List Char)} (h : fields ≠ []) :
    bytes (members fields) + 1 = (fields.map fun f => bytes (member f) + 1).sum := by
  induction fields with
  | nil => exact absurd rfl h
  | cons f fields ih =>
    cases fields with
    | nil => simp [members]
    | cons f' fields =>
      have hcomma : (',' : Char).utf8Size = 1 := by decide
      rw [members, bytes_append, bytes_cons, hcomma, List.map_cons, List.sum_cons,
        ← ih (List.cons_ne_nil _ _)]
      · omega
      · exact fun h => List.cons_ne_nil _ _ h

theorem bytes_object {fields : List (String × List Char)} (h : fields ≠ []) :
    bytes (object fields) = (fields.map fun f => bytes (member f) + 1).sum + 1 := by
  have hopen : ('{' : Char).utf8Size = 1 := by decide
  have hclose : ('}' : Char).utf8Size = 1 := by decide
  rw [object, bytes_cons, bytes_append, bytes_cons, bytes_nil, hopen, hclose, ← bytes_members h]
  omega

/-! ## Bounds -/

theorem utf8ByteSize_ofList : (String.ofList x).utf8ByteSize = bytes x := by
  induction x with
  | nil => simp
  | cons c x ih =>
    have hsplit : String.ofList (c :: x) = String.singleton c ++ String.ofList x := by
      rw [String.singleton_eq_ofList, ← String.ofList_append]
      rfl
    rw [hsplit, String.utf8ByteSize_append, ih, String.utf8ByteSize_singleton, bytes_cons]

theorem bytes_toList : bytes s.toList = s.utf8ByteSize := by
  rw [← utf8ByteSize_ofList, String.ofList_toList]

theorem bytes_hex4 {n : Nat} (h : n < 65536) : bytes (hex4 n) = 4 := by
  have hdigit : ∀ m < 16, (Nat.digitChar m).utf8Size = 1 := by decide
  simp only [hex4, bytes_cons, bytes_nil]
  rw [hdigit _ (by omega), hdigit _ (by omega), hdigit _ (by omega), hdigit _ (by omega)]

/-- A short escape is of one byte. -/
theorem shortEscape_size {e : Char} (h : shortEscape c = some e) : e.utf8Size = 1 := by
  unfold shortEscape at h
  split at h <;> cases h <;> rfl

/-- At worst, a byte becomes a backslash, a letter and four digits. -/
theorem bytes_escapeChar_le : bytes (escapeChar c) ≤ 6 * c.utf8Size := by
  have hpos := c.utf8Size_pos
  have hslash : ('\\' : Char).utf8Size = 1 := by decide
  have hu : ('u' : Char).utf8Size = 1 := by decide
  obtain ⟨e, he, hc⟩ | ⟨-, hx, hc⟩ | ⟨-, -, -, hc⟩ := escapeChar_cases (c := c)
  · rw [hc]
    simp only [bytes_cons, bytes_nil, hslash, shortEscape_size he]
    omega
  · rw [hc]
    simp only [bytes_cons, hslash, hu, bytes_hex4 (hexEscaped_lt hx)]
    omega
  · rw [hc]
    simp only [bytes_cons, bytes_nil]
    omega

theorem bytes_escaped_le : bytes (x.flatMap escapeChar) ≤ 6 * bytes x := by
  induction x with
  | nil => simp
  | cons c x ih =>
    have hc := @bytes_escapeChar_le c
    rw [List.flatMap_cons, bytes_append, bytes_cons]
    omega

theorem bytes_quote_le : bytes (quote s) ≤ 6 * s.utf8ByteSize + 2 := by
  have hescaped := @bytes_escaped_le s.toList
  rw [bytes_toList] at hescaped
  rw [bytes_quote]
  omega

end
end Library.Json
