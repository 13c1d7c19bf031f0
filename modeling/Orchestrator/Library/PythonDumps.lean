import Orchestrator.Library.PythonJson
import Mathlib.Algebra.BigOperators.Group.List.Basic
import Mathlib.Algebra.GroupWithZero.Nat

/-!
# JSON as Python writes it

`json.dumps` with `separators=(",", ":")`. Characters that are not ASCII are escaped or not, and
the keys of an object are sorted or not.
-/
namespace Library.PythonJson

/-- `str.encode()`; a half of a surrogate pair has no encoding. -/
def encodeUtf8 : Text → Option (List UInt8)
  | [] => some []
  | c :: rest => do
    let bytes ←
      if c < 0x80 then some [UInt8.ofNat c]
      else if c < 0x800 then some [UInt8.ofNat (0xC0 + c / 64), UInt8.ofNat (0x80 + c % 64)]
      else if 0xD800 ≤ c ∧ c ≤ 0xDFFF then none
      else if c < 0x10000 then
        some [UInt8.ofNat (0xE0 + c / 4096), UInt8.ofNat (0x80 + c / 64 % 64),
          UInt8.ofNat (0x80 + c % 64)]
      else if c < 0x110000 then
        some [UInt8.ofNat (0xF0 + c / 262144), UInt8.ofNat (0x80 + c / 4096 % 64),
          UInt8.ofNat (0x80 + c / 64 % 64), UInt8.ofNat (0x80 + c % 64)]
      else none
    return bytes ++ (← encodeUtf8 rest)

/-! ## Strings and numbers -/

def lowerHex (n : Nat) : Nat := if n < 10 then 0x30 + n else 0x57 + n

/-- `\uXXXX`. -/
def escapeHex (c : Nat) : Text :=
  [0x5C, 0x75, lowerHex (c / 4096), lowerHex (c / 256 % 16), lowerHex (c / 16 % 16),
    lowerHex (c % 16)]

/-- A character in a string. -/
def escape (ensureAscii : Bool) (c : Nat) : Text :=
  if c = 0x22 ∨ c = 0x5C then [0x5C, c]
  else if c = 0x0A then [0x5C, 0x6E]
  else if c = 0x0D then [0x5C, 0x72]
  else if c = 0x09 then [0x5C, 0x74]
  else if c = 0x0C then [0x5C, 0x66]
  else if c = 0x08 then [0x5C, 0x62]
  else if c < 0x20 then escapeHex c
  else if ensureAscii = true ∧ 0x7F ≤ c then
    if c < 0x10000 then escapeHex c
    else escapeHex (0xD800 + (c - 0x10000) / 1024) ++ escapeHex (0xDC00 + (c - 0x10000) % 1024)
  else [c]

def quoted (ensureAscii : Bool) (s : Text) : Text :=
  0x22 :: s.flatMap (escape ensureAscii) ++ [0x22]

/-- `str` of a natural number. -/
def natText (n : Nat) : Text :=
  if n < 10 then [0x30 + n] else natText (n / 10) ++ [0x30 + n % 10]

def intText (n : Int) : Text := if n < 0 then 0x2D :: natText n.natAbs else natText n.natAbs

/-! ## Values -/

mutual

def dumps (ensureAscii : Bool) : Value → Text
  | .null => text "null"
  | .bool b => text (if b = true then "true" else "false")
  | .int n => intText n
  | .float raw => raw
  | .str s => quoted ensureAscii s
  | .list items => 0x5B :: dumpsItems ensureAscii items ++ [0x5D]
  | .dict fields => 0x7B :: dumpsFields ensureAscii fields ++ [0x7D]

def dumpsItems (ensureAscii : Bool) : List Value → Text
  | [] => []
  | [v] => dumps ensureAscii v
  | v :: rest => dumps ensureAscii v ++ 0x2C :: dumpsItems ensureAscii rest

def dumpsFields (ensureAscii : Bool) : List (Text × Value) → Text
  | [] => []
  | [(key, v)] => quoted ensureAscii key ++ 0x3A :: dumps ensureAscii v
  | (key, v) :: rest =>
    quoted ensureAscii key ++ 0x3A :: dumps ensureAscii v ++ 0x2C :: dumpsFields ensureAscii rest

end

/-- The order of strings. -/
def keyLe : Text → Text → Bool
  | [], _ => true
  | _ :: _, [] => false
  | c :: s, d :: t => c < d || c = d && keyLe s t

def insertField (field : Text × Value) : Fields → Fields
  | [] => [field]
  | head :: rest =>
    if keyLe field.1 head.1 = true then field :: head :: rest else head :: insertField field rest

mutual

/-- The keys of every object in their order. -/
def sortKeys : Value → Value
  | .list items => .list (sortItems items)
  | .dict fields => .dict (sortFields fields)
  | v => v

def sortItems : List Value → List Value
  | [] => []
  | v :: rest => sortKeys v :: sortItems rest

def sortFields : List (Text × Value) → Fields
  | [] => []
  | (key, v) :: rest => insertField (key, sortKeys v) (sortFields rest)

end

/-- `_canonical`, before it is encoded. -/
def canonical (v : Value) : Text := dumps false (sortKeys v)

/-! ## Lengths -/

section
variable {s : Text} {fields : Fields} {field : Text × Value}

theorem encodeUtf8_length_le {bytes : List UInt8} (h : encodeUtf8 s = some bytes) :
    bytes.length ≤ 4 * s.length := by
  induction s generalizing bytes with
  | nil =>
    cases h
    exact Nat.le_refl _
  | cons c rest ih =>
    obtain ⟨head, tail, htail, rfl, hfour⟩ : ∃ head tail, encodeUtf8 rest = some tail ∧
        head ++ tail = bytes ∧ head.length ≤ 4 := by
      simp only [encodeUtf8, Option.bind_eq_bind, Option.pure_def] at h
      split_ifs at h <;>
        simp only [Option.bind_some, Option.bind_none, Option.bind_eq_some_iff, reduceCtorEq,
          Option.some.injEq] at h <;>
        obtain ⟨tail, htail, rfl⟩ := h <;> exact ⟨_, tail, htail, rfl, by simp⟩
    have hrest := ih htail
    rw [List.length_append, List.length_cons]
    omega

theorem quoted_length_le : (quoted false s).length ≤ 6 * s.length + 2 := by
  have hone : ∀ c, (escape false c).length ≤ 6 := by
    intro c
    unfold escape
    rw [if_neg (by simp : ¬ (false = true ∧ 0x7F ≤ c))]
    split_ifs <;> simp [escapeHex]
  have hall : (s.flatMap (escape false)).length ≤ 6 * s.length := by
    induction s with
    | nil => exact Nat.le_refl _
    | cons c rest ih =>
      have hc := hone c
      rw [List.flatMap_cons, List.length_append, List.length_cons]
      omega
  rw [quoted, List.length_append, List.length_cons, List.length_singleton]
  omega

/-- What a field takes, with the colon and a comma. -/
def fieldLength (field : Text × Value) : Nat :=
  (quoted false field.1).length + (dumps false field.2).length + 2

theorem dumpsFields_length_le :
    (dumpsFields false fields).length ≤ (fields.map fieldLength).sum := by
  induction fields with
  | nil => exact Nat.le_refl _
  | cons field rest ih =>
    obtain ⟨key, v⟩ := field
    have hfield : fieldLength (key, v) =
        (quoted false key).length + (dumps false v).length + 2 := rfl
    rw [List.map_cons, List.sum_cons, hfield]
    cases rest with
    | nil =>
      rw [dumpsFields, List.length_append, List.length_cons]
      omega
    | cons next rest =>
      rw [dumpsFields, List.length_append, List.length_cons, List.length_append, List.length_cons]
      · omega
      · simp

theorem insertField_perm : (insertField field fields).Perm (field :: fields) := by
  induction fields with
  | nil => exact .refl _
  | cons head rest ih =>
    rw [insertField]
    split
    · exact .refl _
    · exact (ih.cons head).trans (.swap field head rest)

theorem sortFields_perm :
    (sortFields fields).Perm (fields.map fun field => (field.1, sortKeys field.2)) := by
  induction fields with
  | nil => exact .refl _
  | cons field rest ih =>
    obtain ⟨key, v⟩ := field
    exact insertField_perm.trans (ih.cons (key, sortKeys v))

theorem canonical_dict_length_le : (canonical (.dict fields)).length ≤
    (fields.map fun field => fieldLength (field.1, sortKeys field.2)).sum + 2 := by
  have hsorted := @dumpsFields_length_le (sortFields fields)
  rw [(sortFields_perm.map fieldLength).sum_eq, List.map_map] at hsorted
  rw [canonical, sortKeys, dumps, List.length_append, List.length_cons, List.length_singleton]
  exact Nat.add_le_add_right (Nat.succ_le_succ hsorted) 1

end

end Library.PythonJson
