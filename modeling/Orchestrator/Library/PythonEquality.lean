import Orchestrator.Library.PythonDumps
import Mathlib.Data.Int.Log
import Mathlib.Data.Rat.Floor

/-!
# When Python finds two values equal

Numbers are compared by what they stand for, whether they are booleans, integers or floats, and
objects whatever the order of their fields: two values are equal if they have one normal form.
-/
namespace Library.PythonJson

/-! ## Numbers -/

/-- A literal too large for a float is infinite. -/
inductive Number where
  | finite (q : ℚ)
  | infinite (negative : Bool)
  deriving DecidableEq

/-- The nearest integer, and of two the even one. -/
def roundHalfEven (q : ℚ) : Int :=
  let n := ⌊q⌋
  if q - n < 1 / 2 ∨ (q - n = 1 / 2 ∧ n % 2 = 0) then n else n + 1

/-- The float nearest to a number that is not negative. -/
def nearestFloat (q : ℚ) : Option ℚ :=
  if q = 0 then some 0
  else
    let unit := (2 : ℚ) ^ max (Int.log 2 q - 52) (-1074)
    let rounded := roundHalfEven (q / unit) * unit
    if 2 ^ 1024 ≤ rounded then none else some rounded

/-- The digits behind the `e` of a literal. -/
def exponentOf (s : Text) : Int :=
  match s with
  | [] => 0
  | 0x2D :: digits => -decimal digits
  | 0x2B :: digits => decimal digits
  | digits => decimal digits

/-- The float of a literal. -/
def floatOf (raw : Text) : Number :=
  let negative := raw.head? = some 0x2D
  let raw := if negative then raw.tail else raw
  let whole := raw.takeWhile isDigit
  let (fraction, rest) := scanFraction (raw.dropWhile isDigit)
  let digits := decimal (whole ++ fraction.tail)
  let q := (digits : ℚ) * 10 ^ (exponentOf rest.tail - fraction.tail.length)
  match nearestFloat q with
  | some q => .finite (if negative then -q else q)
  | none => .infinite negative

/-! ## Normal forms -/

inductive Normal where
  | null
  | number (n : Number)
  | str (s : Text)
  | list (items : List Normal)
  | dict (fields : List (Text × Normal))

def insertNormal (field : Text × Normal) : List (Text × Normal) → List (Text × Normal)
  | [] => [field]
  | head :: rest =>
    if keyLe field.1 head.1 = true then field :: head :: rest else head :: insertNormal field rest

mutual

def normal : Value → Normal
  | .null => .null
  | .bool b => .number (.finite (if b = true then 1 else 0))
  | .int n => .number (.finite n)
  | .float raw => .number (floatOf raw)
  | .str s => .str s
  | .list items => .list (normalItems items)
  | .dict fields => .dict (normalFields fields)

def normalItems : List Value → List Normal
  | [] => []
  | v :: rest => normal v :: normalItems rest

def normalFields : List (Text × Value) → List (Text × Normal)
  | [] => []
  | (key, v) :: rest => insertNormal (key, normal v) (normalFields rest)

end

mutual

def Normal.same : Normal → Normal → Bool
  | .null, .null => true
  | .number n, .number m => n = m
  | .str s, .str t => s = t
  | .list items, .list items' => Normal.sameItems items items'
  | .dict fields, .dict fields' => Normal.sameFields fields fields'
  | _, _ => false

def Normal.sameItems : List Normal → List Normal → Bool
  | [], [] => true
  | a :: as, b :: bs => Normal.same a b && Normal.sameItems as bs
  | _, _ => false

def Normal.sameFields : List (Text × Normal) → List (Text × Normal) → Bool
  | [], [] => true
  | (k, a) :: as, (l, b) :: bs => k = l && Normal.same a b && Normal.sameFields as bs
  | _, _ => false

end

mutual

theorem Normal.same_iff : ∀ {a b : Normal}, Normal.same a b = true ↔ a = b
  | .null, b => by cases b <;> simp [Normal.same]
  | .number n, b => by cases b <;> simp [Normal.same]
  | .str s, b => by cases b <;> simp [Normal.same]
  | .list items, b => by cases b <;> simp [Normal.same, Normal.sameItems_iff]
  | .dict fields, b => by cases b <;> simp [Normal.same, Normal.sameFields_iff]

theorem Normal.sameItems_iff : ∀ {as bs : List Normal}, Normal.sameItems as bs = true ↔ as = bs
  | [], bs => by cases bs <;> simp [Normal.sameItems]
  | a :: as, [] => by simp [Normal.sameItems]
  | a :: as, b :: bs => by
    simp [Normal.sameItems, @Normal.same_iff a b,
      @Normal.sameItems_iff as bs]

theorem Normal.sameFields_iff : ∀ {as bs : List (Text × Normal)},
    Normal.sameFields as bs = true ↔ as = bs
  | [], bs => by cases bs <;> simp [Normal.sameFields]
  | (k, a) :: as, [] => by simp [Normal.sameFields]
  | (k, a) :: as, (l, b) :: bs => by
    simp [Normal.sameFields, @Normal.same_iff a b,
      @Normal.sameFields_iff as bs]

end

instance : DecidableEq Normal := fun a b => decidable_of_iff (a.same b = true) Normal.same_iff

/-- `a == b`. -/
def Equal (a b : Value) : Prop := normal a = normal b

instance (a b : Value) : Decidable (Equal a b) := inferInstanceAs (Decidable (_ = _))

example :
    Equal (.list [.float (text "1e0"), .bool false]) (.list [.int 1, .float (text "0.0")]) := by
  decide +kernel

/-! ## Equal objects -/

section Fields
variable {fields fields' : Fields} {key : Text}

theorem keyLe_refl (s : Text) : keyLe s s = true := by
  induction s with
  | nil => rfl
  | cons c s ih => simp [keyLe, ih]

theorem find?_insertNormal {field : Text × Normal} {l : List (Text × Normal)} :
    (insertNormal field l).find? (fun f => f.1 = key) =
      if field.1 = key then some field else l.find? (fun f => f.1 = key) := by
  induction l with
  | nil => simp [insertNormal, List.find?_cons]; split <;> simp_all
  | cons head rest ih =>
    rw [insertNormal]
    split
    · rw [List.find?_cons]; split <;> simp_all
    · rename_i hlt
      rw [List.find?_cons, List.find?_cons, ih]
      by_cases hkey : field.1 = key
      · have hne : head.1 ≠ key := by
          rintro rfl
          rw [hkey, keyLe_refl] at hlt
          exact hlt rfl
        simp [hkey, hne]
      · simp [hkey]

/-- A normal form has the normal forms of the fields. -/
theorem find?_normalFields :
    (normalFields fields).find? (fun f => f.1 = key) =
      (fields.find? (fun f => f.1 = key)).map fun f => (f.1, normal f.2) := by
  induction fields with
  | nil => rfl
  | cons field rest ih =>
    obtain ⟨k, v⟩ := field
    rw [normalFields, find?_insertNormal, ih, List.find?_cons]
    by_cases hkey : k = key <;> simp [hkey]

/-- Equal objects have the same strings. -/
theorem get?_of_equal {key : String} {s : Text} (h : Equal (.dict fields) (.dict fields'))
    (hget : (get? fields key).bind Value.str? = some s) :
    (get? fields' key).bind Value.str? = some s := by
  have hnormal : normalFields fields = normalFields fields' := by
    have heq : normal (.dict fields) = normal (.dict fields') := h
    rw [normal, normal] at heq
    exact Normal.dict.inj heq
  have hfind : (normalFields fields).find? (fun f => f.1 = text key) = _ := find?_normalFields
  rw [hnormal, find?_normalFields] at hfind
  obtain ⟨v, hv, hstr⟩ := Option.bind_eq_some_iff.mp hget
  obtain ⟨f, hf, rfl⟩ := Option.map_eq_some_iff.mp hv
  rw [hf, Option.map_some] at hfind
  obtain ⟨f', hf', hfield⟩ := Option.map_eq_some_iff.mp hfind
  have hsame : normal f'.2 = normal f.2 := congrArg Prod.snd hfield
  have hf's : f'.2 = .str s := by
    cases hfv : f.2 <;> simp [hfv, Value.str?] at hstr
    rw [hfv, normal, hstr] at hsame
    cases hfv' : f'.2 <;> simp [hfv', normal] at hsame
    rw [hsame]
  rw [get?, hf']
  simp [hf's, Value.str?]

end Fields

end Library.PythonJson
