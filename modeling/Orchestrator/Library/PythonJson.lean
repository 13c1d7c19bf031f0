import Mathlib.Data.List.Basic

/-!
# JSON as Python reads it

A text is a list of code points, as an escape may name half of a surrogate pair. The bytes are
strict UTF-8; the reader descends recursively, and refuses objects with two fields of one name,
the constants that are no numbers, and integers with more digits than the interpreter converts.
-/
namespace Library.PythonJson

abbrev Text := List Nat

instance : LawfulBEq Text := inferInstance

def text (s : String) : Text := s.toList.map Char.toNat

/-! ## UTF-8 -/

def continues (b : UInt8) : Bool := 0x80 ≤ b.toNat && b.toNat ≤ 0xBF

/-- The first two bytes of a character of three bytes. -/
def opensTriple (a b : UInt8) : Bool :=
  (a = 0xE0 && 0xA0 ≤ b.toNat && continues b) || (a = 0xED && 0x80 ≤ b.toNat && b.toNat ≤ 0x9F) ||
    (0xE1 ≤ a.toNat && a.toNat ≤ 0xEF && a ≠ 0xED && continues b)

/-- The first two bytes of a character of four bytes. -/
def opensQuad (a b : UInt8) : Bool :=
  (a = 0xF0 && 0x90 ≤ b.toNat && continues b) || (a = 0xF4 && 0x80 ≤ b.toNat && b.toNat ≤ 0x8F) ||
    (0xF1 ≤ a.toNat && a.toNat ≤ 0xF3 && continues b)

/-- `bytes.decode("utf-8")`. -/
def decodeUtf8 : List UInt8 → Option Text
  | [] => some []
  | a :: rest =>
    if a.toNat < 0x80 then (decodeUtf8 rest).map (a.toNat :: ·)
    else match rest with
    | [] => none
    | b :: rest =>
      if 0xC2 ≤ a.toNat ∧ a.toNat ≤ 0xDF ∧ continues b = true then
        (decodeUtf8 rest).map ((a.toNat % 32 * 64 + b.toNat % 64) :: ·)
      else match rest with
      | [] => none
      | c :: rest =>
        if opensTriple a b = true ∧ continues c = true then
          (decodeUtf8 rest).map
            (((a.toNat % 16 * 64 + b.toNat % 64) * 64 + c.toNat % 64) :: ·)
        else match rest with
        | [] => none
        | d :: rest =>
          if opensQuad a b = true ∧ continues c = true ∧ continues d = true then
            (decodeUtf8 rest).map ((((a.toNat % 8 * 64 + b.toNat % 64) * 64 + c.toNat % 64) * 64 +
              d.toNat % 64) :: ·)
          else none

/-! ## Values -/

inductive Value where
  | null
  | bool (b : Bool)
  | int (n : Int)
  /-- The literal, as written. -/
  | float (raw : Text)
  | str (s : Text)
  | list (items : List Value)
  | dict (fields : List (Text × Value))

abbrev Fields := List (Text × Value)

/-- `dict.get`, with a `none` for a missing key. -/
def get? (fields : Fields) (key : String) : Option Value :=
  (fields.find? (·.1 = text key)).map (·.2)

def Value.str? : Value → Option Text
  | .str s => some s
  | _ => none

inductive Error where
  | duplicateKey
  | invalid
  deriving DecidableEq, Repr

/-! ## Scanning -/

def isSpace (c : Nat) : Bool := c = 0x20 || c = 0x09 || c = 0x0A || c = 0x0D

def skipSpace (s : Text) : Text := s.dropWhile isSpace

def isDigit (c : Nat) : Bool := 0x30 ≤ c && c ≤ 0x39

def hexDigit? (c : Nat) : Option Nat :=
  if isDigit c then some (c - 0x30)
  else if 0x41 ≤ c && c ≤ 0x46 then some (c - 0x37)
  else if 0x61 ≤ c && c ≤ 0x66 then some (c - 0x57)
  else none

/-- What the letter behind a backslash stands for. -/
def escape? (c : Nat) : Option Nat :=
  if c = 0x22 || c = 0x5C || c = 0x2F then some c
  else if c = 0x62 then some 0x08
  else if c = 0x66 then some 0x0C
  else if c = 0x6E then some 0x0A
  else if c = 0x72 then some 0x0D
  else if c = 0x74 then some 0x09
  else none

def hex4? (a b c d : Nat) : Option Nat := do
  let a ← hexDigit? a
  let b ← hexDigit? b
  let c ← hexDigit? c
  let d ← hexDigit? d
  return ((a * 16 + b) * 16 + c) * 16 + d

/-- The two halves of a pair that stand side by side are one character. -/
def joinSurrogates : Text → Text
  | [] => []
  | [c] => [c]
  | c :: d :: rest =>
    if 0xD800 ≤ c ∧ c ≤ 0xDBFF ∧ 0xDC00 ≤ d ∧ d ≤ 0xDFFF then
      (0x10000 + (c - 0xD800) * 1024 + (d - 0xDC00)) :: joinSurrogates rest
    else c :: joinSurrogates (d :: rest)

/-- The characters up to the closing quote, and what is behind it. -/
def scanString : Text → Option (Text × Text)
  | [] => none
  | c :: rest =>
    if c = 0x22 then some ([], rest)
    else if c < 0x20 then none
    else if c = 0x5C then match rest with
    | [] => none
    | e :: rest =>
      if e = 0x75 then match rest with
      | w :: x :: y :: z :: rest => do
        let n ← hex4? w x y z
        let (s, rest) ← scanString rest
        return (n :: s, rest)
      | _ => none
      else do
        let n ← escape? e
        let (s, rest) ← scanString rest
        return (n :: s, rest)
    else (scanString rest).map fun (s, rest) => (c :: s, rest)

def readString (s : Text) : Option (Text × Text) :=
  (scanString s).map fun (s, rest) => (joinSurrogates s, rest)

def maxStrDigits : Nat := 4300

def decimal (digits : Text) : Nat := digits.foldl (fun n c => n * 10 + (c - 0x30)) 0

/-- A fraction, if there is one. -/
def scanFraction (s : Text) : Text × Text :=
  match s with
  | 0x2E :: rest =>
    let digits := rest.takeWhile isDigit
    if digits = [] then ([], s) else (0x2E :: digits, rest.dropWhile isDigit)
  | _ => ([], s)

def scanExponent (s : Text) : Text × Text :=
  match s with
  | c :: rest =>
    if c = 0x65 || c = 0x45 then
      let sign := rest.takeWhile (fun c => c = 0x2B || c = 0x2D) |>.take 1
      let rest := rest.drop sign.length
      let digits := rest.takeWhile isDigit
      if digits = [] then ([], s) else (c :: sign ++ digits, rest.dropWhile isDigit)
    else ([], s)
  | [] => ([], s)

/-- The digits of an integer without a sign. -/
def scanDigits (s : Text) : Option (Text × Text) :=
  match s with
  | 0x30 :: rest => some ([0x30], rest)
  | _ =>
    let digits := s.takeWhile isDigit
    if digits = [] then none else some (digits, s.dropWhile isDigit)

def readNumber (s : Text) : Option (Value × Text) := do
  let negative := s.head? = some 0x2D
  let (digits, rest) ← scanDigits (if negative then s.tail else s)
  let (fraction, rest) := scanFraction rest
  let (exponent, rest) := scanExponent rest
  let sign : Text := if negative then [0x2D] else []
  if fraction = [] ∧ exponent = [] then
    if digits.length > maxStrDigits then none
    else some (.int (if negative then -(decimal digits : Int) else decimal digits), rest)
  else some (.float (sign ++ digits ++ fraction ++ exponent), rest)

/-- `object_pairs_hook`. -/
def distinctKeys : Fields → Bool
  | [] => true
  | (key, _) :: rest => rest.all (fun field => field.1 ≠ key) && distinctKeys rest

def word? (word : String) (s : Text) : Option Text :=
  if (text word).isPrefixOf s then some (s.drop word.length) else none

/-! ## Reading -/

mutual

/-- `depth` is how much deeper the interpreter recurses. -/
def readValue : Nat → Nat → Text → Except Error (Value × Text)
  | 0, _, _ => .error .invalid
  | n + 1, depth, s =>
    match s with
    | [] => .error .invalid
    | c :: rest =>
      if c = 0x22 then match readString rest with
      | some (s, rest) => .ok (.str s, rest)
      | none => .error .invalid
      else if c = 0x7B then match depth with
      | 0 => .error .invalid
      | depth + 1 => match skipSpace rest with
        | 0x7D :: rest => .ok (.dict [], rest)
        | rest => readFields n depth [] rest
      else if c = 0x5B then match depth with
      | 0 => .error .invalid
      | depth + 1 => match skipSpace rest with
        | 0x5D :: rest => .ok (.list [], rest)
        | rest => readItems n depth [] rest
      else match word? "null" s, word? "true" s, word? "false" s with
      | some rest, _, _ => .ok (.null, rest)
      | _, some rest, _ => .ok (.bool true, rest)
      | _, _, some rest => .ok (.bool false, rest)
      | _, _, _ => match readNumber s with
        | some number => .ok number
        | none => .error .invalid

/-- The fields of an object from the next key on, those before it in reverse. -/
def readFields : Nat → Nat → Fields → Text → Except Error (Value × Text)
  | 0, _, _, _ => .error .invalid
  | n + 1, depth, fields, s =>
    match s with
    | 0x22 :: rest => match readString rest with
      | none => .error .invalid
      | some (key, rest) => match skipSpace rest with
        | 0x3A :: rest => do
          let (v, rest) ← readValue n depth (skipSpace rest)
          match skipSpace rest with
          | 0x7D :: rest =>
            let fields := ((key, v) :: fields).reverse
            if distinctKeys fields = true then .ok (.dict fields, rest)
            else .error .duplicateKey
          | 0x2C :: rest => readFields n depth ((key, v) :: fields) (skipSpace rest)
          | _ => .error .invalid
        | _ => .error .invalid
    | _ => .error .invalid

def readItems : Nat → Nat → List Value → Text → Except Error (Value × Text)
  | 0, _, _, _ => .error .invalid
  | n + 1, depth, items, s => do
    let (v, rest) ← readValue n depth s
    match skipSpace rest with
    | 0x5D :: rest => .ok (.list (v :: items).reverse, rest)
    | 0x2C :: rest => readItems n depth (v :: items) (skipSpace rest)
    | _ => .error .invalid

end

/-- `json.loads` of a text, with `object_pairs_hook` and `parse_constant`. -/
def loads (depth : Nat) (s : Text) : Except Error Value := do
  let (v, rest) ← readValue (s.length + 1) depth (skipSpace s)
  if skipSpace rest = [] then .ok v else .error .invalid

end Library.PythonJson
