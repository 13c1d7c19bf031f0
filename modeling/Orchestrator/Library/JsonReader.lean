import Mathlib.Data.List.Basic

/-!
# Reading JSON

A scanner that reads one value byte by byte, with the containers that are open on a stack, and
leaves the bytes behind the value. Strings are read as a lenient decoder reads them: what is not
UTF-8, and a surrogate without its other half, becomes the replacement character.
-/
namespace Library.JsonReader

/-! ## Text -/

/-- What has been read of a character that is not complete. -/
inductive Pending where
  | none
  /-- `count` bytes, of a character with `need` more, the next of them within the bounds. -/
  | bytes (count need low high value : Nat)
  | surrogate (n : Nat)
  deriving DecidableEq, Repr

/-- The characters of a string, the last one first. -/
structure Text where
  chars : List Char := []
  pending : Pending := .none
  deriving DecidableEq, Repr

def replacement : Char := '\uFFFD'

namespace Text
variable (t : Text)

def flush : Text :=
  match t.pending with
  | .none => t
  | .bytes count _ _ _ _ => { chars := List.replicate count replacement ++ t.chars }
  | .surrogate _ => { chars := replacement :: t.chars }

def char (c : Char) : Text := { chars := c :: t.flush.chars }

/-- The first byte of a character. -/
def first (b : Nat) : Text :=
  if b < 0x80 then { chars := Char.ofNat b :: t.chars }
  else if 0xC2 ≤ b ∧ b ≤ 0xDF then { t with pending := .bytes 1 1 0x80 0xBF (b - 0xC0) }
  else if b = 0xE0 then { t with pending := .bytes 1 2 0xA0 0xBF 0 }
  else if b = 0xED then { t with pending := .bytes 1 2 0x80 0x9F 0x0D }
  else if 0xE1 ≤ b ∧ b ≤ 0xEF then { t with pending := .bytes 1 2 0x80 0xBF (b - 0xE0) }
  else if b = 0xF0 then { t with pending := .bytes 1 3 0x90 0xBF 0 }
  else if 0xF1 ≤ b ∧ b ≤ 0xF3 then { t with pending := .bytes 1 3 0x80 0xBF (b - 0xF0) }
  else if b = 0xF4 then { t with pending := .bytes 1 3 0x80 0x8F 4 }
  else { chars := replacement :: t.chars }

def byte (b : Nat) : Text :=
  match t.pending with
  | .bytes count need low high value =>
    if low ≤ b ∧ b ≤ high then
      if need = 1 then { chars := Char.ofNat (value * 64 + b % 64) :: t.chars }
      else { t with pending := .bytes (count + 1) (need - 1) 0x80 0xBF (value * 64 + b % 64) }
    else t.flush.first b
  | _ => t.flush.first b

/-- An escaped UTF-16 unit that completes no pair. -/
def loneUnit (n : Nat) : Text :=
  if 0xD800 ≤ n ∧ n ≤ 0xDBFF then { t with pending := .surrogate n }
  else if 0xDC00 ≤ n ∧ n ≤ 0xDFFF then { chars := replacement :: t.chars }
  else { chars := Char.ofNat n :: t.chars }

def unit (n : Nat) : Text :=
  match t.pending with
  | .surrogate high =>
    if 0xDC00 ≤ n ∧ n ≤ 0xDFFF then
      { chars := Char.ofNat (0x10000 + (high - 0xD800) * 1024 + (n - 0xDC00)) :: t.chars }
    else t.flush.loneUnit n
  | _ => t.flush.loneUnit n

def chars? : List Char := t.flush.chars.reverse

end Text

/-! ## Values -/

inductive Value where
  | null
  | bool (b : Bool)
  /-- The literal, as written. -/
  | number (raw : List UInt8)
  | string (s : List Char)
  | array (items : List Value)
  | object (fields : List (List Char × Value))

/-- The last of several fields of one name counts. -/
def get? (fields : List (List Char × Value)) (name : String) : Option Value :=
  (fields.reverse.find? (·.1 = name.toList)).map (·.2)

/-- A container that is open, with what it holds, the last one first; `key` is read and its
value not. -/
inductive Frame where
  | array (items : List Value)
  | object (fields : List (List Char × Value)) (key : Option (List Char))

inductive NumberState where
  | neg | zero | int | dot | frac | exp | expSign | expInt
  deriving DecidableEq, Repr

def isDigit (b : UInt8) : Bool := 0x30 ≤ b.toNat && b.toNat ≤ 0x39

def isSpace (b : UInt8) : Bool := b = 0x20 || b = 0x09 || b = 0x0D || b = 0x0A

/-- The digit, the point or the exponent that may come next. -/
def NumberState.next (b : UInt8) : NumberState → Option NumberState
  | .neg => if b = 0x30 then some .zero else if isDigit b then some .int else none
  | .zero => if b = 0x2E then some .dot else if b = 0x65 || b = 0x45 then some .exp else none
  | .int =>
    if isDigit b then some .int else if b = 0x2E then some .dot
    else if b = 0x65 || b = 0x45 then some .exp else none
  | .dot => if isDigit b then some .frac else none
  | .frac =>
    if isDigit b then some .frac else if b = 0x65 || b = 0x45 then some .exp else none
  | .exp =>
    if b = 0x2B || b = 0x2D then some .expSign else if isDigit b then some .expInt else none
  | .expSign => if isDigit b then some .expInt else none
  | .expInt => if isDigit b then some .expInt else none

def NumberState.complete : NumberState → Bool
  | .zero | .int | .frac | .expInt => true
  | .neg | .dot | .exp | .expSign => false

/-- Where the scanner stands; `mayEnd` right after the opening of a container. -/
inductive Mode where
  | value (mayEnd : Bool)
  | key (mayEnd : Bool)
  | colon
  | after
  | string (t : Text)
  | escape (t : Text)
  | hex (left n : Nat) (t : Text)
  | number (s : NumberState) (raw : List UInt8)
  | word (rest : List UInt8) (v : Value)

inductive Next where
  | go (stack : List Frame) (mode : Mode)
  /-- The value is complete, the byte is behind it or its last. -/
  | done (v : Value) (consumed : Bool)

def maxNestingDepth : Nat := 10000

def close (v : Value) : List Frame → Option Next
  | [] => some (.done v true)
  | .array items :: stack => some (.go (.array (v :: items) :: stack) .after)
  | .object fields (some key) :: stack =>
    some (.go (.object ((key, v) :: fields) none :: stack) .after)
  | .object _ none :: _ => none

def openFrame (f : Frame) (mode : Mode) (stack : List Frame) : Option Next :=
  if stack.length < maxNestingDepth then some (.go (f :: stack) mode) else none

def endArray : List Frame → Option Next
  | .array items :: stack => close (.array items.reverse) stack
  | _ => none

def endObject : List Frame → Option Next
  | .object fields none :: stack => close (.object fields.reverse) stack
  | _ => none

def stepValue (mayEnd : Bool) (stack : List Frame) (b : UInt8) : Option Next :=
  if isSpace b then some (.go stack (.value mayEnd))
  else if b = 0x7B then openFrame (.object [] none) (.key true) stack
  else if b = 0x5B then openFrame (.array []) (.value true) stack
  else if b = 0x5D && mayEnd then endArray stack
  else if b = 0x22 then some (.go stack (.string {}))
  else if b = 0x2D then some (.go stack (.number .neg [b]))
  else if b = 0x30 then some (.go stack (.number .zero [b]))
  else if isDigit b then some (.go stack (.number .int [b]))
  else if b = 0x74 then some (.go stack (.word [0x72, 0x75, 0x65] (.bool true)))
  else if b = 0x66 then some (.go stack (.word [0x61, 0x6C, 0x73, 0x65] (.bool false)))
  else if b = 0x6E then some (.go stack (.word [0x75, 0x6C, 0x6C] .null))
  else none

def stepKey (mayEnd : Bool) (stack : List Frame) (b : UInt8) : Option Next :=
  if isSpace b then some (.go stack (.key mayEnd))
  else if b = 0x22 then some (.go stack (.string {}))
  else if b = 0x7D && mayEnd then endObject stack
  else none

def stepAfter (stack : List Frame) (b : UInt8) : Option Next :=
  if isSpace b then some (.go stack .after)
  else match stack with
  | .array _ :: _ =>
    if b = 0x2C then some (.go stack (.value false))
    else if b = 0x5D then endArray stack else none
  | .object _ _ :: _ =>
    if b = 0x2C then some (.go stack (.key false))
    else if b = 0x7D then endObject stack else none
  | [] => none

/-- A string is over: the key of a field, or a value. -/
def endString (s : List Char) : List Frame → Option Next
  | .object fields none :: stack => some (.go (.object fields (some s) :: stack) .colon)
  | stack => close (.string s) stack

def stepString (t : Text) (stack : List Frame) (b : UInt8) : Option Next :=
  if b = 0x22 then endString t.chars? stack
  else if b = 0x5C then some (.go stack (.escape t))
  else if b.toNat < 0x20 then none
  else some (.go stack (.string (t.byte b.toNat)))

def stepEscape (t : Text) (stack : List Frame) (b : UInt8) : Option Next :=
  if b = 0x75 then some (.go stack (.hex 4 0 t))
  else
    let char : Option Char :=
      if b = 0x22 || b = 0x5C || b = 0x2F then some (Char.ofNat b.toNat)
      else if b = 0x62 then some '\x08'
      else if b = 0x66 then some '\x0c'
      else if b = 0x6E then some '\n'
      else if b = 0x72 then some '\r'
      else if b = 0x74 then some '\t'
      else none
    char.map fun c => .go stack (.string (t.char c))

def hexDigit (b : UInt8) : Option Nat :=
  if isDigit b then some (b.toNat - 0x30)
  else if 0x61 ≤ b.toNat && b.toNat ≤ 0x66 then some (b.toNat - 0x57)
  else if 0x41 ≤ b.toNat && b.toNat ≤ 0x46 then some (b.toNat - 0x37)
  else none

def stepHex (left n : Nat) (t : Text) (stack : List Frame) (b : UInt8) : Option Next :=
  (hexDigit b).map fun digit =>
    .go stack (if left ≤ 1 then .string (t.unit (n * 16 + digit))
      else .hex (left - 1) (n * 16 + digit) t)

/-- A number ends with the byte behind it. -/
def stepNumber (s : NumberState) (raw : List UInt8) (stack : List Frame) (b : UInt8) :
    Option Next :=
  match s.next b with
  | some s => some (.go stack (.number s (b :: raw)))
  | none =>
    if s.complete then
      match close (.number raw.reverse) stack with
      | some (.go stack _) => stepAfter stack b
      | some (.done v _) => some (.done v false)
      | none => none
    else none

def step (stack : List Frame) (b : UInt8) : Mode → Option Next
  | .value mayEnd => stepValue mayEnd stack b
  | .key mayEnd => stepKey mayEnd stack b
  | .colon =>
    if isSpace b then some (.go stack .colon)
    else if b = 0x3A then some (.go stack (.value false))
    else none
  | .after => stepAfter stack b
  | .string t => stepString t stack b
  | .escape t => stepEscape t stack b
  | .hex left n t => stepHex left n t stack b
  | .number s raw => stepNumber s raw stack b
  | .word (c :: rest) v =>
    if b = c then
      match rest with
      | [] => close v stack
      | _ => some (.go stack (.word rest v))
    else none
  | .word [] _ => none

/-- The value, and the bytes behind it. -/
def read (stack : List Frame) (mode : Mode) : List UInt8 → Option (Value × List UInt8)
  | [] =>
    match stack, mode with
    | [], .number s raw => if s.complete then some (.number raw.reverse, []) else none
    | _, _ => none
  | b :: bs =>
    match step stack b mode with
    | some (.go stack mode) => read stack mode bs
    | some (.done v consumed) => some (v, if consumed then bs else b :: bs)
    | none => none

def decode (bs : List UInt8) : Option (Value × List UInt8) := read [] (.value false) bs

end Library.JsonReader
