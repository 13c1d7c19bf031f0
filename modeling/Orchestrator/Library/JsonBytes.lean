import Orchestrator.Library.PythonJson

/-!
# JSON in bytes as Python reads it

`json.loads` of bytes: their encoding is told from the first of them, and halves of surrogate
pairs are let through wherever they stand.
-/
namespace Library.PythonJson

inductive Encoding where
  | utf8 | utf8Sig | utf16 | utf16LE | utf16BE | utf32 | utf32LE | utf32BE
  deriving DecidableEq, Repr

/-- `json.detect_encoding`. -/
def detectEncoding (bytes : List UInt8) : Encoding :=
  if [0x00, 0x00, 0xFE, 0xFF] <+: bytes ∨ [0xFF, 0xFE, 0x00, 0x00] <+: bytes then .utf32
  else if [0xFE, 0xFF] <+: bytes ∨ [0xFF, 0xFE] <+: bytes then .utf16
  else if [0xEF, 0xBB, 0xBF] <+: bytes then .utf8Sig
  else match bytes with
  | a :: b :: c :: d :: _ =>
    if a = 0 then if b ≠ 0 then .utf16BE else .utf32BE
    else if b = 0 then if c ≠ 0 ∨ d ≠ 0 then .utf16LE else .utf32LE
    else .utf8
  | [a, b] => if a = 0 then .utf16BE else if b = 0 then .utf16LE else .utf8
  | _ => .utf8

/-- A half of a surrogate pair that is not written as an escape. The reader joins the halves
that it finds side by side, which Python does to escapes only, so it is not to see the others. -/
def asideHalf (c : Nat) : Nat := if 0xD800 ≤ c ∧ c ≤ 0xDFFF then 0x110000 + c else c

def backHalf (c : Nat) : Nat := if 0x110000 ≤ c then c - 0x110000 else c

/-- `decode("utf-8", "surrogatepass")`. -/
def decodeUtf8Pass : List UInt8 → Option Text
  | [] => some []
  | a :: rest =>
    if a.toNat < 0x80 then (decodeUtf8Pass rest).map (a.toNat :: ·)
    else match rest with
    | [] => none
    | b :: rest =>
      if 0xC2 ≤ a.toNat ∧ a.toNat ≤ 0xDF ∧ continues b = true then
        (decodeUtf8Pass rest).map ((a.toNat % 32 * 64 + b.toNat % 64) :: ·)
      else match rest with
      | [] => none
      | c :: rest =>
        if (opensTriple a b = true ∨ a = 0xED ∧ continues b = true) ∧ continues c = true then
          (decodeUtf8Pass rest).map
            (asideHalf ((a.toNat % 16 * 64 + b.toNat % 64) * 64 + c.toNat % 64) :: ·)
        else match rest with
        | [] => none
        | d :: rest =>
          if opensQuad a b = true ∧ continues c = true ∧ continues d = true then
            (decodeUtf8Pass rest).map
              ((((a.toNat % 8 * 64 + b.toNat % 64) * 64 + c.toNat % 64) * 64 + d.toNat % 64) :: ·)
          else none

/-- Two bytes each, or four, the lower first or last. -/
def codeUnits (width : Nat) (littleEndian : Bool) : Nat → List UInt8 → Option (List Nat)
  | _, [] => some []
  | 0, _ :: _ => none
  | n + 1, bytes =>
    let unit := bytes.take width
    if unit.length < width then none
    else
      let ordered := if littleEndian = true then unit.reverse else unit
      (codeUnits width littleEndian n (bytes.drop width)).map
        (ordered.foldl (fun n b => n * 256 + b.toNat) 0 :: ·)

/-- `decode("utf-16-le", "surrogatepass")` and `"utf-16-be"`. -/
def decodeUtf16Pass (littleEndian : Bool) (bytes : List UInt8) : Option Text :=
  (codeUnits 2 littleEndian bytes.length bytes).map fun units =>
    (joinSurrogates units).map asideHalf

/-- `decode("utf-32-le", "surrogatepass")` and `"utf-32-be"`. -/
def decodeUtf32Pass (littleEndian : Bool) (bytes : List UInt8) : Option Text := do
  let units ← codeUnits 4 littleEndian bytes.length bytes
  if units.all (· < 0x110000) = true then some (units.map asideHalf) else none

/-- `bytes.decode(detect_encoding(bytes), "surrogatepass")`, halves of pairs put aside. -/
def decodeDetected (bytes : List UInt8) : Option Text :=
  match detectEncoding bytes with
  | .utf8 => decodeUtf8Pass bytes
  | .utf8Sig => decodeUtf8Pass (bytes.drop 3)
  | .utf16 => decodeUtf16Pass (bytes.head? = some 0xFF) (bytes.drop 2)
  | .utf16LE => decodeUtf16Pass true bytes
  | .utf16BE => decodeUtf16Pass false bytes
  | .utf32 => decodeUtf32Pass (bytes.head? = some 0xFF) (bytes.drop 4)
  | .utf32LE => decodeUtf32Pass true bytes
  | .utf32BE => decodeUtf32Pass false bytes

mutual

/-- The value with the halves back, where no object has two fields of one name. -/
def Value.restore : Value → Except Error Value
  | .str s => .ok (.str (s.map backHalf))
  | .list items => do return .list (← restoreItems items)
  | .dict fields => do
    let fields ← restoreFields fields
    if distinctKeys fields = true then .ok (.dict fields) else .error .duplicateKey
  | v => .ok v

def restoreItems : List Value → Except Error (List Value)
  | [] => .ok []
  | v :: rest => do return (← v.restore) :: (← restoreItems rest)

def restoreFields : List (Text × Value) → Except Error Fields
  | [] => .ok []
  | (key, v) :: rest => do
    let v ← v.restore
    return (key.map backHalf, v) :: (← restoreFields rest)

end

/-- `json.loads` of bytes, with `object_pairs_hook` and `parse_constant`. -/
def loadsBytes (depth : Nat) (bytes : List UInt8) : Except Error Value :=
  match decodeDetected bytes with
  | none => .error .invalid
  | some s => do (← loads depth s).restore

end Library.PythonJson
