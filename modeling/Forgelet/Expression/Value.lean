import Forgelet.Lib.Float64
import Forgelet.Lib.Json

/-!
# Expression values

The values of the expression engine (`internal/workflow/expression/value.go`, with the comparisons of `eval.go` and the
JSON conversions of `functions.go`). Texts are byte strings; the entries of an object are in the order of Go's
iteration.
-/

namespace Forgelet.Expression

open Bytes (byte ofString)

/-- `Value`. Objects keep their keys verbatim but are looked up case-insensitively. -/
inductive Value
  | null
  | bool (b : Bool)
  | num (f : Float64)
  | str (s : Bytes)
  | arr (items : List Value)
  | obj (entries : List (Bytes × Value))

/-- `FormatNumber` renders integral numbers without a decimal point. -/
def formatNumber (f : Float64) : Bytes :=
  match f with
  | .nan => ofString "NaN"
  | .inf _ => ofString "Infinity"
  | .fin q =>
    if q.den = 1 ∧ q.num.natAbs < 10 ^ 15 then Bytes.ofInt q.num else Float64.format f

namespace Value

/-- A text as a value. -/
def text (s : String) : Value := .str (ofString s)

/-- `Truthy`: false, null, the empty string, 0 and NaN are falsy. -/
def truthy : Value → Bool
  | .null => false
  | .bool b => b
  | .num .nan => false
  | .num (.inf _) => true
  | .num (.fin q) => q ≠ 0
  | .str s => s ≠ []
  | .arr _ => true
  | .obj _ => true

mutual

/-- `String` renders the value the way GitHub displays it. -/
def display : Value → Bytes
  | .null => []
  | .bool b => ofString (if b then "true" else "false")
  | .num f => formatNumber f
  | .str s => s
  | .arr items => Bytes.join [byte ','] (displayItems items)
  | .obj entries =>
    let sorted := (displayEntries entries).insertionSort fun a b => Bytes.le a.1 b.1 = true
    Bytes.join [byte ','] (sorted.map fun e => e.1 ++ [byte '='] ++ e.2)

/-- The texts of the components of an array. -/
def displayItems : List Value → List Bytes
  | [] => []
  | item :: rest => item.display :: displayItems rest

/-- The texts of the entries of an object. -/
def displayEntries : List (Bytes × Value) → List (Bytes × Bytes)
  | [] => []
  | (key, item) :: rest => (key, item.display) :: displayEntries rest

end

/-- `toNumber` coerces a value for numeric comparison. -/
def toNumber : Value → Option Float64
  | .num f => some f
  | .bool b => some (.fin (if b then 1 else 0))
  | .str s => Float64.parse s.trimSpace
  | _ => none

/-- Whether the value is a number. -/
def isNumber : Value → Bool
  | .num _ => true
  | _ => false

/-- GitHub equality: strings without regard to case, numbers with what the other side reads as, other pairs through
their texts. -/
def looseEqual (l r : Value) : Bool :=
  match l, r with
  | .null, .null => true
  | .bool a, .bool b => a == b
  | .num a, .num b => a.eq b
  | .str a, .str b => Bytes.equalFold a b
  | .arr _, .arr _ => l.display == r.display
  | .obj _, .obj _ => l.display == r.display
  | .null, .str s => s = []
  | .str s, .null => s = []
  | _, _ =>
    if l.isNumber || r.isNumber then
      match l.toNumber, r.toNumber with
      | some a, some b => a.eq b
      | _, _ => false
    else Bytes.equalFold l.display r.display

/-- `none` when the pair is not comparable. Numbers come first, then strings; NaN compares as equal. -/
def compare (l r : Value) : Option Ordering :=
  match l.toNumber, r.toNumber, l.isNumber || r.isNumber with
  | some a, some b, true =>
    some (if a.lt b then .lt else if b.lt a then .gt else .eq)
  | _, _, _ =>
    match l, r with
    | .str a, .str b => some (Bytes.compare a.toLower b.toLower)
    | _, _ => none

/-- `objKey`: the value of the key, or of the first one that differs only in case. -/
def objKey (entries : List (Bytes × Value)) (key : Bytes) : Value :=
  match Entries.find? key entries with
  | some v => v
  | none =>
    match entries.find? fun e => Bytes.equalFold e.1 key with
    | some e => e.2
    | none => .null

mutual

/-- `valueToAny`. -/
def toJson : Value → Json
  | .null => .null
  | .bool b => .bool b
  | .num f => .number (formatNumber f)
  | .str s => .string s
  | .arr items => .array (toJsonItems items)
  | .obj entries => .object (toJsonEntries entries)

/-- `valueToAny` on the items of an array. -/
def toJsonItems : List Value → List Json
  | [] => []
  | item :: rest => item.toJson :: toJsonItems rest

/-- `valueToAny` on the entries of an object. -/
def toJsonEntries : List (Bytes × Value) → List (Bytes × Json)
  | [] => []
  | (key, item) :: rest => (key, item.toJson) :: toJsonEntries rest

end

mutual

/-- `anyToValue`. A number out of range stays a text. -/
def ofJson : Json → Value
  | .null => .null
  | .bool b => .bool b
  | .number text =>
    match Float64.parse text with
    | some f => .num f
    | none => .str text
  | .string s => .str s
  | .array items => .arr (ofJsonItems items)
  | .object entries => .obj (ofJsonEntries entries)

/-- `anyToValue` on the items of an array. -/
def ofJsonItems : List Json → List Value
  | [] => []
  | item :: rest => ofJson item :: ofJsonItems rest

/-- `anyToValue` on the entries of an object. -/
def ofJsonEntries : List (Bytes × Json) → List (Bytes × Value)
  | [] => []
  | (key, item) :: rest => (key, ofJson item) :: ofJsonEntries rest

end

end Value

end Forgelet.Expression
