import Forgelet.Lib.Json

/-!
# JSON read into a struct

`json.Unmarshal` into Go values made of booleans, integers, strings and structs. The text has to be one value with
nothing behind it. A member belongs to the field whose name it has up to case; Go prefers the exact name, which makes
no difference as long as no two fields of a struct agree up to case. Members that repeat are read into the same field,
and `null` leaves a field as it is.
-/

namespace Json

open Bytes (byte ofString)

mutual

/-- A value at the given depth, with all members of its objects, with fuel. -/
def treeValue : Nat → Nat → Bytes → Except ScanError (Json × Bytes)
  | 0, _, _ => .error .maxDepth
  | fuel + 1, depth, s =>
    match skipSpace s with
    | [] => .error .unexpectedEOF
    | c :: rest =>
      if c == byte '{' then
        if 10000 < depth + 1 then .error .maxDepth
        else match skipSpace rest with
          | [] => .error .unexpectedEOF
          | d :: rest' =>
            if d == byte '}' then .ok (.object [], rest') else treeMembers fuel (depth + 1) [] rest
      else if c == byte '[' then
        if 10000 < depth + 1 then .error .maxDepth
        else match skipSpace rest with
          | [] => .error .unexpectedEOF
          | d :: rest' =>
            if d == byte ']' then .ok (.array [], rest') else treeElements fuel (depth + 1) [] rest
      else if c == byte '"' then do
        let (text, rest) ← stringBody rest
        return (.string text, rest)
      else if c == byte 't' then literal "true" (.bool true) (ofString "rue") rest
      else if c == byte 'f' then literal "false" (.bool false) (ofString "alse") rest
      else if c == byte 'n' then literal "null" .null (ofString "ull") rest
      else if c == byte '-' || Bytes.isDigit c then numberLiteral (c :: rest)
      else .error (.invalid c "looking for beginning of value")

/-- The elements of an array. -/
def treeElements : Nat → Nat → List Json → Bytes → Except ScanError (Json × Bytes)
  | 0, _, _, _ => .error .maxDepth
  | fuel + 1, depth, done, s => do
    let (item, s) ← treeValue fuel depth s
    match skipSpace s with
    | [] => .error .unexpectedEOF
    | c :: rest =>
      if c == byte ',' then treeElements fuel depth (done ++ [item]) rest
      else if c == byte ']' then .ok (.array (done ++ [item]), rest)
      else .error (.invalid c "after array element")

/-- The members of an object. -/
def treeMembers : Nat → Nat → List (Bytes × Json) → Bytes → Except ScanError (Json × Bytes)
  | 0, _, _, _ => .error .maxDepth
  | fuel + 1, depth, done, s =>
    match skipSpace s with
    | [] => .error .unexpectedEOF
    | c :: rest =>
      if c == byte '"' then do
        let (key, s) ← stringBody rest
        match skipSpace s with
        | [] => .error .unexpectedEOF
        | c :: s =>
          if c == byte ':' then do
            let (item, s) ← treeValue fuel depth s
            match skipSpace s with
            | [] => .error .unexpectedEOF
            | c :: rest =>
              if c == byte ',' then treeMembers fuel depth (done ++ [(key, item)]) rest
              else if c == byte '}' then .ok (.object (done ++ [(key, item)]), rest)
              else .error (.invalid c "after object key:value pair")
          else .error (.invalid c "after object key")
      else .error (.invalid c "looking for beginning of object key string")

end

/-- The value of a whole text. -/
def tree (s : Bytes) : Option Json :=
  match treeValue (2 * s.length + 2) 0 s with
  | .error _ => none
  | .ok (j, rest) => if (skipSpace rest).isEmpty then some j else none

/-- The types that a payload is decoded into. -/
inductive GoType
  | bool
  | int
  | string
  | struct (fields : List (Bytes × GoType))

mutual

/-- Reading a value into a type ends with an `UnmarshalTypeError`. -/
def GoType.mismatch : GoType → Json → Bool
  | .bool, .null | .bool, .bool _ => false
  | .int, .null => false
  | .int, .number text => (Bytes.atoi text).isNone
  | .string, .null | .string, .string _ => false
  | .struct _, .null => false
  | .struct fields, .object entries => mismatchFields fields entries
  | _, _ => true

/-- Some member does not fit the field of its name. -/
def mismatchFields : List (Bytes × GoType) → List (Bytes × Json) → Bool
  | [], _ => false
  | (name, type) :: fields, entries =>
    (entries.any fun e => Bytes.equalFold e.1 name && type.mismatch e.2) || mismatchFields fields entries

end

/-- The values read into the field at the end of a path. -/
def occurrences : List Bytes → Json → List Json
  | [], j => [j]
  | name :: path, .object entries =>
    entries.flatMap fun e => if Bytes.equalFold e.1 name then occurrences path e.2 else []
  | _ :: _, _ => []

/-- The value as a flag. -/
def asBool : Json → Option Bool
  | .bool b => some b
  | _ => none

/-- The value as a text. -/
def asString : Json → Option Bytes
  | .string s => some s
  | _ => none

/-- The flag at a path; the last member of a name counts. -/
def boolAt (path : List Bytes) (j : Json) : Bool := ((occurrences path j).filterMap asBool).getLast?.getD false

/-- The text at a path; the last member of a name counts. -/
def stringAt (path : List Bytes) (j : Json) : Bytes := ((occurrences path j).filterMap asString).getLast?.getD []

theorem mismatchFields_iff {fields : List (Bytes × GoType)} {entries : List (Bytes × Json)} :
    mismatchFields fields entries ↔
      ∃ f ∈ fields, ∃ e ∈ entries, Bytes.equalFold e.1 f.1 ∧ f.2.mismatch e.2 := by
  induction fields with
  | nil => simp [mismatchFields]
  | cons f fields ih =>
    rw [mismatchFields, Bool.or_eq_true, ih, List.any_eq_true]
    simp only [Bool.and_eq_true, List.mem_cons, exists_eq_or_imp]

theorem mismatch_struct_mono {fields fields' : List (Bytes × GoType)}
    (h : ∀ f ∈ fields, ∃ f' ∈ fields', f'.1 = f.1 ∧ ∀ j, f.2.mismatch j → f'.2.mismatch j) (j : Json)
    (hj : (GoType.struct fields).mismatch j) : (GoType.struct fields').mismatch j := by
  cases j with
  | null => cases hj
  | object entries =>
    rw [GoType.mismatch, mismatchFields_iff] at hj ⊢
    obtain ⟨f, hf, e, he, hname, hmismatch⟩ := hj
    obtain ⟨f', hf', hsame, himp⟩ := h f hf
    exact ⟨f', hf', e, he, by rw [hsame]; exact hname, himp e.2 hmismatch⟩
  | bool | number | string | array => rfl

end Json
