import Mathlib.Data.Rat.Floor
import Forgelet.Lib.Bytes

/-!
# Go's `float64`

The finite values as rationals, with the infinities and NaN; the two zeros are one value, as no modelled code tells
them apart. Reading rounds to the nearest double (ties to even) and writing finds the shortest decimal that reads back,
as `strconv` does.
-/

/-- A `float64`. -/
inductive Float64
  | nan
  | inf (neg : Bool)
  | fin (q : ℚ)
deriving DecidableEq

namespace Float64

open Bytes (byte ofString)

/-- `base ^ e` for an exponent of either sign. -/
def power (base : Nat) (e : Int) : ℚ :=
  if 0 ≤ e then ((base ^ e.toNat : Nat) : ℚ) else mkRat 1 (base ^ (-e).toNat)

/-- The nearest integer, ties to even. -/
def roundHalfEven (q : ℚ) : Int :=
  let f := q.floor
  let d := q - f
  if d < mkRat 1 2 then f
  else if mkRat 1 2 < d then f + 1
  else if f % 2 = 0 then f else f + 1

/-- The exponent `e` with `2 ^ e ≤ q < 2 ^ (e + 1)`, for a positive `q`. -/
def exponent (q : ℚ) : Int :=
  let e : Int := (Nat.log2 q.num.natAbs : Int) - (Nat.log2 q.den : Int)
  if power 2 e ≤ q then e else e - 1

/-- The double nearest to `q`, or `none` when it is beyond the largest one. -/
def round (q : ℚ) : Option ℚ :=
  if q = 0 then some 0
  else
    let a := if q < 0 then -q else q
    let ulp := power 2 (max (exponent a - 52) (-1074))
    let r := (roundHalfEven (a / ulp) : ℚ) * ulp
    if power 2 1024 ≤ r then none else some (if q < 0 then -r else r)

/-- The lower case of a letter. -/
def lower (b : UInt8) : UInt8 := b ||| 0x20

/-- The value of a digit of the given base, 10 or 16. -/
def digitIn (base : Nat) (b : UInt8) : Option Nat :=
  if Bytes.isDigit b then some (b.toNat - 48)
  else if base = 16 && 0x61 ≤ lower b && lower b ≤ 0x66 then some ((lower b).toNat - 87)
  else none

/-- The digits so far, how many stand after the point, and what was seen. -/
structure Mantissa where
  value : Nat
  fraction : Nat
  sawDot : Bool
  sawDigits : Bool
deriving DecidableEq

/-- The mantissa at the start of a text, and what follows it. -/
def mantissa (base : Nat) (m : Mantissa) : Bytes → Mantissa × Bytes
  | [] => (m, [])
  | b :: rest =>
    if b == byte '_' then mantissa base m rest
    else if b == byte '.' then
      if m.sawDot then (m, b :: rest) else mantissa base { m with sawDot := true } rest
    else match digitIn base b with
      | none => (m, b :: rest)
      | some d =>
        mantissa base
          { m with
            value := m.value * base + d
            fraction := if m.sawDot then m.fraction + 1 else m.fraction
            sawDigits := true } rest

/-- The digits of an exponent, which stop counting at 10000, and what follows them. -/
def exponentDigits (e : Nat) : Bytes → Nat × Bytes
  | [] => (e, [])
  | b :: rest =>
    if b == byte '_' then exponentDigits e rest
    else if Bytes.isDigit b then
      exponentDigits (if e < 10000 then e * 10 + (b.toNat - 48) else e) rest
    else (e, b :: rest)

/-- A sign at the start of a text, and what follows it. -/
def sign : Bytes → Bool × Bytes
  | b :: rest =>
    if b == byte '-' then (true, rest)
    else if b == byte '+' then (false, rest) else (false, b :: rest)
  | [] => (false, [])

/-- The exponent and what follows it; `none` when it has no digits or is missing. -/
def readExponent (base : Nat) (s : Bytes) : Option (Int × Bytes) :=
  match s with
  | b :: rest =>
    if lower b == byte (if base = 16 then 'p' else 'e') then
      let (neg, digits) := sign rest
      match digits with
      | d :: _ =>
        if Bytes.isDigit d then
          let (e, rest) := exponentDigits 0 digits
          some (if neg then -(e : Int) else e, rest)
        else none
      | [] => none
    else if base = 16 then none else some (0, s)
  | [] => if base = 16 then none else some (0, [])

/-- The last character `underscoreOK` has seen. -/
inductive Saw
  | start
  | digit
  | underscore
  | other
deriving DecidableEq

/-- The loop of `underscoreOK`: underscores stand between digits, or after the base. -/
def underscoreLoop (hex : Bool) (saw : Saw) : Bytes → Bool
  | [] => saw != .underscore
  | b :: rest =>
    if (digitIn (if hex then 16 else 10) b).isSome then underscoreLoop hex .digit rest
    else if b == byte '_' then
      if saw != .digit then false else underscoreLoop hex .underscore rest
    else if saw == .underscore then false
    else underscoreLoop hex .other rest

/-- `strconv.underscoreOK`: underscores separate digits only. -/
def underscoreOK (s : Bytes) : Bool :=
  match (sign s).2 with
  | z :: x :: rest =>
    if z == byte '0' &&
        (lower x == byte 'b' || lower x == byte 'o' || lower x == byte 'x') then
      underscoreLoop (lower x == byte 'x') .digit rest
    else underscoreLoop false .start (z :: x :: rest)
  | s => underscoreLoop false .start s

/-- The named values: an infinity with an optional sign, and NaN without one. -/
def special (s : Bytes) : Option Float64 :=
  let (neg, rest) := sign s
  let word := rest.map lower
  if word = ofString "inf" || word = ofString "infinity" then some (.inf neg)
  else if s.map lower = ofString "nan" then some .nan
  else none

/-- The base of an unsigned number and its digits. -/
def baseOf (s : Bytes) : Nat × Bytes :=
  match s with
  | z :: x :: d :: rest =>
    if z == byte '0' && lower x == byte 'x' then (16, d :: rest) else (10, s)
  | _ => (10, s)

/-- `strconv.ParseFloat`: `none` for no number, or one out of range. -/
def parse (s : Bytes) : Option Float64 :=
  match special s with
  | some f => some f
  | none =>
    let (neg, unsigned) := sign s
    let (base, digits) := baseOf unsigned
    let (m, rest) := mantissa base ⟨0, 0, false, false⟩ digits
    if !m.sawDigits then none
    else match readExponent base rest with
      | some (e, []) =>
        if byte '_' ∈ s && !underscoreOK s then none
        else
          let scale :=
            if base = 16 then power 2 (e - 4 * m.fraction) else power 10 (e - m.fraction)
          let q : ℚ := if neg then -(m.value * scale) else m.value * scale
          (round q).map .fin
      | _ => none

/-- The exponent `e` with `10 ^ (e - 1) ≤ q < 10 ^ e`, for a positive `q`. -/
def decimalPoint (q : ℚ) : Int :=
  let e : Int := (Bytes.ofNat q.num.natAbs).length - (Bytes.ofNat q.den).length
  if power 10 e ≤ q then e + 1 else e

/-- The decimal with `n` digits nearest to `q` that reads back as `q`. -/
def shortestWith (q : ℚ) (n : Nat) : Option Nat :=
  let scale := power 10 (n - decimalPoint q)
  let x := q * scale
  let lo := x.floor.toNat
  let reads := fun m : Nat => round ((m : ℚ) / scale) = some q
  if reads lo && (x = lo || !reads (lo + 1) || x - lo ≤ (lo + 1 : Nat) - x) then some lo
  else if reads (lo + 1) then some (lo + 1) else none

/-- The shortest decimal that reads back as `q`: digits and point. Seventeen are always enough. -/
def shortestFrom (q : ℚ) : Nat → Nat → Nat × Int
  | 0, n => ((q * power 10 (n - decimalPoint q)).floor.toNat, decimalPoint q)
  | fuel + 1, n =>
    match shortestWith q n with
    | some m =>
      (m, if m = 10 ^ n then decimalPoint q + 1 else decimalPoint q)
    | none => shortestFrom q fuel (n + 1)

/-- The digits without the zeros at their end. -/
def trimZeros (s : Bytes) : Bytes := (s.reverse.dropWhile (· == byte '0')).reverse

/-- The format `%e` with all digits. -/
def scientific (digits : Bytes) (exp : Int) : Bytes :=
  let (head, tail) := digits.splitAt 1
  let mantissa := if tail.isEmpty then head else head ++ [byte '.'] ++ tail
  let e := Bytes.ofNat exp.natAbs
  mantissa ++ [byte 'e', byte (if exp < 0 then '-' else '+')] ++
    (if e.length < 2 then byte '0' :: e else e)

/-- The format `%f` with all digits, the point standing after `dp` of them. -/
def positional (digits : Bytes) (dp : Int) : Bytes :=
  let zero := byte '0'
  let whole :=
    if dp ≤ 0 then [zero] else digits.take dp.toNat ++ List.replicate (dp.toNat - digits.length) zero
  let fraction :=
    if dp ≤ 0 then List.replicate (-dp).toNat zero ++ digits else digits.drop dp.toNat
  if fraction.isEmpty then whole else whole ++ [byte '.'] ++ fraction

/-- `strconv.FormatFloat` with `'g'` and `-1`, on a positive double. -/
def formatPositive (q : ℚ) : Bytes :=
  let (m, dp) := shortestFrom q 16 1
  let digits := trimZeros (Bytes.ofNat m)
  if dp - 1 < -4 || 6 ≤ dp - 1 then scientific digits (dp - 1) else positional digits dp

/-- `strconv.FormatFloat` with the format `'g'` and the precision `-1`. -/
def format : Float64 → Bytes
  | nan => ofString "NaN"
  | inf neg => ofString (if neg then "-Inf" else "+Inf")
  | fin q =>
    if q = 0 then [byte '0']
    else if q < 0 then byte '-' :: formatPositive (-q) else formatPositive q

/-- `==`. -/
def eq : Float64 → Float64 → Bool
  | fin p, fin q => p = q
  | inf a, inf b => a == b
  | _, _ => false

/-- `<`. -/
def lt : Float64 → Float64 → Bool
  | fin p, fin q => p < q
  | inf true, fin _ => true
  | inf true, inf false => true
  | fin _, inf false => true
  | _, _ => false

/-- The integer part, towards zero. -/
def trunc (q : ℚ) : Int := if q < 0 then -(-q).floor else q.floor

/-- The conversion to `int`; `none` where it is left to the machine. -/
def toInt : Float64 → Option Int
  | fin q => if -2 ^ 63 ≤ trunc q ∧ trunc q < 2 ^ 63 then some (trunc q) else none
  | _ => none

end Float64
