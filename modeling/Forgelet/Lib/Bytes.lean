import Mathlib.Data.List.Sort
import Forgelet.Lib.Strings

/-!
# Go strings as bytes

A Go string is a sequence of bytes that need not be UTF-8. The functions are those of `strings`, `strconv`,
`unicode/utf8` and `fmt` that read bytes, or that decode and meet bytes that are no encoding: each of these decodes to
U+FFFD.
-/

/-- A string of the source: any bytes. -/
abbrev Bytes := List UInt8

namespace Bytes

/-- The encoding in UTF-8. -/
def ofString (s : String) : Bytes := s.toList.flatMap String.utf8EncodeChar

theorem ofString_append (s t : String) : ofString (s ++ t) = ofString s ++ ofString t := by
  rw [ofString, String.toList_append, List.flatMap_append]
  rfl

theorem ofString_injective : Function.Injective ofString := by
  have hbytes : ∀ s : String, s.toByteArray = (ofString s).toByteArray := by
    intro s
    have hencode := String.toByteArray_ofList (l := s.toList)
    rw [String.ofList_toList] at hencode
    exact hencode
  intro s t h
  apply String.toByteArray_inj.mp
  rw [hbytes s, hbytes t, h]

/-- The byte of an ASCII character. -/
def byte (c : Char) : UInt8 := UInt8.ofNat c.toNat

/-! ## Decoding -/

/-- The character that stands for invalid bytes. -/
def runeError : Char := Char.ofNat 0xFFFD

/-- A continuation byte. -/
def isTail (b : UInt8) : Bool := 0x80 ≤ b && b ≤ 0xBF

/-- The bits that a continuation byte adds. -/
def tailBits (b : UInt8) : Nat := b.toNat % 64

/-- `utf8.DecodeRune` on a non-empty string: the code point and its width. -/
def decodeRune (b : UInt8) (rest : Bytes) : Char × Nat :=
  if b < 0x80 then (Char.ofNat b.toNat, 1)
  else match rest with
    | b₁ :: rest =>
      if 0xC2 ≤ b && b ≤ 0xDF && isTail b₁ then
        (Char.ofNat (b.toNat % 32 * 64 + tailBits b₁), 2)
      else match rest with
        | b₂ :: rest =>
          -- the second byte is restricted after E0 (no overlong form) and ED (no surrogate)
          if 0xE0 ≤ b && b ≤ 0xEF && isTail b₁ && isTail b₂ && !(b == 0xE0 && b₁ < 0xA0) &&
              !(b == 0xED && 0x9F < b₁) then
            (Char.ofNat (b.toNat % 16 * 4096 + tailBits b₁ * 64 + tailBits b₂), 3)
          else match rest with
            | b₃ :: _ =>
              if 0xF0 ≤ b && b ≤ 0xF4 && isTail b₁ && isTail b₂ && isTail b₃ &&
                  !(b == 0xF0 && b₁ < 0x90) && !(b == 0xF4 && 0x8F < b₁) then
                (Char.ofNat (b.toNat % 8 * 262144 + tailBits b₁ * 4096 + tailBits b₂ * 64 +
                  tailBits b₃), 4)
              else (runeError, 1)
            | [] => (runeError, 1)
        | [] => (runeError, 1)
    | [] => (runeError, 1)

/-- A string cut into its code points, each with its bytes; the fuel bounds their number. -/
def chunksFrom : Nat → Bytes → List (Char × Bytes)
  | 0, _ => []
  | _, [] => []
  | fuel + 1, b :: rest =>
    let (c, width) := decodeRune b rest
    (c, (b :: rest).take width) :: chunksFrom fuel ((b :: rest).drop width)

/-- The characters, each with its bytes. -/
def chunks (s : Bytes) : List (Char × Bytes) := chunksFrom s.length s

/-- The characters. -/
def runes (s : Bytes) : List Char := s.chunks.map (·.1)

/-- The string of a text; what is no UTF-8 becomes U+FFFD. -/
def toString (s : Bytes) : String := String.ofList s.runes

/-! ## Package `strings` -/

/-- `strings.ToLower`. -/
def toLower (s : Bytes) : Bytes :=
  s.runes.flatMap fun c => String.utf8EncodeChar (GoString.lowerRune c)

/-- `strings.EqualFold`. -/
def equalFold (s t : Bytes) : Bool := s.runes.map GoString.foldRune == t.runes.map GoString.foldRune

/-- `strings.TrimSpace`. -/
def trimSpace (s : Bytes) : Bytes :=
  (((s.chunks.dropWhile fun c => GoString.isSpace c.1).reverse.dropWhile
    fun c => GoString.isSpace c.1).reverse).flatMap (·.2)

/-- `strings.Index`: the offset of the first occurrence of `sub`. -/
def index (sub : Bytes) : Bytes → Option Nat
  | [] => if sub.isEmpty then some 0 else none
  | b :: rest => if sub.isPrefixOf (b :: rest) then some 0 else (index sub rest).map (· + 1)

/-- `strings.Contains`. -/
def contains (s sub : Bytes) : Bool := (index sub s).isSome

/-- `strings.Join`. -/
def join (sep : Bytes) : List Bytes → Bytes
  | [] => []
  | [s] => s
  | s :: rest => s ++ sep ++ join sep rest

/-- The bytewise order of Go strings. -/
def le : Bytes → Bytes → Bool
  | [], _ => true
  | _ :: _, [] => false
  | a :: s, b :: t => a < b || (a == b && le s t)

/-- `strings.Compare`. -/
def compare (s t : Bytes) : Ordering :=
  if s == t then .eq else if le s t then .lt else .gt

/-- `sort.Strings`. -/
def sort (l : List Bytes) : List Bytes := l.insertionSort fun a b => le a b = true

/-! ## Package `strconv` -/

/-- The decimal digits of a number, most significant first, with fuel. -/
def digitsFrom : Nat → Nat → Bytes → Bytes
  | 0, _, acc => acc
  | fuel + 1, n, acc =>
    let acc := UInt8.ofNat (48 + n % 10) :: acc
    if n / 10 = 0 then acc else digitsFrom fuel (n / 10) acc

/-- The decimal digits of a number. -/
def ofNat (n : Nat) : Bytes := digitsFrom (n + 1) n []

/-- `strconv.FormatInt` in decimal. -/
def ofInt (n : Int) : Bytes := if n < 0 then byte '-' :: ofNat n.natAbs else ofNat n.natAbs

/-- A decimal digit. -/
def isDigit (b : UInt8) : Bool := 0x30 ≤ b && b ≤ 0x39

/-- The number that decimal digits stand for. -/
def digitsValue (s : Bytes) : Nat := s.foldl (fun n b => n * 10 + (b.toNat - 48)) 0

/-- `strconv.Atoi`: `none` for no number, or one outside of `int64`. -/
def atoi (s : Bytes) : Option Int :=
  let (neg, digits) := match s with
    | b :: rest => if b == byte '-' then (true, rest) else if b == byte '+' then (false, rest) else (false, s)
    | [] => (false, s)
  if digits.isEmpty || !digits.all isDigit then none
  else
    let n : Int := if neg then -(digitsValue digits : Int) else digitsValue digits
    if -9223372036854775808 ≤ n ∧ n ≤ 9223372036854775807 then some n else none

/-- A hexadecimal digit, in lower case. -/
def hexDigit (n : Nat) : UInt8 := UInt8.ofNat (if n < 10 then 48 + n else 87 + n)

/-- The last `width` hexadecimal digits of a number. -/
def hex : Nat → Nat → Bytes
  | 0, _ => []
  | width + 1, n => hex width (n / 16) ++ [hexDigit (n % 16)]

/-- `strconv.Quote` of one code point; a byte that is no encoding is hexadecimal. -/
def quoteChunk (c : Char × Bytes) : Bytes :=
  let n := c.1.toNat
  match c.2 with
  | [b] =>
    if 0x80 ≤ b then ofString "\\x" ++ hex 2 b.toNat
    else if b == byte '"' || b == byte '\\' then [byte '\\', b]
    else if b == 7 then ofString "\\a"
    else if b == 8 then ofString "\\b"
    else if b == 9 then ofString "\\t"
    else if b == 10 then ofString "\\n"
    else if b == 11 then ofString "\\v"
    else if b == 12 then ofString "\\f"
    else if b == 13 then ofString "\\r"
    else if b < 0x20 || b == 0x7F then ofString "\\x" ++ hex 2 b.toNat
    else [b]
  | bytes => if n < 0xA1 || n == 0xAD then ofString "\\u" ++ hex 4 n else bytes

/-- The text of `fmt`'s verb `%q`. -/
def quote (s : Bytes) : Bytes := [byte '"'] ++ s.chunks.flatMap quoteChunk ++ [byte '"']

end Bytes
