import Mathlib.Data.List.TakeWhile
import Forgelet.Lib.Case

/-!
# Go's string functions

The functions of `strings`, `strconv` and `fmt` that the modelled code calls, on strings of Unicode code points,
defined on lists of characters.
-/

namespace GoString

/-- `unicode.IsSpace`. -/
def isSpace (c : Char) : Bool :=
  let n := c.toNat
  (9 ≤ n && n ≤ 13) || n == 0x20 || n == 0x85 || n == 0xA0 || n == 0x1680 ||
    (0x2000 ≤ n && n ≤ 0x200A) || n == 0x2028 || n == 0x2029 || n == 0x202F || n == 0x205F ||
    n == 0x3000

/-- `strings.TrimSpace` on a list of characters. -/
def trimSpaceList (cs : List Char) : List Char :=
  ((cs.dropWhile isSpace).reverse.dropWhile isSpace).reverse

/-- `strings.TrimSpace`. -/
def trimSpace (s : String) : String := String.ofList (trimSpaceList s.toList)

/-- `strings.ToLower`. -/
def toLower (s : String) : String := String.ofList (s.toList.map lowerRune)

/-- `strings.HasPrefix`. -/
def hasPrefix (s pre : String) : Bool := pre.toList.isPrefixOf s.toList

/-- `strings.HasSuffix`. -/
def hasSuffix (s suf : String) : Bool := suf.toList.isSuffixOf s.toList

/-- Whether `sub` occurs in `cs`. -/
def containsList (cs sub : List Char) : Bool :=
  match cs with
  | [] => sub.isEmpty
  | c :: cs => sub.isPrefixOf (c :: cs) || containsList cs sub

/-- `strings.Contains`. -/
def contains (s sub : String) : Bool := containsList s.toList sub.toList

/-- `strings.TrimPrefix`. -/
def trimPrefix (s pre : String) : String :=
  if hasPrefix s pre then String.ofList (s.toList.drop pre.toList.length) else s

/-- `strings.TrimSuffix`. -/
def trimSuffix (s suf : String) : String :=
  if hasSuffix s suf then String.ofList (s.toList.take (s.toList.length - suf.toList.length)) else s

/-- The text before and after the last occurrence of a character. -/
def cutLast (s : String) (sep : Char) : Option (String × String) :=
  let rev := s.toList.reverse
  if sep ∈ rev then
    some (String.ofList ((rev.dropWhile (· != sep)).drop 1).reverse,
      String.ofList (rev.takeWhile (· != sep)).reverse)
  else none

/-- `strings.Split` at one character; `part` is the part in progress. -/
def splitList (sep : Char) (part : List Char) : List Char → List (List Char)
  | [] => [part]
  | c :: cs => if c = sep then part :: splitList sep [] cs else splitList sep (part ++ [c]) cs

/-- `strings.Split` at a separator of one character. -/
def split (s : String) (sep : Char) : List String := (splitList sep [] s.toList).map String.ofList

/-- `strings.Fields` on a list of characters; `field` is the field in progress. -/
def fieldsList (field : List Char) : List Char → List (List Char)
  | [] => if field.isEmpty then [] else [field]
  | c :: cs =>
    if isSpace c then
      if field.isEmpty then fieldsList [] cs else field :: fieldsList [] cs
    else fieldsList (field ++ [c]) cs

/-- `strings.Fields`. -/
def fields (s : String) : List String := (fieldsList [] s.toList).map String.ofList

/-- The rounds of `strings.ReplaceAll` on a list of characters; `old` is not empty. -/
def replaceAllList (old new : List Char) : Nat → List Char → List Char
  | 0, cs => cs
  | _ + 1, [] => []
  | fuel + 1, c :: cs =>
    if old.isPrefixOf (c :: cs) then
      new ++ replaceAllList old new fuel ((c :: cs).drop old.length)
    else c :: replaceAllList old new fuel cs

/-- `strings.ReplaceAll` of a text that is not empty. -/
def replaceAll (s old new : String) : String :=
  String.ofList (replaceAllList old.toList new.toList s.toList.length s.toList)

/-- `strings.Cut` at a separator of one character. -/
def cut (s : String) (sep : Char) : Option (String × String) :=
  if sep ∈ s.toList then
    some (String.ofList (s.toList.takeWhile (· != sep)),
      String.ofList ((s.toList.dropWhile (· != sep)).drop 1))
  else none

/-- `strings.Join`. -/
def join (sep : String) : List String → String
  | [] => ""
  | [s] => s
  | s :: rest => s ++ sep ++ join sep rest

/-- What `strconv.Quote` writes for one character. -/
def escape : Char → List Char
  | '"' => ['\\', '"']
  | '\\' => ['\\', '\\']
  | '\n' => ['\\', 'n']
  | '\r' => ['\\', 'r']
  | '\t' => ['\\', 't']
  | c => [c]

/-- The verb `%q` of `fmt`: quotes, backslashes and common control characters are escaped. -/
def quote (s : String) : String :=
  String.ofList (['"'] ++ s.toList.flatMap escape ++ ['"'])

/-! ## Parts of texts -/

/-- A list up to the first occurrence of a separator, and behind it. -/
theorem takeWhile_ne_append {l before after : List Char} {sep : Char} (hl : l = before ++ sep :: after)
    (hbefore : sep ∉ before) : l.takeWhile (· != sep) = before ∧ (l.dropWhile (· != sep)).drop 1 = after := by
  have hall : ∀ c ∈ before, (c != sep) = true := fun c hc => bne_iff_ne.mpr fun heq => hbefore (heq ▸ hc)
  have hstop : (sep != sep) = false := bne_self_eq_false sep
  rw [hl, List.takeWhile_append_of_pos hall, List.dropWhile_append_of_pos hall, List.takeWhile_cons_of_neg (by simp),
    List.dropWhile_cons_of_neg (by simp), List.append_nil]
  exact ⟨rfl, rfl⟩

/-- The text before the first separator and the one after it. -/
theorem cut_eq_some {s before after : String} {sep : Char} : cut s sep = some (before, after) ↔
      s.toList = before.toList ++ sep :: after.toList ∧ sep ∉ before.toList := by
  unfold cut
  constructor
  · intro h
    split_ifs at h with hmem
    rw [Option.some_inj, Prod.mk.injEq] at h
    obtain ⟨rfl, rfl⟩ := h
    rw [String.toList_ofList, String.toList_ofList]
    have hne : s.toList.dropWhile (· != sep) ≠ [] := by
      rw [ne_eq, List.dropWhile_eq_nil_iff]
      exact fun hall => absurd (hall sep hmem) (by simp)
    have hhead : (s.toList.dropWhile (· != sep)).head hne = sep := by
      have hnot := List.head_dropWhile_not (· != sep) hne
      simpa using hnot
    refine ⟨?_, fun hin => ?_⟩
    · have hrest := List.cons_head_tail hne
      rw [hhead] at hrest
      rw [List.drop_one, hrest, List.takeWhile_append_dropWhile]
    · simpa using List.mem_takeWhile_imp hin
  · rintro ⟨hs, hbefore⟩
    have hmem : sep ∈ s.toList := by
      rw [hs]
      exact List.mem_append_right _ (.head _)
    obtain ⟨htake, hdrop⟩ := takeWhile_ne_append hs hbefore
    rw [if_pos hmem, htake, hdrop, String.ofList_toList, String.ofList_toList]

theorem hasPrefix_iff {s pre : String} : hasPrefix s pre ↔ ∃ rest, s = pre ++ rest := by
  unfold hasPrefix
  rw [List.isPrefixOf_iff_prefix]
  constructor
  · rintro ⟨rest, hrest⟩
    refine ⟨String.ofList rest, String.toList_inj.mp ?_⟩
    rw [String.toList_append, String.toList_ofList, hrest]
  · rintro ⟨rest, rfl⟩
    exact ⟨rest.toList, (String.toList_append).symm⟩

theorem trimPrefix_append (pre rest : String) : trimPrefix (pre ++ rest) pre = rest := by
  unfold trimPrefix
  rw [if_pos (hasPrefix_iff.mpr ⟨rest, rfl⟩), String.toList_append, List.drop_left, String.ofList_toList]

theorem trimSuffix_append (rest suf : String) : hasSuffix (rest ++ suf) suf ∧ trimSuffix (rest ++ suf) suf = rest := by
  have hsuf : hasSuffix (rest ++ suf) suf := by
    rw [hasSuffix, List.isSuffixOf_iff_suffix, String.toList_append]
    exact List.suffix_append _ _
  refine ⟨hsuf, ?_⟩
  unfold trimSuffix
  rw [if_pos hsuf, String.toList_append, List.length_append, Nat.add_sub_cancel, List.take_left, String.ofList_toList]

end GoString
