import Forgelet.Expression.Eval
import Forgelet.Lib.Decimal
import Forgelet.Lib.EntryOrder
import Forgelet.Lib.Runes
import Forgelet.Lib.Separator

/-!
# Proofs: the comparison of values

The operators go through two functions. `compare` puts texts in lower case and takes NaN for equal to everything;
`looseEqual` folds texts and compares arrays and objects as they are displayed.
-/

namespace Forgelet.Expression

open Bytes (byte join ofString)
open GoString (dottedI foldRune lowerRune)
open Value (arr bool display displayItems isNumber looseEqual obj text toNumber)

variable {l r : Value}

/-! ## Order and equality -/

/-- One side of a comparison of numbers is NaN. -/
def NaNSide (l r : Value) : Prop :=
  (l.isNumber || r.isNumber) = true ∧ (l.toNumber = some .nan ∨ r.toNumber = some .nan)

/-- The comparison evaluates to true. -/
def Holds (op : BinOp) (l r : Value) : Prop := applyOp op l r = .bool true

theorem looseEqual_numbers {a b} (hl : l.toNumber = some a) (hr : r.toNumber = some b)
    (hnum : (l.isNumber || r.isNumber) = true) : l.looseEqual r = a.eq b := by
  cases l <;> cases r <;> simp_all [looseEqual, isNumber, toNumber]

theorem eq_iff_not_lt {a b : Float64} (ha : a ≠ .nan) (hb : b ≠ .nan) : a.eq b ↔ a.lt b = false ∧ b.lt a = false := by
  cases a with
  | nan => exact absurd rfl ha
  | inf m =>
    cases b with
    | nan => exact absurd rfl hb
    | inf n => revert m n; decide
    | fin q => cases m <;> simp [Float64.eq, Float64.lt]
  | fin p =>
    cases b with
    | nan => exact absurd rfl hb
    | inf n => cases n <;> simp [Float64.eq, Float64.lt]
    | fin q =>
      simp only [Float64.eq, Float64.lt, decide_eq_true_eq, decide_eq_false_iff_not, not_lt]
      exact le_antisymm_iff.trans and_comm

theorem compare_eq_iff (s t : Bytes) : Bytes.compare s t = .eq ↔ s = t := by
  unfold Bytes.compare
  split_ifs with heq hle
  · simpa using heq
  · simpa using heq
  · simpa using heq

/-- Letters that fold alike everywhere, but somewhere have two lower cases, as s and the long s. -/
def Variants (s t : Bytes) : Prop :=
  s.runes.map foldRune = t.runes.map foldRune ∧ ∃ p ∈ s.runes.zip t.runes, lowerRune p.1 ≠ lowerRune p.2

/-- Letters of one lower case everywhere, but somewhere a capital I with a dot opposite another letter. -/
def Dotted (s t : Bytes) : Prop :=
  s.runes.map lowerRune = t.runes.map lowerRune ∧ ∃ p ∈ s.runes.zip t.runes, ¬ (p.1 = dottedI ↔ p.2 = dottedI)

theorem map_eq_map_iff_zip {α β : Type} (f : α → β) (l l' : List α) :
    l.map f = l'.map f ↔ l.length = l'.length ∧ ∀ p ∈ l.zip l', f p.1 = f p.2 := by
  induction l generalizing l' with
  | nil => cases l' <;> simp
  | cons a l ih =>
    cases l' with
    | nil => simp
    | cons b l' =>
      simp only [List.map_cons, List.cons.injEq, List.length_cons, Nat.add_right_cancel_iff, List.zip_cons_cons,
        List.forall_mem_cons, ih]
      exact and_left_comm

/-- Only the dotted capital I folds differently from the other letters of its lower case. -/
theorem foldRune_eq_iff {x y : Char} (h : lowerRune x = lowerRune y) :
    foldRune x = foldRune y ↔ (x = dottedI ↔ y = dottedI) := by
  have hfold : ∀ {x y : Char}, lowerRune x = lowerRune y → x = dottedI → y ≠ dottedI → foldRune x ≠ foldRune y := by
    rintro x y hlower rfl hy
    have hi : lowerRune y = 'i' := hlower.symm.trans (by decide)
    rw [foldRune, foldRune, if_pos rfl, if_neg hy, hi]
    decide
  by_cases hx : x = dottedI <;> by_cases hy : y = dottedI
  · simp [hx, hy]
  · exact iff_of_false (hfold h hx hy) (by simp [hx, hy])
  · exact iff_of_false (hfold h.symm hy hx).symm (by simp [hx, hy])
  · rw [foldRune, foldRune, if_neg hx, if_neg hy, h]
    simp [hx, hy]

/-- Folding and lower case agree on two texts just if neither kind of letters stands in the way. -/
theorem equalFold_iff_toLower (s t : Bytes) :
    (s.equalFold t ↔ s.toLower = t.toLower) ↔ ¬ Variants s t ∧ ¬ Dotted s t := by
  have hlower : s.toLower = t.toLower ↔ s.runes.map lowerRune = t.runes.map lowerRune := by
    have hbytes : ∀ s : Bytes, s.toLower = ofString (String.ofList (s.runes.map lowerRune)) := fun s => by
      rw [Bytes.toLower, ofString, String.toList_ofList, List.flatMap_map]
    rw [hbytes, hbytes, Bytes.ofString_injective.eq_iff, String.ofList_inj]
  rw [hlower, Bytes.equalFold, beq_iff_eq, Variants, Dotted]
  constructor
  · intro hiff
    constructor
    · rintro ⟨hfold, p, hp, hne⟩
      exact hne (((map_eq_map_iff_zip _ _ _).mp (hiff.mp hfold)).2 p hp)
    · rintro ⟨hsame, p, hp, hdot⟩
      have hlow := ((map_eq_map_iff_zip _ _ _).mp hsame).2 p hp
      exact hdot ((foldRune_eq_iff hlow).mp (((map_eq_map_iff_zip _ _ _).mp (hiff.mpr hsame)).2 p hp))
  · rintro ⟨hvariants, hdotted⟩
    constructor
    · intro hfold
      refine (map_eq_map_iff_zip _ _ _).mpr ⟨((map_eq_map_iff_zip _ _ _).mp hfold).1, fun p hp => ?_⟩
      by_contra hne
      exact hvariants ⟨hfold, p, hp, hne⟩
    · intro hsame
      obtain ⟨hlength, hlow⟩ := (map_eq_map_iff_zip _ _ _).mp hsame
      refine (map_eq_map_iff_zip _ _ _).mpr ⟨hlength, fun p hp => (foldRune_eq_iff (hlow p hp)).mpr ?_⟩
      by_contra hdot
      exact hdotted ⟨hsame, p, hp, hdot⟩

/-- Equality is neither less nor greater, except for NaN and texts folded differently. -/
theorem looseEqual_iff {o} (h : l.compare r = some o) (hnan : ¬ NaNSide l r) :
    ((l.looseEqual r ↔ o = .eq) ↔ ∀ a b, l = .str a → r = .str b → ¬ Variants a b ∧ ¬ Dotted a b) := by
  unfold Value.compare at h
  split at h
  · rename_i a b hl hr hnum
    have ha : a ≠ .nan := fun ha => hnan ⟨hnum, .inl (by rw [hl, ha])⟩
    have hb : b ≠ .nan := fun hb => hnan ⟨hnum, .inr (by rw [hr, hb])⟩
    rw [looseEqual_numbers hl hr hnum, eq_iff_not_lt ha hb]
    refine iff_of_true ?_ ?_
    · cases h
      cases a.lt b <;> cases b.lt a <;> decide
    · rintro s t rfl rfl
      cases hnum
  · split at h
    · rename_i a b _
      cases h
      rw [compare_eq_iff]
      refine (equalFold_iff_toLower a b).trans ⟨fun hnot s t hs ht => ?_, fun hall => hall a b rfl rfl⟩
      cases hs
      cases ht
      exact hnot
    · cases h

/-- Where `compare` is defined, the operators are consistent exactly when no side is NaN and two texts differ neither by
variants of letters nor by the dot of a capital I. -/
theorem comparisons_consistent_iff {o : Ordering} (h : l.compare r = some o) :
    ((NaNSide l r → ¬ Holds .lt l r ∧ ¬ Holds .eq l r ∧ ¬ Holds .gt l r) ∧
      (¬ NaNSide l r → (Holds .lt l r ∧ ¬ Holds .eq l r ∧ ¬ Holds .gt l r) ∨
        (¬ Holds .lt l r ∧ Holds .eq l r ∧ ¬ Holds .gt l r) ∨ (¬ Holds .lt l r ∧ ¬ Holds .eq l r ∧ Holds .gt l r)) ∧
      (Holds .le l r ↔ Holds .lt l r ∨ Holds .eq l r)) ↔
    ¬ NaNSide l r ∧ ∀ a b, l = .str a → r = .str b → ¬ Variants a b ∧ ¬ Dotted a b := by
  have hlt : Holds .lt l r ↔ o = .lt := by simp [Holds, applyOp, h]
  have hgt : Holds .gt l r ↔ o = .gt := by simp [Holds, applyOp, h]
  have hle : Holds .le l r ↔ o = .lt ∨ o = .eq := by simp [Holds, applyOp, h]
  have heq : Holds .eq l r ↔ l.looseEqual r := by simp [Holds, applyOp]
  rw [hlt, hgt, hle, heq]
  by_cases hnan : NaNSide l r
  · -- NaN is neither less nor greater, so `compare` takes it for equal
    refine iff_of_false (fun hall => ?_) (fun hnot => hnot.1 hnan)
    obtain ⟨hnone, -, hboth⟩ := hall
    obtain ⟨hnlt, hneq, hngt⟩ := hnone hnan
    have ho : o = .eq := by cases o <;> simp_all
    exact (hboth.mp (.inr ho)).elim hnlt hneq
  · rw [← looseEqual_iff h hnan]
    simp only [hnan, false_implies, not_false_eq_true, true_implies, true_and]
    cases o <;> cases l.looseEqual r <;> simp

/-- A number and the text of a number. -/
theorem comparisons_consistent_numbers : (Holds .le (.num (.fin 1)) (text "2") ↔
    Holds .lt (.num (.fin 1)) (text "2") ∨ Holds .eq (.num (.fin 1)) (text "2")) := by
  have h : Value.compare (.num (.fin 1)) (text "2") = some .lt := by decide +kernel
  refine ((comparisons_consistent_iff h).mpr ⟨fun hnan => ?_, fun a b hl => by cases hl⟩).2.2
  revert hnan
  unfold NaNSide
  decide +kernel

/-- NaN is less than or equal to 1 but neither; the long s is equal to s and greater; the dotted capital I is neither
less than, nor equal to, nor greater than i. -/
theorem comparisons_inconsistent :
    (¬ Holds .lt (.num .nan) (.num (.fin 1)) ∧ ¬ Holds .eq (.num .nan) (.num (.fin 1)) ∧
      Holds .le (.num .nan) (.num (.fin 1))) ∧
    (Holds .eq (text "ſ") (text "s") ∧ Holds .gt (text "ſ") (text "s")) ∧
    ¬ Holds .lt (text "İ") (text "i") ∧ ¬ Holds .eq (text "İ") (text "i") ∧
      ¬ Holds .gt (text "İ") (text "i") := by
  simp only [Holds, applyOp, bool.injEq, decide_eq_true_eq]
  decide +kernel

/-! ## Numbers are written without commas -/

theorem comma_not_mem_ofNat (n : Nat) : byte ',' ∉ Bytes.ofNat n := fun hmem =>
  absurd (Bytes.isDigit_of_mem_ofNat hmem) (by decide)

section Digits

variable {digits : Bytes} (h : byte ',' ∉ digits)
include h

theorem comma_not_mem_scientific (exp : Int) : byte ',' ∉ Float64.scientific digits exp := by
  have htake : byte ',' ∉ digits.take 1 := fun hmem => h (List.mem_of_mem_take hmem)
  have hdrop : byte ',' ∉ digits.drop 1 := fun hmem => h (List.mem_of_mem_drop hmem)
  unfold Float64.scientific
  rw [List.splitAt_eq]
  dsimp only
  split_ifs <;> simp +decide only [List.mem_append, List.mem_cons, htake, hdrop, comma_not_mem_ofNat, or_false,
    not_false_eq_true]

theorem comma_not_mem_positional (dp : Int) : byte ',' ∉ Float64.positional digits dp := by
  have htake : ∀ n, byte ',' ∉ digits.take n := fun n hmem => h (List.mem_of_mem_take hmem)
  have hdrop : ∀ n, byte ',' ∉ digits.drop n := fun n hmem => h (List.mem_of_mem_drop hmem)
  have hzeros : ∀ n, byte ',' ∉ List.replicate n (byte '0') := fun n hmem =>
    absurd (List.eq_of_mem_replicate hmem) (by decide)
  unfold Float64.positional
  dsimp only
  split_ifs <;> simp +decide only [List.mem_append, h, htake, hdrop, hzeros, or_false, not_false_eq_true]

end Digits

theorem comma_not_mem_formatPositive (q : ℚ) : byte ',' ∉ Float64.formatPositive q := by
  unfold Float64.formatPositive
  generalize Float64.shortestFrom q 16 1 = shortest
  obtain ⟨m, dp⟩ := shortest
  have hdigits : byte ',' ∉ Float64.trimZeros (Bytes.ofNat m) := fun hmem => by
    rw [Float64.trimZeros, List.mem_reverse] at hmem
    exact comma_not_mem_ofNat m (List.mem_reverse.mp ((List.dropWhile_sublist _).subset hmem))
  dsimp only
  split_ifs
  · exact comma_not_mem_scientific hdigits _
  · exact comma_not_mem_positional hdigits _

theorem comma_not_mem_formatNumber (f : Float64) : byte ',' ∉ formatNumber f := by
  have hminus : byte ',' ≠ byte '-' := by decide
  unfold formatNumber
  split
  · decide
  · decide
  · split_ifs
    · unfold Bytes.ofInt
      split_ifs <;> simp [hminus, comma_not_mem_ofNat]
    · unfold Float64.format
      dsimp only
      split_ifs
      · decide
      · simp [hminus, comma_not_mem_formatPositive]
      · exact comma_not_mem_formatPositive _

/-! A text with a comma is not read as a number, as nothing that is read contains it. -/

theorem mantissa_comma {base : Nat} {m m' : Float64.Mantissa} {s rest : Bytes}
    (h : Float64.mantissa base m s = (m', rest)) (hmem : byte ',' ∈ s) : byte ',' ∈ rest := by
  have hdigit : Float64.digitIn base (byte ',') = none := by
    unfold Float64.digitIn
    rw [if_neg (by decide), if_neg]
    simp +decide
  induction s generalizing m with
  | nil => cases hmem
  | cons b s ih =>
    unfold Float64.mantissa at h
    rcases List.mem_cons.mp hmem with rfl | hs
    · rw [if_neg (by decide), if_neg (by decide), hdigit] at h
      cases h
      exact .head _
    · split at h
      · exact ih h hs
      · split at h
        · split at h
          · cases h
            exact .tail _ hs
          · exact ih h hs
        · split at h
          · cases h
            exact .tail _ hs
          · exact ih h hs

theorem exponentDigits_comma {e e' : Nat} {s rest : Bytes} (h : Float64.exponentDigits e s = (e', rest))
    (hmem : byte ',' ∈ s) : byte ',' ∈ rest := by
  induction s generalizing e with
  | nil => cases hmem
  | cons b s ih =>
    unfold Float64.exponentDigits at h
    rcases List.mem_cons.mp hmem with rfl | hs
    · rw [if_neg (by decide), if_neg (by decide)] at h
      cases h
      exact .head _
    · split_ifs at h
      · exact ih h hs
      · exact ih h hs
      · exact ih h hs
      · cases h
        exact .tail _ hs

theorem sign_comma {s : Bytes} (hmem : byte ',' ∈ s) : byte ',' ∈ (Float64.sign s).2 := by
  cases s with
  | nil => cases hmem
  | cons b s =>
    unfold Float64.sign
    dsimp only
    rcases List.mem_cons.mp hmem with rfl | hs
    · rw [if_neg (by decide), if_neg (by decide)]
      exact .head _
    · split_ifs
      · exact hs
      · exact hs
      · exact .tail _ hs

theorem readExponent_comma {base : Nat} {s : Bytes} {e} (h : Float64.readExponent base s = some (e, [])) :
    byte ',' ∉ s := by
  intro hmem
  cases s with
  | nil => cases hmem
  | cons b s =>
    unfold Float64.readExponent at h
    dsimp only at h
    by_cases hexp : Float64.lower b == byte (if base = 16 then 'p' else 'e')
    · have hs : byte ',' ∈ s := by
        rcases List.mem_cons.mp hmem with rfl | hs
        · split_ifs at hexp <;> exact absurd hexp (by decide)
        · exact hs
      rw [if_pos hexp] at h
      have hsign := sign_comma hs
      cases hdigits : (Float64.sign s).2 with
      | nil => rw [hdigits] at h; cases h
      | cons d rest =>
        rw [hdigits] at h hsign
        dsimp only at h
        by_cases hd : Bytes.isDigit d
        · have hcomma := exponentDigits_comma (Prod.eta (Float64.exponentDigits 0 (d :: rest))).symm hsign
          rw [if_pos hd] at h
          rw [(Prod.mk.inj (Option.some.inj h)).2] at hcomma
          cases hcomma
        · rw [if_neg hd] at h
          cases h
    · rw [if_neg hexp] at h
      split_ifs at h
      cases h

theorem comma_not_mem_of_parse {s f} (h : Float64.parse s = some f) : byte ',' ∉ s := by
  intro hmem
  have hsign := sign_comma hmem
  unfold Float64.parse at h
  cases hspecial : Float64.special s with
  | some g =>
    -- the words have no comma, whatever the case of their letters
    have hword : ∀ {t : Bytes}, byte ',' ∈ t → byte ',' ∈ t.map Float64.lower := fun ht =>
      List.mem_map.mpr ⟨_, ht, by decide⟩
    unfold Float64.special at hspecial
    dsimp only at hspecial
    split_ifs at hspecial with hinf hnan
    · have hcomma := hword hsign
      simp only [Bool.or_eq_true, decide_eq_true_eq] at hinf
      rcases hinf with hinf | hinf <;> rw [hinf] at hcomma <;> exact absurd hcomma (by decide)
    · have hcomma := hword hmem
      rw [hnan] at hcomma
      exact absurd hcomma (by decide)
  | none =>
    rw [hspecial] at h
    dsimp only at h
    have hbase : byte ',' ∈ (Float64.baseOf (Float64.sign s).2).2 := by
      unfold Float64.baseOf
      split
      · rename_i z x d rest heq
        split_ifs with hhex
        · rw [heq] at hsign
          simp only [Bool.and_eq_true, beq_iff_eq] at hhex
          have hx : byte ',' ≠ x := fun hx => absurd hhex.2 (by rw [← hx]; decide)
          have hz : byte ',' ≠ z := fun hz => absurd hhex.1 (by rw [← hz]; decide)
          simpa [hx, hz] using hsign
        · exact hsign
      · exact hsign
    generalize Float64.baseOf (Float64.sign s).2 = based at h hbase
    obtain ⟨base, digits⟩ := based
    have hrest := mantissa_comma (Prod.eta (Float64.mantissa base ⟨0, 0, false, false⟩ digits)).symm hbase
    split at h
    · cases h
    · split at h
      · rename_i hexp
        exact readExponent_comma hexp hrest
      · cases h

/-! ## Arrays and objects -/

/-- The two values are read as one number. -/
def SameNumber (l r : Value) : Prop := ∃ a b, l.toNumber = some a ∧ r.toNumber = some b ∧ a.eq b

theorem looseEqual_iff_sameNumber (hnum : (l.isNumber || r.isNumber) = true) : l.looseEqual r ↔ SameNumber l r := by
  constructor
  · intro h
    unfold SameNumber
    cases l <;> cases r <;> simp_all [looseEqual, isNumber, toNumber] <;> split at h <;> simp_all
  · rintro ⟨a, b, hl, hr, heq⟩
    rw [looseEqual_numbers hl hr hnum, heq]

/-- Values other than numbers that are displayed alike are equal, and equal ones are displayed alike up to case. -/
theorem looseEqual_of_display (hnum : (l.isNumber || r.isNumber) = false) (h : l.display = r.display) :
    l.looseEqual r := by
  cases l <;> cases r <;> simp_all [looseEqual, isNumber, display, Bytes.equalFold]
  case bool.bool a b => revert a b; decide

theorem equalFold_of_looseEqual (hnum : (l.isNumber || r.isNumber) = false) (h : l.looseEqual r) :
    l.display.equalFold r.display := by
  cases l <;> cases r <;> simp_all [looseEqual, isNumber, display, Bytes.equalFold]

theorem comma_not_mem_display {f} (h : l.toNumber = some f) : byte ',' ∉ l.display := by
  cases l with
  | num g => exact comma_not_mem_formatNumber g
  | bool b => cases b <;> decide
  | str s =>
    have htrim := comma_not_mem_of_parse h
    rwa [← List.count_eq_zero, Bytes.count_trimSpace ⟨by decide, by decide⟩, List.count_eq_zero] at htrim
  | null => cases h
  | arr => cases h
  | obj => cases h

/-- The text of a value does not go on with a comma where the one of an equal value ends. -/
theorem looseEqual_not_continued (h : l.looseEqual r) (t : Bytes) :
    l.display ≠ r.display ++ byte ',' :: t ∧ r.display ≠ l.display ++ byte ',' :: t := by
  cases hnum : l.isNumber || r.isNumber with
  | true =>
    obtain ⟨a, b, hl, hr, -⟩ := (looseEqual_iff_sameNumber hnum).mp h
    exact ⟨fun heq => comma_not_mem_display hl (by simp [heq]), fun heq => comma_not_mem_display hr (by simp [heq])⟩
  | false =>
    have hlonger : ∀ s : Bytes, (s ++ byte ',' :: t).runes.length ≠ s.runes.length := fun s => by
      have hcomma : Bytes.IsAscii (byte ',') := by decide
      rw [Bytes.runes, Bytes.chunks_append_ascii hcomma, Bytes.chunks_cons_ascii hcomma]
      simp [Bytes.runes]
    have hfold := equalFold_of_looseEqual hnum h
    rw [Bytes.equalFold, beq_iff_eq] at hfold
    have hlength : l.display.runes.length = r.display.runes.length := by simpa using congrArg List.length hfold
    exact ⟨fun heq => hlonger _ (heq ▸ hlength), fun heq => hlonger _ (heq ▸ hlength.symm)⟩

/-- Lists of texts of which none goes on with a comma where the other ends are joined to one text only if they are the
same. -/
theorem eq_of_join_eq {R : Bytes → Bytes → Prop}
    (hR : ∀ {s s'}, R s s' → ∀ t, s ≠ s' ++ byte ',' :: t ∧ s' ≠ s ++ byte ',' :: t) {texts texts' : List Bytes}
    (h : List.Forall₂ R texts texts') (heq : join [byte ','] texts = join [byte ','] texts') :
    texts = texts' := by
  induction h with
  | nil => rfl
  | @cons s s' rest rest' hhead htail ih =>
    cases htail with
    | nil => exact congrArg (· :: []) heq
    | cons hnext hmore =>
      simp only [join, List.append_assoc, List.singleton_append] at heq
      rcases Separator.cut_eq_iff.mp heq with ⟨rfl, hrest⟩ | ⟨t, hlater, -⟩ | ⟨t, hlater, -⟩
      · rw [ih hrest]
      · exact absurd hlater (hR hhead t).2
      · exact absurd hlater (hR hhead t).1

/-- Different lists of texts that are the same when they are joined with commas. -/
def Ambiguous (texts texts' : List Bytes) : Prop :=
  texts ≠ texts' ∧ join [byte ','] texts = join [byte ','] texts'

/-- Two lists are displayed as lists of texts that are not joined to one text in two ways, and no number stands opposite
another component of its text that is not read as the same number. -/
def ItemsClear (vs ws : List Value) : Prop :=
  ¬ Ambiguous (vs.map display) (ws.map display) ∧ (vs.map display = ws.map display →
    ∀ p ∈ vs.zip ws, (p.1.isNumber || p.2.isNumber) = true → SameNumber p.1 p.2)

theorem displayItems_eq_map (items : List Value) : displayItems items = items.map display := by
  induction items with
  | nil => rfl
  | cons item rest ih => rw [displayItems, ih, List.map_cons]

theorem arr_looseEqual_iff (vs ws : List Value) :
    ((arr vs).looseEqual (arr ws) → List.Forall₂ (fun v w => v.looseEqual w = true) vs ws) ↔ ItemsClear vs ws := by
  have hloose : (arr vs).looseEqual (arr ws) ↔
      join [byte ','] (vs.map display) = join [byte ','] (ws.map display) := by
    simp only [looseEqual, beq_iff_eq, display, displayItems_eq_map]
  rw [hloose]
  constructor
  · intro h
    refine ⟨fun ⟨hne, hjoin⟩ => hne ?_, fun hsame p hp hnum => ?_⟩
    · refine eq_of_join_eq (R := fun s s' => ∃ v w : Value, v.looseEqual w ∧ s = v.display ∧ s' = w.display) ?_ ?_ hjoin
      · rintro _ _ ⟨v, w, hvw, rfl, rfl⟩ t
        exact looseEqual_not_continued hvw t
      · rw [List.forall₂_map_left_iff, List.forall₂_map_right_iff]
        exact (h hjoin).imp fun v w hvw => ⟨v, w, hvw, rfl, rfl⟩
    · exact (looseEqual_iff_sameNumber hnum).mp (List.forall₂_zip (h (by rw [hsame])) hp)
  · rintro ⟨hamb, hnum⟩ hjoin
    have hsame : vs.map display = ws.map display := by
      by_contra hne
      exact hamb ⟨hne, hjoin⟩
    obtain ⟨hlength, hshown⟩ := (map_eq_map_iff_zip _ _ _).mp hsame
    refine List.forall₂_iff_zip.mpr ⟨hlength, fun {v w} hp => ?_⟩
    cases hn : v.isNumber || w.isNumber with
    | true => exact (looseEqual_iff_sameNumber hn).mpr (hnum hsame _ hp hn)
    | false => exact looseEqual_of_display hn (hshown _ hp)

theorem displayEntries_eq_map (m : List (Bytes × Value)) :
    Value.displayEntries m = m.map fun e => (e.1, e.2.display) := by
  induction m with
  | nil => rfl
  | cons e rest ih => rw [Value.displayEntries, ih, List.map_cons]

theorem keys_map {V W : Type} (f : V → W) (m : List (Bytes × V)) :
    (m.map fun e => (e.1, f e.2)).map (·.1) = m.map (·.1) := by
  rw [List.map_map]
  rfl

/-- The entries of an object as they are displayed, in the order of their keys. -/
def shown (m : List (Bytes × Value)) : List (Bytes × Bytes) :=
  (Value.displayEntries m).insertionSort fun a b => Bytes.le a.1 b.1 = true

/-- The text of an entry. -/
def entryText (e : Bytes × Bytes) : Bytes := e.1 ++ [byte '='] ++ e.2

/-- The same keys, with equal values. -/
def SameEntries (m m' : List (Bytes × Value)) : Prop :=
  (∀ k, k ∈ m.map (·.1) ↔ k ∈ m'.map (·.1)) ∧ ∀ k v w, (k, v) ∈ m → (k, w) ∈ m' → v.looseEqual w

/-- Two objects are displayed as entries that are not joined to one text in two ways, equal texts of entries are cut at
the same place, and numbers are as in `ItemsClear`. -/
def EntriesClear (m m' : List (Bytes × Value)) : Prop :=
  ¬ Ambiguous ((shown m).map entryText) ((shown m').map entryText) ∧
    ((shown m).map entryText = (shown m').map entryText → (shown m).map (·.1) = (shown m').map (·.1) ∧
      ∀ k v w, (k, v) ∈ m → (k, w) ∈ m' → (v.isNumber || w.isNumber) = true → SameNumber v w)

theorem mem_shown {m : List (Bytes × Value)} {e : Bytes × Bytes} :
    e ∈ shown m ↔ ∃ v, (e.1, v) ∈ m ∧ v.display = e.2 := by
  rw [shown, List.mem_insertionSort, displayEntries_eq_map, List.mem_map]
  constructor
  · rintro ⟨⟨k, v⟩, hmem, rfl⟩
    exact ⟨v, hmem, rfl⟩
  · rintro ⟨v, hmem, heq⟩
    exact ⟨_, hmem, Prod.ext rfl heq⟩

/-- Objects with the same keys show them in the same order. -/
theorem shown_keys {m m' : List (Bytes × Value)} (hm : (m.map (·.1)).Nodup) (hm' : (m'.map (·.1)).Nodup)
    (h : ∀ k, k ∈ m.map (·.1) ↔ k ∈ m'.map (·.1)) : (shown m).map (·.1) = (shown m').map (·.1) := by
  have hsorted : ∀ m, ((shown m).map (·.1)).Pairwise fun s t => Bytes.le s t = true := fun m =>
    List.pairwise_map.mpr (List.pairwise_insertionSort Entries.keyLe _)
  have hperm : ∀ m, ((shown m).map (·.1)).Perm (m.map (·.1)) := fun m => by
    rw [← keys_map Value.display, ← displayEntries_eq_map]
    exact (List.perm_insertionSort _ _).map _
  refine List.Perm.eq_of_pairwise (fun _ _ _ _ => Bytes.le_antisymm) (hsorted m) (hsorted m') ?_
  exact (hperm m).trans (((List.perm_ext_iff_of_nodup hm hm').mpr h).trans (hperm m').symm)

theorem obj_looseEqual_iff {m m' : List (Bytes × Value)} (hm : (m.map (·.1)).Nodup) (hm' : (m'.map (·.1)).Nodup) :
    ((obj m).looseEqual (obj m') → SameEntries m m') ↔ EntriesClear m m' := by
  have hloose : (obj m).looseEqual (obj m') ↔
      join [byte ','] ((shown m).map entryText) = join [byte ','] ((shown m').map entryText) := beq_iff_eq
  rw [hloose]
  constructor
  · intro h
    refine ⟨fun ⟨hne, hjoin⟩ => hne ?_, fun hsame => ?_⟩
    · obtain ⟨hkeys, hvalues⟩ := h hjoin
      obtain ⟨hlength, hzip⟩ := (map_eq_map_iff_zip _ _ _).mp (shown_keys hm hm' hkeys)
      refine eq_of_join_eq (R := fun s s' => ∃ (k : Bytes) (v w : Value), v.looseEqual w ∧
        s = entryText (k, v.display) ∧
        s' = entryText (k, w.display)) ?_ ?_ hjoin
      · rintro _ _ ⟨k, v, w, hvw, rfl, rfl⟩ t
        simpa [entryText] using looseEqual_not_continued hvw t
      · rw [List.forall₂_map_left_iff, List.forall₂_map_right_iff]
        refine List.forall₂_iff_zip.mpr ⟨hlength, fun {e e'} hp => ?_⟩
        obtain ⟨v, hv, hshow⟩ := mem_shown.mp (List.of_mem_zip hp).1
        obtain ⟨w, hw, hshow'⟩ := mem_shown.mp (List.of_mem_zip hp).2
        have hkey : e.1 = e'.1 := hzip _ hp
        exact ⟨e.1, v, w, hvalues _ _ _ hv (hkey ▸ hw), by rw [hshow], by rw [hshow', hkey]⟩
    · obtain ⟨hkeys, hvalues⟩ := h (by rw [hsame])
      exact ⟨shown_keys hm hm' hkeys, fun k v w hv hw hnum =>
        (looseEqual_iff_sameNumber hnum).mp (hvalues k v w hv hw)⟩
  · rintro ⟨hamb, hcut⟩ hjoin
    have hsame : (shown m).map entryText = (shown m').map entryText := by
      by_contra hne
      exact hamb ⟨hne, hjoin⟩
    obtain ⟨hkeys, hnum⟩ := hcut hsame
    obtain ⟨hlength, hzip⟩ := (map_eq_map_iff_zip _ _ _).mp hsame
    -- entries of one place have one key and one text, so they are displayed alike
    have hentries : (shown m).map id = (shown m').map id := by
      refine (map_eq_map_iff_zip _ _ _).mpr ⟨hlength, fun p hp => Prod.ext ?_ ?_⟩
      · exact ((map_eq_map_iff_zip _ _ _).mp hkeys).2 p hp
      · have htext := hzip p hp
        rw [entryText, entryText, ((map_eq_map_iff_zip _ _ _).mp hkeys).2 p hp] at htext
        exact List.append_cancel_left htext
    rw [List.map_id, List.map_id] at hentries
    have hacross : ∀ {m m' : List (Bytes × Value)} {k v}, shown m = shown m' → (k, v) ∈ m →
        ∃ w : Value, (k, w) ∈ m' ∧ w.display = v.display := by
      intro m m' k v heq hv
      have hmem : (k, v.display) ∈ shown m := mem_shown.mpr ⟨v, hv, rfl⟩
      rw [heq] at hmem
      exact mem_shown.mp hmem
    refine ⟨fun k => ⟨fun hk => ?_, fun hk => ?_⟩, fun k v w hv hw => ?_⟩
    · obtain ⟨e, he, rfl⟩ := List.mem_map.mp hk
      obtain ⟨w, hw, -⟩ := hacross hentries he
      exact List.mem_map.mpr ⟨_, hw, rfl⟩
    · obtain ⟨e, he, rfl⟩ := List.mem_map.mp hk
      obtain ⟨w, hw, -⟩ := hacross hentries.symm he
      exact List.mem_map.mpr ⟨_, hw, rfl⟩
    · obtain ⟨w', hw', hshow⟩ := hacross hentries hv
      obtain rfl : w' = w := congrArg Prod.snd (List.inj_on_of_nodup_map hm' hw' hw rfl)
      cases hn : v.isNumber || w'.isNumber with
      | true => exact (looseEqual_iff_sameNumber hn).mpr (hnum k v w' hv hw hn)
      | false => exact looseEqual_of_display hn hshow.symm

end Forgelet.Expression
