import Forgelet.Lib.Bytes

/-!
# The code points of a byte string

How a byte string is cut into code points: an ASCII byte is one of its own, and what stands before it is cut as if
nothing followed. So `trimSpace` takes off the white space at the ends of a text, and `toLower` works on its parts.
-/

namespace Bytes

open GoString (isSpace)

variable {b x : UInt8} {s : Bytes}

/-- A byte that is a character. -/
def IsAscii (b : UInt8) : Prop := b < 0x80

instance : DecidablePred IsAscii := fun b => inferInstanceAs (Decidable (b < 0x80))

theorem IsAscii.not_isTail (h : IsAscii b) : isTail b = false := by
  unfold IsAscii at h
  unfold isTail
  grind

theorem decodeRune_ascii (h : IsAscii b) (rest : Bytes) : decodeRune b rest = (Char.ofNat b.toNat, 1) := by
  exact if_pos h

theorem decodeRune_append (hx : IsAscii x) (b : UInt8) (rest t : Bytes) :
    decodeRune b (rest ++ x :: t) = decodeRune b rest := by
  have htail := hx.not_isTail
  unfold decodeRune
  split_ifs with hb
  · rfl
  · match rest with
    | [] =>
      dsimp only [List.nil_append]
      rw [htail]
      cases t with
      | nil => simp
      | cons b₂ t =>
        cases t with
        | nil | cons => simp
    | [b₁] =>
      dsimp only [List.cons_append, List.nil_append]
      rw [htail]
      cases t with
      | nil | cons => simp
    | [b₁, b₂] =>
      dsimp only [List.cons_append, List.nil_append]
      rw [htail]
      simp
    | b₁ :: b₂ :: b₃ :: rest => rfl

theorem decodeRune_width (b : UInt8) (rest : Bytes) :
    1 ≤ (decodeRune b rest).2 ∧ (decodeRune b rest).2 ≤ rest.length + 1 := by
  unfold decodeRune
  split_ifs with hb
  · exact ⟨le_rfl, by dsimp only; omega⟩
  · match rest with
    | [] => exact ⟨le_rfl, le_rfl⟩
    | [b₁] =>
      dsimp only
      split_ifs
      all_goals
        constructor
        all_goals simp
    | [b₁, b₂] =>
      dsimp only
      split_ifs
      all_goals
        constructor
        all_goals simp
    | b₁ :: b₂ :: b₃ :: rest =>
      dsimp only
      split_ifs
      all_goals
        constructor
        all_goals simp

theorem decodeRune_of_isPrefix {rest rest' : Bytes} (hstarts : rest' <+: rest)
    (hwidth : (decodeRune b rest).2 ≤ rest'.length + 1) : decodeRune b rest' = decodeRune b rest := by
  obtain ⟨t, rfl⟩ := hstarts
  unfold decodeRune at hwidth ⊢
  -- at most three bytes are looked at, before the end of the code point or after it
  rcases rest' with _ | ⟨b₁, _ | ⟨b₂, _ | ⟨b₃, rest'⟩⟩⟩
  · rcases t with _ | ⟨b₁, _ | ⟨b₂, _ | ⟨b₃, t⟩⟩⟩
    all_goals grind
  · rcases t with _ | ⟨b₂, _ | ⟨b₃, t⟩⟩
    all_goals grind
  · rcases t with _ | ⟨b₃, t⟩
    all_goals grind
  · rfl

theorem length_drop_rune (b : UInt8) (rest : Bytes) :
    ((b :: rest).drop (decodeRune b rest).2).length ≤ rest.length := by
  have hwidth := decodeRune_width b rest
  rw [List.length_drop, List.length_cons]
  omega

/-- Enough fuel is as good as any. -/
theorem chunksFrom_eq {fuel fuel' : Nat} (h : s.length ≤ fuel) (h' : s.length ≤ fuel') :
    chunksFrom fuel s = chunksFrom fuel' s := by
  induction fuel generalizing fuel' s with
  | zero =>
    rw [List.length_eq_zero_iff.mp (Nat.le_zero.mp h)]
    cases fuel' <;> rfl
  | succ fuel ih =>
    cases s with
    | nil => cases fuel' <;> rfl
    | cons b rest =>
      have hshort := length_drop_rune b rest
      rw [List.length_cons] at h h'
      obtain ⟨fuel', rfl⟩ := Nat.exists_eq_add_one_of_ne_zero (Nat.ne_zero_of_lt h')
      rw [chunksFrom, chunksFrom]
      dsimp only
      rw [ih (hshort.trans (Nat.le_of_succ_le_succ h)) (hshort.trans (Nat.le_of_succ_le_succ h'))]

theorem chunks_cons (b : UInt8) (rest : Bytes) :
    chunks (b :: rest) = ((decodeRune b rest).1, (b :: rest).take (decodeRune b rest).2) ::
      chunks ((b :: rest).drop (decodeRune b rest).2) := by
  rw [chunks, List.length_cons, chunksFrom]
  dsimp only
  rw [chunks, chunksFrom_eq (length_drop_rune b rest) le_rfl]

/-- Induction along the code points of a text. -/
theorem chunks_induction {P : Bytes → Prop} (nil : P [])
    (cons : ∀ b rest, P ((b :: rest).drop (decodeRune b rest).2) → P (b :: rest)) (s : Bytes) : P s := by
  induction hn : s.length using Nat.strong_induction_on generalizing s with
  | _ n ih =>
    cases s with
    | nil => exact nil
    | cons b rest => exact cons b rest (ih _ (hn ▸ Nat.lt_succ_of_le (length_drop_rune b rest)) _ rfl)

theorem chunks_cons_ascii (h : IsAscii b) (rest : Bytes) :
    chunks (b :: rest) = (Char.ofNat b.toNat, [b]) :: chunks rest := by
  rw [chunks_cons, decodeRune_ascii h]
  rfl

theorem chunks_append_ascii (hx : IsAscii x) (s t : Bytes) : chunks (s ++ x :: t) = chunks s ++ chunks (x :: t) := by
  induction s using chunks_induction with
  | nil => rfl
  | cons b rest ih =>
    have hle : (decodeRune b rest).2 ≤ (b :: rest).length := (decodeRune_width b rest).2
    rw [List.cons_append, chunks_cons, decodeRune_append hx, ← List.cons_append, List.take_append_of_le_length hle,
      List.drop_append_of_le_length hle, ih, chunks_cons b rest]
    rfl

theorem chunks_ascii_append {pre : Bytes} (h : ∀ b ∈ pre, IsAscii b) (s : Bytes) :
    chunks (pre ++ s) = chunks pre ++ chunks s := by
  induction pre with
  | nil => rfl
  | cons b pre ih =>
    obtain ⟨hb, hpre⟩ := List.forall_mem_cons.mp h
    rw [List.cons_append, chunks_cons_ascii hb, chunks_cons_ascii hb, ih hpre]
    rfl

/-- ASCII bytes at the end of a text are cut off as they are. -/
theorem chunks_append_of_ascii {post : Bytes} (h : ∀ b ∈ post, IsAscii b) (s : Bytes) :
    chunks (s ++ post) = chunks s ++ chunks post := by
  cases post with
  | nil => rw [List.append_nil]; exact (List.append_nil _).symm
  | cons x t => exact chunks_append_ascii (h x (.head _)) s t

theorem flatMap_chunks (s : Bytes) : s.chunks.flatMap (·.2) = s := by
  induction s using chunks_induction with
  | nil => rfl
  | cons b rest ih =>
    rw [chunks_cons, List.flatMap_cons, ih]
    exact List.take_append_drop ..

/-- A text that starts with some of the code points of another is cut into these. -/
theorem chunks_front {l r : List (Char × Bytes)} (h : chunks s = l ++ r) : chunks (l.flatMap (·.2)) = l := by
  induction l generalizing s with
  | nil => rfl
  | cons c l ih =>
    cases s with
    | nil => cases h
    | cons b rest =>
      obtain ⟨hlow, hhigh⟩ := decodeRune_width b rest
      obtain ⟨w, hw⟩ := Nat.exists_eq_add_of_le' hlow
      rw [chunks_cons, List.cons_append] at h
      obtain ⟨rfl, htail⟩ := List.cons.inj h
      rw [hw, List.drop_succ_cons] at htail
      have hdrop : rest.drop w = l.flatMap (·.2) ++ r.flatMap (·.2) := by
        rw [← flatMap_chunks (rest.drop w), htail, List.flatMap_append]
      have htext : ((decodeRune b rest).1, (b :: rest).take (decodeRune b rest).2).2 ++ l.flatMap (·.2) =
          b :: (rest.take w ++ l.flatMap (·.2)) := by
        rw [hw, List.take_succ_cons, List.cons_append]
      have hstarts : rest.take w ++ l.flatMap (·.2) <+: rest := by
        refine ⟨r.flatMap (·.2), ?_⟩
        rw [List.append_assoc, ← hdrop, List.take_append_drop]
      have hlength : (rest.take w).length = w := by
        rw [List.length_take]
        omega
      have hsame : decodeRune b (rest.take w ++ l.flatMap (·.2)) = decodeRune b rest := by
        refine decodeRune_of_isPrefix hstarts ?_
        rw [List.length_append, hlength]
        omega
      rw [List.flatMap_cons, htext, chunks_cons, hsame, hw, List.take_succ_cons, List.take_succ_cons,
        List.drop_succ_cons, List.take_left' hlength, List.drop_left' hlength, ih htail]

theorem chunks_back {l r : List (Char × Bytes)} (h : chunks s = l ++ r) : chunks (r.flatMap (·.2)) = r := by
  induction l generalizing s with
  | nil =>
    rw [List.nil_append] at h
    rw [← h, flatMap_chunks]
  | cons c l ih =>
    cases s with
    | nil => cases h
    | cons b rest =>
      rw [chunks_cons, List.cons_append] at h
      exact ih (List.cons.inj h).2

/-- White space of one byte. -/
def IsAsciiSpace (b : UInt8) : Prop := IsAscii b ∧ GoString.isSpace (Char.ofNat b.toNat)

/-- A character of one byte that is no white space. -/
def IsAsciiGraph (b : UInt8) : Prop := IsAscii b ∧ GoString.isSpace (Char.ofNat b.toNat) = false

theorem chunks_spaces (h : ∀ b ∈ s, IsAsciiSpace b) : ∀ c ∈ s.chunks, isSpace c.1 := by
  induction s with
  | nil => exact fun c hc => (List.not_mem_nil hc).elim
  | cons b s ih =>
    obtain ⟨hb, hs⟩ := List.forall_mem_cons.mp h
    rw [chunks_cons_ascii hb.1]
    exact List.forall_mem_cons.mpr ⟨hb.2, ih hs⟩

theorem trimSpace_of_edges {pre post s' : Bytes} {b' : UInt8} (hpre : ∀ x ∈ pre, IsAsciiSpace x)
    (hpost : ∀ x ∈ post, IsAsciiSpace x) {m : Bytes} (hfirst : m = b :: s) (hlast : m = s' ++ [b'])
    (hb : IsAsciiGraph b) (hb' : IsAsciiGraph b') : trimSpace (pre ++ (m ++ post)) = m := by
  have hcut : chunks (pre ++ (m ++ post)) = chunks pre ++ (chunks m ++ chunks post) := by
    rw [chunks_ascii_append fun x hx => (hpre x hx).1, chunks_append_of_ascii fun x hx => (hpost x hx).1]
  have hstart : ∃ t, chunks m = (Char.ofNat b.toNat, [b]) :: t := ⟨_, by rw [hfirst, chunks_cons_ascii hb.1]⟩
  have hend : ∃ t, chunks m = t ++ [(Char.ofNat b'.toNat, [b'])] := by
    refine ⟨chunks s', ?_⟩
    rw [hlast, chunks_append_ascii hb'.1, chunks_cons_ascii hb'.1]
    rfl
  have hfront : (chunks pre ++ (chunks m ++ chunks post)).dropWhile (fun c => isSpace c.1) =
      chunks m ++ chunks post := by
    obtain ⟨t, ht⟩ := hstart
    rw [List.dropWhile_append_of_pos (chunks_spaces hpre), ht, List.cons_append, List.dropWhile_cons_of_neg]
    rw [hb.2]
    exact Bool.false_ne_true
  have hback : (chunks m ++ chunks post).reverse.dropWhile (fun c => isSpace c.1) = (chunks m).reverse := by
    obtain ⟨t, ht⟩ := hend
    have hspaces : ∀ c ∈ (chunks post).reverse, isSpace c.1 := fun c hc =>
      chunks_spaces hpost c (List.mem_reverse.mp hc)
    rw [List.reverse_append, List.dropWhile_append_of_pos hspaces, ht, List.reverse_append, List.reverse_singleton,
      List.singleton_append, List.dropWhile_cons_of_neg]
    rw [hb'.2]
    exact Bool.false_ne_true
  rw [trimSpace, hcut, hfront, hback, List.reverse_reverse, flatMap_chunks]

theorem not_mem_of_isSpace (hx : IsAsciiGraph x) {c : Char × Bytes} (hc : c ∈ chunks s)
    (hspace : isSpace c.1) : x ∉ c.2 := by
  induction s using chunks_induction with
  | nil => cases hc
  | cons b rest ih =>
    have hwidth := decodeRune_width b rest
    rw [chunks_cons, List.mem_cons] at hc
    rcases hc with rfl | hc
    · intro hmem
      obtain ⟨u, t, hut⟩ := List.append_of_mem hmem
      have hlength : u.length < (decodeRune b rest).2 := by
        have htake := congrArg List.length hut
        simp only [List.length_take, List.length_append, List.length_cons] at htake
        omega
      obtain ⟨t', hsplit⟩ : ∃ t', b :: rest = u ++ x :: t' := by
        refine ⟨t ++ (b :: rest).drop (decodeRune b rest).2, ?_⟩
        rw [← List.cons_append, ← List.append_assoc, ← hut, List.take_append_drop]
      cases u with
      | nil =>
        -- the byte is a code point of its own, and no white space
        have hb : b = x := (List.cons.inj hsplit).1
        rw [hb, decodeRune_ascii hx.1, hx.2] at hspace
        cases hspace
      | cons b' u =>
        -- the code point would go on beyond an ASCII byte
        have hrest : rest = u ++ x :: t' := (List.cons.inj hsplit).2
        have hend := (decodeRune_width b u).2
        rw [hrest, decodeRune_append hx.1, List.length_cons] at hlength
        omega
    · exact ih hc

theorem count_dropWhile {drops : Char × Bytes → Bool} {l : List (Char × Bytes)}
    (h : ∀ c ∈ l, drops c → x ∉ c.2) :
    ((l.dropWhile drops).flatMap (·.2)).count x = (l.flatMap (·.2)).count x := by
  induction l with
  | nil => rfl
  | cons c l ih =>
    obtain ⟨hc, hl⟩ := List.forall_mem_cons.mp h
    by_cases hdrop : drops c
    · rw [List.dropWhile_cons_of_pos hdrop, ih hl, List.flatMap_cons, List.count_append,
        List.count_eq_zero.mpr (hc hdrop), Nat.zero_add]
    · rw [List.dropWhile_cons_of_neg hdrop]

/-- `trimSpace` takes off white space only. -/
theorem count_trimSpace (hx : IsAsciiGraph x) (s : Bytes) : (trimSpace s).count x = s.count x := by
  have hreverse : ∀ l : List (Char × Bytes), (l.reverse.flatMap (·.2)).count x = (l.flatMap (·.2)).count x :=
    fun l => ((List.reverse_perm l).flatMap_right _).count_eq x
  have hfront : ∀ c ∈ (s.chunks.dropWhile fun c => isSpace c.1).reverse,
      isSpace c.1 → x ∉ c.2 := fun c hc =>
    not_mem_of_isSpace hx ((List.dropWhile_suffix _).subset (List.mem_reverse.mp hc))
  unfold trimSpace
  rw [hreverse, count_dropWhile hfront, hreverse, count_dropWhile fun c hc => not_mem_of_isSpace hx hc, flatMap_chunks]

/-- `trimSpace` takes code points off the ends of a text. -/
theorem chunks_trimSpace (s : Bytes) : chunks (trimSpace s) <:+: chunks s := by
  obtain ⟨front, hfront⟩ : ∃ front, chunks s = front ++ s.chunks.dropWhile fun c => isSpace c.1 :=
    ⟨_, (List.takeWhile_append_dropWhile).symm⟩
  generalize hback : s.chunks.dropWhile (fun c => isSpace c.1) = back at hfront
  have hsplit : back = (back.reverse.dropWhile fun c => isSpace c.1).reverse ++
      (back.reverse.takeWhile fun c => isSpace c.1).reverse := by
    rw [← List.reverse_append, List.takeWhile_append_dropWhile, List.reverse_reverse]
  have hmiddle : chunks (trimSpace s) = (back.reverse.dropWhile fun c => isSpace c.1).reverse := by
    unfold trimSpace
    rw [hback]
    exact chunks_front ((chunks_back hfront).trans hsplit)
  rw [hmiddle, hfront]
  exact ⟨front, _, by rw [List.append_assoc, ← hsplit]⟩

theorem trimSpace_isInfix (s : Bytes) : trimSpace s <:+: s := by
  obtain ⟨front, back, h⟩ := chunks_trimSpace s
  refine ⟨front.flatMap (·.2), back.flatMap (·.2), ?_⟩
  have hall := congrArg (List.flatMap (·.2)) h
  rw [List.flatMap_append, List.flatMap_append, flatMap_chunks, flatMap_chunks] at hall
  exact hall

theorem toLower_trimSpace (s : Bytes) : toLower (trimSpace s) <:+: toLower s := by
  obtain ⟨front, back, h⟩ := chunks_trimSpace s
  unfold toLower runes
  rw [← h]
  simp only [List.map_append, List.flatMap_append]
  exact ⟨_, _, rfl⟩

theorem contains_iff_infix {sub : Bytes} : contains s sub ↔ sub <:+: s := by
  unfold contains
  induction s with
  | nil =>
    rw [index, List.infix_nil]
    split_ifs with hempty
    · exact iff_of_true rfl (List.isEmpty_iff.mp hempty)
    · exact iff_of_false Bool.false_ne_true fun h => hempty (List.isEmpty_iff.mpr h)
  | cons b s ih =>
    rw [index, List.infix_cons_iff]
    split_ifs with hstart
    · exact iff_of_true rfl (.inl (List.isPrefixOf_iff_prefix.mp hstart))
    · rw [Option.isSome_map, ih]
      exact (or_iff_right fun h => hstart (List.isPrefixOf_iff_prefix.mpr h)).symm

theorem contains_of_isInfix {t sub : Bytes} (hpart : s <:+: t) (h : contains t sub = false) :
    contains s sub = false := by
  rw [Bool.eq_false_iff, ne_eq, contains_iff_infix] at h ⊢
  exact fun hsub => h (hsub.trans hpart)

end Bytes
