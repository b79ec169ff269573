import Forgelet.Lib.Bytes

/-!
# Slash-separated paths

The lexical functions of package `path/filepath` on Unix. Cleaning takes the elements of a path one after the other and
keeps a trail of those it is inside of, the innermost first. A cleaned path is determined by whether it is rooted and
by its trail.
-/

namespace Path

open Bytes (byte)

variable {p q : Bytes}

/-- The separator. -/
def slash : UInt8 := byte '/'

/-- The directory itself. -/
def dot : Bytes := [byte '.']

/-- The directory above. -/
def dotdot : Bytes := [byte '.', byte '.']

/-- The path starts at the root. -/
def isAbs (p : Bytes) : Bool := p.head? == some slash

/-- The trail after one more element; above the root is the root. -/
def enter (rooted : Bool) (trail : List Bytes) (e : Bytes) : List Bytes :=
  if e = [] ∨ e = dot then trail
  else if e = dotdot then
    match trail with
    | [] => if rooted then [] else [dotdot]
    | inner :: outer => if inner = dotdot then dotdot :: inner :: outer else outer
  else e :: trail

/-- The trail of a path. -/
def trail (p : Bytes) : List Bytes := (p.splitOn slash).foldl (enter (isAbs p)) []

/-- The cleaned path with a trail. -/
def render (rooted : Bool) (trail : List Bytes) : Bytes :=
  if rooted then slash :: Bytes.join [slash] trail.reverse
  else if trail = [] then dot
  else Bytes.join [slash] trail.reverse

/-- `filepath.Clean`. -/
def clean (p : Bytes) : Bytes := render (isAbs p) (trail p)

/-- `filepath.Join`. -/
def join : List Bytes → Bytes
  | [] => []
  | e :: rest => if e = [] then join rest else clean (Bytes.join [slash] (e :: rest))

/-- An element that goes one directory down. -/
structure Name (e : Bytes) : Prop where
  ne_nil : e ≠ []
  ne_dot : e ≠ dot
  ne_dotdot : e ≠ dotdot
  no_slash : slash ∉ e

instance (e : Bytes) : Decidable (Name e) :=
  decidable_of_iff (e ≠ [] ∧ e ≠ dot ∧ e ≠ dotdot ∧ slash ∉ e)
    ⟨fun h => ⟨h.1, h.2.1, h.2.2.1, h.2.2.2⟩, fun h => ⟨h.1, h.2, h.3, h.4⟩⟩

/-- One more element, inside of a directory with an unknown trail of its own; `none` leaves it. -/
def enterInside (trail : List Bytes) (e : Bytes) : Option (List Bytes) :=
  if e = [] ∨ e = dot then some trail
  else if e = dotdot then trail.tail?
  else some (e :: trail)

/-- What cleaning ends with: names, inside of steps upwards if relative. -/
def Normal (rooted : Bool) (trail : List Bytes) : Prop :=
  ∃ names n, trail = names ++ List.replicate n dotdot ∧ (∀ e ∈ names, Name e) ∧ (rooted → n = 0)

theorem join_eq_intercalate (sep : Bytes) (l : List Bytes) : Bytes.join sep l = sep.intercalate l := by
  induction l with
  | nil => rfl
  | cons s rest ih =>
    cases rest with
    | nil => exact (List.append_nil s).symm
    | cons s' rest =>
      show s ++ sep ++ Bytes.join sep (s' :: rest) = _
      rw [ih, List.intercalate_cons_cons, List.append_assoc]

/-! ## Entering elements -/

section Enter

variable {rooted : Bool} {t : List Bytes} {e : Bytes}

theorem enter_name (he : Name e) : enter rooted t e = e :: t := by
  unfold enter
  rw [if_neg (by rintro (h | h); exacts [he.ne_nil h, he.ne_dot h]), if_neg he.ne_dotdot]

theorem enter_names {names : List Bytes} (h : ∀ e ∈ names, Name e) :
    names.foldl (enter rooted) t = names.reverse ++ t := by
  induction names generalizing t with
  | nil => rfl
  | cons e names ih =>
    rw [List.foldl_cons, enter_name (h e (.head _)), ih fun e he => h e (.tail _ he),
      List.reverse_cons, List.append_assoc, List.singleton_append]

theorem enter_append {t t' base : List Bytes} (h : enterInside t e = some t') (ht : dotdot ∉ t) :
    enter rooted (t ++ base) e = t' ++ base ∧ dotdot ∉ t' := by
  unfold enterInside at h
  unfold enter
  by_cases hstay : e = [] ∨ e = dot
  · rw [if_pos hstay] at h ⊢
    rw [← Option.some.inj h]
    exact ⟨rfl, ht⟩
  rw [if_neg hstay] at h ⊢
  by_cases hup : e = dotdot
  · rw [if_pos hup] at h ⊢
    cases t with
    | nil => cases h
    | cons inner outer =>
      cases h
      rw [List.mem_cons, not_or] at ht
      exact ⟨if_neg (Ne.symm ht.1), ht.2⟩
  · rw [if_neg hup] at h ⊢
    rw [← Option.some.inj h]
    exact ⟨rfl, List.not_mem_cons_of_ne_of_not_mem (Ne.symm hup) ht⟩

theorem enterInside_eq_none {t : List Bytes} (h : enterInside t e = none) : t = [] ∧ e = dotdot := by
  unfold enterInside at h
  split_ifs at h with hstay hup
  cases t with
  | nil => exact ⟨rfl, hup⟩
  | cons inner outer => cases h

/-- What is done inside a directory does not depend on where it is. -/
theorem foldl_enter_append {t t' es base : List Bytes} (h : es.foldlM enterInside t = some t') (ht : dotdot ∉ t) :
    es.foldl (enter rooted) (t ++ base) = t' ++ base := by
  induction es generalizing t with
  | nil => rw [← Option.some.inj h, List.foldl_nil]
  | cons e es ih =>
    rw [List.foldlM_cons] at h
    obtain ⟨u, hu, h⟩ := Option.bind_eq_some_iff.mp h
    obtain ⟨henter, hu⟩ := enter_append hu ht
    rw [List.foldl_cons, henter]
    exact ih h hu

theorem notMem_foldl_enter {w : Bytes} {t es : List Bytes} (ht : w ∉ t) (hes : w ∉ es) (hw : w ≠ dotdot) :
    w ∉ es.foldl (enter rooted) t := by
  induction es generalizing t with
  | nil => exact ht
  | cons e es ih =>
    rw [List.mem_cons, not_or] at hes
    refine ih (fun hmem => ?_) hes.2
    unfold enter at hmem
    by_cases hstay : e = [] ∨ e = dot
    · rw [if_pos hstay] at hmem
      exact ht hmem
    rw [if_neg hstay] at hmem
    by_cases hup : e = dotdot
    · rw [if_pos hup] at hmem
      cases t with
      | nil =>
        dsimp only at hmem
        split_ifs at hmem
        · cases hmem
        · exact hw (List.mem_singleton.mp hmem)
      | cons inner outer =>
        dsimp only at hmem
        split_ifs at hmem
        · exact List.not_mem_cons_of_ne_of_not_mem hw ht hmem
        · exact ht (.tail _ hmem)
    · rw [if_neg hup] at hmem
      exact List.not_mem_cons_of_ne_of_not_mem hes.1 ht hmem

/-- A directory that is left is not entered again under another name. -/
theorem notMem_foldl_enter_append {w : Bytes} {t es : List Bytes} (h : es.foldlM enterInside t = none)
    (ht : dotdot ∉ t) (hes : w ∉ es) (hw : w ≠ dotdot) : w ∉ es.foldl (enter rooted) (t ++ [w]) := by
  induction es generalizing t with
  | nil => cases h
  | cons e es ih =>
    rw [List.mem_cons, not_or] at hes
    rw [List.foldlM_cons] at h
    rw [List.foldl_cons]
    cases hinside : enterInside t e with
    | none =>
      obtain ⟨rfl, rfl⟩ := enterInside_eq_none hinside
      have hleft : enter rooted ([] ++ [w]) dotdot = [] := if_neg hw
      rw [hleft]
      exact notMem_foldl_enter List.not_mem_nil hes.2 hw
    | some u =>
      rw [hinside] at h
      obtain ⟨henter, hu⟩ := enter_append hinside ht
      rw [henter]
      exact ih h hu hes.2

theorem enter_dotdots (n : Nat) : (List.replicate n dotdot).foldl (enter false) [] = List.replicate n dotdot := by
  induction n with
  | zero => rfl
  | succ n ih =>
    rw [List.replicate_succ', List.foldl_append, ih, List.foldl_cons, List.foldl_nil]
    cases n with
    | zero => rfl
    | succ n =>
      rw [← List.replicate_succ']
      rfl

theorem Normal.enter (h : Normal rooted t) (he : slash ∉ e) : Normal rooted (Path.enter rooted t e) := by
  unfold Path.enter
  by_cases hstay : e = [] ∨ e = dot
  · rw [if_pos hstay]
    exact h
  rw [if_neg hstay]
  by_cases hup : e = dotdot
  · rw [if_pos hup]
    obtain ⟨names, n, rfl, hnames, hroot⟩ := h
    cases names with
    | cons inner names =>
      have hinner := hnames inner (.head _)
      refine ⟨names, n, ?_, fun e he => hnames e (.tail _ he), hroot⟩
      exact if_neg hinner.ne_dotdot
    | nil =>
      cases n with
      | zero =>
        cases rooted with
        | true => exact ⟨[], 0, rfl, nofun, fun _ => rfl⟩
        | false => exact ⟨[], 1, rfl, nofun, fun h => by cases h⟩
      | succ n =>
        refine ⟨[], n + 2, ?_, nofun, fun h => absurd (hroot h) (Nat.succ_ne_zero n)⟩
        exact if_pos rfl
  · rw [if_neg hup]
    obtain ⟨names, n, rfl, hnames, hroot⟩ := h
    have hname : Name e := ⟨fun h => hstay (.inl h), fun h => hstay (.inr h), hup, he⟩
    refine ⟨e :: names, n, rfl, ?_, hroot⟩
    rw [List.forall_mem_cons]
    exact ⟨hname, hnames⟩

theorem Normal.foldl {es : List Bytes} (h : Normal rooted t) (hes : ∀ e ∈ es, slash ∉ e) :
    Normal rooted (es.foldl (Path.enter rooted) t) := by
  induction es generalizing t with
  | nil => exact h
  | cons e es ih => exact ih (h.enter (hes e (.head _))) fun e he => hes e (.tail _ he)

theorem normal_nil : Normal rooted [] := ⟨[], 0, rfl, nofun, fun _ => rfl⟩

theorem Normal.foldl_reverse (h : Normal rooted t) : t.reverse.foldl (Path.enter rooted) [] = t := by
  obtain ⟨names, n, rfl, hnames, hroot⟩ := h
  rw [List.reverse_append, List.foldl_append, List.reverse_replicate]
  have hups : (List.replicate n dotdot).foldl (Path.enter rooted) [] = List.replicate n dotdot := by
    cases rooted with
    | true => rw [hroot rfl]; rfl
    | false => exact enter_dotdots n
  rw [hups, enter_names fun e he => hnames e (List.mem_reverse.mp he), List.reverse_reverse]

theorem Normal.no_slash (h : Normal rooted t) (he : e ∈ t) : slash ∉ e := by
  obtain ⟨names, n, rfl, hnames, -⟩ := h
  rcases List.mem_append.mp he with he | he
  · exact (hnames e he).no_slash
  · rw [List.eq_of_mem_replicate he]
    decide

theorem Normal.ne_nil (h : Normal rooted t) (he : e ∈ t) : e ≠ [] := by
  obtain ⟨names, n, rfl, hnames, -⟩ := h
  rcases List.mem_append.mp he with he | he
  · exact (hnames e he).ne_nil
  · rw [List.eq_of_mem_replicate he]
    decide

end Enter

/-! ## Cleaning -/

/-- An element has no separator, and is no longer than the text. -/
theorem mem_splitOn {sep : UInt8} {e : Bytes} (he : e ∈ p.splitOn sep) : sep ∉ e ∧ e.length ≤ p.length := by
  induction p generalizing e with
  | nil =>
    rw [List.splitOn_nil, List.mem_singleton] at he
    rw [he]
    exact ⟨List.not_mem_nil, le_rfl⟩
  | cons b p ih =>
    rw [List.splitOn_cons_eq_if_modifyHead] at he
    rw [List.length_cons]
    split_ifs at he with hb
    · rcases List.mem_cons.mp he with rfl | he
      · exact ⟨List.not_mem_nil, Nat.zero_le _⟩
      · exact (ih he).imp_right Nat.le_succ_of_le
    · cases hsplit : p.splitOn sep with
      | nil => exact absurd hsplit (List.splitOn_ne_nil sep p)
      | cons first rest =>
        rw [hsplit] at he ih
        rcases List.mem_cons.mp he with rfl | he
        · rw [List.mem_cons, not_or]
          exact ⟨⟨fun h => hb (beq_iff_eq.mpr h.symm), (ih (.head _)).1⟩, Nat.succ_le_succ (ih (.head _)).2⟩
        · exact (ih (.tail _ he)).imp_right Nat.le_succ_of_le

theorem normal_trail (p : Bytes) : Normal (isAbs p) (trail p) :=
  normal_nil.foldl fun _ he => (mem_splitOn he).1

theorem isAbs_join {l : List Bytes} (hl : ∀ e ∈ l, e ≠ [] ∧ slash ∉ e) : isAbs (Bytes.join [slash] l) = false := by
  cases l with
  | nil => rfl
  | cons e rest =>
    obtain ⟨hne, hslash⟩ := hl e (.head _)
    cases e with
    | nil => exact absurd rfl hne
    | cons b e =>
      have hb : b ≠ slash := fun h => hslash (h ▸ (.head _))
      have hhead : (Bytes.join [slash] ((b :: e) :: rest)).head? = some b := by
        cases rest <;> rfl
      unfold isAbs
      rw [hhead]
      exact beq_eq_false_iff_ne.mpr fun h => hb (Option.some.inj h)

theorem isAbs_render {rooted : Bool} {t : List Bytes} (h : Normal rooted t) : isAbs (render rooted t) = rooted := by
  cases rooted with
  | true => exact beq_iff_eq.mpr rfl
  | false =>
    unfold render
    rw [if_neg Bool.false_ne_true]
    split_ifs with hnil
    · rfl
    · exact isAbs_join fun e he => ⟨h.ne_nil (List.mem_reverse.mp he), h.no_slash (List.mem_reverse.mp he)⟩

theorem splitOn_join {l : List Bytes} (hl : ∀ e ∈ l, slash ∉ e) (hne : l ≠ []) :
    (Bytes.join [slash] l).splitOn slash = l := by
  rw [join_eq_intercalate]
  exact List.splitOn_intercalate slash hl hne

/-- The elements of a cleaned path; a rooted one has an empty element before its slash. -/
theorem splitOn_render {rooted : Bool} {t : List Bytes} (h : Normal rooted t) (hne : t ≠ []) :
    (render rooted t).splitOn slash = (if rooted then [[]] else []) ++ t.reverse := by
  have hslash : ∀ e ∈ t.reverse, slash ∉ e := fun e he => h.no_slash (List.mem_reverse.mp he)
  have hsplit := splitOn_join hslash fun h => hne (List.reverse_eq_nil_iff.mp h)
  cases rooted with
  | true =>
    show (slash :: Bytes.join [slash] t.reverse).splitOn slash = [] :: t.reverse
    rw [List.splitOn_cons_eq_if_modifyHead, if_pos (beq_iff_eq.mpr rfl), hsplit]
  | false =>
    unfold render
    rw [if_neg Bool.false_ne_true, if_neg hne]
    exact hsplit

theorem trail_render {rooted : Bool} {t : List Bytes} (h : Normal rooted t) : trail (render rooted t) = t := by
  unfold trail
  rw [isAbs_render h]
  by_cases hnil : t = []
  · subst hnil
    cases rooted <;> rfl
  · rw [splitOn_render h hnil, List.foldl_append]
    cases rooted <;> exact h.foldl_reverse

@[simp] theorem isAbs_clean (p : Bytes) : isAbs (clean p) = isAbs p := isAbs_render (normal_trail p)

@[simp] theorem trail_clean (p : Bytes) : trail (clean p) = trail p := trail_render (normal_trail p)

/-! ## Joining -/

theorem isAbs_append (hp : p ≠ []) : isAbs (p ++ q) = isAbs p := by
  cases p with
  | nil => exact absurd rfl hp
  | cons b p => rfl

/-- The trail of two paths is that of the first, followed through the second. -/
theorem trail_append (hp : p ≠ []) : trail (p ++ slash :: q) = (q.splitOn slash).foldl (enter (isAbs p)) (trail p) := by
  unfold trail
  rw [isAbs_append hp, List.splitOn_append_cons_self, List.foldl_append]

theorem join_pair (hp : p ≠ []) : join [p, q] = clean (p ++ slash :: q) := by
  show (if p = [] then join [q] else clean (p ++ [slash] ++ q)) = _
  rw [if_neg hp, List.append_assoc, List.singleton_append]

theorem isAbs_join_pair (hp : p ≠ []) : isAbs (join [p, q]) = isAbs p := by
  rw [join_pair hp, isAbs_clean, isAbs_append hp]

theorem trail_join_pair (hp : p ≠ []) : trail (join [p, q]) = (q.splitOn slash).foldl (enter (isAbs p)) (trail p) := by
  rw [join_pair hp, trail_clean, trail_append hp]

end Path
