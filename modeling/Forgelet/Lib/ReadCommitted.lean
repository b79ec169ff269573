import Forgelet.Lib.GoMap
import Forgelet.Lib.Interleaving

/-!
# Row locks and READ COMMITTED

One table of a database at the isolation level READ COMMITTED. A statement sees the rows committed when it starts and
the transaction's own writes. `UPDATE` and `SELECT .. FOR UPDATE` wait until no other transaction holds the lock of the
row, and hold it to the end.

`Move` says what a statement can do to a table. Where every write of a transaction is related to the row it writes over
by a preorder, the commits of all transactions move every row along it: the lock of a row keeps its committed version
as the writer found it.
-/

namespace ReadCommitted

variable {K V : Type} [DecidableEq K]

/-- The committed rows, and the keys of those that are locked. -/
structure Table (K V : Type) where
  rows : GoMap K V
  locked : List K

/-- What a transaction has of a table: its writes, and the rows it has locked. -/
structure Access (K V : Type) where
  writes : GoMap K V
  held : List K

namespace Table

/-- What a statement sees: the committed rows under the transaction's own. -/
def visible (t : Table K V) (a : Access K V) : GoMap K V := a.writes ∪ t.rows

/-- The row can be locked without waiting. -/
def Free (t : Table K V) (a : Access K V) (k : K) : Prop := k ∈ a.held ∨ k ∉ t.locked

instance (t : Table K V) (a : Access K V) (k : K) : Decidable (t.Free a k) :=
  inferInstanceAs (Decidable (_ ∨ _))

/-- The row is locked. -/
def lock (t : Table K V) (a : Access K V) (k : K) : Table K V :=
  if k ∈ a.held then t else { t with locked := k :: t.locked }

/-- The locks are given up. -/
def release (t : Table K V) (a : Access K V) : Table K V :=
  { t with locked := t.locked.filter fun k => k ∉ a.held }

/-- The writes are made visible and the locks given up. -/
def commit (t : Table K V) (a : Access K V) : Table K V :=
  { rows := a.writes ∪ t.rows, locked := t.locked.filter fun k => k ∉ a.held }

end Table

namespace Access

/-- A transaction that has done nothing. -/
def nothing : Access K V := { writes := ∅, held := [] }

/-- The row is locked. -/
def lock (a : Access K V) (k : K) : Access K V := if k ∈ a.held then a else { a with held := k :: a.held }

/-- The row is written. -/
def write (a : Access K V) (k : K) (v : V) : Access K V := { a with writes := a.writes.insert k v }

/-- No row is locked by both. -/
def Apart (a b : Access K V) : Prop := ∀ k ∈ a.held, k ∉ b.held

end Access

omit [DecidableEq K] in
theorem Access.Apart.symm {a b : Access K V} (h : a.Apart b) : b.Apart a :=
  fun k hb ha => h k ha hb

@[simp] theorem Access.mem_held_lock (a : Access K V) (k k' : K) : k' ∈ (a.lock k).held ↔ k' = k ∨ k' ∈ a.held := by
  unfold Access.lock
  split_ifs with h
  · exact ⟨.inr, fun h' => h'.elim (fun heq => heq ▸ h) id⟩
  · exact List.mem_cons

@[simp] theorem Access.lock_writes (a : Access K V) (k : K) : (a.lock k).writes = a.writes := by
  unfold Access.lock
  split_ifs <;> rfl

@[simp] theorem Table.lock_rows (t : Table K V) (a : Access K V) (k : K) : (t.lock a k).rows = t.rows := by
  unfold Table.lock
  split_ifs <;> rfl

theorem Table.mem_locked_lock {t : Table K V} {a : Access K V} (hown : a.held ⊆ t.locked) (k k' : K) :
    k' ∈ (t.lock a k).locked ↔ k' = k ∨ k' ∈ t.locked := by
  unfold Table.lock
  split_ifs with h
  · exact ⟨.inr, fun h' => h'.elim (fun heq => heq ▸ hown h) id⟩
  · exact List.mem_cons

section

variable (t : Table K V) (a : Access K V)
include t a

theorem Table.visible_lookup (k : K) :
    (t.visible a).lookup k = (a.writes.lookup k).or (t.rows.lookup k) :=
  GoMap.lookup_union_or a.writes t.rows k

@[simp] theorem Table.visible_lock (k : K) :
    (t.lock a k).visible (a.lock k) = t.visible a := by
  unfold Table.visible
  rw [Access.lock_writes, Table.lock_rows]

theorem Table.visible_write (k k' : K) (v : V) :
    (t.visible (a.write k v)).lookup k' = if k' = k then some v else (t.visible a).lookup k' := by
  rw [Table.visible_lookup, Access.write, GoMap.lookup_insert_ite, Table.visible_lookup]
  split_ifs
  · exact Option.some_or
  · rfl

/-- The same with the order of the rows. -/
theorem Table.visible_lock_write (k : K) (v : V) :
    (t.lock a k).visible ((a.lock k).write k v) = (t.visible a).insert k v := by
  unfold Table.visible Access.write
  rw [Access.lock_writes, Table.lock_rows, AList.insert_union]

end

theorem Table.locked_lock_subset {t : Table K V} {a : Access K V} (h : t.locked ⊆ a.held) (k : K) :
    (t.lock a k).locked ⊆ (a.lock k).held := by
  unfold Table.lock Access.lock
  split_ifs
  · exact h
  · exact List.cons_subset_cons k h

theorem Table.filter_locked_eq_nil {t : Table K V} {a : Access K V} (h : t.locked ⊆ a.held) :
    (t.locked.filter fun k => k ∉ a.held) = [] := by
  rw [List.filter_eq_nil_iff]
  intro k hk
  simpa using h hk

theorem Table.commit_lookup (t : Table K V) (a : Access K V) (k : K) :
    (t.commit a).rows.lookup k = (a.writes.lookup k).or (t.rows.lookup k) :=
  GoMap.lookup_union_or a.writes t.rows k

/-! ## What a statement does -/

section

variable (Keeps : V → V → Prop)

/-- The effect of a statement on a table: nothing, a lock, an update along `Keeps`, the end. -/
inductive Move (t : Table K V) (a : Access K V) : Table K V → Access K V → Prop
  | stay : Move t a t a
  | lock {k : K} (free : t.Free a k) : Move t a (t.lock a k) (a.lock k)
  | update {k : K} {row v : V} (free : t.Free a k) (sees : (t.visible a).lookup k = some row)
      (keeps : Keeps row v) : Move t a (t.lock a k) ((a.lock k).write k v)
  | commit : Move t a (t.commit a) .nothing
  | release : Move t a (t.release a) .nothing

/-- A transaction holds the locks of its writes, which are related to the committed rows. -/
structure Sound (t : Table K V) (a : Access K V) : Prop where
  locked : a.held ⊆ t.locked
  held : ∀ k v, a.writes.lookup k = some v → k ∈ a.held
  keeps : ∀ k v, a.writes.lookup k = some v → ∃ row, t.rows.lookup k = some row ∧ Keeps row v

/-- All rows of `t` are in `t'`, moved along `Keeps`, and there are no others. -/
def RowsKept (t t' : Table K V) : Prop :=
  ∀ k, (t.rows.lookup k = none ∧ t'.rows.lookup k = none) ∨
    ∃ row row', t.rows.lookup k = some row ∧ t'.rows.lookup k = some row' ∧ Keeps row row'

variable {Keeps} {t t' : Table K V} {a a' b : Access K V}

theorem sound_nothing : Sound Keeps t .nothing where
  locked := List.nil_subset _
  held k v h := by simp [Access.nothing] at h
  keeps k v h := by simp [Access.nothing] at h

theorem Sound.visible (h : Sound Keeps t a) (hrefl : ∀ v, Keeps v v) {k : K} {v : V}
    (hv : (t.visible a).lookup k = some v) : ∃ row, t.rows.lookup k = some row ∧ Keeps row v := by
  rw [Table.visible_lookup] at hv
  rcases Option.or_eq_some_iff.mp hv with hw | ⟨-, hrow⟩
  · exact h.keeps k v hw
  · exact ⟨v, hrow, hrefl v⟩

theorem Sound.lock (h : Sound Keeps t a) (k : K) : Sound Keeps (t.lock a k) (a.lock k) where
  locked k' hk' := by
    rw [Table.mem_locked_lock h.locked]
    exact ((a.mem_held_lock k k').mp hk').imp id fun hold => h.locked hold
  held k' v hv := by
    rw [Access.lock_writes] at hv
    exact (a.mem_held_lock k k').mpr (.inr (h.held k' v hv))
  keeps k' v hv := by
    rw [Access.lock_writes] at hv
    rw [Table.lock_rows]
    exact h.keeps k' v hv

theorem Move.sound (hm : Move Keeps t a t' a') (h : Sound Keeps t a) (hrefl : ∀ v, Keeps v v)
    (htrans : ∀ {u v w}, Keeps u v → Keeps v w → Keeps u w) : Sound Keeps t' a' := by
  cases hm with
  | stay => exact h
  | lock free => exact h.lock _
  | @update k row v free sees keeps =>
    obtain ⟨c, hc, hcrow⟩ := h.visible hrefl sees
    have hlock := h.lock k
    refine ⟨hlock.locked, fun k' v' hv' => ?_, fun k' v' hv' => ?_⟩
    · rcases GoMap.lookup_insert_cases hv' with ⟨rfl, -⟩ | hold
      · exact (a.mem_held_lock k' k').mpr (.inl rfl)
      · exact hlock.held k' v' hold
    · rcases GoMap.lookup_insert_cases hv' with ⟨rfl, rfl⟩ | hold
      · exact ⟨c, by rw [Table.lock_rows]; exact hc, htrans hcrow keeps⟩
      · exact hlock.keeps k' v' hold
  | commit | release => exact sound_nothing

theorem Move.lookup_of_held (hm : Move Keeps t a t' a') (ha : Sound Keeps t a) (hapart : a.Apart b)
    {k : K} (hk : k ∈ b.held) : t'.rows.lookup k = t.rows.lookup k := by
  cases hm with
  | stay => rfl
  | lock | update => rw [Table.lock_rows]
  | commit =>
    rw [Table.commit_lookup]
    cases hw : a.writes.lookup k with
    | none => rw [Option.none_or]
    | some v => exact absurd hk (hapart k (ha.held k v hw))
  | release => rfl

/-- Such a row looks to the transaction as before. -/
theorem Move.visible_of_held (hm : Move Keeps t a t' a') (ha : Sound Keeps t a) (hapart : a.Apart b)
    {k : K} (hk : k ∈ b.held) : (t'.visible b).lookup k = (t.visible b).lookup k := by
  rw [Table.visible_lookup, Table.visible_lookup, hm.lookup_of_held ha hapart hk]

theorem mem_locked_of_held (ha : a.held ⊆ t.locked) {k : K} (hk : k ∈ a.held) (hapart : b.Apart a) :
    k ∈ t.locked.filter fun k => k ∉ b.held := by
  rw [List.mem_filter]
  exact ⟨ha hk, by simpa using fun hb => hapart k hb hk⟩

theorem Move.sound_other (hm : Move Keeps t a t' a') (ha : Sound Keeps t a) (hb : Sound Keeps t b)
    (hapart : a.Apart b) : Sound Keeps t' b := by
  refine ⟨fun k hk => ?_, hb.held, fun k v hv => ?_⟩
  · cases hm with
    | stay => exact hb.locked hk
    | lock | update => exact (Table.mem_locked_lock ha.locked _ _).mpr (.inr (hb.locked hk))
    | commit | release => exact mem_locked_of_held hb.locked hk hapart
  · rw [hm.lookup_of_held ha hapart (hb.held k v hv)]
    exact hb.keeps k v hv

/-- The locks stay apart: a transaction gets only locks that are free. -/
theorem Move.apart (hm : Move Keeps t a t' a') (hb : Sound Keeps t b) (hapart : a.Apart b) :
    a'.Apart b := by
  have hlock : ∀ {k}, t.Free a k → (a.lock k).Apart b := by
    intro k free k' hk'
    rcases (a.mem_held_lock k k').mp hk' with rfl | hold
    · rcases free with hheld | hnot
      · exact hapart k' hheld
      · exact fun hk => hnot (hb.locked hk)
    · exact hapart k' hold
  cases hm with
  | stay => exact hapart
  | lock free => exact hlock free
  | update free sees keeps => exact hlock free
  | commit | release => exact fun k hk => absurd hk List.not_mem_nil

/-- Both are absent, or both are there and related: what is kept under one key. -/
def Both (Keeps : V → V → Prop) (x y : Option V) : Prop :=
  (x = none ∧ y = none) ∨ ∃ v w, x = some v ∧ y = some w ∧ Keeps v w

namespace Both

variable {x y z : Option V} {v : V}

theorem refl (hrefl : ∀ v, Keeps v v) (x : Option V) : Both Keeps x x := by
  cases x with
  | none => exact .inl ⟨rfl, rfl⟩
  | some v => exact .inr ⟨v, v, rfl, rfl, hrefl v⟩

theorem after (h : Both Keeps x y) (hx : x = some v) : ∃ w, y = some w ∧ Keeps v w := by
  rcases h with ⟨rfl, -⟩ | ⟨_, w, rfl, hy, hkeeps⟩
  · cases hx
  · cases hx
    exact ⟨w, hy, hkeeps⟩

theorem before (h : Both Keeps x y) (hy : y = some v) : ∃ u, x = some u ∧ Keeps u v := by
  rcases h with ⟨-, rfl⟩ | ⟨u, _, hx, rfl, hkeeps⟩
  · cases hy
  · cases hy
    exact ⟨u, hx, hkeeps⟩

theorem trans (htrans : ∀ {u v w}, Keeps u v → Keeps v w → Keeps u w) (h : Both Keeps x y) (h' : Both Keeps y z) :
    Both Keeps x z := by
  rcases h with ⟨hx, rfl⟩ | ⟨u, v, hx, hy, hkeeps⟩
  · rcases h' with ⟨-, hz⟩ | ⟨_, _, hsome, -⟩
    · exact .inl ⟨hx, hz⟩
    · cases hsome
  · obtain ⟨w, hz, hkeeps'⟩ := h'.after hy
    exact .inr ⟨u, w, hx, hz, htrans hkeeps hkeeps'⟩

end Both

theorem RowsKept.refl (hrefl : ∀ v, Keeps v v) (t : Table K V) : RowsKept Keeps t t := fun _ => Both.refl hrefl _

theorem RowsKept.trans {t'' : Table K V} (htrans : ∀ {u v w}, Keeps u v → Keeps v w → Keeps u w)
    (h : RowsKept Keeps t t') (h' : RowsKept Keeps t' t'') : RowsKept Keeps t t'' :=
  fun k => Both.trans htrans (h k) (h' k)

/-- Only a commit changes rows, along what relates the writes to them. -/
theorem Move.rowsKept (hm : Move Keeps t a t' a') (ha : Sound Keeps t a) (hrefl : ∀ v, Keeps v v) :
    RowsKept Keeps t t' := by
  have hsame : ∀ {u : Table K V}, u.rows = t.rows → RowsKept Keeps t u := by
    intro u hu k
    rw [hu]
    exact RowsKept.refl hrefl t k
  cases hm with
  | stay => exact hsame rfl
  | lock | update => exact hsame (t.lock_rows a _)
  | commit =>
    intro k
    rw [Table.commit_lookup]
    cases hw : a.writes.lookup k with
    | none =>
      rw [Option.none_or]
      exact RowsKept.refl hrefl t k
    | some v =>
      obtain ⟨row, hrow, hkeeps⟩ := ha.keeps k v hw
      exact .inr ⟨row, v, hrow, Option.some_or, hkeeps⟩
  | release => exact hsame rfl

end

/-! ## Who has locked a row -/

section

variable {t t' : Table K V} {a a' : Access K V} {as : List (Access K V)} {i : Nat} {k : K}

/-- Every row that is locked was locked by one of the transactions. -/
def Accounted (t : Table K V) (as : List (Access K V)) : Prop := ∀ k ∈ t.locked, ∃ a ∈ as, k ∈ a.held

/-- The statement takes and gives back locks of its own transaction only. -/
def Hands (t : Table K V) (a : Access K V) (t' : Table K V) (a' : Access K V) : Prop :=
  ∀ k ∈ t'.locked, k ∈ a'.held ∨ k ∈ t.locked ∧ k ∉ a.held

omit [DecidableEq K] in
theorem Hands.stay : Hands t a t a := fun k hk =>
  (em (k ∈ a.held)).imp id fun hnot => ⟨hk, hnot⟩

theorem Hands.lock : Hands t a (t.lock a k) (a.lock k) := by
  unfold Table.lock Access.lock
  split_ifs with hheld
  · exact .stay
  · intro k' hk'
    rcases List.mem_cons.mp hk' with rfl | hold
    · exact .inl (.head _)
    · exact (Hands.stay k' hold).imp (List.mem_cons_of_mem k) id

theorem Hands.ended {rows : GoMap K V} :
    Hands t a { rows := rows, locked := t.locked.filter fun k => k ∉ a.held } a' := by
  intro k hk
  rw [List.mem_filter] at hk
  exact .inr ⟨hk.1, of_decide_eq_true hk.2⟩

omit [DecidableEq K] in
theorem accounted_of_unlocked (h : t.locked = []) : Accounted t as := by
  rw [Accounted, h]
  exact nofun

variable {P : Type} {f : P → Access K V} {procs : List P} {p p' : P}

omit [DecidableEq K] in
theorem accounted_map : Accounted t (procs.map f) ↔ ∀ k ∈ t.locked, ∃ p ∈ procs, k ∈ (f p).held := by
  simp [Accounted]

omit [DecidableEq K] in
theorem Accounted.append (h : Accounted t (procs.map f)) (p : P) : Accounted t ((procs ++ [p]).map f) := by
  intro k hk
  obtain ⟨a, ha, hheld⟩ := h k hk
  exact ⟨a, List.map_append ▸ List.mem_append_left _ ha, hheld⟩

omit [DecidableEq K] in
theorem Accounted.step (h : Accounted t (procs.map f)) (hi : procs[i]? = some p) (hands : Hands t (f p) t' (f p')) :
    Accounted t' ((procs.set i p').map f) := by
  rw [accounted_map] at h ⊢
  obtain ⟨hlt, -⟩ := List.getElem?_eq_some_iff.mp hi
  intro k hk
  rcases hands k hk with hmine | ⟨hlocked, hnot⟩
  · exact ⟨p', List.mem_set hlt p', hmine⟩
  · exact Interleaving.exists_mem_set hi (h k hlocked) fun hheld => absurd hheld hnot

theorem Accounted.free (h : Accounted t (procs.map f)) (hi : procs[i]? = some p)
    (hother : ∀ j q, j ≠ i → procs[j]? = some q → k ∉ (f q).held) : t.Free (f p) k := by
  by_cases hlocked : k ∈ t.locked
  · obtain ⟨q, hq, hheld⟩ := accounted_map.mp h k hlocked
    obtain ⟨j, hj⟩ := List.mem_iff_getElem?.mp hq
    by_cases hij : j = i
    · subst hij
      obtain rfl := Option.mem_unique hi hj
      exact .inl hheld
    · exact absurd hheld (hother j q hij hj)
  · exact .inr hlocked

end

/-! ## A transaction that has written one row -/

/-- The access of a transaction that has locked and written one row. -/
def Access.only (k : K) (v : V) : Access K V := (Access.nothing.lock k).write k v

@[simp] theorem Access.only_held (k k' : K) (v : V) : k' ∈ (Access.only k v).held ↔ k' = k := by
  show k' ∈ (Access.nothing.lock k : Access K V).held ↔ k' = k
  rw [Access.mem_held_lock]
  exact or_iff_left List.not_mem_nil

theorem Access.only_lookup (k k' : K) (v : V) :
    (Access.only k v).writes.lookup k' = if k' = k then some v else none := by
  show ((Access.nothing.lock k : Access K V).writes.insert k v).lookup k' = _
  rw [Access.lock_writes, GoMap.lookup_insert_ite]
  rfl

@[simp] theorem Table.visible_nothing (t : Table K V) : t.visible .nothing = t.rows := AList.empty_union

@[simp] theorem Table.commit_nothing_rows (t : Table K V) : (t.commit .nothing).rows = t.rows := AList.empty_union

theorem Table.commit_only_lookup (t : Table K V) (k k' : K) (v : V) :
    (t.commit (.only k v)).rows.lookup k' = if k' = k then some v else t.rows.lookup k' := by
  rw [Table.commit_lookup, Access.only_lookup]
  split_ifs
  · exact Option.some_or
  · exact Option.none_or

end ReadCommitted
