
/-!
# Maps in the order of assignment

A map whose entries stay in the order in which their keys were first assigned: assigning to a key that is present
replaces its value in place.
-/

namespace Entries

variable {K V : Type} [DecidableEq K]

/-- `m[k] = v`. -/
def assign (k : K) (v : V) : List (K × V) → List (K × V)
  | [] => [(k, v)]
  | e :: rest => if e.1 = k then (k, v) :: rest else e :: assign k v rest

/-- `m[k]`. -/
def find? (k : K) : List (K × V) → Option V
  | [] => none
  | e :: rest => if e.1 = k then some e.2 else find? k rest

theorem assign_eq_self {k : K} {v : V} {m : List (K × V)} (h : find? k m = some v) : assign k v m = m := by
  induction m with
  | nil => cases h
  | cons e rest ih =>
    rw [find?] at h
    rw [assign]
    by_cases hk : e.1 = k
    · rw [if_pos hk, Option.some_inj] at h
      rw [if_pos hk, ← hk, ← h]
    · rw [if_neg hk] at h
      rw [if_neg hk, ih h]

theorem find?_assign (k k' : K) (v : V) (m : List (K × V)) :
    find? k' (assign k v m) = if k' = k then some v else find? k' m := by
  induction m with
  | nil => simp [assign, find?, eq_comm]
  | cons e rest ih =>
    rw [assign]
    by_cases hk : e.1 = k
    · rw [if_pos hk, find?, find?]
      by_cases hk' : k' = k
      · simp [hk']
      · rw [if_neg (Ne.symm hk'), if_neg hk', if_neg (fun h => hk' (h.symm.trans hk))]
    · rw [if_neg hk, find?, find?, ih]
      by_cases he : e.1 = k'
      · rw [if_pos he, if_pos he, if_neg (fun h => hk (he.trans h))]
      · rw [if_neg he, if_neg he]

end Entries
