import Forgelet.Executor.Mask

/-!
# Proofs: the log handler

Of the strings that the innermost handler receives, only the message and the attributes of the record that are strings
themselves are masked: not those the handler was derived with, and none inside groups.
-/

namespace Forgelet.Executor

open Bytes (ofString)

mutual

/-- The strings inside a value. -/
def LogValue.strings : LogValue → List Bytes
  | .string s => [s]
  | .group attrs => attrStrings attrs
  | .other _ => []

/-- The strings inside attributes. -/
def attrStrings : List LogAttr → List Bytes
  | [] => []
  | (_, v) :: rest => v.strings ++ attrStrings rest

end

/-- The strings that a binding holds. -/
def Binding.strings : Binding → List Bytes
  | .attrs bound => attrStrings bound
  | .group _ => []

/-- The strings that the innermost handler has, in order. -/
def Received.strings (r : Received) : List Bytes :=
  r.bound.flatMap Binding.strings ++ r.record.message :: attrStrings r.record.attrs

/-- The strings inside of groups. -/
def groupStrings : List LogAttr → List Bytes
  | [] => []
  | (_, .group attrs) :: rest => attrStrings attrs ++ groupStrings rest
  | _ :: rest => groupStrings rest

namespace Handler

variable {m : Masker}

theorem inner_derive (chain : List Binding) (h : Handler) : (chain.foldl derive h).inner = h.inner ++ chain := by
  induction chain generalizing h with
  | nil => exact (List.append_nil _).symm
  | cons b chain ih =>
    rw [List.foldl_cons, ih]
    cases b <;> exact List.append_assoc ..

theorem attrStrings_filter (attrs : List LogAttr) :
    attrStrings (attrs.filter fun a => !isEmptyGroup a) = attrStrings attrs := by
  induction attrs with
  | nil => rfl
  | cons a rest ih =>
    by_cases hempty : isEmptyGroup a
    · rw [List.filter_cons_of_neg (by rw [hempty]; decide), ih]
      obtain ⟨key, v⟩ := a
      cases v with
      | string | other => cases hempty
      | group attrs =>
        cases attrs with
        | nil => rfl
        | cons b attrs => cases hempty
    · rw [List.filter_cons_of_pos (by rw [Bool.eq_false_iff.mpr hempty]; rfl)]
      exact congrArg (a.2.strings ++ ·) ih

theorem map_eq_self_iff {f : Bytes → Bytes} {l : List Bytes} : l = l.map f ↔ ∀ s ∈ l, f s = s := by
  induction l with
  | nil => exact iff_of_true rfl fun s hs => by cases hs
  | cons x l ih => rw [List.map_cons, List.cons_eq_cons, ih, List.forall_mem_cons, eq_comm]

theorem attrStrings_maskAttr_iff (attrs : List LogAttr) :
    attrStrings (attrs.map (maskAttr m)) = (attrStrings attrs).map m.apply ↔
      ∀ s ∈ groupStrings attrs, m.apply s = s := by
  induction attrs with
  | nil => exact iff_of_true rfl fun s hs => by cases hs
  | cons a rest ih =>
    obtain ⟨key, v⟩ := a
    cases v with
    | string s =>
      show m.apply s :: attrStrings (rest.map (maskAttr m)) = m.apply s :: (attrStrings rest).map m.apply ↔ _
      rw [List.cons_eq_cons, ih]
      exact and_iff_right rfl
    | other n => exact ih
    | group attrs =>
      show attrStrings attrs ++ attrStrings (rest.map (maskAttr m)) =
          (attrStrings attrs ++ attrStrings rest).map m.apply ↔
        ∀ s ∈ attrStrings attrs ++ groupStrings rest, m.apply s = s
      rw [List.map_append, List.forall_mem_append, ← ih, ← map_eq_self_iff]
      constructor
      · intro h
        exact List.append_inj h (List.length_map _).symm
      · intro h
        rw [← h.1, h.2]

/-- The innermost handler receives all strings masked exactly if masking would change none of those that were bound
with `WithAttrs` or stand inside a group. -/
theorem handle_masks_iff (chain : List Binding) (m : Masker) (r : LogRecord) :
    ((chain.foldl derive new).handle m r).strings = (Received.mk chain r).strings.map m.apply ↔
      (∀ s ∈ chain.flatMap Binding.strings, m.apply s = s) ∧ ∀ s ∈ groupStrings r.attrs, m.apply s = s := by
  unfold Received.strings handle
  rw [inner_derive, attrStrings_filter, List.map_append, List.map_cons, ← attrStrings_maskAttr_iff, ← map_eq_self_iff]
  constructor
  · intro h
    obtain ⟨hbound, hrecord⟩ := List.append_inj h (List.length_map _).symm
    exact ⟨hbound, (List.cons.inj hrecord).2⟩
  · rintro ⟨hbound, hrecord⟩
    rw [hrecord, ← hbound]
    rfl

/-- A logger derived with a secret passes it on, and so does one given a secret inside a group. -/
theorem handle_leaks : (((new.withAttrs [(ofString "token", .string (ofString "hunter2"))]).handle
        (Masker.new.add (ofString "hunter2")) ⟨ofString "a hunter2", []⟩).strings =
      [ofString "hunter2", ofString "a ***"]) ∧ (new.handle (Masker.new.add (ofString "hunter2"))
        ⟨[], [(ofString "request", .group [(ofString "token", .string (ofString "hunter2"))])]⟩).strings =
      [[], ofString "hunter2"] := by
  decide

end Handler

end Forgelet.Executor
