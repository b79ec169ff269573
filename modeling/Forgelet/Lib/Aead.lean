import Mathlib.Data.List.Basic

/-!
# Authenticated ciphers

A cipher that authenticates associated data. The ideal one opens what it has sealed under the same key, nonce and data,
and nothing else.
-/

/-- Authenticated encryption of texts `T` with the associated data `A`. -/
structure Aead (K N T A C : Type*) where
  encrypt : K → N → T → A → C
  decrypt : K → N → C → A → Option T

namespace Aead

variable {K N T A C : Type*}

/-- Decryption inverts encryption under the same key, nonce and data, or fails. -/
structure Ideal (a : Aead K N T A C) : Prop where
  same : ∀ k n t d, a.decrypt k n (a.encrypt k n t d) d = some t
  other : ∀ k n t d k' n' d', (k', n', d') ≠ (k, n, d) → a.decrypt k' n' (a.encrypt k n t d) d' = none

theorem Ideal.decrypt_iff {a : Aead K N T A C} (h : a.Ideal) {k k' : K} {n n' : N} {t t' : T} {d d' : A} :
    a.decrypt k' n' (a.encrypt k n t d) d' = some t' ↔ k' = k ∧ n' = n ∧ d' = d ∧ t' = t := by
  constructor
  · intro hopen
    by_cases hsame : (k', n', d') = (k, n, d)
    · obtain ⟨rfl, hrest⟩ := Prod.mk.inj hsame
      cases hrest
      rw [h.same] at hopen
      exact ⟨rfl, rfl, rfl, (Option.some.inj hopen).symm⟩
    · rw [h.other k n t d k' n' d' hsame] at hopen
      cases hopen
  · rintro ⟨rfl, rfl, rfl, rfl⟩
    exact h.same ..

/-! ## An ideal cipher of byte strings -/

/-- The text with a mark before every byte. -/
def enclose : List UInt8 → List UInt8
  | [] => [0]
  | b :: rest => 1 :: b :: enclose rest

theorem enclose_inj {s s' rest rest' : List UInt8} (h : enclose s ++ rest = enclose s' ++ rest') :
    s = s' ∧ rest = rest' := by
  induction s generalizing s' with
  | nil =>
    cases s' with
    | nil => exact ⟨rfl, (List.cons.inj h).2⟩
    | cons b s' => exact absurd (List.cons.inj h).1 (by decide)
  | cons b s ih =>
    cases s' with
    | nil => exact absurd (List.cons.inj h).1 (by decide)
    | cons b' s' =>
      obtain ⟨rfl, htail⟩ := List.cons.inj (List.cons.inj h).2
      obtain ⟨rfl, hrest⟩ := ih htail
      exact ⟨rfl, hrest⟩

/-- What a ciphertext of `labelled` starts with. -/
def label (k n d : List UInt8) : List UInt8 := enclose k ++ (enclose n ++ enclose d)

theorem label_inj {k k' n n' d d' rest rest' : List UInt8} (h : label k n d ++ rest = label k' n' d' ++ rest') :
    (k, n, d) = (k', n', d') ∧ rest = rest' := by
  simp only [label, List.append_assoc] at h
  obtain ⟨rfl, hn⟩ := enclose_inj h
  obtain ⟨rfl, hd⟩ := enclose_inj hn
  obtain ⟨rfl, hrest⟩ := enclose_inj hd
  exact ⟨rfl, hrest⟩

/-- The cipher that writes key, nonce and data before the text; it opens what an ideal one opens. -/
def labelled : Aead (List UInt8) (List UInt8) (List UInt8) (List UInt8) (List UInt8) where
  encrypt k n t d := label k n d ++ t
  decrypt k n c d := if (label k n d).isPrefixOf c then some (c.drop (label k n d).length) else none

theorem labelled_ideal : labelled.Ideal where
  same k n t d := by
    have hstarts : (label k n d).isPrefixOf (label k n d ++ t) :=
      List.isPrefixOf_iff_prefix.mpr (List.prefix_append ..)
    dsimp only [labelled]
    rw [if_pos hstarts, List.drop_left]
  other k n t d k' n' d' hne := by
    refine if_neg ?_
    rw [List.isPrefixOf_iff_prefix]
    rintro ⟨rest, hrest⟩
    exact hne (label_inj hrest).1

theorem labelled_ne_nil (k n t d : List UInt8) : labelled.encrypt k n t d ≠ [] := by
  cases k with
  | nil | cons => exact nofun

end Aead
