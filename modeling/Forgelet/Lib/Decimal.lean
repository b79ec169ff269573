import Forgelet.Lib.Bytes

/-!
# Decimal numbers as texts

`strconv.Itoa` writes digits, and `strconv.Atoi` reads them back.
-/

namespace Bytes

theorem isDigit_of_mem_digitsFrom {fuel n : Nat} {acc : Bytes} (hacc : ∀ b ∈ acc, isDigit b) :
    ∀ b ∈ digitsFrom fuel n acc, isDigit b := by
  induction fuel generalizing n acc with
  | zero => exact hacc
  | succ fuel ih =>
    have hdigit : ∀ d < 10, isDigit (UInt8.ofNat (48 + d)) := by decide
    have hall : ∀ b ∈ UInt8.ofNat (48 + n % 10) :: acc, isDigit b := by
      rw [List.forall_mem_cons]
      exact ⟨hdigit _ (Nat.mod_lt n (by decide)), hacc⟩
    unfold digitsFrom
    split_ifs
    · exact hall
    · exact ih hall

theorem isDigit_of_mem_ofNat {n : Nat} {b : UInt8} (h : b ∈ ofNat n) : isDigit b :=
  isDigit_of_mem_digitsFrom (fun _ hb => (List.not_mem_nil hb).elim) b h

theorem digitsValue_digitsFrom {fuel n : Nat} (h : n < fuel) (acc : Bytes) :
    digitsValue (digitsFrom fuel n acc) = acc.foldl (fun n b => n * 10 + (b.toNat - 48)) n := by
  induction fuel generalizing n acc with
  | zero => omega
  | succ fuel ih =>
    have hdigit : (UInt8.ofNat (48 + n % 10)).toNat = 48 + n % 10 := by
      rw [UInt8.toNat_ofNat']
      omega
    rw [digitsFrom]
    split
    · rw [digitsValue, List.foldl_cons, hdigit]
      congr 1
      omega
    · rw [ih (by omega), List.foldl_cons, hdigit]
      congr 1
      omega

theorem digitsFrom_ne_nil (fuel n : Nat) (acc : Bytes) : digitsFrom (fuel + 1) n acc ≠ [] := by
  induction fuel generalizing n acc with
  | zero =>
    rw [digitsFrom]
    split <;> exact nofun
  | succ fuel ih =>
    rw [digitsFrom]
    split
    · exact nofun
    · exact ih _ _

theorem atoi_ofNat {n : Nat} (h : n ≤ 9223372036854775807) : atoi (ofNat n) = some (n : Int) := by
  obtain ⟨b, rest, hs⟩ : ∃ b rest, ofNat n = b :: rest := List.exists_cons_of_ne_nil (digitsFrom_ne_nil n n [])
  have hb : isDigit b := isDigit_of_mem_ofNat (hs ▸ List.mem_cons_self)
  have hall : (ofNat n).all isDigit := List.all_eq_true.mpr fun _ => isDigit_of_mem_ofNat
  have hvalue : digitsValue (ofNat n) = n := digitsValue_digitsFrom (Nat.lt_succ_self n) []
  have hminus : (b == byte '-') = false := by
    rw [beq_eq_false_iff_ne]
    rintro rfl
    cases hb
  have hplus : (b == byte '+') = false := by
    rw [beq_eq_false_iff_ne]
    rintro rfl
    cases hb
  unfold atoi
  rw [hs] at hall hvalue ⊢
  simp only [hminus, hplus, Bool.false_eq_true, if_false, List.isEmpty_cons, hall, Bool.not_true, Bool.or_false, hvalue]
  rw [if_pos (by omega)]

end Bytes
