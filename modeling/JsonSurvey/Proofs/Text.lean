import JsonSurvey.Text.Newline
import Mathlib.Algebra.Group.Nat.Defs

/-! Runs of digits. A run that nothing extends is split off as it is (`splitDigits_append`), and the
numeral of a number stands for that number again (`toNat_ofNat`). A text without carriage returns
has its line ends in one form already (`unifyLines_of_notMem`). -/

namespace JsonSurvey.Text

/-- A text of digits only. -/
def IsDigits (t : Text) : Prop := ∀ c ∈ t, c.isDigit = true

theorem isDigits_splitDigits (t : Text) : IsDigits (splitDigits t).1 :=
  List.all_eq_true.mp List.all_takeWhile

theorem append_splitDigits (t : Text) : (splitDigits t).1 ++ (splitDigits t).2 = t :=
  List.takeWhile_append_dropWhile

/-- Digits are split off up to whatever is not a digit. -/
theorem splitDigits_append {digits rest : Text} (h : IsDigits digits)
    (hrest : ∀ c ∈ rest.head?, c.isDigit = false) :
    splitDigits (digits ++ rest) = (digits, rest) := by
  have hnone : rest.takeWhile CodePoint.isDigit = [] ∧ rest.dropWhile CodePoint.isDigit = rest := by
    cases rest with
    | nil => exact ⟨rfl, rfl⟩
    | cons c rest => simp [hrest c rfl]
  rw [splitDigits, List.takeWhile_append_of_pos h, List.dropWhile_append_of_pos h, hnone.1,
    hnone.2, List.append_nil]

/-! ### Numerals -/

theorem isDigits_append {s t : Text} : IsDigits (s ++ t) ↔ IsDigits s ∧ IsDigits t :=
  List.forall_mem_append

theorem isDigits_replicate_zero (n : Nat) : IsDigits (List.replicate n 0x30) := by
  intro c hc
  rw [List.eq_of_mem_replicate hc]
  rfl

theorem isDigits_singleton_digit (n : Nat) : IsDigits [CodePoint.digit n] := by
  intro c hc
  rw [List.mem_singleton.mp hc]
  have hval : (CodePoint.digit n).val = 0x30 + n % 10 := rfl
  rw [CodePoint.isDigit, Bool.and_eq_true]
  exact ⟨decide_eq_true (by omega), decide_eq_true (by omega)⟩

theorem isDigits_ofNat (n : Nat) : IsDigits (ofNat n) := by
  fun_induction ofNat n with
  | case1 n _ => exact isDigits_singleton_digit n
  | case2 n _ ih => exact isDigits_append.mpr ⟨ih, isDigits_singleton_digit n⟩

theorem ofNat_ne_nil (n : Nat) : ofNat n ≠ [] := by
  fun_cases ofNat n with
  | case1 => exact List.cons_ne_nil _ _
  | case2 => exact List.append_ne_nil_of_right_ne_nil _ (List.cons_ne_nil _ _)

theorem head?_ofNat {n : Nat} (h : 0 < n) : (ofNat n).head? ≠ some 0x30 := by
  fun_induction ofNat n with
  | case1 n hn =>
    intro hzero
    have := congrArg Fin.val (Option.some.inj hzero)
    change 0x30 + n % 10 = 0x30 at this
    omega
  | case2 n hn ih =>
    obtain ⟨c, t, hct⟩ := List.exists_cons_of_ne_nil (ofNat_ne_nil (n / 10))
    rw [hct, List.cons_append, List.head?_cons]
    rw [hct, List.head?_cons] at ih
    exact ih (by omega)

/-! ### The number of a run of digits -/

theorem foldl_digits (t : Text) (n : Nat) :
    t.foldl (fun n c => 10 * n + c.digitValue) n = n * 10 ^ t.length + toNat t := by
  induction t generalizing n with
  | nil => simp [toNat]
  | cons c t ih =>
    have hcons : toNat (c :: t) = (10 * 0 + c.digitValue) * 10 ^ t.length + toNat t := ih _
    rw [List.foldl_cons, ih, hcons, List.length_cons, Nat.pow_succ']
    simp only [Nat.add_mul, Nat.mul_zero, Nat.zero_add, Nat.add_assoc, Nat.mul_assoc,
      Nat.mul_left_comm]

theorem toNat_append (s t : Text) : toNat (s ++ t) = toNat s * 10 ^ t.length + toNat t := by
  rw [toNat, List.foldl_append, foldl_digits]
  rfl

theorem toNat_replicate_zero (n : Nat) : toNat (List.replicate n 0x30) = 0 := by
  induction n with
  | zero => rfl
  | succ n ih =>
    rw [List.replicate_succ', toNat_append, ih]
    rfl

theorem toNat_singleton_digit (n : Nat) : toNat [CodePoint.digit n] = n % 10 := by
  change 10 * 0 + (0x30 + n % 10 - 0x30) = n % 10
  omega

/-- A numeral stands for the number it was written for. -/
theorem toNat_ofNat (n : Nat) : toNat (ofNat n) = n := by
  fun_induction ofNat n with
  | case1 n hn =>
    rw [toNat_singleton_digit, Nat.mod_eq_of_lt hn]
  | case2 n _ ih =>
    rw [toNat_append, ih, toNat_singleton_digit, List.length_singleton]
    omega

theorem toNat_zeros_append (n : Nat) (t : Text) :
    toNat (List.replicate n 0x30 ++ t) = toNat t := by
  rw [toNat_append, toNat_replicate_zero, Nat.zero_mul, Nat.zero_add]

theorem toNat_append_zeros (t : Text) (n : Nat) :
    toNat (t ++ List.replicate n 0x30) = toNat t * 10 ^ n := by
  rw [toNat_append, toNat_replicate_zero, List.length_replicate, Nat.add_zero]

theorem isDigits_padNat (width n : Nat) : IsDigits (padNat width n) :=
  isDigits_append.mpr ⟨isDigits_replicate_zero _, isDigits_ofNat n⟩

theorem padNat_ne_nil (width n : Nat) : padNat width n ≠ [] :=
  List.append_ne_nil_of_right_ne_nil _ (ofNat_ne_nil n)

theorem toNat_padNat (width n : Nat) : toNat (padNat width n) = n := by
  rw [padNat, toNat_zeros_append, toNat_ofNat]

theorem toNat_lt_of_isDigits {t : Text} (h : IsDigits t) : toNat t < 10 ^ t.length := by
  induction t with
  | nil => exact Nat.one_pos
  | cons c t ih =>
    obtain ⟨hc, ht⟩ := List.forall_mem_cons.mp h
    have hdigit : c.digitValue ≤ 9 := by
      simp only [CodePoint.isDigit, Bool.and_eq_true, decide_eq_true_eq] at hc
      simp only [CodePoint.digitValue]
      omega
    have hcons : toNat (c :: t) = c.digitValue * 10 ^ t.length + toNat t := by
      simpa [toNat] using foldl_digits t c.digitValue
    calc toNat (c :: t) = c.digitValue * 10 ^ t.length + toNat t := hcons
      _ < c.digitValue * 10 ^ t.length + 10 ^ t.length := Nat.add_lt_add_left (ih ht) _
      _ = (c.digitValue + 1) * 10 ^ t.length := (Nat.succ_mul _ _).symm
      _ ≤ 10 * 10 ^ t.length := Nat.mul_le_mul_right _ (Nat.succ_le_succ hdigit)
      _ = 10 ^ (c :: t).length := (Nat.pow_succ' ..).symm

theorem length_ofNat_le {n k : Nat} (hn : n < 10 ^ k) (hk : 0 < k) : (ofNat n).length ≤ k := by
  fun_induction ofNat n generalizing k with
  | case1 => exact hk
  | case2 n hle ih =>
    -- a number of two digits or more is below no lower power of ten than the second
    obtain ⟨k, rfl⟩ := Nat.exists_eq_succ_of_ne_zero (Nat.ne_zero_of_lt hk)
    rw [List.length_append, List.length_singleton]
    rcases Nat.eq_zero_or_pos k with rfl | hpos
    · omega
    · exact Nat.succ_le_succ (ih (Nat.div_lt_of_lt_mul (Nat.pow_succ' ▸ hn)) hpos)

/-- The shortest numeral of a number is not longer than the digits that it was read from. -/
theorem length_ofNat_toNat_le {t : Text} (h : IsDigits t) (hne : t ≠ []) :
    (ofNat (toNat t)).length ≤ t.length :=
  length_ofNat_le (toNat_lt_of_isDigits h) (List.length_pos_iff.mpr hne)

/-! ### Line ends -/

theorem unifyLinesOnto_of_notMem {t : Text} (h : 0x0D ∉ t) (done : Text) :
    unifyLinesOnto done false t = done.reverse ++ t := by
  induction t generalizing done with
  | nil => rw [unifyLinesOnto, List.append_nil]
  | cons c t ih =>
    rw [List.mem_cons, not_or] at h
    rw [unifyLinesOnto, if_neg (Ne.symm h.1), Bool.false_and, if_neg Bool.false_ne_true, ih h.2,
      List.reverse_cons, List.append_assoc, List.singleton_append]

theorem unifyLines_of_notMem {t : Text} (h : 0x0D ∉ t) : unifyLines t = t :=
  unifyLinesOnto_of_notMem h []

end JsonSurvey.Text
