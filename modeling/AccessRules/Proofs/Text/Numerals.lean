import AccessRules.Text.Digits

/-!
# Numerals

**Program** — `Text.value?` reads a run of decimal digits as a number.

**Spec** — the numeral of a number, its digits without a zero in front, is read as that number, and
so is every run of digits that ends in the numeral and has zeros before it.  Nothing else is read
(`value?_eq_some_iff`).

**Crux** — once the digits read so far make a positive number, they are its numeral, and each digit
that follows turns it into the next one (`toDigits_append`).
-/

namespace AccessRules.Text

theorem digitsFrom_eq (cs : List Char) (acc : Nat) :
    digitsFrom acc cs = Nat.ofDigitChars 10 cs acc := by
  induction cs generalizing acc with
  | nil => rfl
  | cons c cs ih =>
    rw [Nat.ofDigitChars_cons, ← ih, Nat.mul_comm]
    rfl

theorem isDigit_of_isDigit {c : Char} (h : c.isDigit = true) : isDigit c = true := by
  simp only [Char.isDigit, Bool.and_eq_true, decide_eq_true_eq, UInt32.le_iff_toNat_le] at h
  simp only [isDigit, Bool.and_eq_true, decide_eq_true_eq]
  exact h

theorem all_isDigit_toDigits (n : Nat) : (Nat.toDigits 10 n).all isDigit = true := by
  rw [List.all_eq_true]
  exact fun c hc => isDigit_of_isDigit (Nat.isDigit_of_mem_toDigits (by decide) (by decide) hc)

/-- Numerals are made of digits. -/
theorem not_mem_toDigits {c : Char} (hc : isDigit c = false) (n : Nat) : c ∉ Nat.toDigits 10 n := by
  intro hmem
  have hdigit := List.all_eq_true.mp (all_isDigit_toDigits n) c hmem
  rw [hc] at hdigit
  cases hdigit

/-- The digits of a number begin with a digit. -/
theorem toDigits_head (n : Nat) : ∃ d ds, Nat.toDigits 10 n = d :: ds ∧ isDigit d = true := by
  have hdigits := all_isDigit_toDigits n
  obtain ⟨d, ds, hds⟩ := List.exists_cons_of_ne_nil (Nat.toDigits_ne_nil (b := 10) (n := n))
  rw [hds, List.all_cons, Bool.and_eq_true] at hdigits
  exact ⟨d, ds, hds, hdigits.1⟩

/-- No number but zero is written with a zero in front. -/
theorem head_toDigits {n : Nat} (hn : 0 < n) : (Nat.toDigits 10 n).head? ≠ some '0' := by
  induction n using Nat.strongRecOn with
  | ind n ih =>
    rcases Nat.lt_or_ge n 10 with hlt | hge
    · rw [Nat.toDigits_of_lt_base hlt]
      have hall : ∀ k < 10, 0 < k → [Nat.digitChar k].head? ≠ some '0' := by decide
      exact hall n hlt hn
    · rw [Nat.toDigits_of_base_le (by decide) hge, List.head?_append]
      have hne : (Nat.toDigits 10 (n / 10)).head? ≠ none := by
        simp [Nat.toDigits_ne_nil]
      have hrec := ih (n / 10) (by omega) (by omega)
      cases hh : (Nat.toDigits 10 (n / 10)).head? with
      | none => exact absurd hh hne
      | some c => simpa [hh] using hrec

/-! ## Reading -/

theorem digitValue_lt {c : Char} (h : isDigit c = true) : digitValue c < 10 := by
  simp only [isDigit, Bool.and_eq_true, decide_eq_true_eq] at h
  unfold digitValue
  omega

/-- A digit is the numeral of its value. -/
theorem toDigits_digitValue {c : Char} (h : isDigit c = true) :
    Nat.toDigits 10 (digitValue c) = [c] := by
  have hlt := digitValue_lt h
  rw [Nat.toDigits_of_lt_base hlt]
  congr 1
  apply Char.toNat_inj.mp
  rw [Nat.toNat_digitChar_of_lt_ten hlt]
  simp only [isDigit, Bool.and_eq_true, decide_eq_true_eq] at h
  unfold digitValue
  omega

/-- **Digits behind the numeral of a positive number** make the numeral of the number read from
both. -/
theorem toDigits_append {acc : Nat} (hacc : 0 < acc) {cs : List Char}
    (hcs : cs.all isDigit = true) :
    Nat.toDigits 10 acc ++ cs = Nat.toDigits 10 (digitsFrom acc cs) := by
  induction cs generalizing acc with
  | nil => simp [digitsFrom]
  | cons c cs ih =>
    rw [List.all_cons, Bool.and_eq_true] at hcs
    have hnext : Nat.toDigits 10 acc ++ [c] = Nat.toDigits 10 (acc * 10 + digitValue c) := by
      rw [← toDigits_digitValue hcs.1, Nat.mul_comm acc,
        Nat.toDigits_append_toDigits (by decide) hacc (digitValue_lt hcs.1)]
    calc Nat.toDigits 10 acc ++ c :: cs
        = Nat.toDigits 10 acc ++ [c] ++ cs := by simp
      _ = Nat.toDigits 10 (acc * 10 + digitValue c) ++ cs := by rw [hnext]
      _ = Nat.toDigits 10 (digitsFrom acc (c :: cs)) := ih (by omega) hcs.2

/-- Digits of which the first is no zero are the numeral of the number they stand for. -/
theorem toDigits_digitsFrom {c : Char} {cs : List Char} (hc : c ≠ '0')
    (hdigits : (c :: cs).all isDigit = true) :
    Nat.toDigits 10 (digitsFrom 0 (c :: cs)) = c :: cs := by
  rw [List.all_cons, Bool.and_eq_true] at hdigits
  have hpos : 0 < digitValue c := by
    refine Nat.pos_of_ne_zero fun hzero => hc ?_
    have hnumeral := toDigits_digitValue hdigits.1
    rw [hzero] at hnumeral
    exact (List.cons.inj hnumeral).1.symm
  calc Nat.toDigits 10 (digitsFrom 0 (c :: cs))
      = Nat.toDigits 10 (digitsFrom (digitValue c) cs) := by simp [digitsFrom]
    _ = Nat.toDigits 10 (digitValue c) ++ cs := (toDigits_append hpos hdigits.2).symm
    _ = c :: cs := by rw [toDigits_digitValue hdigits.1, List.singleton_append]

/-- Zeros in front do not count. -/
theorem digitsFrom_replicate_zero (k : Nat) (cs : List Char) :
    digitsFrom 0 (List.replicate k '0' ++ cs) = digitsFrom 0 cs := by
  induction k with
  | zero => rfl
  | succ k ih =>
    rw [List.replicate_succ, List.cons_append, ← ih]
    rfl

theorem value?_eq_some {cs : List Char} {n : Nat} :
    value? cs = some n ↔ cs ≠ [] ∧ cs.all isDigit = true ∧ digitsFrom 0 cs = n := by
  cases cs with
  | nil => simp [value?]
  | cons c cs => simp [value?, and_assoc]

/-- **What is read as a number**: its numeral, with any number of zeros before it. -/
theorem value?_eq_some_iff {cs : List Char} {n : Nat} :
    value? cs = some n ↔ ∃ k, cs = List.replicate k '0' ++ Nat.toDigits 10 n := by
  rw [value?_eq_some]
  constructor
  · rintro ⟨hne, hdigits, rfl⟩
    induction cs with
    | nil => exact absurd rfl hne
    | cons c cs ih =>
      by_cases hc : c = '0'
      · subst hc
        by_cases hcs : cs = []
        · exact ⟨0, by rw [hcs]; rfl⟩
        · obtain ⟨k, hk⟩ := ih hcs (by simpa [isDigit] using hdigits)
          have hvalue : digitsFrom 0 ('0' :: cs) = digitsFrom 0 cs := rfl
          exact ⟨k + 1, by rw [hvalue, List.replicate_succ, List.cons_append, ← hk]⟩
      · exact ⟨0, (toDigits_digitsFrom hc hdigits).symm⟩
  · rintro ⟨k, rfl⟩
    refine ⟨?_, ?_, ?_⟩
    · simp [Nat.toDigits_ne_nil]
    · rw [List.all_append, all_isDigit_toDigits, Bool.and_true, List.all_replicate]
      simp [isDigit]
    · rw [digitsFrom_replicate_zero, digitsFrom_eq, Nat.ofDigitChars_ten_toDigits]

end AccessRules.Text
