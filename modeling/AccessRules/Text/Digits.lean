/-!
# Decimal digits

Numbers written with a fixed or a free number of decimal digits, and digits read back as a number.

`fixed w n` writes the last `w` digits of `n`, leading zeros included; `value?` reads a non-empty
run of ASCII digits.  The two are inverse to each other wherever `n` fits its width
(`value?_fixed`), which is what the printers of dates and times rest on.
-/

namespace AccessRules.Text

/-- An ASCII decimal digit. -/
def isDigit (c : Char) : Bool := 48 ≤ c.toNat && c.toNat ≤ 57

/-- The digit character of `n`, taken modulo ten. -/
def digitChar (n : Nat) : Char := Char.ofNat (48 + n % 10)

/-- What a digit character stands for. -/
def digitValue (c : Char) : Nat := c.toNat - 48

/-- The value of a hexadecimal digit in either case. -/
def hexValue? (c : Char) : Option Nat :=
  let n := c.toNat
  if 48 ≤ n && n ≤ 57 then some (n - 48)
  else if 97 ≤ n && n ≤ 102 then some (n - 87)
  else if 65 ≤ n && n ≤ 70 then some (n - 55)
  else none

/-- The last `w` decimal digits of `n`, most significant first, with leading zeros. -/
def fixed : Nat → Nat → List Char
  | 0, _ => []
  | w + 1, n => fixed w (n / 10) ++ [digitChar n]

/-- The number a run of digits stands for, after the digits already read into `acc`. -/
def digitsFrom (acc : Nat) (cs : List Char) : Nat :=
  cs.foldl (fun acc c => acc * 10 + digitValue c) acc

/-- The number a run of digit characters stands for; `none` when it is empty or holds anything
else. -/
def value? (cs : List Char) : Option Nat :=
  if cs.isEmpty || !cs.all isDigit then none else some (digitsFrom 0 cs)

@[simp] theorem length_fixed (w n : Nat) : (fixed w n).length = w := by
  induction w generalizing n with
  | zero => rfl
  | succ w ih => simp [fixed, ih]

theorem isDigit_digitChar (n : Nat) : isDigit (digitChar n) = true := by
  have h : n % 10 < 10 := Nat.mod_lt _ (by decide)
  unfold digitChar
  generalize n % 10 = k at h
  match k, h with
  | 0, _ | 1, _ | 2, _ | 3, _ | 4, _ | 5, _ | 6, _ | 7, _ | 8, _ | 9, _ => rfl

theorem digitValue_digitChar (n : Nat) : digitValue (digitChar n) = n % 10 := by
  have h : n % 10 < 10 := Nat.mod_lt _ (by decide)
  unfold digitChar
  generalize n % 10 = k at h
  match k, h with
  | 0, _ | 1, _ | 2, _ | 3, _ | 4, _ | 5, _ | 6, _ | 7, _ | 8, _ | 9, _ => rfl

theorem all_isDigit_fixed (w n : Nat) : (fixed w n).all isDigit = true := by
  induction w generalizing n with
  | zero => rfl
  | succ w ih => simp [fixed, ih, isDigit_digitChar]

theorem digitsFrom_append (acc : Nat) (xs ys : List Char) :
    digitsFrom acc (xs ++ ys) = digitsFrom (digitsFrom acc xs) ys :=
  List.foldl_append

/-- Writing and reading back keeps the last `w` digits. -/
theorem digitsFrom_fixed (w n : Nat) : digitsFrom 0 (fixed w n) = n % Nat.pow 10 w := by
  induction w generalizing n with
  | zero => simp [fixed, digitsFrom, Nat.mod_one]
  | succ w ih =>
    rw [fixed, digitsFrom_append, ih]
    simp only [digitsFrom, List.foldl, digitValue_digitChar]
    have hw : Nat.pow 10 (w + 1) = 10 * Nat.pow 10 w := Nat.mul_comm ..
    rw [hw, Nat.mod_mul]
    omega

theorem value?_fixed {w n : Nat} (hw : 0 < w) (hn : n < Nat.pow 10 w) :
    value? (fixed w n) = some n := by
  have hne : (fixed w n).isEmpty = false := by
    cases w with
    | zero => omega
    | succ w => simp [fixed]
  have hmod : n % Nat.pow 10 w = n := Nat.mod_eq_of_lt hn
  simp only [value?, hne, all_isDigit_fixed, digitsFrom_fixed, hmod]
  rfl

end AccessRules.Text
