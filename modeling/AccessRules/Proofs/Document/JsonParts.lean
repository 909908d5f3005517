import AccessRules.Document.Json
import AccessRules.Document.JsonReader
import AccessRules.Proofs.Calendar.TimeText
import AccessRules.Proofs.Text.Numerals

/-!
# Strings, integers and words of JSON read back

**Program** — `Json.string`, `Json.scalar` and their readers `readString`, `readNumber?` and
`readWord?`.

**Spec** — each of them is read back in front of whatever may follow it (`readString_string`,
`readNumber?_toString`, `readWord?_null`, `readWord?_bool`).

**Crux** — the reader of strings deals in units of 16 bits.  A character is read back as one unit
or, where it was escaped as a pair, as two (`unitsOf`), and joining units gives the character again.
A number alone does not say where it ends; it does so by what follows (`EndsValue`).
-/

namespace AccessRules.Json

open Text

/-! ## Strings -/

theorem hexValue?_hexDigit (n : Nat) : hexValue? (hexDigit n) = some (n % 16) := by
  have h : n % 16 < 16 := Nat.mod_lt _ (by decide)
  unfold hexDigit
  generalize n % 16 = k at h
  have hall : ∀ k < 16, hexValue? (if k < 10 then Char.ofNat (48 + k) else Char.ofNat (87 + k)) =
      some k := by decide
  exact hall k h

theorem unitEscape_eq (n : Nat) : unitEscape n =
    ['\\', 'u', hexDigit (n / 16 / 16 / 16), hexDigit (n / 16 / 16), hexDigit (n / 16),
      hexDigit n] := rfl

/-- A unit is read back from its escape. -/
theorem readUnits_unitEscape (start pos : Nat) {n : Nat} (h : n < 65536) {cs : List Char}
    (hcs : cs ≠ []) :
    readUnits start pos (unitEscape n ++ cs) =
      (readUnits start (pos + 6) cs).map fun (units, rest) => (n :: units, rest) := by
  have hne : cs.isEmpty = false := by simp [hcs]
  have hval : n / 16 / 16 / 16 % 16 * 4096 + n / 16 / 16 % 16 * 256 + n / 16 % 16 * 16 + n % 16 =
      n := by omega
  simp only [unitEscape_eq, List.cons_append, List.nil_append, readUnits, hexValue?_hexDigit, hne,
    hval]
  cases readUnits start (pos + 6) cs <;> rfl

/-- The units a character is read back as: two where it is escaped as a pair, else its number. -/
def unitsOf (asciiOnly : Bool) (c : Char) : List Nat :=
  if asciiOnly && 0x10000 ≤ c.toNat then
    [0xd800 + (c.toNat - 0x10000) / 0x400, 0xdc00 + (c.toNat - 0x10000) % 0x400]
  else [c.toNat]

theorem toNat_lt (c : Char) : c.toNat < 0x110000 := by
  rcases c.valid with h | h <;> simp only [Char.toNat] <;> omega

/-- A short escape is read back. -/
theorem readUnits_shortEscape (start pos : Nat) (cs : List Char) {e c : Char}
    (h : shortEscape? e = some c) (he : e ≠ 'u') :
    readUnits start pos ('\\' :: e :: cs) =
      (readUnits start (pos + 2) cs).map fun (units, rest) => (c.toNat :: units, rest) := by
  rw [readUnits]
  · simp only [h]
    cases readUnits start (pos + 2) cs <;> rfl
  · exact fun _ _ _ _ _ hu _ => he hu
  · exact fun hu => he hu

/-- A character that stands for itself is read back. -/
theorem readUnits_self (start pos : Nat) (cs : List Char) {c : Char} (hq : c ≠ '"') (hb : c ≠ '\\')
    (hc : ¬ c.toNat < 0x20) :
    readUnits start pos (c :: cs) =
      (readUnits start (pos + 1) cs).map fun (units, rest) => (c.toNat :: units, rest) := by
  rw [readUnits]
  · simp only [hc, if_false]
    cases readUnits start (pos + 1) cs <;> rfl
  all_goals intros; simp_all

theorem unitsOf_of_lt (a : Bool) {c : Char} (h : c.toNat < 0x10000) : unitsOf a c = [c.toNat] := by
  rw [unitsOf, if_neg (by simp; omega)]

/-- An escape by number is read back. -/
theorem readUnits_charEscape (c : Char) (start pos : Nat) {cs : List Char} (hcs : cs ≠ []) :
    ∃ pos', readUnits start pos (charEscape c ++ cs) =
      (readUnits start pos' cs).map fun (units, rest) => (unitsOf true c ++ units, rest) := by
  have hmax := toNat_lt c
  by_cases h : c.toNat < 0x10000
  · rw [unitsOf_of_lt true h, charEscape, if_pos h]
    exact ⟨_, readUnits_unitEscape start pos h hcs⟩
  · -- a character that is no single unit is written as a pair of escapes
    have hpair : unitsOf true c = [0xd800 + (c.toNat - 0x10000) / 0x400,
        0xdc00 + (c.toNat - 0x10000) % 0x400] := if_pos (by simp; omega)
    have hne : unitEscape (0xdc00 + (c.toNat - 0x10000) % 0x400) ++ cs ≠ [] := by
      simp [unitEscape]
    rw [hpair, charEscape, if_neg h, List.append_assoc,
      readUnits_unitEscape start pos (by omega) hne,
      readUnits_unitEscape start (pos + 6) (by omega) hcs]
    refine ⟨pos + 6 + 6, ?_⟩
    cases readUnits start (pos + 6 + 6) cs <;> rfl

/-- A character of a string is read back as its units. -/
theorem readUnits_stringChar (a : Bool) (c : Char) (start pos : Nat) {cs : List Char}
    (hcs : cs ≠ []) :
    ∃ pos', readUnits start pos (stringChar a c ++ cs) =
      (readUnits start pos' cs).map fun (units, rest) => (unitsOf a c ++ units, rest) := by
  have hshort : ∀ e, shortEscape? e = some c → e ≠ 'u' → c.toNat < 0x10000 →
      ∃ pos', readUnits start pos (['\\', e] ++ cs) =
        (readUnits start pos' cs).map fun (units, rest) => (unitsOf a c ++ units, rest) := by
    intro e h he hlt
    rw [unitsOf_of_lt a hlt]
    exact ⟨_, readUnits_shortEscape start pos cs h he⟩
  unfold stringChar
  split
  · next h => subst h; exact hshort '"' rfl (by decide) (by decide)
  split
  · next h => subst h; exact hshort '\\' rfl (by decide) (by decide)
  split
  · next h => subst h; exact hshort 'n' rfl (by decide) (by decide)
  split
  · next h => subst h; exact hshort 'r' rfl (by decide) (by decide)
  split
  · next h => subst h; exact hshort 't' rfl (by decide) (by decide)
  split
  · next h => subst h; exact hshort 'b' rfl (by decide) (by decide)
  split
  · next h => subst h; exact hshort 'f' rfl (by decide) (by decide)
  split
  · next h =>
    rw [unitsOf_of_lt a (by omega), ← unitsOf_of_lt true (by omega)]
    exact readUnits_charEscape c start pos hcs
  split
  · next h =>
    simp only [Bool.and_eq_true] at h
    rw [h.1]
    exact readUnits_charEscape c start pos hcs
  · -- no escape: the character stands for itself
    next hq hb _ _ _ _ _ hc h =>
    have hself := readUnits_self start pos cs hq hb hc
    cases a with
    | false => exact ⟨_, hself⟩
    | true =>
      rw [unitsOf_of_lt true (by simp at h; omega)]
      exact ⟨_, hself⟩

theorem readUnits_string (a : Bool) (s : List Char) (start pos : Nat) (rest : List Char) :
    ∃ off, readUnits start pos (s.flatMap (stringChar a) ++ '"' :: rest) =
      .ok (s.flatMap (unitsOf a), ⟨off, rest⟩) := by
  induction s generalizing pos with
  | nil => exact ⟨pos + 1, rfl⟩
  | cons c s ih =>
    have hne : s.flatMap (stringChar a) ++ '"' :: rest ≠ [] := by simp
    obtain ⟨pos', hc⟩ := readUnits_stringChar a c start pos hne
    obtain ⟨off, hs⟩ := ih pos'
    refine ⟨off, ?_⟩
    rw [List.flatMap_cons, List.append_assoc, hc, hs]
    rfl

/-- The units of a character are joined to it again, whatever units follow. -/
theorem joinUnits_unitsOf (a : Bool) (c : Char) (us : List Nat) :
    joinUnits (unitsOf a c ++ us) = c :: joinUnits us := by
  have hval : c.toNat < 0xd800 ∨ (0xdfff < c.toNat ∧ c.toNat < 0x110000) := c.valid
  have hunit : joinUnits.unit c.toNat = c := by
    rw [joinUnits.unit, if_neg (by simp; omega)]
    exact Char.ofNat_toNat c
  unfold unitsOf
  split
  · -- a pair of units: its halves make up the character
    next h =>
    simp only [Bool.and_eq_true, decide_eq_true_eq] at h
    have hsum : 0x10000 + (0xd800 + (c.toNat - 0x10000) / 0x400 - 0xd800) * 0x400 +
        (0xdc00 + (c.toNat - 0x10000) % 0x400 - 0xdc00) = c.toNat := by omega
    rw [List.cons_append, List.cons_append, List.nil_append, joinUnits, if_pos (by simp; omega),
      hsum, Char.ofNat_toNat]
  · -- a single unit, which is not the first half of a pair with the next
    next h =>
    cases us with
    | nil => simp [joinUnits, hunit]
    | cons u us =>
      rw [List.cons_append, List.nil_append, joinUnits, if_neg (by simp; omega), hunit]

theorem joinUnits_flatMap (a : Bool) (s : List Char) : joinUnits (s.flatMap (unitsOf a)) = s := by
  induction s with
  | nil => rfl
  | cons c s ih => rw [List.flatMap_cons, joinUnits_unitsOf, ih]

/-- A string is read back. -/
theorem readString_string (a : Bool) (s : String) {r : Rest} {rest : List Char}
    (h : r.chars = (string a s).toList ++ rest) :
    ∃ off, readString r = .ok (s, ⟨off, rest⟩) := by
  have hchars : r.chars.drop 1 = s.toList.flatMap (stringChar a) ++ '"' :: rest := by
    simp [h, string]
  obtain ⟨off, hoff⟩ := readUnits_string a s.toList r.offset (r.offset + 1) rest
  refine ⟨off, ?_⟩
  rw [readString, hchars, hoff]
  simp only [bind, Except.bind, joinUnits_flatMap, String.ofList_toList]

/-! ## Integers -/

/-- What may follow a value in a document: nothing, a comma or the end of a list or map. -/
def EndsValue (rest : List Char) : Prop := ∀ c ∈ rest.head?, c = ',' ∨ c = ']' ∨ c = '}'

/-- The characters of an integer: a minus where it is negative, and the digits of its size. -/
theorem toList_toString (n : Int) : (toString n).toList =
    (if n < 0 then ['-'] else []) ++ Nat.toDigits 10 n.natAbs := by
  rw [Int.toString_eq_repr, Int.repr_eq_if]
  split
  · next h =>
    rw [if_neg (by omega), show n.toNat = n.natAbs by omega]
    simp
  · next h =>
    rw [if_pos (by omega), show (-n).toNat = n.natAbs by omega]
    simp

theorem EndsValue.noDigit {rest : List Char} (h : EndsValue rest) : Calendar.NoDigit rest := by
  intro c hc
  rcases h c hc with rfl | rfl | rfl <;> decide

theorem takeExponent_of_endsValue {rest : List Char} (h : EndsValue rest) :
    Decimal.takeExponent rest = (none, rest) := by
  cases rest with
  | nil => rfl
  | cons c rest =>
    have hc : (c = 'e' || c = 'E') = false := by
      rcases h c rfl with rfl | rfl | rfl <;> decide
    simp only [Decimal.takeExponent, hc, Bool.false_eq_true, if_false]

/-- The whole part of a number: all digits, of which only a lone one may be a zero in front. -/
theorem takeWhole_toDigits (n : Nat) {rest : List Char} (hr : Calendar.NoDigit rest) :
    takeWhole (Nat.toDigits 10 n ++ rest) = (Nat.toDigits 10 n, rest) := by
  rw [takeWhole, Calendar.takeDigits_append (all_isDigit_toDigits n) hr]
  rcases Nat.eq_zero_or_pos n with rfl | hn
  · rfl
  · have hhead := head_toDigits hn
    split
    · next more rest' heq =>
      obtain ⟨hds, _⟩ := Prod.mk.inj heq
      rw [hds] at hhead
      exact absurd rfl hhead
    · next heq => exact heq.symm

/-- No fraction begins where a value ends. -/
theorem takeFraction_of_endsValue {rest : List Char} (hr : EndsValue rest) :
    takeFraction rest = ([], rest) := by
  unfold takeFraction
  split
  · next cs =>
    have hc := hr '.' rfl
    simp at hc
  · rfl

/-- The sign of an integer is a minus or nothing. -/
theorem takeSign_toString (n : Int) (rest : List Char) :
    takeSign ((toString n).toList ++ rest) =
      (decide (n < 0), Nat.toDigits 10 n.natAbs ++ rest) := by
  rw [toList_toString]
  by_cases hneg : n < 0
  · simp [hneg, takeSign]
  · simp only [hneg, if_false, List.nil_append, decide_false]
    obtain ⟨d, ds, hds, hd⟩ := toDigits_head n.natAbs
    rw [hds]
    unfold takeSign
    split
    · next cs heq =>
      obtain rfl : d = '-' := by
        simp only [List.cons_append, List.cons.injEq] at heq
        exact heq.1
      exact absurd hd (by decide)
    · rfl

theorem signed_toDigits (n : Int) :
    Decimal.signed (decide (n < 0)) (Nat.toDigits 10 n.natAbs) = n := by
  rw [Decimal.signed, digitsFrom_eq, Nat.ofDigitChars_ten_toDigits]
  by_cases hneg : n < 0
  · simp only [hneg, decide_true, if_true]
    omega
  · simp only [hneg, decide_false, Bool.false_eq_true, if_false]
    omega

/-- An integer is read back. -/
theorem readNumber?_toString (n : Int) {r : Rest} {rest : List Char} (hr : EndsValue rest)
    (h : r.chars = (toString n).toList ++ rest) :
    ∃ off, readNumber? r = some (.int n, ⟨off, rest⟩) := by
  have hne : (Nat.toDigits 10 n.natAbs).isEmpty = false := by
    simp [Nat.toDigits_ne_nil]
  refine ⟨r.offset + (r.chars.length - rest.length), ?_⟩
  simp only [readNumber?, h, takeSign_toString, takeWhole_toDigits _ hr.noDigit, hne,
    takeFraction_of_endsValue hr, takeExponent_of_endsValue hr, signed_toDigits,
    List.isEmpty_nil, Option.isNone_none, Bool.and_self, if_true, Bool.false_eq_true, if_false]

/-! ## Words -/

/-- A word is read back where no word before it begins the same way. -/
theorem readWord?_null {r : Rest} {rest : List Char} (h : r.chars = "null".toList ++ rest) :
    ∃ off, readWord? r = some (.null, ⟨off, rest⟩) := by
  have hlen : "null".length = 4 := rfl
  exact ⟨r.offset + 4, by simp [readWord?, words, h, Rest.advance, hlen]⟩

theorem readWord?_bool (b : Bool) {r : Rest} {rest : List Char}
    (h : r.chars = (if b then "true" else "false").toList ++ rest) :
    ∃ off, readWord? r = some (.bool b, ⟨off, rest⟩) := by
  have htrue : "true".length = 4 := rfl
  have hfalse : "false".length = 5 := rfl
  cases b with
  | true => exact ⟨r.offset + 4, by simp [readWord?, words, h, Rest.advance, htrue]⟩
  | false => exact ⟨r.offset + 5, by simp [readWord?, words, h, Rest.advance, hfalse]⟩

/-- Words begin with other characters than integers: no digit, and no minus before a digit. -/
theorem readWord?_toString (n : Int) {r : Rest} {rest : List Char}
    (h : r.chars = (toString n).toList ++ rest) : readWord? r = none := by
  obtain ⟨d, ds, hds, hd⟩ := toDigits_head n.natAbs
  have hletter : ∀ c ∈ ['n', 't', 'f', 'N', 'I', '-'], c ≠ d := by
    rintro c hc rfl
    have hnone : ['n', 't', 'f', 'N', 'I', '-'].all (fun c => !isDigit c) = true := by decide
    have hnot := List.all_eq_true.mp hnone c hc
    rw [hd] at hnot
    cases hnot
  simp only [List.mem_cons, List.not_mem_nil, or_false, forall_eq_or_imp, forall_eq] at hletter
  rw [toList_toString, hds] at h
  by_cases hneg : n < 0
  · simp [readWord?, words, h, hneg, hletter]
  · simp [readWord?, words, h, hneg, hletter]

end AccessRules.Json
