import Mathlib.Computability.Language
import AccessRules.Proofs.Endpoint.NameText

/-!
# The grammar of names

**Program** — `Name.domainFlaws` and `Name.isLabel` check a name in one pass over its characters,
which keeps nothing in mind but where it stands in a label.

**Spec** — a *label* is made of lower-case letters, digits and hyphens, and begins and ends with a
letter or a digit (`IsLabelForm`).  A name passes as a domain exactly if it is short enough and what
it holds between points are labels, and as a label exactly if it is one and begins with a letter; a
line break at its very end is left out in both cases (`accepted_iff`).  The same names are those of
the usual patterns, in which labels and points are repeated (`domainPattern`, `labelPattern`).

**Crux** — what completes a label depends on the place that was reached, and on nothing before it
(`Completes`); a character leads from one place to the next (`completes_cons`), and a point leads
from a label that is complete to the start of another one (`completes_true_iff`).
-/

namespace AccessRules.Name

open Text
open scoped Computability

/-! ## Labels -/

/-- A lower-case letter or a digit. -/
def IsAlnum (c : Char) : Prop := c.isLower = true ∨ c.isDigit = true

/-- A character of labels. -/
def IsLabelChar (c : Char) : Prop := IsAlnum c ∨ c = '-'

/-- A label: lower-case letters, digits and hyphens, the first and the last no hyphen. -/
structure IsLabelForm (cs : List Char) : Prop where
  nonempty : cs ≠ []
  chars : ∀ c ∈ cs, IsLabelChar c
  first : ∀ c ∈ cs.head?, IsAlnum c
  last : ∀ c ∈ cs.getLast?, IsAlnum c

theorem isLetter_iff {c : Char} : isLetter c = true ↔ c.isLower = true := by
  have hlower : c.isLower = (decide (c.val ≥ 97) && decide (c.val ≤ 122)) := rfl
  simp [hlower, isLetter, UInt32.le_iff_toNat_le, ← Char.toNat_val]

theorem isLetterOrDigit_iff {c : Char} : isLetterOrDigit c = true ↔ IsAlnum c := by
  rw [isLetterOrDigit, Bool.or_eq_true, isLetter_iff, IsAlnum]
  refine or_congr_right ?_
  simp [Char.isDigit, UInt32.le_iff_toNat_le, ← Char.toNat_val]

theorem not_isAlnum_hyphen : ¬ IsAlnum '-' := by
  rw [← isLetterOrDigit_iff]
  decide

theorem not_isAlnum_point : ¬ IsAlnum '.' := by
  rw [← isLetterOrDigit_iff]
  decide

/-- No label has a point in it. -/
theorem IsLabelForm.no_point {cs : List Char} (h : IsLabelForm cs) : '.' ∉ cs := by
  intro hpoint
  rcases h.chars _ hpoint with halnum | hhyphen
  · exact not_isAlnum_point halnum
  · cases hhyphen

/-! ## Scanning a label -/

/-- What completes a label that has been read up to a place. -/
def Completes : Place → List Char → Prop
  | .start, cs => IsLabelForm cs
  | .inside, cs => (∀ c ∈ cs, IsLabelChar c) ∧ ∀ c ∈ cs.getLast?, IsAlnum c
  | .hyphen, cs => cs ≠ [] ∧ (∀ c ∈ cs, IsLabelChar c) ∧ ∀ c ∈ cs.getLast?, IsAlnum c

theorem completes_nil {place : Place} : Completes place [] ↔ place = .inside := by
  cases place with
  | start => exact iff_of_false (fun h => h.nonempty rfl) nofun
  | inside => simp [Completes]
  | hyphen => simp [Completes]

/-- What stands behind a character of a label completes it: anything that ends well behind a letter
or a digit, but something behind a hyphen. -/
theorem ends_cons {c : Char} {cs : List Char} :
    Completes .inside (c :: cs) ↔
      (IsAlnum c ∧ Completes .inside cs) ∨ (c = '-' ∧ Completes .hyphen cs) := by
  cases cs with
  | nil =>
    simp only [completes_nil, reduceCtorEq, and_false, or_false, and_true]
    exact ⟨fun h => h.2 c rfl, fun h => ⟨by simpa using .inl h, by simpa using h⟩⟩
  | cons d cs =>
    simp only [Completes, List.forall_mem_cons, List.getLast?_cons_cons, ne_eq, reduceCtorEq,
      not_false_eq_true, true_and]
    rw [← or_and_right, and_assoc]
    rfl

/-- **Where a character leads**: a letter or a digit into a label, and a hyphen behind one that has
begun. -/
theorem completes_cons {place : Place} {c : Char} {cs : List Char} :
    Completes place (c :: cs) ↔
      (IsAlnum c ∧ Completes .inside cs) ∨
        (c = '-' ∧ place ≠ .start ∧ Completes .hyphen cs) := by
  cases place with
  | start =>
    simp only [ne_eq, not_true_eq_false, false_and, and_false, or_false]
    constructor
    · intro h
      have hc : IsAlnum c := h.first c rfl
      rcases ends_cons.mp ⟨h.chars, h.last⟩ with hrest | ⟨rfl, _⟩
      · exact hrest
      · exact absurd hc not_isAlnum_hyphen
    · intro h
      obtain ⟨hchars, hlast⟩ := ends_cons.mpr (.inl h)
      exact ⟨List.cons_ne_nil _ _, hchars, by simpa using h.1, hlast⟩
  | inside => simpa using ends_cons
  | hyphen =>
    simp only [ne_eq, reduceCtorEq, not_false_eq_true, true_and, ← ends_cons]
    exact and_iff_right (List.cons_ne_nil _ _)

/-- The scan goes where a character leads, unless it is a point that may stand between labels. -/
theorem scan_cons {points : Bool} {place : Place} {c : Char} (hc : points = false ∨ c ≠ '.')
    {cs : List Char} :
    completes points place (c :: cs) = true ↔
      (IsAlnum c ∧ completes points .inside cs = true) ∨
        (c = '-' ∧ place ≠ .start ∧ completes points .hyphen cs = true) := by
  rw [completes]
  split
  · next halnum =>
    rw [isLetterOrDigit_iff] at halnum
    have hhyphen : c ≠ '-' := fun h => not_isAlnum_hyphen (h ▸ halnum)
    simp [halnum, hhyphen]
  · next halnum =>
    rw [isLetterOrDigit_iff] at halnum
    split
    · next hhyphen => simp [hhyphen, not_isAlnum_hyphen]
    · next hhyphen =>
      simp only [halnum, hhyphen, false_and, or_self, iff_false]
      split
      · next hpoint => simp [hc.resolve_right (fun h => h hpoint)]
      · exact Bool.false_ne_true

/-- **A scan without points accepts what completes a label.** -/
theorem completes_false_iff {place : Place} {cs : List Char} :
    completes false place cs = true ↔ Completes place cs := by
  induction cs generalizing place with
  | nil => rw [completes, beq_iff_eq, completes_nil]
  | cons c cs ih => rw [scan_cons (.inl rfl), completes_cons, ih, ih]

/-! ## Scanning labels with points between them -/

/-- Labels with points between them, the first of which has been read up to a place. -/
def CompletesAll (place : Place) (cs : List Char) : Prop :=
  ∃ first rest, cs.splitOn '.' = first :: rest ∧ Completes place first ∧
    ∀ label ∈ rest, IsLabelForm label

theorem completesAll_iff {place : Place} {cs first : List Char} {rest : List (List Char)}
    (h : cs.splitOn '.' = first :: rest) :
    CompletesAll place cs ↔ Completes place first ∧ ∀ label ∈ rest, IsLabelForm label := by
  simp [CompletesAll, h]

theorem completesAll_start {cs : List Char} :
    CompletesAll .start cs ↔ ∀ label ∈ cs.splitOn '.', IsLabelForm label := by
  obtain ⟨first, rest, hsplit⟩ := List.exists_cons_of_ne_nil (List.splitOn_ne_nil '.' cs)
  rw [completesAll_iff hsplit, hsplit, List.forall_mem_cons]
  rfl

theorem completesAll_nil {place : Place} : CompletesAll place [] ↔ place = .inside := by
  rw [completesAll_iff (List.splitOn_nil '.'), completes_nil]
  simp

/-- A point ends a label that is complete, and the next one starts. -/
theorem completesAll_point {place : Place} {cs : List Char} :
    CompletesAll place ('.' :: cs) ↔ place = .inside ∧ CompletesAll .start cs := by
  have hsplit : ('.' :: cs).splitOn '.' = [] :: cs.splitOn '.' := by
    simp [List.splitOn_cons_eq_if_modifyHead]
  rw [completesAll_iff hsplit, completes_nil, completesAll_start]

/-- Any other character belongs to the first label. -/
theorem completesAll_cons {place : Place} {c : Char} (hc : c ≠ '.') {cs : List Char} :
    CompletesAll place (c :: cs) ↔
      (IsAlnum c ∧ CompletesAll .inside cs) ∨
        (c = '-' ∧ place ≠ .start ∧ CompletesAll .hyphen cs) := by
  obtain ⟨first, rest, hsplit⟩ := List.exists_cons_of_ne_nil (List.splitOn_ne_nil '.' cs)
  have hcons : (c :: cs).splitOn '.' = (c :: first) :: rest := by
    simp [List.splitOn_cons_eq_if_modifyHead, hc, hsplit]
  rw [completesAll_iff hcons, completesAll_iff hsplit, completesAll_iff hsplit, completes_cons,
    or_and_right, and_assoc, and_assoc, and_assoc]

/-- **A scan with points accepts labels with points between them.** -/
theorem completes_true_iff {place : Place} {cs : List Char} :
    completes true place cs = true ↔ CompletesAll place cs := by
  induction cs generalizing place with
  | nil => rw [completes, beq_iff_eq, completesAll_nil]
  | cons c cs ih =>
    by_cases hpoint : c = '.'
    · have halnum : isLetterOrDigit '.' = false := by decide
      rw [hpoint, completesAll_point, ← ih]
      simp [completes, halnum]
    · rw [scan_cons (.inr hpoint), completesAll_cons hpoint, ih, ih]

/-! ## Patterns -/

/-- A text that is one character of a class. -/
def oneOf (p : Char → Prop) : Language Char := {cs | ∃ c, p c ∧ cs = [c]}

/-- Labels as a pattern: a first character, and perhaps further ones and a last one. -/
def labelPattern (first : Char → Prop) : Language Char :=
  oneOf first * (1 + (oneOf IsLabelChar)∗ * oneOf IsAlnum)

/-- Domains as a pattern: a label, and any number of points with a label behind each. -/
def domainPattern : Language Char :=
  labelPattern IsAlnum * (oneOf (· = '.') * labelPattern IsAlnum)∗

/-- The end of a text, perhaps with a line break in front of it. -/
def endPattern : Language Char := 1 + oneOf (· = '\n')

theorem mem_oneOf {p : Char → Prop} {cs : List Char} : cs ∈ oneOf p ↔ ∃ c, p c ∧ cs = [c] := .rfl

theorem mem_oneOf_kstar {p : Char → Prop} {cs : List Char} :
    cs ∈ (oneOf p)∗ ↔ ∀ c ∈ cs, p c := by
  rw [Language.mem_kstar]
  constructor
  · rintro ⟨pieces, rfl, hpieces⟩ c hc
    obtain ⟨piece, hpiece, hc⟩ := List.mem_flatten.mp hc
    obtain ⟨d, hd, rfl⟩ := hpieces piece hpiece
    rwa [List.mem_singleton.mp hc]
  · intro h
    have hflat : cs = (cs.map fun c => [c]).flatten := by
      rw [← List.flatMap_def, List.flatMap_singleton']
    refine ⟨cs.map fun c => [c], hflat, fun piece hpiece => ?_⟩
    obtain ⟨c, hc, rfl⟩ := List.mem_map.mp hpiece
    exact ⟨c, h c hc, rfl⟩

/-- **The pattern of labels** is matched by the labels with such a first character. -/
theorem mem_labelPattern {first : Char → Prop} (hfirst : ∀ c, first c → IsAlnum c)
    {cs : List Char} :
    cs ∈ labelPattern first ↔ IsLabelForm cs ∧ ∀ c ∈ cs.head?, first c := by
  simp only [labelPattern, Language.mem_mul, Language.mem_add, Language.mem_one, mem_oneOf_kstar,
    mem_oneOf]
  constructor
  · rintro ⟨_, ⟨c, hc, rfl⟩, rest, rfl | ⟨middle, hmiddle, _, ⟨d, hd, rfl⟩, rfl⟩, rfl⟩
    · have hform : Completes .start [c] :=
        completes_cons.mpr (.inl ⟨hfirst c hc, completes_nil.mpr rfl⟩)
      exact ⟨hform, by simpa using hc⟩
    · have hrest : Completes .inside (middle ++ [d]) := by
        refine ⟨fun e he => ?_, by simpa using hd⟩
        rcases List.mem_append.mp he with he | he
        · exact hmiddle e he
        · exact .inl (List.mem_singleton.mp he ▸ hd)
      have hform : Completes .start (c :: (middle ++ [d])) :=
        completes_cons.mpr (.inl ⟨hfirst c hc, hrest⟩)
      exact ⟨hform, by simpa using hc⟩
  · rintro ⟨hform, hhead⟩
    cases cs with
    | nil => exact absurd rfl hform.nonempty
    | cons c rest =>
      refine ⟨[c], ⟨c, hhead c rfl, rfl⟩, rest, ?_, rfl⟩
      rcases List.eq_nil_or_concat rest with rfl | ⟨middle, d, rfl⟩
      · exact .inl rfl
      · refine .inr ⟨middle, fun e he => hform.chars e (by simp [he]), [d], ⟨d, ?_, rfl⟩, by simp⟩
        exact hform.last d (by simp [List.getLast?_cons])

/-- Pieces with a separator between them: the first, and the separator with each of the others. -/
theorem intercalate_eq_append (sep : Char) (first : List Char) (rest : List (List Char)) :
    [sep].intercalate (first :: rest) = first ++ (rest.map (sep :: ·)).flatten := by
  induction rest generalizing first with
  | nil => simp
  | cons second rest ih =>
    rw [List.intercalate_cons_of_ne_nil (List.cons_ne_nil _ _), ih]
    simp

/-- **The pattern of domains** is matched by labels with points between them. -/
theorem mem_domainPattern {cs : List Char} :
    cs ∈ domainPattern ↔ ∀ label ∈ cs.splitOn '.', IsLabelForm label := by
  have hlabel : ∀ label, label ∈ labelPattern IsAlnum ↔ IsLabelForm label := fun label => by
    rw [mem_labelPattern fun _ h => h]
    exact and_iff_left_of_imp (·.first)
  have hpiece : ∀ piece, piece ∈ oneOf (· = '.') * labelPattern IsAlnum ↔
      IsLabelForm piece.tail ∧ piece = '.' :: piece.tail := fun piece => by
    rw [Language.mem_mul]
    constructor
    · rintro ⟨_, ⟨_, rfl, rfl⟩, label, hform, rfl⟩
      exact ⟨(hlabel label).mp hform, rfl⟩
    · rintro ⟨hform, heq⟩
      exact ⟨['.'], ⟨'.', rfl, rfl⟩, _, (hlabel _).mpr hform, heq.symm⟩
  rw [domainPattern, Language.mem_mul]
  simp only [Language.mem_kstar, hlabel, hpiece]
  constructor
  · rintro ⟨first, hfirst, _, ⟨pieces, rfl, hpieces⟩, rfl⟩
    have hmap : (pieces.map List.tail).map ('.' :: ·) = pieces := by
      rw [List.map_map]
      exact (List.map_congr_left fun piece hp => (hpieces piece hp).2.symm).trans (List.map_id _)
    have hforms : ∀ label ∈ first :: pieces.map List.tail, IsLabelForm label := by
      rw [List.forall_mem_cons, List.forall_mem_map]
      exact ⟨hfirst, fun piece hp => (hpieces piece hp).1⟩
    rw [← hmap, ← intercalate_eq_append,
      List.splitOn_intercalate '.' (fun label hl => (hforms label hl).no_point)
        (List.cons_ne_nil _ _)]
    exact hforms
  · intro h
    obtain ⟨first, rest, hsplit⟩ := List.exists_cons_of_ne_nil (List.splitOn_ne_nil '.' cs)
    rw [hsplit, List.forall_mem_cons] at h
    refine ⟨first, h.1, _, ⟨rest.map ('.' :: ·), rfl, ?_⟩, ?_⟩
    · rw [List.forall_mem_map]
      exact fun label hl => ⟨h.2 label hl, rfl⟩
    · rw [← intercalate_eq_append, ← hsplit, List.intercalate_splitOn]

/-! ## Names -/

/-- A text without the line break at its end that it may have. -/
def IsLineOf (body cs : List Char) : Prop := cs = body ∨ cs = body ++ ['\n']

/-- What is left without a line break at the end has none, if nothing looked for has one. -/
theorem dropFinalNewline_iff {p : List Char → Prop} (hp : ∀ body, p body → '\n' ∉ body)
    {cs : List Char} : p (dropFinalNewline cs) ↔ ∃ body, IsLineOf body cs ∧ p body := by
  rcases dropFinalNewline_cases cs with ⟨hsame, hnot⟩ | hline
  · rw [hsame]
    constructor
    · exact fun h => ⟨cs, .inl rfl, h⟩
    · rintro ⟨body, rfl | rfl, hbody⟩
      · exact hbody
      · exact absurd (List.suffix_append _ _) hnot
  · constructor
    · exact fun h => ⟨_, .inr hline, h⟩
    · rintro ⟨body, rfl | heq, hbody⟩
      · exact absurd (hline ▸ by simp) (hp _ hbody)
      · rwa [List.append_cancel_right (hline.symm.trans heq)]

theorem mem_mul_endPattern {l : Language Char} {cs : List Char} :
    cs ∈ l * endPattern ↔ ∃ body, IsLineOf body cs ∧ body ∈ l := by
  simp only [endPattern, Language.mem_mul, Language.mem_add, Language.mem_one, mem_oneOf]
  constructor
  · rintro ⟨body, hbody, _, rfl | ⟨_, rfl, rfl⟩, rfl⟩
    · exact ⟨body, .inl (List.append_nil body), hbody⟩
    · exact ⟨body, .inr rfl, hbody⟩
  · rintro ⟨body, rfl | rfl, hbody⟩
    · exact ⟨_, hbody, [], .inl rfl, List.append_nil _⟩
    · exact ⟨_, hbody, ['\n'], .inr ⟨_, rfl, rfl⟩, rfl⟩

/-- **A domain has no flaws** if it is short enough and its labels are labels. -/
theorem domainProblems_eq_nil {s : String} :
    domainProblems s = [] ↔ s.length ≤ 253 ∧
      ∃ body, IsLineOf body s.toList ∧ ∀ label ∈ body.splitOn '.', IsLabelForm label := by
  have hform : completes true .start (dropFinalNewline s.toList) = true ↔
      ∃ body, IsLineOf body s.toList ∧ ∀ label ∈ body.splitOn '.', IsLabelForm label := by
    rw [completes_true_iff, completesAll_start]
    refine dropFinalNewline_iff (p := fun body => ∀ label ∈ body.splitOn '.', IsLabelForm label) ?_
    intro body hbody hbreak
    rw [← completesAll_start, ← completes_true_iff] at hbody
    exact absurd (all_isNameChar_of_completes hbody _ hbreak) (by decide)
  rw [← hform, domainProblems, List.map_eq_nil_iff, domainFlaws, List.append_eq_nil_iff]
  refine and_congr ?_ ?_
  · rw [ite_eq_right_iff, maxDomain]
    simp
  · simp

/-- A scan behind a letter accepts a label that begins with it. -/
theorem isLetter_and_completes_iff {cs : List Char} :
    (match cs with
      | [] => false
      | c :: cs => isLetter c && completes false .inside cs) = true ↔
      IsLabelForm cs ∧ ∀ c ∈ cs.head?, c.isLower = true := by
  cases cs with
  | nil => exact iff_of_false Bool.false_ne_true fun h => h.1.nonempty rfl
  | cons c cs =>
    rw [Bool.and_eq_true, isLetter_iff, completes_false_iff]
    constructor
    · rintro ⟨hc, hrest⟩
      have hform : Completes .start (c :: cs) := completes_cons.mpr (.inl ⟨.inl hc, hrest⟩)
      exact ⟨hform, by simpa using hc⟩
    · rintro ⟨hform, hhead⟩
      have hstart : Completes .start (c :: cs) := hform
      obtain ⟨_, hrest⟩ | ⟨_, hne, _⟩ := completes_cons.mp hstart
      · exact ⟨hhead c rfl, hrest⟩
      · exact absurd rfl hne

/-- **A label passes** if it is short enough, is a label and begins with a letter. -/
theorem isLabel_iff {s : String} :
    isLabel s = true ↔ s.length ≤ 63 ∧
      ∃ body, IsLineOf body s.toList ∧ IsLabelForm body ∧ ∀ c ∈ body.head?, c.isLower = true := by
  rw [isLabel, Bool.and_eq_true, decide_eq_true_eq]
  refine and_congr_right fun _ => isLetter_and_completes_iff.trans ?_
  refine dropFinalNewline_iff
    (p := fun body => IsLabelForm body ∧ ∀ c ∈ body.head?, c.isLower = true) ?_
  intro body hbody hbreak
  rcases hbody.1.chars _ hbreak with halnum | hhyphen
  · rw [← isLetterOrDigit_iff] at halnum
    exact absurd halnum (by decide)
  · cases hhyphen

/-- **The checks of names accept exactly their grammar.**  A text has no flaws as a domain if and
only if it has at most 253 characters and, without the line break that it may end with, nothing but
labels between its points; it passes as a label if and only if it has at most 63 characters and is,
without such a line break, a label that begins with a letter.  Both are what the patterns match. -/
theorem accepted_iff (s : String) :
    (domainProblems s = [] ↔ s.length ≤ 253 ∧
      ∃ body, IsLineOf body s.toList ∧ ∀ label ∈ body.splitOn '.', IsLabelForm label) ∧
    (isLabel s = true ↔ s.length ≤ 63 ∧
      ∃ body, IsLineOf body s.toList ∧ IsLabelForm body ∧ ∀ c ∈ body.head?, c.isLower = true) ∧
    (domainProblems s = [] ↔ s.length ≤ 253 ∧ s.toList ∈ domainPattern * endPattern) ∧
    (isLabel s = true ↔
      s.length ≤ 63 ∧ s.toList ∈ labelPattern (·.isLower = true) * endPattern) := by
  refine ⟨domainProblems_eq_nil, isLabel_iff, ?_, ?_⟩
  · simp only [domainProblems_eq_nil, mem_mul_endPattern, mem_domainPattern]
  · simp only [isLabel_iff, mem_mul_endPattern, mem_labelPattern (fun _ hc => Or.inl hc)]

example : domainProblems "a-1.b\n" = [] := by decide +kernel

example : isLabel "a-1" = true ∧ isLabel "1-a" = false := by decide +kernel

end AccessRules.Name
