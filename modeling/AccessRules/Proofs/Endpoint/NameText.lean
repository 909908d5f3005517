import AccessRules.Endpoint.Name
import AccessRules.Endpoint.Validity

/-!
# What names are made of

**Program** — `Name.isWorkload`, `Name.domainFlaws` and `Name.isLabel` check a name in one pass over
its characters.

**Spec** — a name that passes one of the checks is made of lower-case letters, digits, hyphens and
points (`IsClean`), or it is such a name with a line break behind it (`IsCleanLine`).

**Crux** — the scan of labels looks at every character before it goes on
(`all_isNameChar_of_completes`), but all checks overlook a line break at the very end, so this one
is never looked at (`isClean_iff_of_isCleanLine`).
-/

namespace AccessRules

namespace Text

/-- All that leaving out a line break at the end can do. -/
theorem dropFinalNewline_cases (cs : List Char) :
    (dropFinalNewline cs = cs ∧ ¬ ['\n'] <:+ cs) ∨ cs = dropFinalNewline cs ++ ['\n'] := by
  induction cs using dropFinalNewline.induct with
  | case1 => exact .inl ⟨rfl, by simp⟩
  | case2 => exact .inr rfl
  | case3 c cs h ih =>
    rw [dropFinalNewline]
    · rcases ih with ⟨hsame, hnot⟩ | hline
      · refine .inl ⟨by rw [hsame], fun hsuffix => ?_⟩
        rcases List.suffix_cons_iff.mp hsuffix with heq | hsuffix
        · cases heq
          exact h rfl rfl
        · exact hnot hsuffix
      · exact .inr (by rw [List.cons_append, ← hline])
    · exact h

end Text

namespace Name

open Text

/-- A lower-case letter, a digit, a hyphen or a point. -/
def isNameChar (c : Char) : Bool := isLetterOrDigit c || c == '-' || c == '.'

/-- A text of nothing but characters of names. -/
def IsClean (s : String) : Prop := ∀ c ∈ s.toList, isNameChar c = true

/-- A text of nothing but characters of names, perhaps with a line break behind them. -/
def IsCleanLine (s : String) : Prop := ∀ c ∈ dropFinalNewline s.toList, isNameChar c = true

/-- **A name without a character that it may not have** is one that does not end with a line
break. -/
theorem isClean_iff_of_isCleanLine {s : String} (h : IsCleanLine s) :
    IsClean s ↔ ¬ ['\n'] <:+ s.toList := by
  rcases dropFinalNewline_cases s.toList with ⟨hsame, hnot⟩ | hline
  · refine iff_of_true ?_ hnot
    rwa [IsCleanLine, hsame] at h
  · refine iff_of_false (fun hclean => ?_) (fun hnot => hnot ⟨_, hline.symm⟩)
    have hbreak := hclean '\n' (by rw [hline]; simp)
    exact absurd hbreak (by decide)

/-! ## What the checks look at -/

/-- **A scan of labels that succeeds has looked at every character.** -/
theorem all_isNameChar_of_completes {points : Bool} {place : Place} {cs : List Char}
    (h : completes points place cs = true) : ∀ c ∈ cs, isNameChar c = true := by
  induction cs generalizing place with
  | nil => nofun
  | cons c cs ih =>
    rw [List.forall_mem_cons]
    rw [completes] at h
    split at h
    · next hc => exact ⟨by simp [isNameChar, hc], ih h⟩
    · split at h
      · next hc => exact ⟨by simp [isNameChar, hc], ih (Bool.and_eq_true_iff.mp h).2⟩
      · split at h
        · next hc => exact ⟨by simp [isNameChar, hc], ih (Bool.and_eq_true_iff.mp h).2⟩
        · cases h

theorem isLetterOrDigit_of_isLetter {c : Char} (h : isLetter c = true) :
    isLetterOrDigit c = true := by
  rw [isLetterOrDigit, h, Bool.true_or]

theorem isCleanLine_of_isWorkload {s : String} (h : isWorkload s = true) : IsCleanLine s := by
  rw [isWorkload] at h
  rw [IsCleanLine]
  split at h
  · cases h
  · next c cs hcs =>
    simp only [Bool.and_eq_true, List.all_eq_true] at h
    rw [hcs, List.forall_mem_cons]
    refine ⟨by simp [isNameChar, isLetterOrDigit_of_isLetter h.1.1], fun d hd => ?_⟩
    rw [isNameChar, h.2 d hd, Bool.true_or]

theorem isCleanLine_of_isLabel {s : String} (h : isLabel s = true) : IsCleanLine s := by
  rw [isLabel, Bool.and_eq_true] at h
  replace h := h.2
  rw [IsCleanLine]
  split at h
  · cases h
  · next c cs hcs =>
    rw [Bool.and_eq_true] at h
    rw [hcs, List.forall_mem_cons]
    exact ⟨by simp [isNameChar, isLetterOrDigit_of_isLetter h.1], all_isNameChar_of_completes h.2⟩

theorem isCleanLine_of_domainFlaws {s : String} (h : domainFlaws s = []) : IsCleanLine s := by
  have hform : completes true .start (dropFinalNewline s.toList) = true := by
    rw [domainFlaws, List.append_eq_nil_iff] at h
    simpa using h.2
  exact all_isNameChar_of_completes hform

/-- The point in front of a name for all below it is a character of names. -/
theorem isCleanLine_of_withoutWildcard {s : String}
    (h : IsCleanLine (Endpoint.withoutWildcard s)) : IsCleanLine s := by
  rw [Endpoint.withoutWildcard] at h
  split at h
  · next rest hs =>
    rw [IsCleanLine, String.toList_ofList] at h
    have hdrop : dropFinalNewline ('.' :: rest) = '.' :: dropFinalNewline rest := by
      rw [dropFinalNewline]
      nofun
    rw [IsCleanLine, hs, hdrop, List.forall_mem_cons]
    exact ⟨by decide, h⟩
  · exact h

end Name

end AccessRules
