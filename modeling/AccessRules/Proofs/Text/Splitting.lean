import AccessRules.Text.Split

/-!
# Splitting and joining

**Program** — `Text.split` takes a text apart at a separator.

**Spec** — the pieces are the only texts without the separator that give the text when they are
joined by it (`split_eq_iff`).

**Crux** — it is the splitting of the library (`split_eq_splitOn`).
-/

namespace AccessRules.Text

theorem split_eq_splitOn (sep : Char) (cs : List Char) : split sep cs = cs.splitOn sep := by
  induction cs with
  | nil => rfl
  | cons c cs ih =>
    rw [split, List.splitOn, List.splitOnP_cons_eq_if_modifyHead, ← List.splitOn, ← ih]
    by_cases hc : c = sep
    · simp [hc]
    · cases hs : split sep cs with
      | nil => exact absurd hs (split_ne_nil sep cs)
      | cons piece rest => simp [hc]

/-- **The pieces of a text** are the texts without the separator that it is joined from. -/
theorem split_eq_iff {sep : Char} {cs : List Char} {pieces : List (List Char)} :
    split sep cs = pieces ↔
      pieces ≠ [] ∧ (∀ piece ∈ pieces, sep ∉ piece) ∧ cs = [sep].intercalate pieces := by
  constructor
  · rintro rfl
    refine ⟨split_ne_nil sep cs, fun _ => not_mem_split, ?_⟩
    rw [split_eq_splitOn, List.intercalate_splitOn]
  · rintro ⟨hne, hpieces, rfl⟩
    rw [split_eq_splitOn, List.splitOn_intercalate sep hpieces hne]

/-- A text without the separator is one piece. -/
theorem split_of_not_mem {sep : Char} {cs : List Char} (h : sep ∉ cs) : split sep cs = [cs] :=
  split_eq_iff.mpr ⟨by simp, by simpa using h, by simp [List.intercalate]⟩

/-- A text with one separator is two pieces. -/
theorem split_pair {sep : Char} {before after : List Char} (hb : sep ∉ before)
    (ha : sep ∉ after) : split sep (before ++ sep :: after) = [before, after] :=
  split_eq_iff.mpr ⟨by simp, by simpa using ⟨hb, ha⟩, by simp [List.intercalate]⟩

/-- What stands before the first separator is part of the text. -/
theorem mem_of_mem_cut {sep c : Char} {cs : List Char} (h : c ∈ (cut sep cs).1) : c ∈ cs := by
  induction cs with
  | nil => exact h
  | cons d ds ih =>
    rw [cut] at h
    split at h
    · exact absurd h List.not_mem_nil
    · rcases List.mem_cons.mp h with rfl | h
      · exact List.mem_cons_self
      · exact List.mem_cons_of_mem _ (ih h)

end AccessRules.Text
