import Mathlib.Data.List.Nodup
import AccessRules.Document.Value

/-!
# Members of maps, and documents that are equal to themselves

**Program** — `Value.lookup` and `Value.put` find and set the entry of a map under a key, keys being
compared by value; `Value.same` compares whole documents by value.

**Spec** — setting a member changes what is found under its own name and under no other
(`lookup_put_of_ne`), and setting it to what it was changes nothing (`put_of_lookup`).  A document of
JSON is equal to itself by value (`IsJson.same_self`).

**Crux** — by value a text equals itself only (`same_text_iff`), so names may be treated as names;
and the only scalar that does not equal itself is not-a-number, which JSON cannot write.
-/

namespace AccessRules

namespace Scalar

/-- A text equals itself only, also by value. -/
theorem same_text_iff {k : Scalar} {name : String} :
    k.same (.text name) = true ↔ k = .text name := by
  cases k <;> simp [same, asInt?]

/-- A scalar of JSON. -/
def isJson : Scalar → Bool
  | .null | .bool _ | .int _ | .text _ => true
  | .float x => !x.isNan
  | .bytes _ | .date _ | .moment _ => false

end Scalar

namespace Binary64

/-- Every number but not-a-number equals itself. -/
theorem same_self {x : Binary64} (h : x.isNan = false) : x.same x = true := by
  cases x with
  | nan => cases h
  | infinite negative => cases negative <;> rfl
  | finite negative m e => simp [same, compare?, ratio?]

end Binary64

theorem Scalar.same_self {s : Scalar} (h : s.isJson = true) : s.same s = true := by
  cases s with
  | float x =>
    have hx : x.isNan = false := by simpa [isJson] using h
    simpa [same, asInt?] using Binary64.same_self hx
  | null => rfl
  | bool b => simp [same, asInt?]
  | int n => simp [same, asInt?]
  | text s => simp
  | bytes bs => cases h
  | date d => cases h
  | moment m => cases h

namespace Value

/-! ## Members -/

variable {es : List (Scalar × Value)} {name : String} {v : Value}

/-- What is found under a name stands there. -/
theorem mem_of_lookup (h : lookup (.text name) es = some v) : (.text name, v) ∈ es := by
  induction es with
  | nil => cases h
  | cons e es ih =>
    rw [lookup] at h
    split at h
    · next hkey =>
      obtain rfl := Option.some.inj h
      rw [← Scalar.same_text_iff.mp hkey]
      exact List.mem_cons_self ..
    · exact List.mem_cons_of_mem _ (ih h)

/-- Under another name is found what was found before. -/
theorem lookup_put_of_ne {other : String} (h : other ≠ name) (v : Value)
    (es : List (Scalar × Value)) :
    lookup (.text other) (put (.text name) v es) = lookup (.text other) es := by
  have hne : (Scalar.text name).same (.text other) = false := by
    rw [Scalar.same_text]
    exact beq_false_of_ne (Ne.symm h)
  induction es with
  | nil => simp only [put, lookup, hne, Bool.false_eq_true, if_false]
  | cons e es ih =>
    obtain ⟨k, w⟩ := e
    rw [put]
    split
    · next hkey =>
      obtain rfl := Scalar.same_text_iff.mp hkey
      simp only [lookup, hne, Bool.false_eq_true, if_false]
    · rw [lookup, lookup, ih]

/-- Setting a member to what it was changes nothing. -/
theorem put_of_lookup (h : lookup (.text name) es = some v) : put (.text name) v es = es := by
  induction es with
  | nil => cases h
  | cons e es ih =>
    rw [lookup] at h
    rw [put]
    split at h
    · next hkey =>
      obtain rfl := Option.some.inj h
      rw [if_pos hkey]
    · next hkey => rw [if_neg hkey, ih h]

/-- **All that setting a member can do**: it is added behind the others, or it replaces what was
found under its name. -/
theorem put_cases (name : String) (v : Value) (es : List (Scalar × Value)) :
    (lookup (.text name) es = none ∧ put (.text name) v es = es ++ [(.text name, v)]) ∨
      ∃ before old after, es = before ++ (.text name, old) :: after ∧
        lookup (.text name) es = some old ∧
        put (.text name) v es = before ++ (.text name, v) :: after := by
  induction es with
  | nil => exact .inl ⟨rfl, rfl⟩
  | cons e es ih =>
    obtain ⟨k, w⟩ := e
    by_cases hkey : k.same (.text name) = true
    · obtain rfl := Scalar.same_text_iff.mp hkey
      refine .inr ⟨[], w, es, rfl, ?_, ?_⟩
      · rw [lookup, if_pos hkey]
      · rw [put, if_pos hkey, List.nil_append]
    · rw [lookup, put, if_neg hkey, if_neg hkey]
      rcases ih with ⟨hnone, hput⟩ | ⟨before, old, after, rfl, hsome, hput⟩
      · exact .inl ⟨hnone, by rw [hput, List.cons_append]⟩
      · exact .inr ⟨(k, w) :: before, old, after, rfl, hsome, by rw [hput, List.cons_append]⟩

/-- Nothing but the member that is set is new. -/
theorem mem_put {e : Scalar × Value} (h : e ∈ put (.text name) v es) :
    e ∈ es ∨ e = (.text name, v) := by
  rcases put_cases name v es with ⟨_, hput⟩ | ⟨before, old, after, rfl, _, hput⟩
  · rw [hput, List.mem_append, List.mem_singleton] at h
    exact h
  · rw [hput, List.mem_append, List.mem_cons] at h
    rcases h with he | rfl | he
    · exact .inl (List.mem_append_left _ he)
    · exact .inr rfl
    · exact .inl (List.mem_append_right _ (List.mem_cons_of_mem _ he))

/-! ## Documents of JSON -/

/-- Entries with names for keys, no name standing twice. -/
structure AreMembers (es : List (Scalar × Value)) : Prop where
  names : ∀ e ∈ es, ∃ name, e.1 = .text name
  once : (es.map Prod.fst).Nodup

/-- Every member is found under its name. -/
theorem AreMembers.lookup_eq (h : AreMembers es) {e : Scalar × Value} (he : e ∈ es) :
    lookup e.1 es = some e.2 := by
  induction es with
  | nil => cases he
  | cons first es ih =>
    have hnodup := h.once
    rw [List.map_cons, List.nodup_cons] at hnodup
    rw [lookup]
    rcases List.mem_cons.mp he with rfl | he
    · obtain ⟨name, hname⟩ := h.names e (List.mem_cons_self ..)
      rw [if_pos (by rw [hname]; exact Scalar.same_text_iff.mpr rfl)]
    · obtain ⟨name, hname⟩ := h.names e (List.mem_cons_of_mem _ he)
      have hne : ¬ first.1.same e.1 = true := by
        rw [hname, Scalar.same_text_iff, ← hname]
        exact fun heq => hnodup.1 (heq ▸ List.mem_map_of_mem he)
      rw [if_neg hne]
      exact ih ⟨fun f hf => h.names f (List.mem_cons_of_mem _ hf), hnodup.2⟩ he

/-- Members of whom one is set are members. -/
theorem AreMembers.put (h : AreMembers es) (name : String) (v : Value) :
    AreMembers (Value.put (.text name) v es) where
  names e he := by
    rcases mem_put he with he | rfl
    · exact h.names e he
    · exact ⟨name, rfl⟩
  once := by
    rcases put_cases name v es with ⟨hnone, hput⟩ | ⟨before, old, after, rfl, _, hput⟩
    · -- a member with the new name would have been found
      have hnew : .text name ∉ es.map Prod.fst := by
        intro hmem
        obtain ⟨e, he, hkey⟩ := List.mem_map.mp hmem
        have hfound := h.lookup_eq he
        rw [hkey, hnone] at hfound
        cases hfound
      rw [hput, List.map_append]
      exact List.nodup_append.mpr ⟨h.once, by simp, fun k hk k' hk' heq => by simp_all⟩
    · rw [hput]
      simpa using h.once

/-- A document of JSON: there is no not-a-number in it, and its maps have different names for
keys. -/
inductive IsJson : Value → Prop
  | scalar (s : Scalar) (h : s.isJson = true) : IsJson (.scalar s)
  | list (items : List Value) (h : ∀ v ∈ items, IsJson v) : IsJson (.list items)
  | map (es : List (Scalar × Value)) (hmembers : AreMembers es) (h : ∀ e ∈ es, IsJson e.2) :
      IsJson (.map es)

/-- What a document of JSON has for members are documents of JSON. -/
theorem IsJson.lookup (h : IsJson (.map es)) (hv : Value.lookup (.text name) es = some v) :
    IsJson v := by
  cases h with
  | map _ _ hvalues => exact hvalues _ (mem_of_lookup hv)

theorem sameList_self {items : List Value} (h : ∀ v ∈ items, v.same v = true) :
    sameList items items = true := by
  induction items with
  | nil => rfl
  | cons v items ih =>
    rw [sameList, h v (List.mem_cons_self ..),
      ih fun w hw => h w (List.mem_cons_of_mem _ hw)]
    rfl

theorem sameEntries_of_subset {part : List (Scalar × Value)} (hmembers : AreMembers es)
    (hpart : part ⊆ es) (h : ∀ e ∈ es, e.2.same e.2 = true) : sameEntries part es = true := by
  induction part with
  | nil => rfl
  | cons e part ih =>
    have he := hpart (List.mem_cons_self ..)
    rw [sameEntries, hmembers.lookup_eq he,
      ih fun f hf => hpart (List.mem_cons_of_mem _ hf)]
    simp only [h e he, Bool.and_self]

/-- **A document of JSON is equal to itself by value.** -/
theorem IsJson.same_self (h : IsJson v) : v.same v = true := by
  induction h with
  | scalar s hs => exact Scalar.same_self hs
  | list items _ ih => exact sameList_self ih
  | map es hmembers _ ih =>
    rw [same, beq_self_eq_true, Bool.true_and]
    exact sameEntries_of_subset hmembers (List.Subset.refl _) ih

end Value

end AccessRules
