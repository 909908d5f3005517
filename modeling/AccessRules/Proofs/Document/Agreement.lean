import Mathlib.Data.List.Perm.Subperm
import AccessRules.Proofs.Document.Members

/-!
# Maps that agree name by name

**Program** — `Value.same` compares documents by value; `Value.lookup` finds the member of a map and
`Value.erase` takes it out.

**Spec** — two maps are equal by value exactly if under every name both have members that are equal,
or neither has one (`same_map_iff`).  So maps that are made by adding and taking out members can be
compared by what is found in them (`lookup_append`, `lookup_erase_self`, `lookup_erase_of_ne`).

**Crux** — the comparison goes through the entries of the left map only, and counts those of the
right one.  As no name stands twice, a map that has every name of another one and no more entries
has no further names.
-/

namespace AccessRules

/-- By value, null is equal to null only. -/
theorem Scalar.same_null_iff {s : Scalar} : s.same .null = true ↔ s = .null := by
  cases s <;> simp [same, asInt?]

namespace Value

variable {es fs part : List (Scalar × Value)} {name : String} {v w : Value}
  {left right : Option Value}

theorem same_null_iff : v.same .null = true ↔ v = .null := by
  cases v with
  | scalar s => simp [same, Scalar.same_null_iff]
  | list items => simp [same]
  | map es => simp [same]

/-! ## Names -/

theorem AreMembers.nil : AreMembers [] := ⟨by simp, List.nodup_nil⟩

theorem IsJson.members (h : IsJson (.map es)) : AreMembers es := by
  cases h with
  | map _ hmembers _ => exact hmembers

/-- Some of the members of a map are members, too. -/
theorem AreMembers.sublist (h : AreMembers es) (hpart : part.Sublist es) : AreMembers part where
  names e he := h.names e (hpart.subset he)
  once := (hpart.map Prod.fst).nodup h.once

/-- A name stands among the keys exactly if something is found under it. -/
theorem AreMembers.mem_keys_iff (h : AreMembers es) :
    .text name ∈ es.map Prod.fst ↔ ∃ v, lookup (.text name) es = some v := by
  constructor
  · intro hmem
    obtain ⟨e, he, hkey⟩ := List.mem_map.mp hmem
    exact ⟨e.2, hkey ▸ h.lookup_eq he⟩
  · rintro ⟨v, hv⟩
    exact List.mem_map.mpr ⟨_, mem_of_lookup hv, rfl⟩

/-- The first of some members has a name, under which nothing is found behind it. -/
theorem AreMembers.of_cons {e : Scalar × Value} (h : AreMembers (e :: es)) :
    ∃ name v, e = (.text name, v) ∧ lookup (.text name) es = none ∧ AreMembers es := by
  obtain ⟨name, hname⟩ := h.names e (List.mem_cons_self ..)
  have htail := h.sublist (List.sublist_cons_self ..)
  have honce := h.once
  rw [List.map_cons, List.nodup_cons, hname, htail.mem_keys_iff] at honce
  refine ⟨name, e.2, Prod.ext hname rfl, ?_, htail⟩
  cases hfound : lookup (.text name) es with
  | none => rfl
  | some w => exact absurd ⟨w, hfound⟩ honce.1

/-- There are no members exactly if nothing is found under any name. -/
theorem AreMembers.eq_nil_iff (h : AreMembers es) :
    es = [] ↔ ∀ name, lookup (.text name) es = none := by
  constructor
  · rintro rfl name
    rfl
  · intro hnone
    cases es with
    | nil => rfl
    | cons e es =>
      -- the first member would be found under its name
      obtain ⟨name, hname⟩ := h.names e (List.mem_cons_self ..)
      have hfound := h.lookup_eq (List.mem_cons_self ..)
      rw [hname, hnone name] at hfound
      cases hfound

/-- A map that has a member under each name of another one has its keys. -/
theorem AreMembers.keys_subset (hes : AreMembers es) (hfs : AreMembers fs)
    (h : ∀ name v, lookup (.text name) es = some v → ∃ w, lookup (.text name) fs = some w) :
    es.map Prod.fst ⊆ fs.map Prod.fst := by
  intro k hk
  obtain ⟨e, he, rfl⟩ := List.mem_map.mp hk
  obtain ⟨name, hname⟩ := hes.names e he
  rw [hname] at hk ⊢
  obtain ⟨v, hv⟩ := hes.mem_keys_iff.mp hk
  exact hfs.mem_keys_iff.mpr (h name v hv)

/-! ## Adding and taking out -/

theorem lookup_cons_self : lookup (.text name) ((.text name, v) :: es) = some v := by
  rw [lookup, if_pos (Scalar.same_text_iff.mpr rfl)]

theorem lookup_cons_of_ne {other : String} (h : other ≠ name) :
    lookup (.text other) ((.text name, v) :: es) = lookup (.text other) es := by
  rw [lookup, if_neg]
  rw [Scalar.same_text_iff]
  exact fun heq => h (Scalar.text.inj heq).symm

/-- In maps put one behind the other, what the first one has is found first. -/
theorem lookup_append (key : Scalar) (es fs : List (Scalar × Value)) :
    lookup key (es ++ fs) = (lookup key es).or (lookup key fs) := by
  induction es with
  | nil => rfl
  | cons e es ih =>
    rw [List.cons_append, lookup, lookup]
    split
    · rfl
    · exact ih

theorem lookup_erase_self (name : String) (es : List (Scalar × Value)) :
    lookup (.text name) (erase (.text name) es) = none := by
  cases hfound : lookup (.text name) (erase (.text name) es) with
  | none => rfl
  | some v =>
    have hkept := (List.mem_filter.mp (mem_of_lookup hfound)).2
    simp at hkept

theorem lookup_erase_of_ne {other : String} (h : other ≠ name) (es : List (Scalar × Value)) :
    lookup (.text other) (erase (.text name) es) = lookup (.text other) es := by
  induction es with
  | nil => rfl
  | cons e es ih =>
    obtain ⟨k, w⟩ := e
    rw [erase, List.filter_cons, ← erase]
    by_cases hkey : k.same (.text name) = true
    · -- the member that is left out has another name
      obtain rfl := Scalar.same_text_iff.mp hkey
      rw [if_neg (by simp [hkey]), ih, lookup_cons_of_ne h]
    · rw [if_pos (by simp [hkey]), lookup, lookup, ih]

/-! ## Comparing -/

/-- Every entry of the left map has its equal in the right one. -/
theorem sameEntries_iff :
    sameEntries es fs = true ↔ ∀ e ∈ es, ∃ w, lookup e.1 fs = some w ∧ e.2.same w = true := by
  induction es with
  | nil => simp [sameEntries]
  | cons e es ih =>
    rw [sameEntries, Bool.and_eq_true, ih, List.forall_mem_cons]
    cases lookup e.1 fs <;> simp

/-- Two members are equal by value, or neither is there. -/
def Agree (left right : Option Value) : Prop := Option.Rel (fun v w => v.same w = true) left right

@[simp] theorem agree_none : Agree none none := .none

@[simp] theorem not_agree_none_some : ¬ Agree none (some w) := nofun

@[simp] theorem not_agree_some_none : ¬ Agree (some v) none := nofun

@[simp] theorem agree_some_iff : Agree (some v) (some w) ↔ v.same w = true := by
  constructor
  · rintro ⟨h⟩
    assumption
  · intro h
    exact .some h

/-- Where members agree, there is one on the right if there is one on the left. -/
theorem Agree.exists_right (h : Agree (some v) right) : ∃ w, right = some w ∧ v.same w = true := by
  cases right with
  | none => exact absurd h not_agree_some_none
  | some w => exact ⟨w, rfl, agree_some_iff.mp h⟩

theorem Agree.exists_left (h : Agree left (some w)) : ∃ v, left = some v ∧ v.same w = true := by
  cases left with
  | none => exact absurd h not_agree_none_some
  | some v => exact ⟨v, rfl, agree_some_iff.mp h⟩

/-- **Maps are equal by value exactly if they agree under every name.** -/
theorem same_map_iff (hes : AreMembers es) (hfs : AreMembers fs) :
    (Value.map es).same (.map fs) = true ↔
      ∀ name, Agree (lookup (.text name) es) (lookup (.text name) fs) := by
  rw [same, Bool.and_eq_true, beq_iff_eq, sameEntries_iff]
  constructor
  · rintro ⟨hlength, hall⟩ name
    have hsub : es.map Prod.fst ⊆ fs.map Prod.fst := by
      refine hes.keys_subset hfs fun name v hv => ?_
      obtain ⟨w, hw, _⟩ := hall _ (mem_of_lookup hv)
      exact ⟨w, hw⟩
    -- there is no room for further names on the right
    have hperm : (es.map Prod.fst).Perm (fs.map Prod.fst) :=
      (List.subperm_of_subset hes.once hsub).perm_of_length_le (by simp [hlength])
    cases hleft : lookup (.text name) es with
    | some v =>
      obtain ⟨w, hw, hsame⟩ := hall _ (mem_of_lookup hleft)
      rw [hw]
      exact agree_some_iff.mpr hsame
    | none =>
      cases hright : lookup (.text name) fs with
      | none => exact agree_none
      | some w =>
        have hkey := hperm.mem_iff.mpr (hfs.mem_keys_iff.mpr ⟨w, hright⟩)
        obtain ⟨v, hv⟩ := hes.mem_keys_iff.mp hkey
        rw [hleft] at hv
        cases hv
  · intro hagree
    have hright : ∀ name v, lookup (.text name) es = some v →
        ∃ w, lookup (.text name) fs = some w ∧ v.same w = true :=
      fun name v hv => (hv ▸ hagree name).exists_right
    have hleft : ∀ name w, lookup (.text name) fs = some w →
        ∃ v, lookup (.text name) es = some v ∧ v.same w = true :=
      fun name w hw => (hw ▸ hagree name).exists_left
    have hsub := hes.keys_subset hfs fun name v hv => (hright name v hv).imp fun _ h => h.1
    have hsub' := hfs.keys_subset hes fun name w hw => (hleft name w hw).imp fun _ h => h.1
    have hperm : (es.map Prod.fst).Perm (fs.map Prod.fst) :=
      (List.subperm_of_subset hes.once hsub).antisymm (List.subperm_of_subset hfs.once hsub')
    refine ⟨by simpa using hperm.length_eq, fun e he => ?_⟩
    obtain ⟨name, hname⟩ := hes.names e he
    have hfound := hes.lookup_eq he
    rw [hname] at hfound ⊢
    exact hright name e.2 hfound

end Value

end AccessRules
