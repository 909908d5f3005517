import AccessRules.Proofs.Document.Paths
import AccessRules.Resource.MergePatch

/-!
# Merge patches that set one thing

**Program** — `MergePatch.create` makes the patch between two documents, `MergePatch.apply` carries a
patch out.

**Spec** — where a document differs from another in a text at the end of a path, the patch between
them is that text nested under the path (`create_setAt`), and empty if the text was there before
(`create_of_at?`).  Carried out, the nested text is set and nothing else is touched (`apply_nest`).

**Crux** — nothing is removed on the way, and a member that stays as it is leaves no trace in the
patch, because a document of JSON is equal to itself (`change?_self`).  So `create` has at most what
the member that was set contributes (`create_put`), and the rest is induction on the path.
-/

namespace AccessRules.MergePatch

open Value

/-! ## Entries of a patch -/

/-- What one entry of the wanted document adds to the patch. -/
def contribution (before : Entries) (e : Scalar × Value) : Entries :=
  ((match Value.lookup e.1 before with
    | none => some e.2
    | some old => change? old e.2).map fun c => (e.1, c)).toList

/-- A patch holds what each of the entries adds to it. -/
theorem changes_eq (before after : Entries) :
    changes before after = after.flatMap (contribution before) := by
  induction after with
  | nil => rfl
  | cons e after ih =>
    obtain ⟨key, v⟩ := e
    simp only [changes, List.flatMap_cons, ← ih, contribution]
    cases Value.lookup key before with
    | none => rfl
    | some old =>
      dsimp only
      cases change? old v <;> rfl

theorem removals_of_names {before after : Entries}
    (h : ∀ e ∈ before, (Value.lookup e.1 after).isSome = true) : removals before after = [] := by
  rw [removals, List.map_eq_nil_iff, List.filter_eq_nil_iff]
  intro e he hnone
  have hfound := h e he
  rw [Option.isNone_iff_eq_none.mp hnone] at hfound
  cases hfound

/-! ## What stays as it is -/

/-- Entries that stay as they are leave no trace. -/
theorem changes_of_subset {es part : Entries} (hmembers : AreMembers es) (hpart : part ⊆ es)
    (h : ∀ e ∈ es, change? e.2 e.2 = none) : changes es part = [] := by
  rw [changes_eq, List.flatMap_eq_nil_iff]
  intro e he
  simp [contribution, hmembers.lookup_eq (hpart he), h e (hpart he)]

/-- **A document of JSON is not changed into itself.** -/
theorem change?_self {v : Value} (h : IsJson v) : change? v v = none := by
  induction h with
  | scalar s hs =>
    have hsame : (Value.scalar s).same (.scalar s) = true := (IsJson.scalar s hs).same_self
    simp only [change?, hsame, if_true]
  | list items hitems _ =>
    have hsame : (Value.list items).same (.list items) = true :=
      (IsJson.list items hitems).same_self
    simp only [change?, hsame, if_true]
  | map es hmembers _ ih =>
    have hnone : removals es es = [] :=
      removals_of_names fun e he => by rw [hmembers.lookup_eq he]; rfl
    simp only [change?, hnone, changes_of_subset hmembers (List.Subset.refl _) ih,
      List.append_nil, List.isEmpty_nil, if_true]

/-! ## One member that is set -/

/-- A name that was there is there when a member is set. -/
theorem isSome_lookup_put {es : Entries} (hmembers : AreMembers es) (name : String) (v : Value)
    {e : Scalar × Value} (he : e ∈ es) :
    (Value.lookup e.1 (Value.put (.text name) v es)).isSome = true := by
  obtain ⟨other, hother⟩ := hmembers.names e he
  by_cases hname : other = name
  · rw [hother, hname, lookup_put_self _ _ _ (by simp)]
    rfl
  · rw [hother, lookup_put_of_ne hname, ← hother, hmembers.lookup_eq he]
    rfl

/-- **The patch for one member that is set** holds what that member adds to it. -/
theorem create_put {es : Entries} (h : IsJson (.map es)) (name : String) (v : Value) :
    create es (Value.put (.text name) v es) = contribution es (.text name, v) := by
  cases h with
  | map _ hmembers hvalues =>
  -- the members around the one that is set are those from before
  have hself : ∀ part, part ⊆ es → part.flatMap (contribution es) = [] := fun part hpart => by
    rw [← changes_eq]
    exact changes_of_subset hmembers hpart fun e he => change?_self (hvalues e he)
  have hkept : removals es (Value.put (.text name) v es) = [] :=
    removals_of_names fun e he => isSome_lookup_put hmembers name v he
  rw [create, hkept, List.nil_append, changes_eq]
  rcases put_cases name v es with ⟨_, hput⟩ | ⟨before, old, after, hsplit, _, hput⟩
  · rw [hput, List.flatMap_append, hself es (List.Subset.refl _), List.flatMap_singleton,
      List.nil_append]
  · have hbefore : before ⊆ es := by
      rw [hsplit]
      exact List.subset_append_left ..
    have hafter : after ⊆ es := by
      rw [hsplit]
      exact List.Subset.trans (List.subset_cons_self ..) (List.subset_append_right ..)
    rw [hput, List.flatMap_append, List.flatMap_cons, hself before hbefore, hself after hafter,
      List.nil_append, List.append_nil]

/-! ## A text at the end of a path -/

/-- Only a text is the text it is. -/
theorem same_text_iff {v : Value} {s : String} : v.same (.text s) = true ↔ v = .text s := by
  cases v with
  | scalar k => simp [same, Scalar.same_text_iff]
  | list items => simp [same]
  | map es => simp [same]

/-- A map is changed into another by the patch between them. -/
theorem change?_map (es es' : Entries) :
    change? (.map es) (.map es') =
      if (create es es').isEmpty then none else some (.map (create es es')) := by
  simp only [change?, create]
  rfl

/-- Anything but a map is changed into a map as a whole. -/
theorem change?_of_not_map {v : Value} (h : v.entries? = none) (es : Entries) :
    change? v (.map es) = some (.map es) := by
  cases v with
  | scalar s => simp only [change?]
  | list items => simp only [change?]
  | map es' => cases h

/-- **The change that sets a text at the end of a path** where it does not stand is that text under
that path and nothing else. -/
theorem change?_setAt {v : Value} (h : IsJson v) {path : List String} {s : String}
    (hnew : v.at? path ≠ some (.text s)) :
    change? v (setAt path (.text s) v) = some (nest path (.text s)) := by
  induction path generalizing v with
  | nil =>
    have hsame : v.same (.text s) = false :=
      Bool.eq_false_iff.mpr fun hsame => hnew (congrArg some (same_text_iff.mp hsame))
    simp only [setAt, change?, hsame, Bool.false_eq_true, if_false, nest]
  | cons name path ih =>
    cases hentries : v.entries? with
    | none =>
      have hmember : v.get? name = none := by rw [get?, hentries]; rfl
      rw [setAt, change?_of_not_map hentries, hentries, hmember]
      simp only [Option.getD_none, setAt_null]
      rfl
    | some es =>
      obtain rfl : v = .map es := by
        cases v with
        | scalar s => cases hentries
        | list items => cases hentries
        | map es' => rw [← Option.some.inj hentries]
      have hget : (Value.map es).get? name = Value.lookup (.text name) es := rfl
      rw [at?, hget] at hnew
      -- what the member adds to the patch is what has changed in it
      have hentry : contribution es (.text name, setAt path (.text s)
          (((Value.map es).get? name).getD .null)) = [(.text name, nest path (.text s))] := by
        rw [contribution, hget]
        cases hlookup : Value.lookup (.text name) es with
        | none => simp [setAt_null]
        | some old =>
          rw [hlookup] at hnew
          simp [ih (h.lookup hlookup) hnew]
      rw [setAt, hentries, Option.getD_some, change?_map, create_put h, hentry]
      rfl

/-- The patch that sets a text where it does not stand. -/
theorem create_setAt {es es' : Entries} (h : IsJson (.map es)) {path : List String} {s : String}
    (hset : setAt path (.text s) (.map es) = .map es')
    (hnew : (Value.map es).at? path ≠ some (.text s)) :
    Value.map (create es es') = nest path (.text s) := by
  have hchange := change?_setAt h hnew
  rw [hset, change?_map] at hchange
  split at hchange
  · cases hchange
  · exact Option.some.inj hchange

/-- The patch that sets a text where it stands already. -/
theorem create_of_at? {es es' : Entries} (h : IsJson (.map es)) {path : List String} {s : String}
    (hset : setAt path (.text s) (.map es) = .map es')
    (hold : (Value.map es).at? path = some (.text s)) : create es es' = [] := by
  rw [setAt_of_at? hold] at hset
  obtain rfl := Value.map.inj hset
  have hchange := change?_self h
  rw [change?_map] at hchange
  split at hchange
  · next hempty => exact List.isEmpty_iff.mp hempty
  · cases hchange

/-! ## Patches carried out -/

/-- The empty patch leaves a map as it is. -/
theorem apply_empty (es : Entries) : apply (.map es) (.map []) = .map es := by
  simp only [apply, applyEntries, entries?, Option.getD_some]

/-- **A text nested under a path is set there.** -/
theorem apply_nest (v : Value) (path : List String) (s : String) :
    apply v (nest path (.text s)) = setAt path (.text s) v := by
  induction path generalizing v with
  | nil => simp only [nest, apply, setAt]
  | cons name path ih =>
    have hkeep : isRemoval (nest path (.text s)) = false := by
      cases path <;> rfl
    have hmember : Value.lookup (.text name) (v.entries?.getD []) = v.get? name := by
      cases v <;> rfl
    simp only [nest, apply, applyEntries, hkeep, Bool.false_eq_true, if_false, hmember, ih, setAt]

end AccessRules.MergePatch
