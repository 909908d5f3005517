import AccessRules.Proofs.Document.Agreement
import AccessRules.Proofs.Resource.MergePatch

/-!
# What merge patches lead to

**Program** — `MergePatch.create` makes the patch between two documents, `MergePatch.apply` carries a
patch out.

**Spec** — the patch between two documents of JSON leads from the first to the second, up to equality
by value, exactly if every null that the second has on a path through maps stood there in the first
one already (`same_apply_create_iff`).

**Crux** — both the patch and what it leads to can be read off name by name: under a name the patch
holds the `difference` of what stands there before and after (`lookup_create`), and what comes of it
is `merged` from what stands there and what the patch holds (`lookup_applyEntries`).  So the claim
about two maps is the same claim about each of their members, and one induction on the wanted
document proves it.  A null for a member that is new or changed is a removal, and this is all that
can go wrong.
-/

namespace AccessRules.MergePatch

open Value

variable {before after target patch : Entries} {name : String}

theorem isRemoval_iff {v : Value} : isRemoval v = true ↔ v = .null := by
  cases v with
  | scalar s => cases s <;> simp [isRemoval]
  | list items => simp [isRemoval]
  | map es => simp [isRemoval]

/-! ## What a patch holds under a name -/

/-- What the patch holds for a member, from what stands there before and after. -/
def difference : Option Value → Option Value → Option Value
  | none, after => after
  | some _, none => some .null
  | some before, some after => change? before after

/-- Entries that are gone are removed, and no others. -/
theorem lookup_removals (before after : Entries) (name : String) :
    lookup (.text name) (removals before after) =
      if (lookup (.text name) after).isNone then
        (lookup (.text name) before).map fun _ => .null
      else none := by
  induction before with
  | nil => simp [removals, lookup]
  | cons e before ih =>
    obtain ⟨k, v⟩ := e
    rw [removals] at ih ⊢
    rw [List.filter_cons]
    by_cases hkey : k.same (.text name) = true
    · obtain rfl := Scalar.same_text_iff.mp hkey
      by_cases hgone : (lookup (.text name) after).isNone = true
      · rw [if_pos hgone, if_pos hgone, List.map_cons, lookup_cons_self, lookup_cons_self]
        rfl
      · rw [if_neg hgone, if_neg hgone, ih, if_neg hgone]
    · -- an entry under another name is passed over, whether it is gone or not
      rw [lookup, if_neg hkey, ← ih]
      split
      · rw [List.map_cons, lookup, if_neg hkey]
      · rfl

theorem contribution_eq (before : Entries) (name : String) (v : Value) :
    contribution before (.text name, v) =
      ((difference (lookup (.text name) before) (some v)).map fun c => (.text name, c)).toList := by
  rw [contribution]
  cases lookup (.text name) before <;> rfl

theorem lookup_contribution_self (before : Entries) (name : String) (v : Value) :
    lookup (.text name) (contribution before (.text name, v)) =
      difference (lookup (.text name) before) (some v) := by
  rw [contribution_eq]
  cases difference (lookup (.text name) before) (some v) with
  | none => rfl
  | some change => exact lookup_cons_self

theorem lookup_contribution_of_ne {other : String} (h : other ≠ name) (before : Entries)
    (v : Value) : lookup (.text other) (contribution before (.text name, v)) = none := by
  rw [contribution_eq]
  cases difference (lookup (.text name) before) (some v) with
  | none => rfl
  | some change => exact lookup_cons_of_ne h

/-- Under a name stands what has changed there. -/
theorem lookup_changes (before : Entries) (hafter : AreMembers after) (name : String) :
    lookup (.text name) (changes before after) =
      (lookup (.text name) after).bind fun v =>
        difference (lookup (.text name) before) (some v) := by
  induction after with
  | nil => rfl
  | cons e after ih =>
    obtain ⟨other, v, rfl, hbehind, htail⟩ := hafter.of_cons
    rw [changes_eq, List.flatMap_cons, ← changes_eq, lookup_append, ih htail]
    by_cases hname : name = other
    · -- the entries behind this one have other names
      obtain rfl := hname
      rw [lookup_contribution_self, hbehind, Option.bind_none, Option.or_none, lookup_cons_self,
        Option.bind_some]
    · rw [lookup_contribution_of_ne hname, Option.none_or, lookup_cons_of_ne hname]

/-- **What a patch holds under a name** is the difference of what stands there. -/
theorem lookup_create (before : Entries) (hafter : AreMembers after) (name : String) :
    lookup (.text name) (create before after) =
      difference (lookup (.text name) before) (lookup (.text name) after) := by
  rw [create, lookup_append, lookup_removals, lookup_changes before hafter]
  cases lookup (.text name) after <;> cases lookup (.text name) before <;> rfl

theorem keys_changes_sublist (before after : Entries) :
    ((changes before after).map Prod.fst).Sublist (after.map Prod.fst) := by
  induction after with
  | nil => exact List.Sublist.refl _
  | cons e after ih =>
    obtain ⟨k, v⟩ := e
    rw [changes]
    split
    · exact ih.cons _
    · exact ih.cons_cons _

/-- No name stands twice in a patch: what is removed is not there afterwards. -/
theorem areMembers_create (hbefore : AreMembers before) (hafter : AreMembers after) :
    AreMembers (create before after) where
  names e he := by
    rcases List.mem_append.mp he with he | he
    · obtain ⟨old, hold, rfl⟩ := List.mem_map.mp he
      exact hbefore.names old (List.mem_filter.mp hold).1
    · have hkey := (keys_changes_sublist before after).subset (List.mem_map_of_mem he)
      obtain ⟨new, hnew, heq⟩ := List.mem_map.mp hkey
      rw [← heq]
      exact hafter.names new hnew
  once := by
    have hgone : (removals before after).map Prod.fst =
        (before.filter fun e => (lookup e.1 after).isNone).map Prod.fst := by
      rw [removals, List.map_map]
      rfl
    rw [create, List.map_append, hgone, List.nodup_append]
    refine ⟨(List.filter_sublist.map Prod.fst).nodup hbefore.once,
      (keys_changes_sublist before after).nodup hafter.once, fun k hk k' hk' heq => ?_⟩
    obtain ⟨old, hold, rfl⟩ := List.mem_map.mp hk
    obtain ⟨hmem, hnone⟩ := List.mem_filter.mp hold
    obtain ⟨name, hname⟩ := hbefore.names old hmem
    have hkey := (keys_changes_sublist before after).subset hk'
    rw [← heq, hname] at hkey
    obtain ⟨v, hv⟩ := hafter.mem_keys_iff.mp hkey
    rw [hname, hv] at hnone
    cases hnone

/-! ## What comes of a member -/

/-- What comes of a member, from what stands there and what the patch holds for it. -/
def merged (before : Option Value) : Option Value → Option Value
  | none => before
  | some patch => if isRemoval patch then none else some (apply (before.getD .null) patch)

theorem areMembers_erase (h : AreMembers target) (name : String) :
    AreMembers (erase (.text name) target) := h.sublist List.filter_sublist

/-- **What a map holds under a name after a patch** is merged from the two. -/
theorem lookup_applyEntries (target : Entries) (hpatch : AreMembers patch) (name : String) :
    lookup (.text name) (applyEntries target patch) =
      merged (lookup (.text name) target) (lookup (.text name) patch) := by
  induction patch generalizing target with
  | nil => rfl
  | cons e patch ih =>
    obtain ⟨other, p, rfl, hbehind, htail⟩ := hpatch.of_cons
    have hrest := fun target => ih target htail
    rw [applyEntries]
    by_cases hname : name = other
    · -- no later entry of the patch has this name
      obtain rfl := hname
      rw [lookup_cons_self]
      split
      · next hremoval =>
        rw [hrest, lookup_erase_self, hbehind, merged, merged, if_pos hremoval]
      · next hkept =>
        dsimp only
        rw [hrest, lookup_put_self _ _ _ (Scalar.same_text_iff.mpr rfl), hbehind, merged, merged,
          if_neg hkept]
    · rw [lookup_cons_of_ne hname]
      split
      · rw [hrest, lookup_erase_of_ne hname]
      · dsimp only
        rw [hrest, lookup_put_of_ne hname]

theorem areMembers_applyEntries (htarget : AreMembers target) (hpatch : AreMembers patch) :
    AreMembers (applyEntries target patch) := by
  induction patch generalizing target with
  | nil => exact htarget
  | cons e patch ih =>
    obtain ⟨name, p, rfl, _, htail⟩ := hpatch.of_cons
    rw [applyEntries]
    split
    · exact ih (areMembers_erase htarget name) htail
    · exact ih (htarget.put name _) htail

/-! ## Nulls that are kept -/

/-- Every null on a path through maps was there before. -/
def KeepsNulls (before : Option Value) (after : Value) : Prop :=
  ∀ path, after.at? path = some .null → before.bind (at? path) = some .null

theorem keepsNulls_scalar {before : Option Value} {s : Scalar} :
    KeepsNulls before (.scalar s) ↔ (s = .null → before = some .null) := by
  have hbefore : before.bind (at? []) = before := by cases before <;> rfl
  constructor
  · rintro h rfl
    exact hbefore ▸ h [] rfl
  · intro h path hpath
    cases path with
    | nil =>
      rw [hbefore]
      exact h (Value.scalar.inj (Option.some.inj hpath))
    | cons name path => cases hpath

theorem keepsNulls_list {before : Option Value} {items : List Value} :
    KeepsNulls before (.list items) := by
  intro path hpath
  cases path <;> cases hpath

/-- A map keeps nulls exactly if each of its members does. -/
theorem keepsNulls_map {before : Option Value} {es : Entries} :
    KeepsNulls before (.map es) ↔ ∀ name v, lookup (.text name) es = some v →
      KeepsNulls (before.bind (·.get? name)) v := by
  have hstep : ∀ name path, before.bind (at? (name :: path)) =
      (before.bind (·.get? name)).bind (at? path) := by
    intro name path
    cases before <;> rfl
  constructor
  · intro h name v hv path hpath
    rw [← hstep]
    apply h
    rw [at?, get?_map, hv]
    exact hpath
  · intro h path hpath
    cases path with
    | nil => cases hpath
    | cons name path =>
      rw [at?, get?_map] at hpath
      obtain ⟨v, hv, hrest⟩ := Option.bind_eq_some_iff.mp hpath
      rw [hstep]
      exact h name v hv path hrest

/-! ## Where a patch leads to -/

/-- The entries of a member, none if it is missing or not a map. -/
def entriesOf (before : Option Value) : Entries := (before.bind entries?).getD []

theorem lookup_entriesOf (before : Option Value) (name : String) :
    lookup (.text name) (entriesOf before) = before.bind (·.get? name) := by
  cases before with
  | none => rfl
  | some v => cases v <;> rfl

theorem areMembers_entriesOf {before : Option Value} (h : ∀ v ∈ before, IsJson v) :
    AreMembers (entriesOf before) := by
  cases before with
  | none => exact .nil
  | some v =>
    cases h v rfl with
    | scalar s hs => exact .nil
    | list items hitems => exact .nil
    | map es hmembers hvalues => exact hmembers

/-- From nothing a map is made by itself. -/
theorem create_nil (after : Entries) : create [] after = after := by
  rw [create, changes_eq]
  show after.flatMap (contribution []) = after
  induction after with
  | nil => rfl
  | cons e after ih =>
    rw [List.flatMap_cons, ih]
    rfl

/-- **A member that is to be a map** is merged entry by entry, from nothing if it was no map. -/
theorem merged_difference_map (before : Option Value) (es : Entries) :
    merged before (difference before (some (.map es))) =
      some (.map (applyEntries (entriesOf before) (create (entriesOf before) es))) := by
  have hmap : isRemoval (.map es) = false := rfl
  cases before with
  | none =>
    rw [difference, merged, hmap, if_neg Bool.false_ne_true]
    show some (apply .null (.map es)) = some (.map (applyEntries [] (create [] es)))
    rw [create_nil, apply]
    rfl
  | some v =>
    rw [difference]
    cases hentries : v.entries? with
    | none =>
      have hnone : entriesOf (some v) = [] := by simp [entriesOf, hentries]
      rw [change?_of_not_map hentries, merged, hmap, if_neg Bool.false_ne_true, hnone, create_nil,
        Option.getD_some, apply, hentries]
      rfl
    | some bs =>
      obtain rfl : v = .map bs := by
        cases v with
        | scalar s => cases hentries
        | list items => cases hentries
        | map es' => rw [← Option.some.inj hentries]
      have hsome : entriesOf (some (.map bs)) = bs := rfl
      rw [change?_map, hsome]
      split
      · next hempty =>
        rw [List.isEmpty_iff.mp hempty]
        rfl
      · show some (apply (.map bs) (.map (create bs es))) = _
        rw [apply]
        rfl

/-- **A member that is to be anything else** stays as it is if that is what it is by value;
otherwise it is replaced as a whole, or removed if it is to be null. -/
theorem merged_difference_cases (before : Option Value) (after : Value)
    (h : after.entries? = none) :
    (∃ v, before = some v ∧ v.same after = true ∧
      merged before (difference before (some after)) = some v) ∨
    ((∀ v, before = some v → ¬ v.same after = true) ∧
      merged before (difference before (some after)) =
        if isRemoval after then none else some after) := by
  have happly : ∀ v, apply v after = after := by
    intro v
    cases after with
    | scalar s => simp only [apply]
    | list items => simp only [apply]
    | map es => cases h
  cases before with
  | none =>
    refine .inr ⟨by rintro v ⟨⟩, ?_⟩
    rw [difference, merged, happly]
  | some v =>
    have hchange : change? v after = if v.same after then none else some after := by
      cases after with
      | scalar s => simp only [change?]
      | list items => simp only [change?]
      | map es => cases h
    rw [difference, hchange]
    by_cases hsame : v.same after = true
    · refine .inl ⟨v, rfl, hsame, ?_⟩
      rw [if_pos hsame]
      rfl
    · refine .inr ⟨?_, ?_⟩
      · rintro w ⟨⟩
        exact hsame
      · rw [if_neg hsame, merged, happly]

/-- **The patch for a member leads to what is wanted exactly if it keeps nulls.** -/
theorem agree_merged_iff {after : Value} (hafter : IsJson after) {before : Option Value}
    (hbefore : ∀ v ∈ before, IsJson v) :
    Agree (merged before (difference before (some after))) (some after) ↔
      KeepsNulls before after := by
  induction hafter generalizing before with
  | scalar s hs =>
    rw [keepsNulls_scalar]
    rcases merged_difference_cases before (.scalar s) rfl with
      ⟨v, rfl, hsame, hmerged⟩ | ⟨hdiffers, hmerged⟩
    · rw [hmerged, agree_some_iff, iff_true_left hsame]
      rintro rfl
      rw [same_null_iff.mp hsame]
    · rw [hmerged]
      by_cases hnull : s = .null
      · -- a new null is taken for a removal
        obtain rfl := hnull
        rw [if_pos (isRemoval_iff.mpr rfl)]
        exact iff_of_false not_agree_none_some fun h => hdiffers .null (h rfl) rfl
      · have hkept : ¬ isRemoval (.scalar s) = true := by
          rw [isRemoval_iff]
          exact fun h => hnull (Value.scalar.inj h)
        rw [if_neg hkept, agree_some_iff]
        exact iff_of_true (IsJson.scalar s hs).same_self fun h => absurd h hnull
  | list items hitems _ =>
    refine iff_of_true ?_ keepsNulls_list
    rcases merged_difference_cases before (.list items) rfl with
      ⟨v, rfl, hsame, hmerged⟩ | ⟨_, hmerged⟩
    · rw [hmerged, agree_some_iff]
      exact hsame
    · rw [hmerged, if_neg (by simp [isRemoval_iff]), agree_some_iff]
      exact (IsJson.list items hitems).same_self
  | map es hmembers hvalues ih =>
    have hentries := areMembers_entriesOf hbefore
    have hcreate := areMembers_create hentries hmembers
    rw [merged_difference_map, agree_some_iff,
      same_map_iff (areMembers_applyEntries hentries hcreate) hmembers, keepsNulls_map]
    refine forall_congr' fun name => ?_
    rw [lookup_applyEntries _ hcreate, lookup_create _ hmembers, lookup_entriesOf]
    have hmember : ∀ v ∈ before.bind (·.get? name), IsJson v := by
      intro v hv
      obtain ⟨w, hw, hget⟩ := Option.bind_eq_some_iff.mp hv
      obtain ⟨fs, rfl, hlookup⟩ := map_of_get? hget
      exact (hbefore _ hw).lookup hlookup
    cases hlookup : lookup (.text name) es with
    | none =>
      -- a member that is gone is removed, and one that never was is not made
      refine iff_of_true ?_ nofun
      cases before.bind (·.get? name) with
      | none => exact agree_none
      | some v => exact agree_none
    | some v =>
      rw [ih _ (mem_of_lookup hlookup) hmember]
      exact ⟨fun h w hw => Option.some.inj hw ▸ h, fun h => h v rfl⟩

/-- **The patch between two documents leads from the first to the second, up to equality by value,
exactly if every null that the second has on a path through maps stood there in the first.** -/
theorem same_apply_create_iff {original modified : Entries} (horiginal : IsJson (.map original))
    (hmodified : IsJson (.map modified)) :
    (apply (.map original) (.map (create original modified))).same (.map modified) = true ↔
      ∀ path, (Value.map modified).at? path = some .null →
        (Value.map original).at? path = some .null := by
  have hbefore : ∀ v ∈ some (Value.map original), IsJson v := by
    rintro v ⟨⟩
    exact horiginal
  have hagree := agree_merged_iff hmodified hbefore
  rw [merged_difference_map, agree_some_iff] at hagree
  rw [apply]
  exact hagree

/-- A document with a null of its own, a part and a list. -/
def threeMembers (part list : Value) : Entries :=
  [(.text "kept", .null), (.text "part", .map [(.text "member", part)]), (.text "list", list)]

theorem isJson_threeMembers {part list : Value} (hpart : IsJson part) (hlist : IsJson list) :
    IsJson (.map (threeMembers part list)) := by
  have hmap : IsJson (.map [(.text "member", part)]) := .map _ ⟨by simp, by simp⟩ (by simpa)
  refine .map _ ⟨by simp [threeMembers], by simp [threeMembers]⟩ ?_
  simpa [threeMembers] using ⟨IsJson.scalar .null rfl, hmap, hlist⟩

/-- A null in a list is put there, and a null that was there is kept; but a member that is to become
null is lost. -/
theorem same_apply_create_iff_null :
    IsJson (.map (threeMembers (.int 1) (.list []))) ∧
      (apply (.map (threeMembers (.int 1) (.list [])))
        (.map (create (threeMembers (.int 1) (.list [])) (threeMembers (.int 2) (.list [.null]))))).same
          (.map (threeMembers (.int 2) (.list [.null]))) = true ∧
      (apply (.map (threeMembers (.int 1) (.list [])))
        (.map (create (threeMembers (.int 1) (.list [])) (threeMembers .null (.list []))))).same
          (.map (threeMembers .null (.list []))) = false := by
  have hnull : IsJson .null := .scalar .null rfl
  have hempty : IsJson (.list []) := .list [] nofun
  have horiginal := isJson_threeMembers (.scalar (.int 1) rfl) hempty
  have hnulls : IsJson (.list [.null]) := .list _ (by simpa using hnull)
  have hmodified := isJson_threeMembers (.scalar (.int 2) rfl) hnulls
  refine ⟨horiginal, (same_apply_create_iff horiginal hmodified).mpr ?_,
    Bool.eq_false_iff.mpr fun hsame => ?_⟩
  · -- of the members only the first is null
    show KeepsNulls (some (.map (threeMembers (.int 1) (.list []))))
      (.map (threeMembers (.int 2) (.list [.null])))
    refine keepsNulls_map.mpr fun name v hv => ?_
    have hmem := mem_of_lookup hv
    simp only [threeMembers, List.mem_cons, List.not_mem_nil, or_false, Prod.mk.injEq,
      Scalar.text.injEq] at hmem
    rcases hmem with ⟨rfl, rfl⟩ | ⟨rfl, rfl⟩ | ⟨rfl, rfl⟩
    · exact keepsNulls_scalar.mpr fun _ => rfl
    · refine keepsNulls_map.mpr fun name v hv => ?_
      obtain ⟨_, rfl⟩ : _ ∧ v = .int 2 := by simpa using mem_of_lookup hv
      exact keepsNulls_scalar.mpr nofun
    · exact keepsNulls_list
  · have hold := (same_apply_create_iff horiginal (isJson_threeMembers hnull hempty)).mp hsame
      ["part", "member"] rfl
    cases hold

end AccessRules.MergePatch
