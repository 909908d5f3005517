import AccessRules.Proofs.Resource.PatchEffect

/-!
# The least patch

**Program** — `MergePatch.create` makes the patch between two documents.

**Spec** — the patch between two documents of JSON has an entry for each member in which they differ
and for no other, and this entry says just what differs (`create_isLeast`): a member that is gone is
null, a part that has changed is the patch between its two states, anything else is what is wanted.

**Crux** — a member leaves no trace in the patch exactly if it is equal by value before and after
(`change?_eq_none_iff`).  For two maps this is the same claim about their members, because a patch
is read name by name and so is equality of maps; one induction on the wanted document proves it.
-/

namespace AccessRules.MergePatch

open Value

variable {before after : Value} {original modified : Entries}

/-! ## What leaves no trace -/

/-- **A patch is empty exactly if nothing differs** in any member. -/
theorem create_eq_nil_iff (horiginal : AreMembers original) (hmodified : AreMembers modified) :
    create original modified = [] ↔
      ∀ name, difference (lookup (.text name) original) (lookup (.text name) modified) = none := by
  rw [(areMembers_create horiginal hmodified).eq_nil_iff]
  exact forall_congr' fun name => by rw [lookup_create original hmodified]

/-- What is wanted to be anything but a map differs from all that is not equal to it by value. -/
theorem change?_of_entries?_eq_none (h : after.entries? = none) (before : Value) :
    change? before after = if before.same after then none else some after := by
  cases after with
  | scalar s => simp only [change?]
  | list items => simp only [change?]
  | map es => cases h

/-- **A member leaves no trace in a patch exactly if it is equal by value before and after.** -/
theorem change?_eq_none_iff (hbefore : IsJson before) (hafter : IsJson after) :
    change? before after = none ↔ before.same after = true := by
  induction hafter generalizing before with
  | scalar s hs =>
    rw [change?_of_entries?_eq_none rfl]
    simp
  | list items hitems _ =>
    rw [change?_of_entries?_eq_none rfl]
    simp
  | map fs hfs hvalues ih =>
    cases hbefore with
    | scalar s hs => simp [change?_of_not_map (v := .scalar s) rfl, same]
    | list items hitems => simp [change?_of_not_map (v := .list items) rfl, same]
    | map es hes hold =>
      have hempty : change? (.map es) (.map fs) = none ↔ create es fs = [] := by
        rw [change?_map, ite_eq_left_iff, List.isEmpty_iff]
        simp
      rw [hempty, create_eq_nil_iff hes hfs, same_map_iff hes hfs]
      refine forall_congr' fun name => ?_
      cases hleft : lookup (.text name) es with
      | none => cases lookup (.text name) fs <;> simp [difference]
      | some v =>
        cases hright : lookup (.text name) fs with
        | none => simp [difference]
        | some w =>
          have hv : IsJson v := hold _ (mem_of_lookup hleft)
          rw [agree_some_iff]
          exact ih _ (mem_of_lookup hright) hv

/-- Under a name nothing differs exactly if the two members agree. -/
theorem difference_eq_none_iff {left right : Option Value} (hleft : ∀ v ∈ left, IsJson v)
    (hright : ∀ w ∈ right, IsJson w) : difference left right = none ↔ Agree left right := by
  cases left with
  | none => cases right <;> simp [difference]
  | some v =>
    cases right with
    | none => simp [difference]
    | some w =>
      rw [agree_some_iff]
      exact change?_eq_none_iff (hleft v rfl) (hright w rfl)

/-! ## The patch as a whole -/

/-- A patch that says what differs between two documents and nothing else. -/
structure IsLeast (original modified patch : Entries) : Prop where
  /-- its keys are names, none of which stands twice -/
  members : AreMembers patch
  /-- it is empty exactly if the documents are equal by value -/
  empty_iff : patch = [] ↔ (Value.map original).same (.map modified) = true
  /-- it has an entry exactly for the members that only one document has, or both with unequal
  values -/
  found_iff : ∀ name, (∃ v, lookup (.text name) patch = some v) ↔
    ¬ Agree (lookup (.text name) original) (lookup (.text name) modified)
  /-- a member that is gone is null -/
  gone : ∀ name v, lookup (.text name) original = some v → lookup (.text name) modified = none →
    lookup (.text name) patch = some .null
  /-- a map that has become another map is the patch between the two, which is not empty -/
  nested : ∀ name es fs, lookup (.text name) original = some (.map es) →
    lookup (.text name) modified = some (.map fs) → ¬ (Value.map es).same (.map fs) = true →
    lookup (.text name) patch = some (.map (create es fs)) ∧ create es fs ≠ []
  /-- any other member that is new or has changed is what is wanted as a whole -/
  whole : ∀ name w, lookup (.text name) modified = some w →
    ¬ Agree (lookup (.text name) original) (some w) →
    (∀ es fs, lookup (.text name) original = some (.map es) → w ≠ .map fs) →
    lookup (.text name) patch = some w

/-- A value that has changed is there as a whole, unless it was a map and still is one. -/
theorem change?_of_not_maps (hdiffers : ¬ before.same after = true)
    (hmaps : ∀ es fs, before = .map es → after ≠ .map fs) : change? before after = some after := by
  cases hafter : after.entries? with
  | none => rw [change?_of_entries?_eq_none hafter, if_neg hdiffers]
  | some fs =>
    obtain rfl : after = .map fs := by
      cases after with
      | scalar s => cases hafter
      | list items => cases hafter
      | map fs' => rw [← Option.some.inj hafter]
    cases before with
    | scalar s => exact change?_of_not_map rfl fs
    | list items => exact change?_of_not_map rfl fs
    | map es => exact absurd rfl (hmaps es fs rfl)

/-- **The patch between two documents of JSON says what differs between them, and nothing else.** -/
theorem create_isLeast (horiginal : IsJson (.map original)) (hmodified : IsJson (.map modified)) :
    IsLeast original modified (create original modified) := by
  have hes := horiginal.members
  have hfs := hmodified.members
  have hlookup := lookup_create original hfs
  -- under each name, the patch is silent exactly if the two members agree
  have hsilent : ∀ name, lookup (.text name) (create original modified) = none ↔
      Agree (lookup (.text name) original) (lookup (.text name) modified) := by
    intro name
    rw [hlookup]
    exact difference_eq_none_iff (fun _ => horiginal.lookup) (fun _ => hmodified.lookup)
  refine ⟨areMembers_create hes hfs, ?_, fun name => ?_, fun name v hv hw => ?_,
    fun name es fs hv hw hdiffers => ?_, fun name w hw hdiffers hmaps => ?_⟩
  · rw [(areMembers_create hes hfs).eq_nil_iff, same_map_iff hes hfs]
    exact forall_congr' hsilent
  · rw [← hsilent, ← ne_eq, Option.ne_none_iff_exists']
  · rw [hlookup, hv, hw]
    rfl
  · have hchange := mt (change?_eq_none_iff (horiginal.lookup hv) (hmodified.lookup hw)).mp hdiffers
    have hne : create es fs ≠ [] := by
      rw [change?_map, ite_eq_left_iff, List.isEmpty_iff] at hchange
      simpa using hchange
    refine ⟨?_, hne⟩
    rw [hlookup, hv, hw, difference, change?_map, if_neg (by simpa using hne)]
  · rw [hlookup, hw]
    cases hv : lookup (.text name) original with
    | none => rfl
    | some v =>
      rw [hv, agree_some_iff] at hdiffers
      refine change?_of_not_maps hdiffers fun es fs hbefore => hmaps es fs ?_
      rw [hv, hbefore]

/-- A one that becomes true is no change, but a list that grows is one. -/
theorem create_isLeast_threeMembers :
    IsLeast (threeMembers (.int 1) (.list [])) (threeMembers (.bool true) (.list [.null]))
        [(.text "list", .list [.null])] ∧
      create (threeMembers (.int 1) (.list [])) (threeMembers (.bool true) (.list [])) = [] := by
  have hempty : IsJson (.list []) := .list [] nofun
  have hnulls : IsJson (.list [.null]) := .list _ (by simpa using IsJson.scalar .null rfl)
  have horiginal := isJson_threeMembers (.scalar (.int 1) rfl) hempty
  have htruth : IsJson (.bool true) := .scalar (.bool true) rfl
  refine ⟨?_, (create_isLeast horiginal (isJson_threeMembers htruth hempty)).empty_iff.mpr ?_⟩
  · exact create_isLeast horiginal (isJson_threeMembers htruth hnulls)
  · rfl

end AccessRules.MergePatch
