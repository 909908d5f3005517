import AccessRules.Proofs.Document.Members

/-!
# Paths into documents

A path is a list of names, one for each map on the way.  `at?` is what stands at its end; `setAt`
puts something there, making the maps that are missing on the way; `nest` is the document that has
nothing else in it.

**Spec** — setting is seen at the end of the path (`at?_setAt`) and at no path that branches off from
it (`at?_setAt_of_branches`), and it changes nothing if it puts there what stands there already
(`setAt_of_at?`).  Set in nothing, a value is nested (`setAt_null`).

**Crux** — each step is one member that is set, so all of them go by induction on the path, with what
is known of `put` and `lookup` for the step.
-/

namespace AccessRules.Value

/-- What stands at the end of a path. -/
def at? : List String → Value → Option Value
  | [], v => some v
  | name :: path, v => (v.get? name).bind (at? path)

/-- A document with a value put at the end of a path. -/
def setAt : List String → Value → Value → Value
  | [], w, _ => w
  | name :: path, w, v =>
    .map (put (.text name) (setAt path w ((v.get? name).getD .null)) (v.entries?.getD []))

/-- A document with a value at the end of a path and nothing else. -/
def nest : List String → Value → Value
  | [], w => w
  | name :: path, w => .map [(.text name, nest path w)]

/-- Two paths part before either of them ends. -/
def Branches (path other : List String) : Prop := ¬ path <+: other ∧ ¬ other <+: path

instance (path other : List String) : Decidable (Branches path other) :=
  inferInstanceAs (Decidable (_ ∧ _))

variable {path : List String} {v w : Value}

theorem get?_map (name : String) (es : List (Scalar × Value)) :
    (Value.map es).get? name = lookup (.text name) es := rfl

theorem at?_singleton (name : String) (v : Value) : at? [name] v = v.get? name := by
  rw [at?]
  cases v.get? name <;> rfl

theorem at?_pair (name other : String) (v : Value) :
    at? [name, other] v = (v.get? name).bind (·.get? other) := by
  rw [at?]
  exact congrArg _ (funext (at?_singleton other))

/-- A document with a member is a map. -/
theorem map_of_get? {name : String} (h : v.get? name = some w) :
    ∃ es, v = .map es ∧ lookup (.text name) es = some w := by
  cases v with
  | scalar s => cases h
  | list items => cases h
  | map es => exact ⟨es, rfl, h⟩

theorem get?_setAt_cons (name : String) (path : List String) (w v : Value) :
    (setAt (name :: path) w v).get? name = some (setAt path w ((v.get? name).getD .null)) := by
  rw [setAt, get?_map, lookup_put_self _ _ _ (by simp)]

theorem get?_setAt_of_ne {name other : String} (h : other ≠ name) (path : List String)
    (w v : Value) : (setAt (name :: path) w v).get? other = v.get? other := by
  rw [setAt, get?_map, lookup_put_of_ne h]
  cases v <;> rfl

/-- What was set is found. -/
theorem at?_setAt (path : List String) (w v : Value) : at? path (setAt path w v) = some w := by
  induction path generalizing v with
  | nil => rfl
  | cons name path ih => rw [at?, get?_setAt_cons, Option.bind_some, ih]

/-- Set in nothing, a value is nested. -/
theorem setAt_null (path : List String) (w : Value) : setAt path w .null = nest path w := by
  induction path with
  | nil => rfl
  | cons name path ih =>
    have hnone : (Value.null.get? name).getD .null = .null := rfl
    rw [setAt, hnone, ih]
    rfl

theorem at?_null {other : List String} (h : other ≠ []) : at? other .null = none := by
  cases other with
  | nil => exact absurd rfl h
  | cons name other => rfl

theorem Branches.ne_nil {other : List String} (h : Branches path other) : other ≠ [] := by
  rintro rfl
  exact h.2 List.nil_prefix

/-- **Setting is not seen off the path.** -/
theorem at?_setAt_of_branches {other : List String} (h : Branches path other) (w v : Value) :
    at? other (setAt path w v) = at? other v := by
  induction path generalizing other v with
  | nil => exact absurd List.nil_prefix h.1
  | cons name path ih =>
    cases other with
    | nil => exact absurd List.nil_prefix h.2
    | cons name' other =>
      by_cases hname : name' = name
      · -- both go on through the same member, which is made if it is not there
        obtain rfl := hname
        have hrest : Branches path other :=
          ⟨fun hp => h.1 (List.cons_prefix_cons.mpr ⟨rfl, hp⟩),
            fun hp => h.2 (List.cons_prefix_cons.mpr ⟨rfl, hp⟩)⟩
        rw [at?, get?_setAt_cons, Option.bind_some, ih hrest, at?]
        cases hmember : v.get? name' with
        | none => exact at?_null hrest.ne_nil
        | some u => rfl
      · rw [at?, get?_setAt_of_ne hname, at?]

/-- Setting what is there already changes nothing. -/
theorem setAt_of_at? (h : at? path v = some w) : setAt path w v = v := by
  induction path generalizing v with
  | nil =>
    obtain rfl := Option.some.inj h
    rfl
  | cons name path ih =>
    rw [at?] at h
    obtain ⟨u, hu, hrest⟩ := Option.bind_eq_some_iff.mp h
    obtain ⟨es, rfl, hlookup⟩ := map_of_get? hu
    have hget : ((Value.map es).get? name).getD .null = u := by
      rw [hu]
      rfl
    rw [setAt, hget, ih hrest]
    exact congrArg Value.map (put_of_lookup hlookup)

/-- What stands on a path through a document of JSON is a document of JSON. -/
theorem IsJson.at? (h : IsJson v) (hw : Value.at? path v = some w) : IsJson w := by
  induction path generalizing v with
  | nil =>
    obtain rfl := Option.some.inj hw
    exact h
  | cons name path ih =>
    rw [Value.at?] at hw
    obtain ⟨u, hu, hrest⟩ := Option.bind_eq_some_iff.mp hw
    obtain ⟨es, rfl, hlookup⟩ := map_of_get? hu
    exact ih (h.lookup hlookup) hrest

/-- A document of JSON stays one when another is put into it. -/
theorem IsJson.setAt (h : IsJson v) (hw : IsJson w) (path : List String) :
    IsJson (Value.setAt path w v) := by
  have hnull : IsJson .null := .scalar .null rfl
  induction path generalizing v with
  | nil => exact hw
  | cons name path ih =>
    -- anything but a map gives way to one, which has no members yet
    have hentries : AreMembers (v.entries?.getD []) ∧ ∀ e ∈ v.entries?.getD [], IsJson e.2 := by
      cases h with
      | map es hmembers hvalues => exact ⟨hmembers, hvalues⟩
      | scalar s hs => exact ⟨⟨by simp [entries?], by simp [entries?]⟩, by simp [entries?]⟩
      | list items hi => exact ⟨⟨by simp [entries?], by simp [entries?]⟩, by simp [entries?]⟩
    have hmember : IsJson ((v.get? name).getD .null) := by
      cases hget : v.get? name with
      | none => exact hnull
      | some u =>
        obtain ⟨es, rfl, hlookup⟩ := map_of_get? hget
        exact h.lookup hlookup
    rw [Value.setAt]
    refine .map _ (hentries.1.put name _) fun e he => ?_
    rcases mem_put he with he | rfl
    · exact hentries.2 e he
    · exact ih hmember

end AccessRules.Value
