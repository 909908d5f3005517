import AccessRules.Proofs.Fallible
import AccessRules.Proofs.Resource.MergePatch
import AccessRules.Resource.Stamping

/-!
# Resources and their stamps

**Program** — `Stamp.current` finds the stamp of a resource, `Stamp.put` puts one on it, and
`Stamp.change?` is the merge patch that does so where the stamp is stale.

**Spec** — a stamp stands at the end of `Stamp.path`.  Putting one there is setting that one text
(`put_eq_ok_iff`), and the patch that is made is empty if the text was there before
(`patchBetween_of_at?`), and otherwise the text nested under the path (`patchBetween_of_ne`).  Carried
out, it sets the stamp (`apply_patchBetween`); and it is made exactly if the stamp is stale
(`change?_eq_some_iff`).

**Crux** — a resource has room for a stamp (`HasRoom`) when there are maps or nothing on the way to
it, annotations possibly being blank.  On such resources the careful steps through metadata and
annotations are plain steps along the path.
-/

namespace AccessRules.Stamp

open Calendar Value

/-- Where the stamp of a resource stands. -/
def path : List String := ["metadata", "annotations", annotation]

/-- A resource that a stamp can be put on: metadata are a map where there are any, and annotations
are a map, null or not there. -/
structure HasRoom (v : Value) : Prop where
  resource : ∃ es, v = .map es
  metadata : ∀ w ∈ v.at? ["metadata"], ∃ es, w = .map es
  annotations : ∀ w ∈ v.at? ["metadata", "annotations"], w = .null ∨ ∃ es, w = .map es

variable {v w : Value} {s : String}

/-! ## Putting a stamp on a resource -/

/-- A member is changed if it belongs to a map. -/
theorem update_eq_ok_iff {name : String} {change : Option Value → Except Failure Value} :
    update v name change = .ok w ↔ ∃ es u, v = .map es ∧ change (v.get? name) = .ok u ∧
      w = .map (Value.put (.text name) u es) := by
  cases v with
  | scalar k => simp [update]
  | list items => simp [update]
  | map es =>
    rw [update, get?_map]
    cases change (lookup (.text name) es) with
    | error f => simp [bind, Except.bind]
    | ok u => simp [bind, Except.bind, eq_comm]

/-- Annotations are given a stamp if they are a map, null or not there. -/
theorem annotate_eq_ok_iff {found : Option Value} :
    annotate s found = .ok w ↔ (∀ u ∈ found, u = .null ∨ ∃ es, u = .map es) ∧
      w = .map (Value.put (.text annotation) (.text s) ((found.getD .null).entries?.getD [])) := by
  rcases found with _ | (k | items | es)
  · simp [annotate, entries?, Value.put, eq_comm]
  · cases k <;> simp [annotate, entries?, Value.put, eq_comm]
  · simp [annotate]
  · simp [annotate, entries?, eq_comm]

/-- Metadata are given a stamp if they are a map or not there, and annotations allow it. -/
theorem update_annotations_eq_ok_iff {found : Option Value} :
    update (found.getD (.map [])) "annotations" (annotate s) = .ok w ↔
      (∀ m ∈ found, ∃ es, m = .map es) ∧
      (∀ a ∈ found.bind (·.get? "annotations"), a = .null ∨ ∃ es, a = .map es) ∧
      w = setAt ["annotations", annotation] (.text s) (found.getD .null) := by
  rw [update_eq_ok_iff]
  cases found with
  | none =>
    constructor
    · rintro ⟨es, u, hes, hu, rfl⟩
      obtain ⟨-, rfl⟩ := annotate_eq_ok_iff.mp hu
      obtain rfl := Value.map.inj hes
      exact ⟨by simp, by simp, rfl⟩
    · rintro ⟨-, -, rfl⟩
      exact ⟨[], _, rfl, annotate_eq_ok_iff.mpr ⟨by simp [get?, entries?, lookup], rfl⟩, rfl⟩
  | some m =>
    constructor
    · rintro ⟨es, u, hes, hu, rfl⟩
      obtain ⟨hannotations, rfl⟩ := annotate_eq_ok_iff.mp hu
      obtain rfl : m = .map es := hes
      exact ⟨fun _ hm => ⟨es, (Option.some.inj hm).symm⟩, hannotations, rfl⟩
    · rintro ⟨hmetadata, hannotations, rfl⟩
      obtain ⟨es, rfl⟩ := hmetadata m rfl
      exact ⟨es, _, rfl, annotate_eq_ok_iff.mpr ⟨hannotations, rfl⟩, rfl⟩

/-- **A resource is stamped if it has room for a stamp, and its stamp is all that is set.** -/
theorem put_eq_ok_iff : Stamp.put s v = .ok w ↔ HasRoom v ∧ w = setAt path (.text s) v := by
  rw [Stamp.put, update_eq_ok_iff]
  constructor
  · rintro ⟨es, u, rfl, hu, rfl⟩
    obtain ⟨hmetadata, hannotations, rfl⟩ := update_annotations_eq_ok_iff.mp hu
    exact ⟨⟨⟨es, rfl⟩, by rwa [at?_singleton], by rwa [at?_pair]⟩, rfl⟩
  · rintro ⟨⟨⟨es, rfl⟩, hmetadata, hannotations⟩, rfl⟩
    rw [at?_singleton] at hmetadata
    rw [at?_pair] at hannotations
    exact ⟨es, _, rfl, update_annotations_eq_ok_iff.mpr ⟨hmetadata, hannotations, rfl⟩, rfl⟩

/-- Where something stands in the place of the stamp, there is room for a stamp. -/
theorem HasRoom.of_at? (h : v.at? path = some w) : HasRoom v := by
  obtain ⟨metadata, hmetadata, h⟩ := Option.bind_eq_some_iff.mp h
  obtain ⟨annotations, hannotations, h⟩ := Option.bind_eq_some_iff.mp h
  obtain ⟨found, hfound, -⟩ := Option.bind_eq_some_iff.mp h
  obtain ⟨es, rfl, -⟩ := map_of_get? hmetadata
  obtain ⟨ms, rfl, -⟩ := map_of_get? hannotations
  obtain ⟨as, rfl, -⟩ := map_of_get? hfound
  refine ⟨⟨es, rfl⟩, fun w hw => ?_, fun w hw => .inr ?_⟩
  · rw [at?_singleton, hmetadata] at hw
    exact ⟨ms, (Option.some.inj hw).symm⟩
  · rw [at?_pair, hmetadata, Option.bind_some, hannotations] at hw
    exact ⟨as, (Option.some.inj hw).symm⟩

/-! ## The stamp of a resource -/

/-- A member that is a map, null or not there counts as a map, and paths go on through it. -/
theorem memberOrEmpty_eq {es : List (Scalar × Value)} {name : String}
    (h : ∀ u ∈ (Value.map es).get? name, u = .null ∨ ∃ ms, u = .map ms) :
    ∃ ms, memberOrEmpty (.map es) name = .ok (.map ms) ∧
      ∀ next rest, at? (name :: next :: rest) (.map es) = at? (next :: rest) (.map ms) := by
  rw [memberOrEmpty, member, ← get?_map]
  simp only [at?]
  cases hfound : (Value.map es).get? name with
  | none => exact ⟨[], rfl, fun next rest => rfl⟩
  | some u =>
    rcases h u hfound with rfl | ⟨ms, rfl⟩
    · exact ⟨[], rfl, fun next rest => rfl⟩
    · refine ⟨ms, ?_, fun next rest => rfl⟩
      cases ms <;> rfl

/-- **The stamp of a resource is what stands in its place.** -/
theorem current_eq (h : HasRoom v) : current v = textOf? (v.at? path) := by
  obtain ⟨⟨es, rfl⟩, hmetadata, hannotations⟩ := h
  rw [at?_singleton] at hmetadata
  obtain ⟨ms, hms, hstep⟩ := memberOrEmpty_eq fun u hu => .inr (hmetadata u hu)
  rw [hstep, at?_singleton] at hannotations
  obtain ⟨as, has, hstep'⟩ := memberOrEmpty_eq hannotations
  rw [path, hstep, hstep', at?_singleton, current, hms]
  simp only [bind, Except.bind, has]
  rfl

/-- A stamp that was found as a text is that text. -/
theorem textOf?_eq_some {found : Option Value} (h : textOf? found = .ok (some s)) :
    found = some (.text s) := by
  rcases found with _ | v
  · cases h
  · rw [textOf?.eq_def] at h
    split at h
    · cases h
    · next heq =>
      obtain rfl := Option.some.inj (Except.ok.inj h)
      exact heq
    · split at h <;> cases h

/-! ## Patches that stamp -/

/-- The patch that puts a stamp on a resource which has it already. -/
theorem patchBetween_of_at? (hjson : IsJson v) (hroom : HasRoom v)
    (hold : v.at? path = some (.text s)) :
    patchBetween v (setAt path (.text s) v) = .map [] := by
  obtain ⟨es, rfl⟩ := hroom.resource
  exact congrArg Value.map (MergePatch.create_of_at? hjson rfl hold)

/-- The patch that puts a stamp on a resource which has it not. -/
theorem patchBetween_of_ne (hjson : IsJson v) (hroom : HasRoom v)
    (hnew : v.at? path ≠ some (.text s)) :
    patchBetween v (setAt path (.text s) v) = nest path (.text s) := by
  obtain ⟨es, rfl⟩ := hroom.resource
  exact MergePatch.create_setAt hjson rfl hnew

/-- **Either patch, carried out, puts the stamp on the resource.** -/
theorem apply_patchBetween (hjson : IsJson v) (hroom : HasRoom v) :
    MergePatch.apply v (patchBetween v (setAt path (.text s) v)) = setAt path (.text s) v := by
  by_cases hold : v.at? path = some (.text s)
  · rw [patchBetween_of_at? hjson hroom hold, setAt_of_at? hold]
    obtain ⟨es, rfl⟩ := hroom.resource
    exact MergePatch.apply_empty es
  · rw [patchBetween_of_ne hjson hroom hold, MergePatch.apply_nest]

variable {windows : Windows} {created : Moment} {now : Instant}

/-- **A resource with room for a stamp is patched if its stamp is stale.** -/
theorem change?_eq_some_iff {change : Value} :
    change? windows created now v = .ok (some change) ↔ HasRoom v ∧
      (∃ stamp, textOf? (v.at? path) = .ok stamp ∧
        isStale windows created stamp (.utc now) = .ok true) ∧
      change = patchBetween v (setAt path (.text (ofInstant now)) v) := by
  rw [change?]
  constructor
  · intro h
    obtain ⟨stamp, hstamp, h⟩ := ok_of_bind h
    obtain ⟨stale, hstale, h⟩ := ok_of_bind h
    cases stale with
    | false => cases h
    | true =>
      obtain ⟨stamped, hput, h⟩ := ok_of_bind h
      obtain ⟨hroom, rfl⟩ := put_eq_ok_iff.mp hput
      rw [current_eq hroom] at hstamp
      exact ⟨hroom, ⟨stamp, hstamp, hstale⟩, (Option.some.inj (Except.ok.inj h)).symm⟩
  · rintro ⟨hroom, ⟨stamp, hstamp, hstale⟩, rfl⟩
    have hput : Stamp.put (ofInstant now) v = .ok _ := put_eq_ok_iff.mpr ⟨hroom, rfl⟩
    simp only [current_eq hroom, hstamp, bind, Except.bind, hstale, if_true, hput]

/-- A resource with room for a stamp is left alone if its stamp is fresh. -/
theorem change?_eq_none (hroom : HasRoom v) (h : change? windows created now v = .ok none) :
    ∃ stamp, textOf? (v.at? path) = .ok stamp ∧
      isStale windows created stamp (.utc now) = .ok false := by
  rw [change?] at h
  obtain ⟨stamp, hstamp, h⟩ := ok_of_bind h
  obtain ⟨stale, hstale, h⟩ := ok_of_bind h
  rw [current_eq hroom] at hstamp
  cases stale with
  | false => exact ⟨stamp, hstamp, hstale⟩
  | true =>
    obtain ⟨stamped, _, h⟩ := ok_of_bind h
    cases h

end AccessRules.Stamp
