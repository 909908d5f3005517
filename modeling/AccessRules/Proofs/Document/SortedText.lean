import AccessRules.Proofs.Document.Members
import AccessRules.Proofs.Document.Records

/-!
# Texts with sorted keys

**Program** — `Json.render` in the canonical style writes the entries of every map in the order of
their keys.

**Spec** — two plain documents with the same canonical text are the same up to the order of entries:
they agree when all their maps are sorted (`sorted_eq_of_canonical_eq`), and so do their members
(`get?_sorted`).

**Crux** — sorting while writing is the same as sorting before and then writing in order
(`render_eq_render_sorted`), since the sort looks at keys only.  What is written in order is read
back as it was.
-/

namespace AccessRules

namespace Value

/-! ## Sorted documents -/

/-- Entries in the order of their keys. -/
def byKey (es : List (Scalar × Value)) : List (Scalar × Value) :=
  es.mergeSort fun a b => Json.keyText a.1 ≤ Json.keyText b.1

mutual

/-- A document with the entries of all its maps in the order of their keys. -/
def sorted : Value → Value
  | .scalar s => .scalar s
  | .list items => .list (sortedItems items)
  | .map es => .map (byKey (sortedEntries es))

/-- Items, each of them sorted. -/
def sortedItems : List Value → List Value
  | [] => []
  | v :: rest => sorted v :: sortedItems rest

/-- Entries in their own order with sorted values. -/
def sortedEntries : List (Scalar × Value) → List (Scalar × Value)
  | [] => []
  | (k, v) :: rest => (k, sorted v) :: sortedEntries rest

end

theorem byKey_perm (es : List (Scalar × Value)) : (byKey es).Perm es := List.mergeSort_perm ..

theorem sortedItems_eq (items : List Value) : sortedItems items = items.map sorted := by
  induction items with
  | nil => rfl
  | cons v items ih => rw [sortedItems, ih, List.map_cons]

theorem sortedEntries_eq (es : List (Scalar × Value)) :
    sortedEntries es = es.map fun e => (e.1, sorted e.2) := by
  induction es with
  | nil => rfl
  | cons e es ih => rw [sortedEntries, ih, List.map_cons]

/-! ## Members of sorted maps -/

variable {es es' : List (Scalar × Value)}

theorem AreMembers.perm (h : AreMembers es) (hperm : es.Perm es') : AreMembers es' where
  names e he := h.names e (hperm.mem_iff.mpr he)
  once := (hperm.map Prod.fst).nodup_iff.mp h.once

/-- Where entries stand does not matter for what is found. -/
theorem AreMembers.lookup_perm (h : AreMembers es) (hperm : es.Perm es') (name : String) :
    lookup (.text name) es' = lookup (.text name) es := by
  cases hfound : lookup (.text name) es with
  | some v => exact (h.perm hperm).lookup_eq (hperm.mem_iff.mp (mem_of_lookup hfound))
  | none =>
    cases hfound' : lookup (.text name) es' with
    | none => rfl
    | some v =>
      have hthere := h.lookup_eq (hperm.mem_iff.mpr (mem_of_lookup hfound'))
      rw [hfound] at hthere
      cases hthere

theorem lookup_sortedEntries (name : String) (es : List (Scalar × Value)) :
    lookup (.text name) (sortedEntries es) = (lookup (.text name) es).map sorted := by
  induction es with
  | nil => rfl
  | cons e es ih =>
    rw [sortedEntries, lookup, lookup]
    split
    · rfl
    · exact ih

/-- Sorting values leaves the keys. -/
theorem AreMembers.sortedEntries (h : AreMembers es) : AreMembers (sortedEntries es) := by
  rw [sortedEntries_eq]
  constructor
  · intro e' he'
    obtain ⟨e, he, rfl⟩ := List.mem_map.mp he'
    exact h.names e he
  · rw [List.map_map]
    exact h.once

end Value

namespace Json

open Value

theorem areMembers_of_hasPlainKeys {es : List (Scalar × Value)} (h : hasPlainKeys es = true) :
    AreMembers es := by
  obtain ⟨htext, hdiffer⟩ := text_of_hasPlainKeys h
  refine ⟨htext, List.pairwise_map.mpr (hdiffer.imp_of_mem fun he _ hne heq => ?_)⟩
  obtain ⟨s, hs⟩ := htext _ he
  rw [KeysDiffer, ← heq, hs, Scalar.same_text, beq_self_eq_true] at hne
  cases hne

theorem hasPlainKeys_of_areMembers {es : List (Scalar × Value)} (h : AreMembers es) :
    hasPlainKeys es = true := by
  simp only [hasPlainKeys, Bool.and_eq_true, List.all_eq_true, decide_eq_true_eq]
  refine ⟨fun e he => ?_, (List.pairwise_map.mp h.once).imp_of_mem fun _ he' hne => ?_⟩
  · obtain ⟨name, hname⟩ := h.names e he
    rw [hname]
  · obtain ⟨name, hname⟩ := h.names _ he'
    rw [← Bool.not_eq_true, hname, Scalar.same_text_iff, ← hname]
    exact hne

/-- **The member of a sorted document is the sorted member.** -/
theorem get?_sorted {v : Value} (h : isPlain v = true) (name : String) :
    v.sorted.get? name = (v.get? name).map sorted := by
  cases v with
  | scalar s => rfl
  | list items => rfl
  | map es =>
    rw [isPlain, Bool.and_eq_true] at h
    have hmembers := (areMembers_of_hasPlainKeys h.1).sortedEntries
    rw [sorted, get?, get?]
    exact (hmembers.lookup_perm (byKey_perm _).symm name).trans (lookup_sortedEntries name es)

mutual

/-- Sorting keeps a document plain. -/
theorem isPlain_sorted : ∀ v : Value, isPlain v = true → isPlain v.sorted = true
  | .scalar s, h => by rwa [sorted]
  | .list items, h => by
    rw [isPlain] at h
    rw [sorted, isPlain]
    exact arePlain_sortedItems items h
  | .map es, h => by
    rw [isPlain, Bool.and_eq_true] at h
    have hmembers := (areMembers_of_hasPlainKeys h.1).sortedEntries
    have hvalues := havePlainValues_sortedEntries es h.2
    have hkeys := hasPlainKeys_of_areMembers (hmembers.perm (byKey_perm _).symm)
    rw [sorted, isPlain, hkeys, Bool.true_and]
    rw [havePlainValues_iff] at hvalues ⊢
    exact fun e he => hvalues e ((byKey_perm _).mem_iff.mp he)

theorem arePlain_sortedItems : ∀ items : List Value, arePlain items = true →
    arePlain (sortedItems items) = true
  | [], _ => rfl
  | v :: items, h => by
    rw [arePlain, Bool.and_eq_true] at h
    rw [sortedItems, arePlain, isPlain_sorted v h.1, arePlain_sortedItems items h.2, Bool.and_self]

theorem havePlainValues_sortedEntries : ∀ es : List (Scalar × Value), havePlainValues es = true →
    havePlainValues (sortedEntries es) = true
  | [], _ => rfl
  | (k, v) :: es, h => by
    rw [havePlainValues, Bool.and_eq_true] at h
    rw [sortedEntries, havePlainValues, isPlain_sorted v h.1, havePlainValues_sortedEntries es h.2,
      Bool.and_self]

end

/-! ## Sorted texts -/

/-- A style that keeps the entries of maps in their order. -/
def Style.unsorted (st : Style) : Style := { st with sortedKeys := false }

theorem renderEntries_eq (st : Style) (es : List (Scalar × Value)) :
    renderEntries st es = es.map fun e => (keyText e.1, render st e.2) := by
  induction es with
  | nil => rfl
  | cons e es ih => rw [renderEntries, ih, List.map_cons]

/-- Entries that are sorted before they are written are sorted entries. -/
theorem renderEntries_byKey (st : Style) (es : List (Scalar × Value)) :
    renderEntries st (byKey es) = (renderEntries st es).mergeSort fun a b => a.1 ≤ b.1 := by
  rw [renderEntries_eq, renderEntries_eq, byKey]
  exact List.map_mergeSort fun a _ b _ => rfl

mutual

/-- **Sorting while writing is sorting before writing.** -/
theorem render_eq_render_sorted {st : Style} (h : st.sortedKeys = true) :
    ∀ v : Value, render st v = render st.unsorted v.sorted
  | .scalar _ => by rw [sorted, render, render]; rfl
  | .list items => by
    rw [sorted, render, render, renderItems_eq_renderItems_sorted h items]
    rfl
  | .map es => by
    rw [sorted, render, render, renderEntries_byKey, renderEntries_eq_renderEntries_sorted h es,
      object, object, if_pos h]
    rfl

theorem renderItems_eq_renderItems_sorted {st : Style} (h : st.sortedKeys = true) :
    ∀ items : List Value, renderItems st items = renderItems st.unsorted (sortedItems items)
  | [] => rfl
  | v :: items => by
    rw [sortedItems, renderItems, renderItems, render_eq_render_sorted h v,
      renderItems_eq_renderItems_sorted h items]

theorem renderEntries_eq_renderEntries_sorted {st : Style} (h : st.sortedKeys = true) :
    ∀ es : List (Scalar × Value),
      renderEntries st es = renderEntries st.unsorted (sortedEntries es)
  | [] => rfl
  | (k, v) :: es => by
    rw [sortedEntries, renderEntries, renderEntries, render_eq_render_sorted h v,
      renderEntries_eq_renderEntries_sorted h es]

end

/-- What is read back from the canonical text of a plain document is the document sorted. -/
theorem parse_canonical {v : Value} (h : isPlain v = true) :
    parse (render .canonical v).toList = .ok v.sorted := by
  have hreadable : Style.canonical.unsorted.IsReadable := ⟨⟨[], rfl, rfl⟩, ⟨[], rfl, rfl⟩, rfl⟩
  rw [render_eq_render_sorted rfl, parse_render hreadable (isPlain_sorted v h)]

/-- **Plain documents with the same canonical text agree when they are sorted.** -/
theorem sorted_eq_of_canonical_eq {v w : Value} (hv : isPlain v = true) (hw : isPlain w = true)
    (h : render .canonical v = render .canonical w) : v.sorted = w.sorted := by
  have hparse := parse_canonical hv
  rw [h, parse_canonical hw] at hparse
  exact (Except.ok.inj hparse).symm

end Json

end AccessRules
