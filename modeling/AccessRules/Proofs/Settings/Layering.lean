import AccessRules.Proofs.Settings.Leaves
import AccessRules.Proofs.Text.Splitting

/-!
# Overrides in layers

**Program** — `Settings.override` puts new values into the document of settings, one after the
other, and reads the result.

**Spec** — overrides of leaves can be put together: one set of them after another does what both do
as one, in which the later values replace the earlier ones.  None at all change nothing, what is not
given a value stays, and the order within a set makes no difference (`override_layers`).

**Crux** — a document of settings is a value for each leaf, and putting a value at the path of a
leaf changes that one (`Overrides.layer`).  Reading brings each leaf to its form, whatever stands at
the others, and what is in its form stays as it is; so it makes no difference whether the values of
the first set were read before the second set was put on top.
-/

namespace AccessRules.Settings

open Schema

/-! ## Keys -/

/-- A key is the names of its path, with points between them. -/
theorem pathOf_injective : Function.Injective pathOf := by
  intro key key' h
  have hofList : Function.Injective String.ofList := fun _ _ => String.ofList_injective
  have hsplit := List.map_injective_iff.mpr hofList h
  obtain ⟨-, -, hkey⟩ := Text.split_eq_iff.mp hsplit
  obtain ⟨-, -, hkey'⟩ := Text.split_eq_iff.mp (rfl : Text.split '.' key'.toList = _)
  exact String.toList_inj.mp (hkey.trans hkey'.symm)

/-- The key of a leaf: at its path stands a value of the settings that has no members. -/
def IsLeafKey (s : Settings) (key : String) : Prop :=
  ∃ w, s.document.at? (pathOf key) = some w ∧ w.entries? = none

theorem isLeafKey_iff {s : Settings} {key : String} :
    s.IsLeafKey key ↔ ∃ l : Leaf, pathOf key = l.path := by
  constructor
  · rintro ⟨w, hw, hflat⟩
    exact exists_leaf hw hflat
  · rintro ⟨l, hl⟩
    refine ⟨s.leaf l, by rw [hl, document_eq_fill, at?_fill], ?_⟩
    cases l <;> rfl

namespace Overrides

/-- Whether an override gives a value: null gives none. -/
def gives : Value → Bool
  | .null => false
  | _ => true

/-- Overrides of leaves of settings, each by one value. -/
structure Fits (o : Overrides) (s : Settings) : Prop where
  keys : (o.map Prod.fst).Nodup
  leaves : ∀ e ∈ o, s.IsLeafKey e.1

/-- Overrides with the values that others give, in place of their own or behind them. -/
def updated (o o' : Overrides) : Overrides :=
  (o'.filter fun e => gives e.2).foldl (fun done e => done.put e.1 e.2) o

/-- Overrides of leaves alone. -/
def AreLeaves (o : Overrides) : Prop := ∀ e ∈ o, ∃ l : Leaf, pathOf e.1 = l.path

variable {o o' : Overrides} {f g : Leaf → Value} {l : Leaf} {key : String} {v : Value}

theorem Fits.areLeaves {s : Settings} (ho : o.Fits s) : o.AreLeaves :=
  fun e he => isLeafKey_iff.mp (ho.leaves e he)

/-! ## Layers -/

/-- Values at the leaves after one override. -/
def layer (f : Leaf → Value) (e : String × Value) (l : Leaf) : Value :=
  if gives e.2 = true ∧ pathOf e.1 = l.path then e.2 else f l

/-- Values at the leaves after some overrides. -/
def overlay (o : Overrides) (f : Leaf → Value) : Leaf → Value := o.foldl layer f

theorem layer_of_not_gives {e : String × Value} (h : gives e.2 = false) : layer f e = f :=
  funext fun _ => if_neg fun hboth => by simp [h] at hboth

theorem overlay_cons (e : String × Value) (o : Overrides) (f : Leaf → Value) :
    overlay (e :: o) f = o.overlay (layer f e) := rfl

/-- **One override changes one leaf.** -/
theorem assignOne_fill {e : String × Value} (he : ∃ l : Leaf, pathOf e.1 = l.path) :
    assignOne (fill f) e = .ok (fill (layer f e)) := by
  obtain ⟨l, hl⟩ := he
  obtain ⟨key, v⟩ := e
  by_cases hnull : v = .null
  · subst hnull
    rw [layer_of_not_gives rfl]
    rfl
  · have hgives : gives v = true := by
      unfold gives
      split
      · exact absurd rfl hnull
      · rfl
    have hassign : assignOne (fill f) (key, v) = assign v (pathOf key) (fill f) := by
      unfold assignOne
      split
      · next h => exact absurd h hnull
      · rfl
    have hlayer : layer f (key, v) = Function.update f l v := by
      funext l'
      simp only [layer, hgives, hl, true_and, Function.update_apply, Leaf.path_injective.eq_iff,
        eq_comm]
    rw [hassign, hl, assign_fill, hlayer]

theorem foldlM_fill (ho : o.AreLeaves) :
    o.foldlM assignOne (fill f) = .ok (fill (o.overlay f)) := by
  induction o generalizing f with
  | nil => rfl
  | cons e o ih =>
    rw [List.foldlM_cons, assignOne_fill (ho e (List.mem_cons_self ..))]
    exact ih fun e' he' => ho e' (List.mem_cons_of_mem _ he')

/-- **At a leaf overrides have a value of their own**, or leave what is there. -/
theorem overlay_cases (o : Overrides) (l : Leaf) :
    (∃ v, ∀ f, o.overlay f l = v) ∨ ∀ f, o.overlay f l = f l := by
  induction o with
  | nil => exact .inr fun _ => rfl
  | cons e o ih =>
    rcases ih with ⟨v, hv⟩ | hkept
    · exact .inl ⟨v, fun f => hv _⟩
    · by_cases he : gives e.2 = true ∧ pathOf e.1 = l.path
      · exact .inl ⟨e.2, fun f => (hkept _).trans (if_pos he)⟩
      · exact .inr fun f => (hkept _).trans (if_neg he)

theorem overlay_congr (o : Overrides) (h : f l = g l) : o.overlay f l = o.overlay g l := by
  rcases overlay_cases o l with ⟨v, hv⟩ | hkept
  · rw [hv, hv]
  · rw [hkept, hkept, h]

/-- Where no value is given, what was there stays. -/
theorem overlay_of_not_gives (h : ∀ e ∈ o, pathOf e.1 = l.path → gives e.2 = false) :
    o.overlay f l = f l := by
  induction o generalizing f with
  | nil => rfl
  | cons e o ih =>
    refine (ih fun e' he' => h e' (List.mem_cons_of_mem _ he')).trans (if_neg ?_)
    rintro ⟨hgives, hpath⟩
    rw [h e (List.mem_cons_self ..) hpath] at hgives
    cases hgives

/-- Overrides by other keys leave what is there. -/
theorem overlay_of_not_mem (hl : pathOf key = l.path) (h : key ∉ o.map Prod.fst) :
    o.overlay f l = f l := by
  refine overlay_of_not_gives fun e he hpath => absurd ?_ h
  rw [← pathOf_injective (hpath.trans hl.symm)]
  exact List.mem_map_of_mem he

/-- Where a value is given, by one override only, it stands. -/
theorem overlay_of_mem (hkeys : (o.map Prod.fst).Nodup) {e : String × Value} (he : e ∈ o)
    (hgives : gives e.2 = true) (hl : pathOf e.1 = l.path) : o.overlay f l = e.2 := by
  induction o generalizing f with
  | nil => cases he
  | cons e' o ih =>
    rw [List.map_cons, List.nodup_cons] at hkeys
    rcases List.mem_cons.mp he with rfl | he
    · rw [overlay_cons, overlay_of_not_mem hl hkeys.1]
      exact if_pos ⟨hgives, hl⟩
    · exact ih hkeys.2 he

/-- **The order of overrides makes no difference.** -/
theorem overlay_perm (hkeys : (o.map Prod.fst).Nodup) (hperm : o.Perm o') :
    o'.overlay f = o.overlay f := by
  funext l
  have hkeys' : (o'.map Prod.fst).Nodup := (hperm.map Prod.fst).nodup_iff.mp hkeys
  by_cases h : ∃ e ∈ o, gives e.2 = true ∧ pathOf e.1 = l.path
  · obtain ⟨e, he, hgives, hl⟩ := h
    rw [overlay_of_mem hkeys he hgives hl, overlay_of_mem hkeys' (hperm.mem_iff.mp he) hgives hl]
  · have hnone : ∀ e ∈ o, pathOf e.1 = l.path → gives e.2 = false := fun e he hl =>
      Bool.eq_false_iff.mpr fun hgives => h ⟨e, he, hgives, hl⟩
    rw [overlay_of_not_gives hnone,
      overlay_of_not_gives fun e he => hnone e (hperm.mem_iff.mpr he)]

/-! ## Overrides put together -/

theorem put_cons (p : String) (w : Value) (o : Overrides) (key : String) (v : Value) :
    put key v ((p, w) :: o) = if p = key then (p, v) :: o else (p, w) :: o.put key v := by
  simp only [put, beq_iff_eq]

theorem updated_cons (o : Overrides) (e : String × Value) (o' : Overrides) :
    o.updated (e :: o') =
      if gives e.2 = true then (o.put e.1 e.2).updated o' else o.updated o' := by
  by_cases hgives : gives e.2 = true <;> simp [updated, hgives]

theorem mem_keys_put {key' : String} :
    key' ∈ (o.put key v).map Prod.fst ↔ key' = key ∨ key' ∈ o.map Prod.fst := by
  induction o with
  | nil => simp [put]
  | cons e o ih =>
    rw [put_cons]
    by_cases hp : e.1 = key
    · simp [hp]
    · rw [if_neg hp, List.map_cons, List.mem_cons, ih, List.map_cons, List.mem_cons]
      exact or_left_comm

theorem nodup_put (hkeys : (o.map Prod.fst).Nodup) (key : String) (v : Value) :
    ((o.put key v).map Prod.fst).Nodup := by
  induction o with
  | nil => simp [put]
  | cons e o ih =>
    rw [List.map_cons, List.nodup_cons] at hkeys
    rw [put_cons]
    by_cases hp : e.1 = key
    · simpa [hp] using hkeys
    · rw [if_neg hp, List.map_cons, List.nodup_cons]
      exact ⟨fun hmem => (mem_keys_put.mp hmem).elim hp hkeys.1, ih hkeys.2⟩

theorem mem_keys_updated (h : key ∈ (o.updated o').map Prod.fst) :
    key ∈ o.map Prod.fst ∨ key ∈ o'.map Prod.fst := by
  induction o' generalizing o with
  | nil => exact .inl h
  | cons e o' ih =>
    rw [updated_cons] at h
    split at h
    · rcases ih h with h | h
      · rcases mem_keys_put.mp h with rfl | h
        · exact .inr (List.mem_cons_self ..)
        · exact .inl h
      · exact .inr (List.mem_cons_of_mem _ h)
    · exact (ih h).imp id (List.mem_cons_of_mem _)

theorem AreLeaves.updated (ho : o.AreLeaves) (ho' : o'.AreLeaves) : (o.updated o').AreLeaves := by
  intro e he
  rcases mem_keys_updated (List.mem_map_of_mem he) with h | h
  · obtain ⟨e', he', hkey⟩ := List.mem_map.mp h
    exact hkey ▸ ho e' he'
  · obtain ⟨e', he', hkey⟩ := List.mem_map.mp h
    exact hkey ▸ ho' e' he'

/-- A value that is given in place of another one comes on top of all the others. -/
theorem overlay_put (hkeys : (o.map Prod.fst).Nodup) (hgives : gives v = true) :
    (o.put key v).overlay f = layer (o.overlay f) (key, v) := by
  induction o generalizing f with
  | nil => rfl
  | cons e o ih =>
    obtain ⟨p, w⟩ := e
    rw [List.map_cons, List.nodup_cons] at hkeys
    rw [put_cons]
    by_cases hp : p = key
    · subst hp
      rw [if_pos rfl, overlay_cons, overlay_cons]
      funext l
      by_cases hl : pathOf p = l.path
      · rw [overlay_of_not_mem hl hkeys.1]
        simp [layer, hgives, hl]
      · have hlayer : ∀ (f : Leaf → Value) (u : Value), layer f (p, u) l = f l :=
          fun f u => if_neg fun h => hl h.2
        rw [hlayer]
        exact overlay_congr o ((hlayer f v).trans (hlayer f w).symm)
    · rw [if_neg hp]
      exact ih hkeys.2

/-- **Overrides put together do what they do one after the other.** -/
theorem overlay_updated (hkeys : (o.map Prod.fst).Nodup) :
    (o.updated o').overlay f = o'.overlay (o.overlay f) := by
  induction o' generalizing o with
  | nil => rfl
  | cons e o' ih =>
    rw [overlay_cons, updated_cons]
    by_cases hgives : gives e.2 = true
    · rw [if_pos hgives, ih (nodup_put hkeys _ _), overlay_put hkeys hgives]
    · rw [if_neg hgives, ih hkeys, layer_of_not_gives (Bool.eq_false_iff.mpr hgives)]

end Overrides

/-! ## Overridden settings -/

/-- Settings that some document is read as. -/
def IsRead (s : Settings) : Prop := ∃ v, ofDocument v = .ok s

theorem ofDocument_eq_ok_iff {v : Value} {s : Settings} :
    ofDocument v = .ok s ↔ read v = .pass s := by
  rw [ofDocument]
  cases read v <;> simp [Check.reported]

/-- Accepted settings are read of a document, the standard ones of an empty one. -/
theorem IsAccepted.isRead {s : Settings} (h : IsAccepted s) : s.IsRead := by
  cases h with
  | standard => exact ⟨.map [], rfl⟩
  | ofYaml h =>
    obtain ⟨v, _, hv⟩ := ok_of_bind h
    exact ⟨_, hv⟩
  | override _ ho =>
    obtain ⟨v, _, hv⟩ := ok_of_bind ho
    exact ⟨v, hv⟩

variable {c c₁ c₂ c' : Settings} {o o₁ o₂ o' : Overrides}

theorem IsRead.normal_leaf (hc : c.IsRead) (l : Leaf) :
    l.form.normal (c.leaf l) = .pass (c.leaf l) := by
  obtain ⟨v, hv⟩ := hc
  exact Settings.normal_leaf (ofDocument_eq_ok_iff.mp hv) l

theorem override_eq (ho : o.AreLeaves) : c.override o = ofDocument (fill (o.overlay c.leaf)) := by
  rw [override, document_eq_fill, Overrides.foldlM_fill ho]
  rfl

/-- **Settings are overridden leaf by leaf.** -/
theorem override_eq_ok_iff (ho : o.AreLeaves) :
    c.override o = .ok c' ↔
      ∀ l : Leaf, l.form.normal (o.overlay c.leaf l) = .pass (c'.leaf l) := by
  rw [override_eq ho, ofDocument_eq_ok_iff, read_fill_iff]

/-- **One set of overrides after another** is both put together. -/
theorem override_updated (hkeys : (o₁.map Prod.fst).Nodup) (ho₁ : o₁.AreLeaves)
    (ho₂ : o₂.AreLeaves) (h₁ : c.override o₁ = .ok c₁) (h₂ : c₁.override o₂ = .ok c₂) :
    c.override (o₁.updated o₂) = .ok c₂ := by
  rw [override_eq_ok_iff ho₁] at h₁
  rw [override_eq_ok_iff ho₂] at h₂
  rw [override_eq_ok_iff (ho₁.updated ho₂), Overrides.overlay_updated hkeys]
  intro l
  have hl := h₂ l
  rcases o₂.overlay_cases l with ⟨v, hv⟩ | hkept
  · rwa [hv] at hl ⊢
  · -- the value of the first set is read twice, which is the same as once
    rw [hkept] at hl ⊢
    have hagain := Form.normal_idem (h₁ l)
    rw [hagain] at hl
    rw [h₁ l, hl]

/-- **Overrides layer cleanly.**  Let settings be read of any document, and let overrides be given
by keys of leaves, each key once.  No overrides change nothing.  If the settings can be overridden,
and the result once more, then they can be overridden by both at once, the later values that are
given in place of the earlier ones, and that comes to the same.  At a leaf that no value is given
for stands what stood there before.  And in whatever order the overrides stand, they come to the
same. -/
theorem override_layers (hc : c.IsRead) :
    c.override [] = .ok c ∧
    (∀ o₁ o₂ : Overrides, o₁.Fits c → o₂.Fits c → ∀ c₁ c₂, c.override o₁ = .ok c₁ →
      c₁.override o₂ = .ok c₂ → c.override (o₁.updated o₂) = .ok c₂) ∧
    (∀ (o : Overrides) (c' : Settings), o.Fits c → c.override o = .ok c' → ∀ key, c.IsLeafKey key →
      (∀ v, (key, v) ∈ o → v = .null) →
      c'.document.at? (pathOf key) = c.document.at? (pathOf key)) ∧
    (∀ o o' : Overrides, o.Fits c → o.Perm o' → c.override o' = c.override o) := by
  refine ⟨?_, fun o₁ o₂ ho₁ ho₂ c₁ c₂ => ?_, fun o c' ho h key hkey hnull => ?_,
    fun o o' ho hperm => ?_⟩
  · exact (override_eq_ok_iff (o := []) nofun).mpr hc.normal_leaf
  · exact override_updated ho₁.keys ho₁.areLeaves ho₂.areLeaves
  · obtain ⟨l, hl⟩ := isLeafKey_iff.mp hkey
    have hkept : o.overlay c.leaf l = c.leaf l := by
      refine Overrides.overlay_of_not_gives fun e he hpath => ?_
      rw [hnull e.2 (pathOf_injective (hpath.trans hl.symm) ▸ he)]
      rfl
    have hsame := (override_eq_ok_iff ho.areLeaves).mp h l
    rw [hkept, hc.normal_leaf l] at hsame
    rw [hl, document_eq_fill, document_eq_fill, at?_fill, at?_fill, Check.pass.inj hsame]
  · have ho' : o'.AreLeaves := fun e he => ho.areLeaves e (hperm.mem_iff.mpr he)
    rw [override_eq ho', override_eq ho.areLeaves, Overrides.overlay_perm ho.keys hperm]

/-- Two layers over the standard settings: an interval in each, of which the second is given as
text, and a host that is not given after all. -/
theorem override_layers_standard :
    let first : Overrides := [("sync.interval", .int 30), ("debug", .bool true)]
    let second : Overrides := [("sync.interval", .text "45"), ("tsuru.host", .null)]
    first.Fits standard ∧ second.Fits standard ∧
    ∃ c₁ c₂, standard.override first = .ok c₁ ∧ c₁.override second = .ok c₂ ∧
      c₁ ≠ c₂ ∧ c₂.debug = true ∧
      standard.override [("sync.interval", .text "45"), ("debug", .bool true)] = .ok c₂ := by
  intro first second
  have hfirst : first.Fits standard := by
    refine ⟨by decide, fun e he => isLeafKey_iff.mpr ?_⟩
    obtain rfl | rfl : e = _ ∨ e = _ := by simpa [first] using he
    exacts [⟨.interval, by decide⟩, ⟨.debug, by decide⟩]
  have hsecond : second.Fits standard := by
    refine ⟨by decide, fun e he => isLeafKey_iff.mpr ?_⟩
    obtain rfl | rfl : e = _ ∨ e = _ := by simpa [second] using he
    exacts [⟨.interval, by decide⟩, ⟨.host, by decide⟩]
  let seconds (n : Int) : Settings :=
    { standard with debug := true, passes := { Passes.standard with interval := .ofInt n } }
  have h₁ : standard.override first = .ok (seconds 30) := ok_of_toOption (by decide +kernel)
  have h₂ : (seconds 30).override second = .ok (seconds 45) := ok_of_toOption (by decide +kernel)
  exact ⟨hfirst, hsecond, _, _, h₁, h₂, by decide, rfl,
    (override_layers IsAccepted.standard.isRead).2.1 first second hfirst hsecond _ _ h₁ h₂⟩

end AccessRules.Settings
