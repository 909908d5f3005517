import AccessRules.Engine.Stamper
import AccessRules.Proofs.Resource.Stamping

/-!
# Reconciling by stamps

**Program** — `Stamper.reconcile` finds the resource a rule starts from and stamps it if its stamp is
stale.

**Spec** — a turn either leaves all resources alone and asks for no change, or it asks for one change
of one resource, and that change sets its stamp and nothing else
(`reconcile_changes_stamp_only`).

**Crux** — all that a turn can come to is said once (`Turn.Reconciled`).  What the change is like was
proved of the resource by itself; what is added here is which resource it was and whether the change
was accepted.
-/

namespace AccessRules

/-! ## Resources of a collection -/

namespace Resource.Collection

variable {c : Collection} {key other : Key}

theorem find?_put_self (c : Collection) (key : Key) (v : Value) :
    (c.put key v).find? key = some v := by
  simp [put, find?]

/-- A resource that is put under a key leaves the others as they are. -/
theorem find?_put_of_ne (h : other ≠ key) (v : Value) : (c.put key v).find? other = c.find? other := by
  have hne : (other == key) = false := beq_false_of_ne h
  rw [put, find?, List.lookup_cons, hne, find?]
  show (c.documents.filter (·.1 ≠ key)).lookup other = c.documents.lookup other
  induction c.documents with
  | nil => rfl
  | cons e documents ih =>
    by_cases hkey : e.1 = key
    · have hskip : (other == e.1) = false := beq_false_of_ne (hkey ▸ h)
      rw [List.filter_cons_of_neg (by simpa using hkey), List.lookup_cons, hskip]
      exact ih
    · rw [List.filter_cons_of_pos (by simpa using hkey), List.lookup_cons, List.lookup_cons, ih]

end Resource.Collection

namespace Engine

open Calendar Resource Value

/-! ## Turns -/

/-- A rule that a stamping engine is to reconcile, and what the engine is given to do it. -/
structure Turn (ρ : Type) where
  stamper : Stamper
  resolver : Option (Resolver ρ)
  state : ρ
  now : Instant
  rule : Rule

namespace Turn

variable {ρ : Type}

/-- What the engine says of the rule. -/
def report (t : Turn ρ) (c : Collection) : Except Failure Report :=
  (t.stamper.reconcile t.resolver t.now t.rule t.state c).1

/-- The resources after a turn. -/
def after (t : Turn ρ) (c : Collection) : Collection :=
  (t.stamper.reconcile t.resolver t.now t.rule t.state c).2.2

/-- The key of the resource that the source of the rule names, if it is resolved. -/
def key? (t : Turn ρ) : Option Key :=
  match t.stamper.resourceName? t.rule.source, t.resolver with
  | some name, some resolve =>
    match (resolve t.rule.source t.state).1 with
    | .ok (some target) => if name.isEmpty then none else some ⟨t.stamper.spaceOf target, name⟩
    | _ => none
  | _, _ => none

/-- The stamp of the time of a turn. -/
def stamp (t : Turn ρ) : String := Stamp.ofInstant t.now

/-- What a turn makes of a resource. -/
def change? (t : Turn ρ) (v : Value) : Except Failure (Option Value) :=
  Stamp.change? t.stamper.windows t.rule.created t.now v

/-- A turn gets to see a resource. -/
structure Meets (t : Turn ρ) (c : Collection) (key : Key) (v : Value) : Prop where
  named : t.key? = some key
  readable : c.refusal? .get key = none
  found : c.find? key = some v

/-- **All that a turn can come to.** -/
inductive Reconciled (t : Turn ρ) (c : Collection) : Except Failure Report → Collection → Prop
  | astray {r : Except Failure Report} (hkey : t.key? = none) (hr : ∀ v, r ≠ .ok (.value v)) :
      Reconciled t c r c
  | unread {key : Key} {r : Except Failure Report} (hkey : t.key? = some key)
      (hget : ∀ v, ¬ t.Meets c key v) (hr : ∀ v, r ≠ .ok (.value v)) :
      Reconciled t c r (c.record (.get c.kind key))
  | broken {key : Key} {v : Value} {f : Failure} (hmeets : t.Meets c key v)
      (hchange : t.change? v = .error f) :
      Reconciled t c (.error f) (c.record (.get c.kind key))
  | fresh {key : Key} {v : Value} (hmeets : t.Meets c key v) (hchange : t.change? v = .ok none) :
      Reconciled t c (.ok t.stamper.wasFresh) (c.record (.get c.kind key))
  | refused {key : Key} {v change : Value} {f : Failure} (hmeets : t.Meets c key v)
      (hchange : t.change? v = .ok (some change)) :
      Reconciled t c (.error f) ((c.record (.get c.kind key)).record (.patch c.kind key change))
  | stamped {key : Key} {v change : Value} (hmeets : t.Meets c key v)
      (hchange : t.change? v = .ok (some change)) :
      Reconciled t c (.ok t.stamper.stamped)
        (((c.record (.get c.kind key)).record (.patch c.kind key change)).put key
          (MergePatch.apply v change))

/-- A turn with the key of a resource is about that resource. -/
theorem renew_of_key? {t : Turn ρ} {key : Key} (h : t.key? = some key) (c : Collection) :
    (t.report c, t.after c) = t.stamper.renew t.now t.rule key c := by
  rw [key?] at h
  split at h
  · next name resolve hname hresolver =>
    split at h
    · next target htarget =>
      split at h
      · cases h
      · next hnonempty =>
        obtain rfl := Option.some.inj h
        obtain ⟨state, hresolve⟩ : ∃ state, resolve t.rule.source t.state =
            (.ok (some target), state) := ⟨_, Prod.ext htarget rfl⟩
        simp only [report, after, Stamper.reconcile, hname, hresolver, hresolve, if_neg hnonempty]
    · cases h
  · cases h

/-- A turn without a key is about nothing. -/
theorem astray_of_key? {t : Turn ρ} (h : t.key? = none) (c : Collection) :
    t.after c = c ∧ ∀ v, t.report c ≠ .ok (.value v) := by
  rw [after, report, Stamper.reconcile.eq_def]
  split
  · exact ⟨rfl, by simp⟩
  · exact ⟨rfl, by simp⟩
  · next name resolve hname hresolver =>
    split
    · exact ⟨rfl, by simp⟩
    · exact ⟨rfl, by simp⟩
    · next target state hresolve =>
      split
      · exact ⟨rfl, by simp⟩
      · next hnonempty => simp [key?, hname, hresolver, hresolve, hnonempty] at h

/-- What becomes of the resource of a key. -/
theorem reconciled_of_key? {t : Turn ρ} {key : Key} (hkey : t.key? = some key) (c : Collection) :
    t.Reconciled c (t.stamper.renew t.now t.rule key c).1
      (t.stamper.renew t.now t.rule key c).2 := by
  rw [Stamper.renew, Collection.get]
  cases hget : c.refusal? .get key with
  | some r => exact .unread hkey (fun v h => by simp [h.readable] at hget) (by simp)
  | none =>
    cases hfound : c.find? key with
    | none => exact .unread hkey (fun v h => by simp [h.found] at hfound) (by simp)
    | some v =>
      have hmeets : t.Meets c key v := ⟨hkey, hget, hfound⟩
      cases hchange : Stamp.change? t.stamper.windows t.rule.created t.now v with
      | error f =>
        simp only [hchange]
        exact .broken hmeets hchange
      | ok found =>
        simp only [hchange]
        cases found with
        | none => exact .fresh hmeets hchange
        | some change =>
          have hfound' : (c.record (.get c.kind key)).find? key = some v := hfound
          simp only [Collection.patch, hfound']
          cases hpatch : (c.record (.get c.kind key)).refusal? .patch key with
          | some r => exact .refused hmeets hchange
          | none => exact .stamped hmeets hchange

theorem reconciled (t : Turn ρ) (c : Collection) : t.Reconciled c (t.report c) (t.after c) := by
  cases hkey : t.key? with
  | none =>
    obtain ⟨hafter, hreport⟩ := astray_of_key? hkey c
    rw [hafter]
    exact .astray hkey hreport
  | some key =>
    have h := reconciled_of_key? hkey c
    rwa [← renew_of_key? hkey c] at h

/-! ## Turns that change something, and turns that do not -/

/-- A turn asks for a change of a resource that it was shown, and for nothing else. -/
structure Patches (t : Turn ρ) (c : Collection) (key : Key) (v change : Value) : Prop where
  found : c.find? key = some v
  calls : (t.after c).calls = c.calls ++ [.get c.kind key, .patch c.kind key change]

/-- A turn asks for no change, and no resource changes. -/
structure LeavesAlone (t : Turn ρ) (c : Collection) : Prop where
  calls : ∃ made, (t.after c).calls = c.calls ++ made ∧ ∀ call ∈ made, call.action = .get
  documents : (t.after c).documents = c.documents
  report : t.report c ≠ .ok t.stamper.stamped

/-- A change was accepted, and the resource has changed by it, or it was refused and nothing has
changed. -/
def Concludes (t : Turn ρ) (c : Collection) (key : Key) (v : Value) : Prop :=
  (t.report c = .ok t.stamper.stamped ∧ (t.after c).find? key = some v ∧
    ∀ other, other ≠ key → (t.after c).find? other = c.find? other) ∨
  ((∃ f, t.report c = .error f) ∧ (t.after c).documents = c.documents)

theorem wasFresh_ne_stamped (s : Stamper) : s.wasFresh ≠ s.stamped := by
  obtain ⟨kind, space, windows⟩ := s
  cases kind <;> simp [Stamper.wasFresh, Stamper.stamped, Stamper.name]

/-- A turn gets to see one resource only. -/
theorem Meets.unique {t : Turn ρ} {c : Collection} {key key' : Key} {v v' : Value}
    (h : t.Meets c key v) (h' : t.Meets c key' v') : key' = key ∧ v' = v := by
  obtain rfl := Option.some.inj (h'.named.symm.trans h.named)
  exact ⟨rfl, Option.some.inj (h'.found.symm.trans h.found)⟩

/-- Reading a resource leaves all alone. -/
theorem leavesAlone_of_get {t : Turn ρ} {c : Collection} {key : Key}
    (hafter : t.after c = c.record (.get c.kind key)) (hreport : t.report c ≠ .ok t.stamper.stamped) :
    t.LeavesAlone c :=
  ⟨⟨[.get c.kind key], by rw [hafter]; rfl, by simp [Call.action]⟩, by rw [hafter]; rfl, hreport⟩

/-- A turn that read a resource and then asked for a change of it patches it. -/
theorem patches_of_calls {t : Turn ρ} {c : Collection} {key : Key} {v change : Value}
    (hmeets : t.Meets c key v) (hcalls : (t.after c).calls =
      ((c.record (.get c.kind key)).record (.patch c.kind key change)).calls) :
    t.Patches c key v change :=
  ⟨hmeets.found, hcalls.trans (List.append_assoc ..)⟩

/-- **A turn patches the resource it was shown if there is a change to be made, and otherwise it
leaves all alone.** -/
theorem patches_or_leavesAlone (t : Turn ρ) (c : Collection) :
    (∃ key v change, t.Meets c key v ∧ t.change? v = .ok (some change) ∧
      t.Patches c key v change ∧ t.Concludes c key (MergePatch.apply v change)) ∨
    (t.LeavesAlone c ∧ ∀ key v change, t.Meets c key v → t.change? v ≠ .ok (some change)) := by
  have h := t.reconciled c
  generalize hreport : t.report c = r, hafter : t.after c = c' at h
  -- only a change that was made is sent, so the four cases without one leave all alone
  cases h with
  | astray hkey hr =>
    have hcalls : (t.after c).calls = c.calls ++ [] := by rw [hafter, List.append_nil]
    refine .inr ⟨⟨⟨[], hcalls, by simp⟩, by rw [hafter], hreport ▸ hr _⟩, fun key v change h => ?_⟩
    cases hkey.symm.trans h.named
  | @unread key _ hkey hget hr =>
    refine .inr ⟨leavesAlone_of_get hafter (hreport ▸ hr _), fun key' v change h => ?_⟩
    obtain rfl := Option.some.inj (hkey.symm.trans h.named)
    exact absurd h (hget v)
  | broken hmeets hchange =>
    refine .inr ⟨leavesAlone_of_get hafter (by simp [hreport]), fun key v change h => ?_⟩
    obtain ⟨rfl, rfl⟩ := hmeets.unique h
    simp [hchange]
  | fresh hmeets hchange =>
    refine .inr ⟨leavesAlone_of_get hafter ?_, fun key v change h => ?_⟩
    · rw [hreport]
      exact fun heq => wasFresh_ne_stamped t.stamper (Except.ok.inj heq)
    · obtain ⟨rfl, rfl⟩ := hmeets.unique h
      simp [hchange]
  | @refused key v change f hmeets hchange =>
    have hpatches : t.Patches c key v change := patches_of_calls hmeets (by rw [hafter])
    have hkept : (t.after c).documents = c.documents := by
      rw [hafter]
      rfl
    exact .inl ⟨key, v, change, hmeets, hchange, hpatches, .inr ⟨⟨f, hreport⟩, hkept⟩⟩
  | @stamped key v change hmeets hchange =>
    have hpatches : t.Patches c key v change := patches_of_calls hmeets (by rw [hafter]; rfl)
    refine .inl ⟨key, v, change, hmeets, hchange, hpatches, .inl ⟨hreport, ?_, ?_⟩⟩
    · rw [hafter, Collection.find?_put_self]
    · intro other hother
      rw [hafter, Collection.find?_put_of_ne hother]
      rfl

/-- A stamp is said to be fresh only of a resource that was found with nothing to be changed. -/
theorem fresh_of_report {t : Turn ρ} {c : Collection} (h : t.report c = .ok t.stamper.wasFresh) :
    ∃ key v, t.Meets c key v ∧ t.change? v = .ok none := by
  have hreconciled := t.reconciled c
  generalize t.report c = r, t.after c = c' at h hreconciled
  cases hreconciled with
  | astray _ hr => exact absurd h (hr _)
  | unread _ _ hr => exact absurd h (hr _)
  | broken => cases h
  | fresh hmeets hchange => exact ⟨_, _, hmeets, hchange⟩
  | refused => cases h
  | stamped => exact absurd (Except.ok.inj h).symm (wasFresh_ne_stamped t.stamper)

/-! ## What a change is like -/

/-- **A change sets the stamp of a resource and nothing else.** -/
structure SetsStamp (stamp : String) (v change : Value) : Prop where
  /-- a resource that has the stamp already is not changed -/
  unchanged : v.at? Stamp.path = some (.text stamp) → change = .map []
  /-- all that is asked for otherwise is the stamp in its place -/
  nested : v.at? Stamp.path ≠ some (.text stamp) → change =
    .map [(.text "metadata", .map [(.text "annotations", .map
      [(.text Stamp.annotation, .text stamp)])])]
  carriedOut : MergePatch.apply v change = setAt Stamp.path (.text stamp) v
  stamped : (MergePatch.apply v change).at? Stamp.path = some (.text stamp)
  others : ∀ other, Branches Stamp.path other →
    (MergePatch.apply v change).at? other = v.at? other

/-- The change of a turn is such a change. -/
theorem setsStamp_of_change? {t : Turn ρ} {v change : Value} (hjson : IsJson v)
    (h : t.change? v = .ok (some change)) : SetsStamp t.stamp v change := by
  obtain ⟨hroom, _, rfl⟩ := Stamp.change?_eq_some_iff.mp h
  have happly := Stamp.apply_patchBetween (s := t.stamp) hjson hroom
  refine ⟨Stamp.patchBetween_of_at? hjson hroom, Stamp.patchBetween_of_ne hjson hroom, happly, ?_,
    fun other hother => ?_⟩
  · rw [← stamp, happly, at?_setAt]
  · rw [← stamp, happly, at?_setAt_of_branches hother]

variable {t : Turn ρ} {c : Collection} {key key' : Key} {v v' change change' : Value}

/-- A turn patches one resource only, and in one way. -/
theorem Patches.unique (h : t.Patches c key v change) (h' : t.Patches c key' v' change') :
    key' = key ∧ v' = v ∧ change' = change := by
  have hcalls := List.append_cancel_left (h'.calls.symm.trans h.calls)
  obtain ⟨_, hpatch⟩ := List.cons.inj hcalls
  obtain ⟨_, rfl, rfl⟩ := Call.patch.inj (List.cons.inj hpatch).1
  exact ⟨rfl, Option.some.inj (h'.found.symm.trans h.found), rfl⟩

/-- A turn that leaves all alone patches nothing. -/
theorem LeavesAlone.not_patches (h : t.LeavesAlone c) : ¬ t.Patches c key v change := by
  intro hpatches
  obtain ⟨made, hmade, hget⟩ := h.calls
  obtain rfl := List.append_cancel_left (hmade.symm.trans hpatches.calls)
  have haction := hget (.patch c.kind key change) (by simp)
  cases haction

/-- **A resource that is patched has changed as a change does, or not at all.** -/
theorem Patches.cases (h : t.Patches c key v change) :
    t.Meets c key v ∧ t.change? v = .ok (some change) ∧
      t.Concludes c key (MergePatch.apply v change) := by
  rcases t.patches_or_leavesAlone c with ⟨key', v', change', hmeets, hchange, h', hend⟩ | ⟨halone, _⟩
  · obtain ⟨rfl, rfl, rfl⟩ := h.unique h'
    exact ⟨hmeets, hchange, hend⟩
  · exact absurd h halone.not_patches

/-- A turn patches a resource it gets to see if there is a change to be made. -/
theorem Meets.patches_iff (hmeets : t.Meets c key v) :
    t.Patches c key v change ↔ t.change? v = .ok (some change) := by
  refine ⟨fun h => h.cases.2.1, fun hchange => ?_⟩
  rcases t.patches_or_leavesAlone c with ⟨key', v', change', hmeets', hchange', h, _⟩ | ⟨_, hnone⟩
  · obtain ⟨rfl, rfl⟩ := hmeets.unique hmeets'
    obtain rfl := Option.some.inj (Except.ok.inj (hchange.symm.trans hchange'))
    exact h
  · exact absurd hchange (hnone key v change hmeets)

/-- **Reconciling changes nothing but the stamp.**  Over resources of JSON, a turn that gets to see a
resource with room for a stamp patches it exactly if its stamp is stale; whatever it patches, it asks
for the stamp and nothing else, and if that is accepted the resource has the stamp and is as it was
otherwise; and if it does not patch, it makes no request for a change. -/
theorem reconcile_changes_stamp_only (t : Turn ρ) {c : Collection}
    (hjson : ∀ key v, c.find? key = some v → IsJson v) :
    (∀ key v stamp, t.Meets c key v → Stamp.HasRoom v →
      Stamp.textOf? (v.at? Stamp.path) = .ok stamp →
      ((∃ change, t.Patches c key v change) ↔ Stamp.isStale t.stamper.windows t.rule.created stamp
        (.utc t.now) = .ok true)) ∧
    (∀ key v change, t.Patches c key v change →
      SetsStamp t.stamp v change ∧ t.Concludes c key (MergePatch.apply v change)) ∧
    ((¬ ∃ key v change, t.Patches c key v change) → t.LeavesAlone c) := by
  refine ⟨fun key v stamp hmeets hroom hstamp => ?_, fun key v change h => ?_, fun hnone => ?_⟩
  · constructor
    · rintro ⟨change, h⟩
      obtain ⟨-, ⟨stamp', hstamp', hstale⟩, -⟩ := Stamp.change?_eq_some_iff.mp h.cases.2.1
      obtain rfl := Except.ok.inj (hstamp.symm.trans hstamp')
      exact hstale
    · intro hstale
      exact ⟨_, hmeets.patches_iff.mpr
        (Stamp.change?_eq_some_iff.mpr ⟨hroom, ⟨stamp, hstamp, hstale⟩, rfl⟩)⟩
  · obtain ⟨_, hchange, hend⟩ := h.cases
    exact ⟨setsStamp_of_change? (hjson key v h.found) hchange, hend⟩
  · rcases t.patches_or_leavesAlone c with ⟨key, v, change, _, _, h, _⟩ | ⟨halone, _⟩
    · exact absurd ⟨key, v, change, h⟩ hnone
    · exact halone

end Turn

/-- The start of a year, a second and a half past midnight. -/
def startOf (year : Nat) : Instant := daysBeforeYear year * microsPerDay + 1500000

/-- A rule that starts from an app. -/
def shopRule (created : Instant) : Rule where
  id := "rule"
  name := ""
  source := { Endpoint.empty with app := some ⟨"shop", ""⟩ }
  destination := .empty
  removed := false
  metadata := []
  created := .utc created
  creator := ""

/-- Reconciling that rule, its source being resolved to a pool. -/
def shopTurn (created now : Instant) : Turn Unit where
  stamper := ⟨.app, "tsuru", .standard⟩
  resolver := some fun _ state => (.ok (some ⟨"cluster", [], "pool"⟩), state)
  state := ()
  now := now
  rule := shopRule created

/-- The app the rule starts from, without metadata. -/
def bareShop : Value := .map [(.text "spec", .map [(.text "image", .null)])]

/-- A collection of that app alone. -/
def shopApps : Collection := ⟨.app, [(⟨"tsuru", "shop"⟩, bareShop)], [], []⟩

theorem isJson_shopApps (key : Key) (v : Value) (h : shopApps.find? key = some v) : IsJson v := by
  have hv : v = bareShop := by
    rw [Collection.find?, shopApps, List.lookup_cons] at h
    split at h
    · exact (Option.some.inj h).symm
    · cases h
  have himage : IsJson (.map [(.text "image", .null)]) :=
    .map _ ⟨by simp, by simp⟩ (by simpa using IsJson.scalar .null rfl)
  rw [hv]
  exact .map _ ⟨by simp, by simp⟩ (by simpa using himage)

theorem hasRoom_bareShop : Stamp.HasRoom bareShop :=
  ⟨⟨_, rfl⟩, fun _ hw => (nomatch hw), fun _ hw => (nomatch hw)⟩

/-- An app without metadata is given them, and its blank image stays. -/
theorem reconcile_changes_stamp_only_bareShop :
    ∃ change, (shopTurn 0 (startOf 2024)).Patches shopApps ⟨"tsuru", "shop"⟩ bareShop change ∧
      change = .map [(.text "metadata", .map [(.text "annotations", .map
        [(.text Stamp.annotation, .text "2024-01-01T00:00:01Z")])])] ∧
      (MergePatch.apply bareShop change).at? ["spec", "image"] = some .null := by
  have hstamp : (shopTurn 0 (startOf 2024)).stamp = "2024-01-01T00:00:01Z" := by decide +kernel
  have hnone : bareShop.at? Stamp.path = none := rfl
  obtain ⟨hpatches, hsets, -⟩ :=
    Turn.reconcile_changes_stamp_only (shopTurn 0 (startOf 2024)) isJson_shopApps
  obtain ⟨change, h⟩ := (hpatches ⟨"tsuru", "shop"⟩ bareShop none ⟨rfl, rfl, rfl⟩
    hasRoom_bareShop rfl).mpr rfl
  obtain ⟨hset, -⟩ := hsets _ _ _ h
  rw [hstamp] at hset
  refine ⟨change, h, hset.nested (by simp [hnone]), ?_⟩
  rw [hset.others ["spec", "image"] (by decide)]
  rfl

end Engine

end AccessRules
