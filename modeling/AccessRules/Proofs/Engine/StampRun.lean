import AccessRules.Proofs.Engine.Reconcile
import AccessRules.Proofs.Resource.StampTimes

/-!
# Runs of turns over a resource

**Program** — stamping engines take turns at reconciling rules (`Turn.after`), and in between
resources are changed by others in any way but one: nobody else writes the stamp of the resource in
question (`KeepsStamp`).

**Spec** — the stamp of the resource after a run is the one it had before, or the stamp of one of the
turns (`run_holds`).

**Crux** — a turn that patches the resource sets its stamp to the time of the turn, and any other
turn leaves it (`Turn.after_holds`); the rest is induction on the run.  Nothing is asked of the turns
but their clock, so they may be about any rules and any resources.
-/

namespace AccessRules.Engine

open Calendar Resource Value

variable {ρ : Type}

/-- What happens to the resources of a kind: a rule is reconciled, or something else changes them. -/
inductive Event (ρ : Type) where
  | turn (t : Turn ρ)
  | edit (change : Collection → Collection)

/-- The resources after something happened. -/
def Event.step (c : Collection) : Event ρ → Collection
  | .turn t => t.after c
  | .edit change => change c

/-- The resources after some things happened. -/
def run (c : Collection) (events : List (Event ρ)) : Collection := events.foldl Event.step c

theorem run_append (c : Collection) (a b : List (Event ρ)) : run c (a ++ b) = run (run c a) b := by
  rw [run, List.foldl_append]
  rfl

/-- A collection holds a resource: a document of JSON with room for a stamp. -/
structure Holds (key : Key) (c : Collection) (v : Value) : Prop where
  found : c.find? key = some v
  json : IsJson v
  room : Stamp.HasRoom v

/-- A change of the resources that does not remove the resource of a key or write its stamp. -/
def KeepsStamp (key : Key) (change : Collection → Collection) : Prop :=
  ∀ c v, Holds key c v → ∃ v', Holds key (change c) v' ∧ v'.at? Stamp.path = v.at? Stamp.path

/-- Nobody but the turns writes the stamp of a resource, and their clock never goes back and stays
within the years whose stamps can be read. -/
structure IsProper (key : Key) (events : List (Event ρ)) : Prop where
  edits : ∀ change, .edit change ∈ events → KeepsStamp key change
  years : ∀ t, .turn t ∈ events → 1000 ≤ yearAt t.now ∧ yearAt t.now ≤ lastYear
  ordered : events.Pairwise fun e e' => ∀ t t', e = .turn t → e' = .turn t' → t.now ≤ t'.now

variable {key : Key} {c : Collection} {v : Value} {events : List (Event ρ)}

/-- Some of the things that happened, in their order, are a run of their own. -/
theorem IsProper.sublist (h : IsProper key events) {part : List (Event ρ)}
    (hpart : part.Sublist events) : IsProper key part where
  edits change hmem := h.edits change (hpart.subset hmem)
  years t hmem := h.years t (hpart.subset hmem)
  ordered := h.ordered.sublist hpart

/-- Later turns have later times. -/
theorem IsProper.le {before after : List (Event ρ)} {t : Turn ρ}
    (h : IsProper key (before ++ .turn t :: after)) :
    ∀ t', .turn t' ∈ after → t.now ≤ t'.now := fun t' hmem =>
  (List.pairwise_cons.mp (List.pairwise_append.mp h.ordered).2.1).1 _ hmem t t' rfl rfl

/-! ## One step -/

/-- **After a turn the resource is there with the stamp it had or the stamp of the turn**; and with
the latter, if its patch was accepted. -/
theorem Turn.after_holds (t : Turn ρ) (h : Holds key c v) :
    ∃ v', Holds key (t.after c) v' ∧
      (v'.at? Stamp.path = v.at? Stamp.path ∨ v'.at? Stamp.path = some (.text t.stamp)) ∧
      (t.key? = some key → t.report c = .ok t.stamper.stamped →
        v'.at? Stamp.path = some (.text t.stamp)) := by
  have hsame : (t.after c).documents = c.documents → Holds key (t.after c) v := fun hdocuments => by
    refine ⟨?_, h.json, h.room⟩
    rw [Collection.find?, hdocuments]
    exact h.found
  rcases t.patches_or_leavesAlone c with
    ⟨key', v', change, hmeets, hchange, _, hend⟩ | ⟨halone, _⟩
  · rcases hend with ⟨_, hfound, hothers⟩ | ⟨⟨f, hrefused⟩, hdocuments⟩
    · by_cases hkey : key' = key
      · -- the resource was patched
        subst hkey
        obtain rfl := Option.some.inj (hmeets.found.symm.trans h.found)
        have hset := Turn.setsStamp_of_change? h.json hchange
        have hjson : IsJson (MergePatch.apply v' change) := by
          rw [hset.carriedOut]
          exact h.json.setAt (.scalar (.text t.stamp) rfl) Stamp.path
        exact ⟨_, ⟨hfound, hjson, .of_at? hset.stamped⟩, .inr hset.stamped,
          fun _ _ => hset.stamped⟩
      · -- another resource was patched
        refine ⟨v, ⟨?_, h.json, h.room⟩, .inl rfl, fun hnamed _ => ?_⟩
        · rw [hothers key (Ne.symm hkey)]
          exact h.found
        · exact absurd (Option.some.inj (hmeets.named.symm.trans hnamed)) hkey
    · refine ⟨v, hsame hdocuments, .inl rfl, fun _ hreport => ?_⟩
      rw [hrefused] at hreport
      cases hreport
  · exact ⟨v, hsame halone.documents, .inl rfl, fun _ hreport => absurd hreport halone.report⟩

/-! ## Runs -/

/-- **After a run the stamp is the one from before, or that of one of its turns.** -/
theorem run_holds (h : Holds key c v) (hedits : ∀ change, .edit change ∈ events →
    KeepsStamp key change) :
    ∃ v', Holds key (run c events) v' ∧ (v'.at? Stamp.path = v.at? Stamp.path ∨
      ∃ t, .turn t ∈ events ∧ v'.at? Stamp.path = some (.text t.stamp)) := by
  induction events generalizing c v with
  | nil => exact ⟨v, h, .inl rfl⟩
  | cons e events ih =>
    have hrest : ∀ change, .edit change ∈ events → KeepsStamp key change :=
      fun change hmem => hedits change (List.mem_cons_of_mem _ hmem)
    cases e with
    | edit change =>
      obtain ⟨v', h', hstamp⟩ := hedits change (List.mem_cons_self ..) c v h
      obtain ⟨v'', h'', hstamp'⟩ := ih h' hrest
      refine ⟨v'', h'', ?_⟩
      rcases hstamp' with hsame | ⟨t, hmem, ht⟩
      · exact .inl (hsame.trans hstamp)
      · exact .inr ⟨t, List.mem_cons_of_mem _ hmem, ht⟩
    | turn t =>
      obtain ⟨v', h', hstamp, _⟩ := t.after_holds h
      obtain ⟨v'', h'', hstamp'⟩ := ih h' hrest
      refine ⟨v'', h'', ?_⟩
      rcases hstamp' with hsame | ⟨t', hmem, ht'⟩
      · rcases hstamp with hkept | hnew
        · exact .inl (hsame.trans hkept)
        · exact .inr ⟨t, List.mem_cons_self .., hsame.trans hnew⟩
      · exact .inr ⟨t', List.mem_cons_of_mem _ hmem, ht'⟩

/-! ## An app and a rule -/

theorem holds_bareShop : Holds ⟨"tsuru", "shop"⟩ shopApps bareShop :=
  ⟨rfl, isJson_shopApps ⟨"tsuru", "shop"⟩ _ rfl, hasRoom_bareShop⟩

/-- Two turns in the order of their times. -/
theorem isProper_shopTurns {created created' now now' : Instant}
    (hlow : 1000 ≤ yearAt now) (hhigh : yearAt now ≤ lastYear) (hlow' : 1000 ≤ yearAt now')
    (hhigh' : yearAt now' ≤ lastYear) (hle : now ≤ now') :
    IsProper ⟨"tsuru", "shop"⟩ [.turn (shopTurn created now), .turn (shopTurn created' now')] where
  edits change hmem := by simp at hmem
  years t hmem := by
    simp only [List.mem_cons, List.not_mem_nil, or_false, Event.turn.injEq] at hmem
    rcases hmem with rfl | rfl
    · exact ⟨hlow, hhigh⟩
    · exact ⟨hlow', hhigh'⟩
  ordered := by
    refine List.pairwise_pair.mpr fun t t' ht ht' => ?_
    obtain rfl := Event.turn.inj ht
    obtain rfl := Event.turn.inj ht'
    exact hle

end AccessRules.Engine
