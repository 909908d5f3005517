import AccessRules.Proofs.Engine.StampRun
import AccessRules.Proofs.Pass.Dealing

/-!
# Stamping engines in passes

**Program** — a pass lets a stamping engine deal with a rule (`Pass.applyRule`), which may come to a
turn of the engine (`Stamper.reconcile`) or not.

**Spec** — of the resources of a kind a dealing leaves what they were, or what one turn of the engine
makes of them, at the time at which the dealing began; and a dealing that succeeded with a turn has
the report of that turn (`Dealing.cases_of_stamper`).

**Crux** — locks are not touched by engines and resources are not touched by locks, so the
surroundings after a dealing are the ones before, or the ones that reconciling leaves
(`Dealing.around_cases`).
-/

namespace AccessRules

open Engine Resource

/-! ## Dealings and reconciling -/

namespace Pass.Dealing

/-- With an engine that deals with every rule a dealing does nothing to the surroundings, or it does
what reconciling does. -/
theorem around_cases {σ : Type} {d : Dealing σ}
    (hadmits : ∀ s, d.engine.admits d.rule s = (.ok true, s)) :
    d.after.around = d.world.around ∨
      (d.after.around = (d.engine.reconcile d.rule d.world.around).2 ∧
        (d.result.status = .succeeded →
          ∃ report, (d.engine.reconcile d.rule d.world.around).1 = .ok report)) := by
  have hadmitted : (d.engine.admits d.rule d.world.around).1 = .ok true := by rw [hadmits]
  rw [after, result, deal, applyRule_of_allowed hadmitted, hadmits]
  cases hstart : d.world.startLock d.mode d.rule.id d.engine.name with
  | mk answer w =>
  have haround : w.around = d.world.around := by
    rw [← d.world.startLock_around d.mode d.rule.id d.engine.name, hstart]
  cases answer with
  | error f => exact .inl haround
  | ok record =>
    simp only [carryOut_around, carryOut_fst, haround]
    by_cases hgone : isGone d.rule record.latest? = true
    · rw [reconcile_of_isGone hgone]
      exact .inl rfl
    · have hpending := Bool.eq_false_iff.mpr hgone
      refine .inr ⟨(reconcile_of_not_isGone hpending d.engine d.world.around).1, fun hstatus => ?_⟩
      rw [reconcile, if_neg hgone] at hstatus
      rcases hanswer : d.engine.reconcile d.rule d.world.around with ⟨f | report, s⟩
      · rw [hanswer] at hstatus
        cases hstatus
      · exact ⟨report, rfl⟩

end Pass.Dealing

/-! ## Turns of stamping engines -/

namespace Engine.Stamper

/-- The turn of a stamping engine that is to reconcile a rule in some surroundings. -/
def turn (s : Stamper) (connection : Directory.Connection) (rule : Rule)
    (around : Surroundings Workshop) : Turn Resolution.Cache where
  stamper := s
  resolver := some (Resolution.Cache.resolve connection)
  state := around.state.cache
  now := around.now
  rule := rule

variable {s : Stamper} {connection : Directory.Connection} {rule : Rule}
  {around : Surroundings Workshop}

theorem engine_reconcile_now :
    ((s.engine connection).reconcile rule around).2.now = around.now := rfl

/-- Reconciling in a pass is a turn at the resources of the kind of the engine. -/
theorem engine_reconcile_collection :
    ((s.engine connection).reconcile rule around).2.state.collection s.kind =
      (s.turn connection rule around).after (around.state.collection s.kind) := by
  rcases s with ⟨_ | _, space, windows⟩ <;> rfl

/-- The resources of another kind are not touched. -/
theorem engine_reconcile_collection_of_ne {kind : Resource.Kind} (h : s.kind ≠ kind) :
    ((s.engine connection).reconcile rule around).2.state.collection kind =
      around.state.collection kind := by
  rcases s with ⟨_ | _, space, windows⟩ <;> cases kind
  · exact absurd rfl h
  · rfl
  · rfl
  · exact absurd rfl h

end Engine.Stamper

namespace Pass.Dealing

/-- A dealing comes to a turn: the rule is reconciled when the dealing begins, the resources of a
kind are what the turn leaves, and if the dealing succeeds the turn has a report. -/
structure ComesTo (kind : Resource.Kind) (d : Dealing Workshop) (t : Engine.Turn Resolution.Cache) :
    Prop where
  rule : t.rule = d.rule
  now : t.now = d.world.around.now
  clock : d.after.around.now = d.world.around.now
  collection : d.after.around.state.collection kind =
    t.after (d.world.around.state.collection kind)
  report : d.result.status = .succeeded →
    ∃ report, t.report (d.world.around.state.collection kind) = .ok report

/-- **A dealing of a stamping engine** leaves the clock and the resources of a kind, or it comes to a
turn of that engine. -/
theorem cases_of_stamper {d : Dealing Workshop} {s : Stamper} {connection : Directory.Connection}
    (hengine : d.engine = s.engine connection) (kind : Resource.Kind) :
    (d.after.around.now = d.world.around.now ∧
      d.after.around.state.collection kind = d.world.around.state.collection kind) ∨
    (s.kind = kind ∧ ∃ t, t.stamper = s ∧ d.ComesTo kind t) := by
  obtain ⟨mode, e, rule, w⟩ := d
  obtain rfl : e = s.engine connection := hengine
  rcases around_cases (d := ⟨mode, s.engine connection, rule, w⟩) (fun _ => rfl) with
    haround | ⟨haround, hreport⟩
  · rw [haround]
    exact .inl ⟨rfl, rfl⟩
  · by_cases hkind : s.kind = kind
    · subst hkind
      refine .inr ⟨rfl, s.turn connection rule w.around, rfl, rfl, rfl, ?_, ?_, hreport⟩
      · rw [haround]
        exact Stamper.engine_reconcile_now
      · rw [haround]
        exact Stamper.engine_reconcile_collection
    · rw [haround]
      exact .inl ⟨Stamper.engine_reconcile_now, Stamper.engine_reconcile_collection_of_ne hkind⟩

end Pass.Dealing

end AccessRules
