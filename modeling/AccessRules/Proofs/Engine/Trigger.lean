import AccessRules.Proofs.Engine.StampRun

/-!
# No trigger is lost

**Program** — runs of turns over a resource (`Engine.run`), in which nobody else writes its stamp.

**Spec** — once a rule was said to be triggered after its grace, the stamp of the resource stays later
than a second before the end of that grace, whatever the turns that follow do
(`trigger_not_lost`).

**Crux** — the stamp may go back, from a time to come to the time of a turn, so it is not the stamp
itself that is kept but a bound below it (`Covers`).  A rule that is triggered finds a stamp beyond
its grace or puts the time of its turn there, and from then on every turn is later than the grace
and loses less than a second of its time.
-/

namespace AccessRules.Engine

open Calendar Resource Value

variable {ρ : Type} {key : Key} {c : Collection} {v : Value} {bound : Instant}

/-- A rule was triggered: its resource was stamped, or its stamp was fresh. -/
def Turn.Triggers (t : Turn ρ) (c : Collection) : Prop :=
  t.report c = .ok t.stamper.stamped ∨ t.report c = .ok t.stamper.wasFresh

/-- The stamp of a resource can be read and is later than a bound. -/
def Covers (bound : Instant) (v : Value) : Prop :=
  ∃ s m, v.at? Stamp.path = some (.text s) ∧ Stamp.read? s = some m ∧ bound < m.instant

/-- The stamp of a turn covers all but the last second before it. -/
theorem covers_of_stamp {t : Turn ρ} (hyears : 1000 ≤ yearAt t.now ∧ yearAt t.now ≤ lastYear)
    (hbound : bound + microsPerSecond ≤ t.now) (hv : v.at? Stamp.path = some (.text t.stamp)) :
    Covers bound v := by
  refine ⟨_, _, hv, Stamp.read?_ofInstant hyears.1 hyears.2, ?_⟩
  have hlt := lt_wholeSecond t.now
  rw [Moment.instant_utc]
  lia

/-- A stamp that is as it was covers what it covered. -/
theorem Covers.of_eq {v' : Value} (h : Covers bound v)
    (hv : v'.at? Stamp.path = v.at? Stamp.path) : Covers bound v' := by
  obtain ⟨s, m, hs, hread, hlt⟩ := h
  exact ⟨s, m, hv.trans hs, hread, hlt⟩

/-- **A run of later turns covers what was covered before.** -/
theorem Covers.run {events : List (Event ρ)} (h : Holds key c v) (hcovers : Covers bound v)
    (hproper : IsProper key events)
    (hlater : ∀ t, .turn t ∈ events → bound + microsPerSecond ≤ t.now) :
    ∃ v', Holds key (run c events) v' ∧ Covers bound v' := by
  obtain ⟨v', h', hstamp⟩ := run_holds h hproper.edits
  refine ⟨v', h', ?_⟩
  rcases hstamp with hsame | ⟨t, hmem, hnew⟩
  · exact hcovers.of_eq hsame
  · exact covers_of_stamp (hproper.years t hmem) (hlater t hmem) hnew

/-- A rule that is triggered after its grace leaves a stamp that covers it. -/
theorem Turn.Triggers.covers {t : Turn ρ} (htriggers : t.Triggers c) (hkey : t.key? = some key)
    (h : Holds key c v) (hyears : 1000 ≤ yearAt t.now ∧ yearAt t.now ≤ lastYear)
    (hgrace : t.rule.created.instant + t.stamper.windows.grace ≤ t.now) :
    ∃ v', Holds key (t.after c) v' ∧
      Covers (t.rule.created.instant + t.stamper.windows.grace - microsPerSecond) v' := by
  have hbound : t.rule.created.instant + t.stamper.windows.grace - microsPerSecond +
      microsPerSecond ≤ t.now := by lia
  obtain ⟨v', h', hstamp, hstamped⟩ := t.after_holds h
  refine ⟨v', h', ?_⟩
  rcases htriggers with hreport | hreport
  · exact covers_of_stamp hyears hbound (hstamped hkey hreport)
  rcases hstamp with hsame | hnew
  · -- the stamp that was found fresh is beyond the grace
    obtain ⟨key', v'', hmeets, hchange⟩ := Turn.fresh_of_report hreport
    obtain rfl := Option.some.inj (hmeets.named.symm.trans hkey)
    obtain rfl := Option.some.inj (hmeets.found.symm.trans h.found)
    obtain ⟨stamp, htext, hfresh⟩ := Stamp.change?_eq_none h.room hchange
    obtain ⟨s, last, rfl, hread, hle⟩ := Stamp.isStale_eq_false hfresh
    refine Covers.of_eq ⟨s, last, Stamp.textOf?_eq_some htext, hread, ?_⟩ hsame
    dsimp only [Instant, microsPerSecond] at *
    omega
  · exact covers_of_stamp hyears hbound hnew

/-- **No trigger is lost.**  In every run of turns over a resource, by any rules, whose clock never
goes back and in which nobody else writes the stamp: once a rule was said to be triggered at a time
after its grace, then and ever after the stamp of the resource can be read and names a time later
than a second before the end of that grace. -/
theorem trigger_not_lost {before after : List (Event ρ)} {t : Turn ρ} (h : Holds key c v)
    (hproper : IsProper key (before ++ .turn t :: after)) (hkey : t.key? = some key)
    (htriggers : t.Triggers (run c before))
    (hgrace : t.rule.created.instant + t.stamper.windows.grace ≤ t.now) :
    ∃ v' s m, Holds key (run c (before ++ .turn t :: after)) v' ∧
      v'.at? Stamp.path = some (.text s) ∧ Stamp.read? s = some m ∧
      t.rule.created.instant + t.stamper.windows.grace - microsPerSecond < m.instant := by
  have hbefore : IsProper key before := hproper.sublist (List.sublist_append_left ..)
  have hafter : IsProper key after :=
    hproper.sublist ((List.sublist_cons_self ..).trans (List.sublist_append_right ..))
  obtain ⟨v₁, h₁, _⟩ := run_holds h hbefore.edits
  obtain ⟨v₂, h₂, hcovers⟩ := htriggers.covers hkey h₁ (hproper.years t (by simp)) hgrace
  obtain ⟨v₃, h₃, s, m, hs, hread, hlt⟩ := hcovers.run h₂ hafter fun t' hmem => by
    have hle := hproper.le t' hmem
    lia
  refine ⟨v₃, s, m, ?_, hs, hread, hlt⟩
  rw [run_append]
  exact h₃

/-- A rule that is triggered at the very end of its grace, and the same rule a year later. -/
theorem trigger_not_lost_shop :
    ∃ v s m, Holds ⟨"tsuru", "shop"⟩ (run shopApps
        [.turn (shopTurn (startOf 2024 - Stamp.Windows.standard.grace) (startOf 2024)),
          .turn (shopTurn 0 (startOf 2025))]) v ∧
      v.at? Stamp.path = some (.text s) ∧ Stamp.read? s = some m ∧
      startOf 2024 - microsPerSecond < m.instant := by
  have hproper : IsProper ⟨"tsuru", "shop"⟩ ([] ++
      .turn (shopTurn (startOf 2024 - Stamp.Windows.standard.grace) (startOf 2024)) ::
        [.turn (shopTurn 0 (startOf 2025))]) :=
    isProper_shopTurns (by decide +kernel) (by decide +kernel) (by decide +kernel)
      (by decide +kernel) (by decide +kernel)
  obtain ⟨v, s, m, hv, hs, hm, hlt⟩ := trigger_not_lost holds_bareShop hproper rfl
    (.inl rfl) (by decide +kernel)
  refine ⟨v, s, m, hv, hs, hm, ?_⟩
  have hgrace : (shopTurn (startOf 2024 - Stamp.Windows.standard.grace)
      (startOf 2024)).rule.created.instant + Stamp.Windows.standard.grace = startOf 2024 := by
    decide +kernel
  exact hgrace ▸ hlt

end AccessRules.Engine
