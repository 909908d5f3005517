import AccessRules.Proofs.Engine.StampPass
import AccessRules.Proofs.Pass.RemovedOnce

/-!
# The cooldown of stamps

**Program** — runs of turns over a resource in which nobody else writes its stamp (`Engine.run`), and
passes of stamping engines, which come to such turns (`Pass.run`).

**Spec** — after a resource was stamped it is not patched for a settled rule until its cooldown has
passed since that whole second, and then it is (`cooldown_limits_patches`).  In one pass at one clock
time at most one patch for a settled rule is accepted.

**Crux** — turns of rules that are not settled may stamp the resource again and again, but they only
ever move its stamp on.  So from the first stamp on the resource has the stamp of some time no
earlier than that (`holds_stamp_since`), and a rule that was settled then is settled for all of
them.  A pass is such a run at one time: once the resource has the stamp of that time it keeps it, and
no settled rule patches it any more (`Tally`).
-/

namespace AccessRules

open Calendar Resource Value

namespace Engine

variable {ρ : Type} {key : Key} {c : Collection} {v : Value}

/-! ## One turn -/

/-- **Within the cooldown of its stamp** a resource is not patched for a settled rule. -/
theorem Turn.not_patches_within {t : Turn ρ} {since stamped : Instant} (h : Holds key c v)
    (hyears : 1000 ≤ yearAt stamped ∧ yearAt stamped ≤ lastYear)
    (hv : v.at? Stamp.path = some (.text (Stamp.ofInstant stamped)))
    (hsettled : Stamp.isSettled t.stamper.windows t.rule.created since = true)
    (hsince : since ≤ stamped) (hnow : t.now ≤ wholeSecond stamped + t.stamper.windows.cooldown)
    (v' change : Value) : ¬ t.Patches c key v' change := by
  intro hpatches
  obtain rfl := Option.some.inj (hpatches.found.symm.trans h.found)
  obtain ⟨-, ⟨stamp, hstamp, hstale⟩, -⟩ := Stamp.change?_eq_some_iff.mp hpatches.cases.2.1
  rw [hv] at hstamp
  obtain rfl := Except.ok.inj hstamp
  exact Stamp.isStale_within hyears.1 hyears.2 hsettled hsince hnow hstale

/-- **After the cooldown of its stamp** a resource is patched for a settled rule. -/
theorem Turn.patches_beyond {t : Turn ρ} {stamped : Instant} (hmeets : t.Meets c key v)
    (hroom : Stamp.HasRoom v) (hyears : 1000 ≤ yearAt stamped ∧ yearAt stamped ≤ lastYear)
    (hv : v.at? Stamp.path = some (.text (Stamp.ofInstant stamped)))
    (hsettled : Stamp.isSettled t.stamper.windows t.rule.created stamped = true)
    (hstart : 0 ≤ wholeSecond stamped + t.stamper.windows.cooldown)
    (hnow : wholeSecond stamped + t.stamper.windows.cooldown < t.now)
    (hin : inCalendar t.now = true) : ∃ change, t.Patches c key v change := by
  have hstale := Stamp.isStale_beyond hyears.1 hyears.2 hsettled hstart hnow hin
  have hstamp : Stamp.textOf? (v.at? Stamp.path) = .ok (some (Stamp.ofInstant stamped)) := by
    rw [hv]
    rfl
  exact ⟨_, hmeets.patches_iff.mpr
    (Stamp.change?_eq_some_iff.mpr ⟨hroom, ⟨_, hstamp, hstale⟩, rfl⟩)⟩

/-- A turn about no other resource than one that it does not patch leaves all alone. -/
theorem Turn.leavesAlone_of_not_patches {t : Turn ρ}
    (hkey : ∀ key', t.key? = some key' → key' = key)
    (hnot : ∀ v change, ¬ t.Patches c key v change) : t.LeavesAlone c := by
  rcases t.patches_or_leavesAlone c with ⟨key', v', change, hmeets, _, hpatches, _⟩ | ⟨halone, _⟩
  · obtain rfl := hkey key' hmeets.named
    exact absurd hpatches (hnot v' change)
  · exact halone

/-- Who asks for a change of a resource patches it. -/
theorem Turn.patches_of_mem {t : Turn ρ} {call : Call}
    (hcall : call ∈ (t.after c).calls.drop c.calls.length) (haction : call.action = .patch) :
    ∃ v change, t.Patches c call.key v change := by
  rcases t.patches_or_leavesAlone c with ⟨key', v, change, _, _, hpatches, _⟩ | ⟨halone, _⟩
  · rw [hpatches.calls, List.drop_left] at hcall
    rcases List.mem_cons.mp hcall with rfl | hcall
    · cases haction
    · rw [List.mem_singleton.mp hcall]
      exact ⟨v, change, hpatches⟩
  · obtain ⟨made, hmade, hget⟩ := halone.calls
    rw [hmade, List.drop_left] at hcall
    cases haction.symm.trans (hget call hcall)

/-! ## Runs -/

/-- In a run, after some things happened, a turn stamped a resource, and after some more there is a
turn about no other resource, for a rule that was settled by then. -/
structure ComesAfter (key : Key) (c : Collection) (before : List (Event ρ)) (t : Turn ρ)
    (between : List (Event ρ)) (t' : Turn ρ) : Prop where
  proper : IsProper key (before ++ .turn t :: between ++ [.turn t'])
  named : t.key? = some key
  accepted : t.report (run c before) = .ok t.stamper.stamped
  settled : Stamp.isSettled t'.stamper.windows t'.rule.created t.now = true
  same : ∀ key', t'.key? = some key' → key' = key

section Runs

variable {before between : List (Event ρ)} {t t' : Turn ρ}

theorem ComesAfter.years (h : ComesAfter key c before t between t') :
    1000 ≤ yearAt t.now ∧ yearAt t.now ≤ lastYear := h.proper.years t (by simp)

/-- **From the time of a stamp on** the resource has a stamp of that time or of a later one. -/
theorem holds_stamp_since (h : Holds key c v) (hafter : ComesAfter key c before t between t') :
    ∃ v' stamped, Holds key (run c (before ++ .turn t :: between)) v' ∧
      (1000 ≤ yearAt stamped ∧ yearAt stamped ≤ lastYear) ∧ t.now ≤ stamped ∧
      v'.at? Stamp.path = some (.text (Stamp.ofInstant stamped)) := by
  have hproper : IsProper key (before ++ .turn t :: between) :=
    hafter.proper.sublist (List.sublist_append_left ..)
  obtain ⟨v₁, h₁, _⟩ := run_holds h fun change hmem =>
    hproper.edits change (List.mem_append_left _ hmem)
  obtain ⟨v₂, h₂, _, hstamped⟩ := t.after_holds h₁
  have hv₂ := hstamped hafter.named hafter.accepted
  obtain ⟨v₃, h₃, hstamp⟩ := run_holds h₂ fun change hmem =>
    hproper.edits change (List.mem_append_right _ (List.mem_cons_of_mem _ hmem))
  have hrun : Holds key (run c (before ++ .turn t :: between)) v₃ := by
    rw [run_append]
    exact h₃
  -- the stamp is still that of `t`, or a turn `m` in between has moved it on
  rcases hstamp with hsame | ⟨m, hmem, hm⟩
  · exact ⟨v₃, t.now, hrun, hafter.years, Int.le_refl _, hsame.trans hv₂⟩
  · have hyears := hproper.years m (List.mem_append_right _ (List.mem_cons_of_mem _ hmem))
    exact ⟨v₃, m.now, hrun, hyears, hproper.le m hmem, hm⟩

end Runs

end Engine

/-! ## Passes -/

namespace Pass

open Engine

/-- The calls for resources of a kind that were made in a dealing. -/
def Dealing.calls (kind : Resource.Kind) (d : Dealing Workshop) : List Call :=
  (d.after.around.state.collection kind).calls.drop
    (d.world.around.state.collection kind).calls.length

/-- Whether a change of a resource was asked for in a dealing, and accepted. -/
def Dealing.patches (kind : Resource.Kind) (key : Key) (d : Dealing Workshop) : Bool :=
  d.result.status = .succeeded &&
    (d.calls kind).any fun call => call.action = .patch && call.key = key

/-- Whether a change of a resource was accepted in a dealing with a rule that is settled. -/
def Dealing.patchesSettled (windows : Stamp.Windows) (kind : Resource.Kind) (key : Key)
    (d : Dealing Workshop) : Bool :=
  d.patches kind key && Stamp.isSettled windows d.rule.created d.world.around.now

section Tally

variable {windows : Stamp.Windows} {kind : Resource.Kind} {key : Key} {now : Instant}

/-- A world at some time, with a resource. -/
structure World.Has (kind : Resource.Kind) (key : Key) (now : Instant) (w : World Workshop)
    (v : Value) : Prop where
  now : w.around.now = now
  holds : Holds key (w.around.state.collection kind) v

/-- A world at some time, with a resource that was stamped at that time. -/
def World.IsStamped (kind : Resource.Kind) (key : Key) (now : Instant) (w : World Workshop) : Prop :=
  ∃ v, w.Has kind key now v ∧ v.at? Stamp.path = some (.text (Stamp.ofInstant now))

/-- **What is counted between two worlds**: at most one patch, and none where the resource was stamped
before; and after a patch it is stamped. -/
structure Tally (kind : Resource.Kind) (key : Key) (now : Instant) (w : World Workshop) (n : Nat)
    (w' : World Workshop) : Prop where
  kept : ∀ v, w.Has kind key now v → ∃ v', w'.Has kind key now v'
  stamped : w.IsStamped kind key now → n = 0 ∧ w'.IsStamped kind key now
  once : ∀ v, w.Has kind key now v → n = 0 ∨ (n = 1 ∧ w'.IsStamped kind key now)

variable {w w' w'' : World Workshop} {n m : Nat}

theorem Tally.refl (w : World Workshop) : Tally kind key now w 0 w :=
  ⟨fun v h => ⟨v, h⟩, fun h => ⟨rfl, h⟩, fun _ _ => .inl rfl⟩

theorem Tally.trans (h : Tally kind key now w n w') (h' : Tally kind key now w' m w'') :
    Tally kind key now w (n + m) w'' where
  kept v hv := by
    obtain ⟨v', hv'⟩ := h.kept v hv
    exact h'.kept v' hv'
  stamped hs := by
    obtain ⟨rfl, hs'⟩ := h.stamped hs
    obtain ⟨rfl, hs''⟩ := h'.stamped hs'
    exact ⟨rfl, hs''⟩
  once v hv := by
    -- a patch before leaves the resource stamped, which rules out one after it
    rcases h.once v hv with rfl | ⟨rfl, hs'⟩
    · obtain ⟨v', hv'⟩ := h.kept v hv
      rw [Nat.zero_add]
      exact h'.once v' hv'
    · obtain ⟨rfl, hs''⟩ := h'.stamped hs'
      exact .inr ⟨rfl, hs''⟩

section Dealings

variable {d : Dealing Workshop} {t : Engine.Turn Resolution.Cache}

/-- A dealing in which a change was accepted comes to a turn that stamped the resource. -/
theorem Dealing.ComesTo.of_patches (h : d.ComesTo kind t) (hpatches : d.patches kind key = true) :
    (∃ v change, t.Patches (d.world.around.state.collection kind) key v change) ∧
      t.key? = some key ∧
      t.report (d.world.around.state.collection kind) = .ok t.stamper.stamped := by
  simp only [Dealing.patches, Dealing.calls, h.collection, Bool.and_eq_true, List.any_eq_true,
    decide_eq_true_eq] at hpatches
  obtain ⟨hstatus, call, hcall, haction, rfl⟩ := hpatches
  obtain ⟨v, change, hturn⟩ := Turn.patches_of_mem hcall haction
  obtain ⟨hmeets, _, hend⟩ := hturn.cases
  refine ⟨⟨v, change, hturn⟩, hmeets.named, ?_⟩
  rcases hend with ⟨hstamped, _⟩ | ⟨⟨f, hrefused⟩, _⟩
  · exact hstamped
  · obtain ⟨report, hok⟩ := h.report hstatus
    cases hrefused.symm.trans hok

/-- A dealing that comes to a turn keeps the resource, with its stamp or with that of the time; and
with the latter, if a change was accepted. -/
theorem Dealing.ComesTo.has (h : d.ComesTo kind t) {v : Value} (hv : d.world.Has kind key now v) :
    ∃ v', d.after.Has kind key now v' ∧
      (v'.at? Stamp.path = v.at? Stamp.path ∨
        v'.at? Stamp.path = some (.text (Stamp.ofInstant now))) ∧
      (d.patches kind key = true →
        v'.at? Stamp.path = some (.text (Stamp.ofInstant now))) := by
  have hstampNow : t.stamp = Stamp.ofInstant now := congrArg Stamp.ofInstant (h.now.trans hv.now)
  obtain ⟨v', hv', hstamp, hstamped⟩ := t.after_holds hv.holds
  rw [hstampNow] at hstamp hstamped
  rw [← h.collection] at hv'
  refine ⟨v', ⟨h.clock.trans hv.now, hv'⟩, hstamp, fun hpatches => ?_⟩
  obtain ⟨_, hkey, haccepted⟩ := h.of_patches hpatches
  exact hstamped hkey haccepted

/-- A resource that was stamped at the time is not patched for a settled rule. -/
theorem Dealing.ComesTo.not_patchesSettled (h : d.ComesTo kind t)
    (hwindows : t.stamper.windows = windows) (hcooldown : microsPerSecond ≤ windows.cooldown)
    (hyears : 1000 ≤ yearAt now ∧ yearAt now ≤ lastYear) (hs : d.world.IsStamped kind key now) :
    ¬ d.patchesSettled windows kind key = true := by
  intro hboth
  simp only [Dealing.patchesSettled, Bool.and_eq_true] at hboth
  obtain ⟨v, hv, hstamped⟩ := hs
  obtain ⟨⟨v', change, hpatches⟩, _⟩ := h.of_patches hboth.1
  have hsettled : Stamp.isSettled t.stamper.windows t.rule.created now = true := by
    rw [hwindows, h.rule, ← hv.now]
    exact hboth.2
  have hnow : t.now ≤ wholeSecond now + t.stamper.windows.cooldown := by
    have hlt := lt_wholeSecond now
    rw [h.now, hv.now, hwindows]
    lia
  exact Turn.not_patches_within hv.holds hyears hstamped hsettled (Int.le_refl now) hnow v' change
    hpatches

/-- **One dealing of a stamping engine.** -/
theorem tally_dealing {s : Stamper} {connection : Directory.Connection}
    (hengine : d.engine = s.engine connection) (hwindows : s.kind = kind → s.windows = windows)
    (hcooldown : microsPerSecond ≤ windows.cooldown)
    (hyears : 1000 ≤ yearAt now ∧ yearAt now ≤ lastYear) :
    Tally kind key now d.world (if d.patchesSettled windows kind key then 1 else 0) d.after := by
  rcases Dealing.cases_of_stamper hengine kind with ⟨hnow, hsame⟩ | ⟨hkind, t, rfl, h⟩
  · -- nothing was asked for
    have hcalls : d.calls kind = [] := by rw [Dealing.calls, hsame, List.drop_length]
    have hnone : d.patchesSettled windows kind key = false := by
      simp [Dealing.patchesSettled, Dealing.patches, hcalls]
    have hhas : ∀ v, d.world.Has kind key now v → d.after.Has kind key now v := fun v hv =>
      ⟨hnow.trans hv.now, by rw [hsame]; exact hv.holds⟩
    rw [hnone]
    exact ⟨fun v hv => ⟨v, hhas v hv⟩, fun ⟨v, hv, hs⟩ => ⟨rfl, v, hhas v hv, hs⟩,
      fun _ _ => .inl rfl⟩
  refine ⟨fun v hv => ?_, fun hs => ?_, fun v hv => ?_⟩
  · obtain ⟨v', hv', _⟩ := h.has hv
    exact ⟨v', hv'⟩
  · refine ⟨if_neg (h.not_patchesSettled (hwindows hkind) hcooldown hyears hs), ?_⟩
    obtain ⟨v, hv, hstamped⟩ := hs
    obtain ⟨v', hv', hstamp, _⟩ := h.has hv
    exact ⟨v', hv', hstamp.elim (fun hkept => hkept.trans hstamped) id⟩
  · by_cases hboth : d.patchesSettled windows kind key = true
    · rw [if_pos hboth]
      simp only [Dealing.patchesSettled, Bool.and_eq_true] at hboth
      obtain ⟨v', hv', _, hstamped⟩ := h.has hv
      exact .inr ⟨rfl, v', hv', hstamped hboth.1⟩
    · exact .inl (if_neg hboth)

end Dealings

variable {mode : Mode} {connection : Directory.Connection}

/-- The dealings of an engine with some rules. -/
theorem tally_ruleDealings {s : Stamper} (hwindows : s.kind = kind → s.windows = windows)
    (hcooldown : microsPerSecond ≤ windows.cooldown)
    (hyears : 1000 ≤ yearAt now ∧ yearAt now ≤ lastYear) (rules : List Rule) (w : World Workshop) :
    Tally kind key now w
      ((ruleDealings mode (s.engine connection) rules w).countP (·.patchesSettled windows kind key))
      (applyRules mode (s.engine connection) rules w).2 := by
  induction rules generalizing w with
  | nil => exact .refl w
  | cons rule rules ih =>
    rw [ruleDealings, List.countP_cons, Nat.add_comm]
    exact (tally_dealing (d := ⟨mode, s.engine connection, rule, w⟩) rfl hwindows hcooldown
      hyears).trans (ih _)

/-- **The dealings of a pass.** -/
theorem tally_dealings {stampers : List Stamper}
    (hwindows : ∀ s ∈ stampers, s.kind = kind → s.windows = windows)
    (hcooldown : microsPerSecond ≤ windows.cooldown)
    (hyears : 1000 ≤ yearAt now ∧ yearAt now ≤ lastYear) (rules : List Rule) (w : World Workshop) :
    Tally kind key now w
      ((dealings mode rules (stampers.map (·.engine connection)) w).countP
        (·.patchesSettled windows kind key))
      (applyEngines mode rules (stampers.map (·.engine connection)) w).2 := by
  induction stampers generalizing w with
  | nil => exact .refl w
  | cons s stampers ih =>
    have hrest := ih (fun s' hs' => hwindows s' (List.mem_cons_of_mem _ hs'))
      (applyRules mode (s.engine connection) rules w).2
    rw [List.map_cons, dealings, List.countP_append]
    exact (tally_ruleDealings (hwindows s (List.mem_cons_self ..)) hcooldown hyears rules w).trans
      hrest

end Tally

end Pass

namespace Engine

/-- **Cooldown limits patching.**  In every run of turns over a resource, by any rules, whose clock
never goes back and in which nobody else writes the stamp: once a patch was accepted, a later turn
for a rule that was settled by then asks for no change as long as the cooldown has not passed since
that whole second, whatever happened in between; and it does ask for one after that if the stamp is
still the same.  So if the cooldown is at least a second, then of all the dealings of a pass at one
clock time, in which any rules may share a source, at most one has a patch of a resource accepted for
a rule that is settled. -/
theorem cooldown_limits_patches (key : Key) :
    (∀ (ρ : Type) (c : Collection) (v : Value) (before between : List (Event ρ)) (t t' : Turn ρ),
      Holds key c v → ComesAfter key c before t between t' →
      (t'.now ≤ wholeSecond t.now + t'.stamper.windows.cooldown →
        t'.LeavesAlone (run c (before ++ .turn t :: between))) ∧
      (∀ v', t'.Meets (run c (before ++ .turn t :: between)) key v' →
        v'.at? Stamp.path = some (.text t.stamp) →
        0 ≤ wholeSecond t.now + t'.stamper.windows.cooldown →
        wholeSecond t.now + t'.stamper.windows.cooldown < t'.now →
        ∃ change, t'.Patches (run c (before ++ .turn t :: between)) key v' change)) ∧
    (∀ (kind : Resource.Kind) (windows : Stamp.Windows) (mode : Pass.Mode)
      (connection : Directory.Connection) (stampers : List Stamper) (rules : List Rule)
      (w : Pass.World Workshop) (v : Value),
      (∀ s ∈ stampers, s.kind = kind → s.windows = windows) →
      microsPerSecond ≤ windows.cooldown →
      1000 ≤ yearAt w.around.now → yearAt w.around.now ≤ lastYear →
      Holds key (w.around.state.collection kind) v →
      (Pass.run mode (stampers.map (·.engine connection)) rules w).1.engines.flatMap (·.rules) =
        (Pass.dealings mode rules (stampers.map (·.engine connection)) w).map (·.result) ∧
      (Pass.dealings mode rules (stampers.map (·.engine connection)) w).countP
        (·.patchesSettled windows kind key) ≤ 1) := by
  constructor
  · intro ρ c v before between t t' h hafter
    obtain ⟨v₁, stamped, h₁, hyears, hsince, hstamped⟩ := holds_stamp_since h hafter
    refine ⟨fun hwithin => Turn.leavesAlone_of_not_patches hafter.same fun v' change => ?_, ?_⟩
    · have hnow : t'.now ≤ wholeSecond stamped + t'.stamper.windows.cooldown := by
        have hmono := wholeSecond_mono hsince
        lia
      exact Turn.not_patches_within h₁ hyears hstamped hafter.settled hsince hnow v' change
    · intro v' hmeets hkept hstart hbeyond
      obtain rfl := Option.some.inj (hmeets.found.symm.trans h₁.found)
      obtain ⟨hlow, hhigh⟩ := hafter.proper.years t' (by simp)
      exact Turn.patches_beyond hmeets h₁.room hafter.years hkept hafter.settled hstart hbeyond
        (inCalendar_of_yearAt (by omega) hhigh)
  · intro kind windows mode connection stampers rules w v hwindows hcooldown hlow hhigh h
    refine ⟨Pass.run_results .., ?_⟩
    rcases (Pass.tally_dealings hwindows hcooldown ⟨hlow, hhigh⟩ rules w).once v ⟨rfl, h⟩ with
      hnone | ⟨hone, _⟩
    · exact hnone ▸ Nat.zero_le 1
    · exact Nat.le_of_eq hone

/-- The first turn of the new year. -/
def newYear : Turn Unit := shopTurn 0 (startOf 2024)

/-- The turn of another rule, some time later. -/
def laterTurn (d : Duration) : Turn Unit := shopTurn 60 (startOf 2024 + d)

/-- What is resolved of a rule that starts from the app. -/
def shopCache : Resolution.Cache :=
  ⟨[((shopRule 0).source.canonical, some ⟨"cluster", [], "pool"⟩)], .empty⟩

/-- A world of that app in the new year. -/
def shopWorld : Pass.World Workshop where
  database := { Storage.Database.blank "" with version := some 1 }
  expire := 0
  ids := (0 : Nat)
  keepAlive := .idle
  pings := []
  around := ⟨startOf 2024, true, ⟨shopCache, shopApps, .empty .cronJob⟩, none⟩

theorem comesAfter_laterTurn {d : Duration} (hyears : 1000 ≤ yearAt (startOf 2024 + d) ∧
    yearAt (startOf 2024 + d) ≤ lastYear) (hd : startOf 2024 ≤ startOf 2024 + d) :
    ComesAfter ⟨"tsuru", "shop"⟩ shopApps [] newYear [] (laterTurn d) where
  proper := isProper_shopTurns (by decide +kernel) (by decide +kernel) hyears.1 hyears.2 hd
  named := rfl
  accepted := rfl
  settled := by
    show Stamp.isSettled .standard (.utc 60) (startOf 2024) = true
    decide +kernel
  same := fun _ hkey => (Option.some.inj hkey).symm

/-- A minute after the whole second of its stamp an app is left alone, and a microsecond later it is
stamped again; and a pass in which two rules share the app stamps it once. -/
theorem cooldown_limits_patches_shop :
    (laterTurn 59500000).LeavesAlone (newYear.after shopApps) ∧
      (∃ v change, (laterTurn 59500001).Patches (newYear.after shopApps) ⟨"tsuru", "shop"⟩ v
        change) ∧
      (Pass.dealings ⟨0, true⟩ [shopRule 0, { shopRule 0 with id := "other" }]
        ([⟨.app, "tsuru", .standard⟩].map (Stamper.engine ⟨"", "", fun _ _ => .failed ""⟩))
        shopWorld).countP (·.patchesSettled .standard .app ⟨"tsuru", "shop"⟩) ≤ 1 := by
  obtain ⟨hrun, hpass⟩ := cooldown_limits_patches ⟨"tsuru", "shop"⟩
  have hwithin := comesAfter_laterTurn (d := 59500000) (by decide +kernel) (by decide +kernel)
  have hbeyond := comesAfter_laterTurn (d := 59500001) (by decide +kernel) (by decide +kernel)
  obtain ⟨v, hv, _, hstamped⟩ := newYear.after_holds holds_bareShop
  refine ⟨(hrun Unit shopApps bareShop [] [] newYear _ holds_bareShop hwithin).1
    (by decide +kernel), ?_, ?_⟩
  · obtain ⟨change, hpatches⟩ := (hrun Unit shopApps bareShop [] [] newYear _ holds_bareShop
      hbeyond).2 v ⟨rfl, rfl, hv.found⟩ (hstamped rfl rfl) (by decide +kernel) (by decide +kernel)
    exact ⟨v, change, hpatches⟩
  · exact (hpass .app .standard ⟨0, true⟩ _ [⟨.app, "tsuru", .standard⟩] _ shopWorld bareShop
      (by simp) (by decide) (by decide +kernel) (by decide +kernel) holds_bareShop).2

end Engine

end AccessRules
