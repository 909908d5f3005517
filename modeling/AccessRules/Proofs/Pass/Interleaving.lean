import AccessRules.Pass.Site
import AccessRules.Proofs.Pass.Schedule
import AccessRules.Proofs.Pass.Sight

/-!
# The order of engines

**Program** — the engine for apps and the one for jobs, at work on the same rules over one table of
locks and one cache of resolutions (`Site.world`), taking turns in any way (`applySchedule`), or one
after the other as in a pass (`Pass.run`).

**Spec** — if what the directory answers depends on nothing but what is asked for, both engines have
the same results in any case, the resources are the same in the end, and so are the locks, up to the
identifiers of those that were never taken before (`interleaved_eq_pass`).

**Crux** — the engines do not see one another (`Crew.isSight`), and a pass is one way of taking
turns.
-/

namespace AccessRules.Pass

open Engine Resource

/-! ## One engine for each kind -/

/-- A stamping engine for each kind of resources. -/
structure Crew where
  space : Kind → String
  windows : Kind → Stamp.Windows

namespace Crew

/-- The engine for a kind. -/
def stamper (c : Crew) (kind : Kind) : Stamper := ⟨kind, c.space kind, c.windows kind⟩

/-- The engines over a connection to the directory. -/
def engines (c : Crew) (connection : Directory.Connection) (kind : Kind) : Engine Workshop :=
  (c.stamper kind).engine connection

theorem name_ne (c : Crew) {kind kind' : Kind} (h : kind ≠ kind') :
    (c.stamper kind).name ≠ (c.stamper kind').name := by
  cases kind <;> cases kind'
  · exact absurd rfl h
  · exact show "acl-operator" ≠ "acl-operator-job" by decide
  · exact show "acl-operator-job" ≠ "acl-operator" by decide
  · exact absurd rfl h

variable {connection : Directory.Connection}

/-- **The engines of a crew do not see one another.** -/
theorem isSight (hc : connection.IsSteady) (c : Crew) (mode : Mode) (earlier : Lock.Table) :
    IsSight mode (c.engines connection) (World.IsFit connection earlier)
      fun kind w => w.seenBy earlier (c.stamper kind) where
  fit kind rule _ h := applyRule_isFit hc h mode (c.stamper kind) rule
  own _ rule _ _ h h' hsame := applyRule_sight hc h h' hsame rule
  other _ _ rule w hne _ := applyRule_sight_of_ne (c.name_ne hne) (Ne.symm hne) mode rule w

theorem isIdle (c : Crew) (connection : Directory.Connection) (kind : Kind) :
    IsIdle (c.engines connection kind) := ⟨fun _ => rfl, fun _ => rfl⟩

variable {turns turns' : List (Kind × Rule)} {w : World Workshop}

/-- **Schedules in which every engine has the same turns lead to the same**: the same results, the
same resources, and the same locks, up to the identifiers of those that were never taken before. -/
theorem applySchedule_congr (c : Crew) (mode : Mode) (hc : connection.IsSteady)
    (hcache : w.around.state.cache.IsFaithful connection)
    (hturns : ∀ kind, partOf kind turns = partOf kind turns') :
    (∀ kind, partOf kind (applySchedule mode (c.engines connection) turns w).1 =
        partOf kind (applySchedule mode (c.engines connection) turns' w).1) ∧
      (∀ kind, (applySchedule mode (c.engines connection) turns w).2.around.state.collection kind =
        (applySchedule mode (c.engines connection) turns' w).2.around.state.collection kind) ∧
      w.database.locks.SameSince
        (applySchedule mode (c.engines connection) turns w).2.database.locks
        (applySchedule mode (c.engines connection) turns' w).2.database.locks := by
  have hfit : w.IsFit connection w.database.locks := ⟨hcache, fun _ h => h⟩
  have hsight := isSight hc c mode w.database.locks
  have halone := fun kind turns => hsight.applySchedule_alone kind turns hfit hfit rfl
  have hresults : ∀ kind, partOf kind (applySchedule mode (c.engines connection) turns w).1 =
      partOf kind (applySchedule mode (c.engines connection) turns' w).1 := fun kind => by
    rw [(halone kind turns).1, (halone kind turns').1, hturns]
  have hseen : ∀ kind, (applySchedule mode (c.engines connection) turns w).2.seenBy
        w.database.locks (c.stamper kind) =
      (applySchedule mode (c.engines connection) turns' w).2.seenBy
        w.database.locks (c.stamper kind) := fun kind => by
    rw [(halone kind turns).2, (halone kind turns').2, hturns]
  refine ⟨hresults, fun kind => congrArg (·.around.state) (hseen kind),
    Lock.Table.SameSince.of_seenBy fun engine => ?_⟩
  by_cases hengine : ∃ kind, engine = (c.stamper kind).name
  · obtain ⟨kind, rfl⟩ := hengine
    exact congrArg (·.database.locks) (hseen kind)
  · -- no engine of the crew touches the locks of another engine
    have hkept : ∀ turns,
        (applySchedule mode (c.engines connection) turns w).2.database.locks.seenBy
          w.database.locks engine = w.database.locks.seenBy w.database.locks engine := by
      intro turns
      refine applySchedule_keeps (P := fun w' => w'.database.locks.seenBy w.database.locks engine =
        w.database.locks.seenBy w.database.locks engine) (fun kind rule w' h => ?_) turns rfl
      exact (applyRule_locks_of_ne (fun heq => hengine ⟨kind, heq⟩) mode rule w').trans h
    rw [hkept, hkept]

end Crew

/-- **The order of engines does not matter.**  Over a directory whose answers depend on nothing but
what is asked for, the engines for apps and for jobs may take turns in any way, as long as each goes
through the rules in their order: each has the results it has in a pass in which one engine comes
after the other, in either order; the resources are the same, and so are the locks, up to the
identifiers of those that were never taken before. -/
theorem interleaved_eq_pass {s : Site} {answer : String → Http.Answer}
    (hserver : s.server = .steady answer) (host token : String) (c : Crew) (mode : Mode)
    {rules : List Rule} {turns : List (Kind × Rule)} (hturns : ∀ kind, partOf kind turns = rules)
    {order : List Kind} (horder : order.Perm [.app, .cronJob]) :
    let engines := c.engines (s.connection host token)
    let interleaved := applySchedule mode engines turns s.world
    let pass := Pass.run mode (order.map engines) rules s.world
    pass.1 = ⟨rules.length,
        order.map fun kind => ⟨(engines kind).name, partOf kind interleaved.1⟩⟩ ∧
      (∀ kind, interleaved.2.around.state.collection kind =
        pass.2.around.state.collection kind) ∧
      s.database.locks.SameSince interleaved.2.database.locks pass.2.database.locks := by
  intro engines interleaved pass
  have hc : (s.connection host token).IsSteady := fun sent sent' r => by
    simp only [Site.connection, hserver]
    rfl
  have hcache : s.world.around.state.cache.IsFaithful (s.connection host token) :=
    Resolution.Cache.isFaithful_empty _
  have hnodup : order.Nodup := horder.nodup_iff.mpr (by decide)
  have hmem : ∀ kind, kind ∈ order := fun kind => horder.mem_iff.mpr (by cases kind <;> simp)
  have hparts : ∀ kind, partOf kind turns = partOf kind (inOrder rules order) := fun kind =>
    (hturns kind).trans (partOf_inOrder rules hnodup (hmem kind)).symm
  obtain ⟨hresults, hresources, hlocks⟩ := c.applySchedule_congr mode hc hcache hparts
  have hpass : pass = (⟨rules.length, order.map fun kind => ⟨(engines kind).name,
        partOf kind (applySchedule mode engines (inOrder rules order) s.world).1⟩⟩,
      (applySchedule mode engines (inOrder rules order) s.world).2) := by
    show Pass.run mode (order.map engines) rules s.world = _
    rw [Pass.run, applyEngines_eq_applySchedule (c.isIdle _) rules hnodup]
  rw [hpass]
  refine ⟨?_, hresources, hlocks⟩
  simp only [interleaved, engines, hresults]

/-- A site with one app, over a directory that knows nothing. -/
def shopSite : Site where
  database := { Storage.Database.blank "" with version := some 1 }
  connected := true
  expire := 0
  ids := (0 : Nat)
  now := startOf 2024
  apps := shopApps
  jobs := .empty .cronJob
  server := .steady fun _ => .response .unknown
  sent := []

/-- The engines for that site, below one space. -/
def shopCrew : Crew := ⟨fun _ => "tsuru", fun _ => .standard⟩

/-- One rule, given twice. -/
def shopRules : List Rule := [shopRule 0, shopRule 0]

/-- The engine for jobs has both of its turns between those of the other. -/
def shopSchedule : List (Kind × Rule) :=
  [(.app, shopRule 0), (.cronJob, shopRule 0), (.cronJob, shopRule 0), (.app, shopRule 0)]

/-- Taking turns at that site comes to what a pass comes to that begins with jobs.  The app is
looked up in vain, jobs have nothing to do with the rule, and neither engine gets its lock again. -/
theorem interleaved_eq_pass_shop :
    let engines := shopCrew.engines (shopSite.connection "" "")
    let order := [Kind.cronJob, Kind.app]
    let interleaved := applySchedule ⟨0, false⟩ engines shopSchedule shopSite.world
    let pass := Pass.run ⟨0, false⟩ (order.map engines) shopRules shopSite.world
    interleaved.1.map (fun turn => (turn.1, turn.2.status)) =
        [(.app, .failed), (.cronJob, .succeeded), (.cronJob, .locked), (.app, .locked)] ∧
      pass.1 = ⟨shopRules.length,
        order.map fun kind => ⟨(engines kind).name, partOf kind interleaved.1⟩⟩ ∧
      shopSite.database.locks.SameSince interleaved.2.database.locks pass.2.database.locks := by
  have hserver : shopSite.server = .steady fun _ => .response .unknown := rfl
  have hturns : ∀ kind, partOf kind shopSchedule = shopRules := by
    intro kind
    cases kind <;> rfl
  have horder : List.Perm [Kind.cronJob, Kind.app] [.app, .cronJob] := List.Perm.swap ..
  obtain ⟨hresult, -, hlocks⟩ :=
    interleaved_eq_pass hserver "" "" shopCrew ⟨0, false⟩ hturns horder
  exact ⟨by decide +kernel, hresult, hlocks⟩

end AccessRules.Pass
