import AccessRules.Proofs.Engine.StampPass
import AccessRules.Proofs.Lock.Seen
import AccessRules.Proofs.Resolution.Transparency

/-!
# What a stamping engine sees of a pass

**Program** — `applyRule` with a stamping engine (`Stamper.engine`), in a world with a table of
locks, a cache of resolutions and the resources of both kinds.

**Spec** — the engine *sees* the clock, its own locks and the resources of its kind
(`World.seenBy`).

  1. What it sees decides what comes of dealing with a rule, and what it sees then
     (`applyRule_sight`).
  2. A stamping engine of another kind sees nothing of it (`applyRule_sight_of_ne`), and no engine
     of another name sees anything of its locks (`applyRule_locks_of_ne`).

**Crux** — the cache is seen by none of them although it is used by all: it decides nothing, because
it holds what the directory says (`World.IsFit`).  Dealing with a rule takes three steps: asking for
the lock, reconciling, and releasing the lock (`applyRule_keeps`).  Each of them is decided by what
the engine sees, and is not seen by others.
-/

namespace AccessRules

open Calendar Engine Resource Storage

/-! ## Reconciling -/

namespace Engine.Stamper

/-- What a stamping engine does about a rule whose source names a resource, by what the source is
resolved to. -/
def settle (s : Stamper) (now : Instant) (rule : Rule) (name : String) (c : Collection) :
    Except Failure (Option Resolution.Target) → Except Failure Report × Collection
  | .error f => (.error f, c)
  | .ok none => (.ok .nothing, c)
  | .ok (some target) =>
    if name.isEmpty then (.ok .nothing, c) else s.renew now rule ⟨s.spaceOf target, name⟩ c

variable {ρ ρ' : Type} {resolve : Resolver ρ} {resolve' : Resolver ρ'} {state : ρ} {state' : ρ'}
  {s : Stamper} {rule : Rule} {name : String}

/-- If the source names no resource the resolver is not asked. -/
theorem reconcile_of_unnamed (h : s.resourceName? rule.source = none) (now : Instant)
    (c : Collection) : s.reconcile (some resolve) now rule state c = (.ok .nothing, state, c) := by
  simp only [reconcile, h]

/-- If it names one the resolver is asked once, and its answer decides everything. -/
theorem reconcile_of_named (h : s.resourceName? rule.source = some name) (now : Instant)
    (c : Collection) : s.reconcile (some resolve) now rule state c =
      ((s.settle now rule name c (resolve rule.source state).1).1, (resolve rule.source state).2,
        (s.settle now rule name c (resolve rule.source state).1).2) := by
  rcases hanswer : resolve rule.source state with ⟨f | _ | target, after⟩
  · simp only [reconcile, h, hanswer, settle]
  · simp only [reconcile, h, hanswer, settle]
  · simp only [reconcile, h, hanswer, settle]
    split <;> rfl

/-- Of the resolver only its answer decides what a stamping engine does. -/
theorem reconcile_congr (h : (resolve rule.source state).1 = (resolve' rule.source state').1)
    (s : Stamper) (now : Instant) (c : Collection) :
    (s.reconcile (some resolve) now rule state c).1 =
        (s.reconcile (some resolve') now rule state' c).1 ∧
      (s.reconcile (some resolve) now rule state c).2.2 =
        (s.reconcile (some resolve') now rule state' c).2.2 := by
  cases hname : s.resourceName? rule.source with
  | none =>
    rw [reconcile_of_unnamed hname, reconcile_of_unnamed hname]
    exact ⟨rfl, rfl⟩
  | some name =>
    rw [reconcile_of_named hname, reconcile_of_named hname, h]
    exact ⟨rfl, rfl⟩

/-- The state of the resolver is what it was, or what asking it once leaves. -/
theorem reconcile_state {P : ρ → Prop} (h : P state) (hafter : P (resolve rule.source state).2)
    (s : Stamper) (now : Instant) (c : Collection) :
    P (s.reconcile (some resolve) now rule state c).2.1 := by
  cases hname : s.resourceName? rule.source with
  | none => rwa [reconcile_of_unnamed hname]
  | some name => rwa [reconcile_of_named hname]

end Engine.Stamper

namespace Pass

/-! ## Locks in a world -/

namespace World

variable {σ : Type}

/-- What comes of asking for a lock, and the table of locks then. -/
def started (w : World σ) (mode : Mode) (k : Lock.Key) (fresh : String) :
    Except Failure Lock.Record × Lock.Table :=
  match w.database.canWrite w.around.connected "start_sync" Database.locksTable
      w.around.trouble with
  | .error f => (.error f, w.database.locks)
  | .ok () => w.database.locks.start w.expire (mode.wish k) w.around.now fresh

/-- The table of locks after one was released. -/
def finished (w : World σ) (k : Lock.Key) (o : Lock.Outcome) : Lock.Table :=
  match w.database.canWrite w.around.connected "end_sync" Database.locksTable
      w.around.trouble with
  | .error _ => w.database.locks
  | .ok () => (w.database.locks.finish k.ruleId k.engine o w.around.now).2

/-- The world with another table of locks, and with other dealings about locks. -/
def relocked (w : World σ) (locks : Lock.Table) (ids : Supply) (keepAlive : Lock.KeepAlive)
    (pings : List (List String)) : World σ :=
  { w with database := { w.database with locks := locks }, ids := ids, keepAlive := keepAlive,
           pings := pings }

/-- Asking for a lock changes nothing but the table of locks and what is done about them. -/
theorem startLock_eq (w : World σ) (mode : Mode) (k : Lock.Key) :
    ∃ ids keepAlive pings, w.startLock mode k.ruleId k.engine =
      ((w.started mode k w.ids.next.1).1,
        w.relocked (w.started mode k w.ids.next.1).2 ids keepAlive pings) := by
  rw [startLock, started, Database.startLock]
  cases w.database.canWrite w.around.connected "start_sync" Database.locksTable
      w.around.trouble with
  | error f => exact ⟨_, _, _, rfl⟩
  | ok _ =>
    dsimp only [Mode.wish]
    rcases hstart : w.database.locks.start w.expire ⟨mode.interval, k.ruleId, k.engine, mode.force⟩
      w.around.now w.ids.next.1 with ⟨f | record, t⟩
    · exact ⟨_, _, _, rfl⟩
    · exact ⟨_, _, _, rfl⟩

/-- Releasing a lock changes nothing but the table of locks and what is done about them. -/
theorem finishLock_eq (w : World σ) (record : Lock.Record) (o : Lock.Outcome) :
    ∃ keepAlive pings, (w.finishLock record o).2 =
      w.relocked (w.finished ⟨record.ruleId, record.engine⟩ o) w.ids keepAlive pings := by
  rw [finishLock, finished, Database.finishLock]
  simp only [tell_database, tell_around]
  cases w.database.canWrite w.around.connected "end_sync" Database.locksTable
      w.around.trouble with
  | error f => exact ⟨_, _, rfl⟩
  | ok _ => exact ⟨_, _, rfl⟩

/-- Asking for a lock is seen by no other engine. -/
theorem seenBy_started_of_ne {earlier : Lock.Table} {engine : String} {k : Lock.Key}
    (hne : engine ≠ k.engine) (w : World σ) (mode : Mode) (fresh : String) :
    (w.started mode k fresh).2.seenBy earlier engine =
      w.database.locks.seenBy earlier engine := by
  rw [started]
  split
  · rfl
  · exact Lock.Table.seenBy_start_of_ne _ _ (mode.wish k) _ _ hne

/-- Releasing a lock is seen by no other engine. -/
theorem seenBy_finished_of_ne {earlier : Lock.Table} {engine : String} {k : Lock.Key}
    (hne : engine ≠ k.engine) (w : World σ) (o : Lock.Outcome) :
    (w.finished k o).seenBy earlier engine = w.database.locks.seenBy earlier engine := by
  rw [finished]
  split
  · rfl
  · exact Lock.Table.seenBy_finish_of_ne _ k o _ hne

/-- The record of a lock that was taken belongs to the engine it was taken for. -/
theorem engine_of_startLock {w : World σ} {mode : Mode} {ruleId engine : String}
    {record : Lock.Record} (h : (w.startLock mode ruleId engine).1 = .ok record) :
    record.engine = engine := by
  obtain ⟨ids, keepAlive, pings, heq⟩ := w.startLock_eq mode ⟨ruleId, engine⟩
  have hstarted : (w.started mode ⟨ruleId, engine⟩ w.ids.next.1).1 = .ok record := by
    rw [← h]
    exact (congrArg Prod.fst heq).symm
  rw [started] at hstarted
  split at hstarted
  · cases hstarted
  · exact (Lock.Table.names_of_start hstarted).2

end World

/-! ## What a stamping engine sees -/

/-- What a stamping engine sees of its surroundings: not what was resolved, and only the resources
of its kind. -/
def sightOf (kind : Kind) (around : Surroundings Workshop) : Surroundings Collection :=
  ⟨around.now, around.connected, around.state.collection kind, around.trouble⟩

/-- What a stamping engine sees of a world, if it knows the identifiers of an earlier table. -/
def World.seenBy (earlier : Lock.Table) (s : Stamper) (w : World Workshop) : World Collection where
  database := { w.database with locks := w.database.locks.seenBy earlier s.name }
  expire := w.expire
  ids := 0
  keepAlive := .idle
  pings := []
  around := sightOf s.kind w.around

/-- A world in which what was resolved is what the directory says, and no lock was lost since an
earlier table. -/
structure World.IsFit (connection : Directory.Connection) (earlier : Lock.Table)
    (w : World Workshop) : Prop where
  cache : w.around.state.cache.IsFaithful connection
  locks : w.database.locks.Extends earlier

section Sights

variable {connection : Directory.Connection} {earlier : Lock.Table} {s : Stamper} {rule : Rule}
  {w w' : World Workshop} {around around' : Surroundings Workshop} {record record' : Lock.Record}
  {mode : Mode}

theorem seenBy_relocked (locks : Lock.Table) (ids : Supply) (keepAlive : Lock.KeepAlive)
    (pings : List (List String)) : (w.relocked locks ids keepAlive pings).seenBy earlier s =
      (w.seenBy earlier s).relocked (locks.seenBy earlier s.name) 0 .idle [] := rfl

/-- Asking for a lock does to what the engine sees what it would do to it as a world of its own. -/
theorem started_seenBy (s : Stamper) (mode : Mode) (h : w.database.locks.Extends earlier)
    (ruleId fresh : String) :
    (w.started mode ⟨ruleId, s.name⟩ fresh).1.map Lock.Record.unnamed =
        ((w.seenBy earlier s).started mode ⟨ruleId, s.name⟩ "").1.map Lock.Record.unnamed ∧
      (w.started mode ⟨ruleId, s.name⟩ fresh).2.seenBy earlier s.name =
        ((w.seenBy earlier s).started mode ⟨ruleId, s.name⟩ "").2 := by
  have hcan : (w.seenBy earlier s).database.canWrite (w.seenBy earlier s).around.connected
      "start_sync" Database.locksTable (w.seenBy earlier s).around.trouble =
      w.database.canWrite w.around.connected "start_sync" Database.locksTable
        w.around.trouble := rfl
  rw [World.started, World.started, hcan]
  split
  · exact ⟨rfl, rfl⟩
  · exact Lock.Table.start_seenBy h (mode.wish ⟨ruleId, s.name⟩) fresh

/-- Releasing a lock does to what its engine sees what it would do to it as a world of its own. -/
theorem finished_seenBy (ruleId : String) (o : Lock.Outcome) :
    (w.finished ⟨ruleId, s.name⟩ o).seenBy earlier s.name =
      (w.seenBy earlier s).finished ⟨ruleId, s.name⟩ o := by
  have hcan : (w.seenBy earlier s).database.canWrite (w.seenBy earlier s).around.connected
      "end_sync" Database.locksTable (w.seenBy earlier s).around.trouble =
      w.database.canWrite w.around.connected "end_sync" Database.locksTable
        w.around.trouble := rfl
  rw [World.finished, World.finished, hcan]
  split
  · rfl
  · exact Lock.Table.finish_seenBy w.database.locks ⟨ruleId, s.name⟩ o w.around.now

/-- What comes of asking for a lock is decided by what the engine sees. -/
theorem startLock_sight (mode : Mode) (hw : w.IsFit connection earlier)
    (hw' : w'.IsFit connection earlier)
    (hsame : w.seenBy earlier s = w'.seenBy earlier s) (ruleId : String) :
    (w.startLock mode ruleId s.name).1.map Lock.Record.unnamed =
        (w'.startLock mode ruleId s.name).1.map Lock.Record.unnamed ∧
      (w.startLock mode ruleId s.name).2.seenBy earlier s =
        (w'.startLock mode ruleId s.name).2.seenBy earlier s := by
  obtain ⟨ids, keepAlive, pings, heq⟩ := w.startLock_eq mode ⟨ruleId, s.name⟩
  obtain ⟨ids', keepAlive', pings', heq'⟩ := w'.startLock_eq mode ⟨ruleId, s.name⟩
  obtain ⟨hanswer, hlocks⟩ := started_seenBy s mode hw.locks ruleId w.ids.next.1
  obtain ⟨hanswer', hlocks'⟩ := started_seenBy s mode hw'.locks ruleId w'.ids.next.1
  rw [heq, heq', hanswer, hanswer', seenBy_relocked, seenBy_relocked, hlocks, hlocks', hsame]
  exact ⟨rfl, rfl⟩

/-- What the engine sees after it released a lock is decided by what it saw. -/
theorem finishLock_sight (hsame : w.seenBy earlier s = w'.seenBy earlier s)
    (hrecord : record.unnamed = record'.unnamed) (hengine : record.engine = s.name)
    (o : Lock.Outcome) : (w.finishLock record o).2.seenBy earlier s =
      (w'.finishLock record' o).2.seenBy earlier s := by
  have hruleId' : record'.ruleId = record.ruleId := (congrArg Lock.Record.ruleId hrecord).symm
  have hengine' : record'.engine = record.engine := (congrArg Lock.Record.engine hrecord).symm
  obtain ⟨keepAlive, pings, heq⟩ := w.finishLock_eq record o
  obtain ⟨keepAlive', pings', heq'⟩ := w'.finishLock_eq record' o
  rw [heq, heq', hruleId', hengine', hengine, seenBy_relocked, seenBy_relocked, finished_seenBy,
    finished_seenBy, hsame]

theorem engine_reconcile_report (rule : Rule) (around : Surroundings Workshop) :
    ((s.engine connection).reconcile rule around).1 =
      (s.turn connection rule around).report (around.state.collection s.kind) := rfl

theorem sightOf_engine_reconcile (rule : Rule) (around : Surroundings Workshop) :
    sightOf s.kind ((s.engine connection).reconcile rule around).2 = ⟨around.now, around.connected,
      (s.turn connection rule around).after (around.state.collection s.kind), around.trouble⟩ := by
  rw [sightOf, Stamper.engine_reconcile_collection]
  rfl

/-- What a stamping engine does is decided by what it sees, if what was resolved is what the
directory says. -/
theorem engine_reconcile_sight (hc : connection.IsSteady)
    (hcache : around.state.cache.IsFaithful connection)
    (hcache' : around'.state.cache.IsFaithful connection)
    (hsame : sightOf s.kind around = sightOf s.kind around') (rule : Rule) :
    ((s.engine connection).reconcile rule around).1 =
        ((s.engine connection).reconcile rule around').1 ∧
      sightOf s.kind ((s.engine connection).reconcile rule around).2 =
        sightOf s.kind ((s.engine connection).reconcile rule around').2 := by
  obtain ⟨hnow, hconnected, hresources, htrouble⟩ := Surroundings.mk.inj hsame
  have hanswer : (Resolution.Cache.resolve connection rule.source around.state.cache).1 =
      (Resolution.Cache.resolve connection rule.source around'.state.cache).1 :=
    (Resolution.Cache.resolve_of_isFaithful hc hcache rule.source).1.trans
      (Resolution.Cache.resolve_of_isFaithful hc hcache' rule.source).1.symm
  obtain ⟨hreport, hafter⟩ := Stamper.reconcile_congr hanswer s around.now
    (around.state.collection s.kind)
  rw [engine_reconcile_report, engine_reconcile_report, sightOf_engine_reconcile,
    sightOf_engine_reconcile, hconnected, htrouble]
  simp only [Engine.Turn.report, Engine.Turn.after, Stamper.turn, ← hnow, ← hresources, hreport,
    hafter, and_self]

/-- Whoever holds the lock of a rule reconciles it by what the engine sees, or leaves a rule that is
gone. -/
theorem reconcile_sight (hc : connection.IsSteady)
    (hcache : around.state.cache.IsFaithful connection)
    (hcache' : around'.state.cache.IsFaithful connection)
    (hsame : sightOf s.kind around = sightOf s.kind around')
    (hrecord : record.unnamed = record'.unnamed) (rule : Rule) :
    (reconcile (s.engine connection) rule record around).1 =
        (reconcile (s.engine connection) rule record' around').1 ∧
      sightOf s.kind (reconcile (s.engine connection) rule record around).2 =
        sightOf s.kind (reconcile (s.engine connection) rule record' around').2 := by
  have hlatest : record.latest? = record'.latest? := by
    show record.unnamed.latest? = record'.unnamed.latest?
    rw [hrecord]
  obtain ⟨hanswer, hafter⟩ := engine_reconcile_sight hc hcache hcache' hsame rule
  unfold reconcile
  rw [← hlatest]
  split
  · exact ⟨rfl, hsame⟩
  · rcases heq : (s.engine connection).reconcile rule around with ⟨answer, then'⟩
    rcases heq' : (s.engine connection).reconcile rule around' with ⟨answer', then''⟩
    rw [heq, heq'] at hanswer hafter
    obtain rfl : answer = answer' := hanswer
    cases answer with
    | error f => exact ⟨rfl, hafter⟩
    | ok report => exact ⟨rfl, hafter⟩

namespace World.IsFit

/-- Taking a lock keeps a world fit. -/
theorem startLock (h : w.IsFit connection earlier) (mode : Mode) (ruleId engine : String) :
    (w.startLock mode ruleId engine).2.IsFit connection earlier := by
  obtain ⟨ids, keepAlive, pings, heq⟩ := w.startLock_eq mode ⟨ruleId, engine⟩
  rw [heq]
  refine ⟨h.cache, ?_⟩
  show (w.started mode ⟨ruleId, engine⟩ w.ids.next.1).2.Extends earlier
  rw [started]
  split
  · exact h.locks
  · exact h.locks.start _ _ _ _

/-- Releasing a lock keeps a world fit. -/
theorem finishLock (h : w.IsFit connection earlier) (record : Lock.Record) (o : Lock.Outcome) :
    (w.finishLock record o).2.IsFit connection earlier := by
  obtain ⟨keepAlive, pings, heq⟩ := w.finishLock_eq record o
  rw [heq]
  refine ⟨h.cache, ?_⟩
  show (w.finished ⟨record.ruleId, record.engine⟩ o).Extends earlier
  rw [finished]
  split
  · exact h.locks
  · exact h.locks.finish _ _ _

/-- A stamping engine that reconciles a rule keeps a world fit. -/
theorem reconcile (hc : connection.IsSteady) (h : w.IsFit connection earlier) (s : Stamper)
    (rule : Rule) : IsFit connection earlier
      { w with around := ((s.engine connection).reconcile rule w.around).2 } := by
  have hcache : ((s.engine connection).reconcile rule w.around).2.state.cache =
      (s.reconcile (some (Resolution.Cache.resolve connection)) w.around.now rule
        w.around.state.cache (w.around.state.collection s.kind)).2.1 := by
    rcases s with ⟨_ | _, space, windows⟩ <;> rfl
  have hresolved := (Resolution.Cache.resolve_of_isFaithful hc h.cache rule.source).2
  refine ⟨?_, h.locks⟩
  show Resolution.Cache.IsFaithful connection _
  rw [hcache]
  exact Stamper.reconcile_state h.cache hresolved s w.around.now _

end World.IsFit

theorem carryOut_snd {σ : Type} (e : Engine σ) (rule : Rule) (record : Lock.Record) (w : World σ) :
    (carryOut e rule record w).2 =
      (World.finishLock { w with around := (reconcile e rule record w.around).2 } record
        (outcomeOf rule (reconcile e rule record w.around).1 w.around.now
          (reconcile e rule record w.around).2.now)).2 := rfl

/-- A rule whose lock is held is carried out by what the engine sees. -/
theorem carryOut_sight (hc : connection.IsSteady) (hw : w.IsFit connection earlier)
    (hw' : w'.IsFit connection earlier) (hsame : w.seenBy earlier s = w'.seenBy earlier s)
    (hrecord : record.unnamed = record'.unnamed) (hengine : record.engine = s.name) (rule : Rule) :
    (carryOut (s.engine connection) rule record w).1 =
        (carryOut (s.engine connection) rule record' w').1 ∧
      (carryOut (s.engine connection) rule record w).2.seenBy earlier s =
        (carryOut (s.engine connection) rule record' w').2.seenBy earlier s := by
  have haround : sightOf s.kind w.around = sightOf s.kind w'.around :=
    congrArg World.around hsame
  have hnow : w.around.now = w'.around.now := congrArg (·.around.now) hsame
  obtain ⟨hresult, hafter⟩ := reconcile_sight hc hw.cache hw'.cache haround hrecord rule
  have hlater : (reconcile (s.engine connection) rule record w.around).2.now =
      (reconcile (s.engine connection) rule record' w'.around).2.now :=
    (Surroundings.mk.inj hafter).1
  constructor
  · exact hresult
  -- both locks are released with the same outcome
  rw [carryOut_snd, carryOut_snd, hresult, hnow, hlater]
  refine finishLock_sight ?_ hrecord hengine _
  exact congrArg₂ (fun seen around => { seen with around := around }) hsame hafter

/-- **A stamping engine deals with a rule** by what it sees. -/
theorem applyRule_sight (hc : connection.IsSteady) (hw : w.IsFit connection earlier)
    (hw' : w'.IsFit connection earlier) (hsame : w.seenBy earlier s = w'.seenBy earlier s)
    (rule : Rule) :
    (applyRule mode (s.engine connection) rule w).1 =
        (applyRule mode (s.engine connection) rule w').1 ∧
      (applyRule mode (s.engine connection) rule w).2.seenBy earlier s =
        (applyRule mode (s.engine connection) rule w').2.seenBy earlier s := by
  have hfit := hw.startLock mode rule.id s.name
  have hfit' := hw'.startLock mode rule.id s.name
  obtain ⟨hanswer, hafter⟩ := startLock_sight mode hw hw' hsame rule.id
  rcases hlock : w.startLock mode rule.id s.name with ⟨answer, started⟩
  rcases hlock' : w'.startLock mode rule.id s.name with ⟨answer', started'⟩
  rw [hlock] at hanswer hafter hfit
  rw [hlock'] at hanswer hafter hfit'
  -- the lock is refused in both worlds, or it is taken in both
  rcases answer with f | record
  · rcases answer' with f' | record'
    · obtain rfl : f = f' := Except.error.inj hanswer
      rw [applyRule_of_refused (e := s.engine connection) rfl hlock,
        applyRule_of_refused (e := s.engine connection) rfl hlock']
      exact ⟨rfl, hafter⟩
    · cases hanswer
  · rcases answer' with f' | record'
    · cases hanswer
    · have hrecord : record.unnamed = record'.unnamed := Except.ok.inj hanswer
      have hengine : record.engine = s.name := World.engine_of_startLock (congrArg Prod.fst hlock)
      rw [applyRule_of_taken (e := s.engine connection) rfl hlock,
        applyRule_of_taken (e := s.engine connection) rfl hlock']
      exact carryOut_sight hc hfit hfit' hafter hrecord hengine rule

/-- What taking a lock, reconciling and releasing the lock preserve holds after a stamping engine
dealt with a rule. -/
theorem applyRule_keeps {P : World Workshop → Prop}
    (hstart : ∀ w, P w → P (w.startLock mode rule.id s.name).2)
    (hreconcile : ∀ w : World Workshop, P w →
      P { w with around := ((s.engine connection).reconcile rule w.around).2 })
    (hfinish : ∀ w record o, record.engine = s.name → P w → P (w.finishLock record o).2)
    (h : P w) : P (applyRule mode (s.engine connection) rule w).2 := by
  have hstarted := hstart w h
  rcases hlock : w.startLock mode rule.id s.name with ⟨f | record, started⟩
  · rw [hlock] at hstarted
    rw [applyRule_of_refused (e := s.engine connection) rfl hlock]
    exact hstarted
  · rw [hlock] at hstarted
    have hengine : record.engine = s.name := World.engine_of_startLock (congrArg Prod.fst hlock)
    rw [applyRule_of_taken (e := s.engine connection) rfl hlock, carryOut_snd]
    refine hfinish _ record _ hengine ?_
    by_cases hgone : isGone rule record.latest? = true
    · rw [reconcile_of_isGone hgone]
      exact hstarted
    · rw [(reconcile_of_not_isGone (Bool.eq_false_iff.mpr hgone) _ _).1]
      exact hreconcile started hstarted

/-- A fit world stays fit. -/
theorem applyRule_isFit (hc : connection.IsSteady) (h : w.IsFit connection earlier)
    (mode : Mode) (s : Stamper) (rule : Rule) :
    (applyRule mode (s.engine connection) rule w).2.IsFit connection earlier :=
  applyRule_keeps (fun _ h => h.startLock mode rule.id s.name) (fun _ h => h.reconcile hc s rule)
    (fun _ record o _ h => h.finishLock record o) h

/-- No other engine sees anything of its locks. -/
theorem applyRule_locks_of_ne {engine : String} (hne : engine ≠ s.name) (mode : Mode) (rule : Rule)
    (w : World Workshop) :
    (applyRule mode (s.engine connection) rule w).2.database.locks.seenBy earlier engine =
      w.database.locks.seenBy earlier engine := by
  refine applyRule_keeps
    (P := fun w' =>
      w'.database.locks.seenBy earlier engine = w.database.locks.seenBy earlier engine)
    (fun w' h => ?_) (fun _ h => h) (fun w' record o hengine h => ?_) rfl
  · obtain ⟨ids, keepAlive, pings, heq⟩ := w'.startLock_eq mode ⟨rule.id, s.name⟩
    rw [heq]
    exact (World.seenBy_started_of_ne hne w' mode w'.ids.next.1).trans h
  · obtain ⟨keepAlive, pings, heq⟩ := w'.finishLock_eq record o
    rw [heq]
    exact (World.seenBy_finished_of_ne (hengine ▸ hne) w' o).trans h

/-- An engine of another name and another kind sees nothing at all of its turns. -/
theorem applyRule_sight_of_ne {other : Stamper} (hname : other.name ≠ s.name)
    (hkind : s.kind ≠ other.kind) (mode : Mode) (rule : Rule) (w : World Workshop) :
    (applyRule mode (s.engine connection) rule w).2.seenBy earlier other =
      w.seenBy earlier other := by
  refine applyRule_keeps (P := fun w' => w'.seenBy earlier other = w.seenBy earlier other)
    (fun w' h => ?_) (fun w' h => ?_) (fun w' record o hengine h => ?_) rfl
  · obtain ⟨ids, keepAlive, pings, heq⟩ := w'.startLock_eq mode ⟨rule.id, s.name⟩
    rw [heq, seenBy_relocked, World.seenBy_started_of_ne hname]
    exact h
  · rw [← h]
    have hsight : sightOf other.kind ((s.engine connection).reconcile rule w'.around).2 =
        sightOf other.kind w'.around := by
      rw [sightOf, Stamper.engine_reconcile_collection_of_ne hkind]
      rfl
    exact congrArg (fun around => { w'.seenBy earlier other with around := around }) hsight
  · obtain ⟨keepAlive, pings, heq⟩ := w'.finishLock_eq record o
    rw [heq, seenBy_relocked, World.seenBy_finished_of_ne (hengine ▸ hname)]
    exact h

end Sights

end Pass

end AccessRules
