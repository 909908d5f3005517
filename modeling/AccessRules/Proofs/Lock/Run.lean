import Mathlib.Data.List.Induction
import AccessRules.Proofs.Lock.Operations

/-!
# Runs of the lock store

**Program** — a store of locks is a table and the expiry of running locks; callers take locks, give
signs of life, release locks and set the expiry, in any order (`Store.step`, `Store.run`).

**Spec** — what is known of the row of a key after a run is what the calls before it said of that
key: the running flag in any case (`Holds`), and the last sign of life if the clock never goes back
(`Tracks`).

**Crux** — each call is looked at together with the store it met (a `Visit`), so that whether it
succeeded is a fact about the visit.  The invariant ties the last sign of life of a row to *all*
earlier visits that touched the key, and the running flag to the last two of them that count: a
start, and no release since.  One step keeps it (`Holds.snoc`, `Tracks.snoc`), a run by induction
on its end (`holds_run`, `tracks_run`).
-/

namespace AccessRules.Lock

open Calendar

/-- What a caller asks of the store. -/
inductive Request where
  | start (w : Wish) (fresh : String)
  | ping (ids : List String)
  | finish (k : Key) (o : Outcome)
  | setExpiry (d : Duration)
  deriving DecidableEq, Repr

/-- A request, made by some caller at an instant. -/
structure Call where
  caller : Nat
  now : Instant
  request : Request
  deriving DecidableEq, Repr

/-- A table of locks and how long a running lock lives without a sign of life. -/
structure Store where
  table : Table
  expire : Duration
  deriving DecidableEq, Repr

namespace Store

/-- A store without locks. -/
def empty (expire : Duration) : Store := ⟨[], expire⟩

/-- The store after a call. -/
def step (s : Store) (c : Call) : Store :=
  match c.request with
  | .start w fresh => { s with table := (s.table.start s.expire w c.now fresh).2 }
  | .ping ids => { s with table := s.table.ping ids c.now }
  | .finish k o => { s with table := (s.table.finish k.ruleId k.engine o c.now).2 }
  | .setExpiry d => { s with expire := d }

/-- The store after some calls. -/
def run (s : Store) (calls : List Call) : Store := calls.foldl step s

end Store

/-- A call and the store it met. -/
structure Visit where
  store : Store
  call : Call
  deriving DecidableEq, Repr

namespace Visit

/-- When a call was made. -/
def time (v : Visit) : Instant := v.call.now

/-- Whether a call took the lock of a key. -/
def starts (k : Key) (v : Visit) : Bool :=
  match v.call.request with
  | .start w fresh =>
    w.key == k && (v.store.table.start v.store.expire w v.time fresh).1.isOk
  | _ => false

/-- Whether a call gave a sign of life for the lock of a key. -/
def pings (k : Key) (v : Visit) : Bool :=
  match v.call.request with
  | .ping ids => (v.store.table.rowOf k).any fun r => ids.contains r.id
  | _ => false

/-- Whether a call released the lock of a key. -/
def finishes (k : Key) (v : Visit) : Bool :=
  match v.call.request with
  | .finish k' _ => k' == k
  | _ => false

/-- Whether a call took the lock of a key, gave a sign of life for it or released it. -/
def touches (k : Key) (v : Visit) : Bool := v.starts k || v.pings k || v.finishes k

end Visit

/-- The visits of some calls, the first one to the store at hand. -/
def Store.visits (s : Store) : List Call → List Visit
  | [] => []
  | c :: calls => ⟨s, c⟩ :: (s.step c).visits calls

/-- The lock of a key was taken and has not been released since. -/
def Unfinished (k : Key) (visits : List Visit) : Prop :=
  ∃ before v after, visits = before ++ v :: after ∧ v.starts k = true ∧
    ∀ m ∈ after, m.finishes k = false

/-- The clock of the calls never goes back and stays within the calendar. -/
structure Paced (calls : List Call) : Prop where
  inCalendar : ∀ c ∈ calls, inCalendar c.now = true
  monotone : calls.Pairwise (·.now ≤ ·.now)

/-! ## Runs and visits -/

namespace Store

theorem run_append (s : Store) (a b : List Call) : s.run (a ++ b) = (s.run a).run b := by
  rw [run, List.foldl_append]
  rfl

theorem visits_append (s : Store) (a b : List Call) :
    s.visits (a ++ b) = s.visits a ++ (s.run a).visits b := by
  induction a generalizing s with
  | nil => rfl
  | cons c a ih => rw [List.cons_append, visits, ih, visits]; rfl

theorem call_mem_of_visits {s : Store} {calls : List Call} {v : Visit} (h : v ∈ s.visits calls) :
    v.call ∈ calls := by
  induction calls generalizing s with
  | nil => cases h
  | cons c calls ih =>
    rcases List.mem_cons.mp h with rfl | h
    · exact List.mem_cons_self ..
    · exact List.mem_cons_of_mem _ (ih h)

/-- What a call met is what the calls before it left. -/
theorem visits_split {s : Store} {calls : List Call} {earlier later : List Visit} {v : Visit}
    (h : s.visits calls = earlier ++ v :: later) :
    ∃ before after, calls = before ++ v.call :: after ∧ earlier = s.visits before ∧
      v.store = s.run before := by
  induction earlier generalizing s calls with
  | nil =>
    cases calls with
    | nil => cases h
    | cons c calls =>
      obtain ⟨rfl, _⟩ := List.cons.inj h
      exact ⟨[], calls, rfl, rfl, rfl⟩
  | cons m earlier ih =>
    cases calls with
    | nil => cases h
    | cons c calls =>
      obtain ⟨rfl, hrest⟩ := List.cons.inj h
      obtain ⟨before, after, rfl, rfl, hstore⟩ := ih hrest
      exact ⟨c :: before, after, rfl, rfl, hstore⟩

end Store

/-- A part of the calls at the start of a run is a run of its own. -/
theorem Paced.left {a b : List Call} (h : Paced (a ++ b)) : Paced a where
  inCalendar := fun c hc => h.inCalendar c (List.mem_append_left _ hc)
  monotone := (List.pairwise_append.mp h.monotone).1

theorem Paced.le {before after : List Call} {c : Call} (h : Paced (before ++ c :: after)) :
    ∀ c' ∈ before, c'.now ≤ c.now :=
  fun c' hc' => (List.pairwise_append.mp h.monotone).2.2 c' hc' c (List.mem_cons_self ..)

theorem unfinished_snoc {k : Key} {visits : List Visit} {v : Visit}
    (h : Unfinished k (visits ++ [v])) :
    v.starts k = true ∨ (Unfinished k visits ∧ v.finishes k = false) := by
  obtain ⟨before, m, after, heq, hstart, hafter⟩ := h
  rcases after.eq_nil_or_concat with rfl | ⟨after, m', rfl⟩
  · obtain ⟨_, hv⟩ := List.append_inj' heq rfl
    obtain rfl := (List.cons.inj hv).1
    exact .inl hstart
  · rw [List.concat_eq_append, ← List.cons_append, ← List.append_assoc] at heq
    obtain ⟨hvisits, hv⟩ := List.append_inj' heq rfl
    obtain rfl := (List.cons.inj hv).1
    refine .inr ⟨⟨before, m, after, hvisits, hstart, fun n hn => ?_⟩, ?_⟩
    · exact hafter n (by simp [hn])
    · exact hafter v (by simp)

/-! ## What one call does to the row of a key -/

/-- The row of a key before and after a visit. -/
inductive RowChange (k : Key) (v : Visit) : Option Row → Option Row → Prop
  | kept (before : Option Row) (hstart : v.starts k = false) (hping : v.pings k = false)
      (hfinish : v.finishes k = true → before = none) : RowChange k v before before
  | taken (before : Option Row) (r : Row) (hpinged : r.pinged = storedText v.time)
      (hrunning : r.running = true) (hfinish : v.finishes k = false) :
      RowChange k v before (some r)
  | alive (r : Row) (hstart : v.starts k = false) (hfinish : v.finishes k = false) :
      RowChange k v (some r) (some (r.alive v.time))
  | released (r : Row) (history : String) (hstart : v.starts k = false)
      (hfinish : v.finishes k = true) :
      RowChange k v (some r) (some (r.released v.time history))

/-- A start that is refused takes no lock. -/
theorem Visit.starts_of_error {s : Store} {now : Instant} {w : Wish} {fresh : String} {f : Failure}
    {t : Table} (caller : Nat) (h : s.table.start s.expire w now fresh = (.error f, t)) :
    Visit.starts w.key ⟨s, ⟨caller, now, .start w fresh⟩⟩ = false := by
  simp [starts, time, h, Except.isOk, Except.toBool]

/-- A start takes no lock but the one it is for. -/
theorem Visit.starts_of_ne (s : Store) (caller : Nat) (now : Instant) {w : Wish} (fresh : String)
    {k : Key} (hk : k ≠ w.key) :
    Visit.starts k ⟨s, ⟨caller, now, .start w fresh⟩⟩ = false := by
  simp [starts, Ne.symm hk]

theorem rowChange_start (k : Key) (s : Store) (caller : Nat) (now : Instant) (w : Wish)
    (fresh : String) : RowChange k ⟨s, ⟨caller, now, .start w fresh⟩⟩ (s.table.rowOf k)
      ((s.step ⟨caller, now, .start w fresh⟩).table.rowOf k) := by
  have hfinish : Visit.finishes k ⟨s, ⟨caller, now, .start w fresh⟩⟩ = false := rfl
  rw [Store.step]
  by_cases hk : k = w.key
  · obtain rfl := hk
    rcases s.table.start_cases s.expire w now fresh with ⟨hnone, heq⟩ | ⟨r, hr, _, heq⟩ | ⟨f, heq⟩
    · -- there was no row, and one is made
      simp only [heq]
      rw [Table.rowOf_append_fresh hnone]
      exact .taken _ _ rfl rfl hfinish
    · simp only [heq]
      rw [Table.rowOf_modify_taken hr]
      exact .taken _ _ rfl rfl hfinish
    · -- the wish is refused
      simp only [heq]
      exact .kept _ (Visit.starts_of_error caller heq) rfl fun h => by cases h
  · simp only [Table.rowOf_start_of_ne s.table s.expire now fresh hk]
    exact .kept _ (Visit.starts_of_ne s caller now fresh hk) rfl fun h => by cases h

theorem rowChange_ping (k : Key) (s : Store) (caller : Nat) (now : Instant) (ids : List String) :
    RowChange k ⟨s, ⟨caller, now, .ping ids⟩⟩ (s.table.rowOf k)
      ((s.step ⟨caller, now, .ping ids⟩).table.rowOf k) := by
  simp only [Store.step, Table.rowOf_ping]
  cases hr : s.table.rowOf k with
  | none =>
    have hping : Visit.pings k ⟨s, ⟨caller, now, .ping ids⟩⟩ = false := by simp [Visit.pings, hr]
    exact .kept none rfl hping fun _ => rfl
  | some r =>
    rw [Option.map_some]
    by_cases hid : ids.contains r.id = true
    · rw [if_pos hid]
      exact .alive r rfl rfl
    · rw [if_neg hid]
      have hping : Visit.pings k ⟨s, ⟨caller, now, .ping ids⟩⟩ = false := by
        simpa [Visit.pings, hr] using hid
      exact .kept _ rfl hping fun h => by cases h

theorem rowChange_finish (k : Key) {s : Store} (hs : s.table.IsKept) (caller : Nat)
    (now : Instant) (k' : Key) (o : Outcome) :
    RowChange k ⟨s, ⟨caller, now, .finish k' o⟩⟩ (s.table.rowOf k)
      ((s.step ⟨caller, now, .finish k' o⟩).table.rowOf k) := by
  simp only [Store.step]
  by_cases hk : k = k'
  · obtain rfl := hk
    have hfinish : Visit.finishes k ⟨s, ⟨caller, now, .finish k o⟩⟩ = true := by
      simp [Visit.finishes]
    cases hr : s.table.rowOf k with
    | none =>
      simp only [Table.finish_none hr, hr]
      exact .kept none rfl rfl fun _ => rfl
    | some r =>
      obtain ⟨history, _, heq⟩ := hs.finish_some hr o now
      simp only [heq]
      rw [Table.rowOf_modify_released hr]
      exact .released r history rfl hfinish
  · have hfinish : Visit.finishes k ⟨s, ⟨caller, now, .finish k' o⟩⟩ = false := by
      simp [Visit.finishes, Ne.symm hk]
    rw [Table.rowOf_finish_of_ne s.table o now hk]
    exact .kept _ rfl rfl fun h => by
      rw [hfinish] at h
      cases h

/-- **One call changes the row of a key in one of four ways.** -/
theorem rowChange_step (k : Key) {s : Store} (hs : s.table.IsKept) (c : Call) :
    RowChange k ⟨s, c⟩ (s.table.rowOf k) ((s.step c).table.rowOf k) := by
  obtain ⟨caller, now, request⟩ := c
  cases request with
  | start w fresh => exact rowChange_start k s caller now w fresh
  | ping ids => exact rowChange_ping k s caller now ids
  | finish k' o => exact rowChange_finish k hs caller now k' o
  | setExpiry d => exact .kept _ rfl rfl fun h => by cases h

/-! ## The invariant -/

/-- Whether the row of a key is there and running is known after some visits. -/
structure Holds (k : Key) (visits : List Visit) (s : Store) : Prop where
  found : (∃ m ∈ visits, m.starts k = true) → (s.table.rowOf k).isSome = true
  running : ∀ r, s.table.rowOf k = some r → Unfinished k visits → r.running = true

/-- What is known of the row of a key after some visits, if the clock never goes back. -/
structure Tracks (k : Key) (visits : List Visit) (s : Store) : Prop extends Holds k visits s where
  pinged : ∀ r, s.table.rowOf k = some r → ∃ p, inCalendar p = true ∧ r.pinged = storedText p ∧
    ∀ m ∈ visits, m.touches k = true → m.time ≤ p

theorem holds_nil (k : Key) (expire : Duration) : Holds k [] (.empty expire) where
  found := by
    rintro ⟨m, hm, _⟩
    cases hm
  running := fun r hr => by cases hr

/-- **One call keeps what is known of the running flag**, whatever the clock says. -/
theorem Holds.snoc {k : Key} {visits : List Visit} {s : Store} {c : Call}
    (h : Holds k visits s) (hs : s.table.IsKept) : Holds k (visits ++ [⟨s, c⟩]) (s.step c) := by
  have hchange := rowChange_step k hs c
  generalize hbefore : s.table.rowOf k = before at hchange
  generalize hafter : (s.step c).table.rowOf k = after at hchange
  cases hchange with
  | kept _ hstart _ _ =>
    constructor
    · rintro ⟨m, hm, hms⟩
      rw [hafter, ← hbefore]
      rcases List.mem_append.mp hm with hm | hm
      · exact h.found ⟨m, hm, hms⟩
      · rw [List.mem_singleton.mp hm, hstart] at hms
        cases hms
    · intro r hr hu
      obtain rfl := hafter.symm.trans hr
      rcases unfinished_snoc hu with hs' | ⟨hu, _⟩
      · rw [hstart] at hs'
        cases hs'
      · exact h.running r hbefore hu
  | taken _ r _ hrunning _ =>
    refine ⟨fun _ => by rw [hafter]; rfl, fun r' hr' _ => ?_⟩
    obtain rfl := Option.some.inj (hafter.symm.trans hr')
    exact hrunning
  | alive r hstart _ =>
    refine ⟨fun _ => by rw [hafter]; rfl, fun r' hr' hu => ?_⟩
    obtain rfl := Option.some.inj (hafter.symm.trans hr')
    rcases unfinished_snoc hu with hs' | ⟨hu, _⟩
    · rw [hstart] at hs'
      cases hs'
    · exact h.running r hbefore hu
  | released r history hstart hfinish =>
    refine ⟨fun _ => by rw [hafter]; rfl, fun r' _ hu => ?_⟩
    rcases unfinished_snoc hu with hs' | ⟨_, hf⟩
    · rw [hstart] at hs'
      cases hs'
    · rw [hfinish] at hf
      cases hf

/-- **One call keeps the invariant.** -/
theorem Tracks.snoc {k : Key} {visits : List Visit} {s : Store} {c : Call}
    (h : Tracks k visits s) (hs : s.table.IsKept) (hnow : inCalendar c.now = true)
    (hle : ∀ m ∈ visits, m.time ≤ c.now) : Tracks k (visits ++ [⟨s, c⟩]) (s.step c) := by
  refine ⟨h.toHolds.snoc hs, ?_⟩
  have hmem : ∀ m ∈ visits ++ [Visit.mk s c], m.time ≤ c.now := by
    intro m hm
    rcases List.mem_append.mp hm with hm | hm
    · exact hle m hm
    · rw [List.mem_singleton.mp hm]
      exact Int.le_refl _
  -- wherever the visit writes a sign of life, it is later than all before
  have hwritten : ∀ r : Row, r.pinged = storedText c.now → ∃ p, inCalendar p = true ∧
      r.pinged = storedText p ∧ ∀ m ∈ visits ++ [Visit.mk s c], m.touches k = true → m.time ≤ p :=
    fun r hr => ⟨c.now, hnow, hr, fun m hm _ => hmem m hm⟩
  have hchange := rowChange_step k hs c
  generalize hbefore : s.table.rowOf k = before at hchange
  generalize (s.step c).table.rowOf k = after at hchange ⊢
  intro r hr
  cases hchange with
  | kept _ hstart hping hfinish =>
    obtain ⟨p, hp, htext, hall⟩ := h.pinged r (hbefore.trans hr)
    refine ⟨p, hp, htext, fun m hm hmt => ?_⟩
    rcases List.mem_append.mp hm with hm | hm
    · exact hall m hm hmt
    · rw [List.mem_singleton.mp hm, Visit.touches, hstart, hping] at hmt
      rw [hfinish hmt] at hr
      cases hr
  | taken _ r hpinged _ _ =>
    obtain rfl := Option.some.inj hr
    exact hwritten _ hpinged
  | alive r _ _ =>
    obtain rfl := Option.some.inj hr
    exact hwritten _ rfl
  | released r history _ _ =>
    obtain rfl := Option.some.inj hr
    exact hwritten _ rfl

theorem isKept_step {s : Store} (hs : s.table.IsKept) {c : Call} (hnow : inCalendar c.now = true) :
    (s.step c).table.IsKept := by
  obtain ⟨caller, now, request⟩ := c
  cases request with
  | start w fresh => exact hs.start hnow s.expire w fresh
  | ping ids => exact hs.ping hnow ids
  | finish k o => exact hs.finish hnow k o
  | setExpiry d => exact hs

/-- Rows are kept in every run. -/
theorem isKept_run (expire : Duration) {calls : List Call}
    (h : ∀ c ∈ calls, inCalendar c.now = true) :
    ((Store.empty expire).run calls).table.IsKept := by
  induction calls using List.reverseRecOn with
  | nil => exact Table.isKept_nil
  | append_singleton calls c ih =>
    rw [Store.run_append]
    exact isKept_step (ih fun c hc => h c (List.mem_append_left _ hc)) (h c (by simp))

/-- What is known of the running flag is known after every run. -/
theorem holds_run (k : Key) (expire : Duration) {calls : List Call}
    (h : ∀ c ∈ calls, inCalendar c.now = true) :
    Holds k ((Store.empty expire).visits calls) ((Store.empty expire).run calls) := by
  induction calls using List.reverseRecOn with
  | nil => exact holds_nil k expire
  | append_singleton calls c ih =>
    have hcalls : ∀ c ∈ calls, inCalendar c.now = true := fun c hc =>
      h c (List.mem_append_left _ hc)
    rw [Store.run_append, Store.visits_append]
    exact (ih hcalls).snoc (isKept_run expire hcalls)

/-- **Every run whose clock never goes back keeps the invariant.** -/
theorem tracks_run (k : Key) (expire : Duration) {calls : List Call} (h : Paced calls) :
    Tracks k ((Store.empty expire).visits calls) ((Store.empty expire).run calls) := by
  induction calls using List.reverseRecOn with
  | nil => exact ⟨holds_nil k expire, fun r hr => by cases hr⟩
  | append_singleton calls c ih =>
    rw [Store.run_append, Store.visits_append]
    refine (ih h.left).snoc (isKept_run expire h.left.inCalendar) (h.inCalendar c (by simp)) ?_
    exact fun m hm => h.le m.call (Store.call_mem_of_visits hm)

end AccessRules.Lock
