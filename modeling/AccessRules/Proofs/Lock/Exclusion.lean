import AccessRules.Proofs.Lock.Run

/-!
# Locks exclude each other

**Program** — runs of `Store.step` from a store without locks, by any callers in any order.

**Spec** — an unforced wish that takes the lock of a key with a record comes strictly later, by more
than its `after`, than everything that touched the key before; while the last start of the key was
not followed by a release, it comes later by more than the expiry of locks as well
(`start_excludes`).  So at most one of several unforced wishes with the same `after` succeeds within
a time of that length.

**Crux** — `Wish.lt_of_mayTake` compares the clock with one stored sign of life only; the invariant
`Tracks` says that this one is no earlier than any visit that touched the key, and that the row is
still running if the last start was not released.
-/

namespace AccessRules.Lock

open Calendar

namespace Visit

/-- An unforced wish for the lock of a key that has a record already. -/
structure IsRenewal (k : Key) (w : Wish) (v : Visit) : Prop where
  request : ∃ fresh, v.call.request = .start w fresh
  key : w.key = k
  unforced : w.force = false
  record : (v.store.table.rowOf k).isSome = true

/-- Whether an unforced wish with at least some `after` took the lock of a key. -/
def wins (k : Key) (after : Duration) (v : Visit) : Bool :=
  match v.call.request with
  | .start w _ => v.starts k && !w.force && decide (after ≤ w.after)
  | _ => false

theorem exists_wish_of_wins {k : Key} {after : Duration} {v : Visit} (h : v.wins k after = true) :
    v.starts k = true ∧ ∃ w fresh, v.call.request = .start w fresh ∧ w.key = k ∧
      w.force = false ∧ after ≤ w.after := by
  cases hrequest : v.call.request with
  | start w fresh =>
    simp only [wins, hrequest, Bool.and_eq_true, Bool.not_eq_true', decide_eq_true_eq] at h
    obtain ⟨⟨hstart, hforce⟩, hafter⟩ := h
    have hkey := hstart
    simp only [starts, hrequest, Bool.and_eq_true, beq_iff_eq] at hkey
    exact ⟨hstart, w, fresh, rfl, hkey.1, hforce, hafter⟩
  | ping ids => simp [wins, hrequest] at h
  | finish k' o => simp [wins, hrequest] at h
  | setExpiry d => simp [wins, hrequest] at h

/-- Whether a call was made within a time of some length. -/
def within (start : Instant) (length : Duration) (v : Visit) : Bool :=
  decide (start ≤ v.time) && decide (v.time ≤ start + length)

/-- A renewal that takes the lock comes after the protection of the row has run out. -/
theorem IsRenewal.lt {k : Key} {w : Wish} {v : Visit} (h : v.IsRenewal k w)
    (hstart : v.starts k = true) {r : Row} (hr : v.store.table.rowOf k = some r) {p : Instant}
    (hp : inCalendar p = true) (htext : r.pinged = storedText p) :
    p + w.protection v.store.expire r.running < v.time := by
  obtain ⟨fresh, hrequest⟩ := h.request
  obtain rfl := h.key
  simp only [starts, hrequest, Bool.and_eq_true] at hstart
  rcases v.store.table.start_cases v.store.expire w v.time fresh with
    ⟨hnone, _⟩ | ⟨r', hr', hfree, _⟩ | ⟨f, heq⟩
  · rw [hr] at hnone
    cases hnone
  · obtain rfl := Option.some.inj (hr.symm.trans hr')
    obtain ⟨pinged, hread, hmay⟩ := hfree
    rw [htext, readTime_storedText hp] at hread
    obtain rfl := Except.ok.inj hread
    exact Wish.lt_of_mayTake h.unforced hmay
  · rw [heq] at hstart
    cases hstart.2

end Visit

/-- A renewal that takes the lock comes after all that touched the key, by its `after` and, if the
lock was not released, by the expiry. -/
theorem Visit.IsRenewal.after {k : Key} {w : Wish} {v : Visit} (h : v.IsRenewal k w)
    (hstart : v.starts k = true) {earlier : List Visit} (htracks : Tracks k earlier v.store) :
    (∀ m ∈ earlier, m.touches k = true → m.time + w.after < v.time) ∧
      (Unfinished k earlier → ∀ m ∈ earlier, m.touches k = true →
        m.time + max v.store.expire w.after < v.time) := by
  obtain ⟨r, hr⟩ := Option.isSome_iff_exists.mp h.record
  -- the last sign of life of the row is no earlier than anything that touched the key
  obtain ⟨p, hp, htext, hall⟩ := htracks.pinged r hr
  have hlt := h.lt hstart hr hp htext
  have hafter := w.after_le_protection v.store.expire r.running
  constructor
  · intro m hm hmt
    have hle := hall m hm hmt
    lia
  · intro hu m hm hmt
    have hle := hall m hm hmt
    rw [htracks.running r hr hu, Wish.protection, if_pos rfl] at hlt
    lia

/-- Where no two members of a list meet a condition, at most one does. -/
theorem countP_le_one {α : Type} {p : α → Bool} {l : List α}
    (h : ∀ before a between b after, l = before ++ a :: between ++ b :: after → p a = true →
      p b = true → False) : l.countP p ≤ 1 := by
  rw [List.countP_eq_length_filter]
  cases hl : l.filter p with
  | nil => simp
  | cons a rest =>
    cases rest with
    | nil => simp
    | cons b rest =>
      obtain ⟨before, l', rfl, _, ha, hrest⟩ := List.filter_eq_cons_iff.mp hl
      obtain ⟨between, after, rfl, _, hb, _⟩ := List.filter_eq_cons_iff.mp hrest
      exact (h before a between b after (by simp) ha hb).elim

/-- **Lock exclusion and rate limit.**  In every run from an empty store a renewal that takes the
lock comes later, by more than its `after`, than every earlier start, ping and release of the key,
and as long as the last start was not released, by more than the expiry as well.  So of the unforced
wishes with some `after` made within a time of that length, at most one succeeds. -/
theorem start_excludes (k : Key) (expire : Duration) {calls : List Call} (h : Paced calls) :
    (∀ earlier v later, (Store.empty expire).visits calls = earlier ++ v :: later →
      ∀ w, v.IsRenewal k w → v.starts k = true →
        (∀ m ∈ earlier, m.touches k = true → m.time + w.after < v.time) ∧
        (Unfinished k earlier → ∀ m ∈ earlier, m.touches k = true →
          m.time + max v.store.expire w.after < v.time)) ∧
    (∀ start after, ((Store.empty expire).visits calls).countP
      (fun v => v.wins k after && v.within start after) ≤ 1) := by
  have hsplit : ∀ earlier v later,
      (Store.empty expire).visits calls = earlier ++ v :: later → Tracks k earlier v.store := by
    intro earlier v later heq
    obtain ⟨before, after, rfl, rfl, hstore⟩ := Store.visits_split heq
    rw [hstore]
    exact tracks_run k expire h.left
  refine ⟨fun earlier v later heq w hv hstart => hv.after hstart (hsplit earlier v later heq), ?_⟩
  intro start after
  apply countP_le_one
  intro before a between b later heq ha hb
  have hb' := hsplit (before ++ a :: between) b later (by simpa using heq)
  simp only [Bool.and_eq_true] at ha hb
  obtain ⟨hbstart, w, fresh, hrequest, hkey, hforce, hafter⟩ := Visit.exists_wish_of_wins hb.1
  obtain ⟨hastart, _⟩ := Visit.exists_wish_of_wins ha.1
  -- the later of the two finds the record the earlier one made or took
  have hfound : (b.store.table.rowOf k).isSome = true := hb'.found ⟨a, by simp, hastart⟩
  have hrenewal : b.IsRenewal k w := ⟨⟨fresh, hrequest⟩, hkey, hforce, hfound⟩
  have htouch : a.touches k = true := by simp [Visit.touches, hastart]
  have hlt := (hrenewal.after hbstart hb').1 a (by simp) htouch
  simp only [Visit.within, Bool.and_eq_true, decide_eq_true_eq] at ha hb
  lia

/-- A wish for the lock of one rule under one engine, made twice. -/
def repeatedWish : Wish := ⟨5, "rule", "engine", false⟩

/-- The first of two wishes, made of an empty store. -/
def firstVisit : Visit := ⟨.empty 7, ⟨1, 0, .start repeatedWish "a"⟩⟩

/-- The second of two wishes, made of the store the first one left. -/
def secondVisit : Visit :=
  ⟨firstVisit.store.step firstVisit.call, ⟨2, 20, .start repeatedWish "b"⟩⟩

/-- The second wish succeeds, and indeed it comes more than the expiry after the first. -/
theorem start_excludes_repeatedWish :
    secondVisit.starts repeatedWish.key = true ∧
      firstVisit.time + max secondVisit.store.expire repeatedWish.after < secondVisit.time := by
  have hpaced : Paced [firstVisit.call, secondVisit.call] :=
    ⟨by decide, by decide⟩
  have hfirst : firstVisit.starts repeatedWish.key = true := by decide +kernel
  have hsecond : secondVisit.starts repeatedWish.key = true := by decide +kernel
  have hrenewal : secondVisit.IsRenewal repeatedWish.key repeatedWish :=
    ⟨⟨"b", rfl⟩, rfl, rfl, by decide +kernel⟩
  have hunfinished : Unfinished repeatedWish.key [firstVisit] :=
    ⟨[], firstVisit, [], rfl, hfirst, by simp⟩
  have htouch : firstVisit.touches repeatedWish.key = true := by
    rw [Visit.touches, hfirst]
    rfl
  have h := (start_excludes repeatedWish.key 7 hpaced).1 [firstVisit] secondVisit [] rfl
    repeatedWish hrenewal hsecond
  exact ⟨hsecond, h.2 hunfinished firstVisit (List.mem_singleton_self _) htouch⟩

end AccessRules.Lock
