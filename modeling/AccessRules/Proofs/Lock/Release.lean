import AccessRules.Proofs.Lock.Run

/-!
# Who releases a lock

**Program** — runs of `Store.step` by many callers, each of whom takes the lock of a key and
releases it later.

**Spec** — a lock that was taken stays taken until someone releases the key, and whoever does so
releases it (`running_until_release`).

**Crux** — nothing in a row says who holds it: a lock that is taken over keeps its identifier, and a
release names the rule and the engine only.  So a caller whose lock has expired and was taken over
releases the lock of its successor when it finishes late (`lateRelease`).  Only where every earlier
holder has finished is a lock its holder's own to release.
-/

namespace AccessRules.Lock

open Calendar

/-- Callers release a key only after they took its lock, and only once. -/
structure WellBehaved (k : Key) (visits : List Visit) : Prop where
  taken : ∀ before v after, visits = before ++ v :: after → v.finishes k = true →
    ∃ m ∈ before, m.starts k = true ∧ m.call.caller = v.call.caller
  once : visits.Pairwise fun m v =>
    m.finishes k = true → v.finishes k = true → m.call.caller ≠ v.call.caller

/-- Whether the row of a key is there and running. -/
def Store.isRunning (k : Key) (s : Store) : Bool := (s.table.rowOf k).any (·.running)

/-- After a start the lock of a key stays taken until the same caller releases it or another start
succeeds. -/
def HeldUntilOwnRelease (k : Key) (expire : Duration) (calls : List Call) : Prop :=
  ∀ before v after, (Store.empty expire).visits calls = before ++ v :: after →
    v.starts k = true → (∀ m ∈ after, m.starts k = false ∧
      (m.finishes k = true → m.call.caller ≠ v.call.caller)) →
    ((Store.empty expire).run calls).isRunning k = true

/-! ## Late releases -/

/-- What a caller says when it is done. -/
def lateOutcome : Outcome := ⟨.utc 0, .utc 30, true, false, "", ""⟩

/-- Two callers: the lock of the first expires, the second takes it over, and the first finishes. -/
def lateRelease : List Call :=
  [⟨1, 0, .start ⟨5, "rule", "engine", false⟩ "a"⟩,
    ⟨2, 20, .start ⟨5, "rule", "engine", false⟩ "b"⟩,
    ⟨1, 30, .finish ⟨"rule", "engine"⟩ lateOutcome⟩]

/-- A lock is not its holder's own: a late release frees the lock of the successor. -/
theorem not_heldUntilOwnRelease :
    Paced lateRelease ∧ WellBehaved ⟨"rule", "engine"⟩ ((Store.empty 7).visits lateRelease) ∧
      ¬ HeldUntilOwnRelease ⟨"rule", "engine"⟩ 7 lateRelease := by
  obtain ⟨first, second, last, hvisits⟩ :
      ∃ a b c, (Store.empty 7).visits lateRelease = [a, b, c] := ⟨_, _, _, rfl⟩
  have hstarts : ((Store.empty 7).visits lateRelease).map (·.starts ⟨"rule", "engine"⟩) =
      [true, true, false] := by decide +kernel
  have hfinishes : ((Store.empty 7).visits lateRelease).map (·.finishes ⟨"rule", "engine"⟩) =
      [false, false, true] := by decide +kernel
  have hcallers : ((Store.empty 7).visits lateRelease).map (·.call.caller) = [1, 2, 1] := rfl
  have hrun : ((Store.empty 7).run lateRelease).isRunning ⟨"rule", "engine"⟩ = false := by
    decide +kernel
  have honce : ((Store.empty 7).visits lateRelease).Pairwise fun m v =>
      m.finishes ⟨"rule", "engine"⟩ = true → v.finishes ⟨"rule", "engine"⟩ = true →
        m.call.caller ≠ v.call.caller := by decide +kernel
  rw [hvisits] at hstarts hfinishes hcallers honce
  simp only [List.map_cons, List.map_nil, List.cons.injEq, and_true] at hstarts hfinishes hcallers
  refine ⟨⟨by decide, by decide⟩, ⟨?_, by rwa [hvisits]⟩, ?_⟩
  · intro before v after heq hfinish
    rw [hvisits] at heq
    rcases before with _ | ⟨a, _ | ⟨b, before⟩⟩
    · obtain ⟨rfl, _⟩ := List.cons.inj heq
      rw [hfinishes.1] at hfinish
      cases hfinish
    · obtain ⟨_, heq⟩ := List.cons.inj heq
      obtain ⟨rfl, _⟩ := List.cons.inj heq
      rw [hfinishes.2.1] at hfinish
      cases hfinish
    · simp only [List.cons_append, List.cons.injEq] at heq
      obtain ⟨rfl, rfl, heq⟩ := heq
      have hv : v ∈ [last] := by
        rw [heq]
        simp
      obtain rfl := List.mem_singleton.mp hv
      exact ⟨_, List.mem_cons_self .., hstarts.1, hcallers.1.trans hcallers.2.2.symm⟩
  · intro hheld
    have hrunning := hheld [first] second [last] hvisits hstarts.2.1 (by
      simp [hstarts, hfinishes, hcallers])
    rw [hrun] at hrunning
    cases hrunning

/-! ## What ends a holding -/

/-- What was taken and not released is running. -/
theorem isRunning_of_unfinished {k : Key} {visits : List Visit} {s : Store}
    (h : Holds k visits s) (hu : Unfinished k visits) : s.isRunning k = true := by
  have hfound : ∃ m ∈ visits, m.starts k = true := by
    obtain ⟨before, v, after, rfl, hstart, _⟩ := hu
    exact ⟨v, by simp, hstart⟩
  obtain ⟨r, hr⟩ := Option.isSome_iff_exists.mp (h.found hfound)
  rw [Store.isRunning, hr, Option.any_some]
  exact h.running r hr hu

/-- Whoever releases a key frees its lock. -/
theorem isRunning_of_finishes {k : Key} {s : Store} (hs : s.table.IsKept) {c : Call}
    (hfinish : Visit.finishes k ⟨s, c⟩ = true) : (s.step c).isRunning k = false := by
  have hchange := rowChange_step k hs c
  rw [Store.isRunning]
  generalize s.table.rowOf k = before at hchange
  generalize (s.step c).table.rowOf k = after at hchange
  cases hchange with
  | kept _ _ _ hnone => rw [hnone hfinish, Option.any_none]
  | taken _ _ _ _ hf =>
    rw [hfinish] at hf
    cases hf
  | alive _ _ hf =>
    rw [hfinish] at hf
    cases hf
  | released r history _ _ => rfl

/-- Where all earlier holders have finished, only the holder releases a lock. -/
theorem WellBehaved.not_finishes {k : Key} {before after : List Visit} {v : Visit}
    (h : WellBehaved k (before ++ v :: after))
    (hdone : ∀ m ∈ before, m.starts k = true →
      ∃ n ∈ before, n.finishes k = true ∧ n.call.caller = m.call.caller)
    (hafter : ∀ m ∈ after, m.starts k = false ∧
      (m.finishes k = true → m.call.caller ≠ v.call.caller)) :
    ∀ m ∈ after, m.finishes k = false := by
  intro m hm
  rw [Bool.eq_false_iff]
  intro hfinish
  obtain ⟨mid, later, rfl⟩ := List.append_of_mem hm
  obtain ⟨n, hn, hstart, hcaller⟩ := h.taken (before ++ v :: mid) m later (by simp) hfinish
  rcases List.mem_append.mp hn with hn | hn
  · -- an earlier holder has finished before, so this would be its second release
    obtain ⟨n', hn', hfinish', hcaller'⟩ := hdone n hn hstart
    have honce := (List.pairwise_append.mp h.once).2.2 n' hn' m (by simp) hfinish' hfinish
    exact honce (hcaller'.trans hcaller)
  · rcases List.mem_cons.mp hn with rfl | hn
    · exact (hafter m (by simp)).2 hfinish hcaller.symm
    · rw [(hafter n (by simp [hn])).1] at hstart
      cases hstart

/-- **A lock is held until someone releases its key.**  After a start the lock stays taken, whatever
starts and pings follow, as long as no one releases the key; a release by anyone frees it; and
where every earlier holder had finished before the start, it stays taken until the same caller
releases it or another start succeeds. -/
theorem running_until_release (k : Key) (expire : Duration) {calls : List Call}
    (h : ∀ c ∈ calls, inCalendar c.now = true) :
    (∀ before v after, (Store.empty expire).visits calls = before ++ v :: after →
      v.starts k = true → (∀ m ∈ after, m.finishes k = false) →
      ((Store.empty expire).run calls).isRunning k = true) ∧
    (∀ before v after, (Store.empty expire).visits calls = before ++ v :: after →
      v.finishes k = true → (v.store.step v.call).isRunning k = false) ∧
    (WellBehaved k ((Store.empty expire).visits calls) →
      ∀ before v after, (Store.empty expire).visits calls = before ++ v :: after →
      v.starts k = true → (∀ m ∈ before, m.starts k = true →
        ∃ n ∈ before, n.finishes k = true ∧ n.call.caller = m.call.caller) →
      (∀ m ∈ after, m.starts k = false ∧
        (m.finishes k = true → m.call.caller ≠ v.call.caller)) →
      ((Store.empty expire).run calls).isRunning k = true) := by
  have hheld : ∀ before v after, (Store.empty expire).visits calls = before ++ v :: after →
      v.starts k = true → (∀ m ∈ after, m.finishes k = false) →
      ((Store.empty expire).run calls).isRunning k = true :=
    fun before v after heq hstart hafter =>
      isRunning_of_unfinished (holds_run k expire h) ⟨before, v, after, heq, hstart, hafter⟩
  refine ⟨hheld, ?_, ?_⟩
  · intro before v after heq hfinish
    obtain ⟨earlier, later, rfl, rfl, hstore⟩ := Store.visits_split heq
    have hs : v.store.table.IsKept := by
      rw [hstore]
      exact isKept_run expire fun c hc => h c (List.mem_append_left _ hc)
    exact isRunning_of_finishes hs hfinish
  · intro hwell before v after heq hstart hdone hafter
    rw [heq] at hwell
    exact hheld before v after heq hstart (hwell.not_finishes hdone hafter)

/-- The second caller takes the lock over, and it is taken. -/
theorem running_until_release_takeover :
    Paced (lateRelease.take 2) ∧
      ((Store.empty 7).run (lateRelease.take 2)).isRunning ⟨"rule", "engine"⟩ = true := by
  have hpaced : Paced (lateRelease.take 2) := ⟨by decide, by decide⟩
  obtain ⟨first, second, hvisits⟩ :
      ∃ a b, (Store.empty 7).visits (lateRelease.take 2) = [a, b] := ⟨_, _, rfl⟩
  have hstarts : ((Store.empty 7).visits (lateRelease.take 2)).map
      (·.starts ⟨"rule", "engine"⟩) = [true, true] := by decide +kernel
  rw [hvisits] at hstarts
  simp only [List.map_cons, List.map_nil, List.cons.injEq, and_true] at hstarts
  exact ⟨hpaced, (running_until_release ⟨"rule", "engine"⟩ 7 hpaced.inCalendar).1 [first] second
    [] hvisits hstarts.2 (by simp)⟩

end AccessRules.Lock
