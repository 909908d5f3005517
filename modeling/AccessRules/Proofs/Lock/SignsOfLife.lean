import Mathlib.Data.List.Induction
import Mathlib.Data.String.Basic
import AccessRules.Lock.KeepAlive

/-!
# Signs of life for the locks that are held

**Program** — `Loop.run` takes the events of a loop one after the other and pings what it holds
after each of them; `KeepAlive` starts and stops loops.

**Spec** — a lock is in use if the last event about it says that it was taken (`IsInUse`).  After
each event exactly the locks in use are pinged, in strict order, and nothing is pinged when none is
in use; what a ping answers makes no difference, and a loop that was stopped pings nothing more and
leaves nothing to the next one (`pings_exactly_held`).

**Crux** — the list that a loop holds is a summary of all events so far (`heldAfter`), and it is the
set of the locks in use, written in one way only: strictly increasing (`pairwise_heldAfter`,
`mem_heldAfter`).  One event keeps both.
-/

namespace AccessRules.Lock

/-! ## What is held -/

/-- Whether an event says something of a lock. -/
def Event.isAbout (id : String) : Event → Bool
  | .add id' => id' == id
  | .remove id' => id' == id
  | .tick => false
  | .stop => false

/-- The last event about a lock says that it was taken. -/
def IsInUse (id : String) (events : List Event) : Prop :=
  (events.filter (Event.isAbout id)).getLast? = some (.add id)

/-- What a loop that began with nothing holds after some events. -/
def heldAfter (events : List Event) : List String := events.foldl Event.applyTo []

theorem heldAfter_snoc (events : List Event) (e : Event) :
    heldAfter (events ++ [e]) = e.applyTo (heldAfter events) := by
  rw [heldAfter, List.foldl_append]
  rfl

theorem mem_insertId {id x : String} {held : List String} :
    x ∈ insertId id held ↔ x = id ∨ x ∈ held := by
  induction held with
  | nil => simp [insertId]
  | cons y ys ih =>
    rw [insertId]
    split
    · exact List.mem_cons
    · split
      · next h =>
        subst h
        simp
      · rw [List.mem_cons, ih, List.mem_cons]
        tauto

/-- An identifier is put where it belongs. -/
theorem pairwise_insertId {id : String} {held : List String} (h : held.Pairwise (· < ·)) :
    (insertId id held).Pairwise (· < ·) := by
  induction held with
  | nil => exact List.pairwise_singleton ..
  | cons y ys ih =>
    obtain ⟨hy, hys⟩ := List.pairwise_cons.mp h
    rw [insertId]
    split
    · next hlt =>
      refine List.pairwise_cons.mpr ⟨fun x hx => ?_, h⟩
      rcases List.mem_cons.mp hx with rfl | hx
      · exact hlt
      · exact hlt.trans (hy x hx)
    · next hnot =>
      split
      · exact h
      · next hne =>
        -- it belongs behind the first one
        have hgt : y < id := lt_of_le_of_ne (not_lt.mp hnot) (Ne.symm hne)
        refine List.pairwise_cons.mpr ⟨fun x hx => ?_, ih hys⟩
        rcases mem_insertId.mp hx with rfl | hx
        · exact hgt
        · exact hy x hx

theorem pairwise_applyTo {held : List String} (h : held.Pairwise (· < ·)) (e : Event) :
    (e.applyTo held).Pairwise (· < ·) := by
  cases e with
  | add id => exact pairwise_insertId h
  | remove id => exact h.filter _
  | tick => exact h
  | stop => exact h

/-- **What is held is strictly increasing.** -/
theorem pairwise_heldAfter (events : List Event) : (heldAfter events).Pairwise (· < ·) := by
  induction events using List.reverseRecOn with
  | nil => exact List.Pairwise.nil
  | append_singleton events e ih =>
    rw [heldAfter_snoc]
    exact pairwise_applyTo ih e

/-- An event about a lock decides alone whether it is in use. -/
theorem isInUse_snoc_about {id : String} {e : Event} (h : e.isAbout id = true)
    (events : List Event) : IsInUse id (events ++ [e]) ↔ e = .add id := by
  rw [IsInUse, List.filter_append, List.filter_cons_of_pos h, List.filter_nil,
    List.getLast?_concat, Option.some_inj]

/-- An event about other locks, or none, leaves a lock in use or not. -/
theorem isInUse_snoc_of_not_about {id : String} {e : Event} (h : e.isAbout id = false)
    (events : List Event) : IsInUse id (events ++ [e]) ↔ IsInUse id events := by
  have hnot : ¬ e.isAbout id = true := by simp [h]
  rw [IsInUse, IsInUse, List.filter_append, List.filter_cons_of_neg hnot, List.filter_nil,
    List.append_nil]

/-- What an event about a lock does to it. -/
theorem mem_applyTo_about {id : String} {e : Event} (h : e.isAbout id = true)
    (held : List String) : id ∈ e.applyTo held ↔ e = .add id := by
  cases e with
  | add id' =>
    obtain rfl := beq_iff_eq.mp h
    simp [Event.applyTo, mem_insertId]
  | remove id' =>
    obtain rfl := beq_iff_eq.mp h
    simp [Event.applyTo]
  | tick => cases h
  | stop => cases h

theorem mem_applyTo_of_not_about {id : String} {e : Event} (h : e.isAbout id = false)
    (held : List String) : id ∈ e.applyTo held ↔ id ∈ held := by
  cases e with
  | add id' =>
    have hne : id ≠ id' := fun hid => by simp [Event.isAbout, hid] at h
    simp [Event.applyTo, mem_insertId, hne]
  | remove id' =>
    have hne : id ≠ id' := fun hid => by simp [Event.isAbout, hid] at h
    simp [Event.applyTo, hne]
  | tick => exact Iff.rfl
  | stop => exact Iff.rfl

/-- **What is held is what is in use.** -/
theorem mem_heldAfter {id : String} (events : List Event) :
    id ∈ heldAfter events ↔ IsInUse id events := by
  induction events using List.reverseRecOn with
  | nil => simp [heldAfter, IsInUse]
  | append_singleton events e ih =>
    rw [heldAfter_snoc]
    cases h : e.isAbout id with
    | true => rw [mem_applyTo_about h, isInUse_snoc_about h]
    | false => rw [mem_applyTo_of_not_about h, isInUse_snoc_of_not_about h, ih]

/-! ## What is pinged -/

/-- What is pinged in the course of some events: what is held after each of them, if anything is. -/
def pingsOf (events : List Event) : List (List String) :=
  ((List.range events.length).map fun k => heldAfter (events.take (k + 1))).filter (!·.isEmpty)

/-- The state after some pings, whatever they answered. -/
def Ping.all {σ : Type} (ping : Ping σ) (pings : List (List String)) (s : σ) : σ :=
  pings.foldl (fun s ids => (ping ids s).2) s

theorem pingsOf_snoc (events : List Event) (e : Event) :
    pingsOf (events ++ [e]) = pingsOf events ++
      if (heldAfter (events ++ [e])).isEmpty then [] else [heldAfter (events ++ [e])] := by
  have hbefore :
      (List.range events.length).map (fun k => heldAfter ((events ++ [e]).take (k + 1))) =
        (List.range events.length).map fun k => heldAfter (events.take (k + 1)) := by
    refine List.map_congr_left fun k hk => ?_
    rw [List.take_append_of_le_length (List.mem_range.mp hk)]
  have hlast : (events ++ [e]).take (events.length + 1) = events ++ [e] :=
    List.take_of_length_le (by simp)
  rw [pingsOf, List.length_append, List.length_singleton, List.range_succ, List.map_append, hbefore,
    List.filter_append, pingsOf, List.map_singleton, hlast, List.filter_singleton]
  cases (heldAfter (events ++ [e])).isEmpty <;> rfl

namespace Loop

variable {σ : Type}

theorem run_append (ping : Ping σ) (a b : List Event) (l : Loop) (s : σ) :
    run ping (a ++ b) l s = run ping b (run ping a l s).1 (run ping a l s).2 := by
  induction a generalizing l s with
  | nil => rfl
  | cons e a ih => exact ih ..

/-- A loop that has stopped does nothing. -/
theorem run_none (ping : Ping σ) (events : List Event) (s : σ) :
    run ping events none s = (none, s) := by
  induction events with
  | nil => rfl
  | cons e events ih => exact ih

/-- One event that is no stop changes what is held and pings it. -/
theorem step_some (ping : Ping σ) {e : Event} (he : e ≠ .stop) (held : List String) (s : σ) :
    step ping e (some held) s =
      (some (e.applyTo held),
        if (e.applyTo held).isEmpty then s else (ping (e.applyTo held) s).2) := by
  cases e with
  | stop => exact absurd rfl he
  | add id => rfl
  | remove id => rfl
  | tick => rfl

/-- **A loop holds what is in use and has pinged it after each event.** -/
theorem run_eq (ping : Ping σ) {events : List Event} (h : .stop ∉ events) (s : σ) :
    run ping events (some []) s = (some (heldAfter events), ping.all (pingsOf events) s) := by
  induction events using List.reverseRecOn with
  | nil => rfl
  | append_singleton events e ih =>
    have he : e ≠ .stop := fun he => h (by simp [he])
    rw [run_append, ih fun hmem => h (List.mem_append_left _ hmem), heldAfter_snoc, pingsOf_snoc,
      Ping.all, Ping.all, List.foldl_append, heldAfter_snoc]
    -- what is left is the step that the last event takes
    show step ping e _ _ = _
    rw [step_some ping he]
    split <;> rfl

/-- A stop ends a loop with what was pinged so far, whatever follows. -/
theorem run_stop (ping : Ping σ) {events : List Event} (h : .stop ∉ events) (more : List Event)
    (s : σ) : run ping (events ++ .stop :: more) (some []) s =
      (none, ping.all (pingsOf events) s) := by
  rw [run_append, run_eq ping h]
  exact run_none ping more _

end Loop

namespace KeepAlive

variable {σ : Type}

/-- Tells of some events, one after the other. -/
def tellAll (events : List Event) (k : KeepAlive) : KeepAlive :=
  events.foldl (fun k e => k.tell e) k

theorem tellAll_eq (events : List Event) (k : KeepAlive) :
    k.tellAll events = ⟨k.loop, k.queue ++ events⟩ := by
  induction events generalizing k with
  | nil => rw [List.append_nil]; rfl
  | cons e events ih =>
    rw [tellAll, List.foldl_cons, ← tellAll, ih, tell, List.append_assoc]
    rfl

/-- After a stop no loop is running, whatever was running or waiting before. -/
theorem isRunning_stop (ping : Ping σ) (k : KeepAlive) (s : σ) :
    (k.stop ping s).1.isRunning = false := by
  rw [stop]
  split
  · next hrunning =>
    obtain ⟨held, hloop⟩ := Option.isSome_iff_exists.mp hrunning
    have hended : ∀ (events : List Event) (l : Loop) (s : σ),
        (Loop.run ping (events ++ [.stop]) l s).1 = none := by
      intro events l s
      rw [Loop.run_append]
      cases (Loop.run ping events l s).1 <;> rfl
    have htold : (k.tell .stop).isRunning = true := hrunning
    rw [settle, if_pos htold]
    exact congrArg Option.isSome (hended k.queue k.loop s)
  · next hidle => exact Bool.eq_false_iff.mpr hidle

/-- Starting a loop where none is running begins with nothing held and nothing told. -/
theorem start_of_not_running {k : KeepAlive} (h : k.isRunning = false) :
    k.start = ⟨some [], []⟩ := by
  rw [start, h]
  rfl

/-- Where no loop is running, nothing is pinged. -/
theorem settle_of_not_running (ping : Ping σ) {k : KeepAlive} (h : k.isRunning = false) (s : σ) :
    k.settle ping s = (k, s) := by
  rw [settle, h]
  rfl

end KeepAlive

/-- **A loop pings exactly the locks in use.**  After the first `k` events it holds the locks whose
last event says that they were taken, in strict order, so the `k`-th event is followed by a ping of
all of them, or by none if there are none.  What pings answer changes nothing.  A stop pings
nothing, and whatever is told after it pings nothing either.  A loop that is started after a stop
begins with nothing, whatever was held or told before: it pings as if it were the first. -/
theorem pings_exactly_held {events : List Event} (h : .stop ∉ events) :
    (∀ k, (heldAfter (events.take k)).Pairwise (· < ·) ∧
      ∀ id, id ∈ heldAfter (events.take k) ↔ IsInUse id (events.take k)) ∧
    ∀ {σ : Type} (ping : Ping σ) (s : σ),
      Loop.run ping events (some []) s =
        (some (heldAfter events), ping.all (pingsOf events) s) ∧
      (∀ answering : Ping σ, (∀ ids s, (answering ids s).2 = (ping ids s).2) →
        Loop.run answering events (some []) s = Loop.run ping events (some []) s) ∧
      (∀ more, Loop.run ping (events ++ .stop :: more) (some []) s =
        (none, ping.all (pingsOf events) s)) ∧
      ∀ (k : KeepAlive) (told : List Event) (s' : σ),
        let stopped := (k.stop ping s).1.tellAll told
        (stopped.settle ping s').2 = s' ∧
        (stopped.start.tellAll events).settle ping s' =
          (⟨some (heldAfter events), []⟩, ping.all (pingsOf events) s') := by
  refine ⟨fun k => ⟨pairwise_heldAfter _, fun id => mem_heldAfter _⟩, fun {σ} ping s => ?_⟩
  refine ⟨Loop.run_eq ping h s, fun answering hsame => ?_, fun more => Loop.run_stop ping h more s,
    fun k told s' => ?_⟩
  · have hstep : (fun s ids => (answering ids s).2) = fun s ids => (ping ids s).2 := by
      funext s ids
      exact hsame ids s
    rw [Loop.run_eq answering h, Loop.run_eq ping h, Ping.all, Ping.all, hstep]
  · have hidle : ((k.stop ping s).1.tellAll told).isRunning = false := by
      rw [KeepAlive.tellAll_eq]
      exact k.isRunning_stop ping s
    refine ⟨by rw [KeepAlive.settle_of_not_running ping hidle], ?_⟩
    rw [KeepAlive.start_of_not_running hidle, KeepAlive.tellAll_eq, KeepAlive.settle]
    show (_, _) = _
    rw [List.nil_append, Loop.run_eq ping h]

/-- A ping that writes down what it was given and fails the second time. -/
def flakyPing : Ping (List (List String)) := fun ids pinged =>
  (if pinged.length = 1 then .error (.badValue "busy") else .ok (), pinged ++ [ids])

/-- Two locks are taken, the later one with the smaller identifier, and one is released. -/
def takenAndReleased : List Event :=
  [.tick, .add "b", .add "a", .tick, .add "a", .remove "b", .remove "a", .remove "c"]

/-- The first and the last event are followed by no ping, and all others by one, also the one behind
the ping that fails.  A loop that is started after another one was stopped does just the same. -/
theorem pings_exactly_held_flaky :
    .stop ∉ takenAndReleased ∧ IsInUse "a" (takenAndReleased.take 6) ∧
      "a" ∈ heldAfter (takenAndReleased.take 6) ∧
      Loop.run flakyPing takenAndReleased (some []) [] =
        (some [], [["b"], ["a", "b"], ["a", "b"], ["a", "b"], ["a"]]) ∧
      ((((KeepAlive.stop flakyPing ⟨some ["x"], [.add "y"]⟩ []).1.tellAll [.add "z"]).start.tellAll
        takenAndReleased).settle flakyPing []).2 =
        [["b"], ["a", "b"], ["a", "b"], ["a", "b"], ["a"]] := by
  have hstop : .stop ∉ takenAndReleased := by decide
  obtain ⟨hheld, hrun⟩ := pings_exactly_held hstop
  obtain ⟨heq, _, _, hagain⟩ := hrun flakyPing []
  have hinUse : IsInUse "a" (takenAndReleased.take 6) := by
    unfold IsInUse
    decide
  refine ⟨hstop, hinUse, ((hheld 6).2 "a").mpr hinUse, ?_, ?_⟩
  · rw [heq]
    decide
  · rw [(hagain ⟨some ["x"], [.add "y"]⟩ [.add "z"] []).2]
    decide

end AccessRules.Lock
