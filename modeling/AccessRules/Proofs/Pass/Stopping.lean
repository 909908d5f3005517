import AccessRules.Pass.Periodic

/-!
# Passes after a request to stop

**Program** — the periodic loop (`Loop.step`), which is entered, asked to stop, and takes its steps,
in any order (`Loop.afterAll`).

**Spec** — how many passes begin after a request to stop (`Loop.passesBegun`): none while a pass is
running or the loop is waiting, but one more if it is looking for rules or is entered only then, and
finds them (`passes_after_request`).  A pass that is running is completed, and the loop returns.

**Crux** — the request is looked at in one place only, behind the pass.  What can happen to a loop
that was asked to stop is listed once (`Move`): only a loop that is looking for rules begins a pass,
only entering makes it look for rules, and every other step brings it nearer to its return.
-/

namespace AccessRules.Pass.Periodic

/-- What happens around a loop: someone enters it, someone asks it to stop, or it takes its next
step. -/
inductive Event where
  | enter
  | ask
  | proceed
  deriving DecidableEq, Repr

variable {α σ : Type}

/-- How many steps are left at most until a loop that was asked to stop has returned. -/
def Phase.stepsLeft : Phase α → Nat
  | .outside => 0
  | .looking => 3
  | .passing _ => 2
  | .waiting => 1

theorem Phase.stepsLeft_eq_zero {p : Phase α} : p.stepsLeft = 0 ↔ p = .outside := by
  cases p <;> simp [stepsLeft]

theorem Phase.stepsLeft_le (p : Phase α) : p.stepsLeft ≤ 3 := by
  cases p <;> simp [stepsLeft]

namespace Loop

/-- Whether the loop looks for rules next. -/
def isLooking (l : Loop α) : Bool := l.phase matches .looking

/-- Whether a pass is running. -/
def isPassing (l : Loop α) : Bool := l.phase matches .passing _

/-- The loop and what it works on after an event.  A loop that is running cannot be entered. -/
def after (service : Service α σ) (e : Event) (x : Loop α × σ) : Loop α × σ :=
  match e with
  | .enter => (if x.1.phase matches .outside then x.1.enter else x.1, x.2)
  | .ask => (x.1.requestStop, x.2)
  | .proceed => x.1.step service x.2

/-- The loop and what it works on after some events. -/
def afterAll (service : Service α σ) (events : List Event) (x : Loop α × σ) : Loop α × σ :=
  events.foldl (fun x e => after service e x) x

/-- Whether a pass begins with an event. -/
def beginsPass (service : Service α σ) (e : Event) (x : Loop α × σ) : Bool :=
  !x.1.isPassing && (after service e x).1.isPassing

/-- How many passes begin in the course of some events. -/
def passesBegun (service : Service α σ) : List Event → Loop α × σ → Nat
  | [], _ => 0
  | e :: events, x =>
    (beginsPass service e x).toNat + passesBegun service events (after service e x)

/-- While it looks for rules a loop may be asked to stop, and nothing else happens to it. -/
def Service.IsHonest (service : Service α σ) : Prop :=
  ∀ l s, (service.find l s).2.1 = l ∨ (service.find l s).2.1 = l.requestStop

/-- **No pass begins after a request to stop**, whenever it is made of an enabled loop. -/
def NoPassAfterRequest (service : Service α σ) : Prop :=
  ∀ (before later : List Event) (s : σ),
    let x := afterAll service before (idle false, s)
    passesBegun service later (after service .ask x) = 0

/-- A service that always finds the same rules; what it works on counts the passes. -/
def steady : Service String Nat where
  find l s := (.ok ["r1"], l, s)
  pass _ s := (.ok (), s + 1)

theorem isHonest_steady : steady.IsHonest := fun _ _ => .inl rfl

/-! ## One event after the request -/

/-- A second request changes nothing. -/
theorem requestStop_of_asked {l : Loop α} (h : l.stopRequested = true) : l.requestStop = l := by
  rw [requestStop, ← h]

/-- A request outlives an entrance. -/
theorem enter_stopRequested (l : Loop α) : l.enter.stopRequested = l.stopRequested := by
  rw [enter]
  split <;> rfl

/-- Entering a loop that may run makes it look for rules. -/
theorem enter_isLooking {l : Loop α} (h : l.disabled = false) : l.enter.isLooking = true := by
  simp [enter, h, isLooking]

/-- All that can happen to a loop that was asked to stop.  It `stays` as it is when it is asked again,
when it is entered although it is running, and when a step is taken although it is not. -/
inductive Move (service : Service α σ) (l : Loop α) (s : σ) : Event → Loop α × σ → Prop
  | entered (houtside : l.phase = .outside) : Move service l s .enter (l.enter, s)
  | stays (e : Event) (henter : e = .enter → l.phase ≠ .outside)
      (hproceed : e = .proceed → l.phase = .outside) : Move service l s e (l, s)
  | found (rules : List α) (s' : σ) (hlooking : l.phase = .looking)
      (hfind : (service.find l s).1 = .ok rules) :
      Move service l s .proceed ({ l with phase := .passing rules }, s')
  | missed (f : Failure) (s' : σ) (hlooking : l.phase = .looking)
      (hfind : (service.find l s).1 = .error f) :
      Move service l s .proceed ({ l with phase := .waiting }, s')
  | passed (rules : List α) (hpassing : l.phase = .passing rules) :
      Move service l s .proceed ({ l with phase := .waiting }, (service.pass rules s).2)
  | returns (hwaiting : l.phase = .waiting) :
      Move service l s .proceed ({ l with phase := .outside, returned := true }, s)

theorem move_after {service : Service α σ} (hs : service.IsHonest) {l : Loop α}
    (h : l.stopRequested = true) (s : σ) (e : Event) :
    Move service l s e (after service e (l, s)) := by
  cases e with
  | enter =>
    rw [after]
    split
    · next houtside => exact .entered (by simpa using houtside)
    · next hrunning => exact .stays .enter (fun _ => by simpa using hrunning) fun he => by cases he
  | ask =>
    rw [after, requestStop_of_asked h]
    exact .stays .ask (fun he => by cases he) fun he => by cases he
  | proceed =>
    rw [after, step]
    -- one case for each place the loop can be at
    cases hphase : l.phase with
    | outside => exact .stays .proceed (fun he => by cases he) fun _ => hphase
    | looking =>
      -- a request that is made during the look-up is not the first one
      have hkept : (service.find l s).2.1 = l := by
        rcases hs l s with heq | heq
        · exact heq
        · rw [heq, requestStop_of_asked h]
      rcases hfind : service.find l s with ⟨answer, l', s'⟩
      rw [hfind] at hkept
      obtain rfl : l' = l := hkept
      cases answer with
      | ok rules => exact .found rules s' hphase (by rw [hfind])
      | error f => exact .missed f s' hphase (by rw [hfind])
    | passing rules => exact .passed rules hphase
    | waiting =>
      rw [if_pos h]
      exact .returns hphase

section Move

variable {service : Service α σ} {l : Loop α} {s : σ} {e : Event} {x : Loop α × σ}

/-- A request is kept for good. -/
theorem Move.asked (hm : Move service l s e x) (h : l.stopRequested = true) :
    x.1.stopRequested = true := by
  cases hm with
  | entered _ => exact (enter_stopRequested l).trans h
  | _ => exact h

/-- A pass begins exactly if rules are found. -/
theorem Move.begins (hm : Move service l s e x) :
    (!l.isPassing && x.1.isPassing) =
      (l.isLooking && e == .proceed && (service.find l s).1.isOk) := by
  cases hm with
  | entered houtside =>
    rw [enter]
    split <;> simp [isPassing, isLooking, houtside]
  | stays e henter hproceed =>
    cases e with
    | proceed => simp [isPassing, isLooking, hproceed rfl]
    | _ => simp [isPassing]
  | found rules s' hlooking hfind =>
    simp [isPassing, isLooking, hlooking, hfind, Except.isOk, Except.toBool]
  | missed f s' hlooking hfind =>
    simp [isPassing, isLooking, hfind, Except.isOk, Except.toBool]
  | passed rules hpassing => simp [isPassing, isLooking, hpassing]
  | returns hwaiting => simp [isPassing, isLooking, hwaiting]

/-- Looking for rules takes one step, and a loop that does not look for them does not begin to. -/
theorem Move.not_looking (hm : Move service l s e x) (he : e ≠ .enter)
    (h : l.isLooking = false ∨ e = .proceed) : x.1.isLooking = false := by
  cases hm with
  | entered _ => exact absurd rfl he
  | stays e henter hproceed =>
    rcases h with h | rfl
    · exact h
    · simp [isLooking, hproceed rfl]
  | _ => rfl

/-- Passes are begun by loops that are looking, and those were entered. -/
theorem Move.begins_le (hm : Move service l s e x) :
    (!l.isPassing && x.1.isPassing).toNat + x.1.isLooking.toNat ≤
      l.isLooking.toNat + if e = .enter then 1 else 0 := by
  cases hm with
  | entered houtside =>
    rw [enter]
    split <;> simp [isPassing, isLooking]
  | stays e henter hproceed => simp
  | found rules s' hlooking hfind => simp [isPassing, isLooking, hlooking]
  | missed f s' hlooking hfind => simp [isPassing, isLooking]
  | passed rules hpassing => simp [isPassing, isLooking]
  | returns hwaiting => simp [isPassing, isLooking]

/-- Only looking for rules and a pass work on anything. -/
theorem Move.rests (hm : Move service l s e x) (hlooking : l.isLooking = false)
    (hpassing : l.isPassing = false) : x.2 = s := by
  cases hm with
  | found rules s' h _ => simp [isLooking, h] at hlooking
  | missed f s' h _ => simp [isLooking, h] at hlooking
  | passed rules h => simp [isPassing, h] at hpassing
  | _ => rfl

/-- Each step brings the loop nearer to its return. -/
theorem Move.stepsLeft (hm : Move service l s e x) (he : e ≠ .enter) :
    x.1.phase.stepsLeft ≤ l.phase.stepsLeft - if e = .proceed then 1 else 0 := by
  cases hm with
  | entered _ => exact absurd rfl he
  | stays e henter hproceed =>
    cases e with
    | enter => exact absurd rfl he
    | ask => exact Nat.le_refl _
    | proceed =>
      rw [hproceed rfl]
      exact Nat.zero_le _
  | found rules s' hlooking _ => simp [hlooking, Phase.stepsLeft]
  | missed f s' hlooking _ => simp [hlooking, Phase.stepsLeft]
  | passed rules hpassing => simp [hpassing, Phase.stepsLeft]
  | returns hwaiting => simp [hwaiting, Phase.stepsLeft]

/-- A loop that returns says so. -/
theorem Move.tells (hm : Move service l s e x) (he : e ≠ .enter)
    (h : l.phase = .outside → l.returned = true) : x.1.phase = .outside → x.1.returned = true := by
  cases hm with
  | entered _ => exact absurd rfl he
  | stays e _ _ => exact h
  | returns _ => exact fun _ => rfl
  | _ => intro houtside; cases houtside

end Move

/-! ## All events after the request -/

section Requested

variable {service : Service α σ} {l : Loop α}

/-- **A loop that is not looking for rules begins no pass** until it is entered. -/
theorem passesBegun_of_not_looking (hs : service.IsHonest) (h : l.stopRequested = true)
    (hlooking : l.isLooking = false) {later : List Event} (hlater : .enter ∉ later) (s : σ) :
    passesBegun service later (l, s) = 0 := by
  induction later generalizing l s with
  | nil => rfl
  | cons e later ih =>
    have he : e ≠ .enter := (List.ne_of_not_mem_cons hlater).symm
    have hmove := move_after hs h s e
    have hrest := ih (hmove.asked h) (hmove.not_looking he (.inl hlooking))
      (List.not_mem_of_not_mem_cons hlater) (after service e (l, s)).2
    rw [passesBegun, beginsPass, hmove.begins, hlooking]
    exact (Nat.zero_add _).trans hrest

/-- **A loop that is looking for rules begins one more pass** if it finds them. -/
theorem passesBegun_of_looking (hs : service.IsHonest) (h : l.stopRequested = true)
    (hlooking : l.isLooking = true) {later : List Event} (hlater : .enter ∉ later) (s : σ) :
    passesBegun service later (l, s) =
      if .proceed ∈ later ∧ (service.find l s).1.isOk = true then 1 else 0 := by
  induction later with
  | nil => rfl
  | cons e later ih =>
    have hrest : .enter ∉ later := List.not_mem_of_not_mem_cons hlater
    have hmove := move_after hs h s e
    rw [passesBegun, beginsPass, hmove.begins, hlooking]
    cases e with
    | enter => exact absurd List.mem_cons_self hlater
    | ask =>
      -- the loop and its look-up are still the same
      rw [after, requestStop_of_asked h, ih hrest]
      simp
    | proceed =>
      -- what follows the step is no longer looking
      have hnext := hmove.not_looking (fun he => by cases he) (.inr rfl)
      rw [passesBegun_of_not_looking hs (hmove.asked h) hnext hrest]
      cases (service.find l s).1.isOk <;> simp

/-- After a request each entrance begins one pass at most. -/
theorem passesBegun_le (hs : service.IsHonest) (h : l.stopRequested = true) (later : List Event)
    (s : σ) :
    passesBegun service later (l, s) ≤ l.isLooking.toNat + later.count .enter := by
  induction later generalizing l s with
  | nil => exact Nat.zero_le _
  | cons e later ih =>
    have hmove := move_after hs h s e
    have hhead := hmove.begins_le
    have hrest : passesBegun service later (after service e (l, s)) ≤ _ := ih (hmove.asked h) _
    rw [passesBegun, beginsPass, List.count_cons]
    simp only [beq_iff_eq]
    omega

/-- Nothing is worked on any more once the last pass is over. -/
theorem afterAll_of_resting (hs : service.IsHonest) (h : l.stopRequested = true)
    (hlooking : l.isLooking = false) (hpassing : l.isPassing = false) {later : List Event}
    (hlater : .enter ∉ later) (s : σ) : (afterAll service later (l, s)).2 = s := by
  induction later generalizing l s with
  | nil => rfl
  | cons e later ih =>
    have he : e ≠ .enter := (List.ne_of_not_mem_cons hlater).symm
    have hmove := move_after hs h s e
    have hnext : (after service e (l, s)).1.isPassing = false := by
      simpa [hlooking, hpassing] using hmove.begins
    have hrest := ih (hmove.asked h) (hmove.not_looking he (.inl hlooking)) hnext
      (List.not_mem_of_not_mem_cons hlater) (after service e (l, s)).2
    exact hrest.trans (hmove.rests hlooking hpassing)

/-- **A pass that is running is completed**, and it is the last thing that is done. -/
theorem afterAll_of_passing (hs : service.IsHonest) (h : l.stopRequested = true) {rules : List α}
    (hpassing : l.phase = .passing rules) {later : List Event} (hlater : .enter ∉ later)
    (hproceed : .proceed ∈ later) (s : σ) :
    (afterAll service later (l, s)).2 = (service.pass rules s).2 := by
  induction later with
  | nil => cases hproceed
  | cons e later ih =>
    have hrest : .enter ∉ later := List.not_mem_of_not_mem_cons hlater
    cases e with
    | enter => exact absurd List.mem_cons_self hlater
    | ask =>
      rw [afterAll, List.foldl_cons, after, requestStop_of_asked h]
      exact ih hrest (List.mem_of_ne_of_mem (fun he => by cases he) hproceed)
    | proceed =>
      rw [afterAll, List.foldl_cons, after, step, hpassing]
      exact afterAll_of_resting (l := { l with phase := .waiting }) hs h rfl rfl hrest _

/-- **The loop returns after three steps at most**, and says so. -/
theorem afterAll_returns (hs : service.IsHonest) (h : l.stopRequested = true)
    (hsaid : l.phase = .outside → l.returned = true) {later : List Event}
    (hlater : .enter ∉ later) (hsteps : l.phase.stepsLeft ≤ later.count .proceed) (s : σ) :
    (afterAll service later (l, s)).1.phase = .outside ∧
      (afterAll service later (l, s)).1.returned = true := by
  induction later generalizing l s with
  | nil =>
    have houtside := Phase.stepsLeft_eq_zero.mp (Nat.le_zero.mp hsteps)
    exact ⟨houtside, hsaid houtside⟩
  | cons e later ih =>
    have he : e ≠ .enter := (List.ne_of_not_mem_cons hlater).symm
    have hmove := move_after hs h s e
    have hleft := hmove.stepsLeft he
    refine ih (hmove.asked h) (hmove.tells he hsaid) (List.not_mem_of_not_mem_cons hlater) ?_
      (after service e (l, s)).2
    rw [List.count_cons] at hsteps
    simp only [beq_iff_eq] at hsteps
    omega

end Requested

/-- **A request to stop lets one more pass begin, or none.**  However the loop came to where it is
when it is asked: the request is not looked at before a pass, so a loop that is looking for rules
begins a pass if it finds them, and so does a loop that is only entered then; a loop that is
elsewhere begins none until it is entered again.  A pass that is running is completed and is the
last thing that is done, and after three steps at most the loop has returned and says so. -/
theorem passes_after_request {service : Service α σ} (hs : service.IsHonest) (timeout : Scalar)
    (l : Loop α) (s : σ) :
    let asked := (l.shutdown timeout).2
    (∀ later, .enter ∉ later →
      passesBegun service later (asked, s) =
        if l.isLooking = true ∧ .proceed ∈ later ∧ (service.find asked s).1.isOk = true
        then 1 else 0) ∧
    (l.disabled = false → l.phase = .outside → ∀ later, .enter ∉ later →
      passesBegun service (.enter :: later) (asked, s) =
        if .proceed ∈ later ∧ (service.find asked.enter s).1.isOk = true then 1 else 0) ∧
    (∀ later, passesBegun service later (asked, s) ≤ l.isLooking.toNat + later.count .enter) ∧
    (∀ rules later, l.phase = .passing rules → .enter ∉ later → .proceed ∈ later →
      (afterAll service later (asked, s)).2 = (service.pass rules s).2) ∧
    (∀ later, (l.phase = .outside → l.returned = true) → .enter ∉ later →
      3 ≤ later.count .proceed →
        (afterAll service later (asked, s)).1.phase = .outside ∧
        ((afterAll service later (asked, s)).1.shutdown timeout).1 = .ok ()) := by
  intro asked
  have hasked : asked.stopRequested = true := rfl
  refine ⟨fun later hlater => ?_, fun henabled houtside later hlater => ?_,
    fun later => passesBegun_le hs hasked later s,
    fun rules later hpassing hlater hproceed =>
      afterAll_of_passing hs hasked hpassing hlater hproceed s,
    fun later hsaid hlater hsteps => ?_⟩
  · cases hlooking : l.isLooking with
    | true =>
      rw [passesBegun_of_looking hs hasked hlooking hlater]
      simp
    | false =>
      rw [passesBegun_of_not_looking hs hasked hlooking hlater]
      simp
  · -- the entrance begins no pass, but what follows it is the case of a loop that is looking
    have hentered : after service .enter (asked, s) = (asked.enter, s) := by
      simp [after, asked, shutdown, requestStop, houtside]
    have hlooking : asked.enter.isLooking = true := enter_isLooking henabled
    have hkept : asked.enter.stopRequested = true := (enter_stopRequested asked).trans hasked
    rw [passesBegun, beginsPass, (move_after hs hasked s .enter).begins, hentered,
      passesBegun_of_looking hs hkept hlooking hlater]
    simp
  · obtain ⟨houtside, hreturned⟩ := afterAll_returns hs hasked hsaid hlater
      (Nat.le_trans (Phase.stepsLeft_le _) hsteps) s
    exact ⟨houtside, by rw [shutdown, if_pos hreturned]⟩

/-- One more pass of a loop that is looking for rules, none of one that waits. -/
theorem passes_after_request_steady :
    steady.IsHonest ∧
      passesBegun steady [.proceed, .ask, .proceed, .proceed]
        (((⟨false, false, false, .looking⟩ : Loop String).shutdown (.int 5)).2, 7) = 1 ∧
      passesBegun steady [.proceed, .ask]
        (((⟨false, false, false, .waiting⟩ : Loop String).shutdown (.int 5)).2, 7) = 0 ∧
      (afterAll steady [.ask, .proceed, .proceed]
        (((⟨false, false, false, .passing ["r2"]⟩ : Loop String).shutdown (.int 5)).2, 7)).2 = 8 :=
  ⟨isHonest_steady,
    (passes_after_request isHonest_steady (.int 5) ⟨false, false, false, .looking⟩ 7).1 _
      (by decide),
    (passes_after_request isHonest_steady (.int 5) ⟨false, false, false, .waiting⟩ 7).1 _
      (by decide),
    (passes_after_request isHonest_steady (.int 5)
      ⟨false, false, false, .passing ["r2"]⟩ 7).2.2.2.1 ["r2"] _ rfl (by decide) (by decide)⟩

/-- A pass begins after a request to stop: one made before the loop is entered, one made while it
looks for rules, and one that was answered by a loop that is entered again. -/
theorem pass_begins_after_request :
    passesBegun steady [.enter, .proceed] ((idle false).requestStop, 0) = 1 ∧
      passesBegun steady [.proceed] ((idle false).enter.requestStop, 0) = 1 ∧
      (let x := afterAll steady [.enter, .ask, .proceed, .proceed, .proceed] (idle false, 0)
       passesBegun steady [.enter, .proceed] x = 1 ∧ (x.1.shutdown (.int 5)).1 = .ok ()) ∧
      ¬ NoPassAfterRequest steady := by
  refine ⟨by decide, by decide, ⟨by decide, rfl⟩, fun h => ?_⟩
  have hnone : passesBegun steady [.enter, .proceed] ((idle false).requestStop, 0) = 0 :=
    h [] [.enter, .proceed] 0
  exact absurd hnone (by decide)

end Loop

end AccessRules.Pass.Periodic
