import AccessRules.Pass.Basic

/-!
# Engines that take turns

**Program** — several engines deal with rules (`applyRule`), each in an order of its own, and their
turns come in any order.  In a pass they come one engine after the other (`applyEngines`).

**Spec** — the order of turns of different engines does not matter to engines that do not see one
another: each has the results it has if it works alone, and sees the same afterwards
(`applySchedule_alone`).  A pass is one of these orders (`applyEngines_eq_applySchedule`).

**Crux** — what an engine sees decides what comes of its turn and what it sees then, and a turn of
another engine changes nothing that it sees (`IsSight`).  The induction is on the turns, with a
world in which the engine works alone beside the one in which they all do.
-/

namespace AccessRules.Pass

variable {σ ι : Type}

/-! ## Schedules -/

/-- Engines deal with rules, turn by turn. -/
def applySchedule (mode : Mode) (engines : ι → Engine σ) :
    List (ι × Rule) → World σ → List (ι × RuleResult) × World σ
  | [], w => ([], w)
  | (i, rule) :: turns, w =>
    let (result, w) := applyRule mode (engines i) rule w
    let (results, w) := applySchedule mode engines turns w
    ((i, result) :: results, w)

variable {mode : Mode} {engines : ι → Engine σ}

theorem applySchedule_cons (i : ι) (rule : Rule) (turns : List (ι × Rule)) (w : World σ) :
    applySchedule mode engines ((i, rule) :: turns) w =
      ((i, (applyRule mode (engines i) rule w).1) ::
          (applySchedule mode engines turns (applyRule mode (engines i) rule w).2).1,
        (applySchedule mode engines turns (applyRule mode (engines i) rule w).2).2) := rfl

theorem applyRules_cons (e : Engine σ) (rule : Rule) (rules : List Rule) (w : World σ) :
    applyRules mode e (rule :: rules) w =
      ((applyRule mode e rule w).1 :: (applyRules mode e rules (applyRule mode e rule w).2).1,
        (applyRules mode e rules (applyRule mode e rule w).2).2) := rfl

/-- Every turn has its result. -/
theorem owners_applySchedule (turns : List (ι × Rule)) (w : World σ) :
    (applySchedule mode engines turns w).1.map Prod.fst = turns.map Prod.fst := by
  induction turns generalizing w with
  | nil => rfl
  | cons turn turns ih => exact congrArg (turn.1 :: ·) (ih _)

theorem applySchedule_append (turns later : List (ι × Rule)) (w : World σ) :
    applySchedule mode engines (turns ++ later) w =
      ((applySchedule mode engines turns w).1 ++
          (applySchedule mode engines later (applySchedule mode engines turns w).2).1,
        (applySchedule mode engines later (applySchedule mode engines turns w).2).2) := by
  induction turns generalizing w with
  | nil => rfl
  | cons turn turns ih =>
    obtain ⟨i, rule⟩ := turn
    rw [List.cons_append, applySchedule_cons, ih, applySchedule_cons, List.cons_append]

/-- What every turn preserves holds after all of them. -/
theorem applySchedule_keeps {P : World σ → Prop}
    (hP : ∀ i rule w, P w → P (applyRule mode (engines i) rule w).2) (turns : List (ι × Rule))
    {w : World σ} (h : P w) : P (applySchedule mode engines turns w).2 := by
  induction turns generalizing w with
  | nil => exact h
  | cons turn turns ih => exact ih (hP turn.1 turn.2 w h)

/-- The schedule in which engines deal with the same rules, one engine after the other. -/
def inOrder (rules : List Rule) (order : List ι) : List (ι × Rule) :=
  order.flatMap fun i => rules.map (i, ·)

theorem inOrder_cons (rules : List Rule) (i : ι) (order : List ι) :
    inOrder rules (i :: order) = rules.map (i, ·) ++ inOrder rules order := List.flatMap_cons

theorem notMem_inOrder {rules : List Rule} {order : List ι} {i : ι} (hi : i ∉ order) :
    i ∉ (inOrder rules order).map Prod.fst := by
  intro hmem
  obtain ⟨turn, hturn, rfl⟩ := List.mem_map.mp hmem
  obtain ⟨j, hj, hrule⟩ := List.mem_flatMap.mp hturn
  obtain ⟨rule, -, rfl⟩ := List.mem_map.mp hrule
  exact hi hj

/-! ## Parts of schedules -/

section Parts

variable [DecidableEq ι] {α : Type} {i j : ι}

/-- What belongs to one of several, in a list of what belongs to any of them. -/
def partOf (i : ι) (l : List (ι × α)) : List α :=
  l.filterMap fun (j, a) => if j = i then some a else none

theorem partOf_cons_self (i : ι) (a : α) (l : List (ι × α)) :
    partOf i ((i, a) :: l) = a :: partOf i l := by
  simp [partOf]

theorem partOf_cons_of_ne (h : j ≠ i) (a : α) (l : List (ι × α)) :
    partOf i ((j, a) :: l) = partOf i l := by
  simp [partOf, h]

theorem partOf_append (i : ι) (l l' : List (ι × α)) :
    partOf i (l ++ l') = partOf i l ++ partOf i l' := List.filterMap_append

theorem partOf_map_self (i : ι) (l : List α) : partOf i (l.map (i, ·)) = l := by
  induction l with
  | nil => rfl
  | cons a l ih => rw [List.map_cons, partOf_cons_self, ih]

theorem partOf_map_of_ne (h : j ≠ i) (l : List α) : partOf i (l.map (j, ·)) = [] := by
  induction l with
  | nil => rfl
  | cons a l ih => rw [List.map_cons, partOf_cons_of_ne h, ih]

theorem partOf_of_notMem {l : List (ι × α)} (h : i ∉ l.map Prod.fst) : partOf i l = [] := by
  refine List.filterMap_eq_nil_iff.mpr fun entry hentry => if_neg fun heq => h ?_
  exact heq ▸ List.mem_map_of_mem hentry

/-- Where engines come one after the other, each goes through the rules once. -/
theorem partOf_inOrder (rules : List Rule) {order : List ι} (horder : order.Nodup) {i : ι}
    (hi : i ∈ order) : partOf i (inOrder rules order) = rules := by
  induction order with
  | nil => cases hi
  | cons j order ih =>
    obtain ⟨hj, horder⟩ := List.nodup_cons.mp horder
    rw [inOrder_cons, partOf_append]
    by_cases heq : j = i
    · subst heq
      rw [partOf_map_self, partOf_of_notMem (notMem_inOrder hj), List.append_nil]
    · have hlater : i ∈ order := (List.mem_cons.mp hi).resolve_left (Ne.symm heq)
      rw [partOf_map_of_ne heq, List.nil_append, ih horder hlater]

end Parts

/-! ## Engines that do not see one another -/

/-- In fit worlds, what each of some engines sees decides what comes of its turns and what it sees
after them, and it sees nothing of the turns of others. -/
structure IsSight {β : Type} (mode : Mode) (engines : ι → Engine σ) (Fit : World σ → Prop)
    (sight : ι → World σ → β) : Prop where
  fit : ∀ i rule w, Fit w → Fit (applyRule mode (engines i) rule w).2
  own : ∀ i rule w w', Fit w → Fit w' → sight i w = sight i w' →
    (applyRule mode (engines i) rule w).1 = (applyRule mode (engines i) rule w').1 ∧
      sight i (applyRule mode (engines i) rule w).2 =
        sight i (applyRule mode (engines i) rule w').2
  other : ∀ i j rule w, i ≠ j → Fit w →
    sight i (applyRule mode (engines j) rule w).2 = sight i w

/-- **The turns of others make no difference**: from any schedule an engine has the results that it
has alone, in a world that looks the same to it. -/
theorem IsSight.applySchedule_alone [DecidableEq ι] {β : Type} {Fit : World σ → Prop}
    {sight : ι → World σ → β} (h : IsSight mode engines Fit sight) (i : ι)
    (turns : List (ι × Rule)) {w w' : World σ} (hw : Fit w) (hw' : Fit w')
    (hsame : sight i w = sight i w') :
    partOf i (applySchedule mode engines turns w).1 =
        (applyRules mode (engines i) (partOf i turns) w').1 ∧
      sight i (applySchedule mode engines turns w).2 =
        sight i (applyRules mode (engines i) (partOf i turns) w').2 := by
  induction turns generalizing w w' with
  | nil => exact ⟨rfl, hsame⟩
  | cons turn turns ih =>
    obtain ⟨j, rule⟩ := turn
    have hfit := h.fit j rule w hw
    rw [applySchedule_cons]
    by_cases hj : j = i
    · -- its own turn comes in both worlds
      subst hj
      obtain ⟨hresult, hafter⟩ := h.own j rule w w' hw hw' hsame
      obtain ⟨hresults, hlast⟩ := ih hfit (h.fit j rule w' hw') hafter
      rw [partOf_cons_self, partOf_cons_self, applyRules_cons, hresult, hresults]
      exact ⟨rfl, hlast⟩
    · -- a turn of another comes in the first world only
      have hunseen := (h.other i j rule w (Ne.symm hj) hw).trans hsame
      rw [partOf_cons_of_ne hj, partOf_cons_of_ne hj]
      exact ih hfit hw' hunseen

/-! ## Passes -/

/-- The turns of one engine only are those it has alone. -/
theorem applySchedule_map (i : ι) (rules : List Rule) (w : World σ) :
    applySchedule mode engines (rules.map (i, ·)) w =
      ((applyRules mode (engines i) rules w).1.map (i, ·),
        (applyRules mode (engines i) rules w).2) := by
  induction rules generalizing w with
  | nil => rfl
  | cons rule rules ih => rw [List.map_cons, applySchedule_cons, ih, applyRules_cons, List.map_cons]

/-- An engine that does nothing before and after its turns. -/
structure IsIdle (e : Engine σ) : Prop where
  begin : ∀ s, (e.begin s).2 = s
  finish : ∀ s, (e.finish s).2 = s

theorem IsIdle.applyEngine {e : Engine σ} (h : IsIdle e) (rules : List Rule) (w : World σ) :
    applyEngine mode rules e w =
      (⟨e.name, (applyRules mode e rules w).1⟩, (applyRules mode e rules w).2) := by
  rw [Pass.applyEngine]
  simp only [h.begin, h.finish]

/-- **A pass is a schedule** of engines that do nothing before and after their turns. -/
theorem applyEngines_eq_applySchedule [DecidableEq ι] (hidle : ∀ i, IsIdle (engines i))
    (rules : List Rule) {order : List ι} (horder : order.Nodup) (w : World σ) :
    applyEngines mode rules (order.map engines) w =
      (order.map fun i => ⟨(engines i).name,
          partOf i (applySchedule mode engines (inOrder rules order) w).1⟩,
        (applySchedule mode engines (inOrder rules order) w).2) := by
  induction order generalizing w with
  | nil => rfl
  | cons i order ih =>
    obtain ⟨hi, horder⟩ := List.nodup_cons.mp horder
    have hnone : ∀ w, partOf i (applySchedule mode engines (inOrder rules order) w).1 = [] := by
      intro w
      apply partOf_of_notMem
      rw [owners_applySchedule]
      exact notMem_inOrder hi
    rw [List.map_cons, applyEngines, (hidle i).applyEngine]
    simp only [ih horder, inOrder_cons, applySchedule_append, applySchedule_map, List.map_cons,
      partOf_append, partOf_map_self, hnone, List.append_nil]
    congr 2
    refine List.map_congr_left fun j hj => ?_
    have hne : i ≠ j := fun heq => hi (heq ▸ hj)
    rw [partOf_map_of_ne hne, List.nil_append]

end AccessRules.Pass
