import Mathlib.Data.List.Forall2

/-!
# Steps that may fail

What is known of the parts of a step that succeeded: of the two halves of a sequence
(`ok_of_bind`, `ok_of_map`, `ok_of_toOption`), and of the items of a list a step was taken for
(`forall₂_of_mapM`, `exists_of_mem_mapM`, `exists_of_mapM_mem`).  A step that succeeds for each item
succeeds for all (`exists_mapM_ok`), and makes of them what it makes of each (`mapM_eq_ok_map`).
Items that are read each from one text are read from these texts (`mapM_eq_some_iff`).
-/

namespace AccessRules

/-- The result of a step that went on is the result of what followed. -/
theorem ok_of_bind {ε α β : Type} {x : Except ε α} {f : α → Except ε β} {b : β}
    (h : x >>= f = .ok b) : ∃ a, x = .ok a ∧ f a = .ok b := by
  cases x with
  | error e => cases h
  | ok a => exact ⟨a, rfl, h⟩

/-- The result of a step that was changed afterwards. -/
theorem ok_of_map {ε α β : Type} {x : Except ε α} {f : α → β} {b : β}
    (h : x.map f = .ok b) : ∃ a, x = .ok a ∧ f a = b := by
  cases x with
  | error e => cases h
  | ok a => exact ⟨a, rfl, Except.ok.inj h⟩

/-- A step that has a result succeeded. -/
theorem ok_of_toOption {ε α : Type} {x : Except ε α} {a : α} (h : x.toOption = some a) :
    x = .ok a := by
  cases x with
  | error e => cases h
  | ok a' => exact congrArg _ (Option.some.inj h)

/-- What a step made of each item, if it failed at none. -/
theorem forall₂_of_mapM {ε α β : Type} {f : α → Except ε β} {l : List α} {l' : List β}
    (h : l.mapM f = .ok l') : List.Forall₂ (fun a b => f a = .ok b) l l' := by
  induction l generalizing l' with
  | nil =>
    cases h
    exact .nil
  | cons a l ih =>
    rw [List.mapM_cons] at h
    obtain ⟨b, hb, h⟩ := ok_of_bind h
    obtain ⟨bs, hbs, h⟩ := ok_of_bind h
    cases h
    exact .cons hb (ih hbs)

/-- Whatever a step made was made of one of the items. -/
theorem exists_of_mem_mapM {ε α β : Type} {f : α → Except ε β} {l : List α} {l' : List β}
    (h : l.mapM f = .ok l') {b : β} (hb : b ∈ l') : ∃ a ∈ l, f a = .ok b := by
  have hall := forall₂_of_mapM h
  clear h
  induction hall with
  | nil => cases hb
  | cons ha _ ih =>
    rcases List.mem_cons.mp hb with rfl | hb
    · exact ⟨_, List.mem_cons_self .., ha⟩
    · obtain ⟨a, hmem, hfa⟩ := ih hb
      exact ⟨a, List.mem_cons_of_mem _ hmem, hfa⟩

/-- Something was made of each of the items, if the step failed at none. -/
theorem exists_of_mapM_mem {ε α β : Type} {f : α → Except ε β} {l : List α} {l' : List β}
    (h : l.mapM f = .ok l') {a : α} (ha : a ∈ l) : ∃ b ∈ l', f a = .ok b := by
  have hall := forall₂_of_mapM h
  clear h
  induction hall with
  | nil => cases ha
  | cons hfa _ ih =>
    rcases List.mem_cons.mp ha with rfl | ha
    · exact ⟨_, List.mem_cons_self .., hfa⟩
    · obtain ⟨b, hmem, hfa⟩ := ih ha
      exact ⟨b, List.mem_cons_of_mem _ hmem, hfa⟩

/-- A step that succeeds for each item succeeds for the list. -/
theorem exists_mapM_ok {ε α β : Type} {f : α → Except ε β} {l : List α}
    (h : ∀ a ∈ l, ∃ b, f a = .ok b) : ∃ l', l.mapM f = .ok l' := by
  induction l with
  | nil => exact ⟨[], rfl⟩
  | cons a l ih =>
    obtain ⟨b, hb⟩ := h a (List.mem_cons_self ..)
    obtain ⟨l', hl'⟩ := ih fun a ha => h a (List.mem_cons_of_mem _ ha)
    refine ⟨b :: l', ?_⟩
    rw [List.mapM_cons, hb, hl']
    rfl

/-- A step makes of the list what it makes of each item. -/
theorem mapM_eq_ok_map {ε α β : Type} {f : α → Except ε β} {g : α → β} {l : List α}
    (h : ∀ a ∈ l, f a = .ok (g a)) : l.mapM f = .ok (l.map g) := by
  induction l with
  | nil => rfl
  | cons a l ih =>
    have hl : l.mapM f = .ok (l.map g) := ih fun a ha => h a (List.mem_cons_of_mem _ ha)
    rw [List.mapM_cons, h a (List.mem_cons_self ..), hl]
    rfl

/-- A list of texts is read exactly if it is the list of the texts of what is read. -/
theorem mapM_eq_some_iff {α β : Type} {read : α → Option β} {P : β → Prop} {text : β → α}
    (hread : ∀ x y, read x = some y ↔ P y ∧ x = text y) {xs : List α} {ys : List β} :
    xs.mapM read = some ys ↔ (∀ y ∈ ys, P y) ∧ xs = ys.map text := by
  induction xs generalizing ys with
  | nil => cases ys <;> simp
  | cons x xs ih =>
    simp only [List.mapM_cons, Option.bind_eq_bind, Option.bind_eq_some_iff, Option.pure_def,
      Option.some.injEq, hread, ih]
    constructor
    · rintro ⟨y, ⟨hy, rfl⟩, ys, ⟨hys, rfl⟩, rfl⟩
      exact ⟨List.forall_mem_cons.mpr ⟨hy, hys⟩, rfl⟩
    · rintro ⟨hall, heq⟩
      cases ys with
      | nil => cases heq
      | cons y ys =>
        obtain ⟨hy, hys⟩ := List.forall_mem_cons.mp hall
        obtain ⟨hx, hxs⟩ := List.cons.inj heq
        exact ⟨y, ⟨hy, hx⟩, ys, ⟨hys, hxs⟩, rfl⟩

end AccessRules
