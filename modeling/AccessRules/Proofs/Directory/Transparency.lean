import AccessRules.Proofs.Directory.Composing

/-!
# Memory that makes no difference

**Program** — looking topics up over a memory that may know some of them already.

**Spec** — if what the directory answers does not depend on what was asked before, neither does the
result of looking a topic up: it is what the directory answers, whether it was remembered or not
(`isTransparent_look`).

**Crux** — the memory is *faithful*: what it knows of a topic is what the directory would answer.
A step over such memories is *transparent* if its result is the same over any two of them and it
leaves them faithful (`IsTransparent`).  One look is transparent, and so is whatever is put together
of looks (`IsComposed.isTransparent`), also if it stops half way at a failure.
-/

namespace AccessRules.Directory

open Http

/-- What is answered does not depend on what was asked before. -/
def Connection.IsSteady (c : Connection) : Prop :=
  ∀ sent sent' r, c.server sent r = c.server sent' r

/-- A connection to a server whose answers depend on nothing but what is asked for. -/
theorem Connection.isSteady_steady (host token : String) (answer : String → Answer) :
    (Connection.mk host token (Server.steady answer)).IsSteady := fun _ _ _ => rfl

variable {c : Connection} {m m' : Memory}

theorem Connection.IsSteady.fetch (hc : c.IsSteady) (path : String) (m m' : Memory) :
    (c.fetch path m).1 = (c.fetch path m').1 := by
  unfold Connection.fetch
  cases c.request path with
  | error f => rfl
  | ok r =>
    have hhandle : c.server.handle m.sent r = c.server.handle m'.sent r := by
      simp only [Server.handle, hc m.sent m'.sent r]
    simp only [hhandle]
    cases c.server.handle m'.sent r <;> rfl

/-- What the directory answers about a topic. -/
def Topic.truth (c : Connection) (t : Topic) : Except Failure Reply :=
  (c.fetch t.path .empty).1.bind t.read

/-- A memory that knows nothing but what the directory answers. -/
def Memory.IsFaithful (c : Connection) (m : Memory) : Prop :=
  ∀ (t : Topic) (known : Except Failure Reply), t.about? m = some known → known = t.truth c

theorem Memory.isFaithful_empty (c : Connection) : Memory.empty.IsFaithful c := by
  intro t known h
  cases t <;> cases h

/-- A step over memories that makes the same of all faithful ones, and leaves them faithful. -/
structure IsTransparent (c : Connection) {α : Type} (f : Memory → α × Memory) : Prop where
  same : ∀ {m m'}, m.IsFaithful c → m'.IsFaithful c → (f m).1 = (f m').1
  faithful : ∀ {m}, m.IsFaithful c → (f m).2.IsFaithful c

namespace IsTransparent

variable {α β : Type}

theorem pure (c : Connection) (a : α) : IsTransparent c fun m => (a, m) where
  same _ _ := rfl
  faithful h := h

theorem map_injective {g : α → β} (hg : Function.Injective g) :
    Function.Injective (Except.map g : Except Failure α → Except Failure β) := by
  rintro (e | a) (e' | a') h
  · exact congrArg _ (Except.error.inj h)
  · cases h
  · cases h
  · exact congrArg _ (hg (Except.ok.inj h))

/-- A step whose result can be told from that of a transparent one. -/
theorem of_map {f : Memory → Except Failure α × Memory} {g : α → β} (hg : Function.Injective g)
    (hf : IsTransparent c fun m => ((f m).1.map g, (f m).2)) : IsTransparent c f where
  same h h' := map_injective hg (hf.same h h')
  faithful h := hf.faithful h

/-- A step that goes on with another one, unless the first one fails. -/
theorem andThen {f : Memory → Except Failure α × Memory}
    {g : Memory → α → Except Failure β × Memory}
    {step : Memory → Except Failure β × Memory} (hf : IsTransparent c f)
    (hg : ∀ a, IsTransparent c (g · a))
    (herror : ∀ m n e, f m = (.error e, n) → step m = (.error e, n))
    (hok : ∀ m n a, f m = (.ok a, n) → step m = g n a) : IsTransparent c step where
  same {m m'} h h' := by
    have hsame := hf.same h h'
    have hfaithful := hf.faithful h
    have hfaithful' := hf.faithful h'
    generalize hm : f m = r at hsame hfaithful
    generalize hm' : f m' = r' at hsame hfaithful'
    obtain ⟨a, n⟩ := r
    obtain ⟨a', n'⟩ := r'
    obtain rfl : a = a' := hsame
    cases a with
    | error e => rw [herror m n e hm, herror m' n' e hm']
    | ok a =>
      rw [hok m n a hm, hok m' n' a hm']
      exact (hg a).same hfaithful hfaithful'
  faithful {m} h := by
    have hfaithful := hf.faithful h
    generalize hm : f m = r at hfaithful
    obtain ⟨a, n⟩ := r
    cases a with
    | error e =>
      rw [herror m n e hm]
      exact hfaithful
    | ok a =>
      rw [hok m n a hm]
      exact (hg a).faithful hfaithful

end IsTransparent

/-- A look over a faithful memory tells what the directory answers, and leaves it faithful. -/
theorem Topic.look_of_isFaithful (hc : c.IsSteady) (h : m.IsFaithful c) (t : Topic) :
    (t.look c m).1 = t.truth c ∧ (t.look c m).2.IsFaithful c := by
  cases hknown : t.about? m with
  | some known =>
    rw [look_known hknown]
    exact ⟨h t known hknown, h⟩
  | none =>
    have hlook := look_unknown (c := c) hknown
    have htruth : (t.look c m).1 = t.truth c := by
      rw [hlook.answer, hc.fetch t.path m .empty]
      rfl
    refine ⟨htruth, fun t' known' hknown' => ?_⟩
    by_cases heq : t' = t
    · obtain rfl := heq
      rw [hlook.itself] at hknown'
      split at hknown'
      · exact (Option.some.inj hknown').symm.trans htruth
      · cases hknown'
    · rw [hlook.others t' heq] at hknown'
      exact h t' known' hknown'

/-- **Looking a topic up is transparent.** -/
theorem isTransparent_look (hc : c.IsSteady) (t : Topic) : IsTransparent c (t.look c ·) where
  same h h' := (t.look_of_isFaithful hc h).1.trans (t.look_of_isFaithful hc h').1.symm
  faithful h := (t.look_of_isFaithful hc h).2

/-- **Whatever is put together of looks is transparent.** -/
theorem IsComposed.isTransparent (hc : c.IsSteady) {α : Type}
    {step : Memory → Except Failure α × Memory} (h : IsComposed c step) :
    IsTransparent c step := by
  induction h with
  | look t => exact isTransparent_look hc t
  | pure x => exact .pure c x
  | of_map hg _ ih => exact .of_map hg ih
  | andThen _ _ herror hok ihfirst ihnext => exact ihfirst.andThen ihnext herror hok

end AccessRules.Directory
