import Mathlib.Logic.Function.Basic
import AccessRules.Proofs.Directory.Topic

/-!
# Steps put together of looks

**Program** — the look-ups of the directory, and steps that go on with what they found.

**Spec** — each of them is put together of looks at one topic at a time (`IsComposed`), and has no
other way to change the memory.

**Crux** — there are four ways to make such a step, so what holds of a look, and is kept by the
other three, holds of all of them.  It is shown by induction on how the step was made, without going
through the look-ups again.
-/

namespace AccessRules.Directory

variable {α β : Type} {c : Connection}

/-- A step over memories that is put together of looks. -/
inductive IsComposed (c : Connection) : {α : Type} → (Memory → Except Failure α × Memory) → Prop where
  | look (t : Topic) : IsComposed c (t.look c ·)
  /-- A step that asks nothing. -/
  | pure {α : Type} (x : Except Failure α) : IsComposed c fun m => (x, m)
  /-- A step whose result can be told from that of a composed one. -/
  | of_map {α β : Type} {step : Memory → Except Failure α × Memory} {g : α → β}
    (hg : Function.Injective g)
    (h : IsComposed c fun m => ((step m).1.map g, (step m).2)) : IsComposed c step
  /-- A step that goes on with another one, unless the first one fails. -/
  | andThen {α β : Type} {first : Memory → Except Failure α × Memory}
    {g : Memory → α → Except Failure β × Memory} {step : Memory → Except Failure β × Memory}
    (hfirst : IsComposed c first) (hnext : ∀ a, IsComposed c (g · a))
    (herror : ∀ m n e, first m = (.error e, n) → step m = (.error e, n))
    (hok : ∀ m n a, first m = (.ok a, n) → step m = g n a) : IsComposed c step

namespace IsComposed

/-- A step of whose result something is made, which may fail. -/
theorem bind {step : Memory → Except Failure α × Memory} (h : IsComposed c step)
    (g : α → Except Failure β) : IsComposed c fun m => ((step m).1.bind g, (step m).2) := by
  refine h.andThen (g := fun m a => (g a, m)) (fun a => .pure (g a)) (fun m n e hm => ?_)
    (fun m n a hm => ?_)
  · rw [hm]
    rfl
  · rw [hm]
    rfl

theorem map {step : Memory → Except Failure α × Memory} (h : IsComposed c step) (g : α → β) :
    IsComposed c fun m => ((step m).1.map g, (step m).2) := h.bind fun a => .ok (g a)

end IsComposed

theorem isComposed_app (c : Connection) (name : String) :
    IsComposed c (Lookup.app.run c name ·) :=
  .of_map (fun _ _ h => Reply.workload.inj h) (.look (.app name))

theorem isComposed_job (c : Connection) (name : String) :
    IsComposed c (Lookup.job.run c name ·) :=
  .of_map (fun _ _ h => Reply.workload.inj h) (.look (.job name))

theorem isComposed_pool (c : Connection) (name : String) :
    IsComposed c (Lookup.pool.run c name ·) :=
  .of_map (fun _ _ h => Reply.pool.inj h) (.look (.pool name))

theorem isComposed_clusters (c : Connection) : IsComposed c (clusters c) :=
  .of_map (fun _ _ h => Reply.clusters.inj h) (.look .clusters)

/-- Finding the cluster of a pool looks at the clusters, if at anything. -/
theorem isComposed_poolCluster (c : Connection) (p : Pool) : IsComposed c (poolCluster c p) := by
  unfold poolCluster
  split
  · exact .pure _
  · exact (isComposed_clusters c).bind _

end AccessRules.Directory
