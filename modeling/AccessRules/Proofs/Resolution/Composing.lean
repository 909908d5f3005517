import AccessRules.Proofs.Directory.Composing
import AccessRules.Resolution.Question

/-!
# Resolving as a step of looks

**Program** — `Question.answer` finds the pool a question leads to, and the target of that pool;
`Resolution.resolve` does so for the question that an endpoint raises.

**Spec** — resolving is put together of looks (`isComposed_resolve`).

**Crux** — it has two parts that need nothing of each other but the pool: looking up the pool that
the question leads to (`Question.home`), and making a target of it (`Question.settle`).
-/

namespace AccessRules.Resolution

open Directory

namespace Question

/-- The pool a question leads to, as the directory tells it. -/
def home (c : Connection) (m : Memory) (q : Question) : Except Failure Pool × Memory :=
  match q.pool c m with
  | (.error f, m) => (.error f, m)
  | (.ok name, m) => Lookup.pool.run c name m

/-- What is made of a pool: its target, or nothing if it is not served. -/
def settle (c : Connection) (m : Memory) (p : Pool) : Except Failure (Option Target) × Memory :=
  if p.isServed then ((targetOf c m p).1.map some, (targetOf c m p).2) else (.ok none, m)

theorem ofPool_eq (c : Connection) (m : Memory) (name : String) :
    ofPool c m name = match Lookup.pool.run c name m with
      | (.error f, m) => (.error f, m)
      | (.ok p, m) => settle c m p := by
  rw [ofPool]
  rfl

/-- **A question is answered by the pool it leads to.** -/
theorem answer_eq (c : Connection) (m : Memory) (q : Question) :
    q.answer c m = match q.home c m with
      | (.error f, m) => (.error f, m)
      | (.ok p, m) => settle c m p := by
  rw [answer, home]
  cases q.pool c m with
  | mk x n =>
    cases x with
    | error f => rfl
    | ok name => exact ofPool_eq c n name

theorem isComposed_pool (c : Connection) (q : Question) : IsComposed c (q.pool c ·) := by
  cases q with
  | app a =>
    simp only [pool]
    split
    · exact (isComposed_app c a.name).map (·.pool)
    · split
      · exact .pure _
      · exact .pure _
  | job j =>
    simp only [pool]
    split
    · exact (isComposed_job c j.name).map (·.pool)
    · exact .pure _

theorem isComposed_home (c : Connection) (q : Question) : IsComposed c (q.home c ·) := by
  refine (isComposed_pool c q).andThen (Directory.isComposed_pool c) (fun m n e h => ?_)
    (fun m n name h => ?_)
  · rw [home, h]
  · rw [home, h]

theorem isComposed_settle (c : Connection) (p : Pool) : IsComposed c (settle c · p) := by
  unfold settle
  split
  · exact ((isComposed_poolCluster c p).bind _).map some
  · exact .pure _

theorem isComposed_answer (c : Connection) (q : Question) : IsComposed c (q.answer c ·) := by
  refine (isComposed_home c q).andThen (g := settle c) (isComposed_settle c) (fun m n e h => ?_)
    (fun m n p h => ?_)
  · rw [answer_eq, h]
  · rw [answer_eq, h]

end Question

/-- **Resolving an endpoint is put together of looks.** -/
theorem isComposed_resolve (c : Connection) (e : Endpoint) :
    IsComposed c (Resolution.resolve c · e) := by
  unfold Resolution.resolve
  split
  · exact .pure _
  · next q _ => exact Question.isComposed_answer c q

end AccessRules.Resolution
