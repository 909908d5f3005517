import AccessRules.Proofs.Directory.Transparency
import AccessRules.Proofs.Resolution.Composing
import AccessRules.Proofs.Resolution.Remembering

/-!
# Resolutions that do not depend on what was resolved before

**Program** — `Cache.resolve` for any endpoints in any order, over one cache and its memory of the
directory.

**Spec** — if what the directory answers depends on nothing but what is asked for, each call returns
what it would return as the only one: the same target, nothing, or the same failure
(`resolveAll_eq_alone`).

**Crux** — resolving is put together of looks, so it is transparent (`isComposed_resolve`); one that
fails leaves a memory that knows more, but still a faithful one.  So a cache stays *faithful*: its
memory is, and its memo has for an endpoint what the endpoint resolves to (`Cache.IsFaithful`).  No
endpoint finds the target of another one there, because their canonical forms differ.
-/

namespace AccessRules.Resolution

open Directory

variable {connection : Connection}

/-! ## Resolving over a cache -/

/-- What an endpoint resolves to over a memory that knows nothing. -/
def alone (connection : Connection) (e : Endpoint) : Except Failure (Option Target) :=
  (Resolution.resolve connection .empty e).1

namespace Cache

/-- A cache that knows nothing but what the directory answers and what endpoints resolve to. -/
structure IsFaithful (connection : Connection) (c : Cache) : Prop where
  memory : c.memory.IsFaithful connection
  memo : ∀ (e : Endpoint) (target : Option Target),
    c.memo.lookup e.canonical = some target → alone connection e = .ok target

theorem isFaithful_empty (connection : Connection) : Cache.empty.IsFaithful connection :=
  ⟨Memory.isFaithful_empty connection, fun _ _ h => by cases h⟩

/-- A call over a faithful cache returns what it would return as the only one, and leaves the cache
faithful. -/
theorem resolve_of_isFaithful (hc : connection.IsSteady) {c : Cache} (h : c.IsFaithful connection)
    (e : Endpoint) : (c.resolve connection e).1 = alone connection e ∧
      (c.resolve connection e).2.IsFaithful connection := by
  have hsame : (Resolution.resolve connection c.memory e).1 = alone connection e :=
    ((isComposed_resolve connection e).isTransparent hc).same h.memory (Memory.isFaithful_empty connection)
  have hmemory := ((isComposed_resolve connection e).isTransparent hc).faithful h.memory
  have hboth : (c.resolve connection e).1 = alone connection e ∧
      (c.resolve connection e).2.memory.IsFaithful connection := by
    rw [resolve_eq_resolveBy]
    cases hknown : c.memo.lookup e.canonical with
    | some target =>
      rw [resolveBy_known hknown, h.memo e target hknown]
      exact ⟨rfl, h.memory⟩
    | none =>
      rcases resolveBy_unknown (Resolution.resolve connection) hknown with
        ⟨f, hf, heq⟩ | ⟨target, htarget, heq⟩
      · rw [heq, ← hsame, hf]
        exact ⟨rfl, hmemory⟩
      · rw [heq, ← hsame, htarget]
        exact ⟨rfl, hmemory⟩
  refine ⟨hboth.1, hboth.2, fun e' target htarget => ?_⟩
  rw [resolve_eq_resolveBy, lookup_resolveBy, Option.or_eq_some_iff] at htarget
  rcases htarget with hknown | ⟨-, hnew⟩
  · exact h.memo e' target hknown
  · split at hnew
    · next heq =>
      obtain rfl := heq
      rw [← resolve_eq_resolveBy, hboth.1] at hnew
      generalize alone connection e = reply at hnew
      cases reply with
      | error f => cases hnew
      | ok target => exact congrArg _ (Option.some.inj hnew)
    · cases hnew

/-- What some endpoints resolve to, one after the other. -/
def resolveAll (connection : Connection) (c : Cache) :
    List Endpoint → List (Except Failure (Option Target))
  | [] => []
  | e :: es => (c.resolve connection e).1 :: resolveAll connection (c.resolve connection e).2 es

theorem resolveAll_of_isFaithful (hc : connection.IsSteady) {c : Cache}
    (h : c.IsFaithful connection) (asked : List Endpoint) :
    c.resolveAll connection asked = asked.map (alone connection) := by
  induction asked generalizing c with
  | nil => rfl
  | cons e asked ih =>
    obtain ⟨hreply, hfaithful⟩ := resolve_of_isFaithful hc h e
    rw [resolveAll, hreply, ih hfaithful, List.map_cons]

/-- **What was resolved before makes no difference.**  Over a directory whose answers depend on
nothing but what is asked for, each of any calls on one cache returns what it returns as the only
one: the same target, nothing, or the same failure. -/
theorem resolveAll_eq_alone (host token : String) (answer : String → Http.Answer)
    (asked : List Endpoint) :
    Cache.empty.resolveAll ⟨host, token, .steady answer⟩ asked =
      asked.map fun e => (Cache.empty.resolve ⟨host, token, .steady answer⟩ e).1 := by
  have hc := Connection.isSteady_steady host token answer
  have hempty := isFaithful_empty ⟨host, token, .steady answer⟩
  rw [resolveAll_of_isFaithful hc hempty]
  exact List.map_congr_left fun e _ => (resolve_of_isFaithful hc hempty e).1.symm

end Cache

end AccessRules.Resolution
