import AccessRules.Endpoint.Validity

/-!
# What is asked of valid endpoints

**Program** — `Endpoint.flaw?` runs the checks of all targets one after the other and reports the
first flaw it finds.

**Spec** — an endpoint is valid exactly if none of the checks finds a flaw (`isValid_iff`), and each
target is without flaw under a condition of its own (`App.flaw?_eq_none`, `Job.flaw?_eq_none`,
`Rpaas.flaw?_eq_none`, `Dns.flaw?_eq_none`, `Ip.flaw?_eq_none`).
-/

namespace AccessRules

@[simp] theorem Name.isWorkload_empty : isWorkload "" = false := rfl

@[simp] theorem Name.isLabel_empty : isLabel "" = false := rfl

namespace Endpoint

/-- **An endpoint is valid exactly if no target that it sets has a flaw**, it sets one kind that is
still in use, and its ports have no flaw. -/
theorem isValid_iff {e : Endpoint} :
    e.isValid = true ↔ e.app.bind App.flaw? = none ∧ e.job.bind Job.flaw? = none ∧
      e.rpaas.bind Rpaas.flaw? = none ∧ e.dns.bind Dns.flaw? = none ∧ e.ip.bind Ip.flaw? = none ∧
      e.service = none ∧ e.kindCount = 1 ∧ Port.firstFlaw? e.ports = none := by
  simp only [isValid, Option.isNone_iff_eq_none, flaw?, Option.orElse_eq_orElse,
    Option.orElse_eq_or, Option.or_eq_none_iff, ite_eq_right_iff, reduceCtorEq, imp_false,
    Option.isSome_iff_ne_none, ne_eq, Decidable.not_not,
    Option.map_eq_none_iff]

/-- Where there is a target, it is without flaw. -/
theorem flaw?_of_bind {α : Type} {target : Option α} {flaw? : α → Option Flaw}
    (h : target.bind flaw? = none) {t : α} (ht : target = some t) : flaw? t = none := by
  rw [ht, Option.bind_some] at h
  exact h

/-- An app is named by itself or by its pool, but not by both. -/
theorem App.flaw?_eq_none {a : App} :
    a.flaw? = none ↔
      (a.name = "" ∧ a.pool ≠ "") ∨ (Name.isWorkload a.name = true ∧ a.pool = "") := by
  by_cases hname : a.name = "" <;> by_cases hpool : a.pool = "" <;> simp [flaw?, hname, hpool]

theorem Job.flaw?_eq_none {j : Job} : j.flaw? = none ↔ Name.isWorkload j.name = true := by
  by_cases hname : j.name = "" <;> simp [flaw?, hname]

/-- An instance has two labels for names. -/
theorem Rpaas.flaw?_eq_none {r : Rpaas} :
    r.flaw? = none ↔ Name.isLabel r.service = true ∧ Name.isLabel r.inst = true := by
  by_cases hservice : r.service = ""
  · simp [flaw?, hservice]
  · by_cases hinst : r.inst = ""
    · simp [flaw?, hinst]
    · cases hlabel : Name.isLabel r.service <;> simp [flaw?, hservice, hinst, hlabel]

/-- A host has a domain for a name, perhaps with a point in front, and not one inside a cluster. -/
theorem Dns.flaw?_eq_none {d : Dns} :
    d.flaw? = none ↔ d.name ≠ "" ∧ Name.domainFlaws (withoutWildcard d.name) = [] ∧
      endsWith d.name internalSuffix = false := by
  by_cases hname : d.name = "" <;>
    by_cases hflaws : Name.domainFlaws (withoutWildcard d.name) = [] <;>
      simp [flaw?, hname, hflaws]

/-- A network is of version 4, and it is small or restricted to ports. -/
theorem Ip.flaw?_eq_none {i : Ip} :
    i.flaw? = none ↔ ∃ address length, Network.ofText? i.address = some (.v4 address length) ∧
      (leastPrefix ≤ length ∨ i.ports.getD [] ≠ []) := by
  by_cases haddress : i.address = ""
  · have hnone : Network.ofText? "" = none := by decide +kernel
    simp [flaw?, haddress, hnone]
  · cases hread : Network.ofText? i.address with
    | none => simp [flaw?, haddress, hread]
    | some network =>
      cases network with
      | v4 address length =>
        have hlarge : i.flaw? = none ↔
            ((Network.v4 address length).prefixLength < leastPrefix → i.ports.getD [] ≠ []) := by
          simp [flaw?, haddress, hread, Network.isV6]
        rw [hlarge, Network.prefixLength, Decidable.imp_iff_not_or, Nat.not_lt]
        constructor
        · exact fun h => ⟨address, length, rfl, h⟩
        · rintro ⟨_, _, ⟨⟩, h⟩
          exact h
      | v6 address length => simp [flaw?, haddress, hread, Network.isV6]

end Endpoint

end AccessRules
