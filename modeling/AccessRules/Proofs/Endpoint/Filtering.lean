import Mathlib.Logic.Basic
import AccessRules.Endpoint.Matching

/-!
# What filters ask of endpoints

**Program** — `Endpoint.matchesFilter` says whether an endpoint has everything a filter sets.

**Spec** — an endpoint should meet a filter in every kind the filter sets, each text and each list of
ports that is given for it being equal (`Endpoint.Meets`).  What is compared is less: jobs, instances
and the cluster of a service are left out (`compared`), and an endpoint matches exactly if it meets
the filter in the rest (`matchesFilter_iff`).

**Crux** — what is left out of a filter asks nothing any more, so everything that meets the filter
matches (`Meets.compared`).  The converse fails at the part that is compared itself: it matches, and
it meets the whole filter only if nothing was left out (`isCompared_of_meets`).
-/

namespace AccessRules

/-- A text that is empty asks for nothing. -/
theorem isEmpty_or_iff {wanted : String} {fits : Bool} :
    (wanted.isEmpty || fits) = true ↔ (wanted ≠ "" → fits = true) := by
  rw [Bool.or_eq_true, String.isEmpty_iff]
  exact or_iff_not_imp_left

namespace Endpoint

/-! ## Meeting a filter -/

/-- A text has to be equal if the filter gives one. -/
def TextMeets (actual wanted : String) : Prop := wanted ≠ "" → actual = wanted

/-- Ports have to be equal if the filter gives a list, even an empty one. -/
def PortsMeet (actual wanted : Option (List Port)) : Prop := wanted ≠ none → actual = wanted

/-- A target has to be set if the filter sets one, and has to meet it. -/
def TargetMeets {α : Type} (meets : α → α → Prop) (actual wanted : Option α) : Prop :=
  ∀ w, wanted = some w → ∃ a, actual = some a ∧ meets a w

structure App.Meets (a wanted : App) : Prop where
  name : TextMeets a.name wanted.name
  pool : TextMeets a.pool wanted.pool

structure Job.Meets (j wanted : Job) : Prop where
  name : TextMeets j.name wanted.name

structure Service.Meets (s wanted : Service) : Prop where
  space : TextMeets s.space wanted.space
  name : TextMeets s.name wanted.name
  cluster : TextMeets s.cluster wanted.cluster

structure Dns.Meets (d wanted : Dns) : Prop where
  name : TextMeets d.name wanted.name
  ports : PortsMeet d.ports wanted.ports

structure Ip.Meets (i wanted : Ip) : Prop where
  address : TextMeets i.address wanted.address
  ports : PortsMeet i.ports wanted.ports

structure Rpaas.Meets (r wanted : Rpaas) : Prop where
  service : TextMeets r.service wanted.service
  inst : TextMeets r.inst wanted.inst

/-- An endpoint meets a filter in every kind. -/
structure Meets (e filter : Endpoint) : Prop where
  app : TargetMeets App.Meets e.app filter.app
  job : TargetMeets Job.Meets e.job filter.job
  service : TargetMeets Service.Meets e.service filter.service
  dns : TargetMeets Dns.Meets e.dns filter.dns
  ip : TargetMeets Ip.Meets e.ip filter.ip
  rpaas : TargetMeets Rpaas.Meets e.rpaas filter.rpaas

theorem TextMeets.refl (s : String) : TextMeets s s := fun _ => rfl

theorem TextMeets.empty (s : String) : TextMeets s "" := fun h => absurd rfl h

theorem PortsMeet.refl (ports : Option (List Port)) : PortsMeet ports ports := fun _ => rfl

theorem TargetMeets.none {α : Type} {meets : α → α → Prop} (actual : Option α) :
    TargetMeets meets actual none := nofun

theorem TargetMeets.refl {α : Type} {meets : α → α → Prop} (h : ∀ a, meets a a)
    (target : Option α) : TargetMeets meets target target := fun a ha => ⟨a, ha, h a⟩

theorem TargetMeets.imp {α : Type} {meets meets' : α → α → Prop} {actual wanted : Option α}
    (himp : ∀ a w, meets a w → meets' a w) (h : TargetMeets meets actual wanted) :
    TargetMeets meets' actual wanted := by
  intro w hw
  obtain ⟨a, ha, hmeets⟩ := h w hw
  exact ⟨a, ha, himp a w hmeets⟩

/-- To meet a target of which only a part is left. -/
theorem targetMeets_map {α : Type} {meets : α → α → Prop} {part : α → α}
    {actual wanted : Option α} :
    TargetMeets meets actual (wanted.map part) ↔
      TargetMeets (fun a w => meets a (part w)) actual wanted := by
  cases wanted <;> simp [TargetMeets]

/-- Every endpoint meets itself. -/
theorem Meets.refl (e : Endpoint) : e.Meets e where
  app := .refl (fun _ => ⟨.refl _, .refl _⟩) _
  job := .refl (fun _ => ⟨.refl _⟩) _
  service := .refl (fun _ => ⟨.refl _, .refl _, .refl _⟩) _
  dns := .refl (fun _ => ⟨.refl _, .refl _⟩) _
  ip := .refl (fun _ => ⟨.refl _, .refl _⟩) _
  rpaas := .refl (fun _ => ⟨.refl _, .refl _⟩) _

/-! ## What is compared -/

theorem textFits_iff {wanted actual : String} :
    textFits wanted actual = true ↔ TextMeets actual wanted := by
  rw [textFits, isEmpty_or_iff, beq_iff_eq, @eq_comm _ wanted actual]
  rfl

theorem portsFit_iff {wanted actual : Option (List Port)} :
    portsFit wanted actual = true ↔ PortsMeet actual wanted := by
  rw [portsFit, Bool.or_eq_true, Option.isNone_iff_eq_none, beq_iff_eq, or_iff_not_imp_left,
    @eq_comm _ wanted actual]
  rfl

/-- A target set on the left has its like on the right if the right one meets it. -/
theorem onBoth_iff {α : Type} {like : α → α → Bool} {wanted actual : Option α} :
    onBoth like wanted actual = true ↔ TargetMeets (fun a w => like w a = true) actual wanted := by
  cases wanted <;> cases actual <;> simp [onBoth, TargetMeets]

/-- The part of a filter that is compared: no job, no instance, and of a service no cluster. -/
def compared (filter : Endpoint) : Endpoint :=
  { filter with
    job := none
    service := filter.service.map fun s => { s with cluster := "" }
    rpaas := none }

/-- **An endpoint matches a filter exactly if it meets the part that is compared.** -/
theorem matchesFilter_iff {e filter : Endpoint} :
    e.matchesFilter filter = true ↔ e.Meets filter.compared := by
  simp only [matchesFilter, Bool.and_eq_true, onBoth_iff, textFits_iff, portsFit_iff]
  constructor
  · rintro ⟨⟨⟨hdns, hip⟩, happ⟩, hservice⟩
    exact
      { app := happ.imp fun _ _ h => ⟨h.1, h.2⟩
        job := .none _
        service := targetMeets_map.mpr (hservice.imp fun _ _ h => ⟨h.2, h.1, .empty _⟩)
        dns := hdns.imp fun _ _ h => ⟨h.1, h.2⟩
        ip := hip.imp fun _ _ h => ⟨h.1, h.2⟩
        rpaas := .none _ }
  · intro h
    exact ⟨⟨⟨h.dns.imp fun _ _ hd => ⟨hd.name, hd.ports⟩,
      h.ip.imp fun _ _ hi => ⟨hi.address, hi.ports⟩⟩,
      h.app.imp fun _ _ ha => ⟨ha.name, ha.pool⟩⟩,
      (targetMeets_map.mp h.service).imp fun _ _ hs => ⟨hs.name, hs.space⟩⟩

/-- Everything that meets a filter meets the part that is compared. -/
theorem Meets.compared {e filter : Endpoint} (h : e.Meets filter) : e.Meets filter.compared where
  app := h.app
  job := .none _
  service := targetMeets_map.mpr (h.service.imp fun _ _ hs => ⟨hs.space, hs.name, .empty _⟩)
  dns := h.dns
  ip := h.ip
  rpaas := .none _

/-- A filter asks for nothing that is left out: no job, no instance, no cluster of a service. -/
structure IsCompared (filter : Endpoint) : Prop where
  job : filter.job = none
  rpaas : filter.rpaas = none
  cluster : ∀ s, filter.service = some s → s.cluster = ""

theorem IsCompared.compared_eq {filter : Endpoint} (h : filter.IsCompared) :
    filter.compared = filter := by
  have hservice : filter.service.map (fun s => { s with cluster := "" }) = filter.service := by
    cases hs : filter.service with
    | none => rfl
    | some s => rw [Option.map_some, ← h.cluster s hs]
  rw [compared, hservice, ← h.job, ← h.rpaas]

/-- **The part of a filter that is compared meets the filter only if nothing is left out.** -/
theorem isCompared_of_meets {filter : Endpoint} (h : filter.compared.Meets filter) :
    filter.IsCompared where
  job := by
    cases hj : filter.job with
    | none => rfl
    | some j =>
      obtain ⟨_, hnone, _⟩ := h.job j hj
      cases hnone
  rpaas := by
    cases hr : filter.rpaas with
    | none => rfl
    | some r =>
      obtain ⟨_, hnone, _⟩ := h.rpaas r hr
      cases hnone
  cluster s hs := by
    obtain ⟨s', hs', hmeets⟩ := h.service s hs
    rw [compared, hs] at hs'
    obtain rfl := Option.some.inj hs'
    -- the empty cluster that is left would have to be the one that is given
    exact Decidable.byContradiction fun hgiven => hgiven (hmeets.cluster hgiven).symm

end Endpoint

end AccessRules
