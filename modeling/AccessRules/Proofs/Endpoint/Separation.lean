import AccessRules.Proofs.Endpoint.Filtering
import AccessRules.Proofs.Endpoint.Validity

/-!
# Endpoints told apart

**Program** — `Endpoint.agrees` compares two endpoints kind by kind, each kind in its own way, as far
as the left one sets them; `Endpoint.isValid` is what every stored endpoint has passed.

**Spec** — two valid endpoints that agree should lead to the same target: they are of one kind, and
what names the target in that kind is equal (`SameTarget`).  So they do, whatever the ports and the
reach, unless the left one is a job: a job agrees with everything, and leads to the same target only
if the right one is that job (`agrees_separates_iff`).

**Crux** — a valid endpoint is one target and nothing else (`IsTarget`).  A kind that is set on the
left has to be set on the right to agree, and then it is all there is on the right.
-/

namespace AccessRules.Endpoint

/-! ## What a valid endpoint is -/

/-- An endpoint that is one target, of a kind that is in use. -/
inductive IsTarget : Endpoint → Prop
  | app (a : App) : IsTarget { empty with app := some a }
  | job (j : Job) : IsTarget { empty with job := some j }
  | dns (d : Dns) : IsTarget { empty with dns := some d }
  | ip (i : Ip) : IsTarget { empty with ip := some i }
  | rpaas (r : Rpaas) : IsTarget { empty with rpaas := some r }

/-- A valid endpoint sets one kind, and that is not the one that is out of use. -/
theorem kindCount_of_isValid {e : Endpoint} (h : e.isValid = true) :
    e.service = none ∧ e.kindCount = 1 := by
  obtain ⟨_, _, _, _, _, hservice, hcount, _⟩ := isValid_iff.mp h
  exact ⟨hservice, hcount⟩

/-- **A valid endpoint is one target and nothing else.** -/
theorem isTarget_of_isValid {e : Endpoint} (h : e.isValid = true) : e.IsTarget := by
  obtain ⟨hservice, hcount⟩ := kindCount_of_isValid h
  obtain ⟨app, job, service, dns, ip, rpaas⟩ := e
  obtain rfl : service = none := hservice
  -- if none were set, or several, the count would not be one
  cases app <;> cases job <;> cases dns <;> cases ip <;> cases rpaas <;> cases hcount
  · exact .rpaas _
  · exact .ip _
  · exact .dns _
  · exact .job _
  · exact .app _

/-! ## The same target -/

/-- Two endpoints lead to the same target: they are of the same kind, and what names the target in
that kind is equal.  Ports and reach name nothing. -/
structure SameTarget (left right : Endpoint) : Prop where
  kind : left.kind? = right.kind?
  app : left.app = right.app
  job : left.job = right.job
  dns : left.dns.map (·.name) = right.dns.map (·.name)
  ip : left.ip.map (·.address) = right.ip.map (·.address)
  rpaas : left.rpaas = right.rpaas

/-! ## Agreement -/

/-- What agreement asks of the right side: each kind that is set on the left, except a job, has its
like there. -/
theorem agrees_iff {left right : Endpoint} :
    left.agrees (some right) = true ↔
      TargetMeets (fun r l => l = r) right.app left.app ∧
      TargetMeets (fun r l => l = r) right.service left.service ∧
      TargetMeets (fun r l => l.agrees r = true) right.dns left.dns ∧
      TargetMeets (fun r l => l.agrees r = true) right.ip left.ip ∧
      TargetMeets (fun r l => l = r) right.rpaas left.rpaas := by
  simp only [agrees, Bool.and_eq_true, onBoth_iff, beq_iff_eq, and_assoc]

theorem Dns.name_of_agrees {left right : Dns} (h : left.agrees right = true) :
    left.name = right.name := by
  simp only [agrees, Bool.and_eq_true, beq_iff_eq] at h
  exact h.1.1

theorem Ip.address_of_agrees {left right : Ip} (h : left.agrees right = true) :
    left.address = right.address := by
  simp only [agrees, Bool.and_eq_true, beq_iff_eq] at h
  exact h.1.1

/-- A job agrees with everything, as jobs are not looked at. -/
theorem agrees_job (j : Job) (right : Endpoint) :
    agrees { empty with job := some j } (some right) = true :=
  agrees_iff.mpr ⟨.none _, .none _, .none _, .none _, .none _⟩

/-- **An endpoint that is no job agrees only with one that leads to the same target.** -/
theorem sameTarget_of_agrees {left right : Endpoint} (hleft : left.IsTarget)
    (hright : right.IsTarget) (hjob : left.job = none)
    (h : left.agrees (some right) = true) : left.SameTarget right := by
  obtain ⟨happ, _, hdns, hip, hrpaas⟩ := agrees_iff.mp h
  -- what is set on the left is all there is on either side
  cases hleft with
  | app a =>
    obtain ⟨_, hset, rfl⟩ := happ a rfl
    cases hright <;> cases hset
    exact ⟨rfl, rfl, rfl, rfl, rfl, rfl⟩
  | job j => cases hjob
  | dns d =>
    obtain ⟨d', hset, hagrees⟩ := hdns d rfl
    cases hright <;> cases hset
    exact ⟨rfl, rfl, rfl, congrArg some (Dns.name_of_agrees hagrees), rfl, rfl⟩
  | ip i =>
    obtain ⟨i', hset, hagrees⟩ := hip i rfl
    cases hright <;> cases hset
    exact ⟨rfl, rfl, rfl, rfl, congrArg some (Ip.address_of_agrees hagrees), rfl⟩
  | rpaas r =>
    obtain ⟨_, hset, rfl⟩ := hrpaas r rfl
    cases hright <;> cases hset
    exact ⟨rfl, rfl, rfl, rfl, rfl, rfl⟩

/-- **Agreement separates valid endpoints, except from a job.**  A valid job agrees with every
endpoint.  Two valid endpoints that agree lead to the same target if and only if the left one is no
job, or both are one and the same job. -/
theorem agrees_separates_iff {left right : Endpoint} (hleft : left.isValid = true)
    (hright : right.isValid = true) :
    (left.job ≠ none → left.agrees (some right) = true) ∧
    ((left.agrees (some right) = true → left.SameTarget right) ↔
      left.job = none ∨ left.job = right.job) := by
  have hleft := isTarget_of_isValid hleft
  have hright := isTarget_of_isValid hright
  have hall : left.job ≠ none → left.agrees (some right) = true := by
    intro hjob
    cases hleft with
    | job j => exact agrees_job j right
    | _ => exact absurd rfl hjob
  refine ⟨hall, fun hsame => ?_, ?_⟩
  · by_cases hjob : left.job = none
    · exact .inl hjob
    · exact .inr (hsame (hall hjob)).job
  · rintro (hjob | hjob) hagrees
    · exact sameTarget_of_agrees hleft hright hjob hagrees
    · by_cases hnone : left.job = none
      · exact sameTarget_of_agrees hleft hright hnone hagrees
      -- both are the job and nothing else
      cases hleft with
      | job j =>
        cases hright <;> cases hjob
        exact ⟨rfl, rfl, rfl, rfl, rfl, rfl⟩
      | _ => exact absurd rfl hnone

/-- A job by name. -/
def ofJob (name : String) : Endpoint := { empty with job := some ⟨name⟩ }

/-- An instance of a proxy service. -/
def ofRpaas (inst : String) : Endpoint := { empty with rpaas := some ⟨"proxy", inst⟩ }

/-- Two instances of a service are told apart. -/
theorem agrees_separates_iff_rpaas :
    (ofRpaas "one").isValid = true ∧ (ofRpaas "two").isValid = true ∧
      (ofRpaas "one").agrees (some (ofRpaas "two")) = false := by
  have hone : (ofRpaas "one").isValid = true := by decide +kernel
  have htwo : (ofRpaas "two").isValid = true := by decide +kernel
  refine ⟨hone, htwo, Bool.eq_false_iff.mpr fun hagrees => ?_⟩
  have hsame := (agrees_separates_iff hone htwo).2.mpr (.inl rfl) hagrees
  exact absurd hsame.rpaas (by decide)

/-- A job agrees with another job and with an instance, all of them valid. -/
theorem not_agrees_separates_job :
    ((ofJob "one").isValid = true ∧ (ofJob "two").isValid = true ∧
      (ofRpaas "one").isValid = true) ∧
    ((ofJob "one").agrees (some (ofJob "two")) = true ∧
      ¬ (ofJob "one").SameTarget (ofJob "two")) ∧
    (ofJob "one").agrees (some (ofRpaas "one")) = true ∧
      (ofJob "one").kind? ≠ (ofRpaas "one").kind? := by
  refine ⟨by decide +kernel, ⟨rfl, fun hsame => ?_⟩, rfl, by decide⟩
  exact absurd hsame.job (by decide)

end AccessRules.Endpoint
