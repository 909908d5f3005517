import AccessRules.Endpoint.Basic
import AccessRules.Proofs.Document.Records

/-!
# Endpoints read back

**Program** — `Endpoint.document` writes an endpoint, `Endpoint.read` reads one.

**Spec** — every endpoint is read back from its document as it was, whatever kinds are set and
whatever texts stand in it (`read_document`); and its document is one that JSON holds as it is
(`isPlain_document`).  Nothing is asked of the endpoint: it need not be valid.

**Crux** — a target has a fixed set of members, apart from its ports, which are left out when none
are given.  An endpoint has a member for each kind that is set, so what is found under the name of a
kind is its target (`lookup_members`); null never stands there.
-/

namespace AccessRules

open Schema

namespace Port

theorem readNumber_document (n : UInt16) : readNumber (.int n.toNat) = .pass n := by
  have hless : n.toNat < 65536 := n.toNat_lt
  have hgreatest : decide ((n.toNat : Int) ≤ 65535) = true := decide_eq_true (by omega)
  have hleast : decide ((0 : Int) ≤ n.toNat) = true := decide_eq_true (by omega)
  simp only [readNumber, intWithin, Schema.int, Check.ensure, Check.andThen, hgreatest, hleast,
    if_true, Check.map, Int.toNat_natCast, UInt16.ofNat_toNat]

/-- A port is read back from its document. -/
theorem read_document (p : Port) : read p.document = .pass p := by
  simp [read, document, Value.record, Schema.record, also, field, Name.find, Value.lookup,
    strangers, stranger, Schema.text, readNumber_document, Seq.seq, Check.seq, Functor.map,
    Check.map]

theorem isPlain_document (p : Port) : Json.isPlain p.document = true := by
  apply Json.isPlain_record <;> simp

end Port

namespace Endpoint

/-! ## Targets -/

/-- The ports of a target are read back, none and no ports kept apart. -/
theorem optional_ports (ports : List Port) :
    optional (list Port.read) (.list (ports.map Port.document)) = .pass (some ports) := by
  rw [optional_of_ne_null (by simp), list_map Port.read_document]
  rfl

theorem isPlain_ports (ports : List Port) :
    Json.isPlain (.list (ports.map Port.document)) = true := by
  apply Json.isPlain_list
  intro v hv
  obtain ⟨p, _, rfl⟩ := List.mem_map.mp hv
  exact p.isPlain_document

section Targets

attribute [local simp] Value.record Schema.record also textField portsField field Name.find
  Value.lookup strangers stranger Schema.text Schema.bool Seq.seq Check.seq Functor.map Check.map

theorem App.read_document (a : App) : readApp a.document = .pass a := by
  simp [readApp, document]

theorem Job.read_document (j : Job) : readJob j.document = .pass j := by
  simp [readJob, document]

theorem Service.read_document (s : Service) : readService s.document = .pass s := by
  simp [readService, document]

theorem Dns.read_document (d : Dns) : readDns d.document = .pass d := by
  obtain ⟨name, _ | ports, whole⟩ := d
  · simp [readDns, document, portsMember]
  · simp [readDns, document, portsMember, optional_ports]

theorem Ip.read_document (i : Ip) : readIp i.document = .pass i := by
  obtain ⟨address, _ | ports, whole⟩ := i
  · simp [readIp, document, portsMember]
  · simp [readIp, document, portsMember, optional_ports]

theorem Rpaas.read_document (r : Rpaas) : readRpaas r.document = .pass r := by
  simp [readRpaas, document]

end Targets

theorem App.isPlain_document (a : App) : Json.isPlain a.document = true := by
  apply Json.isPlain_record <;> simp

theorem Job.isPlain_document (j : Job) : Json.isPlain j.document = true := by
  apply Json.isPlain_record <;> simp

theorem Service.isPlain_document (s : Service) : Json.isPlain s.document = true := by
  apply Json.isPlain_record <;> simp

theorem Dns.isPlain_document (d : Dns) : Json.isPlain d.document = true := by
  obtain ⟨name, _ | ports, whole⟩ := d
  all_goals apply Json.isPlain_record <;> simp [portsMember, isPlain_ports]

theorem Ip.isPlain_document (i : Ip) : Json.isPlain i.document = true := by
  obtain ⟨address, _ | ports, whole⟩ := i
  all_goals apply Json.isPlain_record <;> simp [portsMember, isPlain_ports]

theorem Rpaas.isPlain_document (r : Rpaas) : Json.isPlain r.document = true := by
  apply Json.isPlain_record <;> simp

theorem plain_of_map {α : Type} {document : α → Value}
    (hplain : ∀ a, Json.isPlain (document a) = true) (hnull : ∀ a, document a ≠ .null)
    {target : Option α} {v : Value} (h : target.map document = some v) :
    Json.isPlain v = true ∧ v ≠ .null := by
  obtain ⟨a, _, rfl⟩ := Option.map_eq_some_iff.mp h
  exact ⟨hplain a, hnull a⟩

/-- The document of every target is plain, and not null. -/
theorem plain_of_target {e : Endpoint} {k : Kind} {v : Value} (h : e.target? k = some v) :
    Json.isPlain v = true ∧ v ≠ .null := by
  cases k with
  | app => exact plain_of_map App.isPlain_document (by rintro _ ⟨⟩) h
  | job => exact plain_of_map Job.isPlain_document (by rintro _ ⟨⟩) h
  | service => exact plain_of_map Service.isPlain_document (by rintro _ ⟨⟩) h
  | dns => exact plain_of_map Dns.isPlain_document (by rintro _ ⟨⟩) h
  | ip => exact plain_of_map Ip.isPlain_document (by rintro _ ⟨⟩) h
  | rpaas => exact plain_of_map Rpaas.isPlain_document (by rintro _ ⟨⟩) h

/-! ## Endpoints -/

/-- The members of an endpoint's document. -/
def members (e : Endpoint) : List (String × Value) :=
  Kind.all.filterMap fun k => (e.target? k).map fun v => (k.name, v)

/-- A member is the target of its kind. -/
theorem mem_members {e : Endpoint} {m : String × Value} (h : m ∈ e.members) :
    ∃ k, m.1 = k.name ∧ e.target? k = some m.2 := by
  obtain ⟨k, _, hk⟩ := List.mem_filterMap.mp h
  obtain ⟨v, hv, rfl⟩ := Option.map_eq_some_iff.mp hk
  exact ⟨k, rfl, hv⟩

theorem mem_all (k : Kind) : k ∈ Kind.all := by
  cases k <;> decide

theorem name_injective {k k' : Kind} (h : k.name = k'.name) : k = k' := by
  have hall : ∀ k ∈ Kind.all, ∀ k' ∈ Kind.all, k.name = k'.name → k = k' := by decide
  exact hall k (mem_all k) k' (mem_all k') h

/-- The members of an endpoint have the names of kinds, each at most once. -/
theorem names_members (e : Endpoint) :
    (e.members.map Prod.fst).Sublist (Kind.all.map Kind.name) := by
  rw [members, List.map_filterMap]
  -- by induction on the kinds: each one is there or left out
  have hnames : ∀ ks : List Kind, (ks.filterMap fun k =>
      Option.map Prod.fst ((e.target? k).map fun v => (k.name, v))).Sublist (ks.map Kind.name) := by
    intro ks
    induction ks with
    | nil => exact .refl _
    | cons k ks ih =>
      cases hk : e.target? k with
      | none => simpa [hk] using ih.cons k.name
      | some v => simpa [hk] using ih.cons_cons k.name
  exact hnames Kind.all

theorem nodup_members (e : Endpoint) : (e.members.map Prod.fst).Nodup :=
  e.names_members.nodup (by decide)

/-- What stands under the name of a kind is its target. -/
theorem lookup_members (e : Endpoint) (k : Kind) :
    Value.lookup (.text k.name) (e.members.map fun (k, v) => (.text k, v)) = e.target? k := by
  cases hk : e.target? k with
  | none =>
    apply lookup_record_none
    intro hmem
    obtain ⟨m, hm, hname⟩ := List.mem_map.mp hmem
    obtain ⟨k', hk', htarget⟩ := mem_members hm
    rw [name_injective (hk'.symm.trans hname), hk] at htarget
    cases htarget
  | some v =>
    have hmem : (k.name, v) ∈ e.members :=
      List.mem_filterMap.mpr ⟨k, mem_all k, by rw [hk]; rfl⟩
    exact lookup_record e.nodup_members hmem

/-- Under the other names of kinds nothing stands. -/
theorem other_not_mem (e : Endpoint) (k : Kind) :
    ∀ o ∈ (kindName k).other, o ∉ e.members.map Prod.fst := by
  have hother : ∀ o ∈ (kindName k).other, o ∉ Kind.all.map Kind.name := by
    cases k <;> decide
  exact fun o ho hmem => hother o ho (e.names_members.subset hmem)

/-- The field of a kind is read back from the members. -/
theorem field_members {e : Endpoint} {k : Kind} {α : Type} {read : Reader α}
    {document : α → Value} (hread : ∀ a, read (document a) = .pass a) {target : Option α}
    (h : e.target? k = target.map document) :
    field (e.members.map fun (k, v) => (.text k, v)) (kindName k) (optional read) none =
      .pass target := by
  have hmain := e.lookup_members k
  rw [h] at hmain
  cases target with
  | none =>
    -- the other name is looked for, too
    have hfind : (kindName k).find (e.members.map fun (k, v) => (.text k, v)) = none := by
      rw [Name.find, show (kindName k).main = k.name from rfl, hmain]
      cases ho : (kindName k).other with
      | none => rfl
      | some o =>
        simp only [Option.map_none, Option.bind_some, lookup_record_none (other_not_mem e k o ho)]
    rw [field, hfind]
  | some a =>
    have hfind : (kindName k).find (e.members.map fun (k, v) => (.text k, v)) =
        some (k.name, document a) := by
      rw [Name.find, show (kindName k).main = k.name from rfl, hmain]
      rfl
    rw [field, hfind]
    simp only [optional_of_ne_null (plain_of_target h).2, hread, Check.map, Check.under_pass]

/-- **An endpoint is read back from its document.** -/
theorem read_document (e : Endpoint) : read e.document = .pass e := by
  have hstrangers : strangers (e.members.map fun (k, v) => (.text k, v))
      (Kind.all.map kindName) = [] := by
    apply strangers_record e.nodup_members
    intro m hm
    obtain ⟨k, hname, _⟩ := mem_members hm
    exact ⟨kindName k, List.mem_map_of_mem (mem_all k), hname.symm⟩
  rw [document, ← members, Value.record, read, record, hstrangers, Check.withIssues_nil,
    field_members App.read_document (e := e) (k := .app) rfl,
    field_members Job.read_document (e := e) (k := .job) rfl,
    field_members Service.read_document (e := e) (k := .service) rfl,
    field_members Dns.read_document (e := e) (k := .dns) rfl,
    field_members Ip.read_document (e := e) (k := .ip) rfl,
    field_members Rpaas.read_document (e := e) (k := .rpaas) rfl]
  rfl

/-- **JSON holds the document of an endpoint as it is.** -/
theorem isPlain_document (e : Endpoint) : Json.isPlain e.document = true := by
  rw [document, ← members]
  apply Json.isPlain_record e.nodup_members
  intro m hm
  obtain ⟨k, _, htarget⟩ := mem_members hm
  exact (plain_of_target htarget).1

end Endpoint

end AccessRules
