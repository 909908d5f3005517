import AccessRules.Proofs.Document.SortedText
import AccessRules.Proofs.Endpoint.ReadBack

/-!
# Endpoints told apart by their canonical form

**Program** — `Endpoint.canonical` writes an endpoint as the text under which its resolution is
remembered.

**Spec** — different endpoints have different canonical forms, whatever kinds are set in them and
whatever texts they hold (`canonical_injective`).

**Crux** — the canonical form determines the document up to the order of entries, and that leaves
every member in its place: the target of each kind, and in a target each of its texts, its reach
and its list of ports.
-/

namespace AccessRules

open Json

/-- What documents that agree when sorted have for members agrees when sorted. -/
theorem Value.get?_eq_of_sorted_eq {v w : Value} (hv : isPlain v = true) (hw : isPlain w = true)
    (h : v.sorted = w.sorted) (name : String) :
    (v.get? name).map Value.sorted = (w.get? name).map Value.sorted := by
  rw [← get?_sorted hv, ← get?_sorted hw, h]

section Targets

attribute [local simp] Value.record Value.get? Value.entries? Value.lookup Value.sorted

theorem Port.eq_of_sorted_eq {p q : Port} (h : p.document.sorted = q.document.sorted) : p = q := by
  have hmember := Value.get?_eq_of_sorted_eq p.isPlain_document q.isPlain_document h
  have hprotocol : p.protocol = q.protocol := by
    simpa [document] using hmember "Protocol"
  have hnumber : p.number.toNat = q.number.toNat := by
    simpa [document, Int.ofNat_inj] using hmember "Port"
  obtain ⟨protocol, number⟩ := p
  obtain ⟨protocol', number'⟩ := q
  obtain rfl : protocol = protocol' := hprotocol
  obtain rfl : number = number' := UInt16.toNat_inj.mp hnumber
  rfl

namespace Endpoint

theorem App.eq_of_sorted_eq {a b : App} (h : a.document.sorted = b.document.sorted) : a = b := by
  have hmember := Value.get?_eq_of_sorted_eq a.isPlain_document b.isPlain_document h
  have hname := hmember "AppName"
  have hpool := hmember "PoolName"
  obtain ⟨name, pool⟩ := a
  obtain ⟨name', pool'⟩ := b
  simp [document] at hname hpool
  rw [hname, hpool]

theorem Job.eq_of_sorted_eq {j k : Job} (h : j.document.sorted = k.document.sorted) : j = k := by
  have hname := Value.get?_eq_of_sorted_eq j.isPlain_document k.isPlain_document h "JobName"
  obtain ⟨name⟩ := j
  obtain ⟨name'⟩ := k
  simp [document] at hname
  rw [hname]

theorem Service.eq_of_sorted_eq {s t : Service} (h : s.document.sorted = t.document.sorted) :
    s = t := by
  have hmember := Value.get?_eq_of_sorted_eq s.isPlain_document t.isPlain_document h
  have hspace := hmember "Namespace"
  have hname := hmember "ServiceName"
  have hcluster := hmember "ClusterName"
  obtain ⟨space, name, cluster⟩ := s
  obtain ⟨space', name', cluster'⟩ := t
  simp [document] at hspace hname hcluster
  rw [hspace, hname, hcluster]

/-- Lists of ports that agree when sorted are the same, none and no ports kept apart. -/
theorem ports_eq_of_sorted_eq {ports ports' : Option (List Port)}
    (h : (ports.map fun ps => (Value.list (ps.map Port.document)).sorted) =
      ports'.map fun ps => (Value.list (ps.map Port.document)).sorted) : ports = ports' := by
  refine Option.map_injective (fun ps qs hlists => ?_) h
  simp only [Value.sorted, Value.sortedItems_eq, Value.list.injEq, List.map_map] at hlists
  exact List.map_injective_iff.mpr (fun p q => Port.eq_of_sorted_eq) hlists

/-- A target outside the clusters: where it is, its ports and its reach. -/
def reachDocument (key place : String) (ports : Option (List Port)) (whole : Bool) : Value :=
  .record ([(key, .text place)] ++ portsMember ports ++ [("SyncWholeNetwork", .bool whole)])

theorem reach_eq_of_sorted_eq (key : String) {place place' : String}
    {ports ports' : Option (List Port)} {whole whole' : Bool} (hports : key ≠ "Ports")
    (hwhole : key ≠ "SyncWholeNetwork")
    (hplain : isPlain (reachDocument key place ports whole) = true)
    (hplain' : isPlain (reachDocument key place' ports' whole') = true)
    (h : (reachDocument key place ports whole).sorted =
      (reachDocument key place' ports' whole').sorted) :
    place = place' ∧ ports = ports' ∧ whole = whole' := by
  have hmember := Value.get?_eq_of_sorted_eq hplain hplain' h
  have hplace : ∀ place ports whole,
      (reachDocument key place ports whole).get? key = some (.text place) := by
    intro place ports whole
    simp [reachDocument]
  have hlist : ∀ place ports whole, (reachDocument key place ports whole).get? "Ports" =
      ports.map fun ps => .list (ps.map Port.document) := by
    intro place ports whole
    cases ports <;> simp [reachDocument, portsMember, hports]
  have hreach : ∀ place ports whole,
      (reachDocument key place ports whole).get? "SyncWholeNetwork" = some (.bool whole) := by
    intro place ports whole
    cases ports <;> simp [reachDocument, portsMember, hwhole]
  have hsame := hmember key
  have hsame' := hmember "Ports"
  have hsame'' := hmember "SyncWholeNetwork"
  rw [hplace, hplace] at hsame
  rw [hlist, hlist, Option.map_map, Option.map_map] at hsame'
  rw [hreach, hreach] at hsame''
  simp only [Value.sorted, Option.map_some, Option.some.injEq, Value.scalar.injEq,
    Scalar.text.injEq, Scalar.bool.injEq] at hsame hsame''
  exact ⟨hsame, ports_eq_of_sorted_eq hsame', hsame''⟩

theorem Dns.eq_of_sorted_eq {d f : Dns} (h : d.document.sorted = f.document.sorted) : d = f := by
  obtain ⟨hname, hports, hwhole⟩ := reach_eq_of_sorted_eq "Name" (by decide) (by decide)
    d.isPlain_document f.isPlain_document h
  obtain ⟨name, ports, whole⟩ := d
  obtain ⟨name', ports', whole'⟩ := f
  obtain rfl : name = name' := hname
  obtain rfl : ports = ports' := hports
  obtain rfl : whole = whole' := hwhole
  rfl

theorem Ip.eq_of_sorted_eq {i j : Ip} (h : i.document.sorted = j.document.sorted) : i = j := by
  obtain ⟨haddress, hports, hwhole⟩ := reach_eq_of_sorted_eq "IP" (by decide) (by decide)
    i.isPlain_document j.isPlain_document h
  obtain ⟨address, ports, whole⟩ := i
  obtain ⟨address', ports', whole'⟩ := j
  obtain rfl : address = address' := haddress
  obtain rfl : ports = ports' := hports
  obtain rfl : whole = whole' := hwhole
  rfl

theorem Rpaas.eq_of_sorted_eq {r s : Rpaas} (h : r.document.sorted = s.document.sorted) :
    r = s := by
  have hmember := Value.get?_eq_of_sorted_eq r.isPlain_document s.isPlain_document h
  have hservice := hmember "ServiceName"
  have hinst := hmember "Instance"
  obtain ⟨service, inst⟩ := r
  obtain ⟨service', inst'⟩ := s
  simp [document] at hservice hinst
  rw [hservice, hinst]

end Endpoint

end Targets

namespace Endpoint

/-- Targets that agree when sorted are the same. -/
theorem target_eq_of_sorted_eq {α : Type} {document : α → Value}
    (hdocument : ∀ a b, (document a).sorted = (document b).sorted → a = b)
    {target target' : Option α}
    (h : (target.map document).map Value.sorted = (target'.map document).map Value.sorted) :
    target = target' := by
  rw [Option.map_map, Option.map_map] at h
  exact Option.map_injective hdocument h

/-- **Different endpoints have different canonical forms.** -/
theorem canonical_injective {e e' : Endpoint} (h : e.canonical = e'.canonical) : e = e' := by
  have hsorted := sorted_eq_of_canonical_eq e.isPlain_document e'.isPlain_document h
  have htarget : ∀ k, (e.target? k).map Value.sorted = (e'.target? k).map Value.sorted := by
    intro k
    rw [← e.lookup_members k, ← e'.lookup_members k]
    exact Value.get?_eq_of_sorted_eq e.isPlain_document e'.isPlain_document hsorted k.name
  have happ := target_eq_of_sorted_eq (fun _ _ => App.eq_of_sorted_eq) (htarget .app)
  have hjob := target_eq_of_sorted_eq (fun _ _ => Job.eq_of_sorted_eq) (htarget .job)
  have hservice := target_eq_of_sorted_eq (fun _ _ => Service.eq_of_sorted_eq) (htarget .service)
  have hdns := target_eq_of_sorted_eq (fun _ _ => Dns.eq_of_sorted_eq) (htarget .dns)
  have hip := target_eq_of_sorted_eq (fun _ _ => Ip.eq_of_sorted_eq) (htarget .ip)
  have hrpaas := target_eq_of_sorted_eq (fun _ _ => Rpaas.eq_of_sorted_eq) (htarget .rpaas)
  obtain ⟨app, job, service, dns, ip, rpaas⟩ := e
  obtain ⟨app', job', service', dns', ip', rpaas'⟩ := e'
  obtain rfl : app = app' := happ
  obtain rfl : job = job' := hjob
  obtain rfl : service = service' := hservice
  obtain rfl : dns = dns' := hdns
  obtain rfl : ip = ip' := hip
  obtain rfl : rpaas = rpaas' := hrpaas
  rfl

/-- **Endpoints are told apart by their canonical form**, and by nothing else: it is the same for two
endpoints exactly if they agree in every kind, with the same texts, the same reach and the same ports,
where no list of ports is not the empty one. -/
theorem canonical_eq_iff {e e' : Endpoint} : e.canonical = e'.canonical ↔ e = e' := by
  constructor
  · exact canonical_injective
  · rintro rfl
    rfl

end Endpoint

end AccessRules
