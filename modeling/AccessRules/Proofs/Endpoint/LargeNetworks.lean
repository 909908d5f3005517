import AccessRules.Proofs.Endpoint.NetworkText
import AccessRules.Proofs.Endpoint.Validity

/-!
# Large networks need ports

**Program** — `Endpoint.flaw?` of an endpoint that is a network and nothing else.

**Spec** — without ports a text is accepted exactly if it names a network of at most 1024 addresses,
with good ports exactly if it names any, in whatever way its length is written; nothing of version 6
is accepted (`ofIp_acceptsBySize`).

**Crux** — which texts name a network is said without the reader (`Network.ofText?_eq_v4_iff`), and
of such a text no more is looked at than how many bits its network fixes (`Ip.flaw?_of_names`).
-/

namespace AccessRules.Endpoint

open Network

/-- The endpoint that is a network and nothing else. -/
def ofIp (ip : Ip) : Endpoint := { empty with ip := some ip }

/-- A network is looked at first, its ports after it. -/
theorem flaw?_ofIp (ip : Ip) : (ofIp ip).flaw? =
    ip.flaw?.or ((Port.firstFlaw? (ip.ports.getD [])).map Flaw.port) := by
  have hcount : (ofIp ip).kindCount = 1 := rfl
  rw [flaw?, hcount]
  simp [ofIp, empty, ports]

/-- **A network that is accepted** is of version 4, and it is small or restricted to ports, all of
them good. -/
theorem isValid_ofIp_iff {ip : Ip} : (ofIp ip).isValid = true ↔
    (∃ a n, Names a n ip.address.toList ∧ (leastPrefix ≤ n ∨ ip.ports.getD [] ≠ [])) ∧
      Port.firstFlaw? (ip.ports.getD []) = none := by
  rw [isValid, Option.isNone_iff_eq_none, flaw?_ofIp, Option.or_eq_none_iff,
    Option.map_eq_none_iff, Ip.flaw?_eq_none]
  simp only [ofText?_eq_v4_iff]

/-- **The flaw of a network depends on no more of its text** than how many bits it fixes. -/
theorem Ip.flaw?_of_names {text : String} {a n : Nat} (h : Names a n text.toList)
    (ports : Option (List Port)) (whole : Bool) : Ip.flaw? ⟨text, ports, whole⟩ =
      if n < leastPrefix ∧ ports.getD [] = [] then some .ipTooLarge else none := by
  have hne : text ≠ "" := by
    rintro rfl
    exact absurd h.point_mem List.not_mem_nil
  by_cases hn : n < leastPrefix <;>
    simp [flaw?, hne, ofText?_eq_v4_iff.mpr h, isV6, prefixLength, hn]

/-- Texts of networks that fix equally many bits have the same flaw. -/
theorem flaw?_ofIp_congr {text text' : String} {a a' n : Nat} (h : Names a n text.toList)
    (h' : Names a' n text'.toList) (ports : Option (List Port)) (whole : Bool) :
    (ofIp ⟨text, ports, whole⟩).flaw? = (ofIp ⟨text', ports, whole⟩).flaw? := by
  rw [flaw?_ofIp, flaw?_ofIp, Ip.flaw?_of_names h, Ip.flaw?_of_names h']

/-- What fixes at least 22 of 32 bits has at most 1024 addresses. -/
theorem size_le_iff (a : Nat) {n : Nat} (hn : n ≤ 32) : (v4 a n).size ≤ 1024 ↔ 22 ≤ n := by
  have hall : ∀ n ≤ 32, Nat.pow 2 (32 - n) ≤ 1024 ↔ 22 ≤ n := by decide +kernel
  exact hall n hn

/-- An endpoint that is a network and nothing else is accepted for its size and its ports alone. -/
structure AcceptsBySize (ports : Option (List Port)) (whole : Bool) : Prop where
  /-- Without ports, exactly the texts of networks of at most 1024 addresses are accepted. -/
  small : ports.getD [] = [] → ∀ text, (ofIp ⟨text, ports, whole⟩).isValid = true ↔
    ∃ a n, Names a n text.toList ∧ (v4 a n).size ≤ 1024
  /-- These are the networks that fix at least 22 bits. -/
  least : ∀ a n text, Names a n text → ((v4 a n).size ≤ 1024 ↔ 22 ≤ n)
  /-- With ports, all of them good, every network is accepted. -/
  restricted : ports.getD [] ≠ [] → Port.firstFlaw? (ports.getD []) = none →
    ∀ a n text, Names a n text.toList → (ofIp ⟨text, ports, whole⟩).isValid = true
  /-- The mask of the fixed bits has the flaw that their number has, or like it none. -/
  fixedBits : ∀ a n, a < 4294967296 → n ≤ 32 →
    (ofIp ⟨String.ofList (dotted a ++ '/' :: dotted (netmask n)), ports, whole⟩).flaw? =
      (ofIp ⟨String.ofList (dotted a ++ '/' :: Nat.toDigits 10 n), ports, whole⟩).flaw?
  /-- So has the mask of the free bits, if there are any of both. -/
  freeBits : ∀ a n, a < 4294967296 → 1 ≤ n → n ≤ 31 →
    (ofIp ⟨String.ofList (dotted a ++ '/' :: dotted (hostmask n)), ports, whole⟩).flaw? =
      (ofIp ⟨String.ofList (dotted a ++ '/' :: Nat.toDigits 10 n), ports, whole⟩).flaw?
  /-- An address alone is the network of all its bits. -/
  single : ∀ a, a < 4294967296 → (ofIp ⟨String.ofList (dotted a), ports, whole⟩).flaw? =
    (ofIp ⟨String.ofList (dotted a ++ '/' :: Nat.toDigits 10 32), ports, whole⟩).flaw?
  /-- No text with a colon is accepted. -/
  colon : ∀ text : String, ':' ∈ text.toList → (ofIp ⟨text, ports, whole⟩).isValid = false
  /-- No address of version 6 is accepted, whatever follows it. -/
  version6 : ∀ address rest, address6? address ≠ none →
    (ofIp ⟨String.ofList (address ++ rest), ports, whole⟩).isValid = false

/-- No text with a colon is accepted, since none names a network of version 4. -/
theorem isValid_ofIp_of_colon {ip : Ip} (h : ':' ∈ ip.address.toList) :
    (ofIp ip).isValid = false := by
  rw [Bool.eq_false_iff, ne_eq, isValid_ofIp_iff]
  rintro ⟨⟨a, n, hnames, -⟩, -⟩
  exact hnames.not_mem (by decide) (by decide) (by decide) h

/-- **Endpoints that are networks are accepted by size**, whichever ports they are restricted to. -/
theorem ofIp_acceptsBySize (ports : Option (List Port)) (whole : Bool) :
    AcceptsBySize ports whole := by
  have spelled {a n : Nat} {length : List Char} (ha : a < 4294967296) (h : WritesLength n length) :
      (ofIp ⟨String.ofList (dotted a ++ '/' :: length), ports, whole⟩).flaw? =
        (ofIp ⟨String.ofList (dotted a ++ '/' :: Nat.toDigits 10 n), ports, whole⟩).flaw? :=
    flaw?_ofIp_congr (by simpa using Names.within ha h)
      (by simpa using Names.within ha (.numeral h.le)) ports whole
  have least (a n : Nat) (text : List Char) (h : Names a n text) :
      (v4 a n).size ≤ 1024 ↔ 22 ≤ n := size_le_iff a h.le
  exact {
    small := by
      intro hports text
      simp only [isValid_ofIp_iff, hports, ne_eq, not_true_eq_false, or_false]
      constructor
      · rintro ⟨⟨a, n, hnames, hn⟩, -⟩
        exact ⟨a, n, hnames, (least a n _ hnames).mpr hn⟩
      · rintro ⟨a, n, hnames, hsize⟩
        exact ⟨⟨a, n, hnames, (least a n _ hnames).mp hsize⟩, rfl⟩
    least := least
    restricted := by
      intro hports hgood a n text hnames
      exact isValid_ofIp_iff.mpr ⟨⟨a, n, hnames, .inr hports⟩, hgood⟩
    fixedBits := fun a n ha hn => spelled ha (.fixedBits hn)
    freeBits := fun a n ha hpos hn => spelled ha (.freeBits hpos hn)
    single := fun a ha => flaw?_ofIp_congr (by simpa using Names.alone ha)
      (by simpa using Names.within ha (.numeral (Nat.le_refl 32))) ports whole
    colon := fun text h => isValid_ofIp_of_colon h
    version6 := by
      intro address rest h
      refine isValid_ofIp_of_colon ?_
      simpa using Or.inl (colon_mem_of_address6? h) }

/-- Half a network of 2048 addresses is accepted under the mask of its free bits, the whole is
accepted only if it is restricted to a port, and a network of version 6 is not accepted. -/
theorem ofIp_acceptsBySize_halves :
    (ofIp ⟨"10.0.0.0/0.0.3.255", none, false⟩).isValid = true ∧
      (ofIp ⟨"10.0.0.0/0.0.7.255", none, false⟩).flaw? = some .ipTooLarge ∧
      (ofIp ⟨"10.0.0.0/0.0.7.255", some [⟨"tcp", 443⟩], false⟩).isValid = true ∧
      (ofIp ⟨"2001:db8::/126", some [⟨"tcp", 443⟩], false⟩).isValid = false := by
  have hsmall : Names 0x0a000000 22 "10.0.0.0/0.0.3.255".toList :=
    ofText?_eq_v4_iff.mp (by decide +kernel)
  have hlarge : Names 0x0a000000 21 "10.0.0.0/0.0.7.255".toList :=
    ofText?_eq_v4_iff.mp (by decide +kernel)
  have hports := ofIp_acceptsBySize (some [⟨"tcp", 443⟩]) false
  refine ⟨?_, ?_, ?_, ?_⟩
  · exact ((ofIp_acceptsBySize none false).small rfl _).mpr ⟨_, _, hsmall, by decide⟩
  · exact ((ofIp_acceptsBySize none false).freeBits 0x0a000000 21 (by decide) (by decide)
      (by decide)).trans (by decide +kernel)
  · exact hports.restricted (by simp) (by decide +kernel) _ _ _ hlarge
  · exact hports.version6 "2001:db8::".toList "/126".toList (by decide +kernel)

end AccessRules.Endpoint
