import Mathlib.Data.List.Perm.Basic
import AccessRules.Endpoint.Port

/-!
# Lists of ports as sets

**Program** — `Port.sameList` compares two lists of ports by their lengths and, for each known
protocol, by the set of numbers opened for it.  A number that stands twice is in such a set once, and
a port of an unknown protocol is in neither.

**Spec** — this is an equivalence of lists that sees neither their order nor the letter case of
protocols.  A list that holds only good ports, and none of them twice, equals another exactly if that
holds the same ports in some order, the letter case left aside (`sameList_compares_sets`).

**Crux** — what is compared is the length and which keys of known protocols stand in the list, a key
being a port without its spelling (`sameList_iff`).  Where all protocols are known and no key stands
twice, the keys of one list are contained in those of the other, and as many; so they are all of them
(`perm_map_key`), and nothing has to be counted for each protocol.
-/

namespace AccessRules.Port

/-! ## What is compared -/

/-- A port without regard to the letter case of its protocol. -/
def key (p : Port) : String × UInt16 := (fold p.protocol, p.number)

/-- The numbers of a protocol are the keys that have it. -/
theorem mem_numbersOf {protocol : String} {n : UInt16} {ports : List Port} :
    n ∈ numbersOf protocol ports ↔ (protocol, n) ∈ ports.map key := by
  simp only [numbersOf, List.mem_map, List.mem_filter, beq_iff_eq, key, Prod.mk.injEq]
  constructor
  · rintro ⟨p, ⟨hp, hprotocol⟩, hn⟩
    exact ⟨p, hp, hprotocol, hn⟩
  · rintro ⟨p, hp, hprotocol, hn⟩
    exact ⟨p, ⟨hp, hprotocol⟩, hn⟩

theorem sameNumbers_iff {a b : List UInt16} : sameNumbers a b = true ↔ ∀ n, n ∈ a ↔ n ∈ b := by
  simp only [sameNumbers, Bool.and_eq_true, List.all_eq_true, List.contains_iff_mem]
  constructor
  · rintro ⟨hab, hba⟩ n
    exact ⟨hab n, hba n⟩
  · intro h
    exact ⟨fun n hn => (h n).mp hn, fun n hn => (h n).mpr hn⟩

/-- Two lists hold the same keys of known protocols. -/
def SameKeys (left right : List Port) : Prop :=
  ∀ k, k.1 ∈ protocols → (k ∈ left.map key ↔ k ∈ right.map key)

/-- **Lists are equal by their lengths and their keys of known protocols.** -/
theorem sameList_iff {left right : List Port} :
    sameList left right = true ↔ left.length = right.length ∧ SameKeys left right := by
  simp only [sameList, Bool.and_eq_true, beq_iff_eq, List.all_eq_true, sameNumbers_iff,
    mem_numbersOf]
  refine and_congr_right fun _ => ?_
  constructor
  · intro h k hk
    exact h k.1 hk k.2
  · intro h protocol hprotocol n
    exact h (protocol, n) hprotocol

theorem sameList_equivalence : Equivalence fun left right => sameList left right = true where
  refl left := sameList_iff.mpr ⟨rfl, fun _ _ => Iff.rfl⟩
  symm h := by
    obtain ⟨hlength, hkeys⟩ := sameList_iff.mp h
    exact sameList_iff.mpr ⟨hlength.symm, fun k hk => (hkeys k hk).symm⟩
  trans h h' := by
    obtain ⟨hlength, hkeys⟩ := sameList_iff.mp h
    obtain ⟨hlength', hkeys'⟩ := sameList_iff.mp h'
    exact sameList_iff.mpr
      ⟨hlength.trans hlength', fun k hk => (hkeys k hk).trans (hkeys' k hk)⟩

/-- Equal lists compare alike. -/
theorem sameList_congr {left left' right right' : List Port} (hleft : sameList left left' = true)
    (hright : sameList right right' = true) : sameList left right = sameList left' right' := by
  have hsymm {a b : List Port} : sameList a b = true → sameList b a = true :=
    sameList_equivalence.symm
  have htrans {a b d : List Port} : sameList a b = true → sameList b d = true →
      sameList a d = true := sameList_equivalence.trans
  rw [Bool.eq_iff_iff]
  constructor
  · intro h
    exact htrans (hsymm hleft) (htrans h hright)
  · intro h
    exact htrans hleft (htrans h (hsymm hright))

/-! ## Order and spelling -/

/-- Two ports that differ in the letter case of the protocol only.  `fold` knows the cases of ASCII
letters, and no known protocol can be written with others; so if a protocol has letters beyond them,
it is not known in any case, and nothing more is asked. -/
structure Alike (p q : Port) : Prop where
  number : p.number = q.number
  protocol : fold p.protocol ∈ protocols ∨ fold q.protocol ∈ protocols →
    fold p.protocol = fold q.protocol

/-- Ports that are alike have the same key, if it is one of a known protocol. -/
theorem Alike.key_eq_iff {p q : Port} (h : Alike p q) {k : String × UInt16}
    (hk : k.1 ∈ protocols) : k = key p ↔ k = key q := by
  constructor
  · rintro rfl
    exact Prod.ext (h.protocol (.inl hk)) h.number
  · rintro rfl
    exact Prod.ext (h.protocol (.inr hk)).symm h.number.symm

/-- A list with its protocols in other letter cases and its ports in another order. -/
def Rearranged (left right : List Port) : Prop :=
  ∃ recased, List.Forall₂ Alike left recased ∧ recased.Perm right

/-- In other letter cases a list has the same keys of known protocols. -/
theorem sameKeys_of_alike {left right : List Port} (h : List.Forall₂ Alike left right) :
    SameKeys left right := by
  intro k hk
  induction h with
  | nil => exact Iff.rfl
  | cons halike _ ih =>
    rw [List.map_cons, List.map_cons, List.mem_cons, List.mem_cons, halike.key_eq_iff hk, ih]

/-- **A list is equal to what it is rearranged to.** -/
theorem sameList_of_rearranged {left right : List Port} (h : Rearranged left right) :
    sameList left right = true := by
  obtain ⟨recased, halike, hperm⟩ := h
  refine sameList_iff.mpr ⟨halike.length_eq.trans hperm.length_eq, fun k hk => ?_⟩
  exact (sameKeys_of_alike halike k hk).trans (hperm.map key).mem_iff

/-! ## Good ports -/

/-- The protocols of good ports are known. -/
theorem fold_mem_protocols {ports : List Port} (h : firstFlaw? ports = none) :
    ∀ p ∈ ports, fold p.protocol ∈ protocols := by
  intro p hp
  have hflaw : flaw? p = none := List.findSome?_eq_none_iff.mp h p hp
  rw [flaw?] at hflaw
  split at hflaw
  · cases hflaw
  · split at hflaw
    · next hknown => exact List.contains_iff_mem.mp hknown
    · cases hflaw

/-- **Of good ports without repetition all keys are found again**: they are contained in the keys of
an equal list, which has no more. -/
theorem perm_map_key {left right : List Port} (hgood : firstFlaw? left = none)
    (hnodup : (left.map key).Nodup) (h : sameList left right = true) :
    (left.map key).Perm (right.map key) := by
  obtain ⟨hlength, hkeys⟩ := sameList_iff.mp h
  have hsub : left.map key ⊆ right.map key := by
    intro k hk
    obtain ⟨p, hp, rfl⟩ := List.mem_map.mp hk
    exact (hkeys _ (fold_mem_protocols hgood p hp)).mp hk
  refine (List.subperm_of_subset hnodup hsub).perm_of_length_le ?_
  rw [List.length_map, List.length_map]
  exact Nat.le_of_eq hlength.symm

/-- Lists with the same keys in some order are equal. -/
theorem sameList_of_perm {left right : List Port} (h : (left.map key).Perm (right.map key)) :
    sameList left right = true := by
  have hlength : left.length = right.length := by
    simpa only [List.length_map] using h.length_eq
  exact sameList_iff.mpr ⟨hlength, fun k _ => h.mem_iff⟩

/-- **Lists of ports compare as sets.**  Their equality is reflexive, symmetric and transitive, and it
stays what it is if either list is put in another order or its protocols in other letter cases.  A
list that has passed the check of ports and holds none of them twice, the letter case left aside,
equals another exactly if that is a permutation of it, the letter case left aside. -/
theorem sameList_compares_sets :
    Equivalence (fun left right => sameList left right = true) ∧
    (∀ left left' right right', Rearranged left left' → Rearranged right right' →
      sameList left right = sameList left' right') ∧
    (∀ left right, firstFlaw? left = none → (left.map key).Nodup →
      (sameList left right = true ↔ (left.map key).Perm (right.map key))) := by
  refine ⟨sameList_equivalence, ?_, ?_⟩
  · intro left left' right right' hleft hright
    exact sameList_congr (sameList_of_rearranged hleft) (sameList_of_rearranged hright)
  · intro left right hgood hnodup
    constructor
    · exact perm_map_key hgood hnodup
    · exact sameList_of_perm

/-- Three good ports. -/
def threePorts : List Port := [⟨"tcp", 80⟩, ⟨"UDP", 53⟩, ⟨"Tcp", 443⟩]

/-- The same ports in another order and in other letter cases. -/
def threePorts' : List Port := [⟨"udp", 53⟩, ⟨"TCP", 443⟩, ⟨"TCP", 80⟩]

/-- Both compare alike with themselves, and since they are equal, the ones are a permutation of the
others; a list with a port twice in the place of another is none, so it is not equal. -/
theorem sameList_compares_sets_threePorts :
    Rearranged threePorts threePorts' ∧
      sameList threePorts threePorts = sameList threePorts' threePorts' ∧
      firstFlaw? threePorts = none ∧ (threePorts.map key).Nodup ∧
      (threePorts.map key).Perm (threePorts'.map key) ∧
      sameList threePorts [⟨"udp", 53⟩, ⟨"TCP", 80⟩, ⟨"tcp", 80⟩] = false := by
  have hrearranged : Rearranged threePorts threePorts' := by
    refine ⟨[⟨"TCP", 80⟩, ⟨"udp", 53⟩, ⟨"TCP", 443⟩], ?_, by decide +kernel⟩
    exact .cons ⟨rfl, by decide +kernel⟩
      (.cons ⟨rfl, by decide +kernel⟩ (.cons ⟨rfl, by decide +kernel⟩ .nil))
  have hgood : firstFlaw? threePorts = none := by decide +kernel
  have hnodup : (threePorts.map key).Nodup := by decide +kernel
  obtain ⟨-, hsame, hperm⟩ := sameList_compares_sets
  refine ⟨hrearranged, hsame _ _ _ _ hrearranged hrearranged, hgood, hnodup, ?_, ?_⟩
  · exact (hperm _ _ hgood hnodup).mp (by decide +kernel)
  · rw [Bool.eq_false_iff, ne_eq, hperm _ _ hgood hnodup]
    decide +kernel

/-- With repetitions lists may be equal without being permutations of each other. -/
example : sameList [⟨"tcp", 80⟩, ⟨"tcp", 80⟩, ⟨"tcp", 443⟩]
    [⟨"tcp", 80⟩, ⟨"tcp", 443⟩, ⟨"tcp", 443⟩] = true := by decide +kernel

end AccessRules.Port
