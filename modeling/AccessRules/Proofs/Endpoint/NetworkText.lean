import AccessRules.Endpoint.Network
import AccessRules.Proofs.Fallible
import AccessRules.Proofs.Text.Numerals
import AccessRules.Proofs.Text.Splitting

/-!
# What texts name a network of version 4

**Program** — `Network.ofText?` completes a text and takes it apart; `address4?`, `length4?` and
`maskLength?` read the pieces.

**Spec** — a number of 32 bits has one dotted form (`dotted`), and that a network fixes `n` bits is
written as the number `n`, as the mask of the fixed bits or as the mask of the free ones
(`WritesLength`).  A text names a network of version 4 if it is the dotted form of an address, alone
or with such a length behind a slash (`Names`), and exactly those texts are read
(`ofText?_eq_v4_iff`).

**Crux** — a dotted form has points but neither slashes nor colons, so no text is taken apart in two
ways, no mask is also a number, and a text of version 6 is never one of version 4.

  1. the dotted form of an address;
  2. the three spellings of a length;
  3. networks, with a length and without;
  4. addresses of version 6.
-/

namespace AccessRules.Network

open Text

/-! ## Addresses -/

/-- The four bytes of an address, the highest first. -/
def octets (a : Nat) : List Nat := [a / 16777216, a / 65536 % 256, a / 256 % 256, a % 256]

/-- An address as the decimal numbers of its four bytes, with points between them. -/
def dotted (a : Nat) : List Char := ['.'].intercalate ((octets a).map (Nat.toDigits 10))

theorem dotted_eq (a : Nat) : dotted a =
    Nat.toDigits 10 (a / 16777216) ++ '.' :: (Nat.toDigits 10 (a / 65536 % 256) ++
      '.' :: (Nat.toDigits 10 (a / 256 % 256) ++ '.' :: Nat.toDigits 10 (a % 256))) := by
  simp [dotted, octets, List.intercalate]

theorem not_mem_dotted {c : Char} (hc : isDigit c = false) (hpoint : c ≠ '.') (a : Nat) :
    c ∉ dotted a := by
  simp [dotted_eq, not_mem_toDigits hc, hpoint]

theorem point_mem_dotted (a : Nat) : '.' ∈ dotted a := by
  simp [dotted_eq]

theorem octet?_toDigits {n : Nat} (hn : n < 256) : octet? (Nat.toDigits 10 n) = some n := by
  have hall : ∀ n < 256, octet? (Nat.toDigits 10 n) = some n := by decide +kernel
  exact hall n hn

/-- A byte is read from its numeral and from nothing else. -/
theorem octet?_eq_some_iff {cs : List Char} {n : Nat} :
    octet? cs = some n ↔ n < 256 ∧ cs = Nat.toDigits 10 n := by
  constructor
  · intro h
    unfold octet? at h
    split at h
    · cases h
    · next hshape =>
      obtain ⟨hvalue, hn⟩ := Option.filter_eq_some_iff.mp h
      obtain ⟨k, rfl⟩ := value?_eq_some_iff.mp hvalue
      refine ⟨of_decide_eq_true hn, ?_⟩
      cases k with
      | zero => rfl
      | succ k =>
        -- a zero before the numeral would be one in front of other digits
        have hpos := List.length_pos_iff.mpr (Nat.toDigits_ne_nil (b := 10) (n := n))
        refine absurd ?_ hshape
        simp [List.replicate_succ]
        omega
  · rintro ⟨hn, rfl⟩
    exact octet?_toDigits hn

/-- Four numbers below 256 are the bytes of one number of 32 bits. -/
theorem octets_eq_iff {a b c d n : Nat} :
    n < 4294967296 ∧ octets n = [a, b, c, d] ↔
      (a < 256 ∧ b < 256 ∧ c < 256 ∧ d < 256) ∧ n = ((a * 256 + b) * 256 + c) * 256 + d := by
  simp only [octets, List.cons.injEq, and_true]
  omega

/-- The pieces of a text are numerals of bytes exactly if these are joined by points in it. -/
theorem mapM_octet?_split {cs : List Char} {bytes : List Nat} :
    (split '.' cs).mapM octet? = some bytes ↔
      bytes ≠ [] ∧ (∀ b ∈ bytes, b < 256) ∧
        cs = ['.'].intercalate (bytes.map (Nat.toDigits 10)) := by
  rw [mapM_eq_some_iff fun _ _ => octet?_eq_some_iff, split_eq_iff]
  have hpoints : ∀ piece ∈ bytes.map (Nat.toDigits 10), '.' ∉ piece := by
    rintro piece hpiece
    obtain ⟨b, -, rfl⟩ := List.mem_map.mp hpiece
    exact not_mem_toDigits (by decide) b
  constructor
  · rintro ⟨hbytes, hne, -, hcs⟩
    exact ⟨fun hnil => hne (by rw [hnil]; rfl), hbytes, hcs⟩
  · rintro ⟨hne, hbytes, hcs⟩
    exact ⟨hbytes, by simpa using hne, hpoints, hcs⟩

/-- **An address is read from its dotted form** and from nothing else. -/
theorem address4?_eq_some_iff {cs : List Char} {a : Nat} :
    address4? cs = some a ↔ a < 4294967296 ∧ cs = dotted a := by
  constructor
  · intro h
    unfold address4? at h
    split at h
    · next b₁ b₂ b₃ b₄ hread =>
      obtain ⟨-, hbytes, rfl⟩ := mapM_octet?_split.mp hread
      obtain ⟨ha, hoctets⟩ := octets_eq_iff.mpr ⟨by simpa using hbytes, (Option.some.inj h).symm⟩
      exact ⟨ha, by rw [dotted, hoctets]⟩
    · cases h
  · rintro ⟨ha, rfl⟩
    obtain ⟨hbytes, hvalue⟩ := octets_eq_iff.mp ⟨ha, rfl⟩
    have hread : (split '.' (dotted a)).mapM octet? = some (octets a) :=
      mapM_octet?_split.mpr ⟨by simp [octets], by simpa [octets] using hbytes, rfl⟩
    rw [address4?, hread]
    exact congrArg some hvalue.symm

/-! ## Lengths -/

/-- The ways to write that a network fixes so many of 32 bits: their number, perhaps with zeros in
front, the mask of the fixed bits or the mask of the free bits. -/
inductive WritesLength : Nat → List Char → Prop
  | number (zeros : Nat) {n : Nat} (hn : n ≤ 32)
      (hshort : zeros + (Nat.toDigits 10 n).length ≤ maxLengthDigits) :
      WritesLength n (List.replicate zeros '0' ++ Nat.toDigits 10 n)
  | fixedBits {n : Nat} (hn : n ≤ 32) : WritesLength n (dotted (netmask n))
  | freeBits {n : Nat} (hpos : 1 ≤ n) (hn : n ≤ 31) : WritesLength n (dotted (hostmask n))

theorem lengthText?_eq_some_iff {cs : List Char} {most n : Nat} :
    lengthText? most cs = some n ↔ n ≤ most ∧ ∃ zeros,
      zeros + (Nat.toDigits 10 n).length ≤ maxLengthDigits ∧
        cs = List.replicate zeros '0' ++ Nat.toDigits 10 n := by
  simp only [lengthText?, Option.ite_none_left_eq_some, Nat.not_lt, Option.filter_eq_some_iff,
    value?_eq_some_iff, decide_eq_true_eq]
  constructor
  · rintro ⟨hshort, ⟨zeros, rfl⟩, hn⟩
    exact ⟨hn, zeros, by simpa using hshort, rfl⟩
  · rintro ⟨hn, zeros, hshort, rfl⟩
    exact ⟨by simpa using hshort, ⟨zeros, rfl⟩, hn⟩

/-- No two lengths have the same mask. -/
theorem netmask_inj : ∀ m < 33, ∀ n < 33, netmask m = netmask n → m = n := by decide +kernel

theorem hostmask_inj : ∀ m < 33, ∀ n < 33, hostmask m = hostmask n → m = n := by decide +kernel

/-- Only the mask without bits and the mask of all bits could be read either way. -/
theorem netmask_ne_hostmask : ∀ m < 33, ∀ n < 32, 1 ≤ n → netmask m ≠ hostmask n := by
  decide +kernel

/-- **A mask is read as the length it was made from**, first of all as a mask of fixed bits. -/
theorem maskLength?_eq_some_iff {mask n : Nat} :
    maskLength? mask = some n ↔
      (n ≤ 32 ∧ mask = netmask n) ∨ (1 ≤ n ∧ n ≤ 31 ∧ mask = hostmask n) := by
  unfold maskLength?
  split
  · next m hfound =>
    obtain ⟨hmask, hm, -⟩ := List.find?_range_eq_some.mp hfound
    obtain rfl : netmask m = mask := beq_iff_eq.mp hmask
    have hm : m < 33 := List.mem_range.mp hm
    rw [Option.some.injEq]
    constructor
    · rintro rfl
      exact .inl ⟨by omega, rfl⟩
    · rintro (⟨hn, heq⟩ | ⟨hpos, hn, heq⟩)
      · exact netmask_inj m hm n (by omega) heq
      · exact absurd heq (netmask_ne_hostmask m hm n (by omega) hpos)
  · next hnone =>
    have hnot : ∀ m < 33, netmask m ≠ mask := by
      simpa using List.find?_range_eq_none.mp hnone
    rw [List.find?_range_eq_some]
    constructor
    · rintro ⟨hmask, hn, -⟩
      obtain rfl : hostmask n = mask := beq_iff_eq.mp hmask
      have hn : n < 33 := List.mem_range.mp hn
      have hzero : n ≠ 0 := by
        rintro rfl
        exact hnot 32 (by decide) (by decide)
      have hfull : n ≠ 32 := by
        rintro rfl
        exact hnot 0 (by decide) (by decide)
      exact .inr ⟨by omega, by omega, rfl⟩
    · rintro (⟨hn, rfl⟩ | ⟨hpos, hn, rfl⟩)
      · exact absurd rfl (hnot n (by omega))
      · refine ⟨beq_self_eq_true _, List.mem_range.mpr (by omega), fun m hm => ?_⟩
        rw [Bool.not_eq_true', beq_eq_false_iff_ne]
        intro heq
        have hsame := hostmask_inj m (by omega) n (by omega) heq
        omega

/-- A number of bits is written with digits alone. -/
theorem not_mem_number {c : Char} (hc : isDigit c = false) (zeros n : Nat) :
    c ∉ List.replicate zeros '0' ++ Nat.toDigits 10 n := by
  have hzero : c ≠ '0' := by
    rintro rfl
    exact absurd hc (by decide)
  simp [List.mem_replicate, hzero, not_mem_toDigits hc]

/-- A length is written with digits and points. -/
theorem WritesLength.not_mem {n : Nat} {cs : List Char} (h : WritesLength n cs) {c : Char}
    (hc : isDigit c = false) (hpoint : c ≠ '.') : c ∉ cs := by
  cases h with
  | number zeros hn hshort => exact not_mem_number hc zeros n
  | fixedBits hn => exact not_mem_dotted hc hpoint _
  | freeBits hpos hn => exact not_mem_dotted hc hpoint _

/-- No dotted form is a number. -/
theorem lengthText?_dotted (most a : Nat) : lengthText? most (dotted a) = none := by
  rw [Option.eq_none_iff_forall_ne_some]
  intro n hread
  obtain ⟨-, zeros, -, hcs⟩ := lengthText?_eq_some_iff.mp hread
  exact not_mem_number (by decide) zeros n (hcs ▸ point_mem_dotted a)

theorem netmask_lt (n : Nat) : netmask n < 4294967296 :=
  Nat.sub_lt (by decide) (Nat.pow_pos (by decide))

theorem hostmask_lt (n : Nat) : hostmask n < 4294967296 := by
  have hle : 2 ^ (32 - n) ≤ 2 ^ 32 := Nat.pow_le_pow_right (by decide) (Nat.sub_le ..)
  have hpos : 0 < 2 ^ (32 - n) := Nat.pow_pos (by decide)
  have heq : hostmask n = 2 ^ (32 - n) - 1 := rfl
  omega

theorem WritesLength.le {n : Nat} {cs : List Char} (h : WritesLength n cs) : n ≤ 32 := by
  rcases h with ⟨-, hn, -⟩ | ⟨hn⟩ | ⟨-, hn⟩
  · exact hn
  · exact hn
  · omega

/-- A number of bits is written by its numeral. -/
theorem WritesLength.numeral {n : Nat} (hn : n ≤ 32) : WritesLength n (Nat.toDigits 10 n) := by
  have hall : ∀ n ≤ 32, 0 + (Nat.toDigits 10 n).length ≤ maxLengthDigits := by decide +kernel
  exact WritesLength.number 0 hn (hall n hn)

/-- A length is a number or the dotted form of a mask. -/
theorem writesLength_iff {n : Nat} {cs : List Char} :
    WritesLength n cs ↔
      lengthText? 32 cs = some n ∨ (address4? cs).bind maskLength? = some n := by
  simp only [lengthText?_eq_some_iff, Option.bind_eq_some_iff, address4?_eq_some_iff,
    maskLength?_eq_some_iff]
  constructor
  · rintro (⟨zeros, hn, hshort⟩ | ⟨hn⟩ | ⟨hpos, hn⟩)
    · exact .inl ⟨hn, zeros, hshort, rfl⟩
    · exact .inr ⟨_, ⟨netmask_lt n, rfl⟩, .inl ⟨hn, rfl⟩⟩
    · exact .inr ⟨_, ⟨hostmask_lt n, rfl⟩, .inr ⟨hpos, hn, rfl⟩⟩
  · rintro (⟨hn, zeros, hshort, rfl⟩ | ⟨_, ⟨-, rfl⟩, ⟨hn, rfl⟩ | ⟨hpos, hn, rfl⟩⟩)
    · exact .number zeros hn hshort
    · exact .fixedBits hn
    · exact .freeBits hpos hn

/-- **A length is read from its three spellings** and from nothing else. -/
theorem length4?_eq_some_iff {cs : List Char} {n : Nat} :
    length4? cs = some n ↔ WritesLength n cs := by
  rw [writesLength_iff, length4?]
  cases hnumber : lengthText? 32 cs with
  | none => simp
  | some m =>
    have hmask : (address4? cs).bind maskLength? = none := by
      cases hread : address4? cs with
      | none => rfl
      | some a =>
        obtain ⟨-, rfl⟩ := address4?_eq_some_iff.mp hread
        rw [lengthText?_dotted] at hnumber
        cases hnumber
    simp [hmask]

/-! ## Networks -/

/-- The texts of networks of version 4 and of how many bits they fix: the dotted form of an address,
alone for all of its bits or with a length behind a slash. -/
inductive Names : Nat → Nat → List Char → Prop
  | alone {a : Nat} (ha : a < 4294967296) : Names a 32 (dotted a)
  | within {a n : Nat} {length : List Char} (ha : a < 4294967296) (hn : WritesLength n length) :
      Names a n (dotted a ++ '/' :: length)

/-- A text of a network is taken apart at its slash, if it has one. -/
theorem names_iff {a n : Nat} {cs : List Char} :
    Names a n cs ↔
      (∃ address, split '/' cs = [address] ∧ address4? address = some a ∧ n = 32) ∨
        ∃ address length, split '/' cs = [address, length] ∧ address4? address = some a ∧
          length4? length = some n := by
  simp only [address4?_eq_some_iff, length4?_eq_some_iff]
  have haddress (a : Nat) : '/' ∉ dotted a := not_mem_dotted (by decide) (by decide) a
  constructor
  · rintro (ha | ⟨ha, hn⟩)
    · exact .inl ⟨_, split_of_not_mem (haddress a), ⟨ha, rfl⟩, rfl⟩
    · have hlength := hn.not_mem (c := '/') (by decide) (by decide)
      exact .inr ⟨_, _, split_pair (haddress a) hlength, ⟨ha, rfl⟩, hn⟩
  · rintro (⟨_, hsplit, ⟨ha, rfl⟩, rfl⟩ | ⟨_, length, hsplit, ⟨ha, rfl⟩, hn⟩)
    · obtain ⟨-, -, rfl⟩ := split_eq_iff.mp hsplit
      simpa [List.intercalate] using Names.alone ha
    · obtain ⟨-, -, rfl⟩ := split_eq_iff.mp hsplit
      simpa [List.intercalate] using Names.within ha hn

/-- A network of version 4 is read from its texts and from nothing else. -/
theorem ofChars?_eq_v4_iff {a n : Nat} {cs : List Char} :
    ofChars? cs = some (.v4 a n) ↔ Names a n cs := by
  rw [names_iff, ofChars?]
  match split '/' cs with
  | [] => simp
  | [address] =>
    cases hread : address4? address <;> simp [hread, eq_comm (a := n)]
  | [address, length] =>
    cases hread : address4? address <;> cases hlength : length4? length <;>
      simp [hread, hlength, and_assoc, Option.bind_eq_some_iff]
  | address :: length :: more :: rest => simp

theorem Names.le {a n : Nat} {cs : List Char} (h : Names a n cs) : n ≤ 32 := by
  rcases h with ha | ⟨ha, hn⟩
  · exact Nat.le_refl _
  · exact hn.le

/-- A text of a network is written with digits, points and a slash. -/
theorem Names.not_mem {a n : Nat} {cs : List Char} (h : Names a n cs) {c : Char}
    (hc : isDigit c = false) (hpoint : c ≠ '.') (hslash : c ≠ '/') : c ∉ cs := by
  rcases h with ha | ⟨ha, hn⟩
  · exact not_mem_dotted hc hpoint a
  · simp [not_mem_dotted hc hpoint, hn.not_mem hc hpoint, hslash]

theorem Names.point_mem {a n : Nat} {cs : List Char} (h : Names a n cs) : '.' ∈ cs := by
  rcases h with ha | ⟨ha, hn⟩
  · exact point_mem_dotted a
  · exact List.mem_append_left _ (point_mem_dotted a)

/-- Behind a text without a slash, the length of a single address changes nothing. -/
theorem names_append_full {a n : Nat} {cs : List Char} (hcs : '/' ∉ cs) :
    Names a n (cs ++ "/32".toList) ↔ Names a n cs := by
  have hfull : "/32".toList = '/' :: ['3', '2'] := rfl
  have hlength : length4? ['3', '2'] = some 32 := by decide +kernel
  rw [hfull, names_iff, names_iff, split_pair hcs (by decide), split_of_not_mem hcs]
  simp [hlength, and_assoc, eq_comm (a := n)]

/-- **A text, once completed, is read as a network of version 4** exactly if it is one. -/
theorem ofText?_eq_v4_iff {a n : Nat} {s : String} :
    ofText? s = some (.v4 a n) ↔ Names a n s.toList := by
  rw [ofText?, ofChars?_eq_v4_iff, complete]
  simp only [List.contains_iff_mem]
  split
  · rfl
  · next hslash =>
    split
    · next hcolon =>
      have hnot {cs : List Char} (hmem : ':' ∈ cs) : ¬ Names a n cs :=
        fun h => h.not_mem (by decide) (by decide) (by decide) hmem
      rw [String.toList_append]
      exact iff_of_false (hnot (List.mem_append_left _ hcolon)) (hnot hcolon)
    · split
      · rw [String.toList_append]
        exact names_append_full hslash
      · rfl

/-! ## Version 6 -/

/-- A single piece is no address of eight groups. -/
theorem unscoped6?_of_not_mem {cs : List Char} (hcs : ':' ∉ cs) : unscoped6? cs = none := by
  have hfew (gs : List Nat) (hread : groups? true cs = some gs) : gs.length ≠ 8 := by
    unfold groups? at hread
    split at hread <;>
      obtain ⟨_, -, rfl⟩ := Option.map_eq_some_iff.mp hread <;> simp
  rw [unscoped6?, split_of_not_mem hcs]
  cases hread : groups? true cs with
  | none => simp [splitAtGap?, allGroups?, hread]
  | some gs => simp [splitAtGap?, allGroups?, hread, hfew gs hread]

/-- An address of version 6 has a colon. -/
theorem colon_mem_of_address6? {cs : List Char} (h : address6? cs ≠ none) : ':' ∈ cs := by
  have hbefore : ':' ∈ (cut '%' cs).1 := by
    refine Decidable.byContradiction fun hnot => h ?_
    rw [address6?]
    split
    · next address hcut =>
      rw [hcut] at hnot
      exact unscoped6?_of_not_mem hnot
    · next address scope hcut =>
      rw [hcut] at hnot
      simp [unscoped6?_of_not_mem hnot]
  exact mem_of_mem_cut hbefore

end AccessRules.Network
