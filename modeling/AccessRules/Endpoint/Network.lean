import AccessRules.Text.Digits
import AccessRules.Text.Split

/-!
# Networks

Addresses and networks of the two versions of the Internet Protocol, read from text.

An address of version 4 is four decimal numbers below 256 without leading zeros.  One of version 6
is eight groups of up to four hexadecimal digits, one run of zero groups being written as `::`; the
last two groups may be an address of version 4, and a scope may follow after `%`.

The network of an address follows it after a slash: as the number of leading bits that are fixed, or
for version 4 also as the mask of the fixed bits or as that of the free bits.
-/

namespace AccessRules

open Text

/-- An address and how many of its leading bits a network fixes. -/
inductive Network where
  | v4 (address prefixLength : Nat)
  | v6 (address prefixLength : Nat)
  deriving DecidableEq, Repr

namespace Network

/-- One of the four numbers of an address: at most three digits, no leading zero, below 256. -/
def octet? (cs : List Char) : Option Nat :=
  if 3 < cs.length || (1 < cs.length && cs.head? == some '0') then none
  else (value? cs).filter (· < 256)

/-- An address of version 4. -/
def address4? (cs : List Char) : Option Nat :=
  match (split '.' cs).mapM octet? with
  | some [a, b, c, d] => some (((a * 256 + b) * 256 + c) * 256 + d)
  | _ => none

/-- The mask of the first `n` of 32 bits. -/
def netmask (n : Nat) : Nat := Nat.pow 2 32 - Nat.pow 2 (32 - n)

/-- The mask of all but the first `n` of 32 bits. -/
def hostmask (n : Nat) : Nat := Nat.pow 2 (32 - n) - 1

/-- The number of bits a mask fixes; a mask that could be read either way is a mask of fixed
bits. -/
def maskLength? (mask : Nat) : Option Nat :=
  match (List.range 33).find? fun n => netmask n == mask with
  | some n => some n
  | none => (List.range 33).find? fun n => hostmask n == mask

/-- The most digits a number of bits may be written with. -/
def maxLengthDigits : Nat := 4300

/-- A number of bits, at most `most`. -/
def lengthText? (most : Nat) (cs : List Char) : Option Nat :=
  if maxLengthDigits < cs.length then none else (value? cs).filter (· ≤ most)

/-- What follows the slash of a network of version 4. -/
def length4? (cs : List Char) : Option Nat :=
  match lengthText? 32 cs with
  | some n => some n
  | none => (address4? cs).bind maskLength?

/-- One group of an address of version 6. -/
def group? (cs : List Char) : Option Nat :=
  if cs.isEmpty || 4 < cs.length then none
  else (cs.mapM hexValue?).map (List.foldl (fun acc d => acc * 16 + d) 0)

/-- The groups of a piece of an address between colons: one, or two if it is an address of
version 4 at the end. -/
def groups? (last : Bool) (cs : List Char) : Option (List Nat) :=
  if last && cs.contains '.' then
    (address4? cs).map fun a => [a / 65536, a % 65536]
  else (group? cs).map fun g => [g]

/-- The groups of all pieces; `last` says whether the address ends with them. -/
def allGroups? (last : Bool) : List (List Char) → Option (List Nat)
  | [] => some []
  | [piece] => groups? last piece
  | piece :: rest => do
    let gs ← groups? false piece
    let more ← allGroups? last rest
    some (gs ++ more)

/-- Groups as one number. -/
def joinGroups (gs : List Nat) : Nat := gs.foldl (fun acc g => acc * 65536 + g) 0

/-- The groups on one side of a `::`: none when nothing stands there. -/
def sideGroups? (last : Bool) : List (List Char) → Option (List Nat)
  | [] => some []
  | [[]] => some []
  | pieces => allGroups? last pieces

/-- The pieces of an address with `::` in it, before and after it.  The first and the last piece may
be empty only at a `::` at the very start or end. -/
def splitAtGap? (pieces : List (List Char)) : Option (List (List Char) × List (List Char)) :=
  match pieces with
  | [] => none
  | first :: rest =>
    match rest.findIdx? (·.isEmpty) with
    | none => none
    | some i =>
      if i + 1 < rest.length then some (first :: rest.take i, rest.drop (i + 1)) else none

/-- An address of version 6 without scope. -/
def unscoped6? (cs : List Char) : Option Nat :=
  let pieces := split ':' cs
  match splitAtGap? pieces with
  | some (before, after) => do
    let hi ← sideGroups? false before
    let lo ← sideGroups? true after
    if hi.length + lo.length < 8 then
      some (joinGroups (hi ++ List.replicate (8 - (hi.length + lo.length)) 0 ++ lo))
    else none
  | none => do
    let gs ← allGroups? true pieces
    if gs.length = 8 then some (joinGroups gs) else none

/-- An address of version 6, with a scope or without. -/
def address6? (cs : List Char) : Option Nat :=
  match cut '%' cs with
  | (address, none) => unscoped6? address
  | (address, some scope) =>
    if scope.isEmpty || scope.contains '%' then none else unscoped6? address

/-- A network, or an address as the network of itself alone. -/
def ofChars? (cs : List Char) : Option Network :=
  let parse (address? length? : List Char → Option Nat) (all : Nat)
      (mk : Nat → Nat → Network) : Option Network :=
    match split '/' cs with
    | [address] => (address? address).map fun a => mk a all
    | [address, length] => do
      let a ← address? address
      let n ← length? length
      some (mk a n)
    | _ => none
  match parse address4? length4? 32 v4 with
  | some n => some n
  | none => parse address6? (lengthText? 128) 128 v6

/-- A text that names no network is completed by the length of a single address. -/
def complete (s : String) : String :=
  if s.toList.contains '/' then s
  else if s.toList.contains ':' then s ++ "/128"
  else if s.toList.contains '.' then s ++ "/32"
  else s

/-- The network a text names, once completed. -/
def ofText? (s : String) : Option Network := ofChars? (complete s).toList

/-- Whether the network is one of version 6. -/
def isV6 : Network → Bool
  | .v4 .. => false
  | .v6 .. => true

/-- How many leading bits the network fixes. -/
def prefixLength : Network → Nat
  | .v4 _ n => n
  | .v6 _ n => n

/-- How many addresses the network has. -/
def size : Network → Nat
  | .v4 _ n => Nat.pow 2 (32 - n)
  | .v6 _ n => Nat.pow 2 (128 - n)

example : ofText? "10.0.0.0/255.255.252.0" = some (.v4 0x0a000000 22) := by decide +kernel
example : ofText? "10.0.0.0/0.0.3.255" = some (.v4 0x0a000000 22) := by decide +kernel
example : (ofText? "fe80::1%eth0").map prefixLength = some 128 := by decide +kernel
example : ofText? "1.2.3.4" = some (.v4 0x01020304 32) := by decide +kernel
example : ofText? "01.2.3.4" = none := by decide +kernel

end Network

end AccessRules
