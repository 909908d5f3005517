import AccessRules.Schema.Record
import AccessRules.Schema.Scalars
import AccessRules.Text.Quoted

/-!
# Ports

A port is a protocol and a number.  Two lists of ports are equal when they have the same length and
open the same numbers for each known protocol; the letter case of protocols does not matter.
-/

namespace AccessRules

/-- A protocol and a port number. -/
structure Port where
  protocol : String
  number : UInt16
  deriving DecidableEq, Repr

namespace Port

/-- A protocol without regard to the case of its letters. -/
def fold (protocol : String) : String := String.ofList (protocol.toList.map Char.toLower)

/-- The protocols a port may have, in lower case. -/
def protocols : List String := ["tcp", "udp"]

/-- The port as text. -/
def text (p : Port) : String := p.protocol ++ ":" ++ toString p.number.toNat

/-- The numbers a list opens for a protocol, given in lower case. -/
def numbersOf (protocol : String) (ports : List Port) : List UInt16 :=
  (ports.filter fun p => fold p.protocol == protocol).map number

/-- Whether two lists hold the same numbers, in any order and any number of times. -/
def sameNumbers (a b : List UInt16) : Bool :=
  a.all (fun n => b.contains n) && b.all (fun n => a.contains n)

/-- Equality of lists of ports as sets of numbers by protocol. -/
def sameList (left right : List Port) : Bool :=
  left.length == right.length &&
    protocols.all fun proto => sameNumbers (numbersOf proto left) (numbersOf proto right)

/-- The ports as the text of an endpoint shows them: nothing when there are none. -/
def listText (ports : List Port) : String :=
  if ports.isEmpty then ""
  else ", Ports: " ++ ", ".intercalate ((ports.map text).mergeSort fun a b => a ≤ b)

/-- What may be wrong with a port. -/
inductive Flaw where
  | zero
  | protocol (name : String)
  deriving DecidableEq, Repr

def Flaw.reason : Flaw → String
  | .zero => "invalid port number 0"
  | .protocol name => "invalid protocol " ++ Text.quoted name ++ ", valid values are: TCP, UDP"

/-- What is wrong with a port. -/
def flaw? (p : Port) : Option Flaw :=
  if p.number = 0 then some .zero
  else if protocols.contains (fold p.protocol) then none
  else some (.protocol p.protocol)

/-- What is wrong with the first bad port of a list. -/
def firstFlaw? (ports : List Port) : Option Flaw := ports.findSome? flaw?

/-- A port number of a document. -/
def readNumber : Schema.Reader UInt16 := fun v =>
  (Schema.intWithin 0 65535 v).map fun n => .ofNat n.toNat

open Schema in
/-- A port of a document. -/
def read : Reader Port :=
  let protocol := also "Protocol" "protocol"
  let number := also "Port" "port"
  record [protocol, number] fun es =>
    Port.mk <$> field es protocol Schema.text "TCP" <*> field es number readNumber 0

/-- A port as a document. -/
def document (p : Port) : Value :=
  .record [("Protocol", .text p.protocol), ("Port", .int p.number.toNat)]

end Port

end AccessRules
