import AccessRules.Calendar.Moment
import AccessRules.Number.Binary64

/-!
# Documents

A document is a tree of scalars, lists and maps, as data formats carry them.  A map keeps its
entries in the order in which their keys first appeared, and a key stands in it once.

`Scalar.same` and `Value.same` say when two documents are equal *by value*: numbers and truth values
are compared as numbers (`1`, `1.0` and `true` agree), maps without regard to the order of their
entries.  This is coarser than equality of the trees.
-/

namespace AccessRules

open Calendar

/-- A document without parts. -/
inductive Scalar where
  | null
  | bool (b : Bool)
  | int (n : Int)
  | float (x : Binary64)
  | text (s : String)
  | bytes (bs : List UInt8)
  | date (d : Date)
  | moment (m : Moment)
  deriving DecidableEq, Repr

/-- A document. -/
inductive Value where
  | scalar (s : Scalar)
  | list (items : List Value)
  | map (entries : List (Scalar × Value))
  deriving Repr

instance : Inhabited Value := ⟨.scalar .null⟩

namespace Scalar

/-- A truth value as the number it equals. -/
def boolInt (b : Bool) : Int := if b then 1 else 0

/-- The integer a scalar is equal to as a number, for integers and truth values. -/
def asInt? : Scalar → Option Int
  | .bool b => some (boolInt b)
  | .int n => some n
  | _ => none

/-- Equality by value: numbers and truth values as numbers, all else as it is.  Not-a-number
equals nothing. -/
def same (a b : Scalar) : Bool :=
  match a.asInt?, b.asInt? with
  | some m, some n => m == n
  | some m, none => match b with | .float y => y.eqInt m | _ => false
  | none, some n => match a with | .float x => x.eqInt n | _ => false
  | none, none =>
    match a, b with
    | .float x, .float y => x.same y
    | a, b => a == b

@[simp] theorem same_text (s t : String) : same (.text s) (.text t) = (s == t) := by
  rw [Bool.eq_iff_iff]
  simp [same, asInt?]

/-- A scalar that counts as nothing: null, false, a zero or an empty text. -/
def isBlank : Scalar → Bool
  | .null => true
  | .bool b => !b
  | .int n => n == 0
  | .float x => x.eqInt 0
  | .text s => s.isEmpty
  | .bytes bs => bs.isEmpty
  | .date _ => false
  | .moment _ => false

end Scalar

namespace Value

@[match_pattern] abbrev null : Value := .scalar .null
@[match_pattern] abbrev bool (b : Bool) : Value := .scalar (.bool b)
@[match_pattern] abbrev int (n : Int) : Value := .scalar (.int n)
@[match_pattern] abbrev float (x : Binary64) : Value := .scalar (.float x)
@[match_pattern] abbrev text (s : String) : Value := .scalar (.text s)

/-- The value under a key, keys being compared by value. -/
def lookup (key : Scalar) : List (Scalar × Value) → Option Value
  | [] => none
  | (k, v) :: rest => if k.same key then some v else lookup key rest

/-- The entries with `key` set to `v`: in place if the key is there, otherwise at the end. -/
def put (key : Scalar) (v : Value) : List (Scalar × Value) → List (Scalar × Value)
  | [] => [(key, v)]
  | (k, w) :: rest => if k.same key then (k, v) :: rest else (k, w) :: put key v rest

/-- The entries without `key`. -/
def erase (key : Scalar) (entries : List (Scalar × Value)) : List (Scalar × Value) :=
  entries.filter fun e => !e.1.same key

/-- A map with text keys. -/
def record (fields : List (String × Value)) : Value :=
  .map (fields.map fun (k, v) => (.text k, v))

/-- The entries of a map. -/
def entries? : Value → Option (List (Scalar × Value))
  | .map es => some es
  | _ => none

/-- The member of a map under a text key. -/
def get? (v : Value) (key : String) : Option Value :=
  v.entries?.bind (lookup (.text key))

/-- A document that counts as nothing: a blank scalar or an empty list or map. -/
def isBlank : Value → Bool
  | .scalar s => s.isBlank
  | .list xs => xs.isEmpty
  | .map es => es.isEmpty

/-- A text, or null when it is absent. -/
def ofText? : Option String → Value
  | some s => .text s
  | none => .null

mutual

/-- Equality of documents by value. -/
def same : Value → Value → Bool
  | .scalar a, .scalar b => a.same b
  | .list xs, .list ys => sameList xs ys
  | .map es, .map fs => es.length == fs.length && sameEntries es fs
  | _, _ => false

/-- Lists are equal item by item. -/
def sameList : List Value → List Value → Bool
  | [], [] => true
  | x :: xs, y :: ys => same x y && sameList xs ys
  | _, _ => false

/-- Every entry of the first map has an equal one in the second. -/
def sameEntries : List (Scalar × Value) → List (Scalar × Value) → Bool
  | [], _ => true
  | (k, v) :: rest, fs =>
    (match lookup k fs with
      | some w => same v w
      | none => false) && sameEntries rest fs

end

@[simp] theorem lookup_put_self (key : Scalar) (v : Value) (es : List (Scalar × Value))
    (h : key.same key = true) : lookup key (put key v es) = some v := by
  induction es with
  | nil => simp [put, lookup, h]
  | cons e es ih =>
    by_cases hk : e.1.same key = true
    · simp [put, lookup, hk]
    · simp [put, lookup, hk, ih]

end Value

end AccessRules
