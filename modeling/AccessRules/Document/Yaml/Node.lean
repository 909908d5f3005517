import AccessRules.Document.Yaml.Lexer

/-!
# Nodes of a YAML text

A node is a scalar, a list or a map with the tag that says how to take it.  Nodes are read from
tokens with one token of lookahead; a name given to a node stands for it in the rest of the text.
Where a node is missing between the marks of its collection, an empty plain scalar stands for it.
-/

namespace AccessRules.Yaml

/-- How a node is to be taken: by its form, like a plain scalar, or by a tag. -/
inductive Taking where
  | byForm
  | asPlain
  | tagged (tag : String)
  deriving DecidableEq, Repr

inductive Node where
  | scalar (taking : Taking) (text : String)
  | list (taking : Taking) (items : List Node)
  | map (taking : Taking) (entries : List (Node × Node))
  deriving Repr

instance : Inhabited Node := ⟨.scalar .asPlain ""⟩

/-- The scalar that stands for a missing node. -/
def Node.missing : Node := .scalar .asPlain ""

/-- What is left to read, the nodes with names and the handles of tags. -/
structure NodeReader where
  tokens : List Token
  anchors : List (String × Node)
  handles : List (String × String)

namespace NodeReader

abbrev Read (α : Type) := StateT NodeReader (Except Fault) α

/-- The handles every document has. -/
def standardHandles : List (String × String) := [("!", "!"), ("!!", "tag:yaml.org,2002:")]

def peek? : Read (Option Token) := do return (← get).tokens.head?

def advance : Read Unit := modify fun s => { s with tokens := s.tokens.tail }

/-- Fails at the next token. -/
def unexpected {α : Type} : Read α := do
  match ← peek? with
  | some (.broken fault) => throw fault
  | _ => throw .malformed

/-- Whether the next token is one of these. -/
def next (choices : List Token) : Read Bool := do
  return (← peek?).any choices.contains

/-- Reads over a token if it is the next. -/
def accept (t : Token) : Read Bool := do
  if ← next [t] then
    advance
    return true
  else return false

/-- Reads over a token that has to be the next. -/
def expect (t : Token) : Read Unit := do
  unless ← accept t do unexpected

/-- A name for the node that follows, if there is one. -/
def anchor? : Read (Option String) := do
  match ← peek? with
  | some (.anchor name) => do
    advance
    return some name
  | _ => return none

/-- A tag for the node that follows, if there is one. -/
def tag? : Read (Option Tag) := do
  match ← peek? with
  | some (.tag t) => do
    advance
    return some t
  | _ => return none

/-- A name and a tag in either order. -/
def properties : Read (Option String × Option Tag) := do
  match ← anchor? with
  | some name => return (some name, ← tag?)
  | none =>
    match ← tag? with
    | some t => return (← anchor?, some t)
    | none => return (none, none)

/-- A tag in full. -/
def resolve (t : Tag) : Read String := do
  match t.handle with
  | none => return t.suffix
  | some handle =>
    match (← get).handles.lookup handle with
    | some start => return start ++ t.suffix
    | none => throw .malformed

/-- How a collection or a missing node with a tag is to be taken. -/
def takingOf (tag : Option String) : Taking :=
  match tag with
  | none => .byForm
  | some "!" => .byForm
  | some t => .tagged t

/-- How a scalar is to be taken. -/
def scalarTaking (tag : Option String) (plain : Bool) : Taking :=
  match tag with
  | none => if plain then .asPlain else .byForm
  | some "!" => .asPlain
  | some t => .tagged t

/-- Gives a node its name, which stands for it from here on. -/
def name (anchor : Option String) (n : Node) : Read Node := do
  if let some a := anchor then
    modify fun s => { s with anchors := (a, n) :: s.anchors }
  return n

/-- Fails if a name is already in use. -/
def checkName (anchor : Option String) : Read Unit := do
  if let some a := anchor then
    if ((← get).anchors.lookup a).isSome then throw .malformed

mutual

/-- A node.  Outside flow collections it may be a block, and as a part of a map also a list that is
not indented. -/
def node : Nat → Bool → Bool → Read Node
  | 0, _, _ => unexpected
  | fuel + 1, block, unindented => do
    match ← peek? with
    | some (.alias a) =>
      match (← get).anchors.lookup a with
      | some n => do
        advance
        return n
      | none => throw .malformed
    | _ =>
      let (anchor, tag) ← properties
      let tag ← tag.mapM resolve
      checkName anchor
      let collect (empty : Node) (rest : Read Node) : Read Node := do
        let _ ← name anchor empty
        name anchor (← rest)
      let taking := takingOf tag
      let listOf (items : Read (List Node)) : Read Node :=
        collect (.list taking []) do return .list taking (← items)
      let mapOf (entries : Read (List (Node × Node))) : Read Node :=
        collect (.map taking []) do return .map taking (← entries)
      match ← peek? with
      | some .item =>
        if unindented then listOf (unindentedItems fuel)
        else if anchor.isSome || tag.isSome then name anchor (.scalar (scalarTaking tag true) "")
        else unexpected
      | some (.scalar text plain) => do
        advance
        name anchor (.scalar (scalarTaking tag plain) text)
      | some .listStart => do
        advance
        listOf (flowItems fuel true)
      | some .mapStart => do
        advance
        mapOf (flowEntries fuel true)
      | some .blockListStart =>
        if block then do
          advance
          listOf (blockItems fuel)
        else if anchor.isSome || tag.isSome then name anchor (.scalar (scalarTaking tag true) "")
        else unexpected
      | some .blockMapStart =>
        if block then do
          advance
          mapOf (blockEntries fuel)
        else if anchor.isSome || tag.isSome then name anchor (.scalar (scalarTaking tag true) "")
        else unexpected
      | _ =>
        if anchor.isSome || tag.isSome then name anchor (.scalar (scalarTaking tag true) "")
        else unexpected

/-- A node, unless one of these tokens is next, before which it is missing. -/
def nodeBefore (fuel : Nat) (stops : List Token) (block unindented : Bool) : Read Node := do
  match fuel with
  | 0 => unexpected
  | fuel + 1 =>
    if ← next stops then return .missing
    else node fuel block unindented

/-- The items of a list in a block, up to its end. -/
def blockItems : Nat → Read (List Node)
  | 0 => unexpected
  | fuel + 1 => do
    if ← accept .item then
      let n ← nodeBefore fuel [.item, .blockEnd] true false
      return n :: (← blockItems fuel)
    else
      expect .blockEnd
      return []

/-- The items of a list that is not indented. -/
def unindentedItems : Nat → Read (List Node)
  | 0 => unexpected
  | fuel + 1 => do
    if ← accept .item then
      let n ← nodeBefore fuel [.item, .key, .value, .blockEnd] true false
      return n :: (← unindentedItems fuel)
    else return []

/-- The entries of a map in a block, up to its end. -/
def blockEntries : Nat → Read (List (Node × Node))
  | 0 => unexpected
  | fuel + 1 => do
    if ← accept .key then
      let stops := [Token.key, .value, .blockEnd]
      let k ← nodeBefore fuel stops true true
      let v ← if ← accept .value then nodeBefore fuel stops true true else pure .missing
      return (k, v) :: (← blockEntries fuel)
    else
      expect .blockEnd
      return []

/-- The items of a list in brackets, up to its end.  An item may be a key and its value, which are
a map of their own. -/
def flowItems : Nat → Bool → Read (List Node)
  | 0, _ => unexpected
  | fuel + 1, first => do
    if ← accept .listEnd then return []
    else
      unless first do expect .comma
      if ← accept .key then
        let k ← nodeBefore fuel [.value, .comma, .listEnd] false false
        let v ← if ← accept .value then nodeBefore fuel [.comma, .listEnd] false false
          else pure .missing
        return .map .byForm [(k, v)] :: (← flowItems fuel false)
      else if ← accept .listEnd then return []
      else
        let n ← node fuel false false
        return n :: (← flowItems fuel false)

/-- The entries of a map in braces, up to its end. -/
def flowEntries : Nat → Bool → Read (List (Node × Node))
  | 0, _ => unexpected
  | fuel + 1, first => do
    if ← accept .mapEnd then return []
    else
      unless first do expect .comma
      if ← accept .key then
        let k ← nodeBefore fuel [.value, .comma, .mapEnd] false false
        let v ← if ← accept .value then nodeBefore fuel [.comma, .mapEnd] false false
          else pure .missing
        return (k, v) :: (← flowEntries fuel false)
      else if ← accept .mapEnd then return []
      else
        let k ← node fuel false false
        return (k, .missing) :: (← flowEntries fuel false)

end

/-- The directives before a document. -/
def directives : List Token → Bool → Read Unit
  | .version major :: rest, versioned => do
    if versioned || major ≠ 1 then throw .malformed
    advance
    directives rest true
  | .tagHandle handle start :: rest, versioned => do
    if ((← get).handles.lookup handle).isSome then throw .malformed
    advance
    modify fun s => { s with handles := (handle, start) :: s.handles }
    directives rest versioned
  | .otherDirective :: rest, versioned => do
    advance
    directives rest versioned
  | _, _ => return

/-- Reads over any marks of the end of a document. -/
def skipEnds : List Token → Read Unit
  | .documentEnd :: rest => do
    advance
    skipEnds rest
  | _ => return

/-- The only document of a text, if it has one. -/
def document : Read (Option Node) := do
  let fuel := 4 * (← get).tokens.length + 8
  match ← peek? with
  | some .textEnd => return none
  | first =>
    let explicit := match first with
      | some (.version _) | some (.tagHandle ..) | some .otherDirective | some .documentStart => true
      | _ => false
    let n ← if explicit then do
        directives (← get).tokens false
        modify fun s => { s with handles := s.handles ++ standardHandles }
        expect .documentStart
        match ← peek? with
        | some (.version _) | some (.tagHandle ..) | some .otherDirective | some .documentStart
        | some .documentEnd | some .textEnd => pure Node.missing
        | _ => node fuel true false
      else do
        modify fun s => { s with handles := standardHandles }
        node fuel true false
    skipEnds (← get).tokens
    expect .textEnd
    return some n

end NodeReader

/-- The node of a text; `none` when the text holds nothing. -/
def Node.ofText? (s : String) : Except Fault (Option Node) :=
  (NodeReader.document.run ⟨Token.ofText s, [], []⟩).map Prod.fst

end AccessRules.Yaml
