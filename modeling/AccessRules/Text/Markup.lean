/-!
# Marked-up text

Text for a terminal carries its styles as tags in square brackets: `[red]no[/red]`.  A bracket that
only looks like the start of a tag is kept as it is by a backslash in front of it, which `escape`
puts there.
-/

namespace AccessRules.Text.Markup

/-- A text in a style. -/
def styled (style text : String) : String :=
  "[" ++ style ++ "]" ++ text ++ "[/" ++ style ++ "]"

/-- A character a tag may start with. -/
def startsTag (c : Char) : Bool := ('a' ≤ c && c ≤ 'z') || c == '#' || c == '/' || c == '@'

/-- Whether a closing bracket comes before any opening one. -/
def closes (cs : List Char) : Bool := (cs.find? fun c => c == '[' || c == ']') == some ']'

/-- Whether what follows an opening bracket makes a tag of it. -/
def opensTag : List Char → Bool
  | [] => false
  | c :: cs => startsTag c && closes cs

/-- The characters with every tag escaped, `pending` backslashes coming before them: these are
doubled in front of a tag, which gets one more. -/
def escapeFrom (pending : Nat) : List Char → List Char
  | [] => List.replicate pending '\\'
  | '\\' :: cs => escapeFrom (pending + 1) cs
  | '[' :: cs =>
    List.replicate (if opensTag cs then 2 * pending + 1 else pending) '\\' ++
      '[' :: escapeFrom 0 cs
  | c :: cs => List.replicate pending '\\' ++ c :: escapeFrom 0 cs

/-- A single backslash at the end would escape the tag that follows, so it is doubled. -/
def closeEnd (cs : List Char) : List Char :=
  match cs.reverse with
  | ['\\'] => ['\\', '\\']
  | '\\' :: c :: _ => if c = '\\' then cs else cs ++ ['\\']
  | _ => cs

/-- A text whose brackets are all shown as they are. -/
def escape (s : String) : String := String.ofList (closeEnd (escapeFrom 0 s.toList))

/-! ## Without styles -/

/-- The characters without tags and escapes; `inTag` says whether they start within a tag, otherwise
`pending` backslashes come before them. -/
def plainFrom (inTag : Bool) (pending : Nat) : List Char → List Char
  | [] => List.replicate pending '\\'
  | c :: cs =>
    if inTag then plainFrom (c != ']') 0 cs
    else if c = '\\' then plainFrom false (pending + 1) cs
    else if c = '[' && opensTag cs then
      List.replicate (pending / 2) '\\' ++
        (if pending % 2 = 1 then c :: plainFrom false 0 cs else plainFrom true 0 cs)
    else List.replicate pending '\\' ++ c :: plainFrom false 0 cs

/-- A marked-up text as it is read where there are no styles. -/
def plain (s : String) : String := String.ofList (plainFrom false 0 s.toList)

end AccessRules.Text.Markup
