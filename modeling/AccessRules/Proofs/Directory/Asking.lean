import AccessRules.Proofs.Directory.Topic

/-!
# What the directory can be asked for

**Program** — `Connection.request` makes the request for a path: it reads the address of the
directory, looks at the token, and puts the path below the address.

**Spec** — over the address of a web server there is a request for a path exactly if the token is
ASCII, no character of the path is a control character, and nothing gets too long
(`Connection.isOk_request_iff`).

**Crux** — an address below another one is read from its parts once more.  Of the path only its first
character matters there, and that is the one the path of the other address starts with
(`Address.isOk_ofParts`); so if anything lies below an address, everything does that is short enough.
-/

namespace AccessRules

open Text

/-! ## Addresses below an address -/

namespace Http.Address

/-- What a path without an authority asks for. -/
def relativeTarget (path : String) : List Char :=
  let (path, query) := cut '?' (cut '#' path.toList).1
  escape safeInPath path ++ (match query with
    | some query => '?' :: escape safeInQuery query
    | none => [])

/-- The path and the query that a path is asked for with, below an address. -/
def partsBelow (base : Address) (path : String) : List (List Char) :=
  let (path, query) := cut '?' (base.target ++ (relativeTarget path).dropWhile (· == '/'))
  [path, query.getD []]

/-- A path from the root: a slash, and then something other than a slash. -/
def IsRooted (path : String) : Prop := ∃ c cs, path.toList = '/' :: c :: cs ∧ c ≠ '/'

theorem textFlaw?_eq_none {cs : List Char} :
    textFlaw? cs = none ↔ cs.length ≤ maxLength ∧ ∀ c ∈ cs, isControl c = false := by
  rw [textFlaw?]
  split
  · next hlong => simp [Nat.not_le.mpr hlong]
  · next hshort =>
    rw [and_iff_right (Nat.le_of_not_lt hshort)]
    cases hfind : cs.findIdx? isControl with
    | none => simpa using List.findIdx?_eq_none_iff.mp hfind
    | some i =>
      obtain ⟨hi, hcontrol, _⟩ := List.findIdx?_eq_some_iff_getElem.mp hfind
      simp only [reduceCtorEq, false_iff]
      exact fun hall => by simp [hall _ (List.getElem_mem hi)] at hcontrol

/-- The first piece of a text begins as the text does, unless it is empty. -/
theorem head?_cut (sep : Char) (cs : List Char) :
    (cut sep cs).1.head? = cs.head?.filter (· != sep) := by
  cases cs with
  | nil => rfl
  | cons c cs => by_cases h : c = sep <;> simp [cut, h, Option.filter_some]

/-- A path alone is an address without anything else. -/
theorem ofParts_bare {path : List Char} (h : pathFlaw? false false path = none)
    (query fragment : Option (List Char)) :
    ofParts [] [] path query fragment = .ok ⟨[], [], [], none, escape safeInPath path,
      query.map (escape safeInQuery), fragment.map (escape safeInFragment)⟩ := by
  have huser : takeUser [] = ([], []) := rfl
  have hhost : takeHost [] = ([], []) := rfl
  have hnormal : normalHost [] = .ok [] := rfl
  have hnumber : normalNumber [] [] = .ok none := rfl
  have hescape : escape safeInUser [] = [] := rfl
  simp only [ofParts, huser, hhost, hnormal, hnumber, hescape, bind, Except.bind, List.isEmpty_nil,
    List.map_nil, Bool.not_true, Option.isSome_none, Bool.or_self, Bool.false_eq_true, if_false, h]

/-- A rooted path is read as an address without an authority. -/
theorem parse_of_isRooted {path : String} (h : IsRooted path)
    (hflaw : textFlaw? path.toList = none) :
    ∃ relative, parse path = .ok relative ∧ relative.target = relativeTarget path := by
  obtain ⟨c, cs, hpath, hc⟩ := h
  have hscheme : takeScheme ('/' :: c :: cs) = ([], '/' :: c :: cs) := rfl
  have hauthority : takeAuthority ('/' :: c :: cs) = ([], '/' :: c :: cs) := by
    rw [takeAuthority]
    rintro rest ⟨⟩
    exact hc rfl
  -- the path keeps the slash, and what follows it is no slash
  obtain ⟨rest, hrest, hhead⟩ : ∃ rest, (cut '?' (cut '#' ('/' :: c :: cs)).1).1 = '/' :: rest ∧
      rest.head? ≠ some '/' := by
    refine ⟨(cut '?' (cut '#' (c :: cs)).1).1, by simp [cut], ?_⟩
    rw [head?_cut, head?_cut]
    simp [Option.filter_eq_some_iff, hc]
  have hnoflaw : pathFlaw? false false ('/' :: rest) = none := by
    cases rest with
    | nil => rfl
    | cons d rest =>
      have hd : d ≠ '/' := fun h => hhead (by simp [h])
      simp [pathFlaw?, hd]
  rw [hpath] at hflaw
  have hparse : parse path = .ok ⟨[], [], [], none, escape safeInPath ('/' :: rest),
      (cut '?' (cut '#' ('/' :: c :: cs)).1).2.map (escape safeInQuery),
      (cut '#' ('/' :: c :: cs)).2.map (escape safeInFragment)⟩ := by
    simp only [parse, hpath, hflaw, hscheme, hauthority, hrest]
    exact ofParts_bare hnoflaw _ _
  refine ⟨_, hparse, ?_⟩
  have hslash : escape safeInPath ('/' :: rest) = '/' :: escape safeInPath rest := rfl
  simp only [target, relativeTarget, hpath, hrest, hslash, List.isEmpty_cons, Bool.false_eq_true,
    if_false]
  cases (cut '?' (cut '#' ('/' :: c :: cs)).1).2 <;> rfl

/-! ## Reading an address once more -/

theorem longPart?_eq_none {parts : List (String × List Char)} :
    longPart? parts = none ↔ ∀ part ∈ parts, part.2.length ≤ maxLength := by
  simp [longPart?]

/-- After a scheme only the start of a path decides whether it may stand there. -/
theorem pathFlaw?_congr {path path' : List Char} (h : path.head? = path'.head?)
    (hasAuthority : Bool) :
    pathFlaw? true hasAuthority path = pathFlaw? true hasAuthority path' := by
  have hempty : path.isEmpty = path'.isEmpty := by
    cases path <;> cases path' <;> first | rfl | cases h
  rw [pathFlaw?, pathFlaw?, h, hempty]
  rfl

/-- **Of the path, only its start decides whether there is an address of some parts.** -/
theorem isOk_ofParts {scheme path path' : List Char} (hscheme : scheme ≠ [])
    (h : path.head? = path'.head?) (authority : List Char)
    (query query' fragment : Option (List Char)) :
    (ofParts scheme authority path query fragment).isOk =
      (ofParts scheme authority path' query' fragment).isOk := by
  have hempty : (!scheme.isEmpty) = true := by simp [hscheme]
  simp only [ofParts, hempty, pathFlaw?_congr h]
  cases normalHost (takeHost (takeUser authority).2).1 with
  | error flaw => rfl
  | ok host =>
    simp only [bind, Except.bind]
    split
    · rfl
    · split <;> rfl

/-- An address with another target is made of its parts, unless one of them is too long. -/
theorem isOk_withTarget {a : Address} {target : List Char} :
    (a.withTarget target).isOk = true ↔
      (∀ part ∈ [a.scheme, a.authority, (cut '?' target).1, (cut '?' target).2.getD [],
        a.fragment.getD []], part.length ≤ maxLength) ∧
      (ofParts a.scheme a.authority (cut '?' target).1 (cut '?' target).2 a.fragment).isOk =
        true := by
  rw [withTarget]
  obtain ⟨path, query⟩ := cut '?' target
  have hlengths : longPart? [("scheme", a.scheme), ("authority", a.authority), ("path", path),
      ("query", query.getD []), ("fragment", a.fragment.getD [])] = none ↔
      ∀ part ∈ [a.scheme, a.authority, path, query.getD [], a.fragment.getD []],
        part.length ≤ maxLength := by
    rw [longPart?_eq_none]
    simp
  rw [← hlengths]
  dsimp only
  split
  · next flaw hlong => simp [hlong, Except.isOk, Except.toBool]
  · next hlong => simp [hlong]

theorem target_ne_nil (a : Address) : a.target ≠ [] := by
  rw [target]
  split
  · exact List.cons_ne_nil _ _
  · next hpath =>
    intro h
    rw [(List.append_eq_nil_iff.mp h).1] at hpath
    exact hpath rfl

/-- **Where something lies below an address, all does that is short enough.** -/
theorem isOk_withTarget_append {a : Address} (hscheme : a.scheme ≠ [])
    (hbase : (a.withTarget a.target).isOk = true) (more : List Char) :
    (a.withTarget (a.target ++ more)).isOk = true ↔
      ∀ part ∈ [(cut '?' (a.target ++ more)).1, (cut '?' (a.target ++ more)).2.getD []],
        part.length ≤ maxLength := by
  obtain ⟨hshort, hparts⟩ := isOk_withTarget.mp hbase
  have hhead : (cut '?' a.target).1.head? = (cut '?' (a.target ++ more)).1.head? := by
    rw [head?_cut, head?_cut, List.head?_append,
      Option.or_of_isSome (List.isSome_head?.mpr a.target_ne_nil)]
  rw [isOk_ofParts hscheme hhead _ _ (cut '?' (a.target ++ more)).2] at hparts
  rw [isOk_withTarget, and_iff_left hparts]
  simp only [List.forall_mem_cons] at hshort ⊢
  simp [hshort]

/-- **When there is an address for a path below another one.** -/
theorem isOk_below_iff {base : Address} (hscheme : base.scheme ≠ [])
    (hbase : (base.withTarget base.target).isOk = true) {path : String} (hpath : IsRooted path) :
    (base.below path).isOk = true ↔ textFlaw? path.toList = none ∧
      ∀ part ∈ base.partsBelow path, part.length ≤ maxLength := by
  cases hflaw : textFlaw? path.toList with
  | some flaw =>
    have hparse : parse path = .error flaw := by simp only [parse, hflaw]
    rw [below, hparse]
    simp [bind, Except.bind, Except.isOk, Except.toBool]
  | none =>
    obtain ⟨relative, hparse, htarget⟩ := parse_of_isRooted hpath hflaw
    rw [below, hparse, and_iff_right rfl]
    show (base.withTarget (base.target ++ relative.target.dropWhile (· == '/'))).isOk = true ↔ _
    rw [isOk_withTarget_append hscheme hbase, htarget]
    rfl

end Http.Address

/-! ## Requests -/

namespace Directory

open Http Http.Address

/-- The directory is a web server, whose address can be read once more from its parts. -/
structure Connection.IsAt (c : Connection) (address : Address) : Prop where
  base : (Address.parse c.base).bind Address.asBase = .ok address
  web : address.scheme = "http".toList ∨ address.scheme = "https".toList
  host : address.host ≠ []
  again : (address.withTarget address.target).isOk = true

/-- A path that can be asked for: the token can be sent, no character of the path is a control
character, and nothing is too long for an address. -/
structure Connection.CanAsk (c : Connection) (address : Address) (path : String) : Prop where
  token : ∀ ch ∈ c.token.toList, ch.toNat < 0x80
  printable : ∀ ch ∈ path.toList, isControl ch = false
  length : path.toList.length ≤ maxLength
  parts : ∀ part ∈ address.partsBelow path, part.length ≤ maxLength

/-- Who asks can be said if the token is ASCII. -/
theorem Connection.authorization_filter_eq_none {c : Connection} :
    (c.authorization.filter fun s => !s.toList.all fun ch => ch.toNat < 0x80) = none ↔
      ∀ ch ∈ c.token.toList, ch.toNat < 0x80 := by
  rw [authorization]
  split
  · next hempty => simp [String.isEmpty_iff.mp hempty]
  · have hall : ("Bearer ".toList.all fun ch => ch.toNat < 0x80) = true := by decide
    have hword : ∀ ch ∈ "Bearer ".toList, ch.toNat < 0x80 := fun ch hch =>
      of_decide_eq_true (List.all_eq_true.mp hall ch hch)
    rw [Option.filter_eq_none_iff]
    simp only [Option.some.injEq, forall_eq', Bool.not_eq_true', Bool.not_eq_false,
      List.all_eq_true, decide_eq_true_eq, String.toList_append, List.forall_mem_append,
      and_iff_right hword]

/-- **What a request needs**, in the order in which it is asked: the address of the directory, a token
that can be sent, and an address for the path. -/
theorem Connection.request_eq (c : Connection) (path : String) :
    c.request path = match (Address.parse c.base).bind Address.asBase with
      | .error flaw => .error (.badAddress flaw.message)
      | .ok address =>
        match c.authorization.filter fun s => !s.toList.all fun ch => ch.toNat < 0x80 with
        | some s => .error (unencodable s)
        | none =>
          match address.below path with
          | .error flaw => .error (.badAddress flaw.message)
          | .ok a => .ok ⟨a, c.authorization⟩ := by
  simp only [Connection.request, bind, Except.bind]
  cases Address.parse c.base with
  | error flaw => rfl
  | ok base =>
    cases hbase : base.asBase with
    | error flaw => simp only [hbase]
    | ok address =>
      simp only [hbase]
      cases c.authorization with
      | none => cases address.below path <;> rfl
      | some s =>
        simp only [Option.filter_some]
        cases s.toList.all fun ch => ch.toNat < 0x80 with
        | false => rfl
        | true => cases address.below path <;> rfl

/-- **When there is a request for a path.** -/
theorem Connection.isOk_request_iff {c : Connection} {address : Address} (h : c.IsAt address)
    {path : String} (hpath : IsRooted path) :
    (c.request path).isOk = true ↔ c.CanAsk address path := by
  have hscheme : address.scheme ≠ [] := by
    rcases h.web with hweb | hweb <;> simp [hweb]
  have hrequest : (c.request path).isOk = true ↔ (∀ ch ∈ c.token.toList, ch.toNat < 0x80) ∧
      (address.below path).isOk = true := by
    rw [request_eq, h.base, ← authorization_filter_eq_none]
    dsimp only
    cases c.authorization.filter _ with
    | some s => simp [Except.isOk, Except.toBool]
    | none => cases address.below path <;> simp [Except.isOk, Except.toBool]
  rw [hrequest, isOk_below_iff hscheme h.again hpath, textFlaw?_eq_none]
  constructor
  · rintro ⟨token, ⟨length, printable⟩, parts⟩
    exact ⟨token, printable, length, parts⟩
  · rintro ⟨token, printable, length, parts⟩
    exact ⟨token, ⟨length, printable⟩, parts⟩

/-- Whatever its name, a topic has a path from the root. -/
theorem Topic.isRooted_path (t : Topic) : IsRooted t.path := by
  cases t with
  | app name => exact ⟨'a', "pps/".toList ++ name.toList, String.toList_append, by decide⟩
  | job name => exact ⟨'j', "obs/".toList ++ name.toList, String.toList_append, by decide⟩
  | pool name => exact ⟨'p', "ools/".toList ++ name.toList, String.toList_append, by decide⟩
  | clusters => exact ⟨'p', "rovisioner/clusters".toList, rfl, by decide⟩

end Directory

end AccessRules
