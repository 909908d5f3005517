import AccessRules.Storage.Database
import AccessRules.Text.Split

/-!
# Folders

Texts and databases are kept in files of a working folder.  A path is followed name by name, so that
different texts may lead to the same file, and a folder is there as long as there is a file in it.

A database that is opened and not there is made, without tables.  Two paths lead to no file at all:
what is kept there is gone after use.
-/

namespace AccessRules.Storage

/-- What a file holds. -/
inductive File where
  | text (s : String)
  | database (d : Database)
  deriving DecidableEq, Repr

/-- The names on the way from the working folder to a file. -/
abbrev Path := List String

namespace Path

/-- The name of the topmost folder. -/
def top : String := "/"

/-- The name that leads one folder up. -/
def up : String := ".."

/-- A path followed by one more name. -/
def step (p : Path) (name : String) : Path :=
  if name = "" || name = "." then p
  else if name = up then
    if p = [top] then p
    else if p.getLastD up = up then p ++ [up]
    else p.dropLast
  else p ++ [name]

/-- The path that a text stands for. -/
def ofText (s : String) : Path :=
  ((Text.split '/' s.toList).map String.ofList).foldl step (if s.startsWith top then [top] else [])

/-- The text of a path. -/
def text (p : Path) : String :=
  match p with
  | name :: rest =>
    if name = top then top ++ top.intercalate rest else top.intercalate p
  | [] => "."

/-- Whether a path leads nowhere but upwards. -/
def isAbove (p : Path) : Bool := p.all fun name => name == top || name == up

end Path

/-- A working folder: its files by their paths, and folders that are there even if they are empty. -/
structure Folder where
  files : List (Path × File)
  folders : List Path
  deriving DecidableEq, Repr

namespace Folder

/-- The folder with some texts in it. -/
def ofTexts (texts : List (String × String)) : Folder :=
  ⟨texts.map fun (path, s) => (.ofText path, .text s), []⟩

/-- The file of a path. -/
def find? (f : Folder) (p : Path) : Option File := f.files.lookup p

/-- The folder with a file put under a path. -/
def put (f : Folder) (p : Path) (file : File) : Folder :=
  { f with files := (p, file) :: f.files.filter (·.1 ≠ p) }

/-- Whether a path leads to a folder. -/
def isFolder (f : Folder) (p : Path) : Bool :=
  p.isAbove || f.folders.contains p ||
    f.files.any fun file => p.length < file.1.length && p.isPrefixOf file.1

/-- Whether there is anything under a path. -/
def has (f : Folder) (path : String) : Bool :=
  let p := Path.ofText path
  (f.find? p).isSome || f.isFolder p

/-- The text of a file.  A database without tables is an empty file. -/
def read (f : Folder) (path : String) : Except Failure String :=
  match f.find? (.ofText path) with
  | some (.text s) => .ok s
  | some (.database d) => if d.version.isNone then .ok "" else .error .malformed
  | none =>
    if f.has path then .error (.unreadable ("[Errno 21] Is a directory: " ++ Text.quoted path))
    else .error (.unreadable ("[Errno 2] No such file or directory: " ++ Text.quoted path))

/-! ## Databases -/

/-- Whether a path leads to no file. -/
def isPrivate (path : String) : Bool := path = "" || path = ":memory:"

/-- The most bytes a name may have. -/
def longestName : Nat := 255

/-- Whether a file may be made under a path. -/
def admits (f : Folder) (p : Path) : Bool :=
  !f.isFolder p && f.isFolder p.dropLast && (p.getLastD "").utf8ByteSize ≤ longestName

/-- The failure to open a database. -/
def cannotOpen (path : String) : Failure :=
  .fault (.saying (.storageConnection "connect" path)
    "Failed to connect to database: unable to open database file")

/-- What is said of a file that holds something else. -/
def notDatabase : String := "file is not a database"

/-- Opens the file of a database; there is none in it if it holds a text. -/
def attach (f : Folder) (path : String) : Except Failure (Option Database) × Folder :=
  let p := Path.ofText path
  if path.toList.contains '\x00' then (.error (.badValue "embedded null character"), f)
  else if isPrivate path then (.ok (some (.blank path)), f)
  else if !f.admits p then (.error (cannotOpen path), f)
  else match f.find? p with
    | none => (.ok (some (.blank path)), f.put p (.database (.blank path)))
    | some (.text s) => (.ok (if s.utf8ByteSize ≤ 1 then some (.blank path) else none), f)
    | some (.database d) => (.ok (some { d with path := path }), f)

/-- Opens a database, which has to be one. -/
def attachAs (f : Folder) (path : String) (junk : Cause) : Except Failure Database × Folder :=
  match f.attach path with
  | (.ok (some d), f) => (.ok d, f)
  | (.ok none, f) => (.error (.fault (.of junk)), f)
  | (.error e, f) => (.error e, f)

/-- The folder in which a database has been written to its file. -/
def keep (f : Folder) (d : Database) : Folder :=
  if isPrivate d.path then f else f.put (.ofText d.path) (.database d)

/-- Opens a database and looks at its version. -/
def connect (f : Folder) (path : String) : Except Failure Database × Folder :=
  f.attachAs path (.storageRead "schema_version" notDatabase)

/-- Opens a database and makes its tables. -/
def prepare (f : Folder) (path : String) : Except Failure Database × Folder :=
  match f.attachAs path (.storageWrite "init_schema" notDatabase) with
  | (.ok d, f) =>
    match d.makeTables true with
    | .ok d => (.ok d, f.keep d)
    | .error e => (.error e, f)
  | (.error e, f) => (.error e, f)

end Folder

end AccessRules.Storage
