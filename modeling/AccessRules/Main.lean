import AccessRules.Command.Tasks
import AccessRules.Storage.Archive

/-!
# The program

Reads the files that a command line names, does what it asks for, and writes back the databases that
have changed.  There is no way to the network from here: every request to the directory fails, and
passes record that.
-/

namespace AccessRules.Main

open Calendar Command Storage

/-- The variables of the environment that are looked at. -/
def environment : IO (List (String × String)) :=
  ((commonSwitches ++ workSwitches).filterMap (·.variableName)).filterMapM fun name => do
    return (← IO.getEnv name).map (name, ·)

/-- The paths that a command line and its environment may name. -/
def namedPaths (words : List String) (environment : List (String × String)) : List String :=
  Settings.standard.storage.path :: environment.map Prod.snd ++ words ++
    words.map fun word => String.ofList ((word.toList.dropWhile (· != '=')).drop 1)

/-- The file at a path, if there is one that can be read. -/
def fileAt (path : String) : IO (Option File) := do
  try
    let text ← IO.FS.readFile path
    return some (match Database.ofArchive? path text with
      | some d => .database d
      | none => .text text)
  catch _ => return none

/-- Whether there is a folder at a path. -/
def isFolder (path : String) : IO Bool := do
  try
    return ← (← IO.FS.realPath path).isDir
  catch _ => return false

/-- The folder with what is found at a path. -/
def load (folder : Folder) (path : String) : IO Folder := do
  let p := Path.ofText path
  match ← fileAt p.text with
  | some file => return folder.put p file
  | none =>
    let found ← [p, p.dropLast].filterM fun q => isFolder q.text
    return { folder with folders := found ++ folder.folders }

/-- The folder with all that a command line works on. -/
def gather (words : List String) (environment : List (String × String)) : IO Folder := do
  let folder ← (namedPaths words environment).foldlM load ⟨[], []⟩
  match Wish.read folder.has environment words with
  | some (.task i) =>
    match settingsOf folder i with
    | .ok settings => load folder settings.storage.path
    | .error _ => return folder
  | _ => return folder

/-- Writes the databases that differ from those of an earlier folder. -/
def writeBack (earlier later : Folder) : IO Unit :=
  later.files.forM fun (p, file) => do
    match file with
    | .database d => if earlier.find? p != some file then IO.FS.writeFile p.text d.archive
    | .text _ => return ()

/-- The time, as the file system tells it of a file that was just made. -/
def now : IO Instant := do
  let (_, path) ← IO.FS.createTempFile
  let modified := (← path.metadata).modified
  IO.FS.removeFile path
  return epochDay * microsPerDay + modified.sec * microsPerSecond + modified.nsec.toNat / 1000

/-- A supply of identifiers that no one else has. -/
def supply : IO Supply := do
  let bytes ← IO.getRandomBytes 15
  return bytes.toList.foldl (fun n b => 256 * n + b.toNat) 0

/-- A directory that cannot be reached. -/
def unreachable : Http.Server := .steady fun _ => .failed "network is unreachable"

/-- Shows what a command line came to. -/
def present (r : Report) : IO UInt32 := do
  r.shown.forM fun d => d.plainLines.forM fun line => IO.println line
  if r.exit = 2 then IO.eprintln "usage error"
  if let some f := r.failure then IO.eprintln ("unexpected failure: " ++ f.text)
  return .ofNat r.exit

end AccessRules.Main

open AccessRules in
def main (words : List String) : IO UInt32 := do
  let environment ← Main.environment
  let folder ← Main.gather words environment
  let (report, host) := Command.run words environment
    ⟨folder, ← Main.now, ← Main.supply, .empty .app, .empty .cronJob, Main.unreachable, []⟩
  Main.writeBack folder host.folder
  Main.present report
