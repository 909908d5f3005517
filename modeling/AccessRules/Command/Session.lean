import AccessRules.Command.Display
import AccessRules.Pass.Site
import AccessRules.Settings.Overrides
import AccessRules.Storage.Folder

/-!
# Sessions

A command works on a host: a folder, the clock, the resources of a cluster and the server of the
directory.  In its session it shows things, sends requests and makes calls, and it ends early when
it is refused something, or when something fails that it does not foresee.
-/

namespace AccessRules.Command

open Calendar Storage

/-- What commands work on, one after the other. -/
structure Host where
  folder : Folder
  now : Instant
  ids : Supply
  apps : Resource.Collection
  jobs : Resource.Collection
  server : Http.Server
  /-- the requests the server has answered, the oldest first -/
  sent : List Http.Request

/-- What a command has done so far. -/
structure Session where
  host : Host
  shown : List Display
  /-- the level of messages and whether they are documents, each time that was set -/
  logging : List (String × Bool)
  requests : List Http.Request
  calls : List Resource.Call

/-- How a command ends early. -/
inductive Ending where
  /-- after saying why -/
  | refused
  /-- by a failure it does not foresee -/
  | died (f : Failure)
  deriving Repr

/-- A step of a command. -/
abbrev Work := ExceptT Ending (StateM Session)

namespace Session

/-- A session that has just begun. -/
def start (host : Host) : Session := ⟨host, [], [], [], []⟩

/-- Shows something. -/
def tell (d : Display) : Work Unit :=
  modify fun s => { s with shown := s.shown ++ [d] }

/-- Ends after showing something. -/
def refuse {α : Type} (ds : List Display) : Work α := do
  ds.forM tell
  throw .refused

/-- The result of something that may fail.  A failure that is foreseen is shown after some words, and
with all its data if those are wanted; any other is the end. -/
def foreseeing {α : Type} (foreseen : Failure → Bool) (words : String) (inFull : Bool)
    (r : Except Failure α) : Work α :=
  match r with
  | .ok a => pure a
  | .error f =>
    if foreseen f then
      refuse (Display.failure words f :: if inFull then [Display.details f] else [])
    else throw (.died f)

/-- The result of something that is not foreseen to fail. -/
def certain {α : Type} (r : Except Failure α) : Work α := foreseeing (fun _ => false) "" false r

/-- Whether the service itself refused or failed. -/
def isFault : Failure → Bool
  | .fault _ => true
  | _ => false

/-- Whether a file could not be read or holds something unfit. -/
def isUnfit : Failure → Bool
  | .mismatch _ => true
  | .unreadable _ => true
  | _ => false

/-- The host. -/
def host? : Work Host := do
  let s ← get
  pure s.host

/-- Changes the folder of the host. -/
def inFolder {α : Type} (f : Folder → α × Folder) : Work α := do
  let s ← get
  let (a, folder) := f s.host.folder
  set { s with host := { s.host with folder := folder } }
  pure a

/-- Writes a database to its file. -/
def keep (d : Database) : Work Unit := inFolder fun f => ((), f.keep d)

/-- The host as a site of passes over a database. -/
def site (host : Host) (d : Database) (expire : Duration) : Pass.Site where
  database := d
  connected := true
  expire := expire
  ids := host.ids
  now := host.now
  apps := host.apps
  jobs := host.jobs
  server := host.server
  sent := host.sent

/-- Takes over what a pass at the site of the host did. -/
def adopt (run : Pass.Run) (site : Pass.Site) : Work Unit :=
  modify fun s => { s with
    host := { s.host with
      folder := s.host.folder.keep site.database, now := site.now, ids := site.ids,
      apps := site.apps, jobs := site.jobs, sent := site.sent }
    requests := s.requests ++ run.requests
    calls := s.calls ++ run.calls }

end Session

end AccessRules.Command
