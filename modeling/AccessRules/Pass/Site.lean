import AccessRules.Engine.Stamper
import AccessRules.Pass.Basic

/-!
# Sites

A site is all that the service works with at one place: the database, the clock, the resources of a
cluster, and the server of the directory with the requests it has answered.  A pass at a site knows
nothing of what earlier passes learned from the directory.
-/

namespace AccessRules.Pass

open Calendar Engine Storage

/-- All that the service works with at one place. -/
structure Site where
  database : Database
  connected : Bool
  /-- how long a running lock lives without a sign of life -/
  expire : Duration
  ids : Supply
  now : Instant
  apps : Resource.Collection
  jobs : Resource.Collection
  server : Http.Server
  /-- the requests the server has answered, the oldest first -/
  sent : List Http.Request

/-- What a pass did, and how it could be seen from outside. -/
structure Run where
  result : Result
  requests : List Http.Request
  calls : List Resource.Call
  /-- the signs of life that were given -/
  pings : List (List String)

namespace Site

/-- A connection to the directory of a site. -/
def connection (s : Site) (host token : String) : Directory.Connection :=
  ⟨host, token, fun earlier r => s.server (s.sent ++ earlier) r⟩

/-- The resources of a kind. -/
def collection (s : Site) : Resource.Kind → Resource.Collection
  | .app => s.apps
  | .cronJob => s.jobs

/-- The site with the resources of a kind changed. -/
def mapCollection (s : Site) (f : Resource.Collection → Resource.Collection) :
    Resource.Kind → Site
  | .app => { s with apps := f s.apps }
  | .cronJob => { s with jobs := f s.jobs }

/-- A collection that has not recorded any calls. -/
def unwatched (c : Resource.Collection) : Resource.Collection := { c with calls := [] }

/-- What a pass works on at a site. -/
def world (s : Site) : World Workshop where
  database := s.database
  expire := s.expire
  ids := s.ids
  keepAlive := Lock.KeepAlive.idle.start
  pings := []
  around := ⟨s.now, s.connected, ⟨.empty, unwatched s.apps, unwatched s.jobs⟩, none⟩

/-- A pass at a site. -/
def run (mode : Mode) (engines : List (Engine Workshop)) (rules : List Rule) (s : Site) :
    Run × Site :=
  let (result, w) := Pass.run mode engines rules s.world
  let workshop := w.around.state
  let sent := workshop.cache.memory.sent
  (⟨result, sent, workshop.apps.calls ++ workshop.jobs.calls, w.pings⟩,
    { s with database := w.database, connected := w.around.connected, ids := w.ids,
             now := w.around.now, apps := workshop.apps, jobs := workshop.jobs,
             sent := s.sent ++ sent })

end Site

end AccessRules.Pass
