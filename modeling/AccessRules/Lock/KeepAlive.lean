import AccessRules.Fault

/-!
# Keeping locks alive

While an engine works on a rule its lock needs signs of life.  They are given by a loop that holds
the identifiers of the locks in use.  It is told of locks that were taken or released, and now and
then a tick of its timer comes.  After each of these it pings everything it holds, if it holds
anything; a ping that fails changes nothing.  A message to stop ends the loop.

What is told while no loop is running waits in a queue, and starting a loop begins with an empty
one.
-/

namespace AccessRules.Lock

/-- What a loop is told. -/
inductive Event where
  | add (id : String)
  | remove (id : String)
  | tick
  | stop
  deriving DecidableEq, Repr

/-- Puts an identifier into a strictly increasing list. -/
def insertId (id : String) : List String → List String
  | [] => [id]
  | x :: xs =>
    if id < x then id :: x :: xs
    else if id = x then x :: xs
    else x :: insertId id xs

/-- What is held after an event. -/
def Event.applyTo (held : List String) : Event → List String
  | .add id => insertId id held
  | .remove id => held.filter (· ≠ id)
  | .tick => held
  | .stop => held

/-- A ping of some identifiers, which may fail; it changes a state either way. -/
abbrev Ping (σ : Type) := List String → σ → Except Failure Unit × σ

/-- What a loop holds; nothing at all once it has stopped. -/
abbrev Loop := Option (List String)

/-- The loop after an event, and what its ping did. -/
def Loop.step {σ : Type} (ping : Ping σ) (e : Event) (l : Loop) (s : σ) : Loop × σ :=
  match l, e with
  | none, _ => (none, s)
  | some _, .stop => (none, s)
  | some held, e =>
    let held := e.applyTo held
    (some held, if held.isEmpty then s else (ping held s).2)

/-- The loop after some events. -/
def Loop.run {σ : Type} (ping : Ping σ) : List Event → Loop → σ → Loop × σ
  | [], l, s => (l, s)
  | e :: es, l, s =>
    let (l, s) := Loop.step ping e l s
    Loop.run ping es l s

/-- The loop, and what it was told and has not yet looked at. -/
structure KeepAlive where
  loop : Loop
  queue : List Event
  deriving DecidableEq, Repr

namespace KeepAlive

/-- No loop was started. -/
def idle : KeepAlive := ⟨none, []⟩

/-- Whether a loop is running. -/
def isRunning (k : KeepAlive) : Bool := k.loop.isSome

/-- Starts a loop, unless one is running. -/
def start (k : KeepAlive) : KeepAlive := if k.isRunning then k else ⟨some [], []⟩

/-- Tells of an event. -/
def tell (e : Event) (k : KeepAlive) : KeepAlive := { k with queue := k.queue ++ [e] }

/-- Lets a running loop look at all it was told. -/
def settle {σ : Type} (ping : Ping σ) (k : KeepAlive) (s : σ) : KeepAlive × σ :=
  if k.isRunning then
    let (loop, s) := Loop.run ping k.queue k.loop s
    (⟨loop, []⟩, s)
  else (k, s)

/-- Stops a running loop after all it was told. -/
def stop {σ : Type} (ping : Ping σ) (k : KeepAlive) (s : σ) : KeepAlive × σ :=
  if k.isRunning then (k.tell .stop).settle ping s else (k, s)

end KeepAlive

end AccessRules.Lock
