import AccessRules.Endpoint.Basic

/-!
# Comparing and filtering endpoints

Two looser relations than equality.

- `agrees` compares by the kinds set on the left: an absent right side agrees with everything, jobs
  are not looked at, and the ports of a host name or network count as sets.
- `matchesFilter` takes the right side as a filter: each kind set on the filter has to be set, and
  each part given on the filter has to be equal.
-/

namespace AccessRules.Endpoint

/-- Ports agree when the left side does not restrict them, or both restrict them alike. -/
def portsAgree (left right : Option (List Port)) : Bool :=
  match left with
  | none => true
  | some ports => Port.sameList ports (right.getD [])

def Dns.agrees (left right : Dns) : Bool :=
  left.name == right.name && left.wholeNetwork == right.wholeNetwork &&
    portsAgree left.ports right.ports

def Ip.agrees (left right : Ip) : Bool :=
  left.address == right.address && left.wholeNetwork == right.wholeNetwork &&
    portsAgree left.ports right.ports

/-- Whether a target set on the left has its like on the right. -/
def onBoth {α : Type} (like : α → α → Bool) (left right : Option α) : Bool :=
  match left, right with
  | none, _ => true
  | some _, none => false
  | some l, some r => like l r

/-- Agreement of two endpoints, by the kinds set on the left. -/
def agrees (left : Endpoint) : Option Endpoint → Bool
  | none => true
  | some right =>
    onBoth (· == ·) left.app right.app && onBoth (· == ·) left.service right.service &&
      onBoth Dns.agrees left.dns right.dns && onBoth Ip.agrees left.ip right.ip &&
      onBoth (· == ·) left.rpaas right.rpaas

/-- A text of a filter fits when it is empty or equal. -/
def textFits (wanted actual : String) : Bool := wanted.isEmpty || wanted == actual

/-- The ports of a filter fit when they are not given or equal. -/
def portsFit (wanted actual : Option (List Port)) : Bool := wanted.isNone || wanted == actual

/-- Whether an endpoint has everything a filter sets.  Filters do not reach into jobs and
instances. -/
def matchesFilter (e filter : Endpoint) : Bool :=
  onBoth (fun w d : Dns => textFits w.name d.name && portsFit w.ports d.ports) filter.dns e.dns &&
    onBoth (fun w i : Ip => textFits w.address i.address && portsFit w.ports i.ports)
      filter.ip e.ip &&
    onBoth (fun w a : App => textFits w.name a.name && textFits w.pool a.pool) filter.app e.app &&
    onBoth (fun w s : Service => textFits w.name s.name && textFits w.space s.space)
      filter.service e.service

end AccessRules.Endpoint
