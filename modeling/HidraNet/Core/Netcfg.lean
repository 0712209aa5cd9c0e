import HidraNet.Lib.Lines
import HidraNet.Lib.Runs

/-!
# Sending the machine through the tunnel, and undoing it

`apply` on Linux: the routes it adds and the resolv.conf it replaces, with the plan that it saves as it goes, as one list
of effects.  A command or a write that fails, and the death of the process, leave the effects up to some point.
`revert` undoes what a plan says, and `recoverDns` puts the resolver back where no plan is left.

The routing table is that of the routes without a metric, which are all that is replaced or deleted here; a tunnel's
interface outlives the process that opened it.
-/

namespace HidraNet.Core.Netcfg

open Lines Runs Text

structure IpAddr where
  text : String
  isIpv4 : Bool
deriving DecidableEq

structure Route where
  gateway : Option String
  dev : String
deriving DecidableEq

/-- A route that was added through a tunnel interface. -/
structure ViaRouteAdded where
  dest : String
  interface : String
deriving DecidableEq

/-- What was changed, so it can be put back. -/
structure RevertPlan where
  interface : String
  nodeIp : Option IpAddr
  gateway : Option String
  gatewayIf : Option String
  routesAdded : List String
  dnsChanged : Bool
  resolvConfBackup : Option String
  resolvConfLink : Option String
  viaRoutes : List ViaRouteAdded
  hops : Option Nat
deriving DecidableEq

structure ViaRoute where
  host : IpAddr
  interface : String
deriving DecidableEq

/-- What the tunnel wants from the system. -/
structure Wanted where
  interface : String
  nodeIp : IpAddr
  dns : String
  routeIpv6 : Bool
  viaTunnel : List ViaRoute
deriving DecidableEq

/-- What a file holds, which is a text or not. -/
inductive Content where
  | utf8 (text : String)
  | other (bytes : List UInt8)
deriving DecidableEq

inductive ResolvConf where
  | missing
  | file (content : Content)
  | link (target : String)
deriving DecidableEq

structure SavedResolvConf where
  link : Option String
  content : String
deriving DecidableEq

structure System where
  routes : String → Option Route
  resolvConf : ResolvConf
  files : String → Option Content
  /-- The copy of resolv.conf kept beside the client's key. -/
  saved : Option SavedResolvConf
  plan : Option RevertPlan

/-- What the system's tools answer. -/
structure Answers where
  showDefault : Except String String
  ipv6 : String → Bool
  routeGet : Except String String
  resolvectl : Bool

/-! ### What the tools say -/

def wordAfter (key : String) (words : List (List Char)) : Option String :=
  match words.dropWhile (· ≠ key.toList) with
  | _ :: v :: _ => some (String.ofList v)
  | _ => none

def parseDefaultRoute (line : List Char) : Except String (Option String × String) :=
  match wordAfter "dev" (words line) with
  | some dev => .ok (wordAfter "via" (words line), dev)
  | none => .error "could not read the default route: it names no interface"

/-- The default route's gateway, if it has one, and its interface. -/
def defaultRoute (a : Answers) : Except String (Option String × String) :=
  match a.showDefault with
  | .error e => .error e
  | .ok out =>
    if out.isEmpty then .error "this machine has no default route; is it online?"
    else parseDefaultRoute (out.toList.takeWhile (· ≠ '\n'))

/-- The interface `ip route get` says a packet leaves through. -/
def routeDevice (out : String) : Option String := wordAfter "dev" (words out.toList)

/-! ### resolv.conf -/

def RESOLV_MARK : String := "# HidraVPN: restored by `hidravpn down`"

def readResolvConf (s : System) : Option String :=
  match s.resolvConf with
  | .file (.utf8 text) => some text
  | .link target =>
    match s.files target with
    | some (.utf8 text) => some text
    | _ => none
  | _ => none

def readLink (s : System) : Option String :=
  match s.resolvConf with
  | .link target => some target
  | _ => none

def startsWith (mark text : String) : Bool := mark.toList.isPrefixOf text.toList

/-- Whether systemd-resolved answers and resolv.conf is its stub. -/
def resolvedActive (s : System) (a : Answers) : Bool :=
  a.resolvectl &&
    match readResolvConf s with
    | none => false
    | some content => (content.toList.splitOn '\n').any fun l =>
        let l := (trim (String.ofList l)).toList
        "nameserver".toList.isPrefixOf l && l.tails.any "127.0.0.53".toList.isPrefixOf

def originalResolvConf (s : System) : SavedResolvConf :=
  let current : SavedResolvConf := ⟨readLink s, (readResolvConf s).getD ""⟩
  if current.link.isNone && startsWith RESOLV_MARK current.content then s.saved.getD current else current

/-- `fs::write`, through a link when it is one. -/
def writeResolvConf (s : System) (content : String) : System :=
  match s.resolvConf with
  | .link target => { s with files := Function.update s.files target (some (.utf8 content)) }
  | _ => { s with resolvConf := .file (.utf8 content) }

def putBackResolvConf (s : System) (link : Option String) (content : String) : System :=
  match link with
  | some target => { s with resolvConf := .link target, saved := none }
  | none => { writeResolvConf s content with saved := none }

/-! ### Applying -/

inductive Effect where
  | savePlan (plan : RevertPlan)
  | replaceRoute (dest : String) (route : Route)
  | writeSaved (saved : SavedResolvConf)
  | truncate
  | write (content : String)
  /-- A file written beside resolv.conf and renamed over it. -/
  | swap (content : String)
deriving DecidableEq

def perform (s : System) : Effect → System
  | .savePlan plan => { s with plan := some plan }
  | .replaceRoute dest route => { s with routes := Function.update s.routes dest (some route) }
  | .writeSaved saved => { s with saved := some saved }
  | .truncate => writeResolvConf s ""
  | .write content => writeResolvConf s content
  | .swap content => { s with resolvConf := .file (.utf8 content) }

/-- A plan, and the effects that led to it. -/
structure Draft where
  plan : RevertPlan
  effects : List Effect

namespace Draft

def add (d : Draft) (dest : String) (route : Route) : Draft :=
  let plan := { d.plan with routesAdded := d.plan.routesAdded ++ [dest] }
  ⟨plan, d.effects ++ [.replaceRoute dest route, .savePlan plan]⟩

def addVia (d : Draft) (dest interface : String) : Draft :=
  let plan := { d.plan with viaRoutes := d.plan.viaRoutes ++ [⟨dest, interface⟩] }
  ⟨plan, d.effects ++ [.replaceRoute dest ⟨none, interface⟩, .savePlan plan]⟩

end Draft

/-- The routes of the circuit, one by one. -/
def applyRoutes (w : Wanted) (a : Answers) (d : Draft) (gw : Option String) (dev : String) : Draft :=
  -- the node stays reachable the ordinary way
  let d := if w.nodeIp.isIpv4 then d.add (w.nodeIp.text ++ "/32") ⟨gw, dev⟩ else d
  let d := w.viaTunnel.foldl
    (fun d v => if v.host.isIpv4 then d.addVia (v.host.text ++ "/32") v.interface else d) d
  let d := ["0.0.0.0/1", "128.0.0.0/1"].foldl (fun d r => d.add r ⟨none, w.interface⟩) d
  let d := if w.routeIpv6 then
      ["::/1", "8000::/1"].foldl (fun d r => if a.ipv6 r then d.add r ⟨none, w.interface⟩ else d) d
    else d
  d.addVia (w.dns ++ "/32") w.interface

def ours (w : Wanted) : String := RESOLV_MARK ++ "\nnameserver " ++ w.dns ++ "\noptions edns0\n"

/-- What is done to the resolver, once its route is checked. -/
def applyDns (w : Wanted) (a : Answers) (s : System) (plan : RevertPlan) : List Effect :=
  if resolvedActive s a then [.savePlan { plan with dnsChanged := true }]
  else
    let saved := originalResolvConf s
    let plan := { plan with resolvConfBackup := some saved.content, resolvConfLink := saved.link }
    [.writeSaved saved, .savePlan plan] ++
      (if saved.link.isSome then [.swap (ours w)] else [.truncate, .write (ours w)]) ++
        [.savePlan { plan with dnsChanged := true }]

/-- The plan that is saved before anything changes. -/
def firstPlan (w : Wanted) : RevertPlan where
  interface := w.interface
  nodeIp := some w.nodeIp
  gateway := none
  gatewayIf := none
  routesAdded := []
  dnsChanged := false
  resolvConfBackup := none
  resolvConfLink := none
  viaRoutes := []
  hops := some (if w.viaTunnel.isEmpty then 1 else 2)

/-- What `apply` does to a system, as far as nothing fails. -/
def apply (w : Wanted) (a : Answers) (s : System) : List Effect :=
  .savePlan (firstPlan w) ::
    match defaultRoute a with
    | .error _ => []
    | .ok (gw, dev) =>
      let d := applyRoutes w a ⟨{ firstPlan w with gateway := gw, gatewayIf := some dev }, []⟩ gw dev
      d.effects ++
        match a.routeGet with
        | .error _ => []
        | .ok out => if routeDevice out = some w.interface then applyDns w a s d.plan else []

/-! ### Undoing -/

def delRoute (s : System) (dest : String) : System := { s with routes := Function.update s.routes dest none }

def delVia (s : System) (v : ViaRouteAdded) : System :=
  if (s.routes v.dest).any (·.dev = v.interface) then delRoute s v.dest else s

def revert (s : System) (plan : RevertPlan) : System :=
  let s := plan.viaRoutes.reverse.foldl delVia s
  let s := plan.routesAdded.reverse.foldl delRoute s
  let s :=
    if plan.dnsChanged then
      match plan.resolvConfBackup with
      | some backup => putBackResolvConf s plan.resolvConfLink backup
      -- the settings of systemd-resolved are no part of this
      | none => s
    else s
  { s with plan := none }

/-- `revert` on the plan there is. -/
def undo (s : System) : System :=
  match s.plan with
  | none => s
  | some plan => revert s plan

/-- Where no plan is left, but resolv.conf is still ours. -/
def recoverDns (s : System) : System :=
  match s.plan, s.saved with
  | none, some saved =>
    if (readLink s).isNone && (readResolvConf s).any (startsWith RESOLV_MARK) then
      putBackResolvConf s saved.link saved.content
    else { s with saved := none }
  | _, _ => s

/-- How `apply` ends before its end. -/
inductive Stop where
  | dies
  /-- A command or a write fails: what was done is undone at once. -/
  | fails
deriving DecidableEq

/-- The first `n` effects, and then the end. -/
def applyUntil (w : Wanted) (a : Answers) (s : System) (n : Nat) : Stop → System
  | .dies => run perform s ((apply w a s).take n)
  | .fails => undo (run perform s ((apply w a s).take n))

end HidraNet.Core.Netcfg
