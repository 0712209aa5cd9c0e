import HidraNet.Lib.Text
import HidraNet.Hidrarelay.Retained

/-!
# What a forum publish says

`prepare` reads a publish alone: its JSON, its fields and its signature.  What it establishes is a `Fact`; what it
cannot establish it refuses, with a reason for the log.  JSON, signatures and the lower case of a text are the
libraries' (`Env`).
-/

namespace HidraNet.Hidrarelay

open Maps Text

/-! ### JSON -/

inductive Json where
  | null
  | bool (b : Bool)
  /-- A number that is an `i64`. -/
  | int (n : Int)
  | number (text : String)
  | str (s : String)
  | arr (l : List Json)
  | obj (l : List (String × Json))

namespace Json

def isObject : Json → Bool
  | obj _ => true
  | _ => false

def get : Json → String → Option Json
  | obj l, k => (l.find? fun e => e.1 = k).map Prod.snd
  | _, _ => none

def asStr : Json → Option String
  | str s => some s
  | _ => none

def asI64 : Json → Option Int
  | int n => some n
  | _ => none

def asArray : Json → Option (List Json)
  | arr l => some l
  | _ => none

def s (v : Json) (k : String) : Option String := (v.get k).bind asStr

def maxSafeInteger : Int := 9007199254740991

def ts (v : Json) (k : String) : Option Int :=
  ((v.get k).bind asI64).filter fun n => 0 ≤ n ∧ n ≤ maxSafeInteger

end Json

/-- What the relay's code takes from its libraries, for payloads `P`. -/
structure Env (P : Type*) where
  /-- `serde_json::from_slice`. -/
  fromSlice : P → Option Json
  /-- The payload is the one byte `1`. -/
  isOne : P → Bool
  /-- ECDSA over the fields' JSON text, under a key in the pages' encoding. -/
  verifyFields : String → Json → String → Bool
  canonicalPub : String → Bool
  toLowercase : String → String

inductive Fact where
  | chat
  | report
  | claim (norm pk : String)
  | post (id pk nickNorm : String)
  | tombstone (pk : String)
  | hide (pk : String)
  | admin (pk : String)
  | registry (seq : Int)
deriving DecidableEq

/-- What the operator tells the relay about the forum. -/
structure ForumPolicy where
  registrar : Option String
  moderator : Option String
deriving DecidableEq

/-! ### Texts -/

def isLowerBase32 (c : Char) : Bool := ('a' ≤ c && c ≤ 'z') || ('2' ≤ c && c ≤ '7')

def isPostId (id : String) (kind : Char) : Bool :=
  match id.toList with
  | c :: rest => c = kind && rest.length = 10 && rest.all isLowerBase32
  | [] => false

def isLowerAlnum (c : Char) : Bool := ('a' ≤ c && c ≤ 'z') || ('0' ≤ c && c ≤ '9')

def isName (n : String) : Bool :=
  3 ≤ n.utf8ByteSize && n.utf8ByteSize ≤ 24 && n.toList.head?.any Char.isAlphanum &&
    n.toList.all fun c => isLowerAlnum c || c ∈ ['.', '_', '-']

/-- `String.prototype.trim`. -/
def trimJs (n : String) : String :=
  String.ofList ((n.toList.dropWhile jsWhitespace).reverse.dropWhile jsWhitespace).reverse

def units (s : String) : Nat := (s.toList.map fun c => if 0x10000 ≤ c.val then 2 else 1).sum

/-- A room of the chat: `hidra-` and 32 lower-case hex digits. -/
def isRoom (level : String) : Bool :=
  level.toList.length = 38 && "hidra-".toList.isPrefixOf level.toList &&
    (level.toList.drop 6).all fun c => ('0' ≤ c && c ≤ '9') || ('a' ≤ c && c ≤ 'f')

section

variable {P : Type*} (env : Env P)

def normalizeName (n : String) : String := env.toLowercase (trimJs n)

def parse (payload : P) : Option Json := (env.fromSlice payload).filter Json.isObject

/-! ### The registrar's list -/

/-- `[norm, name, pk, ts]`. -/
def isRegistryEntry : Json → Bool
  | .arr [.str _, .str _, .str pk, .int t] => env.canonicalPub pk && 0 ≤ t && t ≤ Json.maxSafeInteger
  | _ => false

/-- The fields the registrar signs, and its signature. -/
def registryFields (v : Json) : Option (Json × String) := do
  let seq ← (v.get "seq").bind Json.asI64
  let t ← v.ts "ts"
  let names ← v.get "names"
  let sig ← v.s "sig"
  guard ((v.get "v").bind Json.asI64 = some 1 ∧ 0 ≤ seq ∧ seq ≤ Json.maxSafeInteger)
  let entries ← names.asArray
  guard (entries.all (isRegistryEntry env))
  let admin ← match v.get "admin" with
    | none | some .null => some (Json.str "")
    | some (.str a) => some (.str a)
    | some _ => none
  let fields := [.str "registry", .int seq, .int t, names, admin]
  match v.get "hides" with
  | none => some (.arr fields, sig)
  | some (.arr h) => some (.arr (fields ++ [.arr h]), sig)
  | some _ => none

structure RegistryFacts where
  admin : Option String
  names : Map String String
deriving DecidableEq

def nameOfEntry : Json → Option (String × String)
  | .arr (.str norm :: _ :: .str pk :: _) => some (norm, pk)
  | _ => none

/-- What a list says, if it verifies under the registrar's key. -/
def readRegistry (key : String) (payload : P) : Option RegistryFacts := do
  let v ← parse env payload
  let (fields, sig) ← registryFields env v
  guard (env.verifyFields key fields sig)
  let names ← (v.get "names").bind Json.asArray
  return { admin := (v.s "admin").filter (· ≠ "")
           names := (names.filterMap nameOfEntry).foldl (fun m e => m.set e.1 e.2) .empty }

/-! ### One kind of publish each -/

variable [Payload P]

def isEmpty (payload : P) : Bool := len payload = 0

def claim (norm : String) (payload : P) : Except String Fact := do
  if !isName norm then throw "claim: bad name"
  if isEmpty payload then throw "claim: names are not deleted"
  let some v := parse env payload | throw "claim: not a JSON object"
  let (some name, some pk, some sig, some t) := (v.s "name", v.s "pk", v.s "sig", v.ts "ts")
    | throw "claim: malformed"
  if (v.get "v").bind Json.asI64 ≠ some 2 ∨ normalizeName env name ≠ norm ∨ 24 < units name then
    throw "claim: malformed"
  if !env.verifyFields pk (.arr [.str "claim", .str norm, .str name, .str pk, .int t]) sig then
    throw "claim: bad signature"
  return .claim norm pk

/-- The fields a post signs: a thread's, or a reply's to the thread `tid`. -/
def postFields (id : String) (tid : Option String) (v : Json) (nick : String) (t : Int) : Except String Json :=
  match tid with
  | none => do
    let (some cat, some title, some body) := (v.s "cat", v.s "title", v.s "body") | throw "post: malformed"
    if 40 < units cat ∨ 140 < units title ∨ 20000 < units body ∨ 24 < units nick then
      throw "post: over the page's limits"
    return .arr [.str "t", .str id, .str cat, .str title, .str body, .str nick, .int t]
  | some tid => do
    let some body := v.s "body" | throw "post: malformed"
    if v.s "topicId" ≠ some tid ∨ 20000 < units body ∨ 24 < units nick then throw "post: malformed"
    return .arr [.str "r", .str id, .str tid, .str body, .str nick, .int t]

/-- A thread has no `tid`, a reply that of its thread. -/
def post (kind : Char) (id : String) (tid : Option String) (payload : P) : Except String Fact := do
  if !isPostId id kind ∨ tid.any (!isPostId · 't') then throw "post: bad id"
  if isEmpty payload then throw "post: deletion is a signed tombstone, not an empty message"
  let some v := parse env payload | throw "post: not a JSON object"
  let (some pk, some sig, some t) := (v.s "pk", v.s "sig", v.ts "ts") | throw "post: unsigned"
  if (v.get "del").isSome then
    if !env.verifyFields pk (.arr [.str "del", .str id, .int t]) sig then throw "tombstone: bad signature"
    return .tombstone pk
  if v.s "id" ≠ some id then throw "post: id does not match the topic"
  let some nick := v.s "nick" | throw "post: malformed"
  let fields ← postFields id tid v nick t
  if !env.verifyFields pk fields sig then throw "post: bad signature"
  return .post id pk (normalizeName env nick)

def hide (id : String) (payload : P) : Except String Fact := do
  if !(isPostId id 't' || isPostId id 'r') then throw "hide: bad id"
  if isEmpty payload || env.isOne payload then throw "hide: must be signed"
  let some v := parse env payload | throw "hide: not a JSON object"
  let (some pk, some sig, some t) := (v.s "pk", v.s "sig", v.ts "ts") | throw "hide: malformed"
  if v.s "id" ≠ some id then throw "hide: malformed"
  if !env.verifyFields pk (.arr [.str "hide", .str id, .int t]) sig then throw "hide: bad signature"
  return .hide pk

def admin (payload : P) : Except String Fact := do
  if isEmpty payload then throw "admin: not deleted"
  let some v := parse env payload | throw "admin: not a JSON object"
  let (some pk, some sig, some t) := (v.s "pk", v.s "sig", v.ts "ts") | throw "admin: malformed"
  if (v.get "v").bind Json.asI64 ≠ some 2 then throw "admin: malformed"
  if !env.verifyFields pk (.arr [.str "admin", .str pk, .int t]) sig then throw "admin: bad signature"
  return .admin pk

def registry (pol : ForumPolicy) (payload : P) : Except String Fact := do
  let some key := pol.registrar | throw "registry: no registrar key configured"
  if isEmpty payload then throw "registry: not deleted"
  let some v := parse env payload | throw "registry: not a JSON object"
  let some (fields, sig) := registryFields env v | throw "registry: malformed"
  if !env.verifyFields key fields sig then throw "registry: bad signature"
  return .registry (((v.get "seq").bind Json.asI64).getD 0)

def report (id reporter : String) (payload : P) : Except String Fact :=
  if 1 ≤ reporter.utf8ByteSize ∧ reporter.utf8ByteSize ≤ 32 ∧ reporter.toList.all isLowerAlnum ∧
      (isPostId id 't' ∨ isPostId id 'r') ∧ (isEmpty payload ∨ env.isOne payload) then .ok .report
  else .error "report: malformed"

/-- `prepare`: the publish alone. -/
def check (pol : ForumPolicy) (topic : Topic) (payload : P) (retain : Bool) : Except String Fact :=
  match topic with
  | "hidra" :: level :: levels =>
    if !(level :: levels = ["presence", "v1"] || (levels = [] && isRoom level)) then .error "chat: unknown topic"
    else if retain then .error "chat: nothing is retained"
    else .ok .chat
  | "hforum" :: kind :: levels =>
    if !retain then .error "forum: not retained"
    else match kind :: levels with
      | ["u", norm] => claim env norm payload
      | ["t", id] => post env 't' id none payload
      | ["r", tid, id] => post env 'r' id (some tid) payload
      | ["mod", id] => hide env id payload
      | ["admin"] => admin env payload
      | ["registry"] => registry env pol payload
      | ["rep", id, reporter] => report env id reporter payload
      | _ => .error "forum: unknown topic"
  | _ => .error "unknown tree"

omit [Payload P] in
/-- What the relay remembers beside a payload. -/
def metaFor (topic : Topic) (payload : P) : Meta :=
  match topic with
  | "hforum" :: kind :: levels =>
    if kind = "rep" ∧ levels ≠ [] then Meta.default
    else match parse env payload with
      | none => Meta.default
      | some v => ⟨v.s "pk", (v.get "del").isSome, (v.get "seq").bind Json.asI64⟩
  | _ => Meta.default

end

end HidraNet.Hidrarelay
