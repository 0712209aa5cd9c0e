import HidraNet.Hidrarelay.Facts
import HidraNet.Hidrarelay.RetainedBooks

/-!
# The forum's rules

`admit` weighs the fact of a publish against what is kept, through the metadata beside each payload.  The registrar's
list is read once and remembered by the identity of the kept bytes (`Cache`).  A publish goes through `prepare`,
`refuse_room` and `admit`, and is then kept; a sweep takes away the names the registrar did not take.
-/

namespace HidraNet.Hidrarelay

open Maps Runs

def maxClaims : Nat := 10000
def maxPosts : Nat := 30000
def maxHides : Nat := 5000
def maxReports : Nat := 5000

def unlistedNameGrace : Nat := 120 * 1000000000

/-- Shared bytes: where they lie, and what they are. -/
structure Arc (P : Type*) where
  ptr : Nat
  val : P
deriving DecidableEq

instance {P : Type*} [Payload P] : Payload (Arc P) := ⟨fun a => len a.val⟩

abbrev Cache := Option (Nat × Nat × Option RegistryFacts)

def claimTopic (norm : String) : Topic := ["hforum", "u", norm]

def adminTopic : Topic := ["hforum", "admin"]

section

variable {P : Type*} [Payload P] (env : Env P) (pol : ForumPolicy)

/-- What the kept list says: remembered, or read now. -/
def registryFacts (cache : Cache) (r : Retained (Arc P)) : Option RegistryFacts × Cache :=
  match pol.registrar, r.get registryTopic with
  | some key, some bytes =>
    match cache with
    | some (p, l, facts) =>
      if (p, l) = (bytes.ptr, len bytes) then (facts, cache)
      else
        let facts := readRegistry env key bytes.val
        (facts, some (bytes.ptr, len bytes, facts))
    | none =>
      let facts := readRegistry env key bytes.val
      (facts, some (bytes.ptr, len bytes, facts))
  | _, _ => (none, cache)

def keptKey (r : Retained (Arc P)) (topic : Topic) : Option String := (r.metaOf topic).bind Meta.pk

def nameOwner (cache : Cache) (norm : String) (r : Retained (Arc P)) : Option String × Cache :=
  let (facts, cache) := registryFacts env pol cache r
  match facts.bind (·.names.get? norm) with
  | some pk => (some pk, cache)
  | none => (keptKey r (claimTopic norm), cache)

/-- The override, or the admin of the registrar's list. -/
def namedModerator (cache : Cache) (r : Retained (Arc P)) : Option String × Cache :=
  match pol.moderator with
  | some m => (some m, cache)
  | none =>
    let (facts, cache) := registryFacts env pol cache r
    (facts.bind RegistryFacts.admin, cache)

/-- Who was named, else who made the first claim on `hforum/admin`. -/
def moderatorKey (cache : Cache) (r : Retained (Arc P)) : Option String × Cache :=
  let (named, cache) := namedModerator env pol cache r
  match named with
  | some m => (some m, cache)
  | none => (keptKey r adminTopic, cache)

/-- The fact against what is kept; `meter` is what the meter on new names says, if it is asked. -/
def weigh (meter : Bool) (cache : Cache) (fact : Fact) (topic : Topic) (r : Retained (Arc P)) :
    Option String × Cache :=
  let existing := r.metaOf topic
  let existingPk := existing.bind Meta.pk
  match fact with
  | .chat => (none, cache)
  | .report =>
    (if existing.isNone ∧ maxReports ≤ r.count ["hforum", "rep"] then some "report: cap reached" else none, cache)
  | .claim norm pk =>
    let (facts, cache) := registryFacts env pol cache r
    match facts.bind (·.names.get? norm) with
    | some owner => (if owner ≠ pk then some "claim: the registry gives this name to another key" else none, cache)
    | none =>
      match existingPk with
      | some owner => (if owner ≠ pk then some "claim: name taken" else none, cache)
      | none =>
        (if maxClaims ≤ r.count ["hforum", "u"] then some "claim: cap reached"
         else if 1 ≤ r.claimsOf pk then some "claim: this key already holds a name"
         else if !meter then some "claim: too many new names right now"
         else none, cache)
  | .tombstone pk =>
    match existingPk with
    | some owner => (if owner = pk then none else some "tombstone: not the author", cache)
    | none => (some "tombstone: nothing to delete", cache)
  | .post id pk nickNorm =>
    if existing.any Meta.tombstone then (some "post: deleted", cache)
    else if existingPk.any (· ≠ pk) then (some "post: id belongs to another key", cache)
    else if (r.topicOfId id).any (· ≠ topic) then (some "post: id already used under another topic", cache)
    else if existing.isNone ∧ maxPosts ≤ r.count ["hforum", "t"] + r.count ["hforum", "r"] then
      (some "post: cap reached", cache)
    else
      let (owner, cache) := nameOwner env pol cache nickNorm r
      match owner with
      | some owner => (if owner = pk then none else some "post: nickname belongs to another key", cache)
      | none => (some "post: nickname not claimed", cache)
  | .hide pk =>
    let (moderator, cache) := moderatorKey env pol cache r
    match moderator with
    | some m =>
      if m = pk then
        (if existing.isNone ∧ maxHides ≤ r.count ["hforum", "mod"] then some "hide: cap reached" else none, cache)
      else (some "hide: not the moderator", cache)
    | none => (some "hide: no moderator yet", cache)
  | .admin pk =>
    let (named, cache) := namedModerator env pol cache r
    match named with
    | some m => (if m ≠ pk then some "admin: not the moderator the operator named" else none, cache)
    | none =>
      match existingPk with
      | some owner => (if owner ≠ pk then some "admin: already claimed" else none, cache)
      | none => (none, cache)
  | .registry seq =>
    let (facts, cache) := registryFacts env pol cache r
    if facts.isSome ∧ (existing.bind Meta.seq).any (seq ≤ ·) then
      (some "registry: not newer than the one kept", cache)
    else (none, none)

/-- The names the registrar did not take, long enough before its list came. -/
def sweep (cache : Cache) (r : Retained (Arc P)) : List Topic × Cache :=
  let (facts, cache) := registryFacts env pol cache r
  match facts, r.since registryTopic with
  | some facts, some listSince =>
    (((r.ofClass ["hforum", "u"]).filter fun (topic, e) =>
      let norm := String.intercalate "/" (topic.drop 2)
      let listedToThisKey := (facts.names.get? norm).any fun owner => e.signed.pk = some owner
      !listedToThisKey && decide (e.since + unlistedNameGrace < listSince)).map Prod.fst, cache)
  | _, _ => ([], cache)

/-! ### The relay -/

structure Forum (P : Type*) where
  retained : Retained (Arc P)
  cache : Cache

def Forum.empty : Forum P := ⟨Retained.empty, none⟩

def Retained.holds [DecidableEq P] (r : Retained (Arc P)) (topic : Topic) (payload : P) : Bool :=
  (r.get topic).any (·.val = payload)

variable [DecidableEq P]

/-- Keeps a publish that the policy prepared; `false` where it is refused after all.  `queued` is whether the store
takes the write. -/
def publish (s : Forum P) (topic : Topic) (payload : Arc P) (retain : Bool) (fact : Fact) (m : Meta) (now : Nat)
    (meter queued : Bool) : Bool × Forum P :=
  if retain ∧ !isEmpty payload.val ∧ s.retained.holds topic payload.val then (false, s)
  else if retain ∧ !isEmpty payload.val ∧ (s.retained.refuseRoom topic (len payload) m).isSome then (false, s)
  else
    let (reason, cache) := weigh env pol meter s.cache fact topic s.retained
    if reason.isSome then (false, { s with cache })
    else if retain then
      if !queued then (false, { s with cache })
      else if isEmpty payload.val then (true, ⟨(s.retained.remove topic).2, cache⟩)
      else (true, ⟨s.retained.insertAt topic payload m now, cache⟩)
    else (true, { s with cache })

def payloadLimit (topic : Topic) : Nat := if topic = registryTopic then maxRegistryPayload else maxPayload

/-- A PUBLISH as its connection handles it. -/
def handlePublish (s : Forum P) (topic : Topic) (payload : Arc P) (retain : Bool) (now : Nat) (meter queued : Bool) :
    Bool × Forum P :=
  if allowedTopic topic ∧ len payload ≤ payloadLimit topic then
    match check env pol topic payload.val retain with
    | .ok fact =>
      let m := if retain ∧ !isEmpty payload.val then metaFor env topic payload.val else Meta.default
      publish env pol s topic payload retain fact m now meter queued
    | .error _ => (false, s)
  else (false, s)

inductive Event (P : Type*) where
  /-- Anyone's publish, with the clock, the meter and the store as they are then. -/
  | publish (topic : Topic) (payload : Arc P) (retain : Bool) (now : Nat) (meter queued : Bool)
  | sweep (queued : Topic → Bool)

def removeQueued (r : Retained (Arc P)) (queued : Topic → Bool) (gone : List Topic) : Retained (Arc P) :=
  gone.foldl (fun r topic => if queued topic then (r.remove topic).2 else r) r

def Forum.step (s : Forum P) : Event P → Forum P
  | .publish topic payload retain now meter queued =>
    (handlePublish env pol s topic payload retain now meter queued).2
  | .sweep queued =>
    let (gone, cache) := sweep env pol s.cache s.retained
    ⟨removeQueued s.retained queued gone, cache⟩

def forumAfter (es : List (Event P)) : Forum P := run (Forum.step env pol) Forum.empty es

end

end HidraNet.Hidrarelay
