import HidraNet.Lib.Books
import HidraNet.Lib.Runs
import HidraNet.Hidrarelay.Topics

/-!
# What is retained

The last retained message of each topic, with the books the limits and the policies need: bytes in all and for each
signing key, a count for each kind of topic, names for each key, and which topic holds each post id.  Whatever is
inserted and removed, the books say what the kept messages say (`Exact`); the index of ids alone may lose a topic that
is still kept, when another one with its id is removed first (`Indexed`).
-/

namespace HidraNet.Hidrarelay

open Maps Books Runs

/-- A payload; of its bytes the store asks only how many. -/
class Payload (P : Type*) where
  len : P → Nat

export Payload (len)

instance : Payload (List UInt8) := ⟨List.length⟩

/-- What the relay remembers beside a retained payload. -/
structure Meta where
  pk : Option String
  tombstone : Bool
  seq : Option Int
deriving DecidableEq

def Meta.default : Meta := ⟨none, false, none⟩

structure Entry (P : Type*) where
  payload : P
  signed : Meta
  since : Nat
deriving DecidableEq

structure Retained (P : Type*) where
  map : Map Topic (Entry P)
  bytes : Nat
  counts : Map Topic Nat
  ids : Map String Topic
  byAuthor : Map String Nat
  /-- How many names (`hforum/u/*`) each key holds. -/
  claimsByPk : Map String Nat
deriving DecidableEq

namespace Retained

variable {P : Type*}

def empty : Retained P := ⟨.empty, 0, .empty, .empty, .empty, .empty⟩

def get (r : Retained P) (topic : Topic) : Option P := (r.map.get? topic).map Entry.payload

def metaOf (r : Retained P) (topic : Topic) : Option Meta := (r.map.get? topic).map Entry.signed

def size (r : Retained P) : Nat := r.map.size

def count (r : Retained P) (c : Topic) : Nat := Books.count r.counts c

def authorBytes (r : Retained P) (pk : String) : Nat := Books.count r.byAuthor pk

def claimsOf (r : Retained P) (pk : String) : Nat := Books.count r.claimsByPk pk

def since (r : Retained P) (topic : Topic) : Option Nat := (r.map.get? topic).map Entry.since

def ofClass (r : Retained P) (c : Topic) : List (Topic × Entry P) :=
  r.map.entries.filter fun e => topicClass e.1 = c

def topicOfId (r : Retained P) (i : String) : Option Topic := r.ids.get? i

/-- The topics that match one of `filters` and none of `already`. -/
def topicsMatching (r : Retained P) (filters already : List Topic) : List Topic :=
  (r.map.entries.map Prod.fst).filter fun t =>
    filters.any (topicMatches · t) && !already.any (topicMatches · t)

def nameKey (topic : Topic) (e : Entry P) : Option String :=
  if topicClass topic = ["hforum", "u"] then e.signed.pk else none

variable [Payload P]

/-- Why a payload of this size, so signed, would not fit. -/
def refuseRoom (r : Retained P) (topic : Topic) (n : Nat) (m : Meta) : Option String :=
  let old := r.map.get? topic
  let oldLen := (old.map fun e => len e.payload).getD 0
  if old.isNone ∧ maxRetainedMessages ≤ r.size then some "store full: messages"
  else if byteLimitFor topic < r.bytes - oldLen + n then some "store full: bytes"
  else match m.pk with
    | none => none
    | some pk =>
      let sameAuthor := old.any fun e => e.signed.pk = some pk
      let held := r.authorBytes pk - if sameAuthor then oldLen else 0
      if maxBytesPerAuthor < held + n then some "store full: this key's share" else none

/-- Takes the topic away; whether there was anything to take is said with it. -/
def remove (r : Retained P) (topic : Topic) : Bool × Retained P :=
  match r.map.get? topic with
  | none => (false, r)
  | some old =>
    (true,
      { map := r.map.remove topic
        bytes := r.bytes - len old.payload
        counts := Books.take r.counts (topicClass topic) 1
        ids := match postId topic with
          | some i => if r.ids.get? i = some topic then r.ids.remove i else r.ids
          | none => r.ids
        byAuthor := takeAt r.byAuthor old.signed.pk (len old.payload)
        claimsByPk := takeAt r.claimsByPk (nameKey topic old) 1 })

/-- Keeps the payload, in place of what the topic held. -/
def insertAt (r : Retained P) (topic : Topic) (payload : P) (m : Meta) (since : Nat) : Retained P :=
  let r := (r.remove topic).2
  let e := ⟨payload, m, since⟩
  { map := r.map.set topic e
    bytes := r.bytes + len payload
    counts := Books.add r.counts (topicClass topic) 1
    ids := match postId topic with
      | some i => r.ids.set i topic
      | none => r.ids
    byAuthor := addAt r.byAuthor m.pk (len payload)
    claimsByPk := addAt r.claimsByPk (nameKey topic e) 1 }

end Retained

end HidraNet.Hidrarelay
