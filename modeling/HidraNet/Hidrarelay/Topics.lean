import Mathlib

/-!
# Topics and filters

A topic is given by its levels, what `split('/')` makes of it; its text is the levels with a `/` between two.  `#` and
`+` stand only in filters.  What is kept is counted by the kind of its topic (`topicClass`), and a post or a reply is
known by the id its topic ends in (`postId`).
-/

namespace HidraNet.Hidrarelay

abbrev Topic := List String

/-! ### Limits -/

def maxPayload : Nat := 128 * 1024
def maxRegistryPayload : Nat := 640 * 1024
def maxTopicBytes : Nat := 256
def maxSubscriptionsPerClient : Nat := 12
def maxRetainedMessages : Nat := 50000
def maxRetainedBytes : Nat := 32 * 1024 * 1024
def retainedReserveBytes : Nat := 4 * 1024 * 1024
def maxBytesPerAuthor : Nat := 4 * 1024 * 1024
def maxQueueBytes : Nat := 1024 * 1024
def storeQueue : Nat := 4096
def storeBatch : Nat := 256

/-- `ALLOWED_PREFIXES`, without the `/` each ends in. -/
def allowedPrefixes : List String := ["hidra", "hforum"]

def moderationClasses : List Topic := [["hforum", "registry"], ["hforum", "mod"], ["hforum", "admin"]]

def registryTopic : Topic := ["hforum", "registry"]

def textLen (topic : Topic) : Nat := (topic.map String.utf8ByteSize).sum + (topic.length - 1)

def hasAny (cs : List Char) (level : String) : Bool := level.toList.any (· ∈ cs)

/-- A topic that starts with a prefix goes on after its `/`. -/
def allowedTopic (topic : Topic) : Bool :=
  textLen topic ≠ 0 && textLen topic ≤ maxTopicBytes && !topic.any (hasAny ['#', '+', '\x00']) &&
    match topic with
    | first :: _ :: _ => first ∈ allowedPrefixes
    | _ => false

def allowedFilter (filter : Topic) : Bool :=
  textLen filter ≠ 0 && textLen filter ≤ maxTopicBytes && !filter.any (hasAny ['\x00']) &&
    (filter.head?.any (· ∈ allowedPrefixes)) &&
    filter.dropLast.all (· ≠ "#") && filter.all fun s => s = "#" || s = "+" || !hasAny ['#', '+'] s

def topicMatches : (filter topic : Topic) → Bool
  | "#" :: _, _ => true
  | f :: filter, t :: topic => (f = "+" || f = t) && topicMatches filter topic
  | [], [] => true
  | _, _ => false

def topicClass (topic : Topic) : Topic := topic.take 2

def postId : Topic → Option String
  | ["hforum", "t", id] => some id
  | ["hforum", "r", _, id] => some id
  | _ => none

def byteLimitFor (topic : Topic) : Nat :=
  let c := topicClass topic
  if c ∈ moderationClasses then maxRetainedBytes
  else if c = ["hforum", "u"] then maxRetainedBytes - retainedReserveBytes
  else maxRetainedBytes - 2 * retainedReserveBytes

theorem byteLimitFor_le (topic : Topic) : byteLimitFor topic ≤ maxRetainedBytes := by
  unfold byteLimitFor
  dsimp only
  split
  · exact Nat.le_refl _
  · split <;> exact Nat.sub_le ..

theorem postId_cases {topic : Topic} {i : String} (h : postId topic = some i) :
    topic = ["hforum", "t", i] ∨ ∃ tid, topic = ["hforum", "r", tid, i] := by
  unfold postId at h
  split at h
  · cases h
    exact Or.inl rfl
  · cases h
    exact Or.inr ⟨_, rfl⟩
  · cases h

example : topicMatches ["hforum", "+", "#"] ["hforum", "r", "tabc", "rdef"] = true := by decide

example : allowedFilter ["#"] = false ∧ allowedFilter ["hforum", "#"] = true := by decide

end HidraNet.Hidrarelay
