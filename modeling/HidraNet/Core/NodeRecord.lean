import HidraNet.Lib.Net
import HidraNet.Core.Pass

/-!
# Node records

A node as a list names it: its key, where it is, who runs it and how it admits.

A record that is taken has a key and an IPv4 endpoint (`NodeRecord.validate_ok`).
-/

namespace HidraNet.Core

open Net Text
open Redemption (ensure)

/-- `Context::context`: what the error says is this. -/
def context {α : Type} (x : Except String α) (why : String) : Except String α := x.mapError fun _ => why

structure NodeRecord where
  nodeName : String
  nodePublicKey : String
  /-- `ip:port`. -/
  endpoint : String
  operator : Option String
  contact : Option String
  role : Option String
  admission : Option String
  admissionPort : Option Nat
  country : Option String
  features : List String
deriving DecidableEq

def SESSIONS : String := "sessions"
def ADMISSION_RELAY : String := "admission-relay"

def normaliseCountry (c : String) : Except String String :=
  let c := trim c
  if (asBytes c).length = 2 ∧ c.toList.all Char.isAlpha then .ok (String.ofList (c.toList.map Char.toUpper))
  else .error ("a country is two letters (ISO 3166-1 alpha-2, such as FI or DE), not " ++ debug c)

namespace NodeRecord

def key (r : NodeRecord) : String := trim r.nodePublicKey

section

variable {Pk : Type} (c : Crypto Pk)

def validate (r : NodeRecord) : Except String Unit := do
  let name := trim r.nodeName
  ensure (name ≠ "") "a node in the list has no name"
  ensure ((asBytes name).length ≤ 32 ∧ name.toList.all fun c => c.isAlphanum || c = '-' || c = '_' || c = '.')
    ("the name of a node must be 1-32 letters, digits, '-', '_' or '.': " ++ debug name)
  ensure (r.operator.all fun o => o.toList.length ≤ 64)
    ("the operator of " ++ name ++ " is longer than 64 characters")
  ensure (r.contact.all fun c => c.toList.length ≤ 128)
    ("the contact of " ++ name ++ " is longer than 128 characters")
  let _ ← context (publicKeyFromBase64 c r.nodePublicKey) ("the key of " ++ r.nodeName ++ " in the list")
  let endpoint ← (parseSocketAddr r.endpoint.toList).elim
    (.error ("the endpoint of " ++ r.nodeName ++ " is not ip:port")) .ok
  ensure endpoint.isIpv4 ("the endpoint of " ++ r.nodeName ++
    " is an IPv6 address; a node is reached over IPv4 in this phase")
  ensure (r.country.all fun c => (normaliseCountry c).isOk) ("the country of " ++ r.nodeName)
  ensure (r.role.all fun r => toAsciiLowercase (trim r) ∈ ["entry", "exit", "both"])
    ("the role of " ++ r.nodeName ++ " must be entry, exit or both")
  ensure (r.admission.all fun a => toAsciiLowercase (trim a) ∈ ["open", "manual", "pass"])
    ("the admission of " ++ r.nodeName ++ " must be open, manual or pass")
  ensure (r.features.length ≤ 16 ∧ r.features.all fun f =>
      f ≠ "" && (asBytes f).length ≤ 32 && f.toList.all fun c => c.isLower || c = '-')
    ("the features of " ++ r.nodeName ++ " must be at most 16 short lower-case words")

end

def has (r : NodeRecord) (feature : String) : Bool := r.features.contains feature

def isOpen (r : NodeRecord) : Bool := r.admission.any fun a => eqIgnoreAsciiCase (trim a) "open"

def takesPasses (r : NodeRecord) : Bool := r.admission.any fun a => eqIgnoreAsciiCase (trim a) "pass"

end NodeRecord

/-! ### A record that is taken -/

variable {Pk : Type} {c : Crypto Pk} {r : NodeRecord}

theorem of_context {α : Type} {x : Except String α} {why : String} {a : α} (h : context x why = .ok a) : x = .ok a := by
  cases x with
  | ok b => exact h
  | error e => cases h

theorem of_elim_error {α : Type} {o : Option α} {why : String} {a : α}
    (h : o.elim (Except.error why) .ok = .ok a) : o = some a := by
  cases o with
  | none => cases h
  | some b =>
    cases h
    rfl

theorem NodeRecord.validate_ok (h : r.validate c = .ok ()) :
    (∃ k, publicKeyFromBase64 c r.nodePublicKey = .ok k) ∧
      (∃ a, parseSocketAddr r.endpoint.toList = some a ∧ a.isIpv4 = true) ∧
      r.country.all (fun c => (normaliseCountry c).isOk) = true := by
  unfold NodeRecord.validate at h
  obtain ⟨_, -, h⟩ := ok_of_bind h
  obtain ⟨_, -, h⟩ := ok_of_bind h
  obtain ⟨_, -, h⟩ := ok_of_bind h
  obtain ⟨_, -, h⟩ := ok_of_bind h
  obtain ⟨k, hkey, h⟩ := ok_of_bind h
  obtain ⟨a, ha, h⟩ := ok_of_bind h
  obtain ⟨_, hv4, h⟩ := ok_of_bind h
  obtain ⟨_, hcountry, -⟩ := ok_of_bind h
  exact ⟨⟨k, of_context hkey⟩, ⟨a, of_elim_error ha, of_ensure hv4⟩, of_ensure hcountry⟩

end HidraNet.Core
