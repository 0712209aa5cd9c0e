import HidraNet.Core.Pass

/-!
# Service descriptors

A hidden service's descriptor, signed by the service's own key: where the service can be reached.  The hash and the
signatures are the libraries' (`DescriptorCrypto`).
-/

namespace HidraNet.Dht

open HidraNet.Core (Bytes asBytes)

/-- The libraries' part. -/
structure DescriptorCrypto where
  blake3 : Bytes → Bytes
  /-- `VerifyingKey::from_bytes` takes it. -/
  isKey : Bytes → Bool
  verifyStrict : Bytes → Bytes → Bytes → Bool

structure ServiceDescriptor where
  servicePubkey : Bytes
  introPoints : List String
  /-- Larger is newer: the signer's clock in seconds when it signed. -/
  revision : Nat
  signature : Bytes
deriving DecidableEq

def MAX_INTRO_POINTS : Nat := 8

def DOMAIN : Bytes := asBytes "hidra/service-descriptor/v1"

variable (c : DescriptorCrypto)

def serviceHashOf (servicePubkey : Bytes) : Bytes := (c.blake3 servicePubkey).take 20

/-- `u64::to_le_bytes`. -/
def toLeBytes (n : Nat) : Bytes := (List.range 8).map fun i => UInt8.ofNat (n / 256 ^ i)

def signedBytes (serviceHash servicePubkey : Bytes) (revision : Nat) (introPoints : List String) : Bytes :=
  DOMAIN ++ serviceHash ++ servicePubkey ++ toLeBytes revision ++ [UInt8.ofNat introPoints.length] ++
    introPoints.flatMap fun p => UInt8.ofNat (asBytes p).length :: asBytes p

namespace ServiceDescriptor

def serviceHash (d : ServiceDescriptor) : Bytes := serviceHashOf c d.servicePubkey

/-- The descriptor is the service's: published under `expectedHash`, the hash of the key that signed it. -/
def verify (d : ServiceDescriptor) (expectedHash : Bytes) : Except String Unit :=
  if d.serviceHash c ≠ expectedHash then .error "service descriptor: the key is not the one this address names"
  else if d.introPoints.isEmpty || d.introPoints.length > MAX_INTRO_POINTS then
    .error "service descriptor: between 1 and 8 introduction points"
  else if d.signature.length ≠ 64 then .error "service descriptor: a signature is 64 bytes"
  else if !c.isKey d.servicePubkey then .error "service descriptor: not an Ed25519 key"
  else if !c.verifyStrict d.servicePubkey (signedBytes expectedHash d.servicePubkey d.revision d.introPoints)
      d.signature then
    .error "service descriptor: the service did not sign this"
  else .ok ()

end ServiceDescriptor

end HidraNet.Dht
