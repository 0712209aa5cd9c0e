import HidraNet.Lib.Aead
import HidraNet.Lib.Ints
import HidraNet.Onion.Cell

/-!
# Layers

A hop and the client share a layer of the circuit: a key for each direction, and in each direction the count of the next
cell, which is its nonce.

The cipher is ideal: `encrypt` gives the bytes, and what opens is what was sealed (`Aead.opened`).  `expand` derives the
keys from the session key, under a label for each direction.
-/

namespace HidraNet.Onion

open HidraNet.Core (Bytes asBytes)
open Aead
open Ints
open Wire

abbrev SealedCell := Sealed Bytes Bytes Bytes

def FORWARD_LABEL : Bytes := asBytes "HidraNet onion layer v2: client to hop"
def BACKWARD_LABEL : Bytes := asBytes "HidraNet onion layer v2: hop to client"

def U64_MAX : Nat := 2 ^ 64 - 1

/-- The nonce of the `n`-th cell. -/
def nonceOf (n : Nat) : Bytes := List.replicate 4 0 ++ beBytes 8 n

theorem nonceOf_inj {m n : Nat} (hm : m < 2 ^ 64) (hn : n < 2 ^ 64) (h : nonceOf m = nonceOf n) : m = n :=
  beBytes_inj (k := 8) (by omega) (by omega) (List.append_cancel_left h)

/-! ### One direction -/

structure Direction where
  key : Bytes
  next : Nat
deriving DecidableEq

namespace Direction

def nonce (d : Direction) : Bytes := nonceOf d.next

def exhausted : String := "circuit layer exhausted its cell count"

def notNext : String := "layer cell did not open: not the next cell of this circuit"

variable (encrypt : Bytes → Bytes → Bytes → Bytes)

def cell (d : Direction) (plaintext : Bytes) : SealedCell :=
  ⟨d.key, d.nonce, plaintext, encrypt d.key d.nonce plaintext⟩

/-- `Direction::seal`. -/
def sealNext (d : Direction) (plaintext : Bytes) : Except String (SealedCell × Direction) :=
  if d.next = U64_MAX then .error exhausted
  else .ok (d.cell encrypt plaintext, { d with next := d.next + 1 })

/-- `Direction::open`: the count moves once the cell has opened. -/
def openNext (log : List SealedCell) (d : Direction) (ciphertext : Bytes) : Except String Bytes × Direction :=
  match opened log d.key d.nonce ciphertext with
  | some plaintext => (.ok plaintext, { d with next := wrap64 (d.next + 1) })
  | none => (.error notNext, d)

variable {encrypt} {d : Direction} {log : List SealedCell} {plaintext c : Bytes}

theorem sealNext_of_ne (h : d.next ≠ U64_MAX) :
    d.sealNext encrypt plaintext = .ok (d.cell encrypt plaintext, { d with next := d.next + 1 }) := if_neg h

theorem sealNext_of_eq (h : d.next = U64_MAX) : d.sealNext encrypt plaintext = .error exhausted := if_pos h

theorem openNext_of_some (h : opened log d.key d.nonce c = some plaintext) :
    d.openNext log c = (.ok plaintext, { d with next := wrap64 (d.next + 1) }) := by
  unfold openNext
  rw [h]

theorem openNext_of_none (h : opened log d.key d.nonce c = none) :
    d.openNext log c = (.error notNext, d) := by
  unfold openNext
  rw [h]

end Direction

/-! ### Both directions -/

structure LayerCipher where
  forward : Direction
  backward : Direction
deriving DecidableEq

def frame (header : LayerHeader) (inner : Bytes) : Bytes :=
  beBytes 4 header.serializeBincode.length ++ header.serializeBincode ++ inner

def unframe (plaintext : Bytes) : Except String (LayerHeader × Bytes) :=
  if plaintext.length < 4 then .error "decrypted layer too short for header length"
  else
    let headerLen := ofBe (plaintext.take 4)
    if plaintext.length < 4 + headerLen then .error "decrypted layer too short for header"
    else
      match LayerHeader.deserializeBincode ((plaintext.drop 4).take headerLen) with
      | .error e => .error e
      | .ok header => .ok (header, plaintext.drop (4 + headerLen))

theorem unframe_frame (next : Option HopAddr) (inner : Bytes) :
    unframe (frame ⟨next.map Subtype.val⟩ inner) = .ok (⟨next.map fun a => carried a.val⟩, inner) := by
  have hsmall := length_serializeBincode next
  have hread := deserialize_serialize next
  unfold frame
  generalize LayerHeader.serializeBincode ⟨next.map Subtype.val⟩ = bytes at hsmall hread ⊢
  have hlen : (beBytes 4 bytes.length ++ bytes ++ inner).length = 4 + bytes.length + inner.length := by simp [Nat.add_assoc]
  have htake : (beBytes 4 bytes.length ++ bytes ++ inner).take 4 = beBytes 4 bytes.length := by
    rw [List.append_assoc]
    exact List.take_left' (length_beBytes ..)
  have hheader : ((beBytes 4 bytes.length ++ bytes ++ inner).drop 4).take bytes.length = bytes := by
    rw [List.append_assoc, List.drop_left' (length_beBytes ..), List.take_left]
  have hinner : (beBytes 4 bytes.length ++ bytes ++ inner).drop (4 + bytes.length) = inner :=
    List.drop_left' (by simp)
  unfold unframe
  simp only [htake, ofBe_beBytes hsmall, hheader, hread, hinner, hlen]
  rw [if_neg (by omega), if_neg (by omega)]

namespace LayerCipher

variable (expand : Bytes → Bytes → Bytes) (encrypt : Bytes → Bytes → Bytes → Bytes) (log : List SealedCell)

def new (sessionKey : Bytes) : LayerCipher :=
  ⟨⟨expand sessionKey FORWARD_LABEL, 0⟩, ⟨expand sessionKey BACKWARD_LABEL, 0⟩⟩

def sealForward (l : LayerCipher) (plaintext : Bytes) : Except String (SealedCell × LayerCipher) :=
  (l.forward.sealNext encrypt plaintext).map fun r => (r.1, { l with forward := r.2 })

def openForward (l : LayerCipher) (ciphertext : Bytes) : Except String Bytes × LayerCipher :=
  let r := l.forward.openNext log ciphertext
  (r.1, { l with forward := r.2 })

def sealBackward (l : LayerCipher) (plaintext : Bytes) : Except String (SealedCell × LayerCipher) :=
  (l.backward.sealNext encrypt plaintext).map fun r => (r.1, { l with backward := r.2 })

def openBackward (l : LayerCipher) (ciphertext : Bytes) : Except String Bytes × LayerCipher :=
  let r := l.backward.openNext log ciphertext
  (r.1, { l with backward := r.2 })

def sealForwardCell (l : LayerCipher) (header : LayerHeader) (inner : Bytes) :
    Except String (SealedCell × LayerCipher) := l.sealForward encrypt (frame header inner)

def openForwardCell (l : LayerCipher) (ciphertext : Bytes) : Except String (LayerHeader × Bytes) × LayerCipher :=
  let r := l.openForward log ciphertext
  (r.1.bind unframe, r.2)

def nextForward (l : LayerCipher) (c : Bytes) : Option Bytes := opened log l.forward.key l.forward.nonce c

def nextBackward (l : LayerCipher) (c : Bytes) : Option Bytes := opened log l.backward.key l.backward.nonce c

def movedForward (l : LayerCipher) : LayerCipher :=
  { l with forward := { l.forward with next := wrap64 (l.forward.next + 1) } }

def movedBackward (l : LayerCipher) : LayerCipher :=
  { l with backward := { l.backward with next := wrap64 (l.backward.next + 1) } }

variable {encrypt log} {l : LayerCipher} {c plaintext : Bytes}

theorem sealForward_of_ne (h : l.forward.next ≠ U64_MAX) :
    l.sealForward encrypt plaintext =
      .ok (l.forward.cell encrypt plaintext,
        { l with forward := { l.forward with next := l.forward.next + 1 } }) := by
  unfold sealForward
  rw [Direction.sealNext_of_ne h]
  rfl

theorem sealForward_of_eq (h : l.forward.next = U64_MAX) :
    l.sealForward encrypt plaintext = .error Direction.exhausted := by
  unfold sealForward
  rw [Direction.sealNext_of_eq h]
  rfl

theorem sealBackward_of_ne (h : l.backward.next ≠ U64_MAX) :
    l.sealBackward encrypt plaintext =
      .ok (l.backward.cell encrypt plaintext,
        { l with backward := { l.backward with next := l.backward.next + 1 } }) := by
  unfold sealBackward
  rw [Direction.sealNext_of_ne h]
  rfl

theorem sealBackward_of_eq (h : l.backward.next = U64_MAX) :
    l.sealBackward encrypt plaintext = .error Direction.exhausted := by
  unfold sealBackward
  rw [Direction.sealNext_of_eq h]
  rfl

theorem openForward_of_some (h : l.nextForward log c = some plaintext) :
    l.openForward log c = (.ok plaintext, l.movedForward) := by
  unfold openForward
  rw [Direction.openNext_of_some h]
  rfl

theorem openForward_of_none (h : l.nextForward log c = none) : l.openForward log c = (.error Direction.notNext, l) := by
  unfold openForward
  rw [Direction.openNext_of_none h]

theorem openBackward_of_some (h : l.nextBackward log c = some plaintext) :
    l.openBackward log c = (.ok plaintext, l.movedBackward) := by
  unfold openBackward
  rw [Direction.openNext_of_some h]
  rfl

theorem openBackward_of_none (h : l.nextBackward log c = none) : l.openBackward log c = (.error Direction.notNext, l) := by
  unfold openBackward
  rw [Direction.openNext_of_none h]

theorem openForwardCell_of_some (h : l.nextForward log c = some plaintext) :
    l.openForwardCell log c = (unframe plaintext, l.movedForward) := by
  unfold openForwardCell
  rw [openForward_of_some h]
  rfl

theorem openForwardCell_of_none (h : l.nextForward log c = none) :
    l.openForwardCell log c = (.error Direction.notNext, l) := by
  unfold openForwardCell
  rw [openForward_of_none h]
  rfl

end LayerCipher

def SameKeys (a b : LayerCipher) : Prop := a.forward.key = b.forward.key ∧ a.backward.key = b.backward.key

def DistinctKeys {ι : Type*} (expand : Bytes → Bytes → Bytes) (session : ι → Bytes) : Prop :=
  ∀ i j, ∀ label ∈ [FORWARD_LABEL, BACKWARD_LABEL], ∀ label' ∈ [FORWARD_LABEL, BACKWARD_LABEL],
    expand (session i) label = expand (session j) label' → i = j ∧ label = label'

theorem distinctKeys_append {ι : Type*} {session : ι → Bytes} (h : Function.Injective session) :
    DistinctKeys (fun key label => label ++ key) session := by
  intro i j label hlabel label' hlabel' heq
  have hlength : ∀ label ∈ [FORWARD_LABEL, BACKWARD_LABEL], label.length = 38 := by decide +kernel
  obtain ⟨hl, hs⟩ := List.append_inj heq ((hlength label hlabel).trans (hlength label' hlabel').symm)
  exact ⟨h hs, hl⟩

end HidraNet.Onion
