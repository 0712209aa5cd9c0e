import HidraNet.Core.Pass
import HidraNet.Lib.Net
import HidraNet.Lib.Wire

/-!
# Cells

A cell's innermost body is a command with its length before it and zeros after, always as long.  A control cell has a
header in every layer, with the address of the next hop.

An address travels without the scope of an IPv6 one (`HopAddr.carried`); for the rest, what is read back is what was
written (`unpad_pad`, `deserialize_serialize`).
-/

namespace HidraNet.Onion

open HidraNet.Core (Bytes)
open Net
open Wire

/-! ### Bodies -/

def CELL_BODY : Nat := 2048
def LEN_PREFIX : Nat := 2
def MAX_COMMAND : Nat := CELL_BODY - LEN_PREFIX

def padCell (command : Bytes) : Except String Bytes :=
  if command.length > MAX_COMMAND then
    .error ("a " ++ toString command.length ++ "-byte command does not fit one cell (" ++ toString MAX_COMMAND ++
      " at most)")
  else
    let body := beBytes 2 command.length ++ command
    .ok (body ++ List.replicate (CELL_BODY - body.length) 0)

def unpadCell (body : Bytes) : Except String Bytes :=
  if body.length ≠ CELL_BODY then
    .error ("a cell body of " ++ toString body.length ++ " bytes, not " ++ toString CELL_BODY)
  else
    let len := ofBe (body.take 2)
    if len > MAX_COMMAND then .error "a cell's length field runs past its body"
    else .ok ((body.drop LEN_PREFIX).take len)

theorem unpad_pad {command body : Bytes} (h : padCell command = .ok body) : unpadCell body = .ok command := by
  unfold padCell at h
  split at h
  · cases h
  · rename_i hlen
    cases h
    have hfits : command.length < 256 ^ 2 := by
      unfold MAX_COMMAND CELL_BODY LEN_PREFIX at hlen
      omega
    have hbody : (beBytes 2 command.length ++ command ++
        List.replicate (CELL_BODY - (beBytes 2 command.length ++ command).length) 0).length = CELL_BODY := by
      simp only [List.length_append, List.length_replicate, length_beBytes]
      unfold MAX_COMMAND CELL_BODY LEN_PREFIX at hlen
      unfold CELL_BODY
      omega
    have htake : (beBytes 2 command.length ++ (command ++
        List.replicate (CELL_BODY - (beBytes 2 command.length ++ command).length) 0)).take 2 =
          beBytes 2 command.length := List.take_left' (length_beBytes ..)
    have hdrop : (beBytes 2 command.length ++ (command ++
        List.replicate (CELL_BODY - (beBytes 2 command.length ++ command).length) 0)).drop 2 =
          command ++ List.replicate (CELL_BODY - (beBytes 2 command.length ++ command).length) 0 :=
      List.drop_left' (length_beBytes ..)
    unfold unpadCell
    rw [if_neg (not_not.2 hbody), List.append_assoc]
    simp only [LEN_PREFIX, htake, hdrop, ofBe_beBytes hfits, if_neg hlen, List.take_left]

/-! ### Headers -/

def Fits : SocketAddr → Prop
  | .v4 ip port => ip < 256 ^ 4 ∧ port < 256 ^ 2
  | .v6 segments scope port => segments.length = 8 ∧ (∀ g ∈ segments, g < 256 ^ 2) ∧ scope < 256 ^ 4 ∧ port < 256 ^ 2

instance decidableFits : DecidablePred Fits
  | .v4 ip port => inferInstanceAs (Decidable (ip < 256 ^ 4 ∧ port < 256 ^ 2))
  | .v6 segments scope port =>
    inferInstanceAs (Decidable
      (segments.length = 8 ∧ (∀ g ∈ segments, g < 256 ^ 2) ∧ scope < 256 ^ 4 ∧ port < 256 ^ 2))

abbrev HopAddr := { a : SocketAddr // Fits a }

def carried : SocketAddr → SocketAddr
  | .v4 ip port => .v4 ip port
  | .v6 segments _ port => .v6 segments 0 port

structure LayerHeader where
  nextHop : Option SocketAddr
deriving DecidableEq

/-- `bincode::serialize` of an address: which kind, its octets and its port. -/
def serializeAddr : SocketAddr → Bytes
  | .v4 ip port => leBytes 4 0 ++ beBytes 4 ip ++ leBytes 2 port
  | .v6 segments _ port => leBytes 4 1 ++ segments.flatMap (beBytes 2) ++ leBytes 2 port

def readSegments : Nat → Bytes → List Nat
  | 0, _ => []
  | k + 1, bytes => ofBe (bytes.take 2) :: readSegments k (bytes.drop 2)

def deserializeAddr (bytes : Bytes) : Option SocketAddr :=
  let rest := bytes.drop 4
  if bytes.length < 4 then none
  else
    match ofLe (bytes.take 4) with
    | 0 => if rest.length < 6 then none else some (.v4 (ofBe (rest.take 4)) (ofLe ((rest.drop 4).take 2)))
    | 1 =>
      if rest.length < 18 then none else some (.v6 (readSegments 8 rest) 0 (ofLe ((rest.drop 16).take 2)))
    | _ => none

namespace LayerHeader

def serializeBincode (header : LayerHeader) : Bytes :=
  match header.nextHop with
  | none => [0]
  | some hop => 1 :: serializeAddr hop

def deserializeBincode : Bytes → Except String LayerHeader
  | 0 :: _ => .ok ⟨none⟩
  | 1 :: rest =>
    match deserializeAddr rest with
    | some hop => .ok ⟨some hop⟩
    | none => .error "header deserialization failed"
  | _ => .error "header deserialization failed"

end LayerHeader

private theorem readSegments_flatMap {segments : List Nat} (h : ∀ g ∈ segments, g < 256 ^ 2) (rest : Bytes) :
    readSegments segments.length (segments.flatMap (beBytes 2) ++ rest) = segments := by
  induction segments with
  | nil => rfl
  | cons g segments ih =>
    rw [List.flatMap_cons, List.append_assoc, List.length_cons, readSegments, List.take_left' (length_beBytes ..),
      List.drop_left' (length_beBytes ..), ofBe_beBytes (h g List.mem_cons_self),
      ih fun g' hg' => h g' (List.mem_cons_of_mem _ hg')]

private theorem length_flatMap_beBytes (segments : List Nat) :
    (segments.flatMap (beBytes 2)).length = 2 * segments.length := by
  induction segments with
  | nil => rfl
  | cons g segments ih =>
    rw [List.flatMap_cons, List.length_append, ih, length_beBytes, List.length_cons]
    omega

theorem deserializeAddr_serializeAddr {a : SocketAddr} (ha : Fits a) :
    deserializeAddr (serializeAddr a) = some (carried a) := by
  cases a with
  | v4 ip port =>
    have hport : (beBytes 4 ip ++ leBytes 2 port).drop 4 = leBytes 2 port := List.drop_left' (length_beBytes ..)
    have htake : (leBytes 2 port).take 2 = leBytes 2 port := List.take_of_length_le (by simp)
    rw [serializeAddr, List.append_assoc, deserializeAddr, List.take_left' (length_leBytes ..),
      List.drop_left' (length_leBytes ..),
      ofLe_leBytes (by omega)]
    simp only [List.length_append, length_leBytes, length_beBytes, List.take_left' (length_beBytes 4 ip), hport, htake,
      ofBe_beBytes ha.1, ofLe_leBytes ha.2]
    rfl
  | v6 segments scope port =>
    obtain ⟨hlen, hsegments, -, hport⟩ := ha
    have hlength : (segments.flatMap (beBytes 2)).length = 16 := by rw [length_flatMap_beBytes, hlen]
    have hread : readSegments 8 (segments.flatMap (beBytes 2) ++ leBytes 2 port) = segments := by
      rw [← hlen]
      exact readSegments_flatMap hsegments _
    have htake : (leBytes 2 port).take 2 = leBytes 2 port := List.take_of_length_le (by simp)
    rw [serializeAddr, List.append_assoc, deserializeAddr, List.take_left' (length_leBytes ..),
      List.drop_left' (length_leBytes ..),
      ofLe_leBytes (by omega)]
    simp only [List.length_append, length_leBytes, hlength, hread, List.drop_left' hlength, htake, ofLe_leBytes hport]
    rfl

/-- A header is read as it was written, an IPv6 address without its scope. -/
theorem deserialize_serialize (next : Option HopAddr) :
    LayerHeader.deserializeBincode (LayerHeader.serializeBincode ⟨next.map Subtype.val⟩) =
      .ok ⟨next.map fun a => carried a.val⟩ := by
  cases next with
  | none => rfl
  | some a =>
    simp [LayerHeader.serializeBincode, LayerHeader.deserializeBincode, deserializeAddr_serializeAddr a.property]

theorem length_serializeBincode (next : Option HopAddr) :
    (LayerHeader.serializeBincode ⟨next.map Subtype.val⟩).length < 256 ^ 4 := by
  cases next with
  | none => simp [LayerHeader.serializeBincode]
  | some a =>
    obtain ⟨a, ha⟩ := a
    cases a with
    | v4 ip port => simp [LayerHeader.serializeBincode, serializeAddr]
    | v6 segments scope port =>
      simp [LayerHeader.serializeBincode, serializeAddr, ha.1]

end HidraNet.Onion
