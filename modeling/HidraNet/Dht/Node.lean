import HidraNet.Dht.Descriptor
import HidraNet.Lib.Net

/-!
# Nodes and their ids

A node's id is twenty bytes: half of a hash of its key and a nonce, the other half being a puzzle that the nonce has
to solve.  Two ids are as far apart as the exclusive or of their bytes, compared from the first byte on, and the place
of the first one in it is the bucket of the one in the other's table.

Read as numbers (`value`), the distance is the exclusive or of the two (`distance_eq_xor`), its order is the order of
the bytes (`distance_lt_iff`) and the bucket is its binary logarithm (`bucketIndex_eq`).
-/

namespace HidraNet.Dht.Table

open HidraNet.Core (Bytes asBytes)
open Net

def ID_LEN : Nat := 20
def ID_BITS : Nat := ID_LEN * 8

structure NodeId where
  bytes : Bytes
  length_eq : bytes.length = ID_LEN
deriving DecidableEq

/-- `u8::leading_zeros`. -/
def leadingZeros (b : UInt8) : Nat := if b = 0 then 8 else 7 - Nat.log2 b.toNat

/-- The loop of `leading_bit_position` from the `i`-th byte on. -/
def leadingBitFrom (i : Nat) : Bytes → Option Nat
  | [] => none
  | byte :: rest =>
    if byte ≠ 0 then some ((ID_LEN - 1 - i) * 8 + (7 - leadingZeros byte)) else leadingBitFrom (i + 1) rest

def leadingBitPosition (data : Bytes) : Option Nat := leadingBitFrom 0 data

namespace NodeId

def xorDistance (a b : NodeId) : Bytes := List.zipWith (· ^^^ ·) a.bytes b.bytes

def bucketIndex (a b : NodeId) : Option Nat := leadingBitPosition (a.xorDistance b)

end NodeId

structure NodeInfo where
  id : NodeId
  dhtAddr : SocketAddr
  relayAddr : Option SocketAddr
  publicKey : Bytes
  idNonce : Nat
deriving DecidableEq

/-! ### The puzzle -/

def MAX_ID_PUZZLE_BITS : Nat := 64

def ID_DOMAIN : Bytes := asBytes "hidra/node-id/v1"

def leadingZeroBits : Bytes → Nat
  | [] => 0
  | b :: rest => if b = 0 then 8 + leadingZeroBits rest else leadingZeros b

section Puzzle

variable (blake3 : Bytes → Bytes)

def idHash (publicKey : Bytes) (nonce : Nat) : Bytes := blake3 (ID_DOMAIN ++ publicKey ++ toLeBytes nonce)

def idPuzzleOk (publicKey : Bytes) (nonce bits : Nat) : Bool :=
  leadingZeroBits ((idHash blake3 publicKey nonce).drop ID_LEN) ≥ min bits MAX_ID_PUZZLE_BITS

def NodeInfo.idIsValid (info : NodeInfo) (bits : Nat) : Bool :=
  info.id.bytes = (idHash blake3 info.publicKey info.idNonce).take ID_LEN &&
    idPuzzleOk blake3 info.publicKey info.idNonce bits

end Puzzle

/-! ### As numbers -/

def valueOf (data : Bytes) : Nat := data.foldl (fun n b => n * 256 + b.toNat) 0

theorem valueOf_append_singleton (l : Bytes) (b : UInt8) : valueOf (l ++ [b]) = valueOf l * 256 + b.toNat := by
  simp [valueOf]

theorem valueOf_cons (b : UInt8) (l : Bytes) : valueOf (b :: l) = b.toNat * 256 ^ l.length + valueOf l := by
  induction l using List.reverseRecOn with
  | nil => simp [valueOf]
  | append_singleton l c ih =>
    rw [← List.cons_append, valueOf_append_singleton, ih, valueOf_append_singleton, List.length_append,
      List.length_singleton]
    ring

theorem valueOf_lt (l : Bytes) : valueOf l < 256 ^ l.length := by
  induction l with
  | nil => simp [valueOf]
  | cons b l ih =>
    have hb := b.toNat_lt
    have : b.toNat * 256 ^ l.length ≤ 255 * 256 ^ l.length := by gcongr; omega
    rw [valueOf_cons, List.length_cons, Nat.pow_succ]
    omega

theorem valueOf_lt_iff : ∀ {l m : Bytes}, l.length = m.length → (valueOf l < valueOf m ↔ l < m)
  | [], [], _ => by simp [valueOf]
  | b :: l, c :: m, h => by
    have hlen : l.length = m.length := by simpa using h
    have ih := valueOf_lt_iff hlen
    have hl := valueOf_lt l
    have hm := valueOf_lt m
    rw [valueOf_cons, valueOf_cons, List.cons_lt_cons_iff, ← ih, hlen]
    rw [hlen] at hl
    have hbc : b < c ↔ b.toNat < c.toNat := UInt8.lt_iff_toNat_lt
    have heq : b = c ↔ b.toNat = c.toNat := UInt8.toNat_inj.symm
    rw [hbc, heq]
    constructor
    · intro hlt
      rcases Nat.lt_trichotomy b.toNat c.toNat with hb | hb | hb
      · exact Or.inl hb
      · exact Or.inr ⟨hb, by rw [hb] at hlt; omega⟩
      · have : (c.toNat + 1) * 256 ^ m.length ≤ b.toNat * 256 ^ m.length := by gcongr; omega
        rw [Nat.add_mul] at this
        omega
    · rintro (hb | ⟨hb, hlt⟩)
      · have : (b.toNat + 1) * 256 ^ m.length ≤ c.toNat * 256 ^ m.length := by gcongr; omega
        rw [Nat.add_mul] at this
        omega
      · rw [hb]
        omega

theorem valueOf_inj {l m : Bytes} (hlen : l.length = m.length) (h : valueOf l = valueOf m) : l = m := by
  have h1 : ¬ l < m := fun hlt => by have := (valueOf_lt_iff hlen).2 hlt; omega
  have h2 : ¬ m < l := fun hlt => by have := (valueOf_lt_iff hlen.symm).2 hlt; omega
  exact List.le_antisymm h2 h1

private theorem mul_add_xor (m n : Nat) {x y : Nat} (hx : x < 256) (hy : y < 256) :
    (m * 256 + x) ^^^ (n * 256 + y) = (m ^^^ n) * 256 + (x ^^^ y) := by
  have hxy : x ^^^ y < 2 ^ 8 := Nat.xor_lt_two_pow hx hy
  apply Nat.eq_of_testBit_eq
  intro i
  rw [Nat.testBit_xor, show (256 : Nat) = 2 ^ 8 from rfl, Nat.mul_comm m, Nat.mul_comm n, Nat.mul_comm (m ^^^ n),
    Nat.testBit_two_pow_mul_add _ hx, Nat.testBit_two_pow_mul_add _ hy, Nat.testBit_two_pow_mul_add _ hxy]
  split
  · rw [Nat.testBit_xor]
  · rw [Nat.testBit_xor]

theorem valueOf_zipWith_xor : ∀ {l m : Bytes}, l.length = m.length →
    valueOf (List.zipWith (· ^^^ ·) l m) = valueOf l ^^^ valueOf m := by
  intro l
  induction l using List.reverseRecOn with
  | nil => intro m h; simp [valueOf, List.length_eq_zero_iff.1 h.symm]
  | append_singleton l b ih =>
    intro m h
    obtain ⟨m, c, rfl⟩ : ∃ m' c, m = m' ++ [c] := by
      rcases List.eq_nil_or_concat' m with rfl | ⟨m', c, rfl⟩
      · simp at h
      · exact ⟨m', c, rfl⟩
    have hlen : l.length = m.length := by simpa using h
    rw [List.zipWith_append hlen, List.zipWith_cons_cons, List.zipWith_nil_left, valueOf_append_singleton, ih hlen,
      valueOf_append_singleton, valueOf_append_singleton, UInt8.toNat_xor,
      mul_add_xor _ _ b.toNat_lt c.toNat_lt]

private theorem log2_mul_add {b n k : Nat} (hb : b ≠ 0) (hn : n < 2 ^ k) : Nat.log2 (b * 2 ^ k + n) = k + Nat.log2 b := by
  have hlow := Nat.log2_self_le hb
  have hhigh := Nat.lt_log2_self (n := b)
  have hpos : 0 < b * 2 ^ k := Nat.mul_pos (by omega) (by positivity)
  rw [Nat.log2_eq_iff (by omega)]
  constructor
  · rw [Nat.pow_add]
    nlinarith
  · have : (b + 1) * 2 ^ k ≤ 2 ^ (b.log2 + 1) * 2 ^ k := by gcongr; omega
    rw [Nat.add_mul] at this
    rw [show k + b.log2 + 1 = (b.log2 + 1) + k by omega, Nat.pow_add]
    omega

theorem leadingBitFrom_eq {l : Bytes} {i : Nat} (h : i + l.length = ID_LEN) :
    leadingBitFrom i l = if valueOf l = 0 then none else some (Nat.log2 (valueOf l)) := by
  induction l generalizing i with
  | nil => rfl
  | cons b l ih =>
    unfold leadingBitFrom
    rw [valueOf_cons]
    by_cases hb : b = 0
    · rw [if_neg (by simp [hb]), ih (by simp only [List.length_cons] at h; omega), hb]
      simp
    · have hb0 : b.toNat ≠ 0 := fun h0 => hb (UInt8.toNat_inj.1 h0)
      have hlt : b.toNat.log2 < 8 := (Nat.log2_lt hb0).2 b.toNat_lt
      have hrest := valueOf_lt l
      have hplace : ID_LEN - 1 - i = l.length := by simp only [List.length_cons] at h; omega
      have hpow : (256 : Nat) ^ l.length = 2 ^ (l.length * 8) := by rw [Nat.mul_comm, Nat.pow_mul]
      have hpos : 0 < b.toNat * 256 ^ l.length := Nat.mul_pos (by omega) (by positivity)
      rw [if_pos hb, if_neg (by omega), hplace, leadingZeros, if_neg hb]
      rw [hpow] at hrest ⊢
      rw [log2_mul_add hb0 hrest]
      congr 1
      omega

namespace NodeId

def value (a : NodeId) : Nat := valueOf a.bytes

def distance (a b : NodeId) : Nat := valueOf (a.xorDistance b)

@[simp] theorem xorDistance_length (a b : NodeId) : (a.xorDistance b).length = ID_LEN := by
  simp [xorDistance, a.length_eq, b.length_eq]

theorem distance_eq_xor (a b : NodeId) : a.distance b = a.value ^^^ b.value :=
  valueOf_zipWith_xor (a.length_eq.trans b.length_eq.symm)

theorem distance_lt_iff {a b t : NodeId} : a.distance t < b.distance t ↔ a.xorDistance t < b.xorDistance t :=
  valueOf_lt_iff (by simp)

theorem value_inj {a b : NodeId} (h : a.value = b.value) : a = b := by
  cases a; cases b
  simpa using valueOf_inj (by simp [*]) h

theorem distance_eq_zero {a b : NodeId} : a.distance b = 0 ↔ a = b := by
  rw [distance_eq_xor, Nat.xor_eq_zero_iff]
  exact ⟨value_inj, congrArg _⟩

theorem distance_inj {a b t : NodeId} (h : a.distance t = b.distance t) : a = b := by
  rw [distance_eq_xor, distance_eq_xor] at h
  exact value_inj (Nat.xor_left_injective h)

theorem distance_lt (a b : NodeId) : a.distance b < 2 ^ ID_BITS := by
  have h := valueOf_lt (a.xorDistance b)
  rw [xorDistance_length] at h
  exact h

theorem bucketIndex_eq (a b : NodeId) :
    a.bucketIndex b = if b = a then none else some (Nat.log2 (a.distance b)) := by
  rw [bucketIndex, leadingBitPosition, leadingBitFrom_eq (by simp)]
  change (if a.distance b = 0 then _ else _) = _
  by_cases h : b = a
  · rw [if_pos (distance_eq_zero.2 h.symm), if_pos h]
  · rw [if_neg fun h0 => h (distance_eq_zero.1 h0).symm, if_neg h]
    rfl

theorem bucketIndex_lt {a b : NodeId} {i : Nat} (h : a.bucketIndex b = some i) : i < ID_BITS := by
  rw [bucketIndex_eq] at h
  split at h
  · cases h
  · rename_i hne
    cases h
    exact (Nat.log2_lt fun h0 => hne (distance_eq_zero.1 h0).symm).2 (distance_lt a b)

end NodeId

end HidraNet.Dht.Table
