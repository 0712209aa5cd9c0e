import Mathlib

/-!
# A packet filter

A chain of rules decides a packet by the first rule whose matches all hold (`first`), and by its policy where none
takes it.  The two families share one chain: a match on an address of one family does not hold of a packet of the
other.  A rule may count what a client does (`Match.past`); `passed` is the list of the counts a packet was held
against, and found in order, on its way to the rule that took it.

A chain that is put together from parts is decided part by part (`first_append`).
-/

namespace HidraNet.Packets

inductive Ip where
  | v4 (a : Nat)
  | v6 (a : Nat)
deriving DecidableEq

structure Endpoint where
  ip : Ip
  port : Nat
deriving DecidableEq

/-- The source and the destination, of one family. -/
inductive Addrs where
  | v4 (src dst : Nat)
  | v6 (src dst : Nat)
deriving DecidableEq

inductive Proto where
  | tcp
  | udp
  | icmp
  | other (n : Nat)
deriving DecidableEq

/-- What connection tracking says of a packet. -/
inductive Ct where
  | new
  | established
  | related
  | invalid
  | untracked
deriving DecidableEq

structure Packet where
  iif : String
  oif : String
  addrs : Addrs
  proto : Proto
  sport : Nat
  dport : Nat
  ct : Ct
deriving DecidableEq

namespace Packet

def src (p : Packet) : Ip :=
  match p.addrs with
  | .v4 src _ => .v4 src
  | .v6 src _ => .v6 src

def dst (p : Packet) : Ip :=
  match p.addrs with
  | .v4 _ dst => .v4 dst
  | .v6 _ dst => .v6 dst

end Packet

/-- The addresses that begin as `addr` does, for `len` bits. -/
structure Prefix where
  addr : Nat
  len : Nat
deriving DecidableEq

def net4 (a b c d len : Nat) : Prefix := ⟨((a * 256 + b) * 256 + c) * 256 + d, len⟩

/-- A range of IPv6 addresses, by the groups in front of its `::`. -/
def net6 (groups : List Nat) (len : Nat) : Prefix :=
  ⟨groups.foldl (fun n g => n * 65536 + g) 0 * 65536 ^ (8 - groups.length), len⟩

/-- Whether an address of `width` bits is in one of the ranges. -/
def inAny (width : Nat) (nets : List Prefix) (a : Nat) : Bool :=
  nets.any fun n => a / 2 ^ (width - n.len) = n.addr / 2 ^ (width - n.len)

inductive Verdict where
  | accept
  | drop
  | reject
deriving DecidableEq

/-- One condition of a rule; the ports are ranges. -/
inductive Match (L : Type*) where
  | iifname (names : List String)
  | iifnameNot (names : List String)
  | oifname (names : List String)
  | oifnameNot (names : List String)
  | ipSaddr (a : Nat)
  | ipSaddrNot (a : Nat)
  | ipSaddrIn (nets : List Prefix)
  | ipDaddr (nets : List Prefix)
  | ip6Saddr (a : Nat)
  | ip6Daddr (nets : List Prefix)
  | sport (proto : Proto) (ports : List (Nat × Nat))
  | dport (proto : Proto) (ports : List (Nat × Nat))
  | l4proto (proto : Proto)
  | ct (states : List Ct)
  | past (l : L)
deriving DecidableEq

structure Rule (L : Type*) where
  tests : List (Match L)
  verdict : Verdict
deriving DecidableEq

theorem inAny_single (w a b : Nat) : inAny w [⟨a, w⟩] b = decide (b = a) := by
  simp [inAny]

def inRanges (ports : List (Nat × Nat)) (n : Nat) : Bool := ports.any fun r => r.1 ≤ n && n ≤ r.2

theorem inRanges_single (n m : Nat) : inRanges [(n, n)] m = decide (m = n) := by
  simp [inRanges, Nat.le_antisymm_iff, and_comm]

section Decide

variable {L : Type*} (past : L → Ip → Bool) (p : Packet)

namespace Match

def holds : Match L → Bool
  | .iifname names => p.iif ∈ names
  | .iifnameNot names => p.iif ∉ names
  | .oifname names => p.oif ∈ names
  | .oifnameNot names => p.oif ∉ names
  | .ipSaddr a => match p.addrs with
    | .v4 src _ => src = a
    | .v6 _ _ => false
  | .ipSaddrNot a => match p.addrs with
    | .v4 src _ => src ≠ a
    | .v6 _ _ => false
  | .ipSaddrIn nets => match p.addrs with
    | .v4 src _ => inAny 32 nets src
    | .v6 _ _ => false
  | .ipDaddr nets => match p.addrs with
    | .v4 _ dst => inAny 32 nets dst
    | .v6 _ _ => false
  | .ip6Saddr a => match p.addrs with
    | .v4 _ _ => false
    | .v6 src _ => src = a
  | .ip6Daddr nets => match p.addrs with
    | .v4 _ _ => false
    | .v6 _ dst => inAny 128 nets dst
  | .sport proto ports => p.proto = proto && inRanges ports p.sport
  | .dport proto ports => p.proto = proto && inRanges ports p.dport
  | .l4proto proto => p.proto = proto
  | .ct states => p.ct ∈ states
  | .past l => match p.addrs with
    | .v4 src _ => past l (.v4 src)
    | .v6 _ _ => false

/-- The limits that are looked at, the matches before them holding, and are not exceeded. -/
def inOrder : List (Match L) → List (L × Ip)
  | [] => []
  | .past l :: ms => match p.addrs with
    | .v4 src _ => if past l (.v4 src) then inOrder ms else [(l, .v4 src)]
    | .v6 _ _ => []
  | m :: ms => if m.holds past p then inOrder ms else []

end Match

def Rule.takes (r : Rule L) : Bool := r.tests.all (Match.holds past p)

def first : List (Rule L) → Option Verdict
  | [] => none
  | r :: rs => if r.takes past p then some r.verdict else first rs

def decides (policy : Verdict) (rules : List (Rule L)) : Verdict := (first past p rules).getD policy

def passed : List (Rule L) → List (L × Ip)
  | [] => []
  | r :: rs => Match.inOrder past p r.tests ++ if r.takes past p then [] else passed rs

@[simp] theorem first_nil : first past p ([] : List (Rule L)) = none := rfl

theorem first_cons (r : Rule L) (rs : List (Rule L)) :
    first past p (r :: rs) = if r.takes past p then some r.verdict else first past p rs := rfl

theorem first_append (rs rs' : List (Rule L)) :
    first past p (rs ++ rs') = (first past p rs).or (first past p rs') := by
  induction rs with
  | nil => rfl
  | cons r rs ih =>
    simp only [List.cons_append, first_cons]
    split
    · rfl
    · exact ih

theorem passed_append (rs rs' : List (Rule L)) (h : first past p rs = none) :
    passed past p (rs ++ rs') = passed past p rs ++ passed past p rs' := by
  induction rs with
  | nil => rfl
  | cons r rs ih =>
    rw [first_cons] at h
    split at h
    · cases h
    · rename_i hr
      simp only [List.cons_append, passed, hr, Bool.false_eq_true, if_false, ih h, List.append_assoc]

theorem v4_of_mem_inOrder {ms : List (Match L)} {l : L} {ip : Ip} (h : (l, ip) ∈ Match.inOrder past p ms) :
    ∃ a, ip = .v4 a := by
  induction ms using Match.inOrder.induct past p with
  | case1 => cases h
  | case2 l' ms src dst hp hpast ih =>
    simp only [Match.inOrder, hp, hpast, if_true] at h
    exact ih h
  | case3 l' ms src dst hp hpast =>
    simp only [Match.inOrder, hp, hpast, Bool.false_eq_true, if_false, List.mem_singleton, Prod.mk.injEq] at h
    exact ⟨src, h.2⟩
  | case4 l' ms src dst hp =>
    simp [Match.inOrder, hp] at h
  | case5 m ms hm hholds ih =>
    simp only [Match.inOrder, hholds, if_true] at h
    exact ih h
  | case6 m ms hm hholds =>
    simp [Match.inOrder, hholds] at h

theorem v4_of_mem_passed {rs : List (Rule L)} {l : L} {ip : Ip} (h : (l, ip) ∈ passed past p rs) :
    ∃ a, ip = .v4 a := by
  induction rs with
  | nil => cases h
  | cons r rs ih =>
    rcases List.mem_append.1 h with h | h
    · exact v4_of_mem_inOrder past p h
    · split at h
      · cases h
      · exact ih h

end Decide

end HidraNet.Packets
