import HidraNet.Lib.Text

/-!
# Network addresses

Numbers and network addresses as the standard library reads them from a text.  An address is a number or, with eight
groups of sixteen bits, a list of them.

What is read fits its width (`parseIpv4_lt`), and is written with hexadecimal digits, dots and colons only
(`addressChar_of_parseIp`).
-/

namespace HidraNet.Net

open Text

/-- `str::parse` of an unsigned number that is `max` at most. -/
def parseUnsigned (max : Nat) (l : List Char) : Option Nat :=
  let ds := if l.head? = some '+' then l.tail else l
  if ds ≠ [] ∧ ds.all Char.isDigit ∧ Nat.ofDigitChars 10 ds 0 ≤ max then some (Nat.ofDigitChars 10 ds 0) else none

/-- `str::parse::<u8>`. -/
def parseU8 (l : List Char) : Option Nat := parseUnsigned 255 l

/-- `str::parse::<u16>`. -/
def parseU16 (l : List Char) : Option Nat := parseUnsigned 65535 l

def parseDigits (max : Nat) (ds : List Char) : Option Nat :=
  if ds ≠ [] ∧ ds.all Char.isDigit ∧ Nat.ofDigitChars 10 ds 0 ≤ max then some (Nat.ofDigitChars 10 ds 0) else none

/-! ### Addresses -/

def parseOctet (ds : List Char) : Option Nat :=
  if 1 ≤ ds.length ∧ ds.length ≤ 3 ∧ ds.all Char.isDigit ∧ (ds.head? = some '0' → ds.length = 1) ∧
      Nat.ofDigitChars 10 ds 0 ≤ 255 then some (Nat.ofDigitChars 10 ds 0)
  else none

/-- `Ipv4Addr::from_str`. -/
def parseIpv4 (l : List Char) : Option Nat :=
  match l.splitOn '.' with
  | [a, b, c, d] =>
    match parseOctet a, parseOctet b, parseOctet c, parseOctet d with
    | some a, some b, some c, some d => some (((a * 256 + b) * 256 + c) * 256 + d)
    | _, _, _, _ => none
  | _ => none

def parseGroup (ds : List Char) : Option Nat :=
  if 1 ≤ ds.length ∧ ds.length ≤ 4 then (ds.mapM hexVal).map fun vs => vs.foldl (fun n d => 16 * n + d) 0 else none

/-- The groups between colons; an IPv4 address may stand last, for two of them. -/
def parseGroups : List (List Char) → Option (List Nat)
  | [] => some []
  | [part] =>
    match parseIpv4 part with
    | some ip => some [ip / 65536, ip % 65536]
    | none => (parseGroup part).map fun g => [g]
  | part :: parts =>
    match parseGroup part, parseGroups parts with
    | some g, some gs => some (g :: gs)
    | _, _ => none

/-- One side of the `::`, which may be empty. -/
def parseSide (l : List Char) : Option (List Nat) := if l = [] then some [] else parseGroups (l.splitOn ':')

/-- What stands before and after the first `::`. -/
def splitGap : List Char → Option (List Char × List Char)
  | ':' :: ':' :: rest => some ([], rest)
  | c :: rest => (splitGap rest).map fun sides => (c :: sides.1, sides.2)
  | [] => none

/-- `Ipv6Addr::from_str`.  The `::` stands for one group at least, and no IPv4 address before it. -/
def parseIpv6 (l : List Char) : Option (List Nat) :=
  match splitGap l with
  | none => (parseSide l).filter fun gs => gs.length = 8
  | some (head, tail) =>
    match parseSide head, parseSide tail with
    | some hs, some ts =>
      if hs.length + ts.length ≤ 7 ∧ '.' ∉ head then
        some (hs ++ List.replicate (8 - (hs.length + ts.length)) 0 ++ ts)
      else none
    | _, _ => none

inductive IpAddr where
  | v4 (ip : Nat)
  | v6 (segments : List Nat)
deriving DecidableEq

/-- `IpAddr::from_str`. -/
def parseIp (l : List Char) : Option IpAddr := ((parseIpv4 l).map .v4).or ((parseIpv6 l).map .v6)

/-- `Ipv4Addr::is_private`. -/
def isPrivate (ip : Nat) : Bool := ip / 2 ^ 24 = 10 || ip / 2 ^ 20 = 172 * 16 + 1 || ip / 2 ^ 16 = 192 * 256 + 168

def IpAddr.isLoopback : IpAddr → Bool
  | .v4 ip => ip / 2 ^ 24 = 127
  | .v6 segments => segments = [0, 0, 0, 0, 0, 0, 0, 1]

def ipv4Text (ip : Nat) : String :=
  ".".intercalate [toString (ip / 2 ^ 24), toString (ip / 2 ^ 16 % 256), toString (ip / 2 ^ 8 % 256),
    toString (ip % 256)]

/-- Where the first of the longest runs of zeros starts, and how long it is. -/
def zeroRun (segments : List Nat) : Nat × Nat :=
  (segments.zipIdx.foldl (fun (runs : (Nat × Nat) × (Nat × Nat)) g =>
    if g.1 = 0 then
      let current := if runs.2.2 = 0 then (g.2, 1) else (runs.2.1, runs.2.2 + 1)
      (if runs.1.2 < current.2 then current else runs.1, current)
    else (runs.1, (0, 0))) ((0, 0), (0, 0))).1

/-- An address as it is written; one run of zeros is left out. -/
def ipv6Text (segments : List Nat) : String :=
  match segments with
  | [0, 0, 0, 0, 0, 0xffff, high, low] => "::ffff:" ++ ipv4Text (high * 65536 + low)
  | _ =>
    let groups := segments.map fun g => String.ofList (Nat.toDigits 16 g)
    let (start, length) := zeroRun segments
    if 1 < length then ":".intercalate (groups.take start) ++ "::" ++ ":".intercalate (groups.drop (start + length))
    else ":".intercalate groups

def IpAddr.text : IpAddr → String
  | .v4 ip => ipv4Text ip
  | .v6 segments => ipv6Text segments

example : (parseIp "2001:db8:0:0:1:0:0:0".toList).map IpAddr.text = some "2001:db8:0:0:1::" := by decide

/-! ### With a port -/

inductive SocketAddr where
  | v4 (ip port : Nat)
  | v6 (segments : List Nat) (scope port : Nat)
deriving DecidableEq

namespace SocketAddr

def isIpv4 : SocketAddr → Bool
  | v4 _ _ => true
  | v6 _ _ _ => false

def ip : SocketAddr → IpAddr
  | v4 ip _ => .v4 ip
  | v6 segments _ _ => .v6 segments

def port : SocketAddr → Nat
  | v4 _ port => port
  | v6 _ _ port => port

end SocketAddr

def parseSocketAddrV4 (l : List Char) : Option SocketAddr :=
  match splitOnce ':' l with
  | none => none
  | some (ip, port) =>
    match parseIpv4 ip, parseDigits 65535 port with
    | some ip, some port => some (.v4 ip port)
    | _, _ => none

/-- An IPv6 address stands in brackets, with a scope if there is one. -/
def parseSocketAddrV6 (l : List Char) : Option SocketAddr :=
  match l with
  | '[' :: rest =>
    match splitOnce ']' rest with
    | some (inside, ':' :: port) =>
      let (ip, scope) := (splitOnce '%' inside).getD (inside, ['0'])
      match parseIpv6 ip, parseDigits (2 ^ 32 - 1) scope, parseDigits 65535 port with
      | some segments, some scope, some port => some (.v6 segments scope port)
      | _, _, _ => none
    | _ => none
  | _ => none

/-- `SocketAddr::from_str`. -/
def parseSocketAddr (l : List Char) : Option SocketAddr := (parseSocketAddrV4 l).or (parseSocketAddrV6 l)

example : parseSocketAddr "203.0.113.10:51820".toList = some (.v4 3405803786 51820) := by decide

example : parseSocketAddr "[fd00::192.0.2.1%3]:080".toList =
    some (.v6 [0xfd00, 0, 0, 0, 0, 0, 0xc000, 0x201] 3 80) := by decide

/-! ### Bounds -/

private theorem parseOctet_le {ds : List Char} {n : Nat} (h : parseOctet ds = some n) : n ≤ 255 := by
  unfold parseOctet at h
  split at h
  · rename_i hok
    cases h
    exact hok.2.2.2.2
  · cases h

theorem parseIpv4_lt {l : List Char} {n : Nat} (h : parseIpv4 l = some n) : n < 2 ^ 32 := by
  unfold parseIpv4 at h
  split at h
  · split at h
    · rename_i a b c d ha hb hc hd
      cases h
      have := parseOctet_le ha
      have := parseOctet_le hb
      have := parseOctet_le hc
      have := parseOctet_le hd
      omega
    · cases h
  · cases h

/-! ### What an address is written with -/

def AddressChar (c : Char) : Prop := c = '.' ∨ c = ':' ∨ ∃ v, hexVal c = some v

private theorem addressChar_of_isDigit {c : Char} (h : c.isDigit) : AddressChar c := by
  refine Or.inr (Or.inr ⟨c.toNat - 48, ?_⟩)
  unfold hexVal
  rw [if_pos h]

private theorem addressChar_of_octet {ds : List Char} {n : Nat} (h : parseOctet ds = some n) :
    ∀ c ∈ ds, AddressChar c := by
  unfold parseOctet at h
  split at h
  · rename_i hds
    intro c hc
    exact addressChar_of_isDigit (List.all_eq_true.1 hds.2.2.1 c hc)
  · cases h

private theorem addressChar_of_ipv4 {l : List Char} {n : Nat} (h : parseIpv4 l = some n) : ∀ c ∈ l, AddressChar c := by
  intro c hc
  rcases mem_splitOn hc with heq | ⟨piece, hpiece, hc⟩
  · exact Or.inl heq
  unfold parseIpv4 at h
  split at h
  · rename_i p q r t hsplit
    rw [hsplit] at hpiece
    split at h
    · rename_i ha hb hd he
      simp only [List.mem_cons, List.not_mem_nil, or_false] at hpiece
      rcases hpiece with rfl | rfl | rfl | rfl
      · exact addressChar_of_octet ha c hc
      · exact addressChar_of_octet hb c hc
      · exact addressChar_of_octet hd c hc
      · exact addressChar_of_octet he c hc
    · cases h
  · cases h

private theorem addressChar_of_group {ds : List Char} {n : Nat} (h : parseGroup ds = some n) :
    ∀ c ∈ ds, AddressChar c := by
  intro c hc
  unfold parseGroup at h
  split at h
  · obtain ⟨vs, hvs, -⟩ := Option.map_eq_some_iff.1 h
    exact Or.inr (Or.inr (hexVal_of_mapM hvs c hc))
  · cases h

private theorem addressChar_of_groups {parts : List (List Char)} {gs : List Nat} (h : parseGroups parts = some gs) :
    ∀ part ∈ parts, ∀ c ∈ part, AddressChar c := by
  fun_induction parseGroups parts generalizing gs with
  | case1 =>
    intro part hpart
    cases hpart
  | case2 part ip hip =>
    intro p hp
    obtain rfl := List.mem_singleton.1 hp
    exact addressChar_of_ipv4 hip
  | case3 part hip =>
    intro p hp
    obtain rfl := List.mem_singleton.1 hp
    obtain ⟨g, hg, -⟩ := Option.map_eq_some_iff.1 h
    exact addressChar_of_group hg
  | case4 part parts _ g gs' hgs hg ih =>
    intro p hp
    rcases List.mem_cons.1 hp with rfl | hp
    · exact addressChar_of_group hg
    · exact ih hgs p hp
  | case5 => cases h

private theorem addressChar_of_side {l : List Char} {gs : List Nat} (h : parseSide l = some gs) :
    ∀ c ∈ l, AddressChar c := by
  intro c hc
  unfold parseSide at h
  split at h
  · rename_i hnil
    rw [hnil] at hc
    cases hc
  · rcases mem_splitOn hc with heq | ⟨piece, hpiece, hc⟩
    · exact Or.inr (Or.inl heq)
    · exact addressChar_of_groups h piece hpiece c hc

private theorem splitGap_eq_some {l a b : List Char} (h : splitGap l = some (a, b)) : l = a ++ ':' :: ':' :: b := by
  fun_induction splitGap l generalizing a b with
  | case1 rest =>
    obtain ⟨rfl, rfl⟩ := Prod.mk.inj (Option.some.inj h)
    rfl
  | case2 c rest _ ih =>
    obtain ⟨⟨a', b'⟩, hrest, heq⟩ := Option.map_eq_some_iff.1 h
    obtain ⟨rfl, rfl⟩ := Prod.mk.inj heq
    rw [ih hrest]
    rfl
  | case3 => cases h

theorem addressChar_of_parseIp {l : List Char} {ip : IpAddr} (h : parseIp l = some ip) : ∀ c ∈ l, AddressChar c := by
  unfold parseIp at h
  rcases Option.or_eq_some_iff.1 h with h | ⟨-, h⟩
  · obtain ⟨n, hn, -⟩ := Option.map_eq_some_iff.1 h
    exact addressChar_of_ipv4 hn
  · obtain ⟨gs, hgs, -⟩ := Option.map_eq_some_iff.1 h
    unfold parseIpv6 at hgs
    split at hgs
    · exact addressChar_of_side (Option.eq_some_of_filter_eq_some hgs)
    · rename_i head tail hgap
      split at hgs
      · rename_i hs ts hhead htail
        intro c hc
        rw [splitGap_eq_some hgap, List.mem_append, List.mem_cons, List.mem_cons] at hc
        rcases hc with hc | rfl | rfl | hc
        · exact addressChar_of_side hhead c hc
        · exact Or.inr (Or.inl rfl)
        · exact Or.inr (Or.inl rfl)
        · exact addressChar_of_side htail c hc
      · cases hgs

end HidraNet.Net
