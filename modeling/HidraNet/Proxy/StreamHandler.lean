import HidraNet.Core.SpentTag
import HidraNet.Dht.ServiceStore
import HidraNet.Proxy.Socks

/-!
# Where a name is sent

The proxy takes a name that ends in `.hidra` for a service's, looks it up in the hidden network and reaches the service
through one of its introduction points; every other name goes to an exit, which resolves it.  Names are compared as
texts: `.hidra` in other letters, or with a dot behind it, is a name for the exit (`kept_iff`, `upper_leaves`).
-/

namespace HidraNet.Proxy

open HidraNet.Core (Bytes hexDecode)
open Dht Ints Net Text

def MAX_RETRIES : Nat := 3

/-! ### The resolver -/

inductive TargetResolution where
  | directIp
  | hidraInternal
  | remoteDns
deriving DecidableEq

def isHidraDomain (host : List Char) : Bool := ".hidra".toList.isSuffixOf host

def targetHost (host : List Char) : TargetResolution :=
  if (parseIp host).isSome then .directIp
  else if isHidraDomain host then .hidraInternal
  else .remoteDns

/-- The 40 digits are counted in bytes. -/
def parseHidraAddress (host : List Char) : Option Bytes :=
  match stripSuffix ".hidra".toList host with
  | none => none
  | some stripped =>
    let bytes := Utf8.encode stripped
    if bytes.length ≠ 40 then none else hexDecode (bytes.map fun b => Char.ofNat b.toNat)

/-! ### The network -/

def LOCAL_DESCRIPTOR_FRESH_SECS : Nat := 600

/-- What the proxy finds outside: the node's descriptors, which it checked when it put them there, and what comes back
of what it sends.  Calls are numbered by the attempt they are made at. -/
structure Network (c : DescriptorCrypto) where
  now : Nat
  store : ServiceStore
  verified : ∀ hash held, store.entries.get? hash = some held → held.descriptor.verify c hash = .ok ()
  /-- The descriptors that other nodes answer a lookup with. -/
  answers : Bytes → List ServiceDescriptor
  getCircuit : Nat → Except HidraError Unit
  connect : Nat → List Char → Nat → Except HidraError Unit
  buildCircuitVia : Nat → String → Except HidraError Unit
  /-- The service at the circuit's end is asked for, and proves that it has the key. -/
  connectService : Nat → Bytes → Except HidraError Unit

inductive Act where
  /-- The descriptors of a service are looked up, here and in the hidden network. -/
  | lookup (hash : Bytes)
  | exitConnect (host : List Char) (port : Nat)
  | connectService (intro : String) (hash : Bytes)
deriving DecidableEq

variable {c : DescriptorCrypto} (net : Network c)

def Network.counts (hash : Bytes) (d : ServiceDescriptor) : Bool :=
  (d.verify c hash).isOk && d.revision ≤ satAdd64 net.now MAX_CLOCK_SKEW_SECS &&
    satAdd64 d.revision DESCRIPTOR_TTL_SECS > net.now

def newer (best : Option ServiceDescriptor) (d : ServiceDescriptor) : Option ServiceDescriptor :=
  if best.all fun b => d.revision > b.revision then some d else best

/-- The introduction points of a service and its key. -/
def lookupService (hash : Bytes) : Option (List String × Bytes) :=
  let held := net.store.get hash net.now
  let mine := held.filter fun s =>
    (s.origin = .own || s.origin = .fetched) && net.now - s.descriptor.revision < LOCAL_DESCRIPTOR_FRESH_SECS
  match mine with
  | some s => some (s.descriptor.introPoints, s.descriptor.servicePubkey)
  | none =>
    let best := ((net.answers hash).filter (net.counts hash)).foldl newer (held.map Stored.descriptor)
    best.map fun d => (d.introPoints, d.servicePubkey)

/-! ### The attempts -/

/-- Attempt after attempt until one succeeds: a circuit, and on it `act`; or else the last attempt's error. -/
def failover (circuit : Nat → Except HidraError Unit) (act : Nat → Act) (answer : Nat → Except HidraError Unit)
    (exhausted : HidraError) : List Nat → Option HidraError → List Act × Except HidraError Unit
  | [], lastError => ([], .error (lastError.getD exhausted))
  | attempt :: rest, _ =>
    match circuit attempt with
    | .error e => failover circuit act answer exhausted rest (some e)
    | .ok _ =>
      match answer attempt with
      | .ok _ => ([act attempt], .ok ())
      | .error e =>
        let after := failover circuit act answer exhausted rest (some e)
        (act attempt :: after.1, after.2)

def connectWithFailover (host : List Char) (port : Nat) : List Act × Except HidraError Unit :=
  failover net.getCircuit (fun _ => .exitConnect host port) (fun attempt => net.connect attempt host port)
    (.circuit "all circuit retry attempts exhausted") (List.range MAX_RETRIES) none

def connectServiceWithFailover (introPoints : List String) (servicePubkey : Bytes) :
    List Act × Except HidraError Unit :=
  if introPoints = [] then ([], .error (.circuit "the service names no introduction point"))
  else
    let intro := fun attempt => introPoints.getD (attempt % introPoints.length) ""
    failover (fun attempt => net.buildCircuitVia attempt (intro attempt))
      (fun attempt => .connectService (intro attempt) (serviceHashOf c servicePubkey))
      (fun attempt => net.connectService attempt servicePubkey)
      (.circuit "all service circuit retry attempts exhausted") (List.range MAX_RETRIES) none

/-! ### The connection -/

/-- What is done for a target.  `sensitive` is how a host stands in an error. -/
def route (sensitive : List Char → String) (host : List Char) (port : Nat) : List Act × Except HidraError Unit :=
  if targetHost host = .hidraInternal then
    match parseHidraAddress host with
    | none => ([], .error (.protocol (sensitive host ++ " ends in .hidra but is not a service address")))
    | some serviceHash =>
      match lookupService net serviceHash with
      | none => ([.lookup serviceHash], .error (.circuit ("hidden service not found: " ++ sensitive host)))
      | some (introPoints, servicePubkey) =>
        let reached := connectServiceWithFailover net introPoints servicePubkey
        (.lookup serviceHash :: reached.1, reached.2)
  else connectWithFailover net host port

def TargetAddr.host : TargetAddr → List Char
  | .ip addr => addr.ip.text.toList
  | .domain host _ => host

def TargetAddr.port : TargetAddr → Nat
  | .ip addr => addr.port
  | .domain _ port => port

def handleInner (sensitive : List Char → String) (input : Bytes) : List Act × Except HidraError Unit :=
  match (readTarget.run ⟨input, []⟩).1 with
  | .error e => ([], .error e)
  | .ok target => route net sensitive target.host target.port

/-! ### What is to hold -/

def labels (host : List Char) : List (List Char) :=
  (if host.getLast? = some '.' then host.dropLast else host).splitOn '.'

/-- The name ends in the label `hidra`, in letters of any case. -/
def HidraName (host : List Char) : Prop := (labels host).getLast?.map (·.map Char.toLower) = some "hidra".toList

instance (host : List Char) : Decidable (HidraName host) := inferInstanceAs (Decidable (_ = _))

/-- The label before `hidra`, the only one, is the address of a service: its digits, and the service's key. -/
def Address (c : DescriptorCrypto) (host : List Char) (servicePubkey : Bytes) : Prop :=
  ∃ label hidra, labels host = [label, hidra] ∧ label.length = 40 ∧
    hexDecode label = some (serviceHashOf c servicePubkey) ∧ c.isKey servicePubkey = true

def Act.looksUp : Act → Option Bytes
  | .lookup hash => some hash
  | _ => none

/-- A hidden name stays in the hidden network, and any other does not come there. -/
structure Kept (host : List Char) (port : Nat) (done : List Act × Except HidraError Unit) : Prop where
  hidden : HidraName host → ∀ name p, Act.exitConnect name p ∉ done.1
  address : HidraName host → ∀ servicePubkey, Address c host servicePubkey →
    done.1.filterMap Act.looksUp = [serviceHashOf c servicePubkey] ∧
      ∀ intro hash, Act.connectService intro hash ∈ done.1 → hash = serviceHashOf c servicePubkey
  refused : HidraName host → (∀ servicePubkey, ¬ Address c host servicePubkey) →
    done.2.isOk = false ∧ ∀ intro hash, Act.connectService intro hash ∉ done.1
  remote : ¬ HidraName host → parseIp host = none → (∀ act ∈ done.1, act = .exitConnect host port) ∧
    ((∃ attempt < MAX_RETRIES, (net.getCircuit attempt).isOk = true) → done.1 ≠ [])

/-! ### Names -/

section

variable {host pre label : List Char} {hash : Bytes}

theorem labels_hidra (pre : List Char) : labels (pre ++ ".hidra".toList) = pre.splitOn '.' ++ ["hidra".toList] := by
  unfold labels
  have hlast : (pre ++ ".hidra".toList).getLast? = some 'a' := by
    rw [List.getLast?_append]
    rfl
  rw [if_neg (by rw [hlast]; decide)]
  show (pre ++ '.' :: "hidra".toList).splitOn '.' = _
  rw [List.splitOn_append_cons_self]
  rfl

private theorem hidraName_of_suffix (h : ".hidra".toList <:+ host) : HidraName host := by
  obtain ⟨pre, rfl⟩ := h
  unfold HidraName
  rw [labels_hidra, List.getLast?_append]
  rfl

private theorem parseIp_of_suffix (h : ".hidra".toList <:+ host) : parseIp host = none := by
  cases hip : parseIp host with
  | none => rfl
  | some ip =>
    have hmem : 'h' ∈ host := h.subset (by decide)
    rcases addressChar_of_parseIp hip 'h' hmem with hdot | hcolon | ⟨v, hv⟩
    · exact absurd hdot (by decide)
    · exact absurd hcolon (by decide)
    · exact absurd hv (by decide +revert)

private theorem targetHost_eq_hidraInternal : targetHost host = .hidraInternal ↔ ".hidra".toList <:+ host := by
  unfold targetHost isHidraDomain
  constructor
  · intro h
    split at h
    · cases h
    · split at h
      · rename_i hsuffix
        exact List.isSuffixOf_iff_suffix.1 hsuffix
      · cases h
  · intro h
    rw [parseIp_of_suffix h, if_neg (by decide), if_pos (List.isSuffixOf_iff_suffix.2 h)]

private theorem hexVal_of_hexDecode (h : hexDecode label = some hash) : ∀ ch ∈ label, ∃ v, hexVal ch = some v := by
  fun_induction hexDecode label generalizing hash with
  | case1 =>
    intro ch hch
    cases hch
  | case2 => cases h
  | case3 a b rest x y bytes hbytes hy hx ih =>
    intro ch hch
    rcases List.mem_cons.1 hch with rfl | hch
    · exact ⟨x, hx⟩
    · rcases List.mem_cons.1 hch with rfl | hch
      · exact ⟨y, hy⟩
      · exact ih hbytes ch hch
  | case4 => cases h

private theorem map_encode (h : ∀ ch ∈ label, ch.toNat < 128) :
    (Utf8.encode label).map (fun b => Char.ofNat b.toNat) = label := by
  rw [Utf8.encode_ascii h, List.map_map]
  refine (List.map_congr_left fun ch hch => ?_).trans (List.map_id label)
  have hlt := h ch hch
  show Char.ofNat (UInt8.ofNat ch.toNat).toNat = ch
  rw [UInt8.toNat_ofNat', Nat.mod_eq_of_lt (by omega), Char.ofNat_toNat]

private theorem ascii_of_encode (h : ∀ b ∈ Utf8.encode label, b.toNat < 128) : ∀ ch ∈ label, ch.toNat < 128 := by
  intro ch hch
  by_contra hhigh
  have hne : String.utf8EncodeChar ch ≠ [] := by
    intro hnil
    have hlen := String.length_utf8EncodeChar ch
    rw [hnil] at hlen
    exact absurd hlen.symm ch.utf8Size_pos.ne'
  obtain ⟨b, bs, hb⟩ := List.exists_cons_of_ne_nil hne
  have hmem : b ∈ String.utf8EncodeChar ch := hb ▸ List.mem_cons_self
  have hlow := h b (List.mem_flatMap.2 ⟨ch, hch, hmem⟩)
  have hhigh' := Utf8.encodeChar_high hhigh hmem
  omega

private theorem parseHidraAddress_eq_some : parseHidraAddress (pre ++ ".hidra".toList) = some hash ↔
    pre.length = 40 ∧ hexDecode pre = some hash := by
  unfold parseHidraAddress
  rw [stripSuffix_append]
  dsimp only
  constructor
  · intro h
    split at h
    · cases h
    · rename_i hlen
      have hascii : ∀ ch ∈ pre, ch.toNat < 128 := by
        refine ascii_of_encode fun b hb => ?_
        obtain ⟨v, hv⟩ := hexVal_of_hexDecode h _ (List.mem_map_of_mem hb)
        have hlt := Core.lt_of_hexVal hv
        rwa [Char.toNat_ofNat, if_pos] at hlt
        exact Or.inl (by have := b.toNat_lt; omega)
      rw [map_encode hascii] at h
      rw [Utf8.length_encode_ascii hascii] at hlen
      exact ⟨by omega, h⟩
  · rintro ⟨hlen, h⟩
    have hascii : ∀ ch ∈ pre, ch.toNat < 128 := by
      intro ch hch
      obtain ⟨v, hv⟩ := hexVal_of_hexDecode h ch hch
      exact Core.lt_of_hexVal hv
    rw [Utf8.length_encode_ascii hascii, if_neg (by omega), map_encode hascii]
    exact h

private theorem address_iff {servicePubkey : Bytes} : Address c (pre ++ ".hidra".toList) servicePubkey ↔
    parseHidraAddress (pre ++ ".hidra".toList) = some (serviceHashOf c servicePubkey) ∧
      c.isKey servicePubkey = true := by
  unfold Address
  rw [labels_hidra, parseHidraAddress_eq_some]
  constructor
  · rintro ⟨label, hidra, hlabels, hlen, hhex, hkey⟩
    have happend : pre.splitOn '.' ++ ["hidra".toList] = [label] ++ [hidra] := hlabels
    obtain ⟨hsplit, -⟩ := List.append_inj' happend rfl
    have hpre : pre = label := by
      have hjoin : ['.'].intercalate (pre.splitOn '.') = pre := List.intercalate_splitOn '.'
      rw [hsplit] at hjoin
      simpa using hjoin.symm
    rw [hpre]
    exact ⟨⟨hlen, hhex⟩, hkey⟩
  · rintro ⟨⟨hlen, hhex⟩, hkey⟩
    have hdot : '.' ∉ pre := by
      intro hmem
      obtain ⟨v, hv⟩ := hexVal_of_hexDecode hhex _ hmem
      exact absurd hv (by decide +revert)
    exact ⟨pre, "hidra".toList, by rw [List.splitOn_eq_singleton hdot]; rfl, hlen, hhex, hkey⟩

end

/-! ### What is done for a name -/

section

variable {net} {hash servicePubkey : Bytes} {introPoints : List String} {sensitive : List Char → String}
  {host pre : List Char} {port : Nat}

theorem verify_ok {d : ServiceDescriptor} (h : d.verify c hash = .ok ()) :
    serviceHashOf c d.servicePubkey = hash ∧ c.isKey d.servicePubkey = true := by
  unfold ServiceDescriptor.verify at h
  split_ifs at h with hhash _ _ hkey
  exact ⟨not_not.1 hhash, by simpa using hkey⟩

private theorem mem_of_newer {ds : List ServiceDescriptor} {best : Option ServiceDescriptor} {d : ServiceDescriptor}
    (h : ds.foldl newer best = some d) : d ∈ ds ∨ best = some d := by
  induction ds generalizing best with
  | nil => exact Or.inr h
  | cons e ds ih =>
    rcases ih h with hmem | hbest
    · exact Or.inl (List.mem_cons_of_mem _ hmem)
    · unfold newer at hbest
      split at hbest
      · obtain rfl := Option.some.inj hbest
        exact Or.inl List.mem_cons_self
      · exact Or.inr hbest

private theorem lookupService_key (h : lookupService net hash = some (introPoints, servicePubkey)) :
    serviceHashOf c servicePubkey = hash ∧ c.isKey servicePubkey = true := by
  have hheld : ∀ s, net.store.get hash net.now = some s →
      serviceHashOf c s.descriptor.servicePubkey = hash ∧ c.isKey s.descriptor.servicePubkey = true := by
    intro s hs
    exact verify_ok (net.verified hash s (Option.eq_some_of_filter_eq_some hs))
  unfold lookupService at h
  dsimp only at h
  split at h
  · rename_i s hmine
    obtain ⟨rfl, rfl⟩ := Prod.mk.inj (Option.some.inj h)
    exact hheld s (Option.eq_some_of_filter_eq_some hmine)
  · obtain ⟨d, hd, heq⟩ := Option.map_eq_some_iff.1 h
    obtain ⟨rfl, rfl⟩ := Prod.mk.inj heq
    rcases mem_of_newer hd with hmem | hbest
    · have hcounts := (List.mem_filter.1 hmem).2
      unfold Network.counts at hcounts
      simp only [Bool.and_eq_true] at hcounts
      cases hverify : d.verify c hash with
      | ok u => exact verify_ok hverify
      | error e =>
        rw [hverify] at hcounts
        exact absurd hcounts.1.1 Bool.false_ne_true
    · obtain ⟨s, hs, rfl⟩ := Option.map_eq_some_iff.1 hbest
      exact hheld s hs

private theorem failover_acts (circuit : Nat → Except HidraError Unit) (act : Nat → Act)
    (answer : Nat → Except HidraError Unit) (exhausted : HidraError) (attempts : List Nat)
    (lastError : Option HidraError) :
    (∀ a ∈ (failover circuit act answer exhausted attempts lastError).1, ∃ attempt, a = act attempt) ∧
      ((∃ attempt ∈ attempts, (circuit attempt).isOk = true) →
        (failover circuit act answer exhausted attempts lastError).1 ≠ []) := by
  induction attempts generalizing lastError with
  | nil => exact ⟨fun a ha => (List.not_mem_nil ha).elim, fun ⟨_, hmem, _⟩ => (List.not_mem_nil hmem).elim⟩
  | cons attempt rest ih =>
    unfold failover
    cases hcircuit : circuit attempt with
    | error e =>
      refine ⟨(ih _).1, ?_⟩
      rintro ⟨n, hn, hok⟩
      rcases List.mem_cons.1 hn with rfl | hn
      · rw [hcircuit] at hok
        exact absurd hok Bool.false_ne_true
      · exact (ih _).2 ⟨n, hn, hok⟩
    | ok u =>
      cases answer attempt with
      | ok u' =>
        refine ⟨fun a ha => ⟨attempt, List.mem_singleton.1 ha⟩, fun _ => ?_⟩
        simp
      | error e =>
        refine ⟨fun a ha => ?_, fun _ => by simp⟩
        rcases List.mem_cons.1 ha with rfl | ha
        · exact ⟨attempt, rfl⟩
        · exact (ih _).1 a ha

private theorem connectService_acts : ∀ act ∈ (connectServiceWithFailover net introPoints servicePubkey).1,
    ∃ intro, act = .connectService intro (serviceHashOf c servicePubkey) := by
  intro act hact
  unfold connectServiceWithFailover at hact
  split at hact
  · cases hact
  · obtain ⟨attempt, rfl⟩ := (failover_acts _ _ _ _ _ _).1 act hact
    exact ⟨_, rfl⟩

theorem route_remote (net : Network c) (sensitive : List Char → String) (port : Nat) (h : ¬ ".hidra".toList <:+ host) :
    (∀ act ∈ (route net sensitive host port).1, act = .exitConnect host port) ∧
      ((∃ attempt < MAX_RETRIES, (net.getCircuit attempt).isOk = true) → (route net sensitive host port).1 ≠ []) := by
  unfold route
  rw [if_neg fun hhidra => h (targetHost_eq_hidraInternal.1 hhidra)]
  obtain ⟨hacts, hsome⟩ := failover_acts net.getCircuit (fun _ => .exitConnect host port)
    (fun attempt => net.connect attempt host port) (.circuit "all circuit retry attempts exhausted")
    (List.range MAX_RETRIES) none
  refine ⟨fun act hact => ?_, ?_⟩
  · obtain ⟨_, rfl⟩ := hacts act hact
    rfl
  · rintro ⟨attempt, hlt, hok⟩
    exact hsome ⟨attempt, List.mem_range.2 hlt, hok⟩

theorem route_hidden (net : Network c) (sensitive : List Char → String) (port : Nat) (h : ".hidra".toList <:+ host) :
    (parseHidraAddress host = none ∧ ∃ e, route net sensitive host port = ([], .error e)) ∨
    ∃ hash, parseHidraAddress host = some hash ∧
      ((∃ e, route net sensitive host port = ([.lookup hash], .error e)) ∨
        ∃ servicePubkey acts result, serviceHashOf c servicePubkey = hash ∧ c.isKey servicePubkey = true ∧
          route net sensitive host port = (.lookup hash :: acts, result) ∧
          ∀ act ∈ acts, ∃ intro, act = .connectService intro hash) := by
  unfold route
  rw [if_pos (targetHost_eq_hidraInternal.2 h)]
  cases hparse : parseHidraAddress host with
  | none => exact Or.inl ⟨rfl, _, rfl⟩
  | some hash =>
    refine Or.inr ⟨hash, rfl, ?_⟩
    dsimp only
    cases hfound : lookupService net hash with
    | none => exact Or.inl ⟨_, rfl⟩
    | some found =>
      obtain ⟨introPoints, servicePubkey⟩ := found
      obtain ⟨hhash, hkey⟩ := lookupService_key hfound
      refine Or.inr ⟨servicePubkey, _, _, hhash, hkey, rfl, fun act hact => ?_⟩
      rw [← hhash]
      exact connectService_acts act hact

private theorem looksUp_connects {acts : List Act} (h : ∀ act ∈ acts, ∃ intro, act = .connectService intro hash) :
    acts.filterMap Act.looksUp = [] := by
  rw [List.filterMap_eq_nil_iff]
  intro act hact
  obtain ⟨intro, rfl⟩ := h act hact
  rfl

private theorem kept_hidden (h : ".hidra".toList <:+ host) : Kept net host port (route net sensitive host port) := by
  have hname := hidraName_of_suffix h
  obtain ⟨pre, rfl⟩ := id h
  rcases route_hidden net sensitive port h with
    ⟨hparse, e, hroute⟩ | ⟨hash, hparse, ⟨e, hroute⟩ | ⟨servicePubkey, acts, result, hhash, hkey, hroute, hacts⟩⟩ <;>
    rw [hroute]
  · refine ⟨fun _ name p => List.not_mem_nil, fun _ servicePubkey haddress => ?_,
      fun _ _ => ⟨rfl, fun intro hash => List.not_mem_nil⟩, fun hno => absurd hname hno⟩
    rw [address_iff, hparse] at haddress
    cases haddress.1
  · refine ⟨fun _ name p => by simp, fun _ servicePubkey haddress => ?_, fun _ _ => ⟨rfl, fun intro hash => by simp⟩,
      fun hno => absurd hname hno⟩
    rw [address_iff, hparse] at haddress
    obtain rfl := Option.some.inj haddress.1
    exact ⟨rfl, fun intro hash => by simp⟩
  · refine ⟨fun _ name p hmem => ?_, fun _ servicePubkey' haddress => ?_, fun _ hno => ?_, fun hno => absurd hname hno⟩
    · rcases List.mem_cons.1 hmem with heq | hmem
      · cases heq
      · obtain ⟨intro, heq⟩ := hacts _ hmem
        cases heq
    · rw [address_iff, hparse] at haddress
      obtain rfl := Option.some.inj haddress.1
      refine ⟨?_, fun intro hash' hmem => ?_⟩
      · rw [List.filterMap_cons, looksUp_connects hacts]
        rfl
      · rcases List.mem_cons.1 hmem with heq | hmem
        · cases heq
        · obtain ⟨intro', heq⟩ := hacts _ hmem
          cases heq
          rfl
    · exact absurd (address_iff.2 ⟨by rw [hparse, hhash], hkey⟩) (hno servicePubkey)

/-- No service is known, but every circuit is had, and every exit connects. -/
def reachable (c : DescriptorCrypto) : Network c where
  now := 0
  store := .empty
  verified := fun _ _ hget => by cases hget
  answers := fun _ => []
  getCircuit := fun _ => .ok ()
  connect := fun _ _ _ => .ok ()
  buildCircuitVia := fun _ _ => .ok ()
  connectService := fun _ _ => .ok ()

/-- A host is asked for: it is kept in the hidden network, or out of it, whatever comes back, just when a hidden name
ends in `.hidra` as it is written here. -/
theorem kept_iff (c : DescriptorCrypto) (sensitive : List Char → String) {input : Bytes} {host : List Char} {port : Nat}
    (h : Requests input host port) :
    (∀ net : Network c, Kept net host port (handleInner net sensitive input)) ↔
      (HidraName host → ".hidra".toList <:+ host) := by
  have hroute : ∀ net : Network c, handleInner net sensitive input = route net sensitive host port := by
    intro net
    unfold handleInner
    rw [show (readTarget.run ⟨input, []⟩).1 = .ok (.domain host port) from h]
    rfl
  constructor
  · intro hkept hname
    by_contra hsuffix
    have hkept := hkept (reachable c)
    rw [hroute] at hkept
    obtain ⟨hacts, hsome⟩ := route_remote (reachable c) sensitive port hsuffix
    obtain ⟨act, hact⟩ := List.exists_mem_of_ne_nil _ (hsome ⟨0, by decide, rfl⟩)
    obtain rfl := hacts act hact
    exact hkept.hidden hname host port hact
  · intro hends net
    rw [hroute net]
    by_cases hsuffix : ".hidra".toList <:+ host
    · exact kept_hidden hsuffix
    · have hname : ¬ HidraName host := fun hname => hsuffix (hends hname)
      exact ⟨fun hn => absurd hn hname, fun hn => absurd hn hname, fun hn => absurd hn hname,
        fun _ _ => route_remote net sensitive port hsuffix⟩

end

/-- A browser asks for `a.hidra`. -/
theorem kept_a_hidra : Kept (reachable trustingAll) "a.hidra".toList 80
    (handleInner (reachable trustingAll) String.ofList (request [0] "a.hidra".toList 80)) :=
  (kept_iff trustingAll String.ofList (requests_request (by decide) (by decide) (by decide) (by decide))).2
    (fun _ => by decide) (reachable trustingAll)

/-- An exit is asked for `a.HIDRA`. -/
theorem upper_leaves : HidraName "a.HIDRA".toList ∧
    Requests (request [0] "a.HIDRA".toList 80) "a.HIDRA".toList 80 ∧
    Act.exitConnect "a.HIDRA".toList 80 ∈
      (handleInner (reachable trustingAll) String.ofList (request [0] "a.HIDRA".toList 80)).1 := by
  decide +kernel

end HidraNet.Proxy
