import HidraNet.Client.Circuit
import HidraNet.Core.Pocket

/-!
# Picking the nodes

The nodes a connection may go through, from what the pocket holds and knows, and one of them or two, at random.  What is
picked is a circuit that may be built (`pickPrivado_builds`, `pickRapido_builds`), and nothing is picked only where none
may be.
-/

open HidraNet.Core HidraNet.Lists HidraNet.Net HidraNet.Text
open HidraNet.Core.Redemption (ensure)

namespace HidraNet.Client

/-! ### Randomness -/

/-- The values below this are drawn equally often, modulo `n`. -/
def zone (n : Nat) : Nat := 2 ^ 64 - 1 - (2 ^ 64 - 1) % n

def indexFrom {n : Nat} (h : 0 < n) : List (Except String Nat) → Option (Except String (Fin n))
  | [] => none
  | .error e :: _ => some (.error ("no randomness available: " ++ e))
  | .ok r :: draws => if r < zone n then some (.ok ⟨r % n, Nat.mod_lt r h⟩) else indexFrom h draws

def index (n : Nat) (draws : List (Except String Nat)) : Option (Except String (Fin n)) :=
  if h : 0 < n then indexFrom h draws else some (.error "nothing to choose from")

/-! ### The nodes that may fill a slot -/

/-- What the pocket knows of a node it has not joined: enough to pick it and ask it for admission. -/
def standIn (r : NodeRecord) : Invite where
  nodeName := r.nodeName
  nodePublicKey := r.nodePublicKey
  endpoint := r.endpoint
  clientAddress := "0.0.0.0/32"
  clientAddress6 := none
  dns := 0
  allowedIps := ["0.0.0.0/0", "::/0"]
  mtu := 1420
  keepalive := 25
  operator := r.operator
  role := r.role
  country := r.country
  admission := r.admission
  admissionPort := r.admissionPort
  behind := false
  features := r.features
  pass := none

/-- The candidates one after the other: none whose key is there already, and none that admits openly by older software,
which are counted. -/
def gather (out : List Invite) (outdated : Nat) : List Invite → List Invite × Nat
  | [] => (out, outdated)
  | c :: cs =>
    if out.any fun o => o.key = c.key then gather out outdated cs
    else if c.admitsOpenly && !c.admitsSessions then gather out (outdated + 1) cs
    else gather (out ++ [c]) outdated cs

def missing (slot : String) (outdated : Nat) (add : String) : String :=
  if outdated > 0 then
    toString outdated ++ " " ++ slot ++ " node(s) that admit openly run software older than per-connection keys (no " ++
      "`sessions` in the node list) and are not used; their operators need to update them and publish the list again"
  else "the pocket has no " ++ slot ++ " node; import the signed node list, or add one: " ++ add

/-- What was picked, and the rest of each list. -/
structure Pick where
  exit : Invite
  entry : Option Invite
  otherExits : List Invite
  otherEntries : List Invite
  sameOperator : Option Bool

end HidraNet.Client

namespace HidraNet.Core.Pocket

open Client

variable (p : Pocket)

def joinable : List NodeRecord := p.known.filter fun k => k.isOpen || k.takesPasses

def candidates (slot : Slot) (accept : Invite → Bool) : List Invite × Nat :=
  gather [] 0 ((p.list slot).filter accept ++
    (p.joinable.filter fun r => (slotsForRole r.role).contains slot).map standIn)

def rapidoExits : List Invite × Nat := p.candidates .exit fun i => !i.behind

def privadoEntries : List Invite × Nat := p.candidates .entry fun _ => true

def privadoExits : List Invite × Nat := p.candidates .exit fun i => i.behind || i.admitsOpenly || i.takesPasses

end HidraNet.Core.Pocket

namespace HidraNet.Client

/-! ### Two nodes -/

def endpointIp (i : Invite) : Except String IpAddr := i.endpointAddr.map SocketAddr.ip

def sameNode (a b : Invite) : Bool :=
  a.key = b.key ||
    match endpointIp a, endpointIp b with
    | .ok x, .ok y => x = y
    | _, _ => false

def sameOperator (a b : Invite) : Option Bool :=
  match a.operator, b.operator with
  | some x, some y => if trim x ≠ "" ∧ trim y ≠ "" then some (eqIgnoreAsciiCase (trim x) (trim y)) else none
  | _, _ => none

def pairAllowed (entry exit : Invite) (allowSameOperator : Bool) : Bool :=
  allowSameOperator || sameOperator entry exit = some false

def SAME_OPERATOR_REFUSAL : String :=
  "two hops refused: every entry and exit available is run by the same operator, or the node list does not say who " ++
  "runs them. One operator running both hops can see who you are and where you go, which is what two hops exist to " ++
  "prevent. Connect anyway only if you accept that: `--allow-same-operator` on the command line, or the box on the " ++
  "VPN page"

section

variable {Key Pk : Type} (c : Crypto Pk)

/-- Both invites are good, and they are two nodes. -/
def CircuitSpec.check (s : CircuitSpec Key) (valid : Invite → Except String Unit) : Except String Unit := do
  context (valid s.exit) "the exit invite"
  match s.entry with
  | none => .ok ()
  | some entry =>
    context (valid entry) "the entry invite"
    ensure (entry.key ≠ s.exit.key)
      "the entry and the exit are the same node (same key); two hops need two different nodes"
    let entryIp ← endpointIp entry
    let exitIp ← endpointIp s.exit
    ensure (entryIp ≠ exitIp)
      "the entry and the exit are at the same address; two hops need two different machines"

def validPlan (i : Invite) : Except String Unit :=
  if i.admitsOpenly || i.takesPasses then i.validateShape c else i.validate c

/-- `validate` of a circuit not yet prepared. -/
def CircuitSpec.validatePlan (s : CircuitSpec Key) : Except String Unit := s.check (validPlan c)

end

/-! ### Picking -/

def pairsOf (entries exits : List Invite) (pass : Invite → Invite → Bool)
    (pairs : List (Fin entries.length × Fin exits.length)) : List (Fin entries.length × Fin exits.length) :=
  pairs.filter fun ex => pass (entries.get ex.1) (exits.get ex.2)

def allPairs (entries exits : List Invite) : List (Fin entries.length × Fin exits.length) :=
  (List.finRange entries.length).flatMap fun e => (List.finRange exits.length).map fun x => (e, x)

end HidraNet.Client

namespace HidraNet.Core.Pocket

open Client

variable (p : Pocket)

/-- One exit, at random. -/
def pickRapido (draws : List (Except String Nat)) : Option (Except String Pick) :=
  let (exits, outdated) := p.rapidoExits
  if exits = [] then
    some (.error ("no node can carry one hop: " ++ missing "exit" outdated "`hidravpn nodes add --exit exit.json`"))
  else
    (index exits.length draws).map fun drawn => drawn.map fun x => ⟨exits.get x, none, exits.eraseIdx x, [], none⟩

/-- One exit and one entry, at random, that are two nodes of two operators, or of one if that is allowed. -/
def pickPrivado (allowSameOperator : Bool) (draws : List (Except String Nat)) : Option (Except String Pick) :=
  let (entries, entriesOutdated) := p.privadoEntries
  if entries = [] then
    some (.error ("no node can be the entry of two hops: " ++
      missing "entry" entriesOutdated "`hidravpn nodes add --entry entry.json`"))
  else
    let (exits, exitsOutdated) := p.privadoExits
    if exits = [] then
      let byHand := p.exits.any fun i => !i.behind && !i.admitsOpenly
      some (.error ("no node can be the exit of two hops: " ++
        if byHand && exitsOutdated = 0 then
          "the exits in the pocket were admitted by hand for the one-hop key, which this machine shows from its own " ++
          "address. Ask the operator to admit `hidravpn pubkey --node <its key> --behind` and add that invite with " ++
          "`hidravpn nodes add --exit exit.json --behind`"
        else missing "exit" exitsOutdated ("a lease for the key behind an entry: `hidravpn pubkey --node <its key> " ++
          "--behind`, then `hidravpn nodes add --exit exit.json --behind`")))
    else
      let pairs := pairsOf entries exits (fun e x => !sameNode e x) (allPairs entries exits)
      if pairs = [] then
        some (.error ("every entry in the pocket is the same node as every exit; two hops need two different nodes"))
      else
        let relayed := pairsOf entries exits entryCanReach pairs
        if relayed = [] then
          some (.error ("no entry can carry this machine to an exit: the entries' software is older than relaying " ++
            "admission (no `admission-relay` in the node list), or the exits use other ports than WireGuard's " ++
            toString DEFAULT_WIREGUARD_PORT ++ " and admission's " ++ toString DEFAULT_ADMISSION_PORT ++
            ", the ones an entry forwards; their operators need to update them"))
        else
          let allowed := pairsOf entries exits (fun e x => pairAllowed e x allowSameOperator) relayed
          if allowed = [] then some (.error SAME_OPERATOR_REFUSAL)
          else
            (index allowed.length draws).map fun drawn => drawn.map fun i =>
              let (e, x) := allowed.get i
              ⟨exits.get x, some (entries.get e), exits.eraseIdx x, entries.eraseIdx e,
                sameOperator (entries.get e) (exits.get x)⟩

end HidraNet.Core.Pocket

namespace HidraNet.Client

/-! ### What may be picked -/

/-- Every invite of the pocket is a valid one, and so is every record. -/
structure Valid {Pk : Type} (c : Crypto Pk) (p : Pocket) : Prop where
  invites : ∀ i ∈ p.admitted, i.validate c = .ok ()
  records : ∀ r ∈ p.known, r.validate c = .ok ()

def Updated (i : Invite) : Prop := i.admitsOpenly = true → i.admitsSessions = true

/-- Two hops that may be built. -/
structure TwoHops {Pk : Type} (Key : Type) (c : Crypto Pk) (allowSameOperator : Bool) (entry exit : Invite) : Prop where
  plan : (CircuitSpec.new exit (some entry) : CircuitSpec Key).validatePlan c = .ok ()
  operators : pairAllowed entry exit allowSameOperator = true
  reach : entryCanReach entry exit = true
  entrySessions : Updated entry
  exitSessions : Updated exit
  exitKey : exit.admitsOpenly = true ∨ exit.takesPasses = true ∨ exit.behind = true

/-- One hop that may be built. -/
structure OneHop {Pk : Type} (Key : Type) (c : Crypto Pk) (exit : Invite) : Prop where
  plan : (CircuitSpec.new exit none : CircuitSpec Key).validatePlan c = .ok ()
  sessions : Updated exit
  exitKey : exit.behind = false

/-! ### The candidates -/

theorem gather_fst (seen : List String) {out : List Invite} (h : ∀ k, k ∈ seen ↔ k ∈ out.map Invite.key)
    (outdated : Nat) (cs : List Invite) : (gather out outdated cs).1 =
      out ++ firstByFrom Invite.key seen (cs.filter fun c => !(c.admitsOpenly && !c.admitsSessions)) := by
  induction cs generalizing seen out outdated with
  | nil => simp [gather, firstByFrom]
  | cons c cs ih =>
    have hseen : (out.any fun o => o.key = c.key) = true ↔ c.key ∈ seen := by
      rw [h, List.mem_map, List.any_eq_true]
      simp only [decide_eq_true_eq]
    rw [gather]
    by_cases hc : c.key ∈ seen
    · rw [if_pos (hseen.2 hc), ih seen h]
      congr 1
      by_cases hold : (c.admitsOpenly && !c.admitsSessions) = true
      · rw [List.filter_cons_of_neg (by simp [hold])]
      · rw [List.filter_cons_of_pos (by rw [Bool.eq_false_iff.2 hold]; rfl), firstByFrom, if_pos hc]
    · rw [if_neg (mt hseen.1 hc)]
      by_cases hold : (c.admitsOpenly && !c.admitsSessions) = true
      · rw [if_pos hold, ih seen h, List.filter_cons_of_neg (by simp [hold])]
      · have hmore : ∀ k, k ∈ c.key :: seen ↔ k ∈ (out ++ [c]).map Invite.key := by
          intro k
          rw [List.mem_cons, h, List.map_append, List.mem_append, List.map_singleton, List.mem_singleton, or_comm]
        rw [if_neg hold, ih _ hmore, List.filter_cons_of_pos (by rw [Bool.eq_false_iff.2 hold]; rfl), firstByFrom,
          if_neg hc, List.append_assoc]
        rfl

variable {Pk : Type} {c : Crypto Pk} {p : Pocket} {slot : Slot} {accept : Invite → Bool} {i entry exit : Invite}

theorem candidates_fst : (p.candidates slot accept).1 = firstBy Invite.key
    (((p.list slot).filter accept ++
      (p.joinable.filter fun r => (slotsForRole r.role).contains slot).map standIn).filter
        fun c => !(c.admitsOpenly && !c.admitsSessions)) := by
  unfold Pocket.candidates
  rw [gather_fst [] (by simp), List.nil_append]
  rfl

theorem nodup_candidates : ((p.candidates slot accept).1.map Invite.key).Nodup := by
  rw [candidates_fst]
  exact nodup_firstBy _ _

theorem mem_candidates (h : i ∈ (p.candidates slot accept).1) :
    ((i ∈ p.list slot ∧ accept i = true) ∨ ∃ r ∈ p.known, (r.isOpen || r.takesPasses) = true ∧ standIn r = i) ∧
      Updated i := by
  rw [candidates_fst] at h
  obtain ⟨hmem, hnew⟩ := List.mem_filter.1 (mem_of_mem_firstBy h)
  constructor
  · rcases List.mem_append.1 hmem with hlist | hknown
    · exact .inl (List.mem_filter.1 hlist)
    · obtain ⟨r, hr, rfl⟩ := List.mem_map.1 hknown
      obtain ⟨hr, -⟩ := List.mem_filter.1 hr
      obtain ⟨hr, hjoin⟩ := List.mem_filter.1 hr
      exact .inr ⟨r, hr, hjoin, rfl⟩
  · intro hopen
    simpa [hopen] using hnew

theorem validPlan_standIn {r : NodeRecord} (hr : r.validate c = .ok ()) (hjoin : (r.isOpen || r.takesPasses) = true) :
    validPlan c (standIn r) = .ok () := by
  have hasked : ((standIn r).admitsOpenly || (standIn r).takesPasses) = true := by
    simpa [Invite.admitsOpenly, Invite.takesPasses, standIn, NodeRecord.isOpen, NodeRecord.takesPasses] using hjoin
  obtain ⟨hkey, hendpoint, hcountry⟩ := NodeRecord.validate_ok hr
  have hip : (standIn r).clientIp = .ok (0, 32) := by
    have hsplit : splitOnce '/' "0.0.0.0/32".toList = some ("0.0.0.0".toList, "32".toList) := by decide
    have hparts : parseIpv4 "0.0.0.0".toList = some 0 ∧ parseU8 "32".toList = some 32 := by decide
    unfold Invite.clientIp standIn
    simp only [hsplit, hparts]
    rfl
  unfold validPlan
  rw [if_pos hasked, Invite.validateShape_ok_iff]
  refine ⟨hkey, hendpoint, ⟨_, hip⟩, ⟨none, rfl⟩, hcountry, ?_⟩
  show ¬ (1420 < 1280 ∨ 1420 > 1500)
  decide

theorem validPlan_of_mem (hp : Valid c p) (h : i ∈ (p.candidates slot accept).1) : validPlan c i = .ok () := by
  obtain ⟨⟨hlist, -⟩ | ⟨r, hr, hjoin, rfl⟩, -⟩ := mem_candidates h
  · have hvalid := hp.invites i (Pocket.mem_admitted.2 ⟨slot, hlist⟩)
    unfold validPlan
    by_cases hasked : (i.admitsOpenly || i.takesPasses) = true
    · rw [if_pos hasked]
      exact (Invite.validate_ok_iff.1 hvalid).1
    · rw [if_neg hasked]
      exact hvalid
  · exact validPlan_standIn (hp.records r hr) hjoin

/-! ### Circuits that pass their check -/

theorem endpointIp_of_validPlan (h : validPlan c i = .ok ()) : ∃ ip, endpointIp i = .ok ip := by
  have hshape : i.validateShape c = .ok () := by
    unfold validPlan at h
    by_cases hasked : (i.admitsOpenly || i.takesPasses) = true
    · rwa [if_pos hasked] at h
    · rw [if_neg hasked] at h
      exact (Invite.validate_ok_iff.1 h).1
  obtain ⟨-, ⟨a, ha, -⟩, -⟩ := Invite.validateShape_ok_iff.1 hshape
  refine ⟨a.ip, ?_⟩
  unfold endpointIp Invite.endpointAddr
  rw [ha]
  rfl

theorem validatePlan_single (Key : Type) (h : validPlan c exit = .ok ()) :
    (CircuitSpec.new exit none : CircuitSpec Key).validatePlan c = .ok () := by
  unfold CircuitSpec.validatePlan CircuitSpec.check
  show (context (validPlan c exit) _ >>= fun _ => Except.ok ()) = .ok ()
  rw [h]
  rfl

theorem validatePlan_pair (Key : Type) (hentry : validPlan c entry = .ok ()) (hexit : validPlan c exit = .ok ()) :
    (CircuitSpec.new exit (some entry) : CircuitSpec Key).validatePlan c = .ok () ↔ sameNode entry exit = false := by
  obtain ⟨a, ha⟩ := endpointIp_of_validPlan hentry
  obtain ⟨b, hb⟩ := endpointIp_of_validPlan hexit
  have hsame : sameNode entry exit = false ↔ entry.key ≠ exit.key ∧ a ≠ b := by
    unfold sameNode
    rw [ha, hb]
    simp
  have hplan : (CircuitSpec.new exit (some entry) : CircuitSpec Key).validatePlan c = (do
      ensure (entry.key ≠ exit.key)
        "the entry and the exit are the same node (same key); two hops need two different nodes"
      ensure (a ≠ b)
        "the entry and the exit are at the same address; two hops need two different machines") := by
    unfold CircuitSpec.validatePlan CircuitSpec.check CircuitSpec.new
    simp only [hexit, hentry, ha, hb]
    rfl
  rw [hsame, hplan]
  by_cases hkey : entry.key = exit.key
  · simp [ensure, hkey, Bind.bind, Except.bind]
  · by_cases hip : a = b
    · simp [ensure, hkey, hip, Bind.bind, Except.bind]
    · simp [ensure, hkey, hip, Bind.bind, Except.bind]

theorem apart_of_sameNode (h : sameNode entry exit = false) {a : IpAddr} (ha : endpointIp entry = .ok a) :
    entry.key ≠ exit.key ∧ endpointIp entry ≠ endpointIp exit := by
  unfold sameNode at h
  rw [Bool.or_eq_false_iff, decide_eq_false_iff_not] at h
  refine ⟨h.1, ?_⟩
  intro hip
  have hsame := h.2
  rw [← hip, ha] at hsame
  simp at hsame

/-! ### Which pairs are left -/

def allowedPairs (entries exits : List Invite) (allowSameOperator : Bool) :
    List (Fin entries.length × Fin exits.length) :=
  pairsOf entries exits (fun e x => pairAllowed e x allowSameOperator)
    (pairsOf entries exits entryCanReach
      (pairsOf entries exits (fun e x => !sameNode e x) (allPairs entries exits)))

theorem mem_allPairs {entries exits : List Invite} (ex : Fin entries.length × Fin exits.length) :
    ex ∈ allPairs entries exits := by
  unfold allPairs
  rw [List.mem_flatMap]
  exact ⟨ex.1, List.mem_finRange _, List.mem_map.2 ⟨ex.2, List.mem_finRange _, rfl⟩⟩

theorem mem_pairsOf {entries exits : List Invite} {pass : Invite → Invite → Bool}
    {pairs : List (Fin entries.length × Fin exits.length)} {ex : Fin entries.length × Fin exits.length} :
    ex ∈ pairsOf entries exits pass pairs ↔ ex ∈ pairs ∧ pass (entries.get ex.1) (exits.get ex.2) = true :=
  List.mem_filter

theorem mem_allowedPairs {entries exits : List Invite} {allow : Bool} {ex : Fin entries.length × Fin exits.length} :
    ex ∈ allowedPairs entries exits allow ↔ sameNode (entries.get ex.1) (exits.get ex.2) = false ∧
      entryCanReach (entries.get ex.1) (exits.get ex.2) = true ∧
      pairAllowed (entries.get ex.1) (exits.get ex.2) allow = true := by
  unfold allowedPairs
  rw [mem_pairsOf, mem_pairsOf, mem_pairsOf, Bool.not_eq_true', and_assoc, and_assoc]
  exact and_iff_right (mem_allPairs ex)

theorem exitKey_of_mem (h : exit ∈ p.privadoExits.1) :
    exit.admitsOpenly = true ∨ exit.takesPasses = true ∨ exit.behind = true := by
  obtain ⟨⟨-, haccept⟩ | ⟨r, -, hjoin, rfl⟩, -⟩ := mem_candidates h
  · simp only [Bool.or_eq_true] at haccept
    rcases haccept with (hbehind | hopen) | hpasses
    · exact .inr (.inr hbehind)
    · exact .inl hopen
    · exact .inr (.inl hpasses)
  · have hasked : (standIn r).admitsOpenly = true ∨ (standIn r).takesPasses = true := by
      simpa [Invite.admitsOpenly, Invite.takesPasses, standIn, NodeRecord.isOpen, NodeRecord.takesPasses] using hjoin
    rcases hasked with hopen | hpasses
    · exact .inl hopen
    · exact .inr (.inl hpasses)

theorem twoHops_iff {Key : Type} {allow : Bool} (hp : Valid c p) (hentry : entry ∈ p.privadoEntries.1)
    (hexit : exit ∈ p.privadoExits.1) : TwoHops Key c allow entry exit ↔
      sameNode entry exit = false ∧ entryCanReach entry exit = true ∧ pairAllowed entry exit allow = true := by
  have hplan := validatePlan_pair Key (validPlan_of_mem hp hentry) (validPlan_of_mem hp hexit)
  constructor
  · intro h
    exact ⟨hplan.1 h.plan, h.reach, h.operators⟩
  · rintro ⟨hsame, hreach, hallowed⟩
    exact ⟨hplan.2 hsame, hallowed, hreach, (mem_candidates hentry).2, (mem_candidates hexit).2, exitKey_of_mem hexit⟩

theorem oneHop_of_mem {Key : Type} (hp : Valid c p) (hexit : exit ∈ p.rapidoExits.1) : OneHop Key c exit := by
  obtain ⟨hfrom, hnew⟩ := mem_candidates hexit
  refine ⟨validatePlan_single Key (validPlan_of_mem hp hexit), hnew, ?_⟩
  rcases hfrom with ⟨-, haccept⟩ | ⟨r, -, -, rfl⟩
  · simpa using haccept
  · rfl

/-! ### The draw -/

theorem index_cases {n : Nat} (h : 0 < n) (draws : List (Except String Nat)) :
    match index n draws with
    | none => ∀ d ∈ draws, ∃ r, d = .ok r ∧ zone n ≤ r
    | some (.error _) => ∃ e, Except.error e ∈ draws
    | some (.ok _) => True := by
  unfold index
  rw [dif_pos h]
  induction draws with
  | nil => simp [indexFrom]
  | cons d draws ih =>
    cases d with
    | error e => exact ⟨e, List.mem_cons_self ..⟩
    | ok r =>
      unfold indexFrom
      by_cases hr : r < zone n
      · rw [if_pos hr]
        trivial
      · rw [if_neg hr]
        cases hrest : indexFrom h draws with
        | none =>
          rw [hrest] at ih
          intro d hd
          rcases List.mem_cons.1 hd with rfl | hd
          · exact ⟨r, rfl, by omega⟩
          · exact ih d hd
        | some drawn =>
          rw [hrest] at ih
          cases drawn with
          | error e =>
            obtain ⟨e', he'⟩ := ih
            exact ⟨e', List.mem_cons_of_mem _ he'⟩
          | ok x => trivial

def Answers (draws : List (Except String Nat)) (good : Pick → Prop) (possible : Prop) :
    Option (Except String Pick) → Prop
  | none => ∃ n, 0 < n ∧ ∀ d ∈ draws, ∃ r, d = .ok r ∧ zone n ≤ r
  | some (.error _) => ¬ possible ∨ ∃ e, Except.error e ∈ draws
  | some (.ok pick) => good pick

theorem answers_index {draws : List (Except String Nat)} {n : Nat} {good : Pick → Prop} {possible : Prop} (h : 0 < n)
    (f : Fin n → Pick) (hgood : ∀ x, good (f x)) :
    Answers draws good possible ((index n draws).map fun drawn => drawn.map f) := by
  have hcases := index_cases h draws
  cases hdrawn : index n draws with
  | none =>
    rw [hdrawn] at hcases
    exact ⟨n, h, hcases⟩
  | some drawn =>
    rw [hdrawn] at hcases
    cases drawn with
    | error e => exact .inr hcases
    | ok x => exact hgood x

def Parted (candidates : List Invite) (picked : Invite) (others : List Invite) : Prop :=
  (picked :: others).Perm candidates ∧ (candidates.map Invite.key).Nodup

theorem parted_eraseIdx (x : Fin (p.candidates slot accept).1.length) :
    Parted (p.candidates slot accept).1 ((p.candidates slot accept).1.get x)
      ((p.candidates slot accept).1.eraseIdx x) := by
  refine ⟨(perm_eraseIdx ?_).symm, nodup_candidates⟩
  rw [List.getElem?_eq_getElem x.isLt]
  rfl

/-! ### What is picked -/

theorem pickRapido_cases (draws : List (Except String Nat)) :
    (p.rapidoExits.1 = [] ∧ ∃ why, p.pickRapido draws = some (.error why)) ∨
    (p.rapidoExits.1 ≠ [] ∧
      p.pickRapido draws = (index p.rapidoExits.1.length draws).map fun drawn => drawn.map fun x =>
      ⟨p.rapidoExits.1.get x, none, p.rapidoExits.1.eraseIdx x, [], none⟩) := by
  unfold Pocket.pickRapido
  rcases p.rapidoExits with ⟨exits, outdated⟩
  by_cases hexits : exits = []
  · exact .inl ⟨hexits, _, if_pos hexits⟩
  · exact .inr ⟨hexits, if_neg hexits⟩

theorem pickPrivado_cases (allow : Bool) (draws : List (Except String Nat)) :
    (allowedPairs p.privadoEntries.1 p.privadoExits.1 allow = [] ∧
      ∃ why, p.pickPrivado allow draws = some (.error why)) ∨
    (allowedPairs p.privadoEntries.1 p.privadoExits.1 allow ≠ [] ∧ p.pickPrivado allow draws =
      (index (allowedPairs p.privadoEntries.1 p.privadoExits.1 allow).length draws).map fun drawn => drawn.map fun i =>
        let ex := (allowedPairs p.privadoEntries.1 p.privadoExits.1 allow).get i
        ⟨p.privadoExits.1.get ex.2, some (p.privadoEntries.1.get ex.1), p.privadoExits.1.eraseIdx ex.2,
          p.privadoEntries.1.eraseIdx ex.1,
          sameOperator (p.privadoEntries.1.get ex.1) (p.privadoExits.1.get ex.2)⟩) := by
  unfold Pocket.pickPrivado
  rcases p.privadoEntries with ⟨entries, entriesOutdated⟩
  rcases p.privadoExits with ⟨exits, exitsOutdated⟩
  dsimp only
  by_cases hentries : entries = []
  · subst hentries
    exact .inl ⟨rfl, _, if_pos rfl⟩
  rw [if_neg hentries]
  by_cases hexits : exits = []
  · subst hexits
    refine .inl ⟨?_, _, if_pos rfl⟩
    simp [allowedPairs, allPairs, pairsOf]
  rw [if_neg hexits]
  by_cases hpairs : pairsOf entries exits (fun e x => !sameNode e x) (allPairs entries exits) = []
  · refine .inl ⟨?_, _, if_pos hpairs⟩
    unfold allowedPairs
    rw [hpairs]
    rfl
  rw [if_neg hpairs]
  by_cases hrelayed : pairsOf entries exits entryCanReach
      (pairsOf entries exits (fun e x => !sameNode e x) (allPairs entries exits)) = []
  · refine .inl ⟨?_, _, if_pos hrelayed⟩
    unfold allowedPairs
    rw [hrelayed]
    rfl
  rw [if_neg hrelayed]
  by_cases hallowed : allowedPairs entries exits allow = []
  · exact .inl ⟨hallowed, _, if_pos hallowed⟩
  · exact .inr ⟨hallowed, if_neg hallowed⟩

/-- A pick of one hop may be built, and fails only where none may. -/
theorem pickRapido_builds (Key : Type) (hp : Valid c p) (draws : List (Except String Nat)) :
    Answers draws
      (fun pick => pick.entry = none ∧ OneHop Key c pick.exit ∧ Parted p.rapidoExits.1 pick.exit pick.otherExits)
      (∃ exit ∈ p.rapidoExits.1, OneHop Key c exit) (p.pickRapido draws) := by
  rcases pickRapido_cases draws with ⟨hnone, why, hfail⟩ | ⟨hsome, hpick⟩
  · rw [hfail]
    refine .inl ?_
    rintro ⟨exit, hexit, -⟩
    rw [hnone] at hexit
    cases hexit
  · rw [hpick]
    refine answers_index (List.length_pos_iff.2 hsome) _ ?_
    intro x
    exact ⟨rfl, oneHop_of_mem hp (List.get_mem ..), parted_eraseIdx x⟩

/-- A pick of two hops may be built, and fails only where none may. -/
theorem pickPrivado_builds (Key : Type) (hp : Valid c p) (allow : Bool) (draws : List (Except String Nat)) :
    Answers draws
      (fun pick => ∃ entry, pick.entry = some entry ∧ TwoHops Key c allow entry pick.exit ∧
        (entry.key ≠ pick.exit.key ∧ endpointIp entry ≠ endpointIp pick.exit) ∧
        Parted p.privadoExits.1 pick.exit pick.otherExits ∧ Parted p.privadoEntries.1 entry pick.otherEntries)
      (∃ entry ∈ p.privadoEntries.1, ∃ exit ∈ p.privadoExits.1, TwoHops Key c allow entry exit)
      (p.pickPrivado allow draws) := by
  rcases pickPrivado_cases allow draws with ⟨hnone, why, hfail⟩ | ⟨hsome, hpick⟩
  · rw [hfail]
    refine .inl ?_
    rintro ⟨entry, hentry, exit, hexit, hhops⟩
    obtain ⟨e, rfl⟩ := List.get_of_mem hentry
    obtain ⟨x, rfl⟩ := List.get_of_mem hexit
    have hleft : (e, x) ∈ allowedPairs p.privadoEntries.1 p.privadoExits.1 allow :=
      mem_allowedPairs.2 ((twoHops_iff hp hentry hexit).1 hhops)
    rw [hnone] at hleft
    cases hleft
  · rw [hpick]
    refine answers_index (List.length_pos_iff.2 hsome) _ ?_
    intro i
    have hpair := mem_allowedPairs.1 (List.get_mem (allowedPairs p.privadoEntries.1 p.privadoExits.1 allow) i)
    generalize (allowedPairs p.privadoEntries.1 p.privadoExits.1 allow).get i = ex at hpair ⊢
    have hentry : p.privadoEntries.1.get ex.1 ∈ p.privadoEntries.1 := List.get_mem ..
    have hexit : p.privadoExits.1.get ex.2 ∈ p.privadoExits.1 := List.get_mem ..
    obtain ⟨a, ha⟩ := endpointIp_of_validPlan (validPlan_of_mem hp hentry)
    exact ⟨_, rfl, (twoHops_iff hp hentry hexit).2 hpair, apart_of_sameNode hpair.1 ha, parted_eraseIdx ex.2,
      parted_eraseIdx ex.1⟩

/-- Every pick builds, whatever is drawn, and a pick fails only where no candidates would build. -/
theorem every_pick_builds (Key : Type) (hp : Valid c p) (allow : Bool) (draws : List (Except String Nat)) :
    Answers draws
      (fun pick => ∃ entry, pick.entry = some entry ∧ TwoHops Key c allow entry pick.exit ∧
        (entry.key ≠ pick.exit.key ∧ endpointIp entry ≠ endpointIp pick.exit) ∧
        Parted p.privadoExits.1 pick.exit pick.otherExits ∧ Parted p.privadoEntries.1 entry pick.otherEntries)
      (∃ entry ∈ p.privadoEntries.1, ∃ exit ∈ p.privadoExits.1, TwoHops Key c allow entry exit)
      (p.pickPrivado allow draws) ∧
    Answers draws
      (fun pick => pick.entry = none ∧ OneHop Key c pick.exit ∧ Parted p.rapidoExits.1 pick.exit pick.otherExits)
      (∃ exit ∈ p.rapidoExits.1, OneHop Key c exit) (p.pickRapido draws) :=
  ⟨pickPrivado_builds Key hp allow draws, pickRapido_builds Key hp draws⟩

private def openKey : String := "AAAAAAAAAAAAAAAAAAAAAAAAAAAAAAAAAAAAAAAAAAA="
private def handKey : String := "AQEBAQEBAQEBAQEBAQEBAQEBAQEBAQEBAQEBAQEBAQE="

private def nodeKeys : Crypto Unit :=
  ⟨fun s => if s = openKey then some (List.replicate 32 0)
    else if s = handKey then some (List.replicate 32 1) else none, id, fun _ => .ok (), fun _ => [],
    fun _ _ _ _ => true⟩

private def twoNodes : Pocket :=
  ⟨[⟨"fra", handKey, "203.0.113.20:51820", "10.77.0.3/16", none, 172818433, ["0.0.0.0/0"], 1420, 25, some "one", none,
      none, none, none, false, ["admission-relay"], none⟩], [],
    [⟨"fin", openKey, "203.0.113.10:51820", some "two", none, some "both", some "open", none, some "FI", ["sessions"]⟩],
    0, none⟩

theorem every_pick_builds_two : ∃ pick entry, twoNodes.pickPrivado false [.ok 5] = some (.ok pick) ∧
    pick.entry = some entry ∧ TwoHops Bytes nodeKeys false entry pick.exit := by
  have hvalid : Valid nodeKeys twoNodes := by
    constructor
    · decide
    · decide
  have hbuilds := (every_pick_builds Bytes hvalid false [.ok 5]).1
  have hpicked : ((twoNodes.pickPrivado false [.ok 5]).any fun drawn => drawn.isOk) = true := by decide
  rcases hpick : twoNodes.pickPrivado false [.ok 5] with _ | _ | pick
  · rw [hpick] at hpicked
    cases hpicked
  · rw [hpick] at hpicked
    cases hpicked
  · rw [hpick] at hbuilds
    obtain ⟨entry, hentry, hhops, -⟩ := hbuilds
    exact ⟨pick, entry, rfl, hentry, hhops⟩

end HidraNet.Client
