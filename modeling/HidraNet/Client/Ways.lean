import HidraNet.Lib.Runs
import HidraNet.Core.Pocket
import HidraNet.Client.Shown

/-!
# Direct or behind, never both

A machine that connects, joins nodes with passes and notes which passes it used, time after time.  No node is shown one
key both from the machine's own address and through an entry, in every run in which no pass is redeemed one way that
had been put back after its node received it the other way (`oneWay_run`).

Without this a pass whose redemption failed after the node had it is put back, and the next connection of the other
kind shows the node its key again (`not_oneWay`).
-/

namespace HidraNet.Client

open HidraNet.Core Net Text Runs

/-! ### A circuit comes up -/

section

variable {Key Pk : Type} (c : Crypto Pk) (lib : KeyLib Key) (key : Key)

def Desk.showTo (i : Invite) (shown : ShownKey Key) (way : Way) (d : Desk) : Desk :=
  match nodeKey c lib i key shown with
  | .ok k => d.show' i.key (lib.publicBase64 k) way
  | .error _ => d

/-- The tunnels as far as they come up: the outer one to the entry of two hops, and the inner one, to the exit. -/
def CircuitSpec.bringUp (spec : CircuitSpec Key) (outer inner : Bool) (d : Desk) : Desk :=
  let d :=
    match spec.entry with
    | some entry => if outer then d.showTo c lib key entry spec.entryShown .direct else d
    | none => d
  if inner then d.showTo c lib key spec.exit spec.exitShown spec.exitWay else d

end

/-! ### The machine -/

/-- What a machine keeps from one connection to the next: the pocket and the wallet.  The other fields record what it
does not keep: the invites won so far, the passes put back although their node had received them, and what the nodes
were shown. -/
structure Machine where
  pocket : Pocket
  wallet : List Pass
  won : List Invite
  returned : List (Pass × Way)
  shown : List Shown

/-- Notes that circuits went up with the keys of these invites. -/
def markUsed (used : List Invite) (now : Nat) (i : Invite) : Invite :=
  match i.pass with
  | none => i
  | some p =>
    if used.any fun u => u.key = i.key && u.pass.any fun q => q.clientSecret = p.clientSecret then
      { i with pass := some { p with usedAt := now } }
    else i

def markUsedIn (pocket : Pocket) (used : List Invite) (now : Nat) : Pocket :=
  { pocket with entries := pocket.entries.map (markUsed used now), exits := pocket.exits.map (markUsed used now) }

/-- What happens to a machine. -/
inductive Event (Key : Type) where
  /-- A connection through these hops, as the plan gives them, and which of its tunnels come up. -/
  | connect (exit : Invite) (entry : Option Invite) (held : List SocketAddr) (outer inner : Bool) (w : World Key)
  /-- One of the wallet's passes is redeemed and the invite put in the pocket. -/
  | join (record : NodeRecord) (w : World Key)
  | used (invites : List Invite) (now : Nat)

namespace Machine

def desk (s : Machine) : Desk := ⟨⟨s.wallet, [], [], [], s.returned⟩, [], 0, s.shown⟩

section

variable {Key Pk : Type} (r : Keyring Key Pk)

def close (s : Machine) (d : Desk) : Machine :=
  ⟨d.won.foldl (fun p i => (p.replace r.c i).2) s.pocket, d.wallet, s.won ++ d.won, d.returned, d.shown⟩

def connect (s : Machine) (exit : Invite) (entry : Option Invite) (held : List SocketAddr) (outer inner : Bool)
    (w : World Key) : Machine :=
  match prepare r.c r.lib w exit entry r.key held s.desk with
  | (.error _, d) => s.close r d
  | (.ok spec, d) => s.close r (spec.bringUp r.c r.lib r.key outer inner d)

def redeemInto (s : Machine) (record : NodeRecord) (w : World Key) : Except String Invite × Machine :=
  match s.desk.takeFor record.nodePublicKey with
  | none => (.error ("no pass left for " ++ record.nodeName ++ ": `hidravpn passes get` asks the issuer for more"), s)
  | some (pass, d) =>
    match redeemPass r.c r.lib w record pass .direct d with
    | (.ok invite, d) => ((s.pocket.replace r.c invite).1.map fun _ => invite, s.close r (d.win invite))
    | (.error e, d) => (.error e.why, s.close r (d.afterFailure pass .direct e))

def step (s : Machine) : Event Key → Machine
  | .connect exit entry held outer inner w => s.connect r exit entry held outer inner w
  | .join record w => (s.redeemInto r record w).2
  | .used invites now => { s with pocket := markUsedIn s.pocket invites now }

/-! ### What is relied on -/

def Known (s : Machine) (i : Invite) : Prop :=
  ∀ b ∈ i.pass, b.behind = none ∨ ∃ j ∈ s.won, ∃ b' ∈ j.pass, b'.clientSecret = b.clientSecret ∧ b'.behind = b.behind

/-- The keys a connection makes are new ones. -/
structure Fresh (s : Machine) (w : World Key) : Prop where
  apart : r.Apart w.made
  unborn : ∀ t x, w.made t = .ok x → (∀ way, ¬ r.Spoken s.won s.shown (r.lib.publicBase64 x) way) ∧
    ∀ p ∈ s.wallet, r.passKey p ≠ some (r.lib.publicBase64 x)

/-- What the callers and the libraries promise: two hops are two nodes, their invites are ones the pocket may hold or
stand-ins made from a record, and keys made at random are new. -/
def Sane (s : Machine) : Event Key → Prop
  | .connect exit entry _ _ _ w =>
    (∀ i ∈ hops exit entry, s.Known i ∧ (i.pass = none → i.nodePublicKey ∈ r.nodes)) ∧
      (∀ e ∈ entry, e.key ≠ exit.key) ∧ s.Fresh r w
  | .join _ _ => True
  | .used _ _ => True

def Unspoiled (s : Machine) : Event Key → Prop
  | .connect exit entry held _ _ w =>
    checkPlan exit entry s.wallet = .ok () → s.desk.Unspoiled exit entry held w
  | .join record _ => s.desk.toPurse.Clean record.key .direct
  | .used _ _ => True

/-- A machine that has shown nothing yet: its passes have keys of their own, the keys of the invites it holds belong
to one way each, and the keys derived for one way are not those derived for the other. -/
structure Start (s : Machine) : Prop where
  shown : s.shown = []
  returned : s.returned = []
  one : Relator.RightUnique (r.Spoken s.won [])
  pool : (s.wallet.filterMap r.passKey).Nodup
  unspoken : ∀ p ∈ s.wallet, ∀ k way, r.passKey p = some k → ¬ r.Spoken s.won [] k way
  pocket : ∀ i ∈ s.pocket.admitted, s.Known i

/-- What is kept from one connection to the next. -/
structure Safe (s : Machine) : Prop where
  keys : r.Kept (fun _ => .error "") s.won [] [] s.desk
  pocket : ∀ i ∈ s.pocket.admitted, s.Known i

end

/-! ### What a connection leaves -/

variable {Key Pk : Type} {r : Keyring Key Pk} {s : Machine} {gen : Nat → Except String Key} {W : List Invite}
  {hand : List Pass} {said : List (Pass × Way)} {d : Desk}

theorem kept_showTo {i : Invite} {shown : ShownKey Key} {way : Way} (hd : r.Kept gen W hand said d)
    (hfits : r.Fits W i shown way d) : r.Leads gen W hand said d (d.showTo r.c r.lib r.key i shown way) := by
  unfold Desk.showTo
  split
  · rename_i k hk
    exact hd.say (hd.sayable (hfits k hk)) (List.Subset.refl _) i.key
  · exact hd.leads

theorem kept_bringUp {spec : CircuitSpec Key} (hd : r.Kept gen W hand said d) (hready : r.Ready W spec d)
    (outer inner : Bool) : r.Leads gen W hand said d (spec.bringUp r.c r.lib r.key outer inner d) := by
  have houter : r.Leads gen W hand said d (match spec.entry with
      | some entry => if outer then d.showTo r.c r.lib r.key entry spec.entryShown .direct else d
      | none => d) := by
    split
    · rename_i entry hentry
      split
      · exact kept_showTo hd (hready.entry entry hentry)
      · exact hd.leads
    · exact hd.leads
  unfold CircuitSpec.bringUp
  dsimp only
  split
  · exact houter.trans (kept_showTo houter.kept (houter.fits hready.exit))
  · exact houter

theorem Known.told {i : Invite} (h : s.Known i) (hwon : ∀ j ∈ s.won, j ∈ W ++ d.won) : r.Told W i d := by
  rintro k way ⟨b, hb, hkey, hbehind⟩
  rcases h b hb with hnone | ⟨j, hj, b', hb', hsecret, hsame⟩
  · rw [hnone] at hbehind
    cases hbehind
  · refine .bound j (hwon j hj) ⟨b', hb', ?_, ?_⟩
    · rw [hsecret]
      exact hkey
    · rw [hsame]
      exact hbehind

theorem Known.close {i : Invite} (h : s.Known i) : (s.close r d).Known i := by
  intro b hb
  rcases h b hb with hnone | ⟨j, hj, hbound⟩
  · exact Or.inl hnone
  · exact Or.inr ⟨j, List.mem_append_left _ hj, hbound⟩

theorem known_of_won {i : Invite} (h : i ∈ s.won) : s.Known i := by
  intro b hb
  exact Or.inr ⟨i, h, b, hb, rfl, rfl⟩

theorem mem_addEach {c : Crypto Pk} {invite i : Invite} {slots : List Slot} {p : Pocket}
    (h : i ∈ (p.addEach c invite slots).2.admitted) : i ∈ p.admitted ∨ i = invite := by
  induction slots generalizing p with
  | nil => exact Or.inl h
  | cons slot slots ih =>
    unfold Pocket.addEach at h
    rcases Pocket.add_cases p slot invite with ⟨e, hadd⟩ | ⟨-, -, -, hadd⟩
    · rw [hadd] at h
      exact Or.inl h
    · rw [hadd] at h
      rcases ih h with hmem | heq
      · rcases Pocket.mem_admitted_setList hmem with hmem | hmem
        · rcases List.mem_append.1 hmem with hmem | hmem
          · exact Or.inl (Pocket.mem_admitted.2 ⟨slot, hmem⟩)
          · exact Or.inr (List.mem_singleton.1 hmem)
        · exact Or.inl hmem
      · exact Or.inr heq

theorem mem_replace {c : Crypto Pk} {invite i : Invite} {p : Pocket} (h : i ∈ (p.replace c invite).2.admitted) :
    i ∈ p.admitted ∨ i = invite := by
  unfold Pocket.replace at h
  split at h
  · exact Or.inl h
  · dsimp only at h
    by_cases hplaced : (p.admitted.any fun i => i.key = invite.key) = true
    · rw [if_pos hplaced] at h
      rcases List.mem_append.1 h with h | h
      · obtain ⟨j, hj, rfl⟩ := List.mem_map.1 h
        split
        · exact Or.inr rfl
        · exact Or.inl (List.mem_append_left _ hj)
      · obtain ⟨j, hj, rfl⟩ := List.mem_map.1 h
        split
        · exact Or.inr rfl
        · exact Or.inl (List.mem_append_right _ hj)
    · rw [if_neg hplaced] at h
      split at h <;>
      · rename_i hadd
        have hmem : i ∈ (p.addEach c invite (slotsForRole invite.role)).2.admitted := by
          rw [hadd]
          exact h
        exact mem_addEach hmem

theorem Safe.close (h : s.Safe r) (hd : r.Kept gen s.won [] [] d) : (s.close r d).Safe r := by
  have hwon : (s.close r d).won ++ (s.close r d).desk.won = s.won ++ d.won := List.append_nil _
  refine ⟨⟨?_, hd.pool, ?_, ?_⟩, ?_⟩
  · rw [hwon]
    exact hd.one
  · rw [hwon]
    exact hd.back
  · intro t _ x hx
    cases hx
  · -- the pocket holds what it held before, or what was won
    have hpocket : ∀ (won : List Invite) (p : Pocket), (∀ i ∈ won, i ∈ d.won) →
        (∀ i ∈ p.admitted, (s.close r d).Known i) →
        ∀ i ∈ (won.foldl (fun p i => (p.replace r.c i).2) p).admitted, (s.close r d).Known i := by
      intro won
      induction won with
      | nil =>
        intro p _ hp
        exact hp
      | cons j won ih =>
        intro p hmem hp
        apply ih _ (fun i hi => hmem i (List.mem_cons_of_mem _ hi))
        intro i hi
        rcases mem_replace hi with hi | rfl
        · exact hp i hi
        · exact known_of_won (List.mem_append_right _ (hmem i List.mem_cons_self))
    apply hpocket d.won s.pocket (fun i hi => hi)
    intro i hi
    exact (h.pocket i hi).close

theorem Safe.kept (h : s.Safe r) {w : World Key} (hfresh : s.Fresh r w) : r.Kept w.made s.won [] [] s.desk := by
  have hwon : s.won ++ s.desk.won = s.won := List.append_nil _
  refine ⟨h.keys.one, h.keys.pool, h.keys.back, ?_⟩
  intro t _ x hx
  rw [hwon]
  exact hfresh.unborn t x hx

theorem safe_connect (h : s.Safe r) {exit : Invite} {entry : Option Invite} {held : List SocketAddr}
    {outer inner : Bool} {w : World Key} (hsane : s.Sane r (.connect exit entry held outer inner w))
    (hun : s.Unspoiled (.connect exit entry held outer inner w)) :
    (s.connect r exit entry held outer inner w).Safe r := by
  obtain ⟨hhops, htwo, hfresh⟩ := hsane
  have hknown : ∀ i ∈ hops exit entry, r.Told s.won i s.desk ∧ (i.pass = none → i.nodePublicKey ∈ r.nodes) := by
    intro i hi
    obtain ⟨hknown, hnode⟩ := hhops i hi
    exact ⟨hknown.told fun j hj => List.mem_append_left _ hj, hnode⟩
  unfold connect
  split
  · rename_i e d hprepare
    exact h.close (Keyring.kept_prepare hfresh.apart (h.kept hfresh) hknown htwo hun hprepare).1.kept
  · rename_i spec d hprepare
    obtain ⟨hlead, hok⟩ := Keyring.kept_prepare hfresh.apart (h.kept hfresh) hknown htwo hun hprepare
    exact h.close (kept_bringUp hlead.kept (hok spec rfl) outer inner).kept

theorem safe_redeemInto (h : s.Safe r) {record : NodeRecord} {w : World Key}
    (hclean : s.desk.toPurse.Clean record.key .direct) : (s.redeemInto r record w).2.Safe r := by
  unfold redeemInto
  split
  · exact h
  · rename_i pass d htake
    obtain ⟨hlead, hreturned, hfind⟩ := h.keys.takeFor htake
    have hway : ∀ way', (pass, way') ∈ d.returned → way' = .direct := by
      intro way' hback
      rw [hreturned] at hback
      exact hclean pass hfind (pass, way') hback rfl
    split
    · rename_i invite d' hredeem
      obtain ⟨hwon, htold, -⟩ := (Keyring.kept_redeemPass hlead.kept hway hredeem).2 invite rfl
      exact h.close (hwon.kept.win htold).kept
    · rename_i e d' hredeem
      have hsaid := (Keyring.kept_redeemPass hlead.kept hway hredeem).1 e rfl
      exact h.close (Keyring.Kept.afterFailure hsaid.kept).kept

theorem safe_used (h : s.Safe r) (invites : List Invite) (now : Nat) :
    (s.step r (.used invites now)).Safe r := by
  refine ⟨h.keys, ?_⟩
  have hused : ∀ j, s.Known j → s.Known (markUsed invites now j) := by
    intro j hj
    unfold markUsed
    split
    · exact hj
    · rename_i b hb
      split
      · intro b' hb'
        cases hb'
        exact hj b hb
      · exact hj
  intro i hi
  rcases List.mem_append.1 hi with hi | hi
  · obtain ⟨j, hj, rfl⟩ := List.mem_map.1 hi
    exact hused j (h.pocket j (List.mem_append_left _ hj))
  · obtain ⟨j, hj, rfl⟩ := List.mem_map.1 hi
    exact hused j (h.pocket j (List.mem_append_right _ hj))

theorem safe_step (h : s.Safe r) (e : Event Key) (hsane : s.Sane r e) (hun : s.Unspoiled e) : (s.step r e).Safe r := by
  cases e with
  | connect exit entry held outer inner w => exact safe_connect h hsane hun
  | join record w => exact safe_redeemInto h hun
  | used invites now => exact safe_used h invites now

theorem safe_start (h : s.Start r) : s.Safe r := by
  have hwon : s.won ++ s.desk.won = s.won := List.append_nil _
  refine ⟨⟨?_, h.pool, ?_, ?_⟩, h.pocket⟩
  · rw [hwon]
    change Relator.RightUnique (r.Spoken s.won s.shown)
    rw [h.shown]
    exact h.one
  · intro p hp k way hkey hk
    rw [hwon] at hk
    change r.Spoken s.won s.shown k way at hk
    rw [h.shown] at hk
    exact absurd hk (h.unspoken p hp k way hkey)
  · intro t _ x hx
    cases hx

/-- No node is ever shown one key both ways, while no pass is redeemed one way that was put back after its node
received it the other way. -/
theorem oneWay_run {evs : List (Event Key)} (hs : s.Start r)
    (hrun : Along (step r) (fun s e => s.Sane r e ∧ s.Unspoiled e) s evs) (n : Nat) (node k : String) :
    ¬ (⟨node, k, .direct⟩ ∈ (run (step r) s (evs.take n)).shown ∧
      ⟨node, k, .behind⟩ ∈ (run (step r) s (evs.take n)).shown) := by
  have hsafe : (run (step r) s (evs.take n)).Safe r := by
    refine run_invariant ?_ (hrun.take n) (safe_start hs)
    intro s e h hok
    exact safe_step h e hok.1 hok.2
  rintro ⟨hdirect, hbehind⟩
  have hsame := hsafe.keys.one (.shown node hdirect) (.shown node hbehind)
  cases hsame

def anew (wallet : List Pass) : Machine := ⟨Pocket.empty, wallet, [], [], []⟩

theorem start_anew {wallet : List Pass}
    (hnodes : ∀ a ∈ r.nodes, ∀ b ∈ r.nodes, ∀ k ∈ r.derivedKey .direct a, k ∉ r.derivedKey .behind b)
    (hpool : (wallet.filterMap r.passKey).Nodup)
    (hpasses : ∀ p ∈ wallet, ∀ k ∈ r.passKey p, ∀ a ∈ r.nodes, k ∉ r.derivedKey .direct a ∧ k ∉ r.derivedKey .behind a) :
    (anew wallet).Start r := by
  have hspoken : ∀ k way, r.Spoken [] [] k way → ∃ node ∈ r.nodes, r.derivedKey way node = some k := by
    intro k way hk
    cases hk with
    | shown node mem => cases mem
    | bound i mem bound => cases mem
    | derived node mem derived => exact ⟨node, mem, derived⟩
  refine ⟨rfl, rfl, ?_, hpool, ?_, ?_⟩
  · intro k way way' hk hk'
    obtain ⟨a, ha, hkey⟩ := hspoken k way hk
    obtain ⟨b, hb, hkey'⟩ := hspoken k way' hk'
    cases way with
    | direct =>
      cases way' with
      | direct => rfl
      | behind => exact absurd hkey' (hnodes a ha b hb k hkey)
    | behind =>
      cases way' with
      | direct => exact absurd hkey (hnodes b hb a ha k hkey')
      | behind => rfl
  · intro p hp k way hkey hk
    obtain ⟨a, ha, hderived⟩ := hspoken k way hk
    obtain ⟨hdirect, hbehind⟩ := hpasses p hp k hkey a ha
    cases way with
    | direct => exact hdirect hderived
    | behind => exact hbehind hderived
  · intro i hi
    cases hi

theorem sane_standIns {exit : Invite} {entry : Option Invite} {held : List SocketAddr} {outer inner : Bool}
    {w : World Key} (hhops : ∀ i ∈ hops exit entry, i.pass = none ∧ i.nodePublicKey ∈ r.nodes)
    (htwo : ∀ e ∈ entry, e.key ≠ exit.key) (hmade : ∀ t x, w.made t ≠ .ok x) :
    s.Sane r (.connect exit entry held outer inner w) := by
  refine ⟨?_, htwo, ?_, ?_⟩
  · intro i hi
    obtain ⟨hnone, hnode⟩ := hhops i hi
    refine ⟨?_, fun _ => hnode⟩
    intro b hb
    rw [hnone] at hb
    cases hb
  · intro t u x y hx
    exact absurd hx (hmade t x)
  · intro t x hx
    exact absurd hx (hmade t x)

private def exitKey : String := "AAAAAAAAAAAAAAAAAAAAAAAAAAAAAAAAAAAAAAAAAAA="
private def entryKey : String := "AQEBAQEBAQEBAQEBAQEBAQEBAQEBAQEBAQEBAQEBAQE="

/-- The keys of two nodes and of two passes, in base64. -/
private def someKeys : Crypto Unit :=
  ⟨fun s =>
    if s = exitKey then some (List.replicate 32 0)
    else if s = entryKey then some (List.replicate 32 1)
    else if s = "AgICAgICAgICAgICAgICAgICAgICAgICAgICAgICAgI=" then some (List.replicate 32 2)
    else if s = "AwMDAwMDAwMDAwMDAwMDAwMDAwMDAwMDAwMDAwMDAwM=" then some (List.replicate 32 3)
    else none, id, fun _ => .ok (), fun _ => [], fun _ _ _ _ => true⟩

private def ring : Keyring Bytes Unit :=
  ⟨someKeys, ⟨id, hexEncode, fun salt key node => salt ++ key ++ node⟩, [7], [exitKey, entryKey]⟩

private def ger : Invite :=
  ⟨"ger", exitKey, "203.0.113.10:51820", "10.77.0.2/16", none, 172818433, ["0.0.0.0/0"], 1420, 25, none, none, none,
    some "pass", none, false, [], none⟩

private def fra : Invite :=
  ⟨"fra", entryKey, "203.0.113.20:51820", "10.77.0.3/16", none, 172818433, ["0.0.0.0/0"], 1420, 25, none, none, none,
    none, none, false, ["admission-relay"], none⟩

private def gerPass (secret : String) : Pass := ⟨"key", exitKey, secret, "", "", ""⟩

private def answering (reply : Reply) : World Bytes :=
  ⟨fun _ => ⟨1000, false, .ok (), .ok (), .ok (), reply, .error "no randomness"⟩, false⟩

private def lost : World Bytes := answering (.failed "timed out" true)

private def admitting : World Bytes := answering (.answered ⟨200, some ger, none, ""⟩)

private def oneHop (w : World Bytes) : Event Bytes := .connect ger none [] true true w
private def twoHops (w : World Bytes) : Event Bytes := .connect ger (some fra) [] true true w

private theorem sane_oneHop (s : Machine) (reply : Reply) : s.Sane ring (oneHop (answering reply)) := by
  refine sane_standIns ?_ (by simp) ?_
  · decide
  · intro t x hx
    cases hx

private theorem sane_twoHops (s : Machine) (reply : Reply) : s.Sane ring (twoHops (answering reply)) := by
  refine sane_standIns ?_ (by decide +kernel) ?_
  · decide
  · intro t x hx
    cases hx

private def gerPasses : List Pass :=
  [gerPass "AgICAgICAgICAgICAgICAgICAgICAgICAgICAgICAgI=", gerPass "AwMDAwMDAwMDAwMDAwMDAwMDAwMDAwMDAwMDAwMDAwM="]

/-- A pass put back is redeemed again the same way; meanwhile another was redeemed through an entry. -/
theorem oneWay_retried :
    ¬ (⟨ger.key, hexEncode (List.replicate 32 2), .direct⟩ ∈
        (run (step ring) (anew gerPasses) ([oneHop lost, twoHops admitting, oneHop admitting].take 3)).shown ∧
      ⟨ger.key, hexEncode (List.replicate 32 2), .behind⟩ ∈
        (run (step ring) (anew gerPasses) ([oneHop lost, twoHops admitting, oneHop admitting].take 3)).shown) := by
  have hstart : (anew gerPasses).Start ring := by
    apply start_anew
    · decide +kernel
    · decide +kernel
    · decide +kernel
  have hrun : Along (step ring) (fun s e => s.Sane ring e ∧ s.Unspoiled e) (anew gerPasses)
      [oneHop lost, twoHops admitting, oneHop admitting] := by
    refine ⟨⟨sane_oneHop _ _, ?_⟩, ⟨sane_twoHops _ _, ?_⟩, ⟨sane_oneHop _ _, ?_⟩, trivial⟩
    · intro _
      constructor
      · intro _ _ _
        decide +kernel
      · intro hno
        cases hno
    · intro _
      constructor
      · intro _ hno
        revert hno
        decide +kernel
      · intro _ _ _
        decide +kernel
    · intro _
      constructor
      · intro _ _ _
        decide +kernel
      · intro hno
        cases hno
  exact oneWay_run hstart hrun 3 _ _

/-- The one pass of a machine, put back after the exit had received it directly, is redeemed through an entry. -/
theorem not_oneWay : ¬ ∀ (s : Machine) (evs : List (Event Bytes)), s.Start ring →
    Along (step ring) (fun s e => s.Sane ring e) s evs → ∀ node k,
      ¬ (⟨node, k, .direct⟩ ∈ (run (step ring) s evs).shown ∧ ⟨node, k, .behind⟩ ∈ (run (step ring) s evs).shown) := by
  intro h
  have hstart : (anew [gerPass "AgICAgICAgICAgICAgICAgICAgICAgICAgICAgICAgI="]).Start ring := by
    apply start_anew
    · decide +kernel
    · decide +kernel
    · decide +kernel
  have hboth := h _ [oneHop lost, twoHops admitting] hstart ⟨sane_oneHop _ _, sane_twoHops _ _, trivial⟩ ger.key
    (hexEncode (List.replicate 32 2))
  revert hboth
  decide +kernel

end Machine

end HidraNet.Client
