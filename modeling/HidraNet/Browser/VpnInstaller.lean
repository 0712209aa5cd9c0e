import HidraNet.Browser.VpnRelease

/-!
# Checks and installs of HidraVPN

A check and an install read the manifest alike, and go on where they wait, one step at a time, while others are under way.
The highest sequence that was accepted is kept in memory for the run of the browser, and in a file for the runs after it;
the file is written under another name first, the same for every call of a run.  What the machine says of the installed
service may change at any time.  Whether the privileged step is told that it may go back is not followed.
-/

namespace HidraNet.Browser.Installer

open Hidrarelay Runs

variable (h : Host)

/-- A manifest that is signed, and had not expired when it was read. -/
structure Genuine where
  text : String
  sig : String
  now : Int
  m : Manifest
  read : genuine h text sig now = .ok m

variable {h}

def Genuine.digest (g : Genuine h) : String := h.sha256 g.text.toUTF8.toList

variable (h)

/-- A file that was saved has the size and the hash that the manifest lists. -/
structure Saved where
  file : File
  data : List UInt8
  size : data.length = file.size
  hash : file.sha256.asStr = some (h.sha256 data)

/-- What the page was shown, and the person agreed to. -/
structure Approved where
  version : String
  digest : String

/-- An install that goes on: the manifest is the one that was approved, and has files for this machine. -/
structure Install where
  approved : Approved
  g : Genuine h
  platform : Platform
  digest : g.digest = approved.digest
  version : g.m.version.asStr = some approved.version
  listed : (h.platformKey, platform) ∈ g.m.platforms

/-- Where a call waits. -/
inductive Place where
  | fetching
  | reading (g : Genuine h)
  | checking (g : Genuine h) (stored : Nat)
  /-- For the state file's other name; then for its own; then, if that fails, for the other to be gone. -/
  | writing (g : Genuine h)
  | moving (g : Genuine h)
  | removing (g : Genuine h)
  | remembered (g : Genuine h)
  /-- For the service's answer; then for the mark in the installed copy. -/
  | asking (i : Install h)
  | marking (i : Install h)
  /-- For the person, who is asked whether to go back from a version. -/
  | confirming (i : Install h) (installed : String)
  /-- With the version that is installed, if it can be read, and the one that the person agreed to go back from. -/
  | downloading (i : Install h) (installed confirmed : Option String) (saved : List (Saved h))
  | elevated (i : Install h) (confirmed : Option String) (saved : List (Saved h))
  | ended

structure Call where
  approved : Option Approved
  place : Place h
  /-- The highest sequence that was accepted by a call that had ended when this one began. -/
  floor : Nat
  accepted : Option Nat

structure World where
  sequence : Nat
  file : Nat
  tmp : Option Nat
  /-- The version that the service says, if it answers, and the mark of the installed copy. -/
  service : Option String
  mark : Option String
  calls : List (Call h)
  /-- The highest sequence that was accepted by a call that ended. -/
  done : Nat

def start : World h := ⟨0, 0, none, none, none, [], 0⟩

inductive Event where
  | restart
  | machine (service mark : Option String)
  | call (approved : Option Approved)
  /-- The server's answer to the call at a place in the list, and the time. -/
  | fetched (i : Nat) (answer : Option (String × String)) (now : Int)
  | goOn (i : Nat)
  | confirmed (i : Nat) (yes : Bool)
  | downloaded (i : Nat) (data : Option (List UInt8))

def readable (service mark : Option String) : Option String :=
  match service.filter (isVersion ·) with
  | some version => some version
  | none => mark.filter (isVersion ·)

variable {h}

namespace World

variable (w : World h)

def put (i : Nat) (c : Call h) : World h :=
  { w with
    calls := w.calls.set i c
    done := if c.place matches .ended then max w.done (c.accepted.getD 0) else w.done }

/-- The check of a manifest against what was in the file, and what is in memory. -/
def check (i : Nat) (c : Call h) (g : Genuine h) (stored : Nat) : World h :=
  if g.m.sequence < max stored w.sequence then w.put i { c with place := .ended }
  else if compareVersions (textOf h g.m.version) MIN_VERSION < 0 then w.put i { c with place := .ended }
  else
    let place := if g.m.sequence ≤ stored then .remembered g else .writing g
    { w with sequence := max w.sequence g.m.sequence }.put i { c with place, accepted := some g.m.sequence }

/-- Only the manifest that the page was shown is installed. -/
def approve (i : Nat) (c : Call h) (g : Genuine h) : World h :=
  match c.approved with
  | none => w.put i { c with place := .ended }
  | some approved =>
    if hsame : g.digest = approved.digest ∧ g.m.version.asStr = some approved.version then
      match hfind : g.m.platforms.find? (·.1 = h.platformKey) with
      | none => w.put i { c with place := .ended }
      | some (key, platform) =>
        have hlisted : (h.platformKey, platform) ∈ g.m.platforms := by
          have hkey : key = h.platformKey := by simpa using List.find?_some hfind
          rw [← hkey]
          exact List.mem_of_find?_eq_some hfind
        w.put i { c with place := .asking ⟨approved, g, platform, hsame.1, hsame.2, hlisted⟩ }
    else w.put i { c with place := .ended }

def Install.goesBack (inst : Install h) (installed : String) : Bool := compareVersions inst.approved.version installed < 0

def weigh (i : Nat) (c : Call h) (inst : Install h) (installed : Option String) : World h :=
  match installed.filter (Install.goesBack inst ·) with
  | some installed => w.put i { c with place := .confirming inst installed }
  | none => w.put i { c with place := .downloading inst installed none [] }

def goOn (i : Nat) (c : Call h) : World h :=
  match c.place with
  | .reading g => w.put i { c with place := .checking g w.file }
  | .checking g stored => w.check i c g stored
  | .writing g => { w with tmp := some g.m.sequence }.put i { c with place := .moving g }
  | .moving g =>
    match w.tmp with
    | some n => { w with file := n, tmp := none }.put i { c with place := .remembered g }
    | none => w.put i { c with place := .removing g }
  | .removing g => { w with tmp := none }.put i { c with place := .remembered g }
  | .remembered g => w.approve i c g
  | .asking inst =>
    match w.service.filter (isVersion ·) with
    | some version => w.weigh i c inst (some version)
    | none => w.put i { c with place := .marking inst }
  | .marking inst => w.weigh i c inst (w.mark.filter (isVersion ·))
  | .downloading inst _ confirmed saved =>
    if inst.platform.files.length ≤ saved.length then w.put i { c with place := .elevated inst confirmed saved } else w
  | .elevated _ _ _ => w.put i { c with place := .ended }
  | _ => w

/-- The manifest comes, or does not. -/
def fetched (i : Nat) (c : Call h) (answer : Option (String × String)) (now : Int) : World h :=
  match answer with
  | none => w.put i { c with place := .ended }
  | some (text, sig) =>
    match read : genuine h text sig now with
    | .ok m => w.put i { c with place := .reading ⟨text, sig, now, m, read⟩ }
    | .error _ => w.put i { c with place := .ended }

/-- The next file comes, or does not; one that is not as the manifest lists it ends the install. -/
def downloaded (i : Nat) (c : Call h) (inst : Install h) (installed confirmed : Option String) (saved : List (Saved h))
    (data : Option (List UInt8)) : World h :=
  match inst.platform.files[saved.length]?, data with
  | some file, some data =>
    if hfile : data.length = file.size ∧ file.sha256.asStr = some (h.sha256 data) then
      -- a name that is no text cannot be written
      if file.name.asStr.isNone then w.put i { c with place := .ended }
      else w.put i { c with place := .downloading inst installed confirmed (saved ++ [⟨file, data, hfile.1, hfile.2⟩]) }
    else w.put i { c with place := .ended }
  | some _, none => w.put i { c with place := .ended }
  | none, _ => w

def step (w : World h) : Event → World h
  | .restart => { w with sequence := 0, tmp := none, calls := [] }
  | .machine service mark => { w with service, mark }
  | .call approved =>
    if approved.all fun a => isVersion a.version && isSha256 a.digest then
      { w with calls := w.calls ++ [⟨approved, .fetching, w.done, none⟩] }
    else w
  | .fetched i answer now =>
    match w.calls[i]? with
    | some c => if c.place matches .fetching then w.fetched i c answer now else w
    | none => w
  | .goOn i =>
    match w.calls[i]? with
    | some c => w.goOn i c
    | none => w
  | .confirmed i yes =>
    match w.calls[i]? with
    | some c =>
      match c.place with
      | .confirming inst installed =>
        w.put i { c with place := if yes then .downloading inst (some installed) (some installed) [] else .ended }
      | _ => w
    | none => w
  | .downloaded i data =>
    match w.calls[i]? with
    | some c =>
      match c.place with
      | .downloading inst installed confirmed saved => w.downloaded i c inst installed confirmed saved data
      | _ => w
    | none => w

end World

/-! ### What is to hold -/

/-- What is given to the privileged step. -/
structure Install.Sound (inst : Install h) (w : World h) (c : Call h) (confirmed : Option String) (saved : List (Saved h)) :
    Prop where
  signed : h.verifyBytes inst.g.text.toUTF8.toList inst.g.sig
  approved : ∃ approved, c.approved = some approved ∧ inst.g.digest = approved.digest ∧
    inst.g.m.version.asStr = some approved.version
  current : ∀ t, inst.g.m.expiresAt = some t → inst.g.now ≤ t
  listed : (h.platformKey, inst.platform) ∈ inst.g.m.platforms
  files : saved.map Saved.file = inst.platform.files
  checked : ∀ s ∈ saved, s.data.length = s.file.size ∧ s.file.sha256.asStr = some (h.sha256 s.data)
  newer : ∀ installed, readable w.service w.mark = some installed →
    compareVersions inst.approved.version installed < 0 → confirmed = some installed

structure Holds (w : World h) (e : Event) : Prop where
  /-- No call accepts a sequence lower than one that was accepted by a call that had ended when it began. -/
  forward : ∀ c ∈ (w.step e).calls, ∀ n, c.accepted = some n → c.floor ≤ n
  privileged : ∀ i c c' inst confirmed saved, e = .goOn i → w.calls[i]? = some c → (w.step e).calls[i]? = some c' →
    c'.place = .elevated inst confirmed saved → inst.Sound w c confirmed saved

/-- A rename leaves no less in the file than was there, nor than the call accepted; and the privileged step starts with a
newer version installed only if that is the one that the call read. -/
def InOrder (w : World h) : Event → Prop
  | .goOn i => ∀ c, w.calls[i]? = some c →
      (∀ g, c.place = .moving g → g.m.sequence ≤ w.tmp.getD w.file ∧ w.file ≤ w.tmp.getD w.file) ∧
      (∀ inst installed confirmed saved, c.place = .downloading inst installed confirmed saved →
        inst.platform.files.length ≤ saved.length → ∀ version, readable w.service w.mark = some version →
        compareVersions inst.approved.version version < 0 → installed = some version)
  | _ => True

/-! ### What is kept -/

variable {w w' : World h} {c : Call h}

def Call.Filed (c : Call h) (w : World h) : Prop := ∀ n, c.accepted = some n → n ≤ w.file

/-- What is known of a call where it waits. -/
def Place.Kept (w : World h) (c : Call h) : Place h → Prop
  | .fetching | .reading _ => c.accepted = none
  | .checking _ stored => c.accepted = none ∧ c.floor ≤ stored ∧ stored ≤ w.file
  | .writing g | .moving g => c.accepted = some g.m.sequence
  | .removing _ | .remembered _ | .ended => c.Filed w
  | .asking inst | .marking inst | .confirming inst _ | .elevated inst _ _ => c.Filed w ∧ c.approved = some inst.approved
  | .downloading inst installed confirmed saved => c.Filed w ∧ c.approved = some inst.approved ∧
      (∀ version, installed = some version → compareVersions inst.approved.version version < 0 → confirmed = some version) ∧
      saved.map Saved.file = inst.platform.files.take saved.length

structure Call.Kept (w : World h) (c : Call h) : Prop where
  floor : c.floor ≤ w.done
  forward : ∀ n, c.accepted = some n → c.floor ≤ n
  place : c.place.Kept w c

structure Kept (w : World h) : Prop where
  done : w.done ≤ w.file
  calls : ∀ c ∈ w.calls, c.Kept w

theorem Call.Filed.mono (hc : c.Filed w) (hfile : w.file ≤ w'.file) : c.Filed w' := fun n hn => (hc n hn).trans hfile

theorem Place.Kept.mono {p : Place h} (hp : p.Kept w c) (hfile : w.file ≤ w'.file) : p.Kept w' c := by
  cases p with
  | fetching => exact hp
  | reading g => exact hp
  | checking g stored => exact ⟨hp.1, hp.2.1, hp.2.2.trans hfile⟩
  | writing g => exact hp
  | moving g => exact hp
  | removing g => exact Call.Filed.mono hp hfile
  | remembered g => exact Call.Filed.mono hp hfile
  | asking inst => exact ⟨hp.1.mono hfile, hp.2⟩
  | marking inst => exact ⟨hp.1.mono hfile, hp.2⟩
  | confirming inst installed => exact ⟨hp.1.mono hfile, hp.2⟩
  | downloading inst installed confirmed saved => exact ⟨hp.1.mono hfile, hp.2⟩
  | elevated inst confirmed saved => exact ⟨hp.1.mono hfile, hp.2⟩
  | ended => exact Call.Filed.mono hp hfile

theorem Call.Kept.mono (hc : c.Kept w) (hfile : w.file ≤ w'.file) (hdone : w.done ≤ w'.done) : c.Kept w' :=
  ⟨hc.floor.trans hdone, hc.forward, hc.place.mono hfile⟩

theorem Kept.grown (hw : Kept w) (hcalls : w'.calls = w.calls) (hfile : w.file ≤ w'.file) (hdone : w'.done = w.done) :
    Kept w' := by
  refine ⟨hdone ▸ hw.done.trans hfile, fun c hc => ?_⟩
  exact (hw.calls c (hcalls ▸ hc)).mono hfile hdone.ge

theorem Kept.put (hw : Kept w) (i : Nat) (hc : c.Kept w) : Kept (w.put i c) := by
  have hdone : w.done ≤ (w.put i c).done := by
    unfold World.put
    dsimp only
    split_ifs
    · exact le_max_left _ _
    · exact le_refl _
  refine ⟨?_, ?_⟩
  · show (if c.place matches .ended then max w.done (c.accepted.getD 0) else w.done) ≤ w.file
    split
    · rename_i hended
      have hplace := hc.place
      rw [hended] at hplace
      refine max_le hw.done ?_
      cases haccepted : c.accepted with
      | none => exact Nat.zero_le _
      | some n => exact hplace n haccepted
    · exact hw.done
  · intro c' hc'
    obtain hc' | rfl := List.mem_or_eq_of_mem_set hc'
    · exact (hw.calls c' hc').mono (le_refl _) hdone
    · exact hc.mono (le_refl _) hdone

theorem Kept.refuse (hw : Kept w) (i : Nat) (hc : c.Kept w) (hnone : c.accepted = none) :
    Kept (w.put i { c with place := .ended }) := by
  refine hw.put i ⟨hc.floor, hc.forward, ?_⟩
  intro n hn
  exact absurd (hnone.symm.trans hn) nofun

theorem Kept.finish (hw : Kept w) (i : Nat) (hc : c.Kept w) (hfiled : c.Filed w) :
    Kept (w.put i { c with place := .ended }) := hw.put i ⟨hc.floor, hc.forward, hfiled⟩

/-! ### Steps -/

theorem Kept.check (hw : Kept w) (i : Nat) (hc : c.Kept w) {g : Genuine h} {stored : Nat}
    (hplace : c.place = .checking g stored) : Kept (w.check i c g stored) := by
  have hkept := hc.place
  rw [hplace] at hkept
  obtain ⟨hnone, hfloor, hstored⟩ := hkept
  have hgrown : Kept { w with sequence := max w.sequence g.m.sequence } := hw.grown rfl (le_refl _) rfl
  have hforward : ¬ g.m.sequence < max stored w.sequence → ∀ n, some g.m.sequence = some n → c.floor ≤ n := by
    rintro hlower n hn
    cases hn
    exact hfloor.trans ((le_max_left _ _).trans (not_lt.1 hlower))
  unfold World.check
  split_ifs with hlower hversion hless
  · exact hw.refuse i hc hnone
  · exact hw.refuse i hc hnone
  · refine hgrown.put i ⟨hc.floor, hforward hlower, ?_⟩
    rintro n hn
    cases hn
    exact hless.trans hstored
  · exact hgrown.put i ⟨hc.floor, hforward hlower, rfl⟩

theorem Kept.approve (hw : Kept w) (i : Nat) (hc : c.Kept w) (hfiled : c.Filed w) (g : Genuine h) :
    Kept (w.approve i c g) := by
  unfold World.approve
  split
  · exact hw.finish i hc hfiled
  · rename_i approved happroved
    split_ifs with hsame
    · split
      · exact hw.finish i hc hfiled
      · exact hw.put i ⟨hc.floor, hc.forward, hfiled, happroved⟩
    · exact hw.finish i hc hfiled

theorem Kept.weigh (hw : Kept w) (i : Nat) (hc : c.Kept w) {inst : Install h} (hfiled : c.Filed w)
    (happroved : c.approved = some inst.approved) (installed : Option String) : Kept (w.weigh i c inst installed) := by
  unfold World.weigh
  split
  · exact hw.put i ⟨hc.floor, hc.forward, hfiled, happroved⟩
  · rename_i hnone
    refine hw.put i ⟨hc.floor, hc.forward, hfiled, happroved, ?_, rfl⟩
    intro version hversion hback
    rw [hversion, Option.filter_some] at hnone
    have hback : World.Install.goesBack inst version := decide_eq_true hback
    rw [if_pos hback] at hnone
    cases hnone

theorem Kept.goOn (hw : Kept w) {i : Nat} (hget : w.calls[i]? = some c) (hin : InOrder w (.goOn i)) :
    Kept (w.goOn i c) := by
  have hc := hw.calls c (List.mem_of_getElem? hget)
  have hkept := hc.place
  unfold World.goOn
  split
  · rename_i g hplace
    rw [hplace] at hkept
    have hfloor := hc.floor.trans hw.done
    exact hw.put i ⟨hc.floor, hc.forward, hkept, hfloor, le_refl _⟩
  · rename_i g stored hplace
    exact hw.check i hc hplace
  · rename_i g hplace
    rw [hplace] at hkept
    have hgrown : Kept { w with tmp := some g.m.sequence } := hw.grown rfl (le_refl _) rfl
    exact hgrown.put i ⟨hc.floor, hc.forward, hkept⟩
  · rename_i g hplace
    rw [hplace] at hkept
    obtain ⟨hseq, hfile⟩ := (hin c hget).1 g hplace
    split
    · rename_i n htmp
      rw [htmp] at hseq hfile
      have hgrown : Kept { w with file := n, tmp := none } := hw.grown rfl hfile rfl
      refine hgrown.put i ⟨hc.floor, hc.forward, ?_⟩
      intro n' hn'
      rw [hkept] at hn'
      cases hn'
      exact hseq
    · rename_i htmp
      rw [htmp] at hseq
      refine hw.put i ⟨hc.floor, hc.forward, ?_⟩
      intro n' hn'
      rw [hkept] at hn'
      cases hn'
      exact hseq
  · rename_i g hplace
    rw [hplace] at hkept
    have hgrown : Kept { w with tmp := none } := hw.grown rfl (le_refl _) rfl
    exact hgrown.put i ⟨hc.floor, hc.forward, hkept⟩
  · rename_i g hplace
    rw [hplace] at hkept
    exact hw.approve i hc hkept g
  · rename_i inst hplace
    rw [hplace] at hkept
    split
    · exact hw.weigh i hc hkept.1 hkept.2 _
    · exact hw.put i ⟨hc.floor, hc.forward, hkept⟩
  · rename_i inst hplace
    rw [hplace] at hkept
    exact hw.weigh i hc hkept.1 hkept.2 _
  · rename_i inst installed confirmed saved hplace
    rw [hplace] at hkept
    split_ifs
    · exact hw.put i ⟨hc.floor, hc.forward, hkept.1, hkept.2.1⟩
    · exact hw
  · rename_i inst confirmed saved hplace
    rw [hplace] at hkept
    exact hw.finish i hc hkept.1
  · exact hw

theorem Kept.fetched (hw : Kept w) (i : Nat) (hc : c.Kept w) (hplace : c.place = .fetching)
    (answer : Option (String × String)) (now : Int) : Kept (w.fetched i c answer now) := by
  have hnone := hc.place
  rw [hplace] at hnone
  unfold World.fetched
  split
  · exact hw.refuse i hc hnone
  · split
    · exact hw.put i ⟨hc.floor, hc.forward, hnone⟩
    · exact hw.refuse i hc hnone

theorem Kept.downloaded (hw : Kept w) (i : Nat) (hc : c.Kept w) {inst : Install h} {installed confirmed : Option String}
    {saved : List (Saved h)} (hplace : c.place = .downloading inst installed confirmed saved)
    (data : Option (List UInt8)) : Kept (w.downloaded i c inst installed confirmed saved data) := by
  have hkept := hc.place
  rw [hplace] at hkept
  obtain ⟨hfiled, happroved, hback, hfiles⟩ := hkept
  unfold World.downloaded
  split
  · rename_i file data' hfile
    split_ifs with hsame hname
    · exact hw.finish i hc hfiled
    · refine hw.put i ⟨hc.floor, hc.forward, hfiled, happroved, hback, ?_⟩
      rw [List.map_append, hfiles, List.length_append, List.length_singleton]
      rw [List.take_add_one, hfile]
      rfl
    · exact hw.finish i hc hfiled
  · exact hw.finish i hc hfiled
  · exact hw

theorem kept_start : Kept (start h) := ⟨le_refl _, fun _ hc => absurd hc List.not_mem_nil⟩

theorem Kept.step (hw : Kept w) (e : Event) (hin : InOrder w e) : Kept (w.step e) := by
  cases e with
  | restart => exact ⟨hw.done, fun _ hc => absurd hc List.not_mem_nil⟩
  | machine service mark => exact hw.grown rfl (le_refl _) rfl
  | call approved =>
    unfold World.step
    simp only
    split_ifs
    · refine ⟨hw.done, fun c hc => ?_⟩
      obtain hc | hc := List.mem_append.1 hc
      · exact (hw.calls c hc).mono (le_refl _) (le_refl _)
      · rw [List.mem_singleton.1 hc]
        exact ⟨le_refl _, nofun, rfl⟩
    · exact hw
  | fetched i answer now =>
    unfold World.step
    simp only
    split
    · rename_i c hget
      split
      · rename_i hplace
        exact hw.fetched i (hw.calls c (List.mem_of_getElem? hget)) hplace answer now
      · exact hw
    · exact hw
  | goOn i =>
    unfold World.step
    simp only
    split
    · rename_i c hget
      exact hw.goOn hget hin
    · exact hw
  | confirmed i yes =>
    unfold World.step
    simp only
    split
    · rename_i c hget
      have hc := hw.calls c (List.mem_of_getElem? hget)
      have hkept := hc.place
      split
      · rename_i inst installed hplace
        rw [hplace] at hkept
        cases yes with
        | true =>
          refine hw.put i ⟨hc.floor, hc.forward, hkept.1, hkept.2, ?_, rfl⟩
          intro version hversion _
          exact hversion
        | false => exact hw.finish i hc hkept.1
      · exact hw
    · exact hw
  | downloaded i data =>
    unfold World.step
    simp only
    split
    · rename_i c hget
      split
      · rename_i inst installed confirmed saved hplace
        exact hw.downloaded i (hw.calls c (List.mem_of_getElem? hget)) hplace data
      · exact hw
    · exact hw

/-! ### Every run -/

theorem current_of_genuine (g : Genuine h) :
    h.verifyBytes g.text.toUTF8.toList g.sig ∧ ∀ t, g.m.expiresAt = some t → g.now ≤ t := by
  have hread := g.read
  unfold genuine at hread
  simp only [bind, Except.bind, pure, Except.pure, throw, throwThe, MonadExceptOf.throw] at hread
  split at hread
  · cases hread
  rename_i hverified
  split at hread
  · cases hread
  split at hread
  · cases hread
  rename_i m _ hexpired
  cases hread
  refine ⟨by simpa using hverified, fun t ht => ?_⟩
  rw [ht] at hexpired
  simpa using hexpired

def World.Unprivileged (w : World h) (i : Nat) : Prop :=
  ∀ c, w.calls[i]? = some c → ∀ inst confirmed saved, c.place ≠ .elevated inst confirmed saved

theorem unprivileged_put {i : Nat} (hplace : ∀ inst confirmed saved, c.place ≠ .elevated inst confirmed saved) :
    (w.put i c).Unprivileged i := by
  intro c' hc'
  unfold World.put at hc'
  rw [List.getElem?_set_self'] at hc'
  obtain ⟨_, -, rfl⟩ := Option.map_eq_some_iff.1 hc'
  exact hplace

theorem unprivileged_check (i : Nat) (g : Genuine h) (stored : Nat) : (w.check i c g stored).Unprivileged i := by
  unfold World.check
  split_ifs
  · exact unprivileged_put (by simp)
  · exact unprivileged_put (by simp)
  · exact unprivileged_put (by simp)
  · exact unprivileged_put (by simp)

theorem unprivileged_approve (i : Nat) (g : Genuine h) : (w.approve i c g).Unprivileged i := by
  unfold World.approve
  split
  · exact unprivileged_put (by simp)
  · split_ifs
    · split
      · exact unprivileged_put (by simp)
      · exact unprivileged_put (by simp)
    · exact unprivileged_put (by simp)

theorem unprivileged_weigh (i : Nat) (inst : Install h) (installed : Option String) :
    (w.weigh i c inst installed).Unprivileged i := by
  unfold World.weigh
  split
  · exact unprivileged_put (by simp)
  · exact unprivileged_put (by simp)

theorem goOn_cases (w : World h) {i : Nat} (hget : w.calls[i]? = some c) : (w.goOn i c).Unprivileged i ∨
    ∃ inst installed confirmed saved, c.place = .downloading inst installed confirmed saved ∧
      inst.platform.files.length ≤ saved.length ∧
      w.goOn i c = w.put i { c with place := .elevated inst confirmed saved } := by
  unfold World.goOn
  split
  · exact .inl (unprivileged_put (by simp))
  · exact .inl (unprivileged_check i _ _)
  · exact .inl (unprivileged_put (by simp))
  · split
    · exact .inl (unprivileged_put (by simp))
    · exact .inl (unprivileged_put (by simp))
  · exact .inl (unprivileged_put (by simp))
  · exact .inl (unprivileged_approve i _)
  · split
    · exact .inl (unprivileged_weigh i _ _)
    · exact .inl (unprivileged_put (by simp))
  · exact .inl (unprivileged_weigh i _ _)
  · rename_i inst installed confirmed saved hplace
    split_ifs with hall
    · exact .inr ⟨inst, installed, confirmed, saved, hplace, hall, rfl⟩
    · left
      intro c' hc'
      rw [hget] at hc'
      cases hc'
      rw [hplace]
      simp
  · exact .inl (unprivileged_put (by simp))
  · rename_i hother
    left
    intro c' hc' inst confirmed saved hplace
    rw [hget] at hc'
    cases hc'
    exact hother inst confirmed saved hplace

theorem Kept.sound (hw : Kept w) {i : Nat} (hget : w.calls[i]? = some c) (hin : InOrder w (.goOn i)) {inst : Install h}
    {installed confirmed : Option String} {saved : List (Saved h)}
    (hplace : c.place = .downloading inst installed confirmed saved) (hall : inst.platform.files.length ≤ saved.length) :
    inst.Sound w c confirmed saved := by
  have hkept := (hw.calls c (List.mem_of_getElem? hget)).place
  rw [hplace] at hkept
  obtain ⟨-, happroved, hback, hfiles⟩ := hkept
  obtain ⟨hsigned, hcurrent⟩ := current_of_genuine inst.g
  refine ⟨hsigned, ⟨inst.approved, happroved, inst.digest, inst.version⟩, hcurrent, inst.listed, ?_, ?_, ?_⟩
  · rw [hfiles, List.take_of_length_le hall]
  · intro s _
    exact ⟨s.size, s.hash⟩
  · intro version hversion hlower
    have hread := (hin c hget).2 inst installed confirmed saved hplace hall version hversion hlower
    exact hback version hread hlower

theorem Kept.holds (hw : Kept w) (e : Event) (hin : InOrder w e) : Holds w e := by
  have hnext := hw.step e hin
  refine ⟨fun c hc => (hnext.calls c hc).forward, ?_⟩
  rintro i c c' inst confirmed saved rfl hget hget' hplace
  have hstep : w.step (.goOn i) = w.goOn i c := by
    unfold World.step
    simp only [hget]
  rw [hstep] at hget'
  obtain hnot | ⟨inst', installed, confirmed', saved', hdownloading, hall, hput⟩ := goOn_cases w hget
  · exact absurd hplace (hnot c' hget' inst confirmed saved)
  · rw [hput] at hget'
    unfold World.put at hget'
    rw [List.getElem?_set_self', hget] at hget'
    cases hget'
    cases hplace
    exact hw.sound hget hin hdownloading hall

/-- In every run in order, no release that is accepted goes back, and what the privileged step is given is as it was
approved. -/
theorem release_run (h : Host) (es : List Event) (hin : Along World.step InOrder (start h) es) :
    Along World.step Holds (start h) es :=
  Along.of_invariant (fun _ e hw hok => hw.step e hok) (fun _ e hw hok => hw.holds e hok) hin kept_start

private def hash : String := String.ofList (List.replicate 64 'a')

private def manifest (sequence : Int) : Json :=
  .obj [("product", .str "hidravpn"), ("version", .str "0.2.0"), ("sequence", .int sequence),
    ("platforms", .obj [("linux-x64", .obj [("service", .str "service"),
      ("files", .arr [.obj [("name", .str "service"), ("url", .str "https://a/"), ("sha256", .str hash),
        ("size", .int 1)]])])])]

/-- A server with two manifests, both signed. -/
private def server : Host where
  fromText s := if s = "five" then some (manifest 5) else if s = "four" then some (manifest 4) else none
  string _ := ""
  ofText _ := none
  Number _ := some 1
  parseDate _ := none
  url s := some ⟨"https:", s⟩
  sha256 _ := hash
  verifyBytes _ _ := true
  platformKey := "linux-x64"

private def reads (i : Nat) (text : String) : List Event := [.call none, .fetched i (some (text, "")) 0, .goOn i]

/-- Two calls at once leave the lower of two sequences in the file, and after a restart it is accepted again. -/
theorem release_goes_back : ¬ ∀ (h : Host) (es : List Event), Along World.step Holds (start h) es := by
  intro hall
  let before := reads 0 "five" ++ reads 1 "four" ++
    [.goOn 1, .goOn 0, .goOn 0, .goOn 0, .goOn 0, .goOn 1, .goOn 1, .restart] ++
    reads 0 "four"
  have hrun := hall server (before ++ [.goOn 0])
  have hlast := ((along_append _ _ _).1 hrun).2.1
  have hcalls : (World.step (run World.step (start server) before) (.goOn 0)).calls.map (fun c => (c.accepted, c.floor)) =
      [(some 4, 5)] := by decide
  have hmem : (some 4, 5) ∈ (World.step (run World.step (start server) before) (.goOn 0)).calls.map
      (fun c => (c.accepted, c.floor)) := by
    rw [hcalls]
    exact List.mem_singleton_self _
  obtain ⟨c, hc, heq⟩ := List.mem_map.1 hmem
  have hforward := hlast.forward c hc 4 (congrArg Prod.fst heq)
  rw [show c.floor = 5 from congrArg Prod.snd heq] at hforward
  omega

/-- Renames leave no less, and no installed version can be read when the privileged step starts. -/
private def Orderly (w : World server) (e : Event) : Prop :=
  (match e with
    | .goOn i => w.calls[i]?.all fun c => match c.place with
      | .moving g => g.m.sequence ≤ w.tmp.getD w.file && w.file ≤ w.tmp.getD w.file
      | .downloading _ _ _ _ => readable w.service w.mark = none
      | _ => true
    | _ => true) = true

private instance (w : World server) (e : Event) : Decidable (Orderly w e) := inferInstanceAs (Decidable (_ = true))

private theorem inOrder_of_orderly {es : List Event} (hes : Along World.step Orderly (start server) es) :
    Along World.step InOrder (start server) es := by
  refine Along.of_invariant (P := fun _ => True) (fun _ _ _ _ => trivial) (fun w e _ horderly => ?_) hes trivial
  unfold Orderly at horderly
  cases e with
  | goOn i =>
    intro c hget
    simp only [hget, Option.all_some] at horderly
    constructor
    · intro g hplace
      simpa [hplace] using horderly
    · intro inst installed confirmed saved hplace _ version hversion
      simp only [hplace, decide_eq_true_eq] at horderly
      rw [horderly] at hversion
      cases hversion
  | _ => trivial

/-- A release that is checked and then installed. -/
theorem release_run_installed : Along World.step Holds (start server)
    (reads 0 "five" ++ [.goOn 0, .goOn 0, .goOn 0, .goOn 0, .call (some ⟨"0.2.0", hash⟩), .fetched 1 (some ("five", "")) 0,
      .goOn 1, .goOn 1, .goOn 1, .goOn 1, .goOn 1, .downloaded 1 (some [0]), .goOn 1]) :=
  release_run server _ (inOrder_of_orderly (by decide))

end HidraNet.Browser.Installer
