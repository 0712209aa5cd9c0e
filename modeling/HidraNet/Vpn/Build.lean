import HidraNet.Lib.Net

/-!
# Building a circuit

`build` replaces a circuit by another, or makes the first one.  The firewall is held before the old circuit comes down,
`prepare` narrows the hold to what it asks, `bring_up` arms the new circuit's own rules in its place, and what fails is
undone.  A machine that was open when its first connection began is left open by a failure (`Build.fail`); any other is
left held.

Each step here is what the code does up to its next wait, or less.  How the world answers is an `Answer`; a command to
the firewall that fails leaves it as it was.
-/

namespace HidraNet.Vpn

open Net

/-- How a node admits. -/
inductive Admission where
  | byHand
  | sessions
  | passes
deriving DecidableEq

structure Node where
  endpoint : SocketAddr
  admissionAddr : SocketAddr
  admission : Admission
deriving DecidableEq

/-- The nodes a circuit goes through: the exit, and the entry of two hops. -/
structure Plan where
  exit : Node
  entry : Option Node
deriving DecidableEq

namespace Plan

def hops (p : Plan) : Nat := if p.entry.isSome then 2 else 1

def first (p : Plan) : Node := p.entry.getD p.exit

end Plan

inductive Firewall where
  | removed
  | armed (circuit : Nat)
  | held (addresses : List SocketAddr)
deriving DecidableEq

def Firewall.isActive (f : Firewall) : Bool := f ≠ .removed

/-- How the world answers a step. -/
structure Answer where
  ok : Bool
  /-- The firewall took the rules of a hold or of a circuit. -/
  nft : Bool
  lifted : Bool
  /-- Once more: the node gave an address that another hop has, or another node is to be asked. -/
  again : Bool
  connected : Bool
  plan : Option Plan
deriving DecidableEq

def Answer.good : Answer := ⟨true, true, true, false, true, none⟩

def killSwitch : Bool := true

structure Circuit where
  id : Nat
  plan : Plan
  killSwitch : Bool
deriving DecidableEq

/-- The circuit that is up, and the account that switched it on. -/
structure Active where
  owner : Option Nat
  circuit : Circuit
deriving DecidableEq

structure Build where
  id : Nat
  owner : Option Nat
  plan : Plan
  old : Option Active
  wasHeld : Bool
  held : List SocketAddr
  /-- What the firewall was when it began; for the statements. -/
  found : Firewall
deriving DecidableEq

/-- Where `prepare` waits, or is about to hold the firewall for what it asks. -/
inductive Preparing where
  | checks
  | asking
  | bridging (tries : Nat)
  | behind (tries : Nat)
  | entryAgain (tries : Nat)
  | entryAsking (tries : Nat)
deriving DecidableEq

/-- The steps of `bring_up`, in the one order that works. -/
inductive Raising where
  | outer
  | interface
  | plan
  | socket
  | arm
deriving DecidableEq

/-- What has been done so far. -/
structure Steps where
  outer : Bool
  plan : Bool
  killSwitch : Bool
deriving DecidableEq

inductive Phase where
  | takingDown
  | preparing (p : Preparing)
  | raising (r : Raising) (steps : Steps)
  | undoing (steps : Steps)
deriving DecidableEq

/-- What a step of `build` comes to. -/
inductive Next where
  | goes (p : Phase)
  | up (c : Circuit)
  | failed
deriving DecidableEq

namespace Build

variable (b : Build)

/-- `hold_admitting`, or `hold` with no requests. -/
def hold (f : Firewall) (a : Answer) (nodes direct : List SocketAddr) (p : Phase) : Firewall × Next :=
  if a.nft then (.held (nodes ++ direct), .goes p) else (f, .failed)

def prepared (cancelled : Bool) : Next := if cancelled then .failed else .goes (.raising .outer ⟨false, false, false⟩)

def afterFirst (cancelled : Bool) : Next :=
  if b.plan.entry.isSome && b.plan.exit.admission != .byHand then .goes (.preparing (.bridging 0))
  else prepared cancelled

/-- `prepare`.  A wait on a node ends with its answer or with the cancel, and `ok` says which came first. -/
def prepare (p : Preparing) (cancelled : Bool) (a : Answer) (f : Firewall) : Firewall × Next :=
  let first := b.plan.first
  match p with
  | .checks =>
    if !a.ok then (f, .failed)
    else if first.admission = .byHand then (f, b.afterFirst cancelled)
    else if b.held = [] then (f, .goes (.preparing .asking))
    else hold f a (b.held ++ [first.endpoint]) [first.admissionAddr] (.preparing .asking)
  | .asking => if a.ok then (f, b.afterFirst cancelled) else (f, .failed)
  | .bridging n =>
    if a.ok then hold f a (first.endpoint :: b.held.filter (· ≠ first.endpoint)) [] (.preparing (.behind n))
    else (f, .failed)
  | .behind n =>
    if !a.ok then (f, .failed)
    else if a.again && b.plan.exit.admission == .sessions && n < 3 then (f, .goes (.preparing (.bridging (n + 1))))
    else if a.again && b.plan.exit.admission == .passes && first.admission == .sessions then
      (f, .goes (.preparing (.entryAgain 0)))
    else (f, prepared cancelled)
  | .entryAgain n =>
    hold f a (b.held ++ [first.endpoint]) [first.admissionAddr] (.preparing (.entryAsking n))
  | .entryAsking n =>
    if !a.ok then (f, .failed)
    else if a.again && n + 1 < 3 then (f, .goes (.preparing (.entryAgain (n + 1))))
    else (f, prepared cancelled)

/-- `bring_up`. -/
def bringUp (r : Raising) (steps : Steps) (a : Answer) (f : Firewall) : Firewall × Next :=
  match r with
  | .outer =>
    if b.plan.entry.isNone then (f, .goes (.raising .interface steps))
    else if a.ok then (f, .goes (.raising .interface { steps with outer := true }))
    else (f, .goes (.undoing steps))
  | .interface => if a.ok then (f, .goes (.raising .plan steps)) else (f, .goes (.undoing steps))
  | .plan =>
    if a.ok then (f, .goes (.raising .socket { steps with plan := true })) else (f, .goes (.undoing steps))
  | .socket => if a.ok then (f, .goes (.raising .arm steps)) else (f, .goes (.undoing steps))
  | .arm =>
    if killSwitch then
      if a.nft then (.armed b.id, .up ⟨b.id, b.plan, true⟩) else (f, .goes (.undoing steps))
    else if a.lifted then (.removed, .up ⟨b.id, b.plan, steps.killSwitch⟩)
    else (f, .goes (.undoing steps))

/-- `Steps::undo`, as the firewall sees it. -/
def undo (steps : Steps) (a : Answer) (f : Firewall) : Firewall :=
  if steps.killSwitch && a.lifted then .removed else f

def fail (a : Answer) (f : Firewall) : Firewall :=
  if b.old.isNone && !b.wasHeld && a.lifted then .removed else f

/-- What a step of `build` does, up to what a failure does. -/
def attempt (p : Phase) (cancelled : Bool) (a : Answer) (f : Firewall) : Firewall × Next :=
  match p with
  | .takingDown => (f, .goes (.preparing .checks))
  | .preparing p => b.prepare p cancelled a f
  | .raising r steps => b.bringUp r steps a f
  | .undoing steps => (undo steps a f, .failed)

/-- One step of `build`. -/
def step (p : Phase) (cancelled : Bool) (a : Answer) (f : Firewall) : Firewall × Next :=
  match b.attempt p cancelled a f with
  | (f', .failed) => (b.fail a f', .failed)
  | r => r

/-- `build` up to its first wait, for the request `id`: the files, then the hold over what is up or was blocked.
Nothing is built, and everything left as it was, where the files cannot be read or the firewall not be held. -/
def start (id : Nat) (owner : Option Nat) (plan : Plan) (old : Option Active) (a : Answer) (f : Firewall) :
    Firewall × Option (Build × Phase) :=
  let firstHop := plan.first.endpoint
  if !a.ok then (f, none)
  else match old with
  | some o =>
    let held := firstHop :: [o.circuit.plan.first.endpoint].filter (· ≠ firstHop)
    if a.nft then (.held held, some (⟨id, owner, plan, old, false, held, f⟩, .takingDown)) else (f, none)
  | none =>
    if f.isActive then
      if a.nft then (.held [firstHop], some (⟨id, owner, plan, none, true, [firstHop], f⟩, .preparing .checks))
      else (f, none)
    else (f, some (⟨id, owner, plan, none, false, [], f⟩, .preparing .checks))

end Build

/-! ### What a step can come to -/

def Phase.isRaising : Phase → Bool
  | .raising .. | .undoing _ => true
  | _ => false

def Phase.clean : Phase → Bool
  | .raising _ steps | .undoing steps => !steps.killSwitch
  | _ => true

namespace Build

variable {b : Build} {f f' : Firewall} {a : Answer} {cancelled : Bool} {n : Next}

/-- A step that does not fail and does not arm leaves the firewall, or holds it. -/
structure Goes (f f' : Firewall) (q : Phase) : Prop where
  clean : q.clean
  firewall : f' = f ∨ ∃ l, f' = .held l

theorem hold_cases {nodes direct : List SocketAddr} {q : Phase} (hq : q.clean)
    (h : hold f a nodes direct q = (f', n)) : n = .goes q ∧ Goes f f' q ∨ n = .failed ∧ f' = f := by
  unfold hold at h
  split at h
  · cases h
    exact Or.inl ⟨rfl, hq, Or.inr ⟨_, rfl⟩⟩
  · cases h
    exact Or.inr ⟨rfl, rfl⟩

theorem prepared_cases (h : prepared cancelled = n) :
    cancelled = false ∧ n = .goes (.raising .outer ⟨false, false, false⟩) ∨ n = .failed := by
  subst h
  cases cancelled <;> simp [prepared]

theorem afterFirst_cases (h : b.afterFirst cancelled = n) :
    (∃ q : Phase, n = .goes q ∧ q.clean ∧ (q.isRaising → cancelled = false)) ∨ n = .failed := by
  unfold afterFirst at h
  split at h
  · subst h
    exact Or.inl ⟨_, rfl, rfl, by simp [Phase.isRaising]⟩
  · rcases prepared_cases h with ⟨hc, rfl⟩ | rfl
    · exact Or.inl ⟨_, rfl, rfl, fun _ => hc⟩
    · exact Or.inr rfl

theorem prepare_cases {p : Preparing} (h : b.prepare p cancelled a f = (f', n)) :
    (∃ q, n = .goes q ∧ Goes f f' q ∧ (q.isRaising → cancelled = false)) ∨ n = .failed ∧ f' = f := by
  have hstay : ∀ {q : Phase}, q.clean → (q.isRaising → cancelled = false) → (f, Next.goes q) = (f', n) →
      ∃ q, n = .goes q ∧ Goes f f' q ∧ (q.isRaising → cancelled = false) := by
    intro q hq hc h
    cases h
    exact ⟨q, rfl, ⟨hq, Or.inl rfl⟩, hc⟩
  have hfail : (f, Next.failed) = (f', n) → n = .failed ∧ f' = f := by
    intro h
    cases h
    exact ⟨rfl, rfl⟩
  have hheld : ∀ {nodes direct} {q : Preparing}, hold f a nodes direct (.preparing q) = (f', n) →
      (∃ q, n = .goes q ∧ Goes f f' q ∧ (q.isRaising → cancelled = false)) ∨ n = .failed ∧ f' = f := by
    intro nodes direct q h
    rcases hold_cases rfl h with ⟨rfl, hg⟩ | h
    · exact Or.inl ⟨_, rfl, hg, by simp [Phase.isRaising]⟩
    · exact Or.inr h
  have hafter : (f, b.afterFirst cancelled) = (f', n) →
      (∃ q, n = .goes q ∧ Goes f f' q ∧ (q.isRaising → cancelled = false)) ∨ n = .failed ∧ f' = f := by
    intro h
    cases h
    rcases afterFirst_cases (rfl : b.afterFirst cancelled = _) with ⟨q, hn, hq, hc⟩ | hn
    · exact Or.inl ⟨q, hn, ⟨hq, Or.inl rfl⟩, hc⟩
    · exact Or.inr ⟨hn, rfl⟩
  have hdone : (f, prepared cancelled) = (f', n) →
      (∃ q, n = .goes q ∧ Goes f f' q ∧ (q.isRaising → cancelled = false)) ∨ n = .failed ∧ f' = f := by
    intro h
    cases h
    rcases prepared_cases (rfl : prepared cancelled = _) with ⟨hc, hn⟩ | hn
    · exact Or.inl ⟨_, hn, ⟨rfl, Or.inl rfl⟩, fun _ => hc⟩
    · exact Or.inr ⟨hn, rfl⟩
  cases p with
  | checks =>
    simp only [prepare] at h
    split at h
    · exact Or.inr (hfail h)
    · split at h
      · exact hafter h
      · split at h
        · exact Or.inl (hstay rfl (by simp [Phase.isRaising]) h)
        · exact hheld h
  | asking =>
    simp only [prepare] at h
    split at h
    · exact hafter h
    · exact Or.inr (hfail h)
  | bridging m =>
    simp only [prepare] at h
    split at h
    · exact hheld h
    · exact Or.inr (hfail h)
  | behind m =>
    simp only [prepare] at h
    split at h
    · exact Or.inr (hfail h)
    · split at h
      · exact Or.inl (hstay rfl (by simp [Phase.isRaising]) h)
      · split at h
        · exact Or.inl (hstay rfl (by simp [Phase.isRaising]) h)
        · exact hdone h
  | entryAgain m => exact hheld h
  | entryAsking m =>
    simp only [prepare] at h
    split at h
    · exact Or.inr (hfail h)
    · split at h
      · exact Or.inl (hstay rfl (by simp [Phase.isRaising]) h)
      · exact hdone h

theorem bringUp_cases {r : Raising} {steps : Steps} (hs : steps.killSwitch = false)
    (h : b.bringUp r steps a f = (f', n)) :
    (∃ q : Phase, n = .goes q ∧ q.clean ∧ f' = f) ∨
      r = .arm ∧ a.nft = true ∧ n = .up ⟨b.id, b.plan, true⟩ ∧ f' = .armed b.id := by
  cases r with
  | arm =>
    simp only [bringUp, killSwitch, if_true] at h
    split at h
    · rename_i hnft
      cases h
      exact Or.inr ⟨rfl, hnft, rfl, rfl⟩
    · cases h
      exact Or.inl ⟨_, rfl, by simp [Phase.clean, hs], rfl⟩
  | outer =>
    simp only [bringUp] at h
    split at h
    · cases h
      exact Or.inl ⟨_, rfl, by simp [Phase.clean, hs], rfl⟩
    · split at h <;> cases h <;> exact Or.inl ⟨_, rfl, by simp [Phase.clean, hs], rfl⟩
  | interface | plan | socket =>
    simp only [bringUp] at h
    split at h <;> cases h <;> exact Or.inl ⟨_, rfl, by simp [Phase.clean, hs], rfl⟩

/-- A build goes on, comes up with the kill switch armed for it, or fails. -/
theorem step_cases {p : Phase} (hp : p.clean) (h : b.step p cancelled a f = (f', n)) :
    (∃ q, n = .goes q ∧ Goes f f' q ∧ (q.isRaising → p.isRaising ∨ cancelled = false)) ∨
    (∃ steps, p = .raising .arm steps ∧ a.nft = true ∧ n = .up ⟨b.id, b.plan, true⟩ ∧ f' = .armed b.id) ∨
    n = .failed ∧ f' = b.fail a f := by
  cases p with
  | takingDown =>
    simp only [step, attempt] at h
    cases h
    exact Or.inl ⟨_, rfl, ⟨rfl, Or.inl rfl⟩, by simp [Phase.isRaising]⟩
  | preparing p =>
    rcases hr : b.prepare p cancelled a f with ⟨f₁, n₁⟩
    simp only [step, attempt, hr] at h
    rcases prepare_cases hr with ⟨q, rfl, hg, hc⟩ | ⟨rfl, rfl⟩
    · cases h
      exact Or.inl ⟨q, rfl, hg, fun hq => Or.inr (hc hq)⟩
    · cases h
      exact Or.inr (Or.inr ⟨rfl, rfl⟩)
  | raising r steps =>
    rcases hr : b.bringUp r steps a f with ⟨f₁, n₁⟩
    simp only [step, attempt, hr] at h
    rcases bringUp_cases (by simpa [Phase.clean] using hp) hr with ⟨q, rfl, hq, rfl⟩ | ⟨rfl, hnft, rfl, rfl⟩
    · cases h
      exact Or.inl ⟨q, rfl, ⟨hq, Or.inl rfl⟩, fun _ => Or.inl rfl⟩
    · cases h
      exact Or.inr (Or.inl ⟨steps, rfl, hnft, rfl, rfl⟩)
  | undoing steps =>
    have hs : steps.killSwitch = false := by simpa [Phase.clean] using hp
    simp only [step, attempt, undo, hs, Bool.false_and, Bool.false_eq_true, if_false] at h
    cases h
    exact Or.inr (Or.inr ⟨rfl, rfl⟩)

/-- What a build has when it begins: it holds the firewall, or it found a machine that was open. -/
structure Started (id : Nat) (owner : Option Nat) (plan : Plan) (old : Option Active) (f f' : Firewall) (b : Build)
    (p : Phase) : Prop where
  id : b.id = id
  owner : b.owner = owner
  plan : b.plan = plan
  old : b.old = old
  found : b.found = f
  clean : p.clean
  isRaising : p.isRaising = false
  firewall : ((b.old.isSome ∨ b.wasHeld ∧ f ≠ .removed) ∧ ∃ l, f' = .held l) ∨
    (b.old = none ∧ f = .removed ∧ f' = .removed ∧ b.wasHeld = false)

theorem start_cases {id : Nat} {owner : Option Nat} {plan : Plan} {old : Option Active} {r : Option (Build × Phase)}
    (h : start id owner plan old a f = (f', r)) :
    r = none ∧ f' = f ∨ ∃ b p, r = some (b, p) ∧ Started id owner plan old f f' b p := by
  unfold start at h
  simp only at h
  split at h
  · cases h
    exact Or.inl ⟨rfl, rfl⟩
  · split at h
    · split at h
      · cases h
        exact Or.inr ⟨_, _, rfl, rfl, rfl, rfl, rfl, rfl, rfl, rfl, Or.inl ⟨Or.inl rfl, _, rfl⟩⟩
      · cases h
        exact Or.inl ⟨rfl, rfl⟩
    · split at h
      · rename_i hf
        have hf : f ≠ .removed := by simpa [Firewall.isActive] using hf
        split at h
        · cases h
          exact Or.inr ⟨_, _, rfl, rfl, rfl, rfl, rfl, rfl, rfl, rfl, Or.inl ⟨Or.inr ⟨rfl, hf⟩, _, rfl⟩⟩
        · cases h
          exact Or.inl ⟨rfl, rfl⟩
      · rename_i hf
        have hf : f = .removed := by simpa [Firewall.isActive] using hf
        cases h
        exact Or.inr ⟨_, _, rfl, rfl, rfl, rfl, rfl, rfl, rfl, rfl, Or.inr ⟨rfl, hf, hf, rfl⟩⟩

end Build

end HidraNet.Vpn
