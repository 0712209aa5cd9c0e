import HidraNet.Lib.Runs
import HidraNet.Core.Pocket

/-!
# Node lists

A list of nodes and what merging it does to a pocket: withdrawn nodes go, new ones are written down as known, and what
is held already is brought up to date from a newer list.

A pocket is in order after any run of its operations, as long as the records it is brought up to date from are ones a
list is read with (`pocket_run`).  `refresh` itself does not check its record (`not_pocket`).
-/

namespace HidraNet.Core

open Runs Text

def DIRECTORY_VERSION : Nat := 1

structure Directory where
  version : Nat
  generated : String
  sequence : Nat
  expires : Option String
  removed : List String
  note : Option String
  nodes : List NodeRecord
  passIssuer : Option PassIssuer
deriving DecidableEq

/-- What an import did. -/
structure Merge where
  added : List String
  skipped : List (String × String)
  removed : List String
  updated : List (String × String)
deriving DecidableEq

namespace Directory

def withdraw (s : Pocket × Merge) (key : String) : Pocket × Merge :=
  let (p, names) := s.1.removeByKey key
  (p, { s.2 with removed := s.2.removed ++ names })

variable {Pk : Type} (c : Crypto Pk)

def isRemoved (d : Directory) (n : NodeRecord) : Bool := d.removed.any fun k => trim k = n.key

def mergeNode (d : Directory) (newer : Bool) (s : Pocket × Merge) (n : NodeRecord) : Pocket × Merge :=
  let (p, m) := s
  if d.isRemoved n then (p, m)
  else
    match p.learn c n with
    | (.ok (), p) => (p, { m with added := m.added ++ [n.nodeName] })
    | (.error e, p) =>
      let (p, changed) := if newer then p.refresh n else (p, [])
      if changed.isEmpty then (p, { m with skipped := m.skipped ++ [(n.nodeName, e)] })
      else (p, { m with updated := m.updated ++ [(n.nodeName, ", ".intercalate changed)] })

def remember (d : Directory) (p : Pocket) : Pocket :=
  let p := if d.sequence > p.listSequence then { p with listSequence := d.sequence } else p
  if d.sequence ≥ p.listSequence ∨ p.passIssuer = none then { p with passIssuer := d.passIssuer } else p

def mergeInto (d : Directory) (p : Pocket) : Pocket × Merge :=
  let newer : Bool := d.sequence > p.listSequence
  let (p, m) := d.removed.foldl withdraw (p, ⟨[], [], [], []⟩)
  let (p, m) := d.nodes.foldl (d.mergeNode c newer) (p, m)
  (d.remember p, m)

/-! ### What merging does -/

/-- A node is left out when removed, else learned, or refreshed by a newer list. -/
theorem mergeNode_cases (d : Directory) (newer : Bool) (s : Pocket × Merge) (n : NodeRecord) :
    (d.isRemoved n = true ∧ (d.mergeNode c newer s n).1 = s.1) ∨
    (d.isRemoved n = false ∧
      ((∃ u, s.1.learn c n = (.ok u, (d.mergeNode c newer s n).1)) ∨
        ∃ e, s.1.learn c n = (.error e, s.1) ∧
          (d.mergeNode c newer s n).1 = if newer then (s.1.refresh n).1 else s.1)) := by
  obtain ⟨p, m⟩ := s
  unfold mergeNode
  dsimp only
  by_cases hremoved : d.isRemoved n = true
  · rw [if_pos hremoved]
    exact Or.inl ⟨hremoved, rfl⟩
  · rw [if_neg hremoved]
    refine Or.inr ⟨by simpa using hremoved, ?_⟩
    rcases Pocket.learn_cases (c := c) p n with ⟨e, h, -⟩ | ⟨-, -, -, h⟩
    · rw [h]
      refine Or.inr ⟨e, rfl, ?_⟩
      cases newer with
      | false => rfl
      | true =>
        simp only [if_true]
        split <;> rfl
    · rw [h]
      exact Or.inl ⟨(), rfl⟩

theorem remember_eq (d : Directory) (p : Pocket) :
    ∃ n issuer, d.remember p = { p with listSequence := n, passIssuer := issuer } := by
  unfold remember
  dsimp only
  split <;> split <;> exact ⟨_, _, rfl⟩

variable {c} {d : Directory}

theorem sound_mergeInto {p : Pocket} (hp : p.Sound c) (hnodes : ∀ n ∈ d.nodes, n.validate c = .ok ()) :
    (d.mergeInto c p).1.Sound c := by
  unfold mergeInto
  dsimp only
  have hwithdrawn : (d.removed.foldl withdraw (p, ⟨[], [], [], []⟩)).1.Sound c := by
    refine List.foldlRecOn (motive := fun s : Pocket × Merge => s.1.Sound c) _ _ hp ?_
    intro s hs key _
    exact Pocket.sound_removeByKey hs key
  have hmerged : (d.nodes.foldl (d.mergeNode c (decide (d.sequence > p.listSequence)))
      (d.removed.foldl withdraw (p, ⟨[], [], [], []⟩))).1.Sound c := by
    refine List.foldlRecOn (motive := fun s : Pocket × Merge => s.1.Sound c) _ _ hwithdrawn ?_
    intro s hs n hn
    rcases mergeNode_cases c d _ s n with ⟨-, h⟩ | ⟨-, ⟨u, h⟩ | ⟨e, -, h⟩⟩
    · rw [h]
      exact hs
    · have hlearn := Pocket.sound_learn hs n
      rw [h] at hlearn
      exact hlearn
    · rw [h]
      split
      · exact Pocket.sound_refresh hs (hnodes n hn)
      · exact hs
  obtain ⟨n, issuer, h⟩ := remember_eq d (d.nodes.foldl (d.mergeNode c (decide (d.sequence > p.listSequence)))
    (d.removed.foldl withdraw (p, ⟨[], [], [], []⟩))).1
  rw [h]
  refine hmerged.fewer ?_ (List.Sublist.refl _) (fun _ hi => hi)
  intro slot
  cases slot
  · exact hmerged.lists .entry
  · exact hmerged.lists .exit

end Directory

/-! ### Runs of a pocket -/

inductive PocketStep where
  | add (slot : Slot) (invite : Invite)
  | learn (record : NodeRecord)
  | refresh (record : NodeRecord)
  | replace (invite : Invite)
  | mergeInto (list : Directory)
  | remove (name : String)
  | removeByKey (key : String)

namespace Pocket

variable {Pk : Type} (c : Crypto Pk)

def step (p : Pocket) : PocketStep → Pocket
  | .add slot invite => (p.add c slot invite).2
  | .learn record => (p.learn c record).2
  | .refresh record => (p.refresh record).1
  | .replace invite => (p.replace c invite).2
  | .mergeInto list => (list.mergeInto c p).1
  | .remove name => (p.remove name).1
  | .removeByKey key => (p.removeByKey key).1

def Named (p : Pocket) : PocketStep → Prop
  | .replace invite => p.Renames invite
  | _ => True

instance : ∀ (p : Pocket) (s : PocketStep), Decidable (p.Named s)
  | p, .replace invite => inferInstanceAs (Decidable (p.Renames invite))
  | _, .add _ _ | _, .learn _ | _, .refresh _ | _, .mergeInto _ | _, .remove _ | _, .removeByKey _ => isTrue trivial

def FromList : PocketStep → Prop
  | .refresh record => record.validate c = .ok ()
  | .mergeInto list => ∀ n ∈ list.nodes, n.validate c = .ok ()
  | _ => True

variable {c}

theorem sound_step {p : Pocket} (hp : p.Sound c) {s : PocketStep} (hs : p.Named s ∧ FromList c s) :
    (p.step c s).Sound c := by
  cases s with
  | add slot invite => exact sound_add hp slot invite
  | learn record => exact sound_learn hp record
  | refresh record => exact sound_refresh hp hs.2
  | replace invite => exact sound_replace hp hs.1
  | mergeInto list => exact Directory.sound_mergeInto hp hs.2
  | remove name => exact sound_remove hp name
  | removeByKey key => exact sound_removeByKey hp key

/-- The pocket is in order after every run of its operations. -/
theorem pocket_run (c : Crypto Pk) (steps : List PocketStep)
    (h : Along (step c) (fun p s => p.Named s ∧ FromList c s) empty steps) :
    (run (step c) empty steps).Sound c := by
  refine run_invariant (P := Sound c) ?_ h sound_empty
  intro p s hp hs
  exact sound_step hp hs

private def twoKeys : Crypto Unit :=
  ⟨fun s => if s = "AAAAAAAAAAAAAAAAAAAAAAAAAAAAAAAAAAAAAAAAAAA=" then some (List.replicate 32 0)
    else if s = "AQAAAAAAAAAAAAAAAAAAAAAAAAAAAAAAAAAAAAAAAAA=" then some (1 :: List.replicate 31 0) else none,
    id, fun _ => .ok (), fun _ => [], fun _ _ _ _ => true⟩

private def fin : NodeRecord :=
  ⟨"fin", "AAAAAAAAAAAAAAAAAAAAAAAAAAAAAAAAAAAAAAAAAAA=", "203.0.113.10:51820", some "the maintainers", none,
    some "both", some "open", none, some "FI", ["sessions"]⟩

private def ger : NodeRecord :=
  ⟨"ger", "AQAAAAAAAAAAAAAAAAAAAAAAAAAAAAAAAAAAAAAAAAA=", "203.0.113.11:51820", none, none, some "entry", none, none,
    none, []⟩

private def finExit : Invite :=
  ⟨"fin", fin.nodePublicKey, "203.0.113.10:51820", "10.77.0.2/16", none, 172818433, ["0.0.0.0/0", "::/0"], 1420, 25,
    none, none, none, none, none, false, [], none⟩

instance : ∀ s : PocketStep, Decidable (FromList c s)
  | .refresh record => inferInstanceAs (Decidable (record.validate c = .ok ()))
  | .mergeInto list => inferInstanceAs (Decidable (∀ n ∈ list.nodes, n.validate c = .ok ()))
  | .add _ _ | .learn _ | .replace _ | .remove _ | .removeByKey _ => isTrue trivial

/-- An exit that its list makes an entry too, renewed, beside a node that the list brings and takes away. -/
theorem pocket_renewed :
    let s := run (step twoKeys) empty [.add .exit finExit, .learn ger,
      .mergeInto ⟨1, "", 4, none, [], none, [fin, ger], none⟩, .replace finExit, .remove "ger"]
    (s.entries.length = 1 ∧ s.exits.length = 1 ∧ s.known = []) ∧ s.Sound twoKeys :=
  ⟨by decide, pocket_run twoKeys _ (by decide)⟩

/-- A node is brought up to date from a record whose endpoint is none. -/
theorem not_pocket :
    ∃ steps, Along (step twoKeys) Named empty steps ∧ ¬ (run (step twoKeys) empty steps).Sound twoKeys := by
  refine ⟨[.add .exit finExit, .refresh { fin with endpoint := "fin" }], by decide, ?_⟩
  intro h
  have hvalid : ∀ i ∈ (run (step twoKeys) empty [.add .exit finExit, .refresh { fin with endpoint := "fin" }]).admitted,
      i.validate twoKeys = .ok () := h.valid
  revert hvalid
  decide

end Pocket

end HidraNet.Core
