import HidraNet.Dht.Descriptor
import HidraNet.Lib.Ints
import HidraNet.Lib.Runs
import HidraNet.Lib.Window

/-!
# The descriptor store

The descriptors a node of the hidden network holds: its own, the ones it looked up, and the ones other nodes pushed.
When the store is full, expired entries go first, then looked-up copies, then the entries of whichever pusher has the
most that it alone delivered.

What a call takes away of the entries that have not expired is bounded step by step (`store_run`).  An update does not
write down who delivered it, and this is what it costs (`not_store`).
-/

namespace HidraNet.Dht

open HidraNet.Core (Bytes)
open Ints Maps Runs Window

abbrev NodeId := Bytes

def MAX_STORED_SERVICES : Nat := 4096
def DESCRIPTOR_TTL_SECS : Nat := 3600
def MAX_CLOCK_SKEW_SECS : Nat := 600
def MAX_NEW_PER_PUSHER_PER_HOUR : Nat := 32
def MAX_TRACKED_PUSHERS : Nat := 8192
def HOUR : Nat := 3600
def MAX_DELIVERERS : Nat := 4

inductive Origin where
  | own
  | fetched
  | pushed (node : NodeId)
deriving DecidableEq

structure Stored where
  descriptor : ServiceDescriptor
  origin : Origin
  deliveredBy : List NodeId
deriving DecidableEq

def noteDelivery (deliveredBy : List NodeId) : Origin → List NodeId
  | .pushed node =>
    if !deliveredBy.contains node && deliveredBy.length < MAX_DELIVERERS then deliveredBy ++ [node] else deliveredBy
  | _ => deliveredBy

inductive Refused where
  | notSigned
  | fromTheFuture
  | expired
  | notNewer
  | pusherOverQuota
  | full
deriving DecidableEq

structure ServiceStore where
  entries : Map Bytes Stored
  introduced : Map NodeId (List Nat)
deriving DecidableEq

def expired (d : ServiceDescriptor) (now : Nat) : Bool := satAdd64 d.revision DESCRIPTOR_TTL_SECS ≤ now

/-- The order in which hash maps give what they hold. -/
structure Iteration where
  entries : List (Bytes × Stored) → List (Bytes × Stored)
  counts : List (NodeId × Nat) → List (NodeId × Nat)
  entriesPerm : ∀ l, (entries l).Perm l
  countsPerm : ∀ l, (counts l).Perm l

def sole (s : Stored) : Option NodeId :=
  match s.origin with
  | .pushed node => if s.deliveredBy.length ≤ 1 then some node else none
  | _ => none

/-- Makes room for one entry of `incoming` origin; false if none can go. -/
def evictOne (it : Iteration) (entries : Map Bytes Stored) (now : Nat) (incoming : Origin) : Map Bytes Stored × Bool :=
  let kept := entries.retain fun _ s => !expired s.descriptor now
  if kept.size < entries.size then (kept, true)
  else
    match ((it.entries kept.entries).filter (·.2.origin = .fetched)).argmin (·.2.descriptor.revision) with
    | some (h, _) => (kept.remove h, true)
    | none =>
      let counts := tally (fun e => sole e.2) (it.entries kept.entries)
      match (it.counts counts.entries).reverse.argmax Prod.snd with
      | none => (kept, false)
      | some (heaviest, _) =>
        if incoming = .pushed heaviest then (kept, false)
        else
          match ((it.entries kept.entries).filter (sole ·.2 = some heaviest)).argmin (·.2.descriptor.revision) with
          | some (h, _) => (kept.remove h, true)
          | none => (kept, false)

/-- The origin of an update: the stronger one, and the first pusher's. -/
def mergeOrigin : Origin → Origin → Origin
  | .own, _ => .own
  | _, .own => .own
  | .pushed first, .pushed _ => .pushed first
  | .fetched, .pushed _ => .fetched
  | _, o => o

namespace ServiceStore

def empty : ServiceStore := ⟨.empty, .empty⟩

def get (s : ServiceStore) (serviceHash : Bytes) (now : Nat) : Option Stored :=
  (s.entries.get? serviceHash).filter fun s => !expired s.descriptor now

def forgetOwn (s : ServiceStore) (serviceHash : Bytes) : ServiceStore :=
  if (s.entries.get? serviceHash).any (·.origin = .own) then { s with entries := s.entries.remove serviceHash } else s

def slideIntroduced (s : ServiceStore) (origin : Origin) (now : Nat) : Map NodeId (List Nat) :=
  match origin with
  | .pushed node =>
    s.introduced.set node (((s.introduced.get? node).getD []).dropWhile fun t => now - t ≥ HOUR)
  | _ => s.introduced

def overQuota (introduced : Map NodeId (List Nat)) : Origin → Bool
  | .pushed node => ((introduced.get? node).getD []).length ≥ MAX_NEW_PER_PUSHER_PER_HOUR
  | _ => false

def noteIntroduced (introduced : Map NodeId (List Nat)) (origin : Origin) (now : Nat) : Map NodeId (List Nat) :=
  match origin with
  | .pushed node =>
    let introduced :=
      if introduced.size ≥ MAX_TRACKED_PUSHERS && !introduced.contains node then
        introduced.retain fun _ w => w.getLast?.any fun t => now - t < HOUR
      else introduced
    introduced.set node ((introduced.get? node).getD [] ++ [now])
  | _ => introduced

variable (c : DescriptorCrypto)

/-- Keeps `descriptor` under the rules of the store. -/
def put (it : Iteration) (s : ServiceStore) (serviceHash : Bytes) (descriptor : ServiceDescriptor) (origin : Origin)
    (now : Nat) : ServiceStore × Except Refused Unit :=
  if !(descriptor.verify c serviceHash).isOk then (s, .error .notSigned)
  else if descriptor.revision > satAdd64 now MAX_CLOCK_SKEW_SECS then (s, .error .fromTheFuture)
  else if expired descriptor now then (s, .error .expired)
  else
    match s.entries.get? serviceHash with
    | some held =>
      if !expired held.descriptor now && held.descriptor.revision ≥ descriptor.revision then
        -- not newer; who delivered it is noted all the same
        if held.descriptor.revision = descriptor.revision then
          let deliveredBy := noteDelivery held.deliveredBy origin
          ({ s with entries := s.entries.set serviceHash { held with deliveredBy } }, .error .notNewer)
        else (s, .error .notNewer)
      else
        let origin := mergeOrigin held.origin origin
        let deliveredBy := noteDelivery held.deliveredBy origin
        ({ s with entries := s.entries.set serviceHash ⟨descriptor, origin, deliveredBy⟩ }, .ok ())
    | none =>
      let introduced := s.slideIntroduced origin now
      if overQuota introduced origin then ({ s with introduced }, .error .pusherOverQuota)
      else
        let (entries, room) :=
          if s.entries.size ≥ MAX_STORED_SERVICES then evictOne it s.entries now origin else (s.entries, true)
        if !room then (⟨entries, introduced⟩, .error .full)
        else
          (⟨entries.set serviceHash ⟨descriptor, origin, noteDelivery [] origin⟩, noteIntroduced introduced origin now⟩,
            .ok ())

end ServiceStore

/-! ### What eviction takes away -/

section Eviction

variable {it : Iteration} {entries : Map Bytes Stored} {now : Nat} {incoming : Origin} {hash : Bytes} {held : Stored}

def soleEntries (entries : Map Bytes Stored) (node : NodeId) : Nat := entries.entries.countP (sole ·.2 = some node)

/-- What is evicted: all that expired, else one looked-up entry or one of the heaviest pusher's, else nothing. -/
theorem evictOne_cases (it : Iteration) (entries : Map Bytes Stored) (now : Nat) (incoming : Origin) :
    (evictOne it entries now incoming = (entries.retain fun _ s => !expired s.descriptor now, true) ∧
      (entries.retain fun _ s => !expired s.descriptor now).size < entries.size) ∨
    (∃ h st, entries.get? h = some st ∧ evictOne it entries now incoming = (entries.remove h, true) ∧
      (st.origin = .fetched ∨ ∃ heaviest, sole st = some heaviest ∧ incoming ≠ .pushed heaviest ∧
        ∀ node, soleEntries entries node ≤ soleEntries entries heaviest)) ∨
    (evictOne it entries now incoming = (entries, false) ∧ ((∀ node, soleEntries entries node = 0) ∨
      ∃ heaviest, incoming = .pushed heaviest ∧ soleEntries entries heaviest ≠ 0)) := by
  unfold evictOne
  dsimp only
  split
  · rename_i hlt
    exact Or.inl ⟨rfl, hlt⟩
  · rename_i hlen
    right
    have hkept : (entries.retain fun _ s => !expired s.descriptor now) = entries := by
      unfold Map.retain
      congr 1
      apply List.filter_sublist.eq_of_length
      exact le_antisymm (List.length_filter_le ..) (not_lt.1 hlen)
    rw [hkept]
    have hmem : ∀ p : Bytes × Stored → Bool, ∀ e ∈ ((it.entries entries.entries).filter p).argmin
        (·.2.descriptor.revision), entries.get? e.1 = some e.2 ∧ p e = true := by
      intro p e he
      obtain ⟨hin, hp⟩ := List.mem_filter.1 (List.argmin_mem he)
      exact ⟨Map.mem_entries.1 ((it.entriesPerm _).mem_iff.1 hin), hp⟩
    -- the counts are those of the entries, in whatever order they were counted
    have hcounts : ∀ node n, (node, n) ∈ (it.counts (tally (fun e : Bytes × Stored => sole e.2)
        (it.entries entries.entries)).entries).reverse ↔
        n = soleEntries entries node ∧ soleEntries entries node ≠ 0 := by
      intro node n
      rw [List.mem_reverse, (it.countsPerm _).mem_iff, Map.mem_entries, get?_tally,
        (it.entriesPerm entries.entries).countP_eq]
      unfold soleEntries
      split
      · rename_i hzero
        simp [hzero]
      · rename_i hpos
        rw [Option.some.injEq]
        exact ⟨fun heq => ⟨heq.symm, hpos⟩, fun heq => heq.1.symm⟩
    split
    · rename_i h st hfetched
      obtain ⟨hget, horigin⟩ := hmem _ _ hfetched
      exact Or.inl ⟨h, st, hget, rfl, Or.inl (by simpa using horigin)⟩
    · split
      · rename_i hnone
        refine Or.inr ⟨rfl, Or.inl fun node => ?_⟩
        by_contra hpos
        have hin := (hcounts node _).2 ⟨rfl, hpos⟩
        rw [List.argmax_eq_none.1 hnone] at hin
        cases hin
      · rename_i heaviest count hmax
        obtain ⟨hcount, hpos⟩ := (hcounts heaviest count).1 (List.argmax_mem hmax)
        split
        · rename_i hsame
          exact Or.inr ⟨rfl, Or.inr ⟨heaviest, hsame, hpos⟩⟩
        · rename_i hother
          split
          · rename_i h st hvictim
            obtain ⟨hget, hsole⟩ := hmem _ _ hvictim
            refine Or.inl ⟨h, st, hget, rfl, Or.inr ⟨heaviest, by simpa using hsole, hother, fun node => ?_⟩⟩
            by_cases hzero : soleEntries entries node = 0
            · rw [hzero]
              exact Nat.zero_le _
            · have hle := List.le_of_mem_argmax ((hcounts node _).2 ⟨rfl, hzero⟩) hmax
              rw [← hcount]
              exact hle
          · -- the pusher that has the most has one
            rename_i hnone
            exfalso
            rw [List.argmin_eq_none, List.filter_eq_nil_iff] at hnone
            apply hpos
            unfold soleEntries
            rw [List.countP_eq_zero]
            intro e he
            exact hnone e ((it.entriesPerm _).mem_iff.2 he)

theorem size_evictOne {entries' : Map Bytes Stored} (h : evictOne it entries now incoming = (entries', true)) :
    entries'.size < entries.size := by
  rcases evictOne_cases it entries now incoming with ⟨heq, hlt⟩ | ⟨k, st, hget, heq, -⟩ | ⟨heq, -⟩ <;> rw [heq] at h <;>
    cases h
  · exact hlt
  · exact Map.size_remove_lt hget

theorem get?_of_evictOne {entries' : Map Bytes Stored} (h : evictOne it entries now incoming = (entries', true))
    (hget : entries'.get? hash = some held) : entries.get? hash = some held := by
  rcases evictOne_cases it entries now incoming with ⟨heq, -⟩ | ⟨k, st, -, heq, -⟩ | ⟨heq, -⟩ <;> rw [heq] at h <;> cases h
  · rw [Map.get?_retain] at hget
    exact (Option.filter_eq_some_iff.1 hget).1
  · exact (Map.get?_remove_some.1 hget).2

theorem get?_evictOne {entries' : Map Bytes Stored} (h : evictOne it entries now incoming = (entries', true))
    (hget : entries.get? hash = some held) (hlive : expired held.descriptor now = false) :
    entries'.get? hash = some held ∨ held.origin = .fetched ∨
      ∃ heaviest, sole held = some heaviest ∧ incoming ≠ .pushed heaviest ∧
        ∀ node, soleEntries entries node ≤ soleEntries entries heaviest := by
  rcases evictOne_cases it entries now incoming with ⟨heq, -⟩ | ⟨k, st, hk, heq, hgone⟩ | ⟨heq, -⟩ <;> rw [heq] at h <;>
    cases h
  · left
    rw [Map.get?_retain, hget, Option.filter_some, if_pos]
    simp [hlive]
  · rw [Map.get?_remove]
    split
    · rename_i hkey
      subst hkey
      rw [hget] at hk
      cases hk
      exact Or.inr hgone
    · exact Or.inl hget

end Eviction

/-! ### What a put does -/

section Put

variable {c : DescriptorCrypto} {it : Iteration} {s : ServiceStore} {hash : Bytes} {d : ServiceDescriptor}
  {origin : Origin} {now : Nat}

/-- The service signed it for this address, and it is neither from the future nor expired. -/
structure Current (c : DescriptorCrypto) (hash : Bytes) (d : ServiceDescriptor) (now : Nat) : Prop where
  signed : d.verify c hash = .ok ()
  notFuture : d.revision ≤ satAdd64 now MAX_CLOCK_SKEW_SECS
  live : expired d now = false

instance : Decidable (Current c hash d now) :=
  decidable_of_iff ((d.verify c hash).isOk = true ∧ d.revision ≤ satAdd64 now MAX_CLOCK_SKEW_SECS ∧ expired d now = false)
    ⟨fun h => ⟨by revert h; cases d.verify c hash <;> simp [Except.isOk, Except.toBool], h.2.1, h.2.2⟩,
      fun h => ⟨by rw [h.signed]; rfl, h.notFuture, h.live⟩⟩

theorem put_cases (c : DescriptorCrypto) (it : Iteration) (s : ServiceStore) (hash : Bytes) (d : ServiceDescriptor)
    (origin : Origin) (now : Nat) :
    (¬ Current c hash d now ∧ ∃ e, e ≠ .notNewer ∧ s.put c it hash d origin now = (s, .error e)) ∨
    Current c hash d now ∧
      ((∃ held, s.entries.get? hash = some held ∧ expired held.descriptor now = false ∧
          d.revision < held.descriptor.revision ∧ s.put c it hash d origin now = (s, .error .notNewer)) ∨
        (∃ held, s.entries.get? hash = some held ∧ expired held.descriptor now = false ∧
          d.revision = held.descriptor.revision ∧ s.put c it hash d origin now =
            (⟨s.entries.set hash ⟨held.descriptor, held.origin, noteDelivery held.deliveredBy origin⟩, s.introduced⟩,
              .error .notNewer)) ∨
        (∃ held, s.entries.get? hash = some held ∧
          (expired held.descriptor now = true ∨ held.descriptor.revision < d.revision) ∧
          s.put c it hash d origin now =
            (⟨s.entries.set hash ⟨d, mergeOrigin held.origin origin,
              noteDelivery held.deliveredBy (mergeOrigin held.origin origin)⟩, s.introduced⟩, .ok ())) ∨
        (s.entries.get? hash = none ∧ (ServiceStore.overQuota (s.slideIntroduced origin now) origin = true ∨
            MAX_STORED_SERVICES ≤ s.entries.size ∧ evictOne it s.entries now origin = (s.entries, false)) ∧
          ∃ e, e ≠ .notNewer ∧
            s.put c it hash d origin now = (⟨s.entries, s.slideIntroduced origin now⟩, .error e)) ∨
        (s.entries.get? hash = none ∧ ServiceStore.overQuota (s.slideIntroduced origin now) origin = false ∧
          ∃ entries, (entries = s.entries ∧ s.entries.size < MAX_STORED_SERVICES ∨
              MAX_STORED_SERVICES ≤ s.entries.size ∧ evictOne it s.entries now origin = (entries, true)) ∧
            s.put c it hash d origin now =
              (⟨entries.set hash ⟨d, origin, noteDelivery [] origin⟩,
                ServiceStore.noteIntroduced (s.slideIntroduced origin now) origin now⟩, .ok ()))) := by
  unfold ServiceStore.put
  split
  · rename_i hsigned
    refine Or.inl ⟨fun h => ?_, .notSigned, by decide, rfl⟩
    rw [h.signed] at hsigned
    cases hsigned
  · rename_i hsigned
    split
    · rename_i hfuture
      exact Or.inl ⟨fun h => absurd h.notFuture (not_le.2 hfuture), .fromTheFuture, by decide, rfl⟩
    · rename_i hfuture
      split
      · rename_i hexpired
        refine Or.inl ⟨fun h => ?_, .expired, by decide, rfl⟩
        rw [h.live] at hexpired
        cases hexpired
      · rename_i hlive
        have hverify : d.verify c hash = .ok () := by
          revert hsigned
          cases d.verify c hash with
          | error e => exact fun h => absurd rfl h
          | ok u => exact fun _ => rfl
        refine Or.inr ⟨⟨hverify, not_lt.1 hfuture, by simpa using hlive⟩, ?_⟩
        cases hheld : s.entries.get? hash with
        | some held =>
          dsimp only
          split
          · rename_i hold
            simp only [Bool.and_eq_true, Bool.not_eq_true', decide_eq_true_eq] at hold
            split
            · rename_i heq
              exact Or.inr (Or.inl ⟨held, rfl, hold.1, heq.symm, rfl⟩)
            · rename_i hne
              exact Or.inl ⟨held, rfl, hold.1, lt_of_le_of_ne hold.2 (Ne.symm hne), rfl⟩
          · rename_i hnew
            refine Or.inr (Or.inr (Or.inl ⟨held, rfl, ?_, rfl⟩))
            simp only [Bool.and_eq_true, Bool.not_eq_true', decide_eq_true_eq, not_and, not_le] at hnew
            cases hexpired : expired held.descriptor now with
            | true => exact Or.inl rfl
            | false => exact Or.inr (hnew hexpired)
        | none =>
          refine Or.inr (Or.inr (Or.inr ?_))
          dsimp only
          split
          · rename_i hquota
            exact Or.inl ⟨rfl, Or.inl hquota, .pusherOverQuota, by decide, rfl⟩
          · rename_i hquota
            have hquota' : ServiceStore.overQuota (s.slideIntroduced origin now) origin = false := by simpa using hquota
            by_cases hfull : s.entries.size ≥ MAX_STORED_SERVICES
            · rw [if_pos hfull]
              cases hroom : (evictOne it s.entries now origin).2 with
              | true =>
                right
                refine ⟨rfl, hquota', (evictOne it s.entries now origin).1, Or.inr ⟨hfull, Prod.ext rfl hroom⟩, ?_⟩
                simp
              | false =>
                left
                have hsame : evictOne it s.entries now origin = (s.entries, false) := by
                  rcases evictOne_cases it s.entries now origin with ⟨heq, -⟩ | ⟨k, st, -, heq, -⟩ | ⟨heq, -⟩
                  · rw [heq] at hroom
                    cases hroom
                  · rw [heq] at hroom
                    cases hroom
                  · exact heq
                rw [hsame]
                exact ⟨rfl, Or.inr ⟨hfull, rfl⟩, .full, by decide, rfl⟩
            · rw [if_neg hfull]
              exact Or.inr ⟨rfl, hquota', s.entries, Or.inl ⟨rfl, not_le.1 hfull⟩, rfl⟩

end Put

/-! ### Calls on a store -/

inductive StoreStep where
  | put (it : Iteration) (hash : Bytes) (d : ServiceDescriptor) (origin : Origin) (now : Nat)
  | forgetOwn (hash : Bytes)
  | get (hash : Bytes) (now : Nat)

structure Storing where
  store : ServiceStore
  clock : Nat
  /-- The nodes that have delivered each service since it has been held. -/
  deliverers : Bytes → Finset NodeId
  /-- The pushes after which an address is answered for that was not before, by whom and when. -/
  appeared : List (NodeId × Nat)

namespace Storing

def start (clock : Nat) : Storing := ⟨.empty, clock, fun _ => ∅, []⟩

/-- The service's deliverers, with the one of a push that is taken, or is of the revision held. -/
def delivering (s : Storing) (hash : Bytes) (d : ServiceDescriptor) (origin : Origin) (r : Except Refused Unit) :
    Finset NodeId :=
  let before := if s.store.entries.contains hash then s.deliverers hash else ∅
  match origin, r with
  | .pushed node, .ok _ => insert node before
  | .pushed node, .error .notNewer =>
    if (s.store.entries.get? hash).any (·.descriptor.revision = d.revision) then insert node before else before
  | _, _ => before

variable (c : DescriptorCrypto)

def step (s : Storing) : StoreStep → Storing
  | .put it hash d origin now =>
    let (store, r) := s.store.put c it hash d origin now
    let appeared := match origin with
      | .pushed node =>
        if (s.store.get hash now).isNone && (store.get hash now).isSome then s.appeared ++ [(node, now)] else s.appeared
      | _ => s.appeared
    ⟨store, now, Function.update s.deliverers hash (s.delivering hash d origin r), appeared⟩
  | .forgetOwn hash => { s with store := s.store.forgetOwn hash }
  | .get _ now => { s with clock := now }

def Allowed (s : Storing) : StoreStep → Prop
  | .put _ _ _ _ now => s.clock ≤ now
  | .forgetOwn _ => True
  | .get _ now => s.clock ≤ now

def timeOf (s : Storing) : StoreStep → Nat
  | .put _ _ _ _ now => now
  | .forgetOwn _ => s.clock
  | .get _ now => now

def Live (s : Storing) (e : StoreStep) (hash : Bytes) (held : Stored) : Prop :=
  s.store.entries.get? hash = some held ∧ expired held.descriptor (s.timeOf e) = false

def soleCount (s : Storing) (node : NodeId) : Nat :=
  s.store.entries.entries.countP fun e => e.2.origin = .pushed node ∧ (s.deliverers e.1).card ≤ 1

/-- No more than fit, each verified. -/
structure Kept (s : Storing) : Prop where
  room : s.store.entries.size ≤ MAX_STORED_SERVICES
  verified : ∀ hash held, s.store.entries.get? hash = some held → held.descriptor.verify c hash = .ok ()

/-- What a call leaves of the entries that have not expired. -/
structure Protects (s : Storing) (e : StoreStep) : Prop where
  revision : ∀ hash held held', s.Live e hash held → (s.step c e).store.entries.get? hash = some held' →
    held.descriptor.revision ≤ held'.descriptor.revision
  refused : ∀ it key d origin now err, e = .put it key d origin now →
    (s.store.put c it key d origin now).2 = .error err → ∀ hash held, s.Live e hash held →
      ∃ held', (s.step c e).store.entries.get? hash = some held' ∧ held'.descriptor = held.descriptor ∧
        held'.origin = held.origin
  own : ∀ hash held, s.Live e hash held → held.origin = .own → e ≠ .forgetOwn hash →
    ∃ held', (s.step c e).store.entries.get? hash = some held' ∧ held'.origin = .own
  shared : ∀ hash held node, s.Live e hash held → held.origin = .pushed node → 2 ≤ (s.deliverers hash).card →
    ∃ held', (s.step c e).store.entries.get? hash = some held'
  heaviest : ∀ it key d node now, e = .put it key d (.pushed node) now →
    (∀ other, other ≠ node → s.soleCount other < s.soleCount node) →
      ∀ hash held first, s.Live e hash held → held.origin = .pushed first →
        ∃ held', (s.step c e).store.entries.get? hash = some held'

/-- Where who delivered a service is not written down: a push that updates a pushed service comes from a node noted as
having delivered it, or two are noted. -/
def NotesDelivery (s : Storing) : StoreStep → Prop
  | .put _ hash d (.pushed node) now => ∀ held ∈ s.store.entries.get? hash, held.origin ≠ .own →
    held.origin ≠ .fetched → Current c hash d now →
    (expired held.descriptor now = true ∨ held.descriptor.revision < d.revision) →
      node ∈ held.deliveredBy ∨ 2 ≤ held.deliveredBy.length
  | _ => True

instance (s : Storing) (e : StoreStep) : Decidable (s.Allowed e) := by
  cases e <;> unfold Allowed <;> infer_instance

instance (s : Storing) (e : StoreStep) : Decidable (s.NotesDelivery c e) := by
  unfold NotesDelivery
  split <;> infer_instance

end Storing

/-! ### Who is noted as a deliverer -/

section Noted

variable {l : List NodeId} {node b : NodeId} {o : Origin} {ds : Finset NodeId}

theorem subset_noteDelivery (h : node ∈ l) : node ∈ noteDelivery l o := by
  unfold noteDelivery
  cases o with
  | pushed b =>
    dsimp only
    split
    · exact List.mem_append_left _ h
    · exact h
  | own => exact h
  | fetched => exact h

theorem noteDelivery_of_mem (h : node ∈ l) : noteDelivery l (.pushed node) = l := by
  simp [noteDelivery, h]

/-- `ds` delivered the service that `first` pushed first, and `l` are noted: all of them, while it is one. -/
structure Noted (l : List NodeId) (ds : Finset NodeId) (first : NodeId) : Prop where
  first : first ∈ l
  nodup : l.Nodup
  real : ∀ node ∈ l, node ∈ ds
  all : l.length ≤ 1 → ∀ node ∈ ds, node ∈ l

theorem Noted.card_le_one_iff {first : NodeId} (h : Noted l ds first) : ds.card ≤ 1 ↔ l.length ≤ 1 := by
  have hsub : l.toFinset ⊆ ds := fun node hnode => h.real node (List.mem_toFinset.1 hnode)
  have hcard := List.toFinset_card_of_nodup h.nodup
  constructor
  · intro hone
    rw [← hcard]
    exact (Finset.card_le_card hsub).trans hone
  · intro hone
    have hsup : ds ⊆ l.toFinset := fun node hnode => List.mem_toFinset.2 (h.all hone node hnode)
    exact (Finset.card_le_card hsup).trans (hcard.le.trans hone)

theorem noted_new (node : NodeId) : Noted (noteDelivery [] (.pushed node)) {node} node := by
  have hone : noteDelivery [] (.pushed node) = [node] := rfl
  rw [hone]
  refine ⟨List.mem_singleton_self _, List.nodup_singleton _, fun b hb => ?_, fun _ b hb => ?_⟩
  · rw [Finset.mem_singleton]
    exact List.mem_singleton.1 hb
  · rw [List.mem_singleton]
    exact Finset.mem_singleton.1 hb

theorem Noted.again {first : NodeId} (h : Noted l ds first) (b : NodeId) :
    Noted (noteDelivery l (.pushed b)) (insert b ds) first := by
  by_cases hb : b ∈ l
  · rw [noteDelivery_of_mem hb, Finset.insert_eq_of_mem (h.real b hb)]
    exact h
  · have hpos := List.length_pos_of_mem h.first
    by_cases hroom : l.length < MAX_DELIVERERS
    · have hnote : noteDelivery l (.pushed b) = l ++ [b] := by simp [noteDelivery, hb, hroom]
      rw [hnote]
      refine ⟨List.mem_append_left _ h.first, ?_, fun node hnode => ?_, fun hone => ?_⟩
      · rw [List.nodup_append]
        refine ⟨h.nodup, List.nodup_singleton _, fun x hx y hy => ?_⟩
        rw [List.mem_singleton.1 hy]
        exact ne_of_mem_of_not_mem hx hb
      · rw [Finset.mem_insert]
        rcases List.mem_append.1 hnode with hnode | hnode
        · exact Or.inr (h.real node hnode)
        · exact Or.inl (List.mem_singleton.1 hnode)
      · rw [List.length_append, List.length_singleton] at hone
        omega
    · have hnote : noteDelivery l (.pushed b) = l := by simp [noteDelivery, hroom]
      rw [hnote]
      refine ⟨h.first, h.nodup, fun node hnode => Finset.mem_insert_of_mem (h.real node hnode), fun hone => ?_⟩
      unfold MAX_DELIVERERS at hroom
      omega

theorem Noted.update {first : NodeId} (h : Noted l ds first) (hb : b ∈ l ∨ 2 ≤ l.length) :
    Noted (noteDelivery l (.pushed first)) (insert b ds) first := by
  rw [noteDelivery_of_mem h.first]
  refine ⟨h.first, h.nodup, fun node hnode => Finset.mem_insert_of_mem (h.real node hnode), fun hone node hnode => ?_⟩
  rcases Finset.mem_insert.1 hnode with rfl | hnode
  · rcases hb with hb | hb
    · exact hb
    · omega
  · exact h.all hone node hnode

end Noted

/-! ### Over a run -/

section StoreRun

variable {c : DescriptorCrypto} {s : Storing} {it : Iteration} {hash : Bytes} {d : ServiceDescriptor} {origin : Origin}
  {now : Nat}

structure StoreInv (c : DescriptorCrypto) (s : Storing) : Prop where
  kept : s.Kept c
  noted : ∀ hash held node, s.store.entries.get? hash = some held → held.origin = .pushed node →
    Noted held.deliveredBy (s.deliverers hash) node

private theorem storeInv_start (clock : Nat) : StoreInv c (Storing.start clock) := by
  refine ⟨⟨Nat.zero_le _, fun hash held h => ?_⟩, fun hash held node h => ?_⟩
  · cases h
  · cases h

private theorem storeInv_set (h : StoreInv c s) {entries : Map Bytes Stored} {introduced : Map NodeId (List Nat)}
    {held : Stored} {ds : Finset NodeId} {clock : Nat} {appeared : List (NodeId × Nat)}
    (hsub : ∀ k st, entries.get? k = some st → s.store.entries.get? k = some st)
    (hroom : (entries.set hash held).size ≤ MAX_STORED_SERVICES) (hverify : held.descriptor.verify c hash = .ok ())
    (hnoted : ∀ node, held.origin = .pushed node → Noted held.deliveredBy ds node) :
    StoreInv c ⟨⟨entries.set hash held, introduced⟩, clock, Function.update s.deliverers hash ds, appeared⟩ := by
  refine ⟨⟨hroom, fun k st hk => ?_⟩, fun k st node hk horigin => ?_⟩
  · obtain ⟨rfl, rfl⟩ | ⟨-, hk⟩ := Map.get?_set_some.1 hk
    · exact hverify
    · exact h.kept.verified k st (hsub k st hk)
  · obtain ⟨rfl, rfl⟩ | ⟨hne, hk⟩ := Map.get?_set_some.1 hk
    · dsimp only
      rw [Function.update_self]
      exact hnoted node horigin
    · dsimp only
      rw [Function.update_of_ne hne]
      exact h.noted k st node (hsub k st hk) horigin

private theorem storeInv_refused (h : StoreInv c s) {introduced : Map NodeId (List Nat)} {ds : Finset NodeId}
    {clock : Nat} {appeared : List (NodeId × Nat)}
    (hds : ∀ held, s.store.entries.get? hash = some held → ds = s.deliverers hash) :
    StoreInv c ⟨⟨s.store.entries, introduced⟩, clock, Function.update s.deliverers hash ds, appeared⟩ := by
  refine ⟨⟨h.kept.room, h.kept.verified⟩, fun k st node hk horigin => ?_⟩
  dsimp only at hk ⊢
  by_cases heq : k = hash
  · subst heq
    rw [Function.update_self, hds st hk]
    exact h.noted k st node hk horigin
  · rw [Function.update_of_ne heq]
    exact h.noted k st node hk horigin

private theorem delivering_of_error {e : Refused} (he : e ≠ .notNewer) {held : Stored}
    (hheld : s.store.entries.get? hash = some held) : s.delivering hash d origin (.error e) = s.deliverers hash := by
  have hcontains : s.store.entries.contains hash = true := by simp [Map.contains, hheld]
  unfold Storing.delivering
  rw [if_pos hcontains]
  cases origin <;> cases e <;> first | rfl | exact absurd rfl he

private theorem storeInv_put (h : StoreInv c s) (hok : s.NotesDelivery c (.put it hash d origin now)) :
    StoreInv c (s.step c (.put it hash d origin now)) := by
  unfold Storing.step
  dsimp only
  rcases put_cases c it s.store hash d origin now with ⟨-, e, he, hput⟩ | ⟨hcur, hput⟩
  · rw [hput]
    exact storeInv_refused h fun held hheld => delivering_of_error he hheld
  · rcases hput with ⟨held, hheld, -, hlt, hput⟩ | ⟨held, hheld, -, heq, hput⟩ | ⟨held, hheld, hnew, hput⟩ |
      ⟨hfree, -, e, -, hput⟩ | ⟨hfree, -, entries, hroom, hput⟩ <;> rw [hput]
    · refine storeInv_refused h fun held' hheld' => ?_
      have hcontains : s.store.entries.contains hash = true := by simp [Map.contains, hheld]
      unfold Storing.delivering
      rw [if_pos hcontains, hheld]
      cases origin with
      | pushed node => simp [hlt.ne']
      | own => rfl
      | fetched => rfl
    · have hcontains : s.store.entries.contains hash = true := by simp [Map.contains, hheld]
      refine storeInv_set h (fun _ _ hk => hk) ((Map.size_set_of_get? hheld _).trans h.kept.room)
        (h.kept.verified hash held hheld) fun first hfirst => ?_
      have hnoted := h.noted hash held first hheld hfirst
      unfold Storing.delivering
      rw [if_pos hcontains, hheld]
      cases origin with
      | pushed node =>
        simp only [Option.any_some, heq, decide_true, if_true]
        exact hnoted.again node
      | own => exact hnoted
      | fetched => exact hnoted
    · have hcontains : s.store.entries.contains hash = true := by simp [Map.contains, hheld]
      refine storeInv_set h (fun _ _ hk => hk) ((Map.size_set_of_get? hheld _).trans h.kept.room) hcur.signed
        fun first hfirst => ?_
      dsimp only at hfirst ⊢
      rw [hfirst]
      unfold Storing.delivering
      rw [if_pos hcontains]
      -- only a push of what was pushed leaves a pushed entry
      cases hheldOrigin : held.origin with
      | own => simp [hheldOrigin, mergeOrigin] at hfirst
      | fetched => cases origin <;> simp [hheldOrigin, mergeOrigin] at hfirst
      | pushed first' =>
        cases origin with
        | own => simp [hheldOrigin, mergeOrigin] at hfirst
        | fetched => simp [hheldOrigin, mergeOrigin] at hfirst
        | pushed node =>
          have hsame : first' = first := by simpa [hheldOrigin, mergeOrigin] using hfirst
          subst hsame
          refine (h.noted hash held first' hheld hheldOrigin).update ?_
          exact hok held hheld (by simp [hheldOrigin]) (by simp [hheldOrigin]) hcur hnew
    · refine storeInv_refused h fun held hheld => ?_
      rw [hfree] at hheld
      cases hheld
    · have hcontains : s.store.entries.contains hash = false := by simp [Map.contains, hfree]
      refine storeInv_set h (fun k st hk => ?_) ?_ hcur.signed fun first hfirst => ?_
      · rcases hroom with ⟨rfl, -⟩ | ⟨-, hroom⟩
        · exact hk
        · exact get?_of_evictOne hroom hk
      · have hset := Map.size_set_le entries hash ⟨d, origin, noteDelivery [] origin⟩
        rcases hroom with ⟨rfl, hlt⟩ | ⟨-, hroom⟩
        · omega
        · have hlt := size_evictOne hroom
          have hle := h.kept.room
          omega
      · dsimp only at hfirst ⊢
        subst hfirst
        unfold Storing.delivering
        rw [hcontains]
        exact noted_new first

private theorem storeInv_step (s : Storing) (e : StoreStep) (h : StoreInv c s)
    (hok : s.Allowed e ∧ s.NotesDelivery c e) : StoreInv c (s.step c e) := by
  cases e with
  | put it hash d origin now => exact storeInv_put h hok.2
  | forgetOwn hash =>
    have hsub : ∀ k st, (s.store.forgetOwn hash).entries.get? k = some st → s.store.entries.get? k = some st := by
      intro k st hk
      unfold ServiceStore.forgetOwn at hk
      split at hk
      · exact (Map.get?_remove_some.1 hk).2
      · exact hk
    refine ⟨⟨?_, fun k st hk => h.kept.verified k st (hsub k st hk)⟩, fun k st node hk => h.noted k st node (hsub k st hk)⟩
    have hle : (s.store.forgetOwn hash).entries.size ≤ s.store.entries.size := by
      unfold ServiceStore.forgetOwn
      split
      · exact List.length_filter_le ..
      · exact le_refl _
    exact hle.trans h.kept.room
  | get hash now => exact ⟨⟨h.kept.room, h.kept.verified⟩, h.noted⟩

private theorem put_live (c : DescriptorCrypto) (it : Iteration) (s : ServiceStore) (key : Bytes)
    (d : ServiceDescriptor) (origin : Origin) {hash : Bytes} {held : Stored}
    (hget : s.entries.get? hash = some held) (hlive : expired held.descriptor now = false) :
    (∃ held', (s.put c it key d origin now).1.entries.get? hash = some held' ∧
      held'.descriptor = held.descriptor ∧ held'.origin = held.origin) ∨
    (s.put c it key d origin now).2 = .ok () ∧
      ((hash = key ∧ held.descriptor.revision < d.revision ∧ ∃ l, (s.put c it key d origin now).1.entries.get? hash =
          some ⟨d, mergeOrigin held.origin origin, l⟩) ∨
        (hash ≠ key ∧ (s.put c it key d origin now).1.entries.get? hash = none ∧ (held.origin = .fetched ∨
          ∃ heaviest, sole held = some heaviest ∧ origin ≠ .pushed heaviest ∧
            ∀ node, soleEntries s.entries node ≤ soleEntries s.entries heaviest))) := by
  rcases put_cases c it s key d origin now with ⟨-, e, -, hput⟩ | ⟨hcur, hput⟩
  · rw [hput]
    exact Or.inl ⟨held, hget, rfl, rfl⟩
  · rcases hput with ⟨held', -, -, -, hput⟩ | ⟨held', hheld, -, -, hput⟩ | ⟨held', hheld, hnew, hput⟩ |
      ⟨-, -, e, -, hput⟩ | ⟨hfree, -, entries, hroom, hput⟩ <;> rw [hput] <;> dsimp only
    · exact Or.inl ⟨held, hget, rfl, rfl⟩
    · left
      rw [Map.get?_set]
      split
      · rename_i heq
        rw [heq, hheld] at hget
        cases hget
        exact ⟨_, rfl, rfl, rfl⟩
      · exact ⟨held, hget, rfl, rfl⟩
    · rw [Map.get?_set]
      split
      · rename_i heq
        rw [heq, hheld] at hget
        cases hget
        rw [hlive] at hnew
        exact Or.inr ⟨rfl, Or.inl ⟨heq, hnew.resolve_left (by simp), _, rfl⟩⟩
      · exact Or.inl ⟨held, hget, rfl, rfl⟩
    · exact Or.inl ⟨held, hget, rfl, rfl⟩
    · have hne : hash ≠ key := by
        rintro rfl
        rw [hfree] at hget
        cases hget
      rw [Map.get?_set_other _ _ hne]
      rcases hroom with ⟨rfl, -⟩ | ⟨-, hroom⟩
      · exact Or.inl ⟨held, hget, rfl, rfl⟩
      · rcases get?_evictOne hroom hget hlive with hkept | hgone
        · exact Or.inl ⟨held, hkept, rfl, rfl⟩
        · cases hafter : entries.get? hash with
          | none => exact Or.inr ⟨rfl, Or.inr ⟨hne, rfl, hgone⟩⟩
          | some held' =>
            have hbefore := get?_of_evictOne hroom hafter
            rw [hget] at hbefore
            cases hbefore
            exact Or.inl ⟨held, rfl, rfl, rfl⟩

private theorem forgetOwn_live {s : ServiceStore} (key : Bytes) {held : Stored} (hget : s.entries.get? hash = some held) :
    (s.forgetOwn key).entries.get? hash = some held ∨
      hash = key ∧ held.origin = .own ∧ (s.forgetOwn key).entries.get? hash = none := by
  unfold ServiceStore.forgetOwn
  split
  · rename_i hown
    dsimp only
    rw [Map.get?_remove]
    split
    · rename_i heq
      rw [← heq, hget] at hown
      exact Or.inr ⟨heq, by simpa using hown, rfl⟩
    · exact Or.inl hget
  · exact Or.inl hget

private theorem soleCount_eq (h : StoreInv c s) (node : NodeId) :
    s.soleCount node = soleEntries s.store.entries node := by
  unfold Storing.soleCount soleEntries
  apply List.countP_congr
  rintro ⟨k, st⟩ hmem
  rw [decide_eq_true_eq, decide_eq_true_eq]
  have hget := Map.mem_entries.1 hmem
  unfold sole
  cases horigin : st.origin with
  | own => simp
  | fetched => simp
  | pushed first =>
    have hiff := (h.noted k st first hget horigin).card_le_one_iff
    simp only [Origin.pushed.injEq, hiff]
    split
    · rename_i hone
      simp [hone]
    · rename_i hmore
      simp [hmore]

private theorem protects_put (h : StoreInv c s) (it : Iteration) (key : Bytes) (d : ServiceDescriptor)
    (origin : Origin) (now : Nat) : s.Protects c (.put it key d origin now) where
  revision := by
    rintro hash held held' ⟨hget, hlive⟩ hafter
    rcases put_live c it s.store key d origin hget hlive with ⟨held'', hafter', hd, -⟩ |
      ⟨-, ⟨-, hlt, l, hafter'⟩ | ⟨-, hafter', -⟩⟩ <;> have heq := hafter.symm.trans hafter'
    · cases heq
      exact hd.symm ▸ le_refl _
    · cases heq
      exact hlt.le
    · cases heq
  refused := by
    intro it' key' d' origin' now' err heq hresult hash held hlive
    cases heq
    rcases put_live c it s.store key d origin hlive.1 hlive.2 with hkept | ⟨hok, -⟩
    · exact hkept
    · rw [show (s.store.put c it key d origin now).2 = .ok () from hok] at hresult
      cases hresult
  own := by
    rintro hash held ⟨hget, hlive⟩ hown -
    rcases put_live c it s.store key d origin hget hlive with ⟨held', hafter, -, horigin⟩ |
      ⟨-, ⟨-, -, l, hafter⟩ | ⟨-, -, hgone⟩⟩
    · exact ⟨held', hafter, horigin.trans hown⟩
    · exact ⟨_, hafter, by rw [hown]; rfl⟩
    · rcases hgone with hfetched | ⟨heaviest, hsole, -⟩
      · rw [hown] at hfetched
        cases hfetched
      · unfold sole at hsole
        rw [hown] at hsole
        cases hsole
  shared := by
    rintro hash held node ⟨hget, hlive⟩ hpushed htwo
    rcases put_live c it s.store key d origin hget hlive with ⟨held', hafter, -, -⟩ |
      ⟨-, ⟨-, -, l, hafter⟩ | ⟨-, -, hgone⟩⟩
    · exact ⟨held', hafter⟩
    · exact ⟨_, hafter⟩
    · rcases hgone with hfetched | ⟨heaviest, hsole, -⟩
      · rw [hpushed] at hfetched
        cases hfetched
      · -- two delivered it, so two are noted
        unfold sole at hsole
        rw [hpushed] at hsole
        dsimp only at hsole
        split at hsole
        · rename_i hone
          have hcard := (h.noted hash held node hget hpushed).card_le_one_iff.2 hone
          omega
        · cases hsole
  heaviest := by
    rintro it' key' d' node now' heq hmost hash held first ⟨hget, hlive⟩ hpushed
    cases heq
    rcases put_live c it s.store key d (.pushed node) hget hlive with ⟨held', hafter, -, -⟩ |
      ⟨-, ⟨-, -, l, hafter⟩ | ⟨-, -, hgone⟩⟩
    · exact ⟨held', hafter⟩
    · exact ⟨_, hafter⟩
    · rcases hgone with hfetched | ⟨heaviest, -, hother, hmax⟩
      · rw [hpushed] at hfetched
        cases hfetched
      · have hne : heaviest ≠ node := fun heq => hother (by rw [heq])
        have hlt := hmost heaviest hne
        have hle := hmax node
        rw [soleCount_eq h, soleCount_eq h] at hlt
        omega

private theorem protects (h : StoreInv c s) (e : StoreStep) : s.Protects c e := by
  cases e with
  | put it key d origin now => exact protects_put h it key d origin now
  | forgetOwn key =>
    constructor
    · rintro hash held held' ⟨hget, -⟩ hafter
      rcases forgetOwn_live key hget with hkept | ⟨-, -, hgone⟩
      · cases hafter.symm.trans hkept
        exact le_refl _
      · cases hafter.symm.trans hgone
    · intro it key' d origin now err heq
      cases heq
    · rintro hash held ⟨hget, -⟩ hown hne
      rcases forgetOwn_live key hget with hkept | ⟨rfl, -, -⟩
      · exact ⟨held, hkept, hown⟩
      · exact absurd rfl hne
    · rintro hash held node ⟨hget, -⟩ hpushed -
      rcases forgetOwn_live key hget with hkept | ⟨-, hown, -⟩
      · exact ⟨held, hkept⟩
      · rw [hpushed] at hown
        cases hown
    · intro it key' d node now heq
      cases heq
  | get key now =>
    constructor
    · rintro hash held held' ⟨hget, -⟩ hafter
      cases hget.symm.trans hafter
      exact le_refl _
    · intro it key' d origin now err heq
      cases heq
    · rintro hash held ⟨hget, -⟩ hown -
      exact ⟨held, hget, hown⟩
    · rintro hash held node ⟨hget, -⟩ - -
      exact ⟨held, hget⟩
    · intro it key' d node now heq
      cases heq

/-- Over every run in which no push updates a pushed service unless its node is noted as having delivered it or two
are: no more entries than fit are held, each verified for its address, and every further call protects the entries that
have not expired. -/
theorem store_run (c : DescriptorCrypto) (clock : Nat) (es : List StoreStep)
    (h : Along (Storing.step c) (fun s e => s.Allowed e ∧ s.NotesDelivery c e) (Storing.start clock) es) :
    let s := run (Storing.step c) (Storing.start clock) es
    s.Kept c ∧ ∀ e, s.Protects c e := by
  intro s
  have hinv : StoreInv c s := run_invariant (P := StoreInv c) storeInv_step h (storeInv_start clock)
  exact ⟨hinv.kept, protects hinv⟩

end StoreRun

/-! ### A service two nodes delivered, lost as one pusher's -/

section Lost

def trustingAll : DescriptorCrypto := ⟨id, fun _ => true, fun _ _ _ => true⟩

def asHeld : Iteration := ⟨id, id, fun _ => List.Perm.refl _, fun _ => List.Perm.refl _⟩

def keyAt (i : Nat) : Bytes := UInt8.ofNat (i / 256) :: UInt8.ofNat i :: List.replicate 30 0

def hashAt (i : Nat) : Bytes := (keyAt i).take 20

def descriptorAt (i revision : Nat) : ServiceDescriptor :=
  ⟨keyAt i, ["198.51.100.7:9001"], revision, List.replicate 64 0⟩

def nodeAt (b : UInt8) : NodeId := List.replicate 20 b

theorem hashAt_inj {i j : Nat} (hi : i < 65536) (hj : j < 65536) (h : hashAt i = hashAt j) : i = j := by
  unfold hashAt keyAt at h
  obtain ⟨hhigh, htail⟩ := List.cons.inj h
  obtain ⟨hlow, -⟩ := List.cons.inj htail
  have hhigh' := congrArg UInt8.toNat hhigh
  have hlow' := congrArg UInt8.toNat hlow
  simp only [UInt8.toNat_ofNat'] at hhigh' hlow'
  omega

private theorem current_descriptorAt (i : Nat) {revision : Nat} (h : revision = 1000 ∨ revision = 1001) :
    Current trustingAll (hashAt i) (descriptorAt i revision) 2000 := by
  refine ⟨?_, ?_, ?_⟩
  · have hhash : (descriptorAt i revision).serviceHash trustingAll = hashAt i := rfl
    have hlen : (descriptorAt i revision).signature.length = 64 := rfl
    unfold ServiceDescriptor.verify
    rw [hhash, hlen]
    simp [descriptorAt, trustingAll, MAX_INTRO_POINTS]
  · rcases h with rfl | rfl <;> simp [descriptorAt, satAdd64, MAX_CLOCK_SKEW_SECS]
  · rcases h with rfl | rfl <;> simp [descriptorAt, expired, satAdd64, DESCRIPTOR_TTL_SECS]

private def deliveredTwice : Stored := ⟨descriptorAt 0 1001, .pushed (nodeAt 1), [nodeAt 1]⟩

private def twoPushes : List StoreStep :=
  [.put asHeld (hashAt 0) (descriptorAt 0 1000) (.pushed (nodeAt 1)) 2000,
    .put asHeld (hashAt 0) (descriptorAt 0 1001) (.pushed (nodeAt 2)) 2000]

private def pushedTwice : Storing := run (Storing.step trustingAll) (Storing.start 2000) twoPushes

private def ownPuts (n : Nat) : List StoreStep :=
  (List.range n).map fun i => .put asHeld (hashAt (i + 1)) (descriptorAt (i + 1) 1000) .own 2000

/-- `n` services of the node's own are held beside the one delivered twice. -/
private structure Filled (n : Nat) (s : Storing) : Prop where
  clock : s.clock = 2000
  size : s.store.entries.size = n + 1
  first : s.store.entries.get? (hashAt 0) = some deliveredTwice
  others : ∀ k st, s.store.entries.get? k = some st → (∃ i ≤ n, k = hashAt i) ∧
    expired st.descriptor 2000 = false ∧ (k = hashAt 0 ∧ st = deliveredTwice ∨ st.origin = .own)
  two : (s.deliverers (hashAt 0)).card = 2
  quiet : s.store.introduced.get? (nodeAt 3) = none

private theorem along_puts {s : Storing} {it : Iteration} {h h' : Bytes} {d d' : ServiceDescriptor} {o o' : Origin}
    {now : Nat} (hs : s.clock ≤ now) :
    Along (Storing.step trustingAll) Storing.Allowed s [.put it h d o now, .put it h' d' o' now] :=
  ⟨hs, le_refl now, trivial⟩

private theorem filled_zero : Filled 0 pushedTwice := by
  refine ⟨by decide, by decide, by decide, fun k st h => ?_, by decide, by decide⟩
  have hentries : pushedTwice.store.entries.entries = [(hashAt 0, deliveredTwice)] := by decide
  rw [← Map.mem_entries, hentries, List.mem_singleton, Prod.mk.injEq] at h
  obtain ⟨rfl, rfl⟩ := h
  exact ⟨⟨0, le_refl _, rfl⟩, by decide, Or.inl ⟨rfl, rfl⟩⟩

private theorem Filled.free {n j : Nat} {s : Storing} (h : Filled n s) (hj : j < 65536) (hnj : n < j) :
    s.store.entries.get? (hashAt j) = none := by
  rw [Option.eq_none_iff_forall_ne_some]
  intro st hst
  obtain ⟨⟨i, hi, heq⟩, -⟩ := h.others _ st hst
  have := hashAt_inj hj (by omega) heq
  omega

private theorem filled_step {n : Nat} {s : Storing} (h : Filled n s) (hn : n < 4095) :
    Filled (n + 1) (s.step trustingAll
      (.put asHeld (hashAt (n + 1)) (descriptorAt (n + 1) 1000) .own 2000)) := by
  have hfree := h.free (j := n + 1) (by omega) (by omega)
  have hne : hashAt 0 ≠ hashAt (n + 1) := fun heq => by
    have := hashAt_inj (by omega) (by omega) heq
    omega
  have hcur := current_descriptorAt (n + 1) (Or.inl rfl)
  have hroom : s.store.entries.size < MAX_STORED_SERVICES := by
    rw [h.size]
    unfold MAX_STORED_SERVICES
    omega
  have hput : s.store.put trustingAll asHeld (hashAt (n + 1)) (descriptorAt (n + 1) 1000) .own 2000 =
      (⟨s.store.entries.set (hashAt (n + 1)) ⟨descriptorAt (n + 1) 1000, .own, []⟩, s.store.introduced⟩, .ok ()) := by
    rcases put_cases trustingAll asHeld s.store (hashAt (n + 1)) (descriptorAt (n + 1) 1000) .own 2000 with
      ⟨hnot, -⟩ | ⟨-, ⟨held, hheld, -⟩ | ⟨held, hheld, -⟩ | ⟨held, hheld, -⟩ | ⟨-, hwhy, -⟩ |
        ⟨-, -, entries, hentries, hput⟩⟩
    · exact absurd hcur hnot
    · rw [hfree] at hheld
      cases hheld
    · rw [hfree] at hheld
      cases hheld
    · rw [hfree] at hheld
      cases hheld
    · rcases hwhy with hquota | ⟨hfull, -⟩
      · cases hquota
      · omega
    · rcases hentries with ⟨rfl, -⟩ | ⟨hfull, -⟩
      · exact hput
      · omega
  unfold Storing.step
  dsimp only
  rw [hput]
  refine ⟨rfl, ?_, ?_, fun k st hk => ?_, ?_, h.quiet⟩
  · dsimp only
    rw [Map.size_set_new hfree, h.size]
  · dsimp only
    rw [Map.get?_set_other _ _ hne]
    exact h.first
  · obtain ⟨heq, rfl⟩ | ⟨-, hk⟩ := Map.get?_set_some.1 hk
    · exact ⟨⟨n + 1, le_refl _, heq⟩, hcur.live, Or.inr rfl⟩
    · obtain ⟨⟨i, hi, heq⟩, hrest⟩ := h.others k st hk
      exact ⟨⟨i, by omega, heq⟩, hrest⟩
  · dsimp only
    rw [Function.update_of_ne hne]
    exact h.two

private theorem filled_run {n : Nat} (hn : n ≤ 4095) :
    Filled n (run (Storing.step trustingAll) (Storing.start 2000) (twoPushes ++ ownPuts n)) ∧
      Along (Storing.step trustingAll) Storing.Allowed (Storing.start 2000) (twoPushes ++ ownPuts n) := by
  induction n with
  | zero => exact ⟨filled_zero, along_puts (le_refl _)⟩
  | succ n ih =>
    obtain ⟨hfilled, halong⟩ := ih (by omega)
    have hputs : twoPushes ++ ownPuts (n + 1) = (twoPushes ++ ownPuts n) ++
        [.put asHeld (hashAt (n + 1)) (descriptorAt (n + 1) 1000) .own 2000] := by
      unfold ownPuts
      rw [List.range_succ, List.map_append, List.append_assoc]
      rfl
    rw [hputs, run_append, along_append]
    refine ⟨filled_step hfilled (by omega), halong, ?_, trivial⟩
    unfold Storing.Allowed
    exact hfilled.clock.le

private theorem evicted {s : Storing} (h : Filled 4095 s) :
    (s.step trustingAll (.put asHeld (hashAt 4096) (descriptorAt 4096 1000) (.pushed (nodeAt 3)) 2000)
      ).store.entries.get? (hashAt 0) = none := by
  have hfree := h.free (j := 4096) (by omega) (by omega)
  have hne : hashAt 0 ≠ hashAt 4096 := fun heq => by
    have := hashAt_inj (by omega) (by omega) heq
    omega
  -- of the pushers, only the first has an entry
  have hsole : ∀ k st node, s.store.entries.get? k = some st → sole st = some node →
      k = hashAt 0 ∧ node = nodeAt 1 := by
    intro k st node hk hnode
    obtain ⟨-, -, ⟨rfl, rfl⟩ | hown⟩ := h.others k st hk
    · exact ⟨rfl, (Option.some.inj hnode).symm⟩
    · unfold sole at hnode
      rw [hown] at hnode
      cases hnode
  have hlight : soleEntries s.store.entries (nodeAt 3) = 0 := by
    unfold soleEntries
    rw [List.countP_eq_zero]
    rintro ⟨k, st⟩ hmem hnode
    obtain ⟨-, heq⟩ := hsole k st _ (Map.mem_entries.1 hmem) (by simpa using hnode)
    exact absurd heq (by decide)
  have hheavy : soleEntries s.store.entries (nodeAt 1) ≠ 0 := by
    unfold soleEntries
    rw [← Nat.pos_iff_ne_zero, List.countP_pos_iff]
    exact ⟨(hashAt 0, deliveredTwice), Map.mem_entries.2 h.first, by decide⟩
  have hevict : ∀ entries', evictOne asHeld s.store.entries 2000 (.pushed (nodeAt 3)) = (entries', true) →
      entries'.get? (hashAt 0) = none := by
    intro entries' heq
    rcases evictOne_cases asHeld s.store.entries 2000 (.pushed (nodeAt 3)) with ⟨-, hlt⟩ |
      ⟨k, st, hk, hremove, hwhy⟩ | ⟨hfalse, -⟩
    · -- nothing has expired
      exfalso
      have hall : (s.store.entries.entries.filter fun e => !expired e.2.descriptor 2000) = s.store.entries.entries := by
        rw [List.filter_eq_self]
        rintro ⟨k, st⟩ hmem
        simp [(h.others k st (Map.mem_entries.1 hmem)).2.1]
      unfold Map.size Map.retain at hlt
      dsimp only at hlt
      rw [hall] at hlt
      exact lt_irrefl _ hlt
    · cases hremove.symm.trans heq
      have hzero : k = hashAt 0 := by
        rcases hwhy with hfetched | ⟨heaviest, hnode, -⟩
        · obtain ⟨-, -, ⟨rfl, rfl⟩ | hown⟩ := h.others k st hk
          · rfl
          · rw [hown] at hfetched
            cases hfetched
        · exact (hsole k st heaviest hk hnode).1
      rw [hzero, Map.get?_remove, if_pos rfl]
    · cases hfalse.symm.trans heq
  unfold Storing.step
  dsimp only
  rcases put_cases trustingAll asHeld s.store (hashAt 4096) (descriptorAt 4096 1000) (.pushed (nodeAt 3)) 2000 with
    ⟨hnot, -⟩ | ⟨-, ⟨held, hheld, -⟩ | ⟨held, hheld, -⟩ | ⟨held, hheld, -⟩ | ⟨-, hwhy, -⟩ |
      ⟨-, -, entries, hentries, hput⟩⟩
  · exact absurd (current_descriptorAt 4096 (Or.inl rfl)) hnot
  · rw [hfree] at hheld
    cases hheld
  · rw [hfree] at hheld
    cases hheld
  · rw [hfree] at hheld
    cases hheld
  · exfalso
    rcases hwhy with hquota | ⟨-, hfalse⟩
    · unfold ServiceStore.overQuota ServiceStore.slideIntroduced at hquota
      dsimp only at hquota
      rw [Map.get?_set_self, h.quiet] at hquota
      revert hquota
      decide
    · rcases evictOne_cases asHeld s.store.entries 2000 (.pushed (nodeAt 3)) with ⟨heq, -⟩ | ⟨k, st, -, heq, -⟩ |
        ⟨-, hnone | ⟨heaviest, hsame, hpos⟩⟩
      · cases (Prod.mk.inj (hfalse.symm.trans heq)).2
      · cases (Prod.mk.inj (hfalse.symm.trans heq)).2
      · exact hheavy (hnone _)
      · cases hsame
        exact hpos hlight
  · rw [hput]
    dsimp only
    rw [Map.get?_set_other _ _ hne]
    rcases hentries with ⟨-, hlt⟩ | ⟨-, heq⟩
    · rw [h.size] at hlt
      exact absurd hlt (by decide)
    · exact hevict entries heq

private theorem lost {s : Storing} {es : List StoreStep} (hs : run (Storing.step trustingAll) (Storing.start 2000) es = s)
    (h : Filled 4095 s) (halong : Along (Storing.step trustingAll) Storing.Allowed (Storing.start 2000) es) :
    ∃ (c : DescriptorCrypto) (clock : Nat) (es : List StoreStep) (e : StoreStep),
      Along (Storing.step c) Storing.Allowed (Storing.start clock) (es ++ [e]) ∧
        ¬ (run (Storing.step c) (Storing.start clock) es).Protects c e := by
  refine ⟨trustingAll, 2000, es, .put asHeld (hashAt 4096) (descriptorAt 4096 1000) (.pushed (nodeAt 3)) 2000, ?_, ?_⟩
  · rw [along_append, hs]
    exact ⟨halong, h.clock.le, trivial⟩
  · rw [hs]
    intro hprotects
    have hlive : expired deliveredTwice.descriptor 2000 = false := by decide
    obtain ⟨held', hheld'⟩ := hprotects.shared (hashAt 0) deliveredTwice (nodeAt 1) ⟨h.first, hlive⟩ rfl h.two.ge
    rw [evicted h] at hheld'
    cases hheld'

/-- A service pushed and updated by one node, pushed again by another, and updated by it then. -/
theorem store_updated :
    let s := run (Storing.step trustingAll) (Storing.start 2000)
      [.put asHeld (hashAt 0) (descriptorAt 0 1000) (.pushed (nodeAt 1)) 2000,
        .put asHeld (hashAt 0) (descriptorAt 0 1001) (.pushed (nodeAt 1)) 2000,
        .put asHeld (hashAt 0) (descriptorAt 0 1001) (.pushed (nodeAt 2)) 2000,
        .put asHeld (hashAt 0) (descriptorAt 0 1002) (.pushed (nodeAt 2)) 2000, .forgetOwn (hashAt 0),
        .get (hashAt 0) 2001]
    s.Kept trustingAll ∧ ∀ e, s.Protects trustingAll e :=
  store_run trustingAll 2000 _ (by decide)

/-- A service that one node pushed and another updated is lost as the first one's alone. -/
theorem not_store : ∃ (c : DescriptorCrypto) (clock : Nat) (es : List StoreStep) (e : StoreStep),
    Along (Storing.step c) Storing.Allowed (Storing.start clock) (es ++ [e]) ∧
      ¬ (run (Storing.step c) (Storing.start clock) es).Protects c e := by
  obtain ⟨hfilled, halong⟩ := filled_run (le_refl 4095)
  exact lost rfl hfilled halong

end Lost

end HidraNet.Dht
