import HidraNet.Lib.Maps
import HidraNet.Node.LeaseTable
import HidraNet.Node.MainLoop

/-!
# The reaper

What a tick of the main loop's clock does to the leases: the handshakes and the traffic the tunnel reports are written
down, then the idle leases go (`Leases.reaped`).  A key is active when it received more bytes than the last tick saw
(`mem_activeKeys`).
-/

namespace HidraNet.Node

open Maps Text

structure PeerStats where
  lastHandshake : Option Nat
  rxBytes : Nat
deriving DecidableEq

def look (looked : List String × Map String Nat) (e : String × PeerStats) : List String × Map String Nat :=
  (if e.2.rxBytes > (looked.2.get? e.1).getD 0 then looked.1 ++ [e.1] else looked.1, looked.2.set e.1 e.2.rxBytes)

def activeKeys (stats : Map String PeerStats) (rxSeen : Map String Nat) : List String × Map String Nat :=
  let (active, rxSeen) := stats.entries.foldl look ([], rxSeen)
  (active, rxSeen.retain fun k _ => stats.contains k)

/-- The leases after a tick, those that are gone, and whether to save. -/
def Leases.reaped (ls : Leases) (now : Nat) (stats : Map String PeerStats) (active : List String) (w : IdleWindows) :
    Leases × List Lease × Bool :=
  let ages := stats.entries.map fun e => (e.1, e.2.lastHandshake)
  let (ls, shook) := ls.noteHandshakes now ages
  let (ls, sent) := ls.noteTraffic now active
  let (ls, gone) := ls.expireIdle now w
  (ls, gone, shook || sent || !gone.isEmpty)

/-- The reaper's update of the leases file: the leases, the counts of the next tick and the leases dropped. -/
def Leases.reapUpdate (ls : Leases) (rxSeen : Map String Nat) (now : Nat) (stats : Map String PeerStats)
    (w : IdleWindows) (read save : Option String) : Leases × Map String Nat × Except String (List Lease) :=
  let (active, rxSeen) := activeKeys stats rxSeen
  let (ls, _, gone) := ls.update read save () fun ls _ =>
    let (ls, gone, save) := ls.reaped now stats active w
    (ls, (), gone, save)
  (ls, rxSeen, gone)

def SpentPasses.reaped (s : SpentPasses) (now : Nat) (save : Option String) : SpentPasses :=
  let pruned := s.prune now
  if pruned.tags.length < s.tags.length || pruned.needsCompacting then (pruned.save save).1 else pruned

theorem Leases.update_cases {α : Type} (ls : Leases) (read save : Option String)
    (f : Leases → Unit → Leases × Unit × α × Bool) :
    (∃ e, ls.update read save () f = (ls, (), .error e)) ∨
      ls.update read save () f = (if (f ls ()).2.2.2 then (f ls ()).1 else ls, (), .ok (f ls ()).2.2.1) := by
  unfold Leases.update
  cases read with
  | some e => exact Or.inl ⟨e, rfl⟩
  | none =>
    dsimp only
    rcases f ls () with ⟨ls', u, out, _ | _⟩
    · exact Or.inr rfl
    · cases save with
      | some e => exact Or.inl ⟨e, rfl⟩
      | none => exact Or.inr rfl

theorem Leases.reapUpdate_cases (ls : Leases) (rxSeen : Map String Nat) (now : Nat) (stats : Map String PeerStats)
    (w : IdleWindows) (read save : Option String) {ls' : Leases} {gone : List Lease} {saved : Bool}
    (h : ls.reaped now stats (activeKeys stats rxSeen).1 w = (ls', gone, saved)) :
    (∃ e, ls.reapUpdate rxSeen now stats w read save = (ls, (activeKeys stats rxSeen).2, .error e)) ∨
      ls.reapUpdate rxSeen now stats w read save =
        (if saved then ls' else ls, (activeKeys stats rxSeen).2, .ok gone) := by
  unfold Leases.reapUpdate
  dsimp only
  generalize hf : (fun (ls : Leases) (_ : Unit) => _) = f
  have hfr : f ls () = (ls', (), gone, saved) := by
    rw [← hf]
    dsimp only
    rw [h]
  rcases ls.update_cases read save f with ⟨e, hu⟩ | hu <;> rw [hu]
  · exact Or.inl ⟨e, rfl⟩
  · rw [hfr]
    exact Or.inr rfl

theorem Leases.reapUpdate_ok (ls : Leases) (rxSeen : Map String Nat) (now : Nat) (stats : Map String PeerStats)
    (w : IdleWindows) {ls' : Leases} {gone : List Lease} {saved : Bool}
    (h : ls.reaped now stats (activeKeys stats rxSeen).1 w = (ls', gone, saved)) :
    (ls.reapUpdate rxSeen now stats w none none).1 = if saved then ls' else ls := by
  unfold Leases.reapUpdate Leases.update
  dsimp only
  rw [h]
  cases saved <;> rfl

/-! ### The keys that sent something -/

variable {stats : Map String PeerStats} {rxSeen : Map String Nat} {k : String}

private theorem looked_eq (es : List (String × PeerStats)) (hes : (es.map Prod.fst).Nodup) (active : List String)
    (seen : Map String Nat) :
    (es.foldl look (active, seen)).1 = active ++ (es.filter fun e => e.2.rxBytes > (seen.get? e.1).getD 0).map Prod.fst := by
  induction es generalizing active seen with
  | nil => simp
  | cons e es ih =>
    rw [List.map_cons, List.nodup_cons] at hes
    have hsame : es.filter (fun e' => e'.2.rxBytes > ((seen.set e.1 e.2.rxBytes).get? e'.1).getD 0) =
        es.filter fun e' => e'.2.rxBytes > (seen.get? e'.1).getD 0 := by
      apply List.filter_congr
      intro e' he'
      have hne : e'.1 ≠ e.1 := fun h => hes.1 (h ▸ List.mem_map_of_mem he')
      rw [Map.get?_set_other seen _ hne]
    rw [List.foldl_cons, look, ih hes.2, hsame, List.filter_cons]
    split
    · rename_i h
      simp [h]
    · rename_i h
      simp [h]

theorem mem_activeKeys : k ∈ (activeKeys stats rxSeen).1 ↔
    ∃ st, stats.get? k = some st ∧ st.rxBytes > (rxSeen.get? k).getD 0 := by
  unfold activeKeys
  dsimp only
  rw [looked_eq stats.entries stats.nodup, List.nil_append, List.mem_map]
  constructor
  · rintro ⟨e, he, rfl⟩
    rw [List.mem_filter, decide_eq_true_iff] at he
    exact ⟨e.2, Map.mem_entries.1 he.1, he.2⟩
  · rintro ⟨st, hst, hrx⟩
    exact ⟨(k, st), List.mem_filter.2 ⟨Map.mem_entries.2 hst, by simpa using hrx⟩, rfl⟩

end HidraNet.Node
