import HidraNet.Onion.Links

/-!
# What comes out of a pipe

A step of a circuit seals in one direction only, and leaves the other as it is (`SealsForward`, `SealsBack`).  So both
directions are kept, of one circuit (`Kept`), and of all of them at once, each under its own keys (`put_all`); and so are
the links where nothing is interfered with (`Linked`).
-/

namespace HidraNet.Onion

open HidraNet.Core (Bytes)
open Aead
open HidraNet.Lists
open Net
open Runs

/-! ### One circuit -/

section One

variable {expand : Bytes → Bytes → Bytes} {encrypt : Bytes → Bytes → Bytes → Bytes} {addr : Nat → HopAddr}
  {ks : Nat → Bytes} {log log' : List SealedCell} {e : Ends} {r : Ends × List SealedCell} {i : Nat}

variable (expand ks) in
def Own (cells : List SealedCell) : Prop :=
  ∀ cell ∈ cells, ∃ i, ∃ label ∈ [FORWARD_LABEL, BACKWARD_LABEL], cell.key = expand (ks i) label

theorem own_nil : Own expand ks [] := fun cell hcell => by simp at hcell

theorem label_ne : BACKWARD_LABEL ≠ FORWARD_LABEL := by decide +kernel

variable (expand ks) in
/-- What a step of the client's does that seals for the hops only. -/
structure SealsForward (log : List SealedCell) (e : Ends) (r : Ends × List SealedCell) : Prop where
  fields : ∃ hops sent out, r.1 = { e with hops, sent, out }
  hop : ∀ (i : Nat) (hop' : CircuitHop), r.1.hops[i]? = some hop' →
    ∃ hop : CircuitHop, e.hops[i]? = some hop ∧ hop'.layer.backward = hop.layer.backward
  length : r.1.hops.length = e.hops.length
  cells : ∀ i, backwardCells expand ks (log ++ r.2) i = backwardCells expand ks log i
  own : Own expand ks r.2

variable (expand ks) in
/-- What a step of a hop's does that seals towards the client only. -/
structure SealsBack (log : List SealedCell) (e : Ends) (r : Ends × List SealedCell) : Prop where
  fields : ∃ relays back answered relayed, r.1 = { e with relays, back, answered, relayed }
  relay : ∀ i, (r.1.relays i).forward = (e.relays i).forward
  cells : ∀ i, forwardCells expand ks (log ++ r.2) i = forwardCells expand ks log i
  own : Own expand ks r.2

theorem sealsForward_send (hks : DistinctKeys expand ks) (hf : Forward expand addr ks log e)
    (encrypt : Bytes → Bytes → Bytes → Bytes) (kind : CellKind) (command : Bytes) :
    SealsForward expand ks log e (e.send encrypt kind command) := by
  rcases hf.send_cases encrypt kind command with
    ⟨hops, hsend, halike, -⟩ | ⟨body, cells, -, -, -, -, hlen, hsend, hcells⟩
  · rw [hsend]
    refine ⟨⟨hops, e.sent, e.out, rfl⟩, fun i hop' hget => ?_, halike.length_eq.symm, fun i => ?_, own_nil⟩
    · obtain ⟨hop, hget', -, -, hbackward⟩ := getElem?_of_alike halike hget
      exact ⟨hop, hget', hbackward⟩
    · rw [List.append_nil]
  · rw [hsend]
    have hkey : ∀ cell ∈ cells, ∃ i, cell.key = expand (ks i) FORWARD_LABEL := by
      intro cell hcell
      obtain ⟨j, hj⟩ := List.mem_iff_getElem?.1 hcell
      have hlt : j < e.hops.length := hlen ▸ (List.getElem?_eq_some_iff.1 hj).1
      refine ⟨j, ?_⟩
      rw [(hcells j _ cell (List.getElem?_eq_getElem hlt) hj).1]
      exact (hf.hop j _ (List.getElem?_eq_getElem hlt)).2
    refine ⟨⟨_, _, _, rfl⟩, fun i hop' hget => ?_, by simp [Ends.sentOne], fun i => ?_, fun cell hcell => ?_⟩
    · rw [Ends.sentOne, List.getElem?_map] at hget
      obtain ⟨hop, hget', rfl⟩ := Option.map_eq_some_iff.1 hget
      exact ⟨hop, hget', rfl⟩
    · have hnil : under cells (expand (ks i) BACKWARD_LABEL) = [] := by
        refine under_eq_nil fun cell hcell heq => ?_
        obtain ⟨j, hj⟩ := hkey cell hcell
        exact label_ne (hks j i FORWARD_LABEL (by simp) BACKWARD_LABEL (by simp) (hj.symm.trans heq)).2.symm
      rw [backwardCells, under_append, hnil, List.append_nil, backwardCells]
    · obtain ⟨j, hj⟩ := hkey cell hcell
      exact ⟨j, FORWARD_LABEL, by simp, hj⟩

theorem sealsBack_sealAt (hks : DistinctKeys expand ks) {cell : SealedCell} {layer : LayerCipher}
    {back answered : Nat → List Bytes} {relayed : Nat → Nat} (hkey : cell.key = expand (ks i) BACKWARD_LABEL)
    (hlayer : layer.forward = (e.relays i).forward) :
    SealsBack expand ks log e ({ e.setRelay i layer with back, answered, relayed }, [cell]) := by
  refine ⟨⟨_, _, _, _, rfl⟩, fun j => ?_, fun j => ?_, fun cell' hcell => ?_⟩
  · by_cases hj : j = i
    · subst hj
      simp [Ends.setRelay, hlayer]
    · simp [Ends.setRelay, hj]
  · have hnil : under [cell] (expand (ks j) FORWARD_LABEL) = [] := by
      refine under_eq_nil fun cell' hcell heq => ?_
      obtain rfl := List.mem_singleton.1 hcell
      exact label_ne (hks i j BACKWARD_LABEL (by simp) FORWARD_LABEL (by simp) (hkey.symm.trans heq)).2
    rw [forwardCells, under_append, hnil, List.append_nil, forwardCells]
  · obtain rfl := List.mem_singleton.1 hcell
    exact ⟨i, BACKWARD_LABEL, by simp, hkey⟩

theorem sealsBack_same (relayed : Nat → Nat) : SealsBack expand ks log e ({ e with relayed }, []) :=
  ⟨⟨_, _, _, _, rfl⟩, fun _ => rfl, fun i => by rw [List.append_nil], own_nil⟩

theorem sealsBack_answer (hks : DistinctKeys expand ks) (hb : Backward expand ks log e)
    (encrypt : Bytes → Bytes → Bytes → Bytes) (command : Bytes) :
    SealsBack expand ks log e (e.answer encrypt command) := by
  unfold Ends.answer
  split
  · rename_i i body _ _
    rcases hb.sealAt_cases encrypt i body with ⟨hseal, -⟩ | ⟨cell, layer, -, hseal, hkey, -, -, hforward, -⟩
    · rw [hseal]
      exact sealsBack_same e.relayed
    · rw [hseal]
      exact sealsBack_sealAt hks hkey hforward
  · exact sealsBack_same e.relayed

theorem sealsBack_relayBack (hks : DistinctKeys expand ks) (hb : Backward expand ks log e)
    (encrypt : Bytes → Bytes → Bytes → Bytes) (i : Nat) (data : Bytes) :
    SealsBack expand ks log e (e.relayBack encrypt i data) := by
  have hb' : Backward expand ks log { e with relayed := Function.update e.relayed i (e.relayed i + 1) } :=
    hb.congr (fun _ hop hget => ⟨hop, hget, rfl⟩) rfl (fun _ => rfl) rfl rfl rfl fun _ => rfl
  unfold Ends.relayBack
  split
  · rcases hb'.sealAt_cases encrypt i data with ⟨hseal, -⟩ | ⟨cell, layer, -, hseal, hkey, -, -, hforward, -⟩
    · simp only [hseal]
      exact sealsBack_same _
    · simp only [hseal]
      exact sealsBack_sealAt hks hkey hforward
  · exact sealsBack_same e.relayed

theorem peel_fields (log : List SealedCell) (e : Ends) (data : Bytes) :
    ∃ hops received peeled, (e.peel log data).2 = { e with hops, received, peeled } ∧ hops.length = e.hops.length ∧
      ∀ (i : Nat) (hop' : CircuitHop), hops[i]? = some hop' →
        ∃ hop : CircuitHop, e.hops[i]? = some hop ∧ hop'.addr = hop.addr ∧ hop'.layer.forward = hop.layer.forward := by
  by_cases hne : e.hops = []
  · unfold Ends.peel
    rw [if_pos hne]
    exact ⟨e.hops, e.received, e.peeled, rfl, rfl, fun _ hop hget => ⟨hop, hget, rfl, rfl⟩⟩
  · have hhops : ∀ (i : Nat) (hop' : CircuitHop), (peelLayers log e.hops data).2[i]? = some hop' →
        ∃ hop : CircuitHop, e.hops[i]? = some hop ∧ hop'.addr = hop.addr ∧ hop'.layer.forward = hop.layer.forward := by
      intro i hop' hget
      have hlength : (peelLayers log e.hops data).2.length = e.hops.length := length_peelLayers e.hops data
      have hlt : i < e.hops.length := hlength ▸ (List.getElem?_eq_some_iff.1 hget).1
      have hopened := peelLayers_hop log data (List.getElem?_eq_getElem hlt)
      rw [hget] at hopened
      refine ⟨_, List.getElem?_eq_getElem hlt, ?_⟩
      rcases hopened with hsame | ⟨hmoved, -⟩
      · rw [Option.some.inj hsame]
        exact ⟨rfl, rfl⟩
      · rw [Option.some.inj hmoved]
        exact ⟨rfl, rfl⟩
    unfold Ends.peel peelResponseLayers peelCommand
    rw [if_neg hne]
    dsimp only
    split
    · exact ⟨_, _, e.peeled, rfl, length_peelLayers _ _, hhops⟩
    · exact ⟨_, _, _, rfl, length_peelLayers _ _, hhops⟩

/-! ### Both directions -/

variable (expand addr ks) in
structure Kept (log : List SealedCell) (e : Ends) : Prop where
  forward : Forward expand addr ks log e
  backward : Backward expand ks log e

variable (expand ks) in
structure Linked (log : List SealedCell) (e : Ends) : Prop where
  out : OutLinks expand ks log e
  back : BackLinks expand ks log e

theorem Kept.congr (h : Kept expand addr ks log e)
    (hforward : ∀ i, forwardCells expand ks log' i = forwardCells expand ks log i)
    (hbackward : ∀ i, backwardCells expand ks log' i = backwardCells expand ks log i) : Kept expand addr ks log' e :=
  ⟨h.forward.congr (fun _ hop hget => ⟨hop, hget, rfl, rfl⟩) rfl (fun _ => rfl) id rfl rfl rfl hforward,
    h.backward.congr (fun _ hop hget => ⟨hop, hget, rfl⟩) rfl (fun _ => rfl) rfl rfl rfl hbackward⟩

theorem Linked.congr (h : Linked expand ks log e)
    (hforward : ∀ i, forwardCells expand ks log' i = forwardCells expand ks log i)
    (hbackward : ∀ i, backwardCells expand ks log' i = backwardCells expand ks log i) : Linked expand ks log' e :=
  ⟨h.out.congr rfl rfl (fun _ => rfl) rfl hforward,
    h.back.congr (fun _ hop hget => ⟨hop, hget, rfl⟩) rfl rfl rfl hbackward⟩

theorem kept_start (addr : Nat → HopAddr) (ks : Nat → Bytes) : Kept expand addr ks [] (.start expand ks) :=
  ⟨forward_start addr ks, backward_start ks⟩

theorem linked_start (ks : Nat → Bytes) : Linked expand ks [] (.start expand ks) :=
  ⟨outLinks_start ks, backLinks_start ks⟩

theorem Kept.extend (h : Kept expand addr ks log e) (hbuilt : e.built = false) :
    Kept expand addr ks log (e.extend expand (addr e.hops.length) (ks e.hops.length)) :=
  ⟨h.forward.extend hbuilt, h.backward.extend _⟩

theorem Linked.extend (hk : Kept expand addr ks log e) (h : Linked expand ks log e) (hsettled : e.settled = true)
    (a : HopAddr) : Linked expand ks log (e.extend expand a (ks e.hops.length)) :=
  ⟨h.out.congr rfl rfl (fun _ => rfl) rfl fun _ => rfl, h.back.extend hk.backward hsettled a⟩

theorem Kept.finish (h : Kept expand addr ks log e) : Kept expand addr ks log { e with built := true } :=
  ⟨h.forward.congr (fun _ hop hget => ⟨hop, hget, rfl, rfl⟩) rfl (fun _ => rfl) (fun _ => rfl) rfl rfl rfl fun _ => rfl,
    h.backward.congr (fun _ hop hget => ⟨hop, hget, rfl⟩) rfl (fun _ => rfl) rfl rfl rfl fun _ => rfl⟩

theorem Linked.finish (h : Linked expand ks log e) : Linked expand ks log { e with built := true } :=
  ⟨h.out.congr rfl rfl (fun _ => rfl) rfl fun _ => rfl,
    h.back.congr (fun _ hop hget => ⟨hop, hget, rfl⟩) rfl rfl rfl fun _ => rfl⟩

theorem Kept.send (hks : DistinctKeys expand ks) (h : Kept expand addr ks log e) (kind : CellKind) (command : Bytes) :
    Kept expand addr ks (log ++ (e.send encrypt kind command).2) (e.send encrypt kind command).1 := by
  refine ⟨h.forward.send hks kind command, ?_⟩
  obtain ⟨⟨hops, sent, out, he⟩, hhop, hlength, hcells, -⟩ := sealsForward_send hks h.forward encrypt kind command
  refine h.backward.congr hhop hlength (fun _ => ?_) ?_ ?_ ?_ hcells
  all_goals rw [he]

theorem Kept.sealsBack (h : Kept expand addr ks log e) (hr : SealsBack expand ks log e r)
    (hb : Backward expand ks (log ++ r.2) r.1) : Kept expand addr ks (log ++ r.2) r.1 := by
  obtain ⟨⟨relays, back, answered, relayed, he⟩, hrelay, hcells, -⟩ := hr
  refine ⟨h.forward.congr (fun _ hop hget => ⟨hop, ?_, rfl, rfl⟩) ?_ hrelay (fun hbuilt => ?_) ?_ ?_ ?_ hcells, hb⟩
  · rw [he] at hget
    exact hget
  · rw [he]
  · rw [he]
    exact hbuilt
  all_goals rw [he]

theorem Linked.sealsBack (h : Linked expand ks log e) (hr : SealsBack expand ks log e r)
    (hb : BackLinks expand ks (log ++ r.2) r.1) : Linked expand ks (log ++ r.2) r.1 := by
  obtain ⟨⟨relays, back, answered, relayed, he⟩, hrelay, hcells, -⟩ := hr
  refine ⟨h.out.congr ?_ ?_ hrelay ?_ hcells, hb⟩
  all_goals rw [he]

theorem Linked.send (hks : DistinctKeys expand ks) (hk : Kept expand addr ks log e) (h : Linked expand ks log e)
    (kind : CellKind) (command : Bytes) :
    Linked expand ks (log ++ (e.send encrypt kind command).2) (e.send encrypt kind command).1 := by
  refine ⟨?_, ?_⟩
  · rcases hk.forward.send_cases encrypt kind command with
      ⟨hops, hsend, -, -⟩ | ⟨body, cells, -, hne, -, -, hlen, hsend, hcells⟩
    · rw [hsend]
      exact h.out.congr rfl rfl (fun _ => rfl) rfl fun _ => by rw [List.append_nil]
    · rw [hsend]
      exact h.out.sendOne hks hk.forward hne hlen fun i hop cell hget hi => (hcells i hop cell hget hi).1
  · obtain ⟨⟨hops, sent, out, he⟩, hhop, hlength, hcells, -⟩ := sealsForward_send hks hk.forward encrypt kind command
    refine h.back.congr hhop hlength ?_ ?_ hcells
    all_goals rw [he]

theorem Kept.given (h : Kept expand addr ks log e) (taken : Nat → Nat) :
    Kept expand addr ks log { e with taken } :=
  ⟨h.forward.congr (fun _ hop hget => ⟨hop, hget, rfl, rfl⟩) rfl (fun _ => rfl) id rfl rfl rfl fun _ => rfl,
    h.backward.congr (fun _ hop hget => ⟨hop, hget, rfl⟩) rfl (fun _ => rfl) rfl rfl rfl fun _ => rfl⟩

theorem Backward.openedOne (h : Backward expand ks log e) (x : Sent) (inner : Bytes) :
    Backward expand ks log (e.openedOne addr i x inner) := by
  refine h.congr (fun _ hop hget => ⟨hop, hget, rfl⟩) rfl (fun j => ?_) rfl rfl rfl fun _ => rfl
  rw [relays_openedOne]
  split
  · rename_i hj
    rw [hj]
    rfl
  · rfl

theorem Kept.deliver (h : Kept expand addr ks log e) {kind : CellKind} {data : Bytes}
    (hkind : e.asSealed log i kind data = true) :
    Kept expand addr ks log (e.deliver log i kind data).2 ∧
      ∀ m, (e.deliver log i kind data).1 = .error m → (e.deliver log i kind data).2.relays = e.relays := by
  unfold Ends.deliver
  split
  · rename_i hi
    have h' := h.given (Function.update e.taken i (e.taken i + 1))
    rcases h'.forward.handle_cases hi hkind with ⟨-, m, hm⟩ | ⟨x, cell, inner, hx, -, -, -, hok⟩
    · rw [hm]
      exact ⟨h', fun _ _ => rfl⟩
    · rw [hok]
      exact ⟨⟨h'.forward.openedOne hx inner, h'.backward.openedOne x inner⟩, fun m hm => by simp at hm⟩
  · exact ⟨h, fun _ _ => rfl⟩

theorem Linked.deliver (hk : Kept expand addr ks log e) (h : Linked expand ks log e) {kind : CellKind} {data : Bytes}
    (hnext : i < e.hops.length → (e.out i)[e.taken i]? = some (kind, data)) :
    (e.deliver log i kind data).1 = .ok () ∧ Linked expand ks log (e.deliver log i kind data).2 := by
  by_cases hi : i < e.hops.length
  · obtain ⟨hok, hout⟩ := h.out.deliver hk.forward hi (hnext hi)
    refine ⟨hok, hout, ?_⟩
    have hk' := hk.given (Function.update e.taken i (e.taken i + 1))
    unfold Ends.deliver
    rw [if_pos hi]
    rcases hk'.forward.handle_cases hi (h.out.asSealed hk.forward (hnext hi)) with
      ⟨-, m, hm⟩ | ⟨x, cell, inner, -, -, -, -, hok⟩
    · rw [hm]
      exact h.back.congr (fun _ hop hget => ⟨hop, hget, rfl⟩) rfl rfl rfl fun _ => rfl
    · rw [hok]
      exact h.back.congr (fun _ hop hget => ⟨hop, hget, rfl⟩) rfl rfl rfl fun _ => rfl
  · unfold Ends.deliver
    rw [if_neg hi]
    exact ⟨rfl, h⟩

theorem Kept.peel (h : Kept expand addr ks log e) (data : Bytes) : Kept expand addr ks log (e.peel log data).2 := by
  refine ⟨?_, h.backward.peel data⟩
  obtain ⟨hops, received, peeled, he, hlength, hhops⟩ := peel_fields log e data
  rw [he]
  exact h.forward.congr hhops hlength (fun _ => rfl) id rfl rfl rfl fun _ => rfl

theorem Kept.peel_refused (h : Kept expand addr ks log e) {data : Bytes} {m : String}
    (hm : (e.peel log data).1 = .error m) :
    ∃ i hop d, e.hops[i]? = some hop ∧ hop.layer.nextBackward log d = none ∧
      (e.peel log data).2.hops.drop i = e.hops.drop i := by
  by_cases hne : e.hops = []
  · simp [Ends.peel, hne] at hm
  · obtain ⟨hops, heq, ⟨m', hrefused, hpeel, -⟩ | ⟨command, hop, -, -, -, -, hpeel⟩⟩ := h.backward.peel_cases hne data
    · rw [hpeel, heq]
      exact peelLayers_refused hrefused
    · simp [hpeel] at hm

theorem Linked.peel (hk : Kept expand addr ks log e) (h : Linked expand ks log e) {data : Bytes}
    (hnext : e.hops ≠ [] → (e.back 0)[e.received]? = some data) :
    (e.peel log data).1 = .ok () ∧ Linked expand ks log (e.peel log data).2 := by
  obtain ⟨hok, hback⟩ := h.back.peel hk.backward hnext
  obtain ⟨hops, received, peeled, he, -, -⟩ := peel_fields log e data
  refine ⟨hok, ?_, hback⟩
  rw [he]
  exact h.out.congr rfl rfl (fun _ => rfl) rfl fun _ => rfl

/-! ### What comes out -/

variable (addr) in
/-- A hop reads the next hop's address where there is one, and unpads what was sent to it; the client peels what was
answered. -/
structure Piped (e : Ends) : Prop where
  headers : ∀ i, e.headers i <+: ((e.sentTo i).filter (·.kind = .control)).map (carriedNext addr i)
  unpadded : ∀ i, e.unpadded i <+: (e.sent.filter (·.hops = i + 1)).map (·.command)
  peeled : ∀ i, e.peeled i <+: e.answered i

theorem Kept.piped (h : Kept expand addr ks log e) : Piped addr e := by
  refine ⟨fun i => ?_, fun i => ?_, h.backward.peeled⟩
  · rw [h.forward.headers]
    exact ((List.take_prefix _ _).filter _).map _
  · have hlast : e.sent.filter (·.hops = i + 1) = (e.sentTo i).filter (·.hops = i + 1) := by
      unfold Ends.sentTo
      rw [List.filter_filter]
      apply List.filter_congr
      intro x _
      by_cases hx : x.hops = i + 1
      · simp [hx]
      · simp [hx]
    rw [h.forward.unpadded, hlast]
    exact ((List.take_prefix _ _).filter _).map _

end One

/-! ### Any number of circuits -/

namespace Pipes

variable {expand : Bytes → Bytes → Bytes} {encrypt : Bytes → Bytes → Bytes → Bytes} {addr : Nat → Nat → HopAddr}
  {session : Nat → Nat → Bytes} {s : Pipes} {e : PipeEvent}

def AsSealed (s : Pipes) : PipeEvent → Prop
  | .delivers c i kind data => (s.circuits c).asSealed s.log i kind data = true
  | _ => True

instance decidableAsSealed : ∀ s e, Decidable (AsSealed s e)
  | _, .delivers .. => inferInstanceAs (Decidable (_ = true))
  | _, .joins _ | _, .finishes _ | _, .sends .. | _, .answers .. | _, .relays .. | _, .peels .. => isTrue trivial

/-- A hop joins when every answer has come back, and who is given something is given what is next on the link. -/
def Undisturbed (s : Pipes) : PipeEvent → Prop
  | .joins c => (s.circuits c).settled = true
  | .delivers c i kind data =>
    i < (s.circuits c).hops.length → ((s.circuits c).out i)[(s.circuits c).taken i]? = some (kind, data)
  | .relays c i data =>
    i + 1 < (s.circuits c).hops.length → ((s.circuits c).back (i + 1))[(s.circuits c).relayed i]? = some data
  | .peels c data => (s.circuits c).hops ≠ [] → ((s.circuits c).back 0)[(s.circuits c).received]? = some data
  | _ => True

instance decidableUndisturbed : ∀ s e, Decidable (Undisturbed s e)
  | _, .joins _ => inferInstanceAs (Decidable (_ = true))
  | _, .delivers .. | _, .relays .. => inferInstanceAs (Decidable (_ < _ → _ = _))
  | _, .peels .. => inferInstanceAs (Decidable (_ ≠ _ → _ = _))
  | _, .finishes _ | _, .sends .. | _, .answers .. => isTrue trivial

/-- Who refuses a cell has the counts of before. -/
def RefusalKeeps (s : Pipes) : PipeEvent → Prop
  | .delivers c i kind data => ∀ m, ((s.circuits c).deliver s.log i kind data).1 = .error m →
    ((s.circuits c).deliver s.log i kind data).2.relays = (s.circuits c).relays
  | .peels c data => ∀ m, ((s.circuits c).peel s.log data).1 = .error m →
    ∃ i hop d, (s.circuits c).hops[i]? = some hop ∧ hop.layer.nextBackward s.log d = none ∧
      ((s.circuits c).peel s.log data).2.hops.drop i = (s.circuits c).hops.drop i
  | _ => True

def Opens (s : Pipes) : PipeEvent → Prop
  | .delivers c i kind data => ((s.circuits c).deliver s.log i kind data).1 = .ok ()
  | .peels c data => ((s.circuits c).peel s.log data).1 = .ok ()
  | _ => True

/-! #### Other circuits -/

theorem distinctKeys_circuit (hkeys : DistinctKeys expand fun p : Nat × Nat => session p.1 p.2) (c : Nat) :
    DistinctKeys expand (session c) := by
  intro i j label hlabel label' hlabel' heq
  obtain ⟨hp, hl⟩ := hkeys (c, i) (c, j) label hlabel label' hlabel' heq
  exact ⟨(Prod.mk.inj hp).2, hl⟩

theorem under_other (hkeys : DistinctKeys expand fun p : Nat × Nat => session p.1 p.2) {c c' : Nat} (hne : c' ≠ c)
    {cells : List SealedCell} (hown : Own expand (session c) cells) (log : List SealedCell) {label : Bytes}
    (hlabel : label ∈ [FORWARD_LABEL, BACKWARD_LABEL]) (j : Nat) :
    under (log ++ cells) (expand (session c' j) label) = under log (expand (session c' j) label) := by
  have hnil : under cells (expand (session c' j) label) = [] := by
    refine under_eq_nil fun cell hcell heq => hne ?_
    obtain ⟨i, label', hlabel', hkey⟩ := hown cell hcell
    have hp := (hkeys (c', j) (c, i) label hlabel label' hlabel' (heq.symm.trans hkey)).1
    exact (Prod.mk.inj hp).1
  rw [under_append, hnil, List.append_nil]

/-- What holds of a circuit as long as nothing is sealed under its keys, holds of all when one takes a step. -/
theorem put_all {P : Nat → List SealedCell → Ends → Prop}
    (hcongr : ∀ c log log' e, P c log e →
      (∀ i, forwardCells expand (session c) log' i = forwardCells expand (session c) log i) →
      (∀ i, backwardCells expand (session c) log' i = backwardCells expand (session c) log i) → P c log' e)
    (hkeys : DistinctKeys expand fun p : Nat × Nat => session p.1 p.2) (h : ∀ c, P c s.log (s.circuits c)) {c : Nat}
    {r : Ends × List SealedCell} (hown : Own expand (session c) r.2) (hc : P c (s.log ++ r.2) r.1) (c' : Nat) :
    P c' (s.put c r).log ((s.put c r).circuits c') := by
  show P c' (s.log ++ r.2) (Function.update s.circuits c r.1 c')
  by_cases hne : c' = c
  · subst hne
    rw [Function.update_self]
    exact hc
  · rw [Function.update_of_ne hne]
    exact hcongr c' _ _ _ (h c') (under_other hkeys hne hown _ (by simp)) (under_other hkeys hne hown _ (by simp))

variable (expand addr session) in
def AllKept (s : Pipes) : Prop := ∀ c, Kept expand (addr c) (session c) s.log (s.circuits c)

variable (expand session) in
def AllLinked (s : Pipes) : Prop := ∀ c, Linked expand (session c) s.log (s.circuits c)

theorem AllKept.put (h : AllKept expand addr session s)
    (hkeys : DistinctKeys expand fun p : Nat × Nat => session p.1 p.2) {c : Nat} {r : Ends × List SealedCell}
    (hown : Own expand (session c) r.2) (hc : Kept expand (addr c) (session c) (s.log ++ r.2) r.1) :
    AllKept expand addr session (s.put c r) := by
  have hall := put_all (P := fun c log e => Kept expand (addr c) (session c) log e)
    (fun _ _ _ _ hk hf hb => hk.congr hf hb) hkeys h hown hc
  exact hall

theorem AllLinked.put (h : AllLinked expand session s)
    (hkeys : DistinctKeys expand fun p : Nat × Nat => session p.1 p.2) {c : Nat} {r : Ends × List SealedCell}
    (hown : Own expand (session c) r.2) (hc : Linked expand (session c) (s.log ++ r.2) r.1) :
    AllLinked expand session (s.put c r) := by
  have hall := put_all (P := fun c log e => Linked expand (session c) log e)
    (fun _ _ _ _ hl hf hb => hl.congr hf hb) hkeys h hown hc
  exact hall

theorem AllKept.put_nil (h : AllKept expand addr session s)
    (hkeys : DistinctKeys expand fun p : Nat × Nat => session p.1 p.2) {c : Nat} {e : Ends}
    (hc : Kept expand (addr c) (session c) s.log e) : AllKept expand addr session (s.put c (e, [])) := by
  refine h.put hkeys own_nil ?_
  rw [List.append_nil]
  exact hc

theorem AllLinked.put_nil (h : AllLinked expand session s)
    (hkeys : DistinctKeys expand fun p : Nat × Nat => session p.1 p.2) {c : Nat} {e : Ends}
    (hc : Linked expand (session c) s.log e) : AllLinked expand session (s.put c (e, [])) := by
  refine h.put hkeys own_nil ?_
  rw [List.append_nil]
  exact hc

/-! #### Steps -/

theorem kept_step (hkeys : DistinctKeys expand fun p : Nat × Nat => session p.1 p.2)
    (h : AllKept expand addr session s) (hok : AsSealed s e) :
    AllKept expand addr session (step expand encrypt addr session s e) := by
  have hks := distinctKeys_circuit hkeys
  cases e with
  | joins c =>
    simp only [step]
    split
    · exact h
    · rename_i hbuilt
      exact h.put_nil hkeys ((h c).extend (by simpa using hbuilt))
  | finishes c => exact h.put_nil hkeys (h c).finish
  | sends c kind command =>
    exact h.put hkeys (sealsForward_send (hks c) (h c).forward encrypt kind command).own ((h c).send (hks c) kind command)
  | delivers c i kind data => exact h.put_nil hkeys ((h c).deliver hok).1
  | answers c command =>
    have hseals := sealsBack_answer (hks c) (h c).backward encrypt command
    exact h.put hkeys hseals.own ((h c).sealsBack hseals ((h c).backward.answer (hks c) command))
  | relays c i data =>
    have hseals := sealsBack_relayBack (hks c) (h c).backward encrypt i data
    exact h.put hkeys hseals.own ((h c).sealsBack hseals ((h c).backward.relayBack (hks c) i data))
  | peels c data => exact h.put_nil hkeys ((h c).peel data)

theorem Undisturbed.asSealed (hk : AllKept expand addr session s) (hl : AllLinked expand session s)
    (h : Undisturbed s e) : AsSealed s e := by
  cases e with
  | delivers c i kind data =>
    by_cases hi : i < (s.circuits c).hops.length
    · exact (hl c).out.asSealed (hk c).forward (h hi)
    · have hnil := (hk c).forward.sentTo_eq_nil (Nat.le_of_not_lt hi)
      show (s.circuits c).asSealed s.log i kind data = true
      simp [Ends.asSealed, hnil]
  | joins | finishes | sends | answers | relays | peels => trivial

theorem linked_step (hkeys : DistinctKeys expand fun p : Nat × Nat => session p.1 p.2)
    (hk : AllKept expand addr session s) (h : AllLinked expand session s) (hok : Undisturbed s e) :
    AllLinked expand session (step expand encrypt addr session s e) := by
  have hks := distinctKeys_circuit hkeys
  cases e with
  | joins c =>
    simp only [step]
    split
    · exact h
    · exact h.put_nil hkeys ((h c).extend (hk c) hok _)
  | finishes c => exact h.put_nil hkeys (h c).finish
  | sends c kind command =>
    exact h.put hkeys (sealsForward_send (hks c) (hk c).forward encrypt kind command).own
      ((h c).send (hks c) (hk c) kind command)
  | delivers c i kind data => exact h.put_nil hkeys ((h c).deliver (hk c) hok).2
  | answers c command =>
    have hseals := sealsBack_answer (hks c) (hk c).backward encrypt command
    exact h.put hkeys hseals.own ((h c).sealsBack hseals ((h c).back.answer (hks c) (hk c).backward command))
  | relays c i data =>
    have hseals := sealsBack_relayBack (hks c) (hk c).backward encrypt i data
    exact h.put hkeys hseals.own ((h c).sealsBack hseals ((h c).back.relayBack (hks c) (hk c).backward i data hok))
  | peels c data => exact h.put_nil hkeys ((h c).peel (hk c) hok).2

theorem AllKept.refusalKeeps (h : AllKept expand addr session s) (hok : AsSealed s e) : RefusalKeeps s e := by
  cases e with
  | delivers c i kind data => exact ((h c).deliver hok).2
  | peels c data => exact fun m hm => (h c).peel_refused hm
  | joins | finishes | sends | answers | relays => trivial

theorem AllLinked.opens (hk : AllKept expand addr session s) (h : AllLinked expand session s) (hok : Undisturbed s e) :
    Opens s e := by
  cases e with
  | delivers c i kind data => exact ((h c).deliver (hk c) hok).1
  | peels c data => exact ((h c).peel (hk c) hok).1
  | joins | finishes | sends | answers | relays => trivial

/-! #### Runs -/

/-- A circuit is a pipe in both directions, whatever the links do; and where they do nothing, everything opens. -/
theorem piped_run (hkeys : DistinctKeys expand fun p : Nat × Nat => session p.1 p.2) (es : List PipeEvent) :
    (Along (step expand encrypt addr session) AsSealed (start expand session) es →
        (∀ c, Piped (addr c) ((run (step expand encrypt addr session) (start expand session) es).circuits c)) ∧
          Along (step expand encrypt addr session) RefusalKeeps (start expand session) es) ∧
      (Along (step expand encrypt addr session) Undisturbed (start expand session) es →
        Along (step expand encrypt addr session) AsSealed (start expand session) es ∧
          Along (step expand encrypt addr session) Opens (start expand session) es) := by
  have hstart : AllKept expand addr session (start expand session) := fun c => kept_start (addr c) (session c)
  have hstart' : AllLinked expand session (start expand session) := fun c => linked_start (session c)
  have hkept : ∀ s e, AllKept expand addr session s → AsSealed s e →
      AllKept expand addr session (step expand encrypt addr session s e) := fun s e h hok => kept_step hkeys h hok
  have hboth : ∀ s e, AllKept expand addr session s ∧ AllLinked expand session s → Undisturbed s e →
      AllKept expand addr session (step expand encrypt addr session s e) ∧
        AllLinked expand session (step expand encrypt addr session s e) := fun s e h hok =>
    ⟨kept_step hkeys h.1 (hok.asSealed h.1 h.2), linked_step hkeys h.1 h.2 hok⟩
  refine ⟨fun h => ⟨fun c => ?_, ?_⟩, fun h => ⟨?_, ?_⟩⟩
  · exact (run_invariant hkept h hstart c).piped
  · exact h.of_invariant hkept (fun s e hk hok => hk.refusalKeeps hok) hstart
  · exact h.of_invariant hboth (fun s e hs hok => hok.asSealed hs.1 hs.2) ⟨hstart, hstart'⟩
  · exact h.of_invariant hboth (fun s e hs hok => hs.2.opens hs.1 hok) ⟨hstart, hstart'⟩

/-! A cipher and keys to run a circuit with. -/

private def labelled (key label : Bytes) : Bytes := label ++ key

private def tagged (_ _ plaintext : Bytes) : Bytes := plaintext ++ List.replicate 16 0

private def keyOf (c i : Nat) : Bytes := List.replicate c 0 ++ 1 :: List.replicate i 0

private def linkLocal (_ _ : Nat) : HopAddr := ⟨.v6 [65152, 0, 0, 0, 0, 0, 0, 1] 7 4000, by decide⟩

private theorem distinctKeys_keyOf : DistinctKeys labelled fun p : Nat × Nat => keyOf p.1 p.2 := by
  refine distinctKeys_append fun p q h => ?_
  have hfst : p.1 = q.1 := by
    have hcount := congrArg (List.takeWhile (· == 0)) h
    simpa [keyOf] using hcount
  have hsnd : p.2 = q.2 := by
    have hlen := congrArg List.length h
    simp [keyOf] at hlen
    omega
  exact Prod.ext hfst hsnd

private def padded (command : Bytes) : Bytes := (padCell command).toOption.getD []

/-- Two hops, a stream's command out and an answer back. -/
theorem piped_twoHops :
    let out := tagged [] [] (padded [7])
    let back := tagged [] [] (padded [9])
    let es := [.joins 0, .joins 0, .finishes 0, .sends 0 .stream [7], .delivers 0 0 .stream (tagged [] [] out),
      .delivers 0 1 .stream out, .answers 0 [9], .relays 0 0 back, .peels 0 (tagged [] [] back)]
    let s := run (step labelled tagged linkLocal keyOf) (start labelled keyOf) es
    Along (step labelled tagged linkLocal keyOf) Opens (start labelled keyOf) es ∧ Piped (linkLocal 0) (s.circuits 0) ∧
      (s.circuits 0).unpadded 1 = [[7]] ∧ (s.circuits 0).peeled 1 = [[9]] := by
  intro out back es s
  have h : Along (step labelled tagged linkLocal keyOf) Undisturbed (start labelled keyOf) es := by decide +kernel
  obtain ⟨hsealed, hopens⟩ : Along (step labelled tagged linkLocal keyOf) AsSealed (start labelled keyOf) es ∧
      Along (step labelled tagged linkLocal keyOf) Opens (start labelled keyOf) es := (piped_run distinctKeys_keyOf es).2 h
  exact ⟨hopens, ((piped_run distinctKeys_keyOf es).1 hsealed).1 0, by decide +kernel, by decide +kernel⟩

/-- A stream's cell given as a control cell is lost, and the hop counts it; and an address is read without its scope. -/
theorem not_piped :
    DistinctKeys labelled (fun p : Nat × Nat => keyOf p.1 p.2) ∧
    (let es := [.joins 0, .finishes 0, .sends 0 .stream [7], .sends 0 .stream [8],
        .delivers 0 0 .control (tagged [] [] (padded [7])), .delivers 0 0 .stream (tagged [] [] (padded [8]))]
      let s := run (step labelled tagged linkLocal keyOf) (start labelled keyOf) es
      (s.circuits 0).unpadded 0 = [[8]] ∧
        ¬ (s.circuits 0).unpadded 0 <+: ((s.circuits 0).sent.filter (·.hops = 1)).map (·.command) ∧
        ¬ Along (step labelled tagged linkLocal keyOf) RefusalKeeps (start labelled keyOf) es) ∧
      (let inner := tagged [] [] (frame ⟨none⟩ (padded [7]))
        let es := [.joins 0, .joins 0, .sends 0 .control [7],
          .delivers 0 0 .control (tagged [] [] (frame ⟨some (linkLocal 0 1).val⟩ inner))]
        let s := run (step labelled tagged linkLocal keyOf) (start labelled keyOf) es
        (s.circuits 0).headers 0 = [some (carried (linkLocal 0 1).val)] ∧
          (s.circuits 0).headers 0 ≠ [some (linkLocal 0 1).val]) := by
  refine ⟨distinctKeys_keyOf, ⟨by decide +kernel, by decide +kernel, fun h => ?_⟩, by decide +kernel, by decide +kernel⟩
  have hsame := h.2.2.2.2.1 "decrypted layer too short for header" (by decide +kernel)
  have hnext := congrArg (fun relays => (relays 0).forward.next) hsame
  revert hnext
  decide +kernel

end Pipes

end HidraNet.Onion
