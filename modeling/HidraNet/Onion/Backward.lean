import HidraNet.Onion.Forward

/-!
# Back to the client

What a hop has sealed towards the client it has sealed one by one, and the client has opened the first of them, as many
as it has counted.  The last hop seals answers only, so that what the client has peeled while it was the last are the
first of its answers (`Backward`).
-/

namespace HidraNet.Onion

open HidraNet.Core (Bytes)
open Aead
open Net

variable {expand : Bytes → Bytes → Bytes} {encrypt : Bytes → Bytes → Bytes → Bytes} {ks : Nat → Bytes}
  {log log' : List SealedCell} {e e' : Ends} {i : Nat}

def backwardCells (expand : Bytes → Bytes → Bytes) (ks : Nat → Bytes) (log : List SealedCell) (i : Nat) :
    List SealedCell := under log (expand (ks i) BACKWARD_LABEL)

variable (expand ks) in
structure Counting (log : List SealedCell) (e : Ends) : Prop where
  hop : ∀ i hop, e.hops[i]? = some hop → hop.layer.backward.key = expand (ks i) BACKWARD_LABEL ∧
    hop.layer.backward.next ≤ (backwardCells expand ks log i).length
  relay : ∀ i, (e.relays i).backward.key = expand (ks i) BACKWARD_LABEL ∧
    (e.relays i).backward.next = (backwardCells expand ks log i).length
  small : ∀ i, (backwardCells expand ks log i).length ≤ U64_MAX
  counted : ∀ i, Counted nonceOf log (expand (ks i) BACKWARD_LABEL)
  back : ∀ i, e.back i = (backwardCells expand ks log i).map (·.ciphertext)

variable (expand ks) in
structure Backward (log : List SealedCell) (e : Ends) : Prop extends Counting expand ks log e where
  answers : ∀ i, i + 1 = e.hops.length →
    List.Forall₂ (fun a cell => padCell a = .ok cell.plaintext) (e.answered i) (backwardCells expand ks log i)
  opened : ∀ i hop, e.hops[i]? = some hop → i + 1 = e.hops.length →
    e.peeled i = (e.answered i).take hop.layer.backward.next
  peeled : ∀ i, e.peeled i <+: e.answered i
  after : ∀ i, e.hops.length ≤ i → backwardCells expand ks log i = [] ∧ e.answered i = [] ∧ e.peeled i = []

theorem Backward.congr (h : Backward expand ks log e)
    (hhops : ∀ (i : Nat) (hop' : CircuitHop), e'.hops[i]? = some hop' →
      ∃ hop : CircuitHop, e.hops[i]? = some hop ∧ hop'.layer.backward = hop.layer.backward)
    (hlength : e'.hops.length = e.hops.length) (hrelays : ∀ i, (e'.relays i).backward = (e.relays i).backward)
    (hanswered : e'.answered = e.answered) (hpeeled : e'.peeled = e.peeled) (hback : e'.back = e.back)
    (hlog : ∀ i, backwardCells expand ks log' i = backwardCells expand ks log i) : Backward expand ks log' e' := by
  refine ⟨⟨fun i hop' hget => ?_, fun i => ?_, fun i => ?_, fun i => ?_, fun i => ?_⟩, fun i hi => ?_,
    fun i hop' hget hi => ?_, ?_, fun i hi => ?_⟩
  · obtain ⟨hop, hget', heq⟩ := hhops i hop' hget
    rw [heq, hlog]
    exact h.hop i hop hget'
  · rw [hrelays, hlog]
    exact h.relay i
  · rw [hlog]
    exact h.small i
  · exact (h.counted i).congr (hlog i)
  · rw [hback, hlog]
    exact h.back i
  · rw [hanswered, hlog]
    exact h.answers i (hlength ▸ hi)
  · obtain ⟨hop, hget', heq⟩ := hhops i hop' hget
    rw [hpeeled, hanswered, heq]
    exact h.opened i hop hget' (hlength ▸ hi)
  · rw [hpeeled, hanswered]
    exact h.peeled
  · rw [hlog, hanswered, hpeeled]
    exact h.after i (hlength ▸ hi)

theorem backward_start (ks : Nat → Bytes) : Backward expand ks [] (.start expand ks) := by
  refine ⟨⟨fun i hop h => ?_, fun i => ⟨rfl, rfl⟩, fun i => Nat.zero_le _, fun i => counted_nil rfl, fun i => rfl⟩,
    fun i h => ?_, fun i hop h => ?_, fun i => List.prefix_rfl, fun i _ => ⟨rfl, rfl, rfl⟩⟩
  · simp [Ends.start] at h
  · simp [Ends.start] at h
  · simp [Ends.start] at h

theorem Backward.extend (h : Backward expand ks log e) (a : HopAddr) :
    Backward expand ks log (e.extend expand a (ks e.hops.length)) := by
  obtain ⟨hcells, hanswered, hpeeled⟩ := h.after e.hops.length (Nat.le_refl _)
  refine ⟨⟨fun i hop hget => ?_, h.relay, h.small, h.counted, h.back⟩, fun i hi => ?_, fun i hop hget hi => ?_,
    h.peeled, fun i hi => ?_⟩
  · rcases getElem?_extend hget with hget | ⟨rfl, rfl⟩
    · exact h.hop i hop hget
    · exact ⟨rfl, Nat.zero_le _⟩
  · rw [length_extend] at hi
    obtain rfl : i = e.hops.length := by omega
    rw [hcells]
    show List.Forall₂ _ (e.answered _) _
    rw [hanswered]
    exact List.Forall₂.nil
  · rw [length_extend] at hi
    obtain rfl : i = e.hops.length := by omega
    show e.peeled _ = (e.answered _).take _
    rw [hpeeled, hanswered, List.take_nil]
  · rw [length_extend] at hi
    exact h.after i (by omega)

/-! ### Sealing -/

theorem Counting.sealAt_cases (h : Counting expand ks log e) (encrypt : Bytes → Bytes → Bytes → Bytes) (i : Nat)
    (p : Bytes) :
    (e.sealAt encrypt i p = none ∧ (backwardCells expand ks log i).length = U64_MAX) ∨
      ∃ cell layer, (backwardCells expand ks log i).length ≠ U64_MAX ∧
        e.sealAt encrypt i p = some ({ e.setRelay i layer with
          back := Function.update e.back i (e.back i ++ [cell.ciphertext]) }, cell) ∧
        cell.key = expand (ks i) BACKWARD_LABEL ∧ cell.nonce = nonceOf (backwardCells expand ks log i).length ∧
        cell.plaintext = p ∧ layer.forward = (e.relays i).forward ∧
        layer.backward = ⟨expand (ks i) BACKWARD_LABEL, (backwardCells expand ks log i).length + 1⟩ := by
  obtain ⟨hkey, hnext⟩ := h.relay i
  unfold Ends.sealAt
  by_cases hlast : (e.relays i).backward.next = U64_MAX
  · rw [LayerCipher.sealBackward_of_eq hlast]
    exact Or.inl ⟨rfl, hnext ▸ hlast⟩
  · rw [LayerCipher.sealBackward_of_ne hlast]
    refine Or.inr ⟨_, _, hnext ▸ hlast, rfl, hkey, ?_, rfl, rfl, ?_⟩
    · rw [← hnext]
      rfl
    · rw [← hkey, ← hnext]

theorem backwardCells_append (hks : DistinctKeys expand ks) (log : List SealedCell) {cell : SealedCell}
    (hkey : cell.key = expand (ks i) BACKWARD_LABEL) (j : Nat) :
    backwardCells expand ks (log ++ [cell]) j =
      backwardCells expand ks log j ++ if j = i then [cell] else [] := by
  unfold backwardCells
  rw [under_append]
  congr 1
  split
  · rename_i hj
    refine under_eq_singleton (i := 0) rfl (hj ▸ hkey) fun k cell' hk _ => ?_
    have hlt := (List.getElem?_eq_some_iff.1 hk).1
    rw [List.length_singleton] at hlt
    omega
  · rename_i hj
    refine under_eq_nil fun cell' hcell heq => hj ?_
    obtain rfl := List.mem_singleton.1 hcell
    exact (hks j i BACKWARD_LABEL (by simp) BACKWARD_LABEL (by simp) (heq.symm.trans hkey)).1

theorem Counting.sealAt (hks : DistinctKeys expand ks) (h : Counting expand ks log e) {cell : SealedCell}
    {layer : LayerCipher} (hroom : (backwardCells expand ks log i).length ≠ U64_MAX)
    (hkey : cell.key = expand (ks i) BACKWARD_LABEL)
    (hnonce : cell.nonce = nonceOf (backwardCells expand ks log i).length)
    (hlayer : layer.backward = ⟨expand (ks i) BACKWARD_LABEL, (backwardCells expand ks log i).length + 1⟩) :
    Counting expand ks (log ++ [cell]) { e.setRelay i layer with
      back := Function.update e.back i (e.back i ++ [cell.ciphertext]) } := by
  have hcells := fun j => backwardCells_append hks log hkey j
  refine ⟨fun j hop hget => ?_, fun j => ?_, fun j => ?_, fun j => ?_, fun j => ?_⟩
  · rw [hcells, List.length_append]
    exact ⟨(h.hop j hop hget).1, (h.hop j hop hget).2.trans (Nat.le_add_right _ _)⟩
  · rw [hcells, List.length_append]
    by_cases hj : j = i
    · subst hj
      simp [Ends.setRelay, hlayer]
    · simpa [Ends.setRelay, hj] using h.relay j
  · have hsmall := h.small j
    rw [hcells, List.length_append]
    by_cases hj : j = i
    · subst hj
      simp only [if_pos, List.length_singleton]
      omega
    · simpa [hj] using hsmall
  · have hj' := hcells j
    unfold backwardCells at hj'
    by_cases hj : j = i
    · subst hj
      rw [if_pos rfl] at hj'
      exact (h.counted j).seal hj' hnonce
    · rw [if_neg hj, List.append_nil] at hj'
      exact (h.counted j).congr hj'
  · rw [hcells, List.map_append, ← h.back j]
    by_cases hj : j = i
    · subst hj
      simp
    · simp [hj]

theorem Backward.answer (hks : DistinctKeys expand ks) (h : Backward expand ks log e) (command : Bytes) :
    Backward expand ks (log ++ (e.answer encrypt command).2) (e.answer encrypt command).1 := by
  have hsame : Backward expand ks (log ++ []) e := by
    rw [List.append_nil]
    exact h
  unfold Ends.answer
  split
  · rename_i i body hlength hpad
    rcases h.sealAt_cases encrypt i body with
      ⟨hseal, -⟩ | ⟨cell, layer, hroom, hseal, hkey, hnonce, hplain, -, hlayer⟩
    · rw [hseal]
      exact hsame
    · rw [hseal]
      have hcounting := h.toCounting.sealAt hks hroom hkey hnonce hlayer
      have hcells := fun j => backwardCells_append hks log hkey j
      have hanswers := h.answers i hlength.symm
      refine ⟨⟨hcounting.hop, hcounting.relay, hcounting.small, hcounting.counted, hcounting.back⟩,
        fun j hj => ?_, fun j hop hget hj => ?_, fun j => ?_, fun j hj => ?_⟩
      · obtain rfl : j = i := by
          have hj' : j + 1 = e.hops.length := hj
          omega
        rw [hcells, if_pos rfl]
        show List.Forall₂ _ (Function.update e.answered j (e.answered j ++ [command]) j) _
        rw [Function.update_self]
        exact List.rel_append hanswers (List.Forall₂.cons (by rw [hplain]; exact hpad) List.Forall₂.nil)
      · obtain rfl : j = i := by
          have hj' : j + 1 = e.hops.length := hj
          omega
        show e.peeled j = (Function.update e.answered j (e.answered j ++ [command]) j).take _
        rw [Function.update_self, List.take_append_of_le_length, h.opened j hop hget hlength.symm]
        rw [hanswers.length_eq]
        exact (h.hop j hop hget).2
      · show e.peeled j <+: Function.update e.answered i (e.answered i ++ [command]) j
        by_cases hj : j = i
        · subst hj
          rw [Function.update_self]
          exact (h.peeled j).trans (List.prefix_append _ _)
        · rw [Function.update_of_ne hj]
          exact h.peeled j
      · have hj' : e.hops.length ≤ j := hj
        have hne : j ≠ i := by omega
        rw [hcells, if_neg hne, List.append_nil]
        show _ ∧ Function.update e.answered i (e.answered i ++ [command]) j = [] ∧ _
        rw [Function.update_of_ne hne]
        exact h.after j hj'
  · exact hsame

theorem Backward.relayBack (hks : DistinctKeys expand ks) (h : Backward expand ks log e) (i : Nat) (data : Bytes) :
    Backward expand ks (log ++ (e.relayBack encrypt i data).2) (e.relayBack encrypt i data).1 := by
  unfold Ends.relayBack
  split
  · rename_i hi
    have h' : Backward expand ks log { e with relayed := Function.update e.relayed i (e.relayed i + 1) } :=
      h.congr (fun i hop hget => ⟨hop, hget, rfl⟩) rfl (fun _ => rfl) rfl rfl rfl fun _ => rfl
    rcases h'.sealAt_cases encrypt i data with
      ⟨hseal, -⟩ | ⟨cell, layer, hroom, hseal, hkey, hnonce, -, -, hlayer⟩
    · simp only [hseal, List.append_nil]
      exact h'
    · simp only [hseal]
      have hcounting := h'.toCounting.sealAt hks hroom hkey hnonce hlayer
      have hcells := fun j => backwardCells_append hks log hkey j
      refine ⟨hcounting, fun j hj => ?_, h'.opened, h'.peeled, fun j hj => ?_⟩
      · have hj' : j + 1 = e.hops.length := hj
        rw [hcells, if_neg (by omega), List.append_nil]
        exact h'.answers j hj
      · have hj' : e.hops.length ≤ j := hj
        rw [hcells, if_neg (by omega), List.append_nil]
        exact h'.after j hj
  · rw [List.append_nil]
    exact h

/-! ### Opening -/

theorem Counting.nextBackward_iff (h : Counting expand ks log e) {hop : CircuitHop} (hget : e.hops[i]? = some hop)
    {data p : Bytes} :
    hop.layer.nextBackward log data = some p ↔
      ∃ cell, (backwardCells expand ks log i)[hop.layer.backward.next]? = some cell ∧ cell.ciphertext = data ∧
        cell.plaintext = p := by
  have hsmall := h.small i
  obtain ⟨hkey, hnext⟩ := h.hop i hop hget
  unfold backwardCells at hsmall hnext ⊢
  unfold LayerCipher.nextBackward Direction.nonce
  rw [hkey]
  refine opened_iff (h.counted i) fun j hj heq => nonceOf_inj ?_ ?_ heq
  · unfold U64_MAX at hsmall
    omega
  · unfold U64_MAX at hsmall
    omega

theorem Counting.openedOne_next (h : Counting expand ks log e) {hop : CircuitHop} (hget : e.hops[i]? = some hop)
    {data p : Bytes} (hopen : hop.layer.nextBackward log data = some p) :
    hop.openedOne.layer.backward.next = hop.layer.backward.next + 1 ∧
      hop.layer.backward.next < (backwardCells expand ks log i).length := by
  obtain ⟨cell, hcell, -, -⟩ := (h.nextBackward_iff hget).1 hopen
  have hlt := (List.getElem?_eq_some_iff.1 hcell).1
  have hsmall := h.small i
  unfold U64_MAX at hsmall
  exact ⟨Nat.mod_eq_of_lt (by omega), hlt⟩

theorem Backward.peel_cases (h : Backward expand ks log e) (hne : e.hops ≠ []) (data : Bytes) :
    ∃ hops, hops = (peelLayers log e.hops data).2 ∧
      ((∃ m, (peelLayers log e.hops data).1 = .error m ∧
          e.peel log data = (.error m, { e with hops, received := e.received + 1 }) ∧
          hops[e.hops.length - 1]? = e.hops[e.hops.length - 1]?) ∨
        ∃ command hop, e.hops[e.hops.length - 1]? = some hop ∧
          (e.answered (e.hops.length - 1))[hop.layer.backward.next]? = some command ∧
          hops[e.hops.length - 1]? = some hop.openedOne ∧
          (∃ d p, hop.layer.nextBackward log d = some p) ∧
          e.peel log data = (.ok (), { e with
            hops
            received := e.received + 1
            peeled := Function.update e.peeled (e.hops.length - 1) (e.peeled (e.hops.length - 1) ++ [command]) })) := by
  refine ⟨_, rfl, ?_⟩
  have hpos := List.length_pos_of_ne_nil hne
  have hi : e.hops.length - 1 + 1 = e.hops.length := by omega
  have hget : e.hops[e.hops.length - 1]? = some e.hops[e.hops.length - 1] := List.getElem?_eq_getElem (by omega)
  unfold Ends.peel peelResponseLayers peelCommand
  rw [if_neg hne]
  rcases peelLayers_last log data hi hget with ⟨⟨m, hm⟩, hsame⟩ | ⟨d, p, hopen, hp, hmoved⟩
  · refine Or.inl ⟨m, hm, ?_, hsame.trans hget.symm⟩
    simp only [hm, Except.bind]
  · obtain ⟨cell, hcell, -, rfl⟩ := (h.nextBackward_iff hget).1 hopen
    obtain ⟨hlt, rfl⟩ := List.getElem?_eq_some_iff.1 hcell
    have hanswers := h.answers _ hi
    have hlt' := hanswers.length_eq ▸ hlt
    have hunpad := unpad_pad ((List.forall₂_iff_get.1 hanswers).2 _ hlt' hlt)
    rw [List.get_eq_getElem, List.get_eq_getElem] at hunpad
    refine Or.inr ⟨_, _, hget, List.getElem?_eq_getElem hlt', hmoved, ⟨d, _, hopen⟩, ?_⟩
    simp only [hp, Except.bind, hunpad]

theorem Backward.peel (h : Backward expand ks log e) (data : Bytes) :
    Backward expand ks log (e.peel log data).2 := by
  by_cases hne : e.hops = []
  · unfold Ends.peel
    rw [if_pos hne]
    exact h
  · have hpos := List.length_pos_of_ne_nil hne
    obtain ⟨hops, heq, hcases⟩ := h.peel_cases hne data
    have hlength : hops.length = e.hops.length := by rw [heq, length_peelLayers]
    have hhops : ∀ (i : Nat) (hop' : CircuitHop), hops[i]? = some hop' →
        ∃ hop : CircuitHop, e.hops[i]? = some hop ∧ (hop' = hop ∨ hop' = hop.openedOne ∧
          ∃ d p, hop.layer.nextBackward log d = some p) := by
      intro i hop' hget
      have hlt : i < e.hops.length := hlength ▸ (List.getElem?_eq_some_iff.1 hget).1
      have hopened := peelLayers_hop log data (List.getElem?_eq_getElem hlt)
      rw [← heq, hget] at hopened
      refine ⟨_, List.getElem?_eq_getElem hlt, ?_⟩
      rcases hopened with hsame | ⟨hmoved, hopen⟩
      · exact Or.inl (Option.some.inj hsame)
      · exact Or.inr ⟨Option.some.inj hmoved, hopen⟩
    have hcounting : ∀ e' : Ends, e'.hops = hops → e'.relays = e.relays → e'.back = e.back →
        Counting expand ks log e' := by
      intro e' hhops' hrelays hback
      refine ⟨fun i hop' hget => ?_, fun i => hrelays ▸ h.relay i, h.small, h.counted, fun i => hback ▸ h.back i⟩
      obtain ⟨hop, hget', rfl | ⟨rfl, d, p, hopen⟩⟩ := hhops i hop' (hhops' ▸ hget)
      · exact h.hop i _ hget'
      · obtain ⟨hnext, hlt⟩ := h.openedOne_next hget' hopen
        rw [hnext]
        exact ⟨(h.hop i hop hget').1, hlt⟩
    rcases hcases with ⟨m, -, hpeel, hlast⟩ | ⟨command, hop, hget, hcommand, hmoved, ⟨d, p, hopen⟩, hpeel⟩
    · rw [hpeel]
      refine ⟨hcounting _ rfl rfl rfl, fun i hi => h.answers i (hlength ▸ hi), fun i hop' hget' hi => ?_, h.peeled,
        fun i hi => h.after i (hlength ▸ hi)⟩
      obtain rfl : i = e.hops.length - 1 := by
        have hi' : i + 1 = hops.length := hi
        omega
      exact h.opened _ hop' (hlast ▸ hget') (by omega)
    · rw [hpeel]
      obtain ⟨hnext, -⟩ := h.openedOne_next hget hopen
      have hpeeled := h.opened _ hop hget (by omega)
      have htake : e.peeled (e.hops.length - 1) ++ [command] =
          (e.answered (e.hops.length - 1)).take (hop.layer.backward.next + 1) := by
        rw [List.take_add_one, hcommand, hpeeled]
        rfl
      refine ⟨hcounting _ rfl rfl rfl, fun i hi => h.answers i (hlength ▸ hi), fun i hop' hget' hi => ?_, fun i => ?_,
        fun i hi => ?_⟩
      · obtain rfl : i = e.hops.length - 1 := by
          have hi' : i + 1 = hops.length := hi
          omega
        obtain rfl : hop.openedOne = hop' := Option.some.inj (hmoved.symm.trans hget')
        rw [hnext, ← htake]
        exact Function.update_self ..
      · show Function.update e.peeled (e.hops.length - 1) (e.peeled (e.hops.length - 1) ++ [command]) i <+: _
        by_cases hi : i = e.hops.length - 1
        · subst hi
          rw [Function.update_self, htake]
          exact List.take_prefix _ _
        · rw [Function.update_of_ne hi]
          exact h.peeled i
      · have hi' : hops.length ≤ i := hi
        show _ ∧ _ ∧ Function.update e.peeled (e.hops.length - 1) (e.peeled (e.hops.length - 1) ++ [command]) i = []
        rw [Function.update_of_ne (by omega)]
        exact h.after i (by omega)

end HidraNet.Onion
