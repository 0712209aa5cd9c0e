import HidraNet.Onion.Backward

/-!
# Links that are left alone

Where every link carries what is put on it, in order, a hop is given the cells sealed for it one after another, and the
client the answers.  On the link to a hop is what the hop before it has passed on, which are the next cells of the hop
(`OutLinks`); inside what a hop has sealed and the client has not opened is what the next hop has sealed (`BackLinks`).
-/

namespace HidraNet.Onion

open HidraNet.Core (Bytes)
open Aead
open HidraNet.Lists

variable {expand : Bytes → Bytes → Bytes} {encrypt : Bytes → Bytes → Bytes → Bytes} {addr : Nat → HopAddr}
  {ks : Nat → Bytes} {log log' : List SealedCell} {e e' : Ends} {i : Nat}

/-! ### Towards the last hop -/

def onLink (expand : Bytes → Bytes → Bytes) (ks : Nat → Bytes) (log : List SealedCell) (e : Ends) (i : Nat) :
    List (CellKind × Bytes) :=
  List.zipWith (fun x cell => (x.kind, cell.ciphertext)) (e.sentTo i) (forwardCells expand ks log i)

def Ends.passed (e : Ends) (i : Nat) : Nat :=
  ((e.sentTo i).take (e.relays i).forward.next).countP fun x => i + 1 < x.hops

variable (expand ks) in
structure OutLinks (log : List SealedCell) (e : Ends) : Prop where
  first : e.out 0 = onLink expand ks log e 0
  next : ∀ i, e.out (i + 1) = (onLink expand ks log e (i + 1)).take (e.passed i)
  taken : ∀ i, e.taken i = (e.relays i).forward.next

theorem OutLinks.congr (h : OutLinks expand ks log e) (hout : e'.out = e.out) (htaken : e'.taken = e.taken)
    (hrelays : ∀ i, (e'.relays i).forward = (e.relays i).forward) (hsent : e'.sent = e.sent)
    (hlog : ∀ i, forwardCells expand ks log' i = forwardCells expand ks log i) : OutLinks expand ks log' e' := by
  have hto : ∀ i, e'.sentTo i = e.sentTo i := fun i => by rw [Ends.sentTo, hsent]; rfl
  have hlink : ∀ i, onLink expand ks log' e' i = onLink expand ks log e i := fun i => by
    rw [onLink, hto, hlog]
    rfl
  have hpassed : ∀ i, e'.passed i = e.passed i := fun i => by
    rw [Ends.passed, hto, hrelays]
    rfl
  refine ⟨?_, fun i => ?_, fun i => ?_⟩
  · rw [hout, hlink]
    exact h.first
  · rw [hout, hlink, hpassed]
    exact h.next i
  · rw [htaken, hrelays]
    exact h.taken i

theorem length_onLink (hf : Forward expand addr ks log e) (i : Nat) :
    (onLink expand ks log e i).length = (e.sentTo i).length := by
  rw [onLink, List.length_zipWith, hf.length, Nat.min_self]

theorem Ends.passed_le (e : Ends) (i : Nat) : e.passed i ≤ (e.sentTo (i + 1)).length := by
  rw [Ends.sentTo_succ, ← List.countP_eq_length_filter]
  exact (List.take_sublist _ _).countP_le

theorem getElem?_onLink {x : Sent} {cell : SealedCell} {k : Nat} (hx : (e.sentTo i)[k]? = some x)
    (hcell : (forwardCells expand ks log i)[k]? = some cell) :
    (onLink expand ks log e i)[k]? = some (x.kind, cell.ciphertext) := by
  rw [onLink, List.getElem?_zipWith, hx, hcell]

theorem OutLinks.out_prefix (h : OutLinks expand ks log e) (i : Nat) : e.out i <+: onLink expand ks log e i := by
  cases i with
  | zero => rw [h.first]
  | succ i =>
    rw [h.next]
    exact List.take_prefix _ _

theorem outLinks_start (ks : Nat → Bytes) : OutLinks expand ks [] (.start expand ks) :=
  ⟨rfl, fun _ => rfl, fun _ => rfl⟩

theorem OutLinks.sendOne (hks : DistinctKeys expand ks) (hf : Forward expand addr ks log e)
    (h : OutLinks expand ks log e) {kind : CellKind} {command body : Bytes} {cells : List SealedCell}
    (hne : e.hops ≠ []) (hlen : cells.length = e.hops.length)
    (hkeys : ∀ (i : Nat) (hop : CircuitHop) (cell : SealedCell), e.hops[i]? = some hop → cells[i]? = some cell →
      cell.key = hop.layer.forward.key) :
    OutLinks expand ks (log ++ cells) (e.sentOne kind command ((cells.head?.map (·.ciphertext)).getD body)) := by
  generalize hdata : (cells.head?.map (·.ciphertext)).getD body = data
  have hto := sentTo_sentOne e kind command data
  have hF := forwardCells_append hks hf hlen hkeys
  have hpos := List.length_pos_of_ne_nil hne
  have hlink : ∀ i, onLink expand ks (log ++ cells) (e.sentOne kind command data) i =
      onLink expand ks log e i ++ (cells[i]?.map fun cell => (kind, cell.ciphertext)).toList := by
    intro i
    rw [onLink, hto, hF, List.zipWith_append (by rw [hf.length])]
    unfold onLink
    congr 1
    by_cases hi : i < e.hops.length
    · rw [if_pos hi, List.getElem?_eq_getElem (hlen.symm ▸ hi)]
      rfl
    · rw [if_neg hi, List.getElem?_eq_none (by omega)]
      rfl
  refine ⟨?_, fun i => ?_, h.taken⟩
  · rw [hlink, ← h.first]
    obtain ⟨cell, rest, rfl⟩ := List.exists_cons_of_ne_nil (List.ne_nil_of_length_pos (hlen.symm ▸ hpos))
    simp [Ends.sentOne, ← hdata]
  · have hpassed : (e.sentOne kind command data).passed i = e.passed i := by
      rw [Ends.passed, hto, show (e.sentOne kind command data).relays = e.relays from rfl,
        List.take_append_of_le_length (hf.opened i)]
      rfl
    have hle : e.passed i ≤ (onLink expand ks log e (i + 1)).length := by
      rw [length_onLink hf]
      exact e.passed_le i
    rw [hlink, hpassed, List.take_append_of_le_length hle, ← h.next i]
    simp [Ends.sentOne]

theorem OutLinks.next_cell (h : OutLinks expand ks log e) {kind : CellKind} {data : Bytes}
    (hnext : (e.out i)[e.taken i]? = some (kind, data)) :
    ∃ x cell, (e.sentTo i)[(e.relays i).forward.next]? = some x ∧
      (forwardCells expand ks log i)[(e.relays i).forward.next]? = some cell ∧ x.kind = kind ∧
      cell.ciphertext = data := by
  obtain ⟨rest, hrest⟩ := h.out_prefix i
  have hlink : (onLink expand ks log e i)[(e.relays i).forward.next]? = some (kind, data) := by
    rw [← hrest, ← h.taken, List.getElem?_append_left (List.getElem?_eq_some_iff.1 hnext).1]
    exact hnext
  rw [onLink, List.getElem?_zipWith_eq_some] at hlink
  obtain ⟨x, cell, hx, hcell, heq⟩ := hlink
  obtain ⟨hkind, hdata⟩ := Prod.mk.inj heq
  exact ⟨x, cell, hx, hcell, hkind, hdata⟩

theorem OutLinks.asSealed (hf : Forward expand addr ks log e) (h : OutLinks expand ks log e) {kind : CellKind}
    {data : Bytes} (hnext : (e.out i)[e.taken i]? = some (kind, data)) : e.asSealed log i kind data = true := by
  obtain ⟨x, cell, hx, hcell, hkind, -⟩ := h.next_cell hnext
  have hcell' : (under log (e.relays i).forward.key)[(e.relays i).forward.next]? = some cell := by
    rw [hf.relay i]
    exact hcell
  unfold Ends.asSealed
  rw [hx, hcell']
  simp [hkind]

theorem OutLinks.openedOne (hf : Forward expand addr ks log e)
    (h : OutLinks expand ks log e) {x : Sent} {inner : Bytes}
    (hx : (e.sentTo i)[(e.relays i).forward.next]? = some x)
    (hinner : i + 1 < x.hops → ∃ cell, inner = cell.ciphertext ∧
      (forwardCells expand ks log (i + 1))[e.passed i]? = some cell) :
    OutLinks expand ks log { e.openedOne addr i x inner with
      taken := Function.update e.taken i (e.taken i + 1) } := by
  have hlt := (List.getElem?_eq_some_iff.1 hx).1
  have hmoved := hf.movedForward_next hlt
  have hrelays := relays_openedOne addr e i x inner
  have hbeyond : i < x.hops := by simpa using (List.mem_filter.1 (List.mem_of_getElem? hx)).2
  have hpassed : ∀ j, (e.openedOne addr i x inner).passed j =
      e.passed j + if j = i ∧ i + 1 < x.hops then 1 else 0 := by
    intro j
    rw [Ends.passed, hrelays]
    by_cases hj : j = i
    · subst hj
      rw [if_pos rfl, hmoved, show (e.openedOne addr j x inner).sentTo j = e.sentTo j from rfl, List.take_add_one, hx,
        List.countP_append]
      by_cases hmore : j + 1 < x.hops
      · simp [Ends.passed, hmore]
      · simp [Ends.passed, hmore]
    · simp only [hj, false_and, if_false]
      rfl
  refine ⟨?_, fun j => ?_, fun j => ?_⟩
  · show (e.openedOne addr i x inner).out 0 = onLink expand ks log e 0
    rw [← h.first]
    by_cases hend : x.hops = i + 1
    · simp [Ends.openedOne, hend]
    · simp [Ends.openedOne, hend]
  · show (e.openedOne addr i x inner).out (j + 1) =
      (onLink expand ks log e (j + 1)).take ((e.openedOne addr i x inner).passed j)
    rw [hpassed]
    by_cases hmore : j = i ∧ i + 1 < x.hops
    · obtain ⟨rfl, hmore⟩ := hmore
      obtain ⟨cell, rfl, hcell⟩ := hinner hmore
      have hx' : (e.sentTo (j + 1))[e.passed j]? = some x := by
        rw [Ends.sentTo_succ]
        exact getElem?_filter_countP hx (by simpa using hmore)
      have hout : (e.openedOne addr j x cell.ciphertext).out (j + 1) = e.out (j + 1) ++ [(x.kind, cell.ciphertext)] := by
        have hne : x.hops ≠ j + 1 := by omega
        simp [Ends.openedOne, hne]
      rw [if_pos ⟨rfl, hmore⟩, hout, h.next, List.take_add_one, getElem?_onLink hx' hcell]
      rfl
    · rw [if_neg hmore]
      show _ = (onLink expand ks log e (j + 1)).take (e.passed j)
      rw [← h.next]
      by_cases hend : x.hops = i + 1
      · simp [Ends.openedOne, hend]
      · have hj : j ≠ i := fun hj => hmore ⟨hj, by omega⟩
        simp [Ends.openedOne, hend, hj]
  · show Function.update e.taken i (e.taken i + 1) j = ((e.openedOne addr i x inner).relays j).forward.next
    rw [hrelays]
    by_cases hj : j = i
    · subst hj
      rw [Function.update_self, if_pos rfl, hmoved, h.taken]
    · rw [Function.update_of_ne hj, if_neg hj]
      exact h.taken j

theorem OutLinks.deliver (hf : Forward expand addr ks log e) (h : OutLinks expand ks log e)
    (hi : i < e.hops.length) {kind : CellKind} {data : Bytes} (hnext : (e.out i)[e.taken i]? = some (kind, data)) :
    (e.deliver log i kind data).1 = .ok () ∧ OutLinks expand ks log (e.deliver log i kind data).2 := by
  obtain ⟨x, cell, hx, hcell, hkind, hdata⟩ := h.next_cell hnext
  have hf' : Forward expand addr ks log { e with taken := Function.update e.taken i (e.taken i + 1) } :=
    hf.congr (fun i hop hget => ⟨hop, hget, rfl, rfl⟩) rfl (fun _ => rfl) id rfl rfl rfl fun _ => rfl
  have hopen := hf.nextForward_iff.2 ⟨cell, hcell, hdata, rfl⟩
  unfold Ends.deliver
  rw [if_pos hi]
  rcases hf'.handle_cases hi (h.asSealed hf hnext) with ⟨hnone, -⟩ | ⟨x', cell', inner, hx', -, -, hinner, hok⟩
  · exact absurd (hopen.symm.trans hnone) (by simp)
  · rw [hok]
    obtain rfl : x = x' := Option.some.inj (hx.symm.trans hx')
    exact ⟨rfl, h.openedOne hf hx hinner⟩

/-! ### Back to the client -/

variable (expand ks) in
structure BackLinks (log : List SealedCell) (e : Ends) : Prop where
  received : ∀ hop, e.hops[0]? = some hop → e.received = hop.layer.backward.next
  noHop : e.hops = [] → e.received = 0
  /-- What a hop was given by the next one, the client has opened, or it is in what the hop has sealed. -/
  relayed : ∀ i hop hop', e.hops[i]? = some hop → e.hops[i + 1]? = some hop' →
    (backwardCells expand ks log i).length ≠ U64_MAX →
      e.relayed i + hop.layer.backward.next = hop'.layer.backward.next + (backwardCells expand ks log i).length
  idle : ∀ i, e.hops.length ≤ i + 1 → e.relayed i = 0
  chain : ∀ i hop hop' k cell, e.hops[i]? = some hop → e.hops[i + 1]? = some hop' →
    (backwardCells expand ks log i)[hop.layer.backward.next + k]? = some cell →
      ∃ cell', (backwardCells expand ks log (i + 1))[hop'.layer.backward.next + k]? = some cell' ∧
        cell.plaintext = cell'.ciphertext

theorem BackLinks.congr (h : BackLinks expand ks log e)
    (hhops : ∀ (i : Nat) (hop' : CircuitHop), e'.hops[i]? = some hop' →
      ∃ hop : CircuitHop, e.hops[i]? = some hop ∧ hop'.layer.backward = hop.layer.backward)
    (hlength : e'.hops.length = e.hops.length) (hreceived : e'.received = e.received)
    (hrelayed : e'.relayed = e.relayed)
    (hlog : ∀ i, backwardCells expand ks log' i = backwardCells expand ks log i) : BackLinks expand ks log' e' := by
  refine ⟨fun hop₁ h₁ => ?_, fun hnil => ?_, fun i hop₁ hop₂ h₁ h₂ hroom => ?_, fun i hi => ?_,
    fun i hop₁ hop₂ k cell h₁ h₂ hcell => ?_⟩
  · obtain ⟨hop, hget, heq⟩ := hhops 0 hop₁ h₁
    rw [hreceived, heq]
    exact h.received hop hget
  · rw [hreceived]
    refine h.noHop (List.length_eq_zero_iff.1 ?_)
    rw [← hlength, hnil]
    rfl
  · obtain ⟨hop, hget, heq⟩ := hhops i hop₁ h₁
    obtain ⟨hop', hget', heq'⟩ := hhops (i + 1) hop₂ h₂
    rw [hlog] at hroom ⊢
    rw [hrelayed, heq, heq']
    exact h.relayed i hop hop' hget hget' hroom
  · rw [hrelayed]
    exact h.idle i (hlength ▸ hi)
  · obtain ⟨hop, hget, heq⟩ := hhops i hop₁ h₁
    obtain ⟨hop', hget', heq'⟩ := hhops (i + 1) hop₂ h₂
    rw [hlog, heq] at hcell
    rw [hlog, heq']
    exact h.chain i hop hop' k cell hget hget' hcell

theorem backLinks_start (ks : Nat → Bytes) : BackLinks expand ks [] (.start expand ks) := by
  refine ⟨fun hop h => ?_, fun _ => rfl, fun i hop hop' h => ?_, fun _ _ => rfl, fun i hop hop' k cell h => ?_⟩
  · simp [Ends.start] at h
  · simp [Ends.start] at h
  · simp [Ends.start] at h

def Ends.settled (e : Ends) : Bool := e.hops.zipIdx.all fun h => h.1.layer.backward.next = (e.back h.2).length

theorem BackLinks.extend (hb : Backward expand ks log e) (h : BackLinks expand ks log e) (hsettled : e.settled = true)
    (a : HopAddr) : BackLinks expand ks log (e.extend expand a (ks e.hops.length)) := by
  have hnext : ∀ (i : Nat) (hop : CircuitHop), e.hops[i]? = some hop →
      hop.layer.backward.next = (backwardCells expand ks log i).length := by
    intro i hop hget
    unfold Ends.settled at hsettled
    rw [List.all_eq_true] at hsettled
    have hall := hsettled (hop, i) (List.mem_zipIdx_iff_getElem?.2 hget)
    rw [hb.back i, List.length_map] at hall
    simpa using hall
  refine ⟨fun hop hget => ?_, fun hnil => ?_, fun i hop hop' hget hget' hroom => ?_, fun i hi => ?_,
    fun i hop hop' k cell hget hget' hcell => ?_⟩
  · rcases getElem?_extend hget with hget | ⟨hlen, rfl⟩
    · exact h.received hop hget
    · exact h.noHop (List.length_eq_zero_iff.1 hlen.symm)
  · simp [Ends.extend] at hnil
  · rcases getElem?_extend hget' with hold | ⟨hlen, rfl⟩
    · have hlt := (List.getElem?_eq_some_iff.1 hold).1
      rcases getElem?_extend hget with hget | ⟨hlen, -⟩
      · exact h.relayed i hop hop' hget hold hroom
      · omega
    · rcases getElem?_extend hget with hget | ⟨hlen', -⟩
      · have hidle := h.idle i hlen.ge
        have hnew : ((⟨a, .new expand (ks e.hops.length)⟩ : CircuitHop)).layer.backward.next = 0 := rfl
        rw [hnew, ← hnext i hop hget]
        show e.relayed i + _ = _
        omega
      · omega
  · rw [length_extend] at hi
    exact h.idle i (by omega)
  · rcases getElem?_extend hget' with hold | ⟨hlen, rfl⟩
    · have hlt := (List.getElem?_eq_some_iff.1 hold).1
      rcases getElem?_extend hget with hget | ⟨hlen, -⟩
      · exact h.chain i hop hop' k cell hget hold hcell
      · omega
    · rcases getElem?_extend hget with hget | ⟨hlen', -⟩
      · have hlt := (List.getElem?_eq_some_iff.1 hcell).1
        rw [hnext i hop hget] at hlt
        omega
      · omega

theorem BackLinks.answer (hks : DistinctKeys expand ks) (hb : Backward expand ks log e) (h : BackLinks expand ks log e)
    (command : Bytes) : BackLinks expand ks (log ++ (e.answer encrypt command).2) (e.answer encrypt command).1 := by
  have hsame : BackLinks expand ks (log ++ []) e := by
    rw [List.append_nil]
    exact h
  unfold Ends.answer
  split
  · rename_i i body hlength hpad
    rcases hb.sealAt_cases encrypt i body with ⟨hseal, -⟩ | ⟨cell, layer, -, hseal, hkey, -, -, -, -⟩
    · rw [hseal]
      exact hsame
    · rw [hseal]
      have hcells := fun j => backwardCells_append hks log hkey j
      refine ⟨h.received, h.noHop, fun j hop hop' hget hget' hroom => ?_, h.idle,
        fun j hop hop' k c hget hget' hc => ?_⟩
      · have hj : j ≠ i := by
          have hlt := (List.getElem?_eq_some_iff.1 hget').1
          change j + 1 < e.hops.length at hlt
          omega
        rw [hcells, if_neg hj, List.append_nil] at hroom ⊢
        exact h.relayed j hop hop' hget hget' hroom
      · have hj : j ≠ i := by
          have hlt := (List.getElem?_eq_some_iff.1 hget').1
          change j + 1 < e.hops.length at hlt
          omega
        rw [hcells, if_neg hj, List.append_nil] at hc
        obtain ⟨c', hc', heq⟩ := h.chain j hop hop' k c hget hget' hc
        refine ⟨c', ?_, heq⟩
        rw [hcells, List.getElem?_append_left (List.getElem?_eq_some_iff.1 hc').1]
        exact hc'
  · exact hsame

theorem BackLinks.relayBack (hks : DistinctKeys expand ks) (hb : Backward expand ks log e)
    (h : BackLinks expand ks log e) (i : Nat) (data : Bytes)
    (hnext : i + 1 < e.hops.length → (e.back (i + 1))[e.relayed i]? = some data) :
    BackLinks expand ks (log ++ (e.relayBack encrypt i data).2) (e.relayBack encrypt i data).1 := by
  unfold Ends.relayBack
  split
  · rename_i hi
    have hb' : Backward expand ks log { e with relayed := Function.update e.relayed i (e.relayed i + 1) } :=
      hb.congr (fun i hop hget => ⟨hop, hget, rfl⟩) rfl (fun _ => rfl) rfl rfl rfl fun _ => rfl
    have hidle : ∀ j, e.hops.length ≤ j + 1 → Function.update e.relayed i (e.relayed i + 1) j = 0 := by
      intro j hj
      rw [Function.update_of_ne (by omega)]
      exact h.idle j hj
    have hdata := hnext hi
    rw [hb.back, List.getElem?_map, Option.map_eq_some_iff] at hdata
    obtain ⟨inside, hinside, hct⟩ := hdata
    rcases hb'.sealAt_cases encrypt i data with ⟨hseal, hfull⟩ | ⟨cell, layer, hroom, hseal, hkey, -, hplain, -, -⟩
    · simp only [hseal, List.append_nil]
      refine ⟨h.received, h.noHop, fun j hop hop' hget hget' hroom => ?_, hidle, h.chain⟩
      have hj : j ≠ i := fun hj => hroom (hj ▸ hfull)
      show Function.update e.relayed i (e.relayed i + 1) j + _ = _
      rw [Function.update_of_ne hj]
      exact h.relayed j hop hop' hget hget' hroom
    · simp only [hseal]
      have hcells := fun j => backwardCells_append hks log hkey j
      refine ⟨h.received, h.noHop, fun j hop hop' hget hget' hroom' => ?_, hidle,
        fun j hop hop' k c hget hget' hc => ?_⟩
      · show Function.update e.relayed i (e.relayed i + 1) j + _ = _
        by_cases hj : j = i
        · subst hj
          have heq := h.relayed j hop hop' hget hget' hroom
          rw [hcells, if_pos rfl, List.length_append, List.length_singleton, Function.update_self]
          omega
        · rw [hcells, if_neg hj, List.append_nil] at hroom' ⊢
          rw [Function.update_of_ne hj]
          exact h.relayed j hop hop' hget hget' hroom'
      · have hkept : ∀ c', (backwardCells expand ks log (j + 1))[hop'.layer.backward.next + k]? = some c' →
            (backwardCells expand ks (log ++ [cell]) (j + 1))[hop'.layer.backward.next + k]? = some c' := by
          intro c' hc'
          rw [hcells, List.getElem?_append_left (List.getElem?_eq_some_iff.1 hc').1]
          exact hc'
        rw [hcells, List.getElem?_append] at hc
        split at hc
        · obtain ⟨c', hc', heq⟩ := h.chain j hop hop' k c hget hget' hc
          exact ⟨c', hkept c' hc', heq⟩
        · rename_i hlast
          have hj : j = i := by
            by_contra hj
            simp [hj] at hc
          subst hj
          rw [if_pos rfl] at hc
          obtain ⟨hlt, rfl⟩ := List.getElem?_eq_some_iff.1 hc
          rw [List.length_singleton] at hlt
          have heq := h.relayed j hop hop' hget hget' hroom
          refine ⟨inside, hkept inside ?_, ?_⟩
          · have hat : hop'.layer.backward.next + k = e.relayed j := by omega
            rw [hat]
            exact hinside
          · simp only [List.getElem_singleton]
            rw [hplain, hct]
  · rw [List.append_nil]
    exact h

theorem BackLinks.next_cells (h : BackLinks expand ks log e) {hop : CircuitHop} {i : Nat} (hget : e.hops[i]? = some hop)
    (hfirst : ∀ hop, e.hops[0]? = some hop → ∃ cell, (backwardCells expand ks log 0)[hop.layer.backward.next]? = some cell) :
    ∃ cell, (backwardCells expand ks log i)[hop.layer.backward.next]? = some cell := by
  induction i generalizing hop with
  | zero => exact hfirst hop hget
  | succ i ih =>
    have hlt := (List.getElem?_eq_some_iff.1 hget).1
    have hbefore : e.hops[i]? = some e.hops[i] := List.getElem?_eq_getElem (by omega)
    obtain ⟨cell, hcell⟩ := ih hbefore
    obtain ⟨cell', hcell', -⟩ := h.chain i _ hop 0 cell hbefore hget hcell
    exact ⟨cell', hcell'⟩

theorem BackLinks.peel (hb : Backward expand ks log e) (h : BackLinks expand ks log e) {data : Bytes}
    (hnext : e.hops ≠ [] → (e.back 0)[e.received]? = some data) :
    (e.peel log data).1 = .ok () ∧ BackLinks expand ks log (e.peel log data).2 := by
  by_cases hne : e.hops = []
  · unfold Ends.peel
    rw [if_pos hne]
    exact ⟨rfl, h⟩
  · have hpos := List.length_pos_of_ne_nil hne
    have hdata := hnext hne
    rw [hb.back, List.getElem?_map, Option.map_eq_some_iff] at hdata
    obtain ⟨outer, houter, hct⟩ := hdata
    have hcell : ∀ (i : Nat) (hop : CircuitHop), e.hops[i]? = some hop →
        ∃ cell, (backwardCells expand ks log i)[hop.layer.backward.next]? = some cell := by
      intro i hop hget
      refine h.next_cells hget fun hop₀ h₀ => ⟨outer, ?_⟩
      rw [← h.received hop₀ h₀]
      exact houter
    -- the cells, and at the end what the last of them has inside
    let d : Nat → Bytes := fun i =>
      match e.hops[i]? with
      | some hop => ((backwardCells expand ks log i)[hop.layer.backward.next]?.map (·.ciphertext)).getD []
      | none =>
        match e.hops[i - 1]? with
        | some hop => ((backwardCells expand ks log (i - 1))[hop.layer.backward.next]?.map (·.plaintext)).getD []
        | none => []
    have hchain : ∀ (i : Nat) (hop : CircuitHop), e.hops[i]? = some hop →
        hop.layer.nextBackward log (d i) = some (d (i + 1)) := by
      intro i hop hget
      obtain ⟨cell, hc⟩ := hcell i hop hget
      refine (hb.nextBackward_iff hget).2 ⟨cell, hc, ?_, ?_⟩
      · simp only [d, hget, hc, Option.map_some, Option.getD_some]
      · cases hafter : e.hops[i + 1]? with
        | none => simp only [d, hafter, Nat.add_sub_cancel, hget, hc, Option.map_some, Option.getD_some]
        | some hop' =>
          obtain ⟨cell', hc', heq⟩ := h.chain i hop hop' 0 cell hget hafter hc
          rw [Nat.add_zero hop'.layer.backward.next] at hc'
          have hd : d (i + 1) = cell'.ciphertext := by simp only [d, hafter, hc', Option.map_some, Option.getD_some]
          exact heq.trans hd.symm
    have hstart : d 0 = data := by
      have h₀ : e.hops[0]? = some e.hops[0] := List.getElem?_eq_getElem hpos
      rw [h.received _ h₀] at houter
      simp only [d, h₀, houter, Option.map_some, Option.getD_some, hct]
    have hpeel := peelLayers_chain hchain
    rw [hstart] at hpeel
    obtain ⟨hops, heq, hcases⟩ := hb.peel_cases hne data
    rw [hpeel] at heq
    have hmoved : ∀ (i : Nat) (hop : CircuitHop), e.hops[i]? = some hop →
        hop.openedOne.layer.backward.next = hop.layer.backward.next + 1 := fun i hop hget =>
      (hb.openedOne_next hget (hchain i hop hget)).1
    rcases hcases with ⟨m, -, -, hlast⟩ | ⟨command, hop, -, -, -, -, hok⟩
    · have hget : e.hops[e.hops.length - 1]? = some e.hops[e.hops.length - 1] := List.getElem?_eq_getElem (by omega)
      rw [heq, List.getElem?_map, hget, Option.map_some, Option.some.injEq] at hlast
      have hnext' := hmoved _ _ hget
      rw [hlast] at hnext'
      omega
    · rw [hok, heq]
      have hhops : ∀ (i : Nat) (hop' : CircuitHop), (e.hops.map CircuitHop.openedOne)[i]? = some hop' →
          ∃ hop : CircuitHop, e.hops[i]? = some hop ∧ hop'.layer.backward.next = hop.layer.backward.next + 1 := by
        intro i hop' hget
        rw [List.getElem?_map] at hget
        obtain ⟨hop, hget', rfl⟩ := Option.map_eq_some_iff.1 hget
        exact ⟨hop, hget', hmoved i hop hget'⟩
      refine ⟨rfl, fun hop' hget => ?_, fun hnil => ?_, fun i hop₁ hop₂ h₁ h₂ hroom => ?_, fun i hi => ?_,
        fun i hop₁ hop₂ k cell h₁ h₂ hc => ?_⟩
      · obtain ⟨hop, hget', hnext'⟩ := hhops 0 hop' hget
        rw [hnext', ← h.received hop hget']
      · exact absurd (List.map_eq_nil_iff.1 hnil) hne
      · obtain ⟨hop, hget, hnext₁⟩ := hhops i hop₁ h₁
        obtain ⟨hop', hget', hnext₂⟩ := hhops (i + 1) hop₂ h₂
        have hrel := h.relayed i hop hop' hget hget' hroom
        show e.relayed i + _ = _
        omega
      · exact h.idle i (by simpa using hi)
      · obtain ⟨hop, hget, hnext₁⟩ := hhops i hop₁ h₁
        obtain ⟨hop', hget', hnext₂⟩ := hhops (i + 1) hop₂ h₂
        rw [hnext₁, Nat.add_assoc] at hc
        obtain ⟨cell', hc', heq'⟩ := h.chain i hop hop' (1 + k) cell hget hget' hc
        exact ⟨cell', by rw [hnext₂, Nat.add_assoc]; exact hc', heq'⟩

end HidraNet.Onion
