import HidraNet.Onion.Pipe

/-!
# Towards the last hop

What the client seals for a hop are the commands sent while the circuit went at least as far, one cell each, in order.
A hop has opened the first of them, as many as it has counted, and has read from them what the client wrote
(`Forward`).

A cell that opens at a hop is the next one sealed for it; it says what was sent unless it is given as a cell of the
other kind (`Forward.handle_cases`).
-/

namespace HidraNet.Onion

open HidraNet.Core (Bytes)
open Aead
open HidraNet.Lists
open Net

variable {expand : Bytes → Bytes → Bytes} {encrypt : Bytes → Bytes → Bytes → Bytes} {addr : Nat → HopAddr}
  {ks : Nat → Bytes} {log log' : List SealedCell} {e e' : Ends} {i : Nat}

namespace Ends

def sentTo (e : Ends) (i : Nat) : List Sent := e.sent.filter fun x => i < x.hops

theorem sentTo_succ (e : Ends) (i : Nat) : e.sentTo (i + 1) = (e.sentTo i).filter fun x => i + 1 < x.hops := by
  unfold sentTo
  rw [List.filter_filter]
  apply List.filter_congr
  intro x _
  by_cases hx : i + 1 < x.hops
  · have hx' : i < x.hops := by omega
    simp [hx, hx']
  · simp [hx]

theorem length_sentTo_le (e : Ends) (i : Nat) : (e.sentTo i).length ≤ (e.sentTo 0).length := by
  refine List.Sublist.length_le (List.monotone_filter_right _ fun x hx => ?_)
  simp only [decide_eq_true_eq] at hx ⊢
  omega

end Ends

def forwardCells (expand : Bytes → Bytes → Bytes) (ks : Nat → Bytes) (log : List SealedCell) (i : Nat) :
    List SealedCell := under log (expand (ks i) FORWARD_LABEL)

/-- The next hop of a cell, as its header at the hop `i` says. -/
def nextOf (addr : Nat → HopAddr) (i : Nat) (x : Sent) : Option HopAddr :=
  if x.hops = i + 1 then none else some (addr (i + 1))

def carriedNext (addr : Nat → HopAddr) (i : Nat) (x : Sent) : Option SocketAddr :=
  (nextOf addr i x).map fun a => carried a.val

variable (expand addr ks) in
structure Forward (log : List SealedCell) (e : Ends) : Prop where
  hop : ∀ i hop, e.hops[i]? = some hop → hop.addr = addr i ∧ hop.layer.forward.key = expand (ks i) FORWARD_LABEL
  relay : ∀ i, (e.relays i).forward.key = expand (ks i) FORWARD_LABEL
  range : ∀ x ∈ e.sent, 0 < x.hops ∧ x.hops ≤ e.hops.length
  stream : ∀ x ∈ e.sent, x.kind = .stream → e.built = true ∧ x.hops = e.hops.length
  counted : ∀ i, Counted nonceOf log (expand (ks i) FORWARD_LABEL)
  length : ∀ i, (forwardCells expand ks log i).length = (e.sentTo i).length
  small : (e.sentTo 0).length ≤ U64_MAX
  guard : ∀ hop, e.hops[0]? = some hop → hop.layer.forward.next = (e.sentTo 0).length
  /-- Once the first hop's count is exhausted, the others' do not matter. -/
  inner : (e.sentTo 0).length ≠ U64_MAX →
    ∀ i hop, e.hops[i]? = some hop → hop.layer.forward.next = (e.sentTo i).length
  layers : ∀ i k x cell, (e.sentTo i)[k]? = some x → (forwardCells expand ks log i)[k]? = some cell →
    ∃ inner, cell.plaintext = plain x.kind (nextOf addr i x) inner ∧
      (x.hops = i + 1 → padCell x.command = .ok inner) ∧
      (i + 1 < x.hops → ∃ cell', inner = cell'.ciphertext ∧
        (forwardCells expand ks log (i + 1))[((e.sentTo i).take k).countP fun y => i + 1 < y.hops]? = some cell')
  opened : ∀ i, (e.relays i).forward.next ≤ (e.sentTo i).length
  headers : ∀ i, e.headers i =
    (((e.sentTo i).take (e.relays i).forward.next).filter (·.kind = .control)).map (carriedNext addr i)
  unpadded : ∀ i, e.unpadded i =
    (((e.sentTo i).take (e.relays i).forward.next).filter (·.hops = i + 1)).map (·.command)

theorem Forward.congr (h : Forward expand addr ks log e)
    (hhops : ∀ (i : Nat) (hop' : CircuitHop), e'.hops[i]? = some hop' →
      ∃ hop : CircuitHop, e.hops[i]? = some hop ∧ hop'.addr = hop.addr ∧ hop'.layer.forward = hop.layer.forward)
    (hlength : e'.hops.length = e.hops.length) (hrelays : ∀ i, (e'.relays i).forward = (e.relays i).forward)
    (hbuilt : e.built = true → e'.built = true) (hsent : e'.sent = e.sent) (hheaders : e'.headers = e.headers)
    (hunpadded : e'.unpadded = e.unpadded)
    (hlog : ∀ i, forwardCells expand ks log' i = forwardCells expand ks log i) :
    Forward expand addr ks log' e' := by
  have hto : ∀ i, e'.sentTo i = e.sentTo i := fun i => by rw [Ends.sentTo, hsent]; rfl
  refine ⟨fun i hop' hget => ?_, fun i => ?_, fun x hx => ?_, fun x hx hk => ?_, fun i => ?_, fun i => ?_, ?_,
    fun hop' hget => ?_, fun hsmall i hop' hget => ?_, fun i k x cell hx hcell => ?_, fun i => ?_, fun i => ?_,
    fun i => ?_⟩
  · obtain ⟨hop, hget', haddr, hforward⟩ := hhops i hop' hget
    rw [haddr, hforward]
    exact h.hop i hop hget'
  · rw [hrelays]
    exact h.relay i
  · rw [hlength]
    exact h.range x (hsent ▸ hx)
  · rw [hlength]
    exact (h.stream x (hsent ▸ hx) hk).imp_left hbuilt
  · exact (h.counted i).congr (hlog i)
  · rw [hlog, hto]
    exact h.length i
  · rw [hto]
    exact h.small
  · obtain ⟨hop, hget', -, hforward⟩ := hhops 0 hop' hget
    rw [hforward, hto]
    exact h.guard hop hget'
  · obtain ⟨hop, hget', -, hforward⟩ := hhops i hop' hget
    rw [hforward, hto]
    exact h.inner (hto 0 ▸ hsmall) i hop hget'
  · rw [hto] at hx ⊢
    rw [hlog] at hcell ⊢
    exact h.layers i k x cell hx hcell
  · rw [hrelays, hto]
    exact h.opened i
  · rw [hheaders, hrelays, hto]
    exact h.headers i
  · rw [hunpadded, hrelays, hto]
    exact h.unpadded i

theorem forward_start (addr : Nat → HopAddr) (ks : Nat → Bytes) : Forward expand addr ks [] (.start expand ks) := by
  refine ⟨fun i hop h => ?_, fun i => rfl, fun x hx => ?_, fun x hx => ?_, fun i => counted_nil rfl, fun i => rfl,
    Nat.zero_le _, fun hop h => ?_, fun _ i hop h => ?_, fun i k x cell h => ?_, fun i => Nat.zero_le _, fun i => ?_,
    fun i => ?_⟩
  · simp [Ends.start] at h
  · simp [Ends.start] at hx
  · simp [Ends.start] at hx
  · simp [Ends.start] at h
  · simp [Ends.start] at h
  · simp [Ends.start, Ends.sentTo] at h
  · simp [Ends.start, Ends.sentTo]
  · simp [Ends.start, Ends.sentTo]

theorem Forward.sentTo_eq_nil (h : Forward expand addr ks log e) (hi : e.hops.length ≤ i) : e.sentTo i = [] := by
  unfold Ends.sentTo
  rw [List.filter_eq_nil_iff]
  intro x hx
  have hle := (h.range x hx).2
  simp only [decide_eq_true_eq]
  omega

theorem getElem?_extend {a : HopAddr} {sessionKey : Bytes} {hop : CircuitHop}
    (h : (e.extend expand a sessionKey).hops[i]? = some hop) :
    e.hops[i]? = some hop ∨ i = e.hops.length ∧ hop = ⟨a, .new expand sessionKey⟩ := by
  simp only [Ends.extend, List.getElem?_append] at h
  split at h
  · exact Or.inl h
  · obtain ⟨hlt, rfl⟩ := List.getElem?_eq_some_iff.1 h
    rw [List.length_singleton] at hlt
    exact Or.inr ⟨by omega, List.getElem_singleton _⟩

theorem length_extend (e : Ends) (a : HopAddr) (sessionKey : Bytes) :
    (e.extend expand a sessionKey).hops.length = e.hops.length + 1 := by simp [Ends.extend]

theorem Forward.extend (h : Forward expand addr ks log e) (hbuilt : e.built = false) :
    Forward expand addr ks log (e.extend expand (addr e.hops.length) (ks e.hops.length)) := by
  have hto : ∀ i, (e.extend expand (addr e.hops.length) (ks e.hops.length)).sentTo i = e.sentTo i := fun _ => rfl
  refine ⟨fun i hop hget => ?_, h.relay, fun x hx => ?_, fun x hx hk => ?_, h.counted, h.length, h.small,
    fun hop hget => ?_, fun hsmall i hop hget => ?_, h.layers, h.opened, h.headers, h.unpadded⟩
  · rcases getElem?_extend hget with hget | ⟨rfl, rfl⟩
    · exact h.hop i hop hget
    · exact ⟨rfl, rfl⟩
  · have hx' := h.range x hx
    rw [length_extend]
    omega
  · simp [(h.stream x hx hk).1] at hbuilt
  · rcases getElem?_extend hget with hget | ⟨hi, rfl⟩
    · exact h.guard hop hget
    · rw [hto, h.sentTo_eq_nil hi.ge]
      rfl
  · rcases getElem?_extend hget with hget | ⟨hi, rfl⟩
    · exact h.inner hsmall i hop hget
    · rw [hto, h.sentTo_eq_nil hi.ge]
      rfl

/-! ### Sending -/

theorem getElem?_of_alike {hops hops' : List CircuitHop} (h : List.Forall₂ Alike hops hops') {hop' : CircuitHop}
    (hget : hops'[i]? = some hop') : ∃ hop, hops[i]? = some hop ∧ Alike hop hop' := by
  induction h generalizing i with
  | nil => simp at hget
  | cons hab _ ih =>
    cases i with
    | zero =>
      cases hget
      exact ⟨_, rfl, hab⟩
    | succ i => exact ih hget

def Ends.sentOne (e : Ends) (kind : CellKind) (command data : Bytes) : Ends :=
  { e with
    hops := e.hops.map CircuitHop.sealedOne
    sent := e.sent ++ [⟨kind, e.hops.length, command⟩]
    out := Function.update e.out 0 (e.out 0 ++ [(kind, data)]) }

theorem sentTo_sentOne (e : Ends) (kind : CellKind) (command data : Bytes) (i : Nat) :
    (e.sentOne kind command data).sentTo i =
      e.sentTo i ++ if i < e.hops.length then [⟨kind, e.hops.length, command⟩] else [] := by
  unfold Ends.sentTo Ends.sentOne
  rw [List.filter_append]
  congr 1
  by_cases hi : i < e.hops.length
  · simp [hi]
  · simp [hi]

theorem Forward.send_cases (h : Forward expand addr ks log e) (encrypt : Bytes → Bytes → Bytes → Bytes)
    (kind : CellKind) (command : Bytes) :
    (∃ hops, e.send encrypt kind command = ({ e with hops }, []) ∧ List.Forall₂ Alike e.hops hops ∧
        (hops = e.hops ∨ hops[0]? = e.hops[0]? ∧ (e.sentTo 0).length = U64_MAX)) ∨
      ∃ body cells, padCell command = .ok body ∧ e.hops ≠ [] ∧ (kind = .stream → e.built = true) ∧
        (e.sentTo 0).length ≠ U64_MAX ∧ cells.length = e.hops.length ∧
        e.send encrypt kind command =
          (e.sentOne kind command ((cells.head?.map (·.ciphertext)).getD body), cells) ∧
        ∀ i hop cell, e.hops[i]? = some hop → cells[i]? = some cell →
          cell.key = hop.layer.forward.key ∧ cell.nonce = hop.layer.forward.nonce ∧
          cell.plaintext = plain kind ((e.hops[i + 1]?).map CircuitHop.addr)
            (((cells[i + 1]?).map (·.ciphertext)).getD body) := by
  have hsame : ∀ hops : List CircuitHop, List.Forall₂ Alike hops hops := fun hops =>
    List.forall₂_same.2 fun _ _ => ⟨rfl, rfl, rfl⟩
  by_cases hmay : e.hops = [] ∨ kind = .stream ∧ e.built = false
  · exact Or.inl ⟨e.hops, if_pos hmay, hsame _, Or.inl rfl⟩
  · unfold Ends.send
    rw [if_neg hmay]
    rw [wrapAs_eq]
    simp only [wrapCommand]
    cases hpad : padCell command with
    | error m => exact Or.inl ⟨e.hops, rfl, hsame _, Or.inl rfl⟩
    | ok body =>
      obtain ⟨hne, hkind⟩ := not_or.1 hmay
      obtain ⟨hop, rest, hcons⟩ := List.exists_cons_of_ne_nil hne
      by_cases hlast : (e.sentTo 0).length = U64_MAX
      · have hnext : hop.layer.forward.next = U64_MAX := by rw [h.guard hop (by rw [hcons]; rfl), hlast]
        have halike := wrapLayers_alike encrypt kind e.hops body
        obtain ⟨m, rest', hwrap⟩ := wrapLayers_exhausted encrypt kind rest body hnext
        rw [hcons, hwrap] at halike
        left
        refine ⟨hop :: rest', ?_, hcons ▸ halike, Or.inr ⟨by rw [hcons]; rfl, hlast⟩⟩
        simp only [hcons, hwrap]
      · have hnext : ∀ hop ∈ e.hops, hop.layer.forward.next ≠ U64_MAX := by
          intro hop' hmem
          obtain ⟨j, hj⟩ := List.mem_iff_getElem?.1 hmem
          have hle := e.length_sentTo_le j
          have hsmall := h.small
          rw [h.inner hlast j hop' hj]
          omega
        obtain ⟨cells, hwrap, hlen, hcells⟩ := wrapLayers_ok encrypt kind body hnext
        refine Or.inr ⟨body, cells, rfl, hne, fun hk => ?_, hlast, hlen, ?_, hcells⟩
        · by_contra hb
          exact hkind ⟨hk, by simpa using hb⟩
        · simp only [hwrap]
          rfl

theorem forwardCells_append (hks : DistinctKeys expand ks) (h : Forward expand addr ks log e)
    {cells : List SealedCell} (hlen : cells.length = e.hops.length)
    (hcells : ∀ (i : Nat) (hop : CircuitHop) (cell : SealedCell), e.hops[i]? = some hop → cells[i]? = some cell →
      cell.key = hop.layer.forward.key) (i : Nat) :
    forwardCells expand ks (log ++ cells) i = forwardCells expand ks log i ++ cells[i]?.toList := by
  have hkey : ∀ (j : Nat) (cell : SealedCell), cells[j]? = some cell → cell.key = expand (ks j) FORWARD_LABEL := by
    intro j cell hj
    have hlt : j < e.hops.length := hlen ▸ (List.getElem?_eq_some_iff.1 hj).1
    rw [hcells j _ cell (List.getElem?_eq_getElem hlt) hj]
    exact (h.hop j _ (List.getElem?_eq_getElem hlt)).2
  unfold forwardCells
  rw [under_append]
  congr 1
  cases hi : cells[i]? with
  | none =>
    refine under_eq_nil fun cell hcell heq => ?_
    obtain ⟨j, hj⟩ := List.mem_iff_getElem?.1 hcell
    obtain rfl := (hks j i FORWARD_LABEL (by simp) FORWARD_LABEL (by simp) ((hkey j cell hj).symm.trans heq)).1
    simp [hi] at hj
  | some cell =>
    refine under_eq_singleton hi (hkey i cell hi) fun j cell' hj heq => ?_
    exact (hks j i FORWARD_LABEL (by simp) FORWARD_LABEL (by simp) ((hkey j cell' hj).symm.trans heq)).1

theorem Forward.sendOne (hks : DistinctKeys expand ks) (h : Forward expand addr ks log e) {kind : CellKind}
    {command body data : Bytes} {cells : List SealedCell} (hpad : padCell command = .ok body) (hne : e.hops ≠ [])
    (hkind : kind = .stream → e.built = true) (hroom : (e.sentTo 0).length ≠ U64_MAX)
    (hlen : cells.length = e.hops.length)
    (hcells : ∀ (i : Nat) (hop : CircuitHop) (cell : SealedCell), e.hops[i]? = some hop → cells[i]? = some cell →
      cell.key = hop.layer.forward.key ∧ cell.nonce = hop.layer.forward.nonce ∧
      cell.plaintext = plain kind ((e.hops[i + 1]?).map CircuitHop.addr)
        (((cells[i + 1]?).map (·.ciphertext)).getD body)) :
    Forward expand addr ks (log ++ cells) (e.sentOne kind command data) := by
  have hF := forwardCells_append hks h hlen fun i hop cell hget hi => (hcells i hop cell hget hi).1
  have hto := sentTo_sentOne e kind command data
  have hpos : 0 < e.hops.length := List.length_pos_of_ne_nil hne
  generalize hx : (⟨kind, e.hops.length, command⟩ : Sent) = x at hto
  have hxhops : x.hops = e.hops.length := by rw [← hx]
  have hsent : (e.sentOne kind command data).sent = e.sent ++ [x] := by rw [← hx]; rfl
  have hlength : (e.sentOne kind command data).hops.length = e.hops.length := by simp [Ends.sentOne]
  have hhops : ∀ (i : Nat) (hop' : CircuitHop), (e.sentOne kind command data).hops[i]? = some hop' →
      i < e.hops.length ∧ ∃ hop : CircuitHop, e.hops[i]? = some hop ∧ hop' = hop.sealedOne := by
    intro i hop' hget
    rw [Ends.sentOne, List.getElem?_map] at hget
    obtain ⟨hop, hget', rfl⟩ := Option.map_eq_some_iff.1 hget
    exact ⟨(List.getElem?_eq_some_iff.1 hget').1, hop, hget', rfl⟩
  have htake : ∀ i n, n ≤ (e.sentTo i).length →
      ((e.sentOne kind command data).sentTo i).take n = (e.sentTo i).take n := by
    intro i n hn
    rw [hto, List.take_append_of_le_length hn]
  refine ⟨fun i hop' hget => ?_, h.relay, fun y hy => ?_, fun y hy hk => ?_, fun i => ?_, fun i => ?_, ?_,
    fun hop' hget => ?_, fun _ i hop' hget => ?_, fun i k y cell hy hcell => ?_, fun i => ?_, fun i => ?_,
    fun i => ?_⟩
  · obtain ⟨-, hop, hget', rfl⟩ := hhops i hop' hget
    exact h.hop i hop hget'
  · rw [hlength]
    rcases List.mem_append.1 (hsent ▸ hy) with hy | hy
    · exact h.range y hy
    · obtain rfl := List.mem_singleton.1 hy
      omega
  · rw [hlength]
    rcases List.mem_append.1 (hsent ▸ hy) with hy | hy
    · exact h.stream y hy hk
    · obtain rfl := List.mem_singleton.1 hy
      rw [← hx] at hk
      exact ⟨hkind hk, hxhops⟩
  · cases hi : cells[i]? with
    | none =>
      have hFi := hF i
      rw [hi] at hFi
      exact (h.counted i).congr (hFi.trans (List.append_nil _))
    | some cell =>
      have hlt : i < e.hops.length := hlen ▸ (List.getElem?_eq_some_iff.1 hi).1
      obtain ⟨-, hnonce, -⟩ := hcells i _ cell (List.getElem?_eq_getElem hlt) hi
      have hFi := hF i
      rw [hi] at hFi
      refine (h.counted i).seal hFi ?_
      have hlenF := h.length i
      unfold forwardCells at hlenF
      rw [hnonce, Direction.nonce, h.inner hroom i _ (List.getElem?_eq_getElem hlt), hlenF]
  · rw [hF, hto, List.length_append, List.length_append, h.length]
    by_cases hi : i < e.hops.length
    · rw [if_pos hi, List.getElem?_eq_getElem (hlen ▸ hi)]
      rfl
    · rw [if_neg hi, List.getElem?_eq_none (by omega)]
      rfl
  · have hsmall := h.small
    rw [hto, if_pos hpos, List.length_append, List.length_singleton]
    omega
  · obtain ⟨-, hop, hget', rfl⟩ := hhops 0 hop' hget
    rw [hto, if_pos hpos, List.length_append, ← h.guard hop hget']
    rfl
  · obtain ⟨hi, hop, hget', rfl⟩ := hhops i hop' hget
    rw [hto, if_pos hi, List.length_append, ← h.inner hroom i hop hget']
    rfl
  · by_cases hk : k < (e.sentTo i).length
    · rw [hto, List.getElem?_append_left hk] at hy
      rw [hF, List.getElem?_append_left (h.length i ▸ hk)] at hcell
      obtain ⟨inner, hplain, hlast, hnext⟩ := h.layers i k y cell hy hcell
      refine ⟨inner, hplain, hlast, fun hy' => ?_⟩
      obtain ⟨cell', hinner, hcell'⟩ := hnext hy'
      refine ⟨cell', hinner, ?_⟩
      rw [htake i k hk.le, hF, List.getElem?_append_left (List.getElem?_eq_some_iff.1 hcell').1]
      exact hcell'
    · rw [hto, List.getElem?_append_right (Nat.le_of_not_lt hk)] at hy
      rw [hF, List.getElem?_append_right (by rw [h.length]; omega), h.length] at hcell
      have hi : i < e.hops.length := by
        by_contra hi
        simp [hi] at hy
      obtain ⟨hk', rfl⟩ : k = (e.sentTo i).length ∧ y = x := by
        rw [if_pos hi] at hy
        obtain ⟨hlt, rfl⟩ := List.getElem?_eq_some_iff.1 hy
        rw [List.length_singleton] at hlt
        exact ⟨by omega, by simp⟩
      have hcelli : cells[i]? = some cell := by
        rw [hk', Nat.sub_self] at hcell
        cases hc : cells[i]? with
        | none => simp [hc] at hcell
        | some c => simpa [hc] using hcell
      obtain ⟨-, -, hplain⟩ := hcells i _ cell (List.getElem?_eq_getElem hi) hcelli
      refine ⟨((cells[i + 1]?).map (·.ciphertext)).getD body, hplain.trans ?_, fun hy' => ?_, fun hy' => ?_⟩
      · rw [← hx]
        congr 1
        unfold nextOf
        by_cases hlast : e.hops.length = i + 1
        · rw [if_pos hlast, List.getElem?_eq_none hlast.le]
          rfl
        · have hi' : i + 1 < e.hops.length := by omega
          rw [if_neg hlast, List.getElem?_eq_getElem hi']
          exact congrArg some (h.hop (i + 1) _ (List.getElem?_eq_getElem hi')).1
      · have hnone : cells[i + 1]? = none := List.getElem?_eq_none (by omega)
        rw [hnone, ← hx]
        exact hpad
      · have hi' : i + 1 < cells.length := by omega
        refine ⟨cells[i + 1], by rw [List.getElem?_eq_getElem hi']; rfl, ?_⟩
        have hcount : ((e.sentTo i).countP fun z => decide (i + 1 < z.hops)) =
            (forwardCells expand ks log (i + 1)).length := by
          rw [h.length, Ends.sentTo_succ, List.countP_eq_length_filter]
        rw [htake i k hk'.le, hk', List.take_length, hF, hcount, List.getElem?_append_right (Nat.le_refl _),
          Nat.sub_self, List.getElem?_eq_getElem hi']
        rfl
  · rw [hto, List.length_append]
    exact (h.opened i).trans (Nat.le_add_right _ _)
  · rw [show (e.sentOne kind command data).relays = e.relays from rfl, htake i _ (h.opened i)]
    exact h.headers i
  · rw [show (e.sentOne kind command data).relays = e.relays from rfl, htake i _ (h.opened i)]
    exact h.unpadded i

theorem Forward.send (hks : DistinctKeys expand ks) (h : Forward expand addr ks log e) (kind : CellKind)
    (command : Bytes) :
    Forward expand addr ks (log ++ (e.send encrypt kind command).2) (e.send encrypt kind command).1 := by
  rcases h.send_cases encrypt kind command with
    ⟨hops, hsend, halike, hcount⟩ | ⟨body, cells, hpad, hne, hkind, hroom, hlen, hsend, hcells⟩
  · rw [hsend]
    have hlength : hops.length = e.hops.length := halike.length_eq.symm
    refine ⟨fun i hop' hget => ?_, h.relay, fun x hx => ?_, fun x hx hk => ?_, fun i => ?_, fun i => ?_, h.small,
      fun hop hget => ?_, fun hsmall i hop hget => ?_, fun i k x cell hx hcell => ?_, h.opened, h.headers, h.unpadded⟩
    · obtain ⟨hop, hget', haddr, hkey, -⟩ := getElem?_of_alike halike hget
      rw [haddr, hkey]
      exact h.hop i hop hget'
    · exact hlength ▸ h.range x hx
    · exact hlength ▸ h.stream x hx hk
    · rw [List.append_nil]
      exact h.counted i
    · rw [List.append_nil]
      exact h.length i
    · rcases hcount with rfl | ⟨hfirst, -⟩
      · exact h.guard hop hget
      · exact h.guard hop (hfirst ▸ hget)
    · rcases hcount with rfl | ⟨-, hlast⟩
      · exact h.inner hsmall i hop hget
      · exact absurd hlast hsmall
    · rw [List.append_nil] at hcell ⊢
      exact h.layers i k x cell hx hcell
  · rw [hsend]
    exact h.sendOne hks hpad hne hkind hroom hlen hcells

/-! ### Opening -/

def Ends.asSealed (log : List SealedCell) (e : Ends) (i : Nat) (kind : CellKind) (data : Bytes) : Bool :=
  match (e.sentTo i)[(e.relays i).forward.next]?, (under log (e.relays i).forward.key)[(e.relays i).forward.next]? with
  | some x, some cell => cell.ciphertext ≠ data || x.kind = kind
  | _, _ => true

/-- The hop after its next cell has opened. -/
def Ends.openedOne (addr : Nat → HopAddr) (e : Ends) (i : Nat) (x : Sent) (inner : Bytes) : Ends :=
  { e with
    relays := Function.update e.relays i (e.relays i).movedForward
    headers :=
      if x.kind = .control then Function.update e.headers i (e.headers i ++ [carriedNext addr i x]) else e.headers
    unpadded := if x.hops = i + 1 then Function.update e.unpadded i (e.unpadded i ++ [x.command]) else e.unpadded
    out := if x.hops = i + 1 then e.out else Function.update e.out (i + 1) (e.out (i + 1) ++ [(x.kind, inner)]) }

theorem Forward.nextForward_iff (h : Forward expand addr ks log e) {data p : Bytes} :
    (e.relays i).nextForward log data = some p ↔
      ∃ cell, (forwardCells expand ks log i)[(e.relays i).forward.next]? = some cell ∧ cell.ciphertext = data ∧
        cell.plaintext = p := by
  have hlen := h.length i
  have hle := e.length_sentTo_le i
  have hsmall := h.small
  have hopened := h.opened i
  unfold forwardCells at hlen ⊢
  unfold LayerCipher.nextForward Direction.nonce
  rw [h.relay i]
  refine opened_iff (h.counted i) fun j hj heq => nonceOf_inj ?_ ?_ heq
  · unfold U64_MAX at hsmall
    omega
  · unfold U64_MAX at hsmall
    omega

theorem Forward.handle_cases (h : Forward expand addr ks log e) (hi : i < e.hops.length) {kind : CellKind}
    {data : Bytes} (hkind : e.asSealed log i kind data = true) :
    ((e.relays i).nextForward log data = none ∧ ∃ m, e.handle log i kind data = (.error m, e)) ∨
      ∃ x cell inner, (e.sentTo i)[(e.relays i).forward.next]? = some x ∧
        (forwardCells expand ks log i)[(e.relays i).forward.next]? = some cell ∧ cell.ciphertext = data ∧
        (i + 1 < x.hops → ∃ cell', inner = cell'.ciphertext ∧ (forwardCells expand ks log (i + 1))[
          ((e.sentTo i).take (e.relays i).forward.next).countP fun y => i + 1 < y.hops]? = some cell') ∧
        e.handle log i kind data = (.ok (), e.openedOne addr i x inner) := by
  cases hopen : (e.relays i).nextForward log data with
  | none =>
    have hsame : e.setRelay i (e.relays i) = e := by
      unfold Ends.setRelay
      rw [Function.update_eq_self]
    refine Or.inl ⟨rfl, Direction.notNext, ?_⟩
    cases kind with
    | control => simp only [Ends.handle, LayerCipher.openForwardCell_of_none hopen, hsame]
    | stream => simp only [Ends.handle, LayerCipher.openForward_of_none hopen, hsame]
  | some p =>
    obtain ⟨cell, hcell, hdata, hp⟩ := h.nextForward_iff.1 hopen
    have hlt : (e.relays i).forward.next < (e.sentTo i).length := by
      rw [← h.length i]
      exact (List.getElem?_eq_some_iff.1 hcell).1
    obtain ⟨x, hx⟩ : ∃ x, (e.sentTo i)[(e.relays i).forward.next]? = some x := ⟨_, List.getElem?_eq_getElem hlt⟩
    obtain ⟨inner, hplain, hlast, hnext⟩ := h.layers i _ x cell hx hcell
    refine Or.inr ⟨x, cell, inner, hx, hcell, hdata, hnext, ?_⟩
    obtain rfl : x.kind = kind := by
      have hcell' : (under log (e.relays i).forward.key)[(e.relays i).forward.next]? = some cell := by
        rw [h.relay i]
        exact hcell
      unfold Ends.asSealed at hkind
      rw [hx, hcell'] at hkind
      simpa [hdata] using hkind
    have hmem := List.mem_filter.1 (List.mem_of_getElem? hx)
    have hbeyond : i < x.hops := by simpa using hmem.2
    rw [hplain] at hp
    unfold Ends.openedOne carriedNext
    cases hk : x.kind with
    | control =>
      rw [hk] at hp
      have hread : unframe p = .ok (⟨(nextOf addr i x).map fun a => carried a.val⟩, inner) := by
        rw [← hp]
        exact unframe_frame _ _
      simp only [Ends.handle, LayerCipher.openForwardCell_of_some hopen, hread]
      by_cases hend : x.hops = i + 1
      · simp only [nextOf, if_pos hend, Option.map_none, Ends.unpadAt, unpad_pad (hlast hend)]
        rfl
      · simp only [nextOf, if_neg hend, Option.map_some]
        rfl
    | stream =>
      rw [hk] at hp
      obtain rfl : inner = p := hp
      have hall := (h.stream x hmem.1 hk).2
      simp only [Ends.handle, LayerCipher.openForward_of_some hopen]
      by_cases hend : x.hops = i + 1
      · have hnot : ¬ i + 1 < (e.setRelay i (e.relays i).movedForward).hops.length := by
          show ¬ i + 1 < e.hops.length
          omega
        simp only [if_neg hnot, if_pos hend, Ends.unpadAt, unpad_pad (hlast hend)]
        rfl
      · have hmore : i + 1 < (e.setRelay i (e.relays i).movedForward).hops.length := by
          show i + 1 < e.hops.length
          omega
        simp only [if_pos hmore, if_neg hend]
        rfl

theorem Forward.movedForward_next (h : Forward expand addr ks log e)
    (hlt : (e.relays i).forward.next < (e.sentTo i).length) :
    (e.relays i).movedForward.forward.next = (e.relays i).forward.next + 1 := by
  have hle := e.length_sentTo_le i
  have hsmall := h.small
  unfold U64_MAX at hsmall
  exact Nat.mod_eq_of_lt (by omega)

theorem relays_openedOne (addr : Nat → HopAddr) (e : Ends) (i : Nat) (x : Sent) (inner : Bytes) (j : Nat) :
    (e.openedOne addr i x inner).relays j = if j = i then (e.relays i).movedForward else e.relays j := by
  by_cases hj : j = i
  · subst hj
    simp [Ends.openedOne]
  · simp [Ends.openedOne, hj]

theorem Forward.openedOne (h : Forward expand addr ks log e) {x : Sent}
    (hx : (e.sentTo i)[(e.relays i).forward.next]? = some x) (inner : Bytes) :
    Forward expand addr ks log (e.openedOne addr i x inner) := by
  have hlt : (e.relays i).forward.next < (e.sentTo i).length := (List.getElem?_eq_some_iff.1 hx).1
  have hmoved := h.movedForward_next hlt
  have hrelays := relays_openedOne addr e i x inner
  have htake : (e.sentTo i).take ((e.relays i).forward.next + 1) = (e.sentTo i).take (e.relays i).forward.next ++ [x] := by
    rw [List.take_add_one, hx]
    rfl
  refine ⟨h.hop, fun j => ?_, h.range, h.stream, h.counted, h.length, h.small, h.guard, h.inner, h.layers, fun j => ?_,
    fun j => ?_, fun j => ?_⟩
  · rw [hrelays]
    split
    · rename_i hj
      exact hj ▸ h.relay i
    · exact h.relay j
  · rw [hrelays]
    split
    · rename_i hj
      rw [hmoved, hj]
      exact hlt
    · exact h.opened j
  · rw [hrelays]
    by_cases hj : j = i
    · subst hj
      rw [if_pos rfl, hmoved]
      show _ = (((e.sentTo j).take _).filter _).map _
      rw [htake, List.filter_append, List.map_append, ← h.headers j]
      by_cases hk : x.kind = .control
      · simp [Ends.openedOne, hk]
      · simp [Ends.openedOne, hk]
    · rw [if_neg hj, show (e.openedOne addr i x inner).sentTo j = e.sentTo j from rfl, ← h.headers j]
      by_cases hk : x.kind = .control
      · simp [Ends.openedOne, hk, hj]
      · simp [Ends.openedOne, hk]
  · rw [hrelays]
    by_cases hj : j = i
    · subst hj
      rw [if_pos rfl, hmoved]
      show _ = (((e.sentTo j).take _).filter _).map _
      rw [htake, List.filter_append, List.map_append, ← h.unpadded j]
      by_cases hend : x.hops = j + 1
      · simp [Ends.openedOne, hend]
      · simp [Ends.openedOne, hend]
    · rw [if_neg hj, show (e.openedOne addr i x inner).sentTo j = e.sentTo j from rfl, ← h.unpadded j]
      by_cases hend : x.hops = i + 1
      · simp [Ends.openedOne, hend, hj]
      · simp [Ends.openedOne, hend]

end HidraNet.Onion
