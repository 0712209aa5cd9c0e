import HidraNet.Onion.Layer

/-!
# The client's circuit

The client wraps a command for every hop of its circuit, innermost for the last, and opens an answer through every hop,
outermost first.  A control cell tells each hop the address of the next one; a stream cell has no headers.
-/

namespace HidraNet.Onion

open HidraNet.Core (Bytes)

structure CircuitHop where
  addr : HopAddr
  layer : LayerCipher
deriving DecidableEq

inductive CellKind where
  | control
  | stream
deriving DecidableEq

namespace CircuitHop

def sealedOne (hop : CircuitHop) : CircuitHop :=
  { hop with layer := { hop.layer with forward := { hop.layer.forward with next := hop.layer.forward.next + 1 } } }

def openedOne (hop : CircuitHop) : CircuitHop := { hop with layer := hop.layer.movedBackward }

end CircuitHop

/-! ### Wrapping -/

section Wrapping

variable (encrypt : Bytes → Bytes → Bytes → Bytes)

def sealLayer (kind : CellKind) (layer : LayerCipher) (next : Option HopAddr) (inner : Bytes) :
    Except String (SealedCell × LayerCipher) :=
  match kind with
  | .control => layer.sealForwardCell encrypt ⟨next.map Subtype.val⟩ inner
  | .stream => layer.sealForward encrypt inner

/-- The layers around a body, from the last hop's on: the cell, what was sealed, and the hops, which have counted it. -/
def wrapLayers (kind : CellKind) : List CircuitHop → Bytes → Except String (Bytes × List SealedCell) × List CircuitHop
  | [], body => (.ok (body, []), [])
  | hop :: rest, body =>
    match wrapLayers kind rest body with
    | (.error e, rest) => (.error e, hop :: rest)
    | (.ok (inner, cells), rest') =>
      match sealLayer encrypt kind hop.layer (rest.head?.map CircuitHop.addr) inner with
      | .error e => (.error e, hop :: rest')
      | .ok (cell, layer) => (.ok (cell.ciphertext, cell :: cells), { hop with layer } :: rest')

def wrapCommand (kind : CellKind) (hops : List CircuitHop) (command : Bytes) :
    Except String (Bytes × List SealedCell) × List CircuitHop :=
  match padCell command with
  | .error e => (.error e, hops)
  | .ok body => wrapLayers encrypt kind hops body

def buildOnion (hops : List CircuitHop) (payload : Bytes) :
    Except String (Bytes × List SealedCell) × List CircuitHop := wrapCommand encrypt .control hops payload

def wrapAllStreamLayers (hops : List CircuitHop) (data : Bytes) :
    Except String (Bytes × List SealedCell) × List CircuitHop := wrapCommand encrypt .stream hops data

def wrapAs (kind : CellKind) : List CircuitHop → Bytes → Except String (Bytes × List SealedCell) × List CircuitHop :=
  match kind with
  | .control => buildOnion encrypt
  | .stream => wrapAllStreamLayers encrypt

def plain (kind : CellKind) (next : Option HopAddr) (inner : Bytes) : Bytes :=
  match kind with
  | .control => frame ⟨next.map Subtype.val⟩ inner
  | .stream => inner

variable (kind : CellKind) {hops : List CircuitHop} {hop : CircuitHop}

theorem wrapAs_eq : wrapAs encrypt kind = wrapCommand encrypt kind := by
  cases kind with
  | control => rfl
  | stream => rfl

theorem sealLayer_eq (layer : LayerCipher) (next : Option HopAddr) (inner : Bytes) :
    sealLayer encrypt kind layer next inner = layer.sealForward encrypt (plain kind next inner) := by
  cases kind with
  | control => rfl
  | stream => rfl

theorem wrapLayers_ok (body : Bytes) (h : ∀ hop ∈ hops, hop.layer.forward.next ≠ U64_MAX) :
    ∃ cells, wrapLayers encrypt kind hops body =
        (.ok ((cells.head?.map (·.ciphertext)).getD body, cells), hops.map CircuitHop.sealedOne) ∧
      cells.length = hops.length ∧
      ∀ i hop cell, hops[i]? = some hop → cells[i]? = some cell →
        cell.key = hop.layer.forward.key ∧ cell.nonce = hop.layer.forward.nonce ∧
        cell.plaintext = plain kind ((hops[i + 1]?).map CircuitHop.addr)
          (((cells[i + 1]?).map (·.ciphertext)).getD body) := by
  induction hops with
  | nil => exact ⟨[], rfl, rfl, fun i hop cell hh => by simp at hh⟩
  | cons hop rest ih =>
    obtain ⟨cells, hwrap, hlen, hcells⟩ := ih fun hop' h' => h hop' (List.mem_cons_of_mem _ h')
    have hnext := h hop List.mem_cons_self
    generalize hinner : (cells.head?.map (·.ciphertext)).getD body = inner at hwrap
    simp only [wrapLayers, hwrap, sealLayer_eq, LayerCipher.sealForward_of_ne hnext]
    refine ⟨hop.layer.forward.cell encrypt (plain kind (rest.head?.map CircuitHop.addr) inner) :: cells, rfl,
      by simp [hlen], fun i hop' cell hh hc => ?_⟩
    cases i with
    | zero =>
      cases hh
      cases hc
      refine ⟨rfl, rfl, ?_⟩
      simp only [Direction.cell, Nat.zero_add, List.getElem?_cons_succ, ← List.head?_eq_getElem?, hinner]
    | succ i => exact hcells i hop' cell (by simpa using hh) (by simpa using hc)

def Alike (a b : CircuitHop) : Prop :=
  b.addr = a.addr ∧ b.layer.forward.key = a.layer.forward.key ∧ b.layer.backward = a.layer.backward

theorem wrapLayers_alike (hops : List CircuitHop) (body : Bytes) :
    List.Forall₂ Alike hops (wrapLayers encrypt kind hops body).2 := by
  induction hops with
  | nil => exact List.Forall₂.nil
  | cons hop rest ih =>
    simp only [wrapLayers]
    split
    · rename_i h
      rw [h] at ih
      exact List.Forall₂.cons ⟨rfl, rfl, rfl⟩ ih
    · rename_i inner cells rest' h
      rw [h] at ih
      split
      · exact List.Forall₂.cons ⟨rfl, rfl, rfl⟩ ih
      · rename_i cell layer hseal
        refine List.Forall₂.cons ?_ ih
        rw [sealLayer_eq] at hseal
        by_cases hlast : hop.layer.forward.next = U64_MAX
        · simp [LayerCipher.sealForward_of_eq hlast] at hseal
        · rw [LayerCipher.sealForward_of_ne hlast] at hseal
          cases hseal
          exact ⟨rfl, rfl, rfl⟩

theorem wrapLayers_exhausted (rest : List CircuitHop) (body : Bytes) (h : hop.layer.forward.next = U64_MAX) :
    ∃ e rest', wrapLayers encrypt kind (hop :: rest) body = (.error e, hop :: rest') := by
  simp only [wrapLayers]
  split
  · exact ⟨_, _, rfl⟩
  · rw [sealLayer_eq, LayerCipher.sealForward_of_eq h]
    exact ⟨_, _, rfl⟩

end Wrapping

/-! ### Peeling -/

section Peeling

variable (log : List SealedCell)

/-- An answer opened through every hop, outermost first. -/
def peelLayers : List CircuitHop → Bytes → Except String Bytes × List CircuitHop
  | [], data => (.ok data, [])
  | hop :: rest, data =>
    match hop.layer.openBackward log data with
    | (.error e, layer) => (.error e, { hop with layer } :: rest)
    | (.ok data, layer) =>
      let (result, rest) := peelLayers rest data
      (result, { hop with layer } :: rest)

def peelCommand (hops : List CircuitHop) (data : Bytes) : Except String Bytes × List CircuitHop :=
  let (result, hops) := peelLayers log hops data
  (result.bind unpadCell, hops)

def peelResponseLayers (hops : List CircuitHop) (data : Bytes) : Except String Bytes × List CircuitHop :=
  peelCommand log hops data

variable {log} {hops rest : List CircuitHop} {hop last : CircuitHop} {data p : Bytes}

theorem peelLayers_cons_of_none (h : hop.layer.nextBackward log data = none) :
    peelLayers log (hop :: rest) data = (.error Direction.notNext, hop :: rest) := by
  simp only [peelLayers, LayerCipher.openBackward_of_none h]

theorem peelLayers_cons_of_some (h : hop.layer.nextBackward log data = some p) :
    peelLayers log (hop :: rest) data =
      ((peelLayers log rest p).1, hop.openedOne :: (peelLayers log rest p).2) := by
  simp only [peelLayers, LayerCipher.openBackward_of_some h]
  rfl

theorem length_peelLayers (hops : List CircuitHop) (data : Bytes) :
    (peelLayers log hops data).2.length = hops.length := by
  induction hops generalizing data with
  | nil => rfl
  | cons hop rest ih =>
    cases hopen : hop.layer.nextBackward log data with
    | none => rw [peelLayers_cons_of_none hopen]
    | some p =>
      rw [peelLayers_cons_of_some hopen, List.length_cons, List.length_cons, ih]

theorem peelLayers_hop (log : List SealedCell) (data : Bytes) {i : Nat} (h : hops[i]? = some hop) :
    (peelLayers log hops data).2[i]? = some hop ∨
      (peelLayers log hops data).2[i]? = some hop.openedOne ∧ ∃ d p, hop.layer.nextBackward log d = some p := by
  induction hops generalizing data i with
  | nil => simp at h
  | cons hop' rest ih =>
    cases hopen : hop'.layer.nextBackward log data with
    | none =>
      rw [peelLayers_cons_of_none hopen]
      exact Or.inl h
    | some p =>
      rw [peelLayers_cons_of_some hopen]
      cases i with
      | zero =>
        cases h
        exact Or.inr ⟨rfl, data, p, hopen⟩
      | succ i => exact ih p (by simpa using h)

theorem peelLayers_last (log : List SealedCell) (data : Bytes) {i : Nat} (hi : i + 1 = hops.length)
    (h : hops[i]? = some last) :
    ((∃ e, (peelLayers log hops data).1 = .error e) ∧ (peelLayers log hops data).2[i]? = some last) ∨
      ∃ d p, last.layer.nextBackward log d = some p ∧ (peelLayers log hops data).1 = .ok p ∧
        (peelLayers log hops data).2[i]? = some last.openedOne := by
  induction hops generalizing data i with
  | nil => simp at h
  | cons hop' rest ih =>
    cases hopen : hop'.layer.nextBackward log data with
    | none =>
      rw [peelLayers_cons_of_none hopen]
      exact Or.inl ⟨⟨_, rfl⟩, h⟩
    | some p =>
      rw [peelLayers_cons_of_some hopen]
      cases i with
      | zero =>
        cases h
        obtain rfl : rest = [] := List.length_eq_zero_iff.1 (by simpa using hi.symm)
        exact Or.inr ⟨data, p, hopen, rfl, rfl⟩
      | succ i => exact ih p (by simpa using hi) (by simpa using h)

theorem peelLayers_refused {m : String} (h : (peelLayers log hops data).1 = .error m) :
    ∃ i hop d, hops[i]? = some hop ∧ hop.layer.nextBackward log d = none ∧
      (peelLayers log hops data).2.drop i = hops.drop i := by
  induction hops generalizing data with
  | nil => simp [peelLayers] at h
  | cons hop rest ih =>
    cases hopen : hop.layer.nextBackward log data with
    | none =>
      rw [peelLayers_cons_of_none hopen]
      exact ⟨0, hop, data, rfl, hopen, rfl⟩
    | some p =>
      rw [peelLayers_cons_of_some hopen] at h ⊢
      obtain ⟨i, hop', d, hget, hnone, hdrop⟩ := ih h
      exact ⟨i + 1, hop', d, hget, hnone, hdrop⟩

theorem peelLayers_chain {d : Nat → Bytes}
    (h : ∀ i hop, hops[i]? = some hop → hop.layer.nextBackward log (d i) = some (d (i + 1))) :
    peelLayers log hops (d 0) = (.ok (d hops.length), hops.map CircuitHop.openedOne) := by
  induction hops generalizing d with
  | nil => rfl
  | cons hop rest ih =>
    have hrest := ih (d := fun i => d (i + 1)) fun i hop hh => h (i + 1) hop (by simpa using hh)
    rw [peelLayers_cons_of_some (h 0 hop rfl), hrest]
    rfl

end Peeling

end HidraNet.Onion
