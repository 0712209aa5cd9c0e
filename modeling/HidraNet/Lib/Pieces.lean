import Mathlib

/-!
# Data in pieces

`chunks n l` cuts a list into pieces of `n`, the last of which may be shorter.  Pieces go one by one through a step that
has a state and may fail (`runAll`), and come back through another (`readAll`), which may pass one over or stop.

Where the reading step undoes the sending one, and leaves the two states as they must be for the next (`Undoes`), what
is read is what was sent, as far as it was sent (`readAll_runAll`).
-/

namespace HidraNet.Pieces

variable {α β δ ε σ τ : Type*}

/-! ### Chunks -/

/-- The chunks of a list no longer than `fuel`. -/
def chunksFrom (n : Nat) : Nat → List α → List (List α)
  | 0, _ => []
  | _ + 1, [] => []
  | fuel + 1, a :: l => (a :: l).take n :: chunksFrom n fuel ((a :: l).drop n)

/-- `slice::chunks`. -/
def chunks (n : Nat) (l : List α) : List (List α) := chunksFrom n l.length l

@[simp] theorem chunks_nil (n : Nat) : chunks n ([] : List α) = [] := rfl

private theorem flatten_chunksFrom {n : Nat} (hn : 0 < n) (fuel : Nat) (l : List α) (hl : l.length ≤ fuel) :
    (chunksFrom n fuel l).flatten = l := by
  induction fuel generalizing l with
  | zero =>
    have hnil : l = [] := List.length_eq_zero_iff.1 (by omega)
    rw [hnil]
    rfl
  | succ fuel ih =>
    cases l with
    | nil => rfl
    | cons a l =>
      have hdrop : ((a :: l).drop n).length ≤ fuel := by
        rw [List.length_drop]
        simp only [List.length_cons] at hl ⊢
        omega
      rw [chunksFrom, List.flatten_cons, ih _ hdrop, List.take_append_drop]

theorem flatten_chunks {n : Nat} (hn : 0 < n) (l : List α) : (chunks n l).flatten = l :=
  flatten_chunksFrom hn l.length l (Nat.le_refl _)

private theorem of_mem_chunksFrom {n : Nat} (hn : 0 < n) (fuel : Nat) (l : List α) {piece : List α}
    (h : piece ∈ chunksFrom n fuel l) : piece ≠ [] ∧ piece.length ≤ n := by
  induction fuel generalizing l with
  | zero => simp [chunksFrom] at h
  | succ fuel ih =>
    cases l with
    | nil => simp [chunksFrom] at h
    | cons a l =>
      rw [chunksFrom, List.mem_cons] at h
      rcases h with rfl | h
      · refine ⟨?_, by rw [List.length_take]; omega⟩
        have hlen : 0 < ((a :: l).take n).length := by
          rw [List.length_take]
          simp only [List.length_cons]
          omega
        exact List.ne_nil_of_length_pos hlen
      · exact ih _ h

theorem ne_nil_of_mem_chunks {n : Nat} (hn : 0 < n) {l piece : List α} (h : piece ∈ chunks n l) : piece ≠ [] :=
  (of_mem_chunksFrom hn _ l h).1

theorem length_le_of_mem_chunks {n : Nat} (hn : 0 < n) {l piece : List α} (h : piece ∈ chunks n l) :
    piece.length ≤ n := (of_mem_chunksFrom hn _ l h).2

theorem chunks_eq_singleton {n : Nat} {l : List α} (hl : l ≠ []) (hn : l.length ≤ n) : chunks n l = [l] := by
  cases l with
  | nil => exact absurd rfl hl
  | cons a l =>
    have htake : (a :: l).take n = a :: l := List.take_of_length_le hn
    have hdrop : (a :: l).drop n = [] := List.drop_eq_nil_of_le hn
    unfold chunks
    rw [List.length_cons, chunksFrom, htake, hdrop]
    cases l.length with
    | zero => rfl
    | succ k => rfl

/-! ### Runs -/

/-- What a step makes of each, up to the first that fails. -/
def runAll (step : σ → α → Except ε β × σ) : σ → List α → (List β × Except ε Unit) × σ
  | s, [] => (([], .ok ()), s)
  | s, a :: as =>
    match step s a with
    | (.error e, s) => (([], .error e), s)
    | (.ok b, s) =>
      let ((bs, outcome), s) := runAll step s as
      ((b :: bs, outcome), s)

/-- What a reader does with one thing it has read. -/
inductive Turn (α : Type*) where
  | item (a : α)
  | skip
  | stop

/-- What is read of each, up to the first that fails or ends it. -/
def readAll (step : τ → β → Except ε δ × τ) (view : δ → Turn α) : τ → List β → (List α × Except ε Unit) × τ
  | t, [] => (([], .ok ()), t)
  | t, b :: bs =>
    match step t b with
    | (.error e, t) => (([], .error e), t)
    | (.ok d, t) =>
      match view d with
      | .item a =>
        let ((as, outcome), t) := readAll step view t bs
        ((a :: as, outcome), t)
      | .skip => readAll step view t bs
      | .stop => (([], .ok ()), t)

variable {send : σ → α → Except ε β × σ} {recv : τ → β → Except ε δ × τ} {f : α → δ} {view : δ → Turn α}
  {sync : σ → τ → Prop} {s s' : σ} {t t' : τ} {a : α} {b : β} {as : List α} {bs : List β} {outcome : Except ε Unit}

theorem runAll_cons_error {e : ε} (h : send s a = (.error e, s')) : runAll send s (a :: as) = (([], .error e), s') := by
  rw [runAll, h]

theorem runAll_cons_ok (h : send s a = (.ok b, s')) :
    runAll send s (a :: as) = ((b :: (runAll send s' as).1.1, (runAll send s' as).1.2), (runAll send s' as).2) := by
  rw [runAll, h]

theorem readAll_cons_item {d : δ} (h : recv t b = (.ok d, t')) (hview : view d = .item a) :
    readAll recv view t (b :: bs) =
      ((a :: (readAll recv view t' bs).1.1, (readAll recv view t' bs).1.2), (readAll recv view t' bs).2) := by
  rw [readAll, h]
  simp only [hview]

def Undoes (send : σ → α → Except ε β × σ) (recv : τ → β → Except ε δ × τ) (f : α → δ) (sync : σ → τ → Prop) : Prop :=
  ∀ s t a b s', sync s t → send s a = (.ok b, s') → ∃ t', recv t b = (.ok (f a), t') ∧ sync s' t'

/-- As much is read as was sent. -/
theorem readAll_runAll (h : Undoes send recv f sync) (hview : ∀ a, view (f a) = .item a) (hsync : sync s t)
    (hrun : runAll send s as = ((bs, outcome), s')) :
    (readAll recv view t bs).1 = (as.take bs.length, .ok ()) ∧ (outcome = .ok () → bs.length = as.length) := by
  induction as generalizing s t bs with
  | nil =>
    cases hrun
    exact ⟨rfl, fun _ => rfl⟩
  | cons a as ih =>
    rcases hstep : send s a with ⟨result, s₁⟩
    cases result with
    | error e =>
      rw [runAll_cons_error hstep] at hrun
      cases hrun
      exact ⟨rfl, fun hout => by cases hout⟩
    | ok b =>
      obtain ⟨t₁, hrecv, hsync₁⟩ := h s t a b s₁ hsync hstep
      rw [runAll_cons_ok hstep] at hrun
      rcases hrest : runAll send s₁ as with ⟨⟨bs₁, outcome₁⟩, s₂⟩
      rw [hrest] at hrun
      cases hrun
      obtain ⟨hread, hlen⟩ := ih hsync₁ hrest
      rw [readAll_cons_item hrecv (hview a), hread]
      refine ⟨rfl, fun hout => ?_⟩
      rw [List.length_cons, List.length_cons, hlen hout]

theorem runAll_ok (ready : Nat → σ → Prop) (good : α → Prop)
    (h : ∀ n s a, good a → ready (n + 1) s → ∃ b s', send s a = (.ok b, s') ∧ ready n s')
    (hgood : ∀ a ∈ as, good a) (hready : ready as.length s) : (runAll send s as).1.2 = .ok () := by
  induction as generalizing s with
  | nil => rfl
  | cons a as ih =>
    obtain ⟨b, s', hstep, hready'⟩ := h as.length s a (hgood a List.mem_cons_self) hready
    rw [runAll_cons_ok hstep]
    exact ih (fun a' ha' => hgood a' (List.mem_cons_of_mem _ ha')) hready'

end HidraNet.Pieces
