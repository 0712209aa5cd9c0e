import Mathlib

/-!
# Runs of a machine

A machine takes inputs one after another: `step s i` is the state after the input `i` in the state `s`.  `run` is
the state after a list of inputs, and `Along step ok s is` says that every input of the run meets `ok` in the
state it is given in.  An invariant is proved once for a step (under `ok`) and holds after every such run
(`run_invariant`); since a prefix of a good run is a good run (`Along.take`), it holds in every state reached.
-/

namespace HidraNet.Runs

variable {σ ι : Type*} {step : σ → ι → σ} {ok ok' : σ → ι → Prop}

/-- The state after the inputs `is`, from `s`. -/
def run (step : σ → ι → σ) (s : σ) (is : List ι) : σ := is.foldl step s

/-- Every input of the run meets `ok` in the state it is given in. -/
def Along (step : σ → ι → σ) (ok : σ → ι → Prop) : σ → List ι → Prop
  | _, [] => True
  | s, i :: is => ok s i ∧ Along step ok (step s i) is

instance decidableAlong [∀ s i, Decidable (ok s i)] : ∀ s is, Decidable (Along step ok s is)
  | _, [] => isTrue trivial
  | s, i :: is =>
    have := decidableAlong (step s i) is
    inferInstanceAs (Decidable (ok s i ∧ Along step ok (step s i) is))

@[simp] theorem run_nil (s : σ) : run step s [] = s := rfl

@[simp] theorem run_cons (s : σ) (i : ι) (is : List ι) : run step s (i :: is) = run step (step s i) is := rfl

theorem run_append (s : σ) (is js : List ι) : run step s (is ++ js) = run step (run step s is) js :=
  List.foldl_append

@[simp] theorem along_nil (s : σ) : Along step ok s [] := trivial

@[simp] theorem along_cons (s : σ) (i : ι) (is : List ι) :
    Along step ok s (i :: is) ↔ ok s i ∧ Along step ok (step s i) is := Iff.rfl

theorem along_append (s : σ) (is js : List ι) :
    Along step ok s (is ++ js) ↔ Along step ok s is ∧ Along step ok (run step s is) js := by
  induction is generalizing s with
  | nil => simp
  | cons i is ih => simp only [List.cons_append, along_cons, run_cons, ih, and_assoc]

theorem Along.take {s : σ} {is : List ι} (h : Along step ok s is) (k : Nat) : Along step ok s (is.take k) := by
  rw [← List.take_append_drop k is, along_append] at h
  exact h.1

theorem Along.and {s : σ} {is : List ι} (h : Along step ok s is) (h' : Along step ok' s is) :
    Along step (fun s i => ok s i ∧ ok' s i) s is := by
  induction is generalizing s with
  | nil => trivial
  | cons i is ih => exact ⟨⟨h.1, h'.1⟩, ih h.2 h'.2⟩

/-- What every good step keeps, every good run keeps. -/
theorem run_invariant {P : σ → Prop} (hstep : ∀ s i, P s → ok s i → P (step s i)) {s : σ} {is : List ι}
    (h : Along step ok s is) (hs : P s) : P (run step s is) := by
  induction is generalizing s with
  | nil => exact hs
  | cons i is ih => exact ih h.2 (hstep _ _ hs h.1)

theorem Along.of_invariant {P : σ → Prop} (hstep : ∀ s i, P s → ok s i → P (step s i))
    (hok : ∀ s i, P s → ok s i → ok' s i) {s : σ} {is : List ι} (h : Along step ok s is) (hs : P s) :
    Along step ok' s is := by
  induction is generalizing s with
  | nil => trivial
  | cons i is ih => exact ⟨hok s i hs h.1, ih h.2 (hstep s i hs h.1)⟩

theorem run_always {P : σ → Prop} (hstep : ∀ s i, P s → P (step s i)) {s : σ} (hs : P s) (is : List ι) :
    P (run step s is) := by
  induction is generalizing s with
  | nil => exact hs
  | cons i is ih => exact ih (hstep s i hs)

theorem along_always {P : σ → Prop} (hstep : ∀ s i, P s → P (step s i)) (hok : ∀ s i, P s → ok s i) {s : σ} (hs : P s)
    (is : List ι) : Along step ok s is := by
  induction is generalizing s with
  | nil => trivial
  | cons i is ih => exact ⟨hok s i hs, ih (hstep s i hs)⟩

theorem always_iff_along {P Q : σ → Prop} (hPQ : ∀ s, P s → Q s) (hgood : ∀ s i, P s → ok s i → P (step s i))
    (hbad : ∀ s i, P s → ¬ ok s i → ¬ Q (step s i)) {s : σ} (hs : P s) (is : List ι) :
    (∀ k, Q (run step s (is.take k))) ↔ Along step ok s is := by
  constructor
  · intro h
    induction is generalizing s with
    | nil => trivial
    | cons i is ih =>
      have hok : ok s i := by
        by_contra hnot
        exact hbad s i hs hnot (h 1)
      exact ⟨hok, ih (hgood s i hs hok) fun k => h (k + 1)⟩
  · intro h k
    exact hPQ _ (run_invariant hgood (h.take k) hs)

end HidraNet.Runs
