import HidraNet.Lib.Runs

/-!
# Calls under way

Calls that were decided in one order and are made in another, each by its owner, who makes its own in their order
(`takeFirst`).  A call that comes before calls it commutes with leaves what they come to (`run_pull`).
-/

namespace HidraNet.Pending

open Runs

variable {α σ κ : Type*} {p : α → Bool} {l before after : List α} {x : α}

def takeFirst (p : α → Bool) : List α → Option (List α × α × List α)
  | [] => none
  | x :: l => if p x then some ([], x, l) else (takeFirst p l).map fun (before, y, after) => (x :: before, y, after)

theorem eq_of_takeFirst (h : takeFirst p l = some (before, x, after)) : l = before ++ x :: after ∧ p x = true := by
  induction l generalizing before with
  | nil => cases h
  | cons y l ih =>
    unfold takeFirst at h
    split at h
    · rename_i hy
      cases h
      exact ⟨rfl, hy⟩
    · obtain ⟨⟨before', x', after'⟩, htake, heq⟩ := Option.map_eq_some_iff.1 h
      cases heq
      obtain ⟨hl, hx⟩ := ih htake
      exact ⟨by rw [hl, List.cons_append], hx⟩

/-- A call made before calls that it commutes with. -/
theorem run_pull {step : σ → κ → σ} {c : κ} {cs : List κ}
    (hcomm : ∀ c' ∈ cs, ∀ s, step (step s c) c' = step (step s c') c) (s : σ) :
    run step (step s c) cs = step (run step s cs) c := by
  induction cs generalizing s with
  | nil => rfl
  | cons c' cs ih =>
    have hfirst := hcomm c' List.mem_cons_self s
    have hrest : ∀ c'' ∈ cs, ∀ s, step (step s c) c'' = step (step s c'') c :=
      fun c'' hc => hcomm c'' (List.mem_cons_of_mem _ hc)
    rw [run_cons, run_cons, hfirst]
    exact ih hrest _

theorem run_comm {step : σ → κ → σ} {cs cs' : List κ}
    (hcomm : ∀ c ∈ cs, ∀ c' ∈ cs', ∀ s, step (step s c) c' = step (step s c') c) (s : σ) :
    run step (run step s cs) cs' = run step (run step s cs') cs := by
  induction cs generalizing s with
  | nil => rfl
  | cons c cs ih =>
    have hrest : ∀ c'' ∈ cs, ∀ c' ∈ cs', ∀ s, step (step s c'') c' = step (step s c') c'' :=
      fun c'' hc => hcomm c'' (List.mem_cons_of_mem _ hc)
    rw [run_cons, ih hrest, run_pull (hcomm c List.mem_cons_self), run_cons]

end HidraNet.Pending
