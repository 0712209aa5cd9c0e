import Mathlib

/-!
# A lock, first come first served

Who asks for a free lock has it; who asks for a taken one waits behind those who asked before.  A release hands the lock
to the first that waits.  What the others ask and release does not take the lock from who holds it (`holder_ask`,
`holder_release`).
-/

namespace HidraNet.Fifo

structure Lock (ι : Type*) where
  holder : Option ι
  queue : List ι
deriving DecidableEq

namespace Lock

variable {ι : Type*}

def free : Lock ι := ⟨none, []⟩

def ask (l : Lock ι) (t : ι) : Lock ι :=
  match l.holder with
  | none => { l with holder := some t }
  | some _ => { l with queue := l.queue ++ [t] }

theorem holder_ask {l : Lock ι} {u : ι} (h : l.holder = some u) (t : ι) : (l.ask t).holder = some u := by
  unfold ask
  rw [h]

variable [DecidableEq ι]

/-- Nothing happens where `t` does not hold the lock. -/
def release (l : Lock ι) (t : ι) : Lock ι :=
  if l.holder = some t then ⟨l.queue.head?, l.queue.tail⟩ else l

theorem holder_release {l : Lock ι} {t u : ι} (h : l.holder = some u) (hne : u ≠ t) :
    (l.release t).holder = some u := by
  unfold release
  rw [if_neg (by rw [h]; simpa using hne)]
  exact h

end Lock

end HidraNet.Fifo
