import HidraNet.Lib.Text

/-!
# Files of lines

A file that is appended to a line at a time, and may end in a line cut short.  What it holds is what its lines read as
(`entries`), and what cannot be read is skipped.  While the file is `Whole`, a line appended adds what it reads as
(`entries_append`); after a line cut short it would run into it.

Lines are of words (`words_pair`) and of decimal numbers (`parseI64_formatInt`).
-/

namespace HidraNet.Lines

open Text

variable {α : Type*} {parse : List Char → Option α} {file line a b : List Char}

def Whole (file : List Char) : Prop := file = [] ∨ file.getLast? = some '\n'

instance (file : List Char) : Decidable (Whole file) := inferInstanceAs (Decidable (_ ∨ _))

def entries (parse : List Char → Option α) (file : List Char) : List α := (file.splitOn '\n').filterMap parse

theorem entries_append (hparse : parse [] = none) (h : Whole file) (more : List Char) :
    entries parse (file ++ more) = entries parse file ++ entries parse more := by
  rcases h with rfl | hlast
  · simp [entries, hparse]
  · obtain ⟨body, rfl⟩ := List.getLast?_eq_some_iff.1 hlast
    have hsplit := List.splitOn_append_cons_self body more (a := '\n')
    have hempty := List.splitOn_append_cons_self body [] (a := '\n')
    unfold entries
    rw [List.append_assoc, List.singleton_append, hsplit, hempty]
    simp [hparse]

theorem entries_line (hparse : parse [] = none) (hline : '\n' ∉ line) :
    entries parse (line ++ ['\n']) = (parse line).toList := by
  unfold entries
  rw [List.splitOn_append_cons_self, List.splitOn_eq_singleton hline]
  cases h : parse line <;> simp [h, hparse]

theorem whole_append_line (file line : List Char) : Whole (file ++ (line ++ ['\n'])) := by
  right
  rw [← List.append_assoc, List.getLast?_concat]

/-- `str::split_whitespace`. -/
def words (line : List Char) : List (List Char) := (line.splitOnP isWhitespace).filter (· ≠ [])

theorem words_pair (ha : a ≠ []) (hb : b ≠ []) (has : ∀ c ∈ a, isWhitespace c = false)
    (hbs : ∀ c ∈ b, isWhitespace c = false) : words (a ++ ' ' :: b) = [a, b] := by
  unfold words
  rw [List.splitOnP_append_cons_of_forall_mem has ' ' (by decide), List.splitOnP_eq_singleton hbs]
  simp [ha, hb]

/-! ### Decimal numbers -/

def InI64 (v : Int) : Prop := -2 ^ 63 ≤ v ∧ v < 2 ^ 63

instance (v : Int) : Decidable (InI64 v) := inferInstanceAs (Decidable (_ ∧ _))

def formatInt (v : Int) : List Char :=
  if v < 0 then '-' :: Nat.toDigits 10 v.natAbs else Nat.toDigits 10 v.natAbs

def parseDigits (ds : List Char) : Option Nat :=
  if ds ≠ [] ∧ ds.all Char.isDigit then some (Nat.ofDigitChars 10 ds 0) else none

/-- `str::parse::<i64>`. -/
def parseI64 (l : List Char) : Option Int :=
  let v := match l with
    | '-' :: ds => (parseDigits ds).map fun n : Nat => -(n : Int)
    | '+' :: ds => (parseDigits ds).map Nat.cast
    | ds => (parseDigits ds).map Nat.cast
  v.filter fun v => decide (InI64 v)

private theorem parseDigits_toDigits (n : Nat) : parseDigits (Nat.toDigits 10 n) = some n := by
  unfold parseDigits
  rw [if_pos, Nat.ofDigitChars_ten_toDigits]
  refine ⟨Nat.toDigits_ne_nil, List.all_eq_true.2 fun c hc => ?_⟩
  exact Nat.isDigit_of_mem_toDigits (by decide) (by decide) hc

theorem formatInt_ne_nil (v : Int) : formatInt v ≠ [] := by
  unfold formatInt
  split
  · exact List.cons_ne_nil _ _
  · exact Nat.toDigits_ne_nil

theorem mem_formatInt {v : Int} {c : Char} (h : c ∈ formatInt v) : c = '-' ∨ c.isDigit = true := by
  unfold formatInt at h
  split at h
  · rcases List.mem_cons.1 h with h | h
    · exact Or.inl h
    · exact Or.inr (Nat.isDigit_of_mem_toDigits (by decide) (by decide) h)
  · exact Or.inr (Nat.isDigit_of_mem_toDigits (by decide) (by decide) h)

theorem parseI64_formatInt {v : Int} (h : InI64 v) : parseI64 (formatInt v) = some v := by
  unfold parseI64 formatInt
  by_cases hneg : v < 0
  · have habs : -((v.natAbs : Nat) : Int) = v := by omega
    rw [if_pos hneg]
    show ((parseDigits (Nat.toDigits 10 v.natAbs)).map fun n : Nat => -(n : Int)).filter _ = _
    rw [parseDigits_toDigits, Option.map_some, habs]
    simp [Option.filter, h]
  · have habs : ((v.natAbs : Nat) : Int) = v := by omega
    have hdigits := parseDigits_toDigits v.natAbs
    have hfirst : ∀ c ds, Nat.toDigits 10 v.natAbs = c :: ds → c.isDigit = true := by
      intro c ds heq
      exact Nat.isDigit_of_mem_toDigits (by decide) (by decide) (heq ▸ List.mem_cons_self)
    rw [if_neg hneg]
    -- no sign stands in front of the digits
    split
    · rename_i ds heq
      have := hfirst _ _ heq
      simp at this
    · rename_i ds heq
      have := hfirst _ _ heq
      simp at this
    · rw [hdigits]
      simp [habs, Option.filter, h]

example : parseI64 "-120".toList = some (-120) := by decide

end HidraNet.Lines
