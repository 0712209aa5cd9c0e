import Mathlib

/-!
# Texts

White space as the source's `trim` knows it (Unicode's `White_Space`).  A trimmed text has none at either end, so
trimming it again changes nothing (`trim_trim`).  A text is split at a character, and what stands at its end taken off.
A message quotes a text as `{:?}` writes it.
-/

namespace HidraNet.Text

/-- Unicode's `White_Space`. -/
def isWhitespace (c : Char) : Bool :=
  c.val ∈ [0x20, 0x85, 0xA0, 0x1680, 0x2028, 0x2029, 0x202F, 0x205F, 0x3000] ||
    (0x9 ≤ c.val && c.val ≤ 0xD) || (0x2000 ≤ c.val && c.val ≤ 0x200A)

def jsWhitespace (c : Char) : Bool :=
  c.val ∈ [0x20, 0xA0, 0x1680, 0x2028, 0x2029, 0x202F, 0x205F, 0x3000, 0xFEFF] ||
    (0x9 ≤ c.val && c.val ≤ 0xD) || (0x2000 ≤ c.val && c.val ≤ 0x200A)

/-- `str::trim`: the text without the white space at its ends. -/
def trim (s : String) : String :=
  String.ofList (((s.toList.dropWhile isWhitespace).reverse.dropWhile isWhitespace).reverse)

private theorem dropWhile_of_head {p : Char → Bool} {l : List Char} (h : ∀ c ∈ l.head?, p c = false) :
    l.dropWhile p = l := by
  cases l with
  | nil => rfl
  | cons c l => simp [h c (by simp)]

private theorem head?_dropWhile {p : Char → Bool} {l : List Char} : ∀ c ∈ (l.dropWhile p).head?, p c = false := by
  induction l with
  | nil => simp
  | cons c l ih =>
    rw [List.dropWhile_cons]
    split
    · exact ih
    · rename_i h
      simpa using h

private theorem head?_dropWhile_reverse {p : Char → Bool} {l : List Char} (h : ∀ c ∈ l.head?, p c = false) :
    ∀ c ∈ ((l.reverse.dropWhile p).reverse).head?, p c = false := by
  -- what is dropped at the end leaves a prefix, whose head is the list's own
  intro c hc
  have hpre : (l.reverse.dropWhile p).reverse <+: l := by
    simpa using List.reverse_prefix.2 (List.dropWhile_suffix p (l := l.reverse))
  obtain ⟨t, ht⟩ := hpre
  cases hd : (l.reverse.dropWhile p).reverse with
  | nil => simp [hd] at hc
  | cons a as =>
    rw [hd] at hc ht
    refine h c ?_
    rw [← ht]
    simpa using hc

theorem trim_trim (s : String) : trim (trim s) = trim s := by
  unfold trim
  simp only [String.toList_ofList]
  have hfront := dropWhile_of_head (head?_dropWhile_reverse (head?_dropWhile (p := isWhitespace) (l := s.toList)))
  rw [hfront, List.reverse_reverse]
  congr 2
  exact dropWhile_of_head head?_dropWhile

example : trim " laptop\t" = "laptop" := by decide

theorem trim_ofList {l : List Char} (hhead : ∀ c ∈ l.head?, isWhitespace c = false)
    (hlast : ∀ c ∈ l.getLast?, isWhitespace c = false) : trim (String.ofList l) = String.ofList l := by
  unfold trim
  rw [String.toList_ofList, dropWhile_of_head hhead, dropWhile_of_head (by rwa [List.head?_reverse]),
    List.reverse_reverse]

/-- A character between these quotes, as `{:?}` writes it.  Past Latin-1 every one is taken to print. -/
def escapeDebug (quote c : Char) : List Char :=
  if c = quote ∨ c = '\\' then ['\\', c]
  else if c.val = 0 then ['\\', '0']
  else if c = '\t' then ['\\', 't']
  else if c = '\n' then ['\\', 'n']
  else if c = '\r' then ['\\', 'r']
  else if c.val < 0x20 ∨ (0x7F ≤ c.val ∧ c.val ≤ 0xA0) ∨ c.val = 0xAD then
    "\\u\x7b".toList ++ Nat.toDigits 16 c.toNat ++ "\x7d".toList
  else [c]

def fenced (mark : Char) (l : List Char) : String := String.ofList (mark :: (l.flatMap (escapeDebug mark) ++ [mark]))

/-- `format!("{c:?}")`, of a character and of a text. -/
def debugChar (c : Char) : String := fenced (.ofNat 39) [c]

def debug (s : String) : String := fenced '"' s.toList

example : debug "a\"\u0007" = "\"a\\\"\\u\x7b7\x7d\"" := by decide

/-- `str::split_once`: what stands before and after the first of these. -/
def splitOnce (c : Char) (l : List Char) : Option (List Char × List Char) :=
  match l.dropWhile (· ≠ c) with
  | [] => none
  | _ :: rest => some (l.takeWhile (· ≠ c), rest)

theorem splitOnce_append {c : Char} {a : List Char} (b : List Char) (h : c ∉ a) :
    splitOnce c (a ++ c :: b) = some (a, b) := by
  have hne : ∀ d ∈ a, (decide (d ≠ c)) = true := by
    intro d hd
    exact decide_eq_true fun heq => h (heq ▸ hd)
  unfold splitOnce
  rw [List.dropWhile_append_of_pos hne, List.takeWhile_append_of_pos hne]
  simp

theorem splitOnce_eq_none {c : Char} {l : List Char} : splitOnce c l = none ↔ c ∉ l := by
  unfold splitOnce
  cases hl : l.dropWhile (· ≠ c) with
  | nil =>
    rw [List.dropWhile_eq_nil_iff] at hl
    simp only [true_iff]
    intro hc
    simpa using hl c hc
  | cons d rest =>
    simp only [reduceCtorEq, false_iff, not_not]
    have hd : (decide (d ≠ c)) = false := by
      have := List.head?_dropWhile_not (fun x => decide (x ≠ c)) l
      rwa [hl] at this
    have hmem : d ∈ l := (List.dropWhile_suffix _).subset (hl ▸ List.mem_cons_self)
    have heq : d = c := by simpa using hd
    exact heq ▸ hmem

theorem splitOnce_eq_some {c : Char} {l a b : List Char} : splitOnce c l = some (a, b) ↔ l = a ++ c :: b ∧ c ∉ a := by
  constructor
  · intro h
    have hmem : c ∈ l := by
      by_contra hc
      rw [splitOnce_eq_none.2 hc] at h
      cases h
    obtain ⟨a', b', hl, hc⟩ := List.eq_append_cons_of_mem hmem
    rw [hl, splitOnce_append b' hc] at h
    obtain ⟨rfl, rfl⟩ := Prod.mk.inj (Option.some.inj h)
    exact ⟨hl, hc⟩
  · rintro ⟨rfl, h⟩
    exact splitOnce_append b h

/-- `str::strip_suffix`. -/
def stripSuffix (suffix l : List Char) : Option (List Char) :=
  if suffix.isSuffixOf l then some (l.take (l.length - suffix.length)) else none

theorem stripSuffix_append (suffix l : List Char) : stripSuffix suffix (l ++ suffix) = some l := by
  unfold stripSuffix
  rw [if_pos (List.isSuffixOf_iff_suffix.2 (List.suffix_append l suffix))]
  simp

def hexVal (c : Char) : Option Nat :=
  if c.isDigit then some (c.toNat - 48)
  else if 'a' ≤ c && c ≤ 'f' then some (c.toNat - 87)
  else if 'A' ≤ c && c ≤ 'F' then some (c.toNat - 55)
  else none

theorem hexVal_of_mapM {ds : List Char} {vs : List Nat} (h : ds.mapM hexVal = some vs) :
    ∀ c ∈ ds, ∃ v, hexVal c = some v := by
  induction ds generalizing vs with
  | nil =>
    intro c hc
    cases hc
  | cons d ds ih =>
    intro c hc
    rw [List.mapM_cons] at h
    obtain ⟨v, hv, hrest⟩ := Option.bind_eq_some_iff.1 h
    obtain ⟨ws, hws, -⟩ := Option.bind_eq_some_iff.1 hrest
    rcases List.mem_cons.1 hc with rfl | hc
    · exact ⟨v, hv⟩
    · exact ih hws c hc

theorem mem_splitOn {sep c : Char} {l : List Char} (h : c ∈ l) : c = sep ∨ ∃ piece ∈ l.splitOn sep, c ∈ piece := by
  induction l with
  | nil => cases h
  | cons d l ih =>
    rw [List.splitOn_cons_eq_if_modifyHead]
    by_cases hd : d = sep
    · rcases List.mem_cons.1 h with rfl | h
      · exact Or.inl hd
      · rcases ih h with heq | ⟨piece, hpiece, hc⟩
        · exact Or.inl heq
        · right
          rw [if_pos (by simpa using hd)]
          exact ⟨piece, List.mem_cons_of_mem _ hpiece, hc⟩
    · rw [if_neg (by simpa using hd)]
      cases hsplit : l.splitOn sep with
      | nil => exact absurd hsplit (List.splitOn_ne_nil _ _)
      | cons first rest =>
        rw [hsplit] at ih
        rw [List.modifyHead_cons]
        rcases List.mem_cons.1 h with rfl | h
        · exact Or.inr ⟨_, List.mem_cons_self, List.mem_cons_self⟩
        · rcases ih h with heq | ⟨piece, hpiece, hc⟩
          · exact Or.inl heq
          · rcases List.mem_cons.1 hpiece with rfl | hpiece
            · exact Or.inr ⟨_, List.mem_cons_self, List.mem_cons_of_mem _ hc⟩
            · exact Or.inr ⟨piece, List.mem_cons_of_mem _ hpiece, hc⟩

end HidraNet.Text
