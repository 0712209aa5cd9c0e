import Mathlib

/-!
# JSON as it is written

The compact text of strings, numbers, arrays and objects.  A string's control characters are escaped, so no text that is
built from these has a line break.

A value read is a `Value`, its numbers as they are written; putting a field in replaces what the object had under that
name (`get_insert`).
-/

namespace HidraNet.Json

def hexDigit (n : Nat) : Char := if n < 10 then Char.ofNat (48 + n) else Char.ofNat (87 + n)

def quoteChar (c : Char) : List Char :=
  if c = '"' then ['\\', '"']
  else if c = '\\' then ['\\', '\\']
  else if c = '\x08' then ['\\', 'b']
  else if c = '\x0c' then ['\\', 'f']
  else if c = '\n' then ['\\', 'n']
  else if c = '\r' then ['\\', 'r']
  else if c = '\t' then ['\\', 't']
  else if c.toNat < 0x20 then ['\\', 'u', '0', '0', hexDigit (c.toNat / 16), hexDigit (c.toNat % 16)]
  else [c]

def quoted (s : List Char) : List Char := '"' :: s.flatMap quoteChar ++ ['"']

def number (n : Nat) : List Char := Nat.toDigits 10 n

def bool (b : Bool) : List Char := (if b then "true" else "false").toList

def array (items : List (List Char)) : List Char := '[' :: [','].intercalate items ++ [']']

def bytes (b : List UInt8) : List Char := array (b.map fun x => number x.toNat)

def object (fields : List (String × List Char)) : List Char :=
  '{' :: [','].intercalate (fields.map fun f => quoted f.1.toList ++ ':' :: f.2) ++ ['}']

/-! ### No control character -/

def Plain (text : List Char) : Prop := ∀ c ∈ text, 0x20 ≤ c.toNat

instance (text : List Char) : Decidable (Plain text) :=
  decidable_of_iff (text.all (0x20 ≤ ·.toNat) = true) (by simp [Plain])

theorem plain_nil : Plain [] := fun _ h => (nomatch h)

theorem plain_append {a b : List Char} : Plain (a ++ b) ↔ Plain a ∧ Plain b := List.forall_mem_append

theorem plain_cons {c : Char} {text : List Char} : Plain (c :: text) ↔ 0x20 ≤ c.toNat ∧ Plain text :=
  List.forall_mem_cons

theorem Plain.no_cr {text : List Char} (h : Plain text) : '\r' ∉ text := fun hmem => absurd (h _ hmem) (by decide)

private theorem toNat_hexDigit {n : Nat} (h : n < 16) : 0x20 ≤ (hexDigit n).toNat := by
  interval_cases n <;> decide

theorem plain_quoteChar (c : Char) : Plain (quoteChar c) := by
  unfold quoteChar
  split_ifs with h1 h2 h3 h4 h5 h6 h7 hlow
  · decide
  · decide
  · decide
  · decide
  · decide
  · decide
  · decide
  · have hhigh := toNat_hexDigit (n := c.toNat / 16) (by omega)
    have hrest := toNat_hexDigit (n := c.toNat % 16) (by omega)
    simp [Plain, hhigh, hrest]
  · intro d hd
    rw [List.mem_singleton.1 hd]
    omega

theorem plain_quoted (s : List Char) : Plain (quoted s) := by
  intro c hc
  unfold quoted at hc
  rw [List.cons_append, List.mem_cons, List.mem_append, List.mem_singleton] at hc
  obtain rfl | hc | rfl := hc
  · decide
  · obtain ⟨d, -, hd⟩ := List.mem_flatMap.1 hc
    exact plain_quoteChar d c hd
  · decide

theorem plain_number (n : Nat) : Plain (number n) := by
  intro c hc
  have hdigit := Nat.isDigit_of_mem_toDigits (by decide) (by decide) hc
  simp only [Char.isDigit, Bool.and_eq_true, decide_eq_true_eq] at hdigit
  have hle : ('0' : Char).val.toNat ≤ c.val.toNat := UInt32.le_iff_toNat_le.1 hdigit.1
  exact le_trans (by decide) hle

theorem plain_intercalate {items : List (List Char)} (h : ∀ item ∈ items, Plain item) :
    Plain ([','].intercalate items) := by
  induction items with
  | nil => exact plain_nil
  | cons item items ih =>
    obtain ⟨hitem, hitems⟩ := List.forall_mem_cons.1 h
    cases items with
    | nil =>
      rw [List.intercalate_singleton]
      exact hitem
    | cons item' items =>
      rw [List.intercalate_cons_cons]
      exact plain_append.2 ⟨plain_append.2 ⟨hitem, by decide⟩, ih hitems⟩

theorem plain_array {items : List (List Char)} (h : ∀ item ∈ items, Plain item) : Plain (array items) := by
  unfold array
  rw [List.cons_append, plain_cons, plain_append]
  exact ⟨by decide, plain_intercalate h, by decide⟩

theorem plain_bytes (b : List UInt8) : Plain (bytes b) := by
  apply plain_array
  intro item hitem
  obtain ⟨x, -, rfl⟩ := List.mem_map.1 hitem
  exact plain_number _

theorem plain_object {fields : List (String × List Char)} (h : ∀ f ∈ fields, Plain f.2) : Plain (object fields) := by
  unfold object
  rw [List.cons_append, plain_cons, plain_append]
  refine ⟨by decide, plain_intercalate fun item hitem => ?_, by decide⟩
  obtain ⟨f, hf, rfl⟩ := List.mem_map.1 hitem
  rw [plain_append, plain_cons]
  exact ⟨plain_quoted _, by decide, h f hf⟩

/-! ### Values -/

inductive Value where
  | null
  | bool (b : Bool)
  | number (written : List Char)
  | string (s : List Char)
  | array (items : List Value)
  | object (fields : List (List Char × Value))

namespace Value

def get (v : Value) (name : String) : Option Value :=
  match v with
  | .object fields => (fields.find? (·.1 = name.toList)).map Prod.snd
  | _ => none

def asStr : Value → Option (List Char)
  | .string s => some s
  | _ => none

def asBool : Value → Option Bool
  | .bool b => some b
  | _ => none

def insert (v : Value) (name : String) (w : Value) : Value :=
  match v with
  | .object fields => .object (fields.filter (·.1 ≠ name.toList) ++ [(name.toList, w)])
  | v => v

def nat (n : Nat) : Value := .number (Json.number n)

def text (s : String) : Value := .string s.toList

theorem get_insert {v : Value} {name : String} (h : (v.get name).isSome) (key : String) (w : Value) (key' : String) :
    (v.insert key w).get key' = if key' = key then some w else v.get key' := by
  cases v with
  | object fields =>
    dsimp only [insert, get]
    rw [List.find?_append, Option.map_or]
    by_cases hkey : key' = key
    · subst hkey
      have hnone : (fields.filter (·.1 ≠ key'.toList)).find? (·.1 = key'.toList) = none := by
        rw [List.find?_eq_none]
        intro f hf
        simpa using (List.mem_filter.1 hf).2
      rw [hnone, if_pos rfl]
      simp
    · have hne : ¬ key.toList = key'.toList := fun heq => hkey (String.toList_inj.1 heq).symm
      have hsame : (fields.filter (·.1 ≠ key.toList)).find? (·.1 = key'.toList) = fields.find? (·.1 = key'.toList) := by
        rw [List.find?_filter]
        congr 1
        funext f
        by_cases hf : f.1 = key'.toList
        · simp [hf, Ne.symm hne]
        · simp [hf]
      rw [hsame, if_neg hkey]
      simp [hne]
  | _ => cases h

theorem get_insert_isSome {v : Value} {name : String} (h : (v.get name).isSome) (key : String) (w : Value) :
    ((v.insert key w).get name).isSome := by
  rw [get_insert h]
  split
  · rfl
  · exact h

end Value

end HidraNet.Json
