import Mathlib

/-!
# UTF-8

A text's bytes, and the text that bytes are read as where what is no UTF-8 is replaced.  A text's own bytes are read as
the text, whatever follows them (`lossy_encode_append`).  A byte below 128 stands for its own character only, so a line
end is read where the bytes have one (`mem_encode`, `mem_of_lossy`, `lossy_append_ascii`).
-/

namespace HidraNet.Utf8

def encode (text : List Char) : List UInt8 := text.flatMap String.utf8EncodeChar

/-- Whether a byte may follow the first of three or four. -/
def follows (first next : UInt8) : Bool :=
  if first = 0xE0 then 0xA0 ≤ next && next ≤ 0xBF
  else if first = 0xED then 0x80 ≤ next && next ≤ 0x9F
  else if first = 0xF0 then 0x90 ≤ next && next ≤ 0xBF
  else if first = 0xF4 then 0x80 ≤ next && next ≤ 0x8F
  else 0xE1 ≤ first && first ≤ 0xF3 && 0x80 ≤ next && next ≤ 0xBF

def brokenLength : List UInt8 → Nat
  | a :: b :: c :: _ => if !follows a b then 1 else if 0x80 ≤ c && c ≤ 0xBF then 3 else 2
  | [a, b] => if follows a b then 2 else 1
  | _ => 1

def head? (bytes : List UInt8) : Option Char := (bytes.take 4).toByteArray.utf8DecodeChar? 0

def lossyWithin : Nat → List UInt8 → List Char
  | 0, _ => []
  | _, [] => []
  | n + 1, bytes =>
    match head? bytes with
    | some c => c :: lossyWithin n (bytes.drop c.utf8Size)
    | none => '\uFFFD' :: lossyWithin n (bytes.drop (brokenLength bytes))

/-- `String::from_utf8_lossy`. -/
def lossy (bytes : List UInt8) : List Char := lossyWithin bytes.length bytes

/-- `str::from_utf8`: what is replaced by the lossy reading is not what was there. -/
def fromUtf8 (bytes : List UInt8) : Option (List Char) :=
  if encode (lossy bytes) = bytes then some (lossy bytes) else none

example : lossy (encode ['a', 'é', '✓'] ++ [0xE2, 0x9C, 0x41, 0xFF]) = ['a', 'é', '✓', '\uFFFD', 'A', '\uFFFD'] := by
  decide

@[simp] theorem encode_nil : encode [] = [] := rfl

@[simp] theorem encode_cons (c : Char) (text : List Char) :
    encode (c :: text) = String.utf8EncodeChar c ++ encode text := rfl

theorem encode_append (a b : List Char) : encode (a ++ b) = encode a ++ encode b := List.flatMap_append

theorem head?_encode (c : Char) (rest : List UInt8) : head? (String.utf8EncodeChar c ++ rest) = some c := by
  have hlen : (String.utf8EncodeChar c).length ≤ 4 := by
    rw [String.length_utf8EncodeChar]
    exact c.utf8Size_le_four
  unfold head?
  rw [List.take_append, List.take_of_length_le hlen, List.toByteArray_append]
  exact ByteArray.utf8DecodeChar?_utf8EncodeChar_append

theorem brokenLength_pos (bytes : List UInt8) : 0 < brokenLength bytes := by
  unfold brokenLength
  split
  · split_ifs <;> omega
  · split_ifs <;> omega
  · omega

theorem lossyWithin_of_le {n : Nat} {bytes : List UInt8} (h : bytes.length ≤ n) :
    lossyWithin n bytes = lossy bytes := by
  have hboth : ∀ m k (b : List UInt8), b.length ≤ m → b.length ≤ k → lossyWithin m b = lossyWithin k b := by
    intro m
    induction m with
    | zero =>
      intro k b hm _
      obtain rfl := List.length_eq_zero_iff.1 (Nat.le_zero.1 hm)
      cases k <;> rfl
    | succ m ih =>
      intro k b hm hk
      cases b with
      | nil => cases k <;> rfl
      | cons a as =>
        obtain ⟨k, rfl⟩ : ∃ j, k = j + 1 := ⟨k - 1, by rw [List.length_cons] at hk; omega⟩
        have hbroken := brokenLength_pos (a :: as)
        unfold lossyWithin
        -- each step takes a byte at least
        cases head? (a :: as) with
        | none =>
          dsimp only
          rw [ih k]
          · rw [List.length_drop]; omega
          · rw [List.length_drop]; omega
        | some c =>
          have hpos := c.utf8Size_pos
          dsimp only
          rw [ih k]
          · rw [List.length_drop]; omega
          · rw [List.length_drop]; omega
  exact hboth n bytes.length bytes h le_rfl

theorem lossy_encodeChar_append (c : Char) (rest : List UInt8) :
    lossy (String.utf8EncodeChar c ++ rest) = c :: lossy rest := by
  have hpos := c.utf8Size_pos
  have hhead := head?_encode c rest
  have hdrop : (String.utf8EncodeChar c ++ rest).drop c.utf8Size = rest := by
    rw [← String.length_utf8EncodeChar, List.drop_left]
  have hne : String.utf8EncodeChar c ++ rest ≠ [] := by
    simp [String.utf8EncodeChar_ne_nil]
  have hlen : (String.utf8EncodeChar c ++ rest).length = c.utf8Size + rest.length := by
    rw [List.length_append, String.length_utf8EncodeChar]
  rw [← lossyWithin_of_le (n := c.utf8Size + rest.length) hlen.le]
  obtain ⟨b, bs, hbs⟩ := List.exists_cons_of_ne_nil hne
  obtain ⟨m, hm⟩ : ∃ m, c.utf8Size + rest.length = m + 1 := ⟨c.utf8Size + rest.length - 1, by omega⟩
  rw [hbs] at hhead hdrop ⊢
  rw [hm]
  unfold lossyWithin
  rw [hhead]
  show c :: lossyWithin m ((b :: bs).drop c.utf8Size) = c :: lossy rest
  rw [hdrop, lossyWithin_of_le (by omega)]

/-- A text's own bytes are read as the text, whatever follows. -/
theorem lossy_encode_append (text : List Char) (rest : List UInt8) :
    lossy (encode text ++ rest) = text ++ lossy rest := by
  induction text with
  | nil => rfl
  | cons c text ih => rw [encode_cons, List.append_assoc, lossy_encodeChar_append, ih, List.cons_append]

theorem lossy_encode (text : List Char) : lossy (encode text) = text := by
  have h := lossy_encode_append text []
  rwa [List.append_nil, show lossy [] = [] from rfl, List.append_nil] at h

theorem encode_injective {a b : List Char} (h : encode a = encode b) : a = b := by
  rw [← lossy_encode a, h, lossy_encode]

/-! ### Bytes below 128 -/

theorem encodeChar_ascii {c : Char} (h : c.toNat < 128) : String.utf8EncodeChar c = [UInt8.ofNat c.toNat] := by
  have hsize : c.utf8Size = 1 := by
    rw [Char.utf8Size_eq_one_iff]
    exact UInt32.le_iff_toNat_le.2 (show c.toNat ≤ 127 by omega)
  rw [String.utf8EncodeChar_eq_singleton hsize]
  congr 1

theorem encode_ascii {text : List Char} (h : ∀ c ∈ text, c.toNat < 128) :
    encode text = text.map fun c => UInt8.ofNat c.toNat := by
  induction text with
  | nil => rfl
  | cons c text ih =>
    obtain ⟨hc, htext⟩ := List.forall_mem_cons.1 h
    rw [encode_cons, encodeChar_ascii hc, ih htext]
    rfl

theorem length_encode_ascii {text : List Char} (h : ∀ c ∈ text, c.toNat < 128) :
    (encode text).length = text.length := by
  rw [encode_ascii h, List.length_map]

private theorem high_byte (x mark : UInt8) (h : 128 ≤ mark.toNat) : 128 ≤ (x ||| mark).toNat := by
  rw [UInt8.toNat_or]
  exact le_trans h Nat.right_le_or

theorem encodeChar_high {c : Char} (h : ¬ c.toNat < 128) {b : UInt8} (hb : b ∈ String.utf8EncodeChar c) :
    128 ≤ b.toNat := by
  have hsize : c.utf8Size ≠ 1 := by
    rw [Ne, Char.utf8Size_eq_one_iff, UInt32.le_iff_toNat_le]
    exact fun hle => h (Nat.lt_succ_of_le hle)
  have hpos := c.utf8Size_pos
  have hle := c.utf8Size_le_four
  have hcases : c.utf8Size = 2 ∨ c.utf8Size = 3 ∨ c.utf8Size = 4 := by omega
  obtain hc | hc | hc := hcases
  · rw [String.utf8EncodeChar_eq_cons_cons hc] at hb
    simp only [List.mem_cons, List.not_mem_nil, or_false] at hb
    obtain rfl | rfl := hb <;> exact high_byte _ _ (by decide)
  · rw [String.utf8EncodeChar_eq_cons_cons_cons hc] at hb
    simp only [List.mem_cons, List.not_mem_nil, or_false] at hb
    obtain rfl | rfl | rfl := hb <;> exact high_byte _ _ (by decide)
  · rw [String.utf8EncodeChar_eq_cons_cons_cons_cons hc] at hb
    simp only [List.mem_cons, List.not_mem_nil, or_false] at hb
    obtain rfl | rfl | rfl | rfl := hb <;> exact high_byte _ _ (by decide)

/-- A byte below 128 is that of its own character. -/
theorem mem_encode {text : List Char} {b : UInt8} (hb : b.toNat < 128) (h : b ∈ encode text) :
    Char.ofNat b.toNat ∈ text := by
  obtain ⟨c, hc, hmem⟩ := List.mem_flatMap.1 h
  by_cases hascii : c.toNat < 128
  · rw [encodeChar_ascii hascii, List.mem_singleton] at hmem
    have hval : b.toNat = c.toNat := by
      rw [hmem, UInt8.toNat_ofNat']
      omega
    rw [hval, Char.ofNat_toNat]
    exact hc
  · exact absurd (encodeChar_high hascii hmem) (by omega)

private theorem head?_prefix {bytes : List UInt8} {c : Char} (h : head? bytes = some c) :
    ∃ rest, bytes = String.utf8EncodeChar c ++ rest := by
  obtain ⟨l, hl⟩ := ByteArray.exists_of_utf8DecodeChar?_eq_some h
  have htake : bytes.take 4 = String.utf8EncodeChar c ++ l.data.toList := by
    have hdata := congrArg (fun a : ByteArray => a.data.toList) hl
    simpa using hdata
  refine ⟨l.data.toList ++ bytes.drop 4, ?_⟩
  rw [← List.append_assoc, ← htake, List.take_append_drop]

/-- And a character below 128 is read from its own byte. -/
theorem mem_of_lossy {bytes : List UInt8} {c : Char} (hc : c.toNat < 128) (h : c ∈ lossy bytes) :
    UInt8.ofNat c.toNat ∈ bytes := by
  have hmain : ∀ n (b : List UInt8), c ∈ lossyWithin n b → UInt8.ofNat c.toNat ∈ b := by
    intro n
    induction n with
    | zero => intro b hb; cases hb
    | succ n ih =>
      intro b hb
      cases b with
      | nil => cases hb
      | cons a as =>
        unfold lossyWithin at hb
        cases hhead : head? (a :: as) with
        | none =>
          rw [hhead] at hb
          obtain rfl | hb := List.mem_cons.1 hb
          · exact absurd hc (by decide)
          · exact List.mem_of_mem_drop (ih _ hb)
        | some d =>
          rw [hhead] at hb
          obtain rfl | hb := List.mem_cons.1 hb
          · obtain ⟨rest, hrest⟩ := head?_prefix hhead
            rw [hrest, encodeChar_ascii hc]
            exact List.mem_append_left _ (List.mem_singleton_self _)
          · exact List.mem_of_mem_drop (ih _ hb)
  exact hmain _ _ h

theorem lossy_cons {bytes : List UInt8} {c : Char} {cs : List Char} (h : lossy bytes = c :: cs) :
    ∃ front rest, bytes = front ++ rest ∧ lossy rest = cs ∧ (c.toNat < 128 → front = [UInt8.ofNat c.toNat]) := by
  cases bytes with
  | nil => cases h
  | cons b bs =>
    have hlen : (b :: bs).length = bs.length + 1 := List.length_cons
    rw [lossy, hlen] at h
    unfold lossyWithin at h
    cases hhead : head? (b :: bs) with
    | none =>
      rw [hhead] at h
      obtain ⟨rfl, hcs⟩ := List.cons_eq_cons.1 h
      have hbroken := brokenLength_pos (b :: bs)
      refine ⟨_, _, (List.take_append_drop (brokenLength (b :: bs)) _).symm, ?_, fun hc => absurd hc (by decide)⟩
      rw [← hcs, lossyWithin_of_le]
      rw [List.length_drop]
      omega
    | some d =>
      rw [hhead] at h
      obtain ⟨rfl, hcs⟩ := List.cons_eq_cons.1 h
      have hpos := d.utf8Size_pos
      obtain ⟨rest, hrest⟩ := head?_prefix hhead
      have hdrop : (b :: bs).drop d.utf8Size = rest := by
        rw [hrest, ← String.length_utf8EncodeChar, List.drop_left]
      refine ⟨_, _, hrest, ?_, fun hc => encodeChar_ascii hc⟩
      rw [← hcs, ← hdrop, lossyWithin_of_le]
      rw [List.length_drop]
      omega

theorem head?_append {a : List UInt8} (hne : a ≠ []) {b : UInt8} (hb : b.toNat < 128) (rest : List UInt8) :
    head? (a ++ b :: rest) = head? a := by
  cases hall : head? (a ++ b :: rest) with
  | none =>
    cases ha : head? a with
    | none => rfl
    | some c =>
      obtain ⟨more, rfl⟩ := head?_prefix ha
      rw [List.append_assoc, head?_encode] at hall
      cases hall
  | some c =>
    obtain ⟨more, hmore⟩ := head?_prefix hall
    rcases List.append_eq_append_iff.1 hmore with ⟨front, henc, hrest⟩ | ⟨more', ha, -⟩
    · -- the character would have the byte, or be the empty text
      cases front with
      | nil => rw [List.append_nil] at henc; rw [← henc, ← List.append_nil (String.utf8EncodeChar c), head?_encode]
      | cons x front =>
        obtain rfl : b = x := (List.cons.inj hrest).1
        have hmem : b ∈ String.utf8EncodeChar c := by
          rw [henc]
          exact List.mem_append_right _ List.mem_cons_self
        by_cases hc : c.toNat < 128
        · have hlen := congrArg List.length henc
          simp only [encodeChar_ascii hc, List.length_append, List.length_cons, List.length_nil] at hlen
          have hpos := List.length_pos_of_ne_nil hne
          omega
        · have hhigh := encodeChar_high hc hmem
          omega
    · rw [ha, head?_encode]

theorem brokenLength_append {a : List UInt8} (hne : a ≠ []) {b : UInt8} (hb : b.toNat < 128) (rest : List UInt8) :
    brokenLength (a ++ b :: rest) = brokenLength a ∧ brokenLength a ≤ a.length := by
  have hnot : ∀ x : UInt8, follows x b = false := by
    intro x
    have hlt : ∀ y : UInt8, 128 ≤ y.toNat → ¬ y ≤ b := by
      intro y hy hle
      rw [UInt8.le_iff_toNat_le] at hle
      omega
    unfold follows
    simp [hlt]
  have hnot' : ¬ (0x80 : UInt8) ≤ b := by
    rw [UInt8.le_iff_toNat_le]
    show ¬ 128 ≤ b.toNat
    omega
  obtain _ | ⟨x, _ | ⟨y, _ | ⟨z, a⟩⟩⟩ := a
  · exact absurd rfl hne
  · cases rest with
    | nil => simp [brokenLength, hnot]
    | cons r rest => simp [brokenLength, hnot]
  · by_cases hxy : follows x y = true
    · simp [brokenLength, hxy, hnot']
    · simp [brokenLength, hxy]
  · constructor
    · rfl
    · unfold brokenLength
      simp only [List.length_cons]
      split_ifs <;> omega

theorem lossy_ascii_cons {b : UInt8} (hb : b.toNat < 128) (rest : List UInt8) :
    lossy (b :: rest) = Char.ofNat b.toNat :: lossy rest := by
  have hval : (Char.ofNat b.toNat).toNat = b.toNat := by
    rw [Char.toNat_ofNat, if_pos (.inl (by omega))]
  have henc : String.utf8EncodeChar (Char.ofNat b.toNat) = [b] := by
    rw [encodeChar_ascii (by omega), hval, UInt8.ofNat_toNat]
  have hlossy := lossy_encodeChar_append (Char.ofNat b.toNat) rest
  rwa [henc] at hlossy

theorem lossy_step {bytes : List UInt8} (hne : bytes ≠ []) :
    lossy bytes = match head? bytes with
      | some c => c :: lossy (bytes.drop c.utf8Size)
      | none => '\uFFFD' :: lossy (bytes.drop (brokenLength bytes)) := by
  obtain ⟨b, bs, rfl⟩ := List.exists_cons_of_ne_nil hne
  have hbroken := brokenLength_pos (b :: bs)
  have hlen : (b :: bs).length = bs.length + 1 := List.length_cons
  rw [lossy, hlen]
  unfold lossyWithin
  cases head? (b :: bs) with
  | none =>
    dsimp only
    rw [lossyWithin_of_le]
    rw [List.length_drop, List.length_cons]
    omega
  | some c =>
    have hpos := c.utf8Size_pos
    dsimp only
    rw [lossyWithin_of_le]
    rw [List.length_drop, List.length_cons]
    omega

/-- A byte below 128 is read as its own character, whatever stands before and behind it. -/
theorem lossy_append_ascii {b : UInt8} (hb : b.toNat < 128) (a rest : List UInt8) :
    lossy (a ++ b :: rest) = lossy a ++ Char.ofNat b.toNat :: lossy rest := by
  obtain ⟨n, hn⟩ : ∃ n, a.length ≤ n := ⟨_, le_rfl⟩
  induction n generalizing a with
  | zero =>
    obtain rfl := List.length_eq_zero_iff.1 (Nat.le_zero.1 hn)
    exact lossy_ascii_cons hb rest
  | succ n ih =>
    by_cases hne : a = []
    · subst hne
      exact lossy_ascii_cons hb rest
    · obtain ⟨hbroken, hle⟩ := brokenLength_append hne hb rest
      rw [lossy_step (List.append_ne_nil_of_left_ne_nil hne _), head?_append hne hb, hbroken, lossy_step hne]
      cases hhead : head? a with
      | none =>
        have hpos := brokenLength_pos a
        dsimp only
        rw [List.drop_append_of_le_length hle, ih _ (by rw [List.length_drop]; omega), List.cons_append]
      | some c =>
        have hpos := c.utf8Size_pos
        obtain ⟨more, hmore⟩ := head?_prefix hhead
        have hsize : c.utf8Size ≤ a.length := by
          rw [hmore, List.length_append, String.length_utf8EncodeChar]
          exact Nat.le_add_right _ _
        dsimp only
        rw [List.drop_append_of_le_length hsize, ih _ (by rw [List.length_drop]; omega), List.cons_append]

theorem fromUtf8_encode (text : List Char) : fromUtf8 (encode text) = some text := by
  unfold fromUtf8
  rw [lossy_encode, if_pos rfl]

theorem fromUtf8_eq_some {bytes : List UInt8} {text : List Char} :
    fromUtf8 bytes = some text ↔ bytes = encode text := by
  constructor
  · intro h
    unfold fromUtf8 at h
    split at h
    · rename_i henc
      rw [← Option.some.inj h, henc]
    · cases h
  · rintro rfl
    exact fromUtf8_encode text

end HidraNet.Utf8
