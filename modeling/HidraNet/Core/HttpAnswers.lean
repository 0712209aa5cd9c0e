import HidraNet.Core.Http
import HidraNet.Core.SpentTag
import HidraNet.Lib.Decimal

/-!
# Answers cut short

An answer as servers write it: a status line, header fields, an empty line and a body, whose length the header says or
which comes in chunks.  It is read as its status and its body, and what a connection that ended early leaves of it is
refused, or read as the same (`truncated_answer`).
-/

namespace HidraNet.Core.Http

open Hidramail (linesOf linesOf_cons trimText lowered)
open Lines Net Text Utf8 Windows

/-! ### The header -/

def Unbroken (bytes : List UInt8) : Prop := 13 ∉ bytes ∧ 10 ∉ bytes

instance (bytes : List UInt8) : Decidable (Unbroken bytes) := inferInstanceAs (Decidable (_ ∧ _))

/-- A header field. -/
structure Field where
  name : List Char
  value : List UInt8
  name_ok : ':' ∉ name ∧ ∀ c ∈ name, isWhitespace c = false
  value_ok : Unbroken value

def Field.line (f : Field) : List UInt8 := encode f.name ++ 58 :: f.value

def firstValue (name : String) (fields : List Field) : Option (List Char) :=
  fields.findSome? fun f => if lowered f.name = name.toList then some (trimText (lossy f.value)) else none

structure Head where
  version : List Char
  status : Nat
  reason : List UInt8
  fields : List Field
  version_ne : version ≠ []
  version_ok : ∀ c ∈ version, isWhitespace c = false
  status_le : status ≤ 65535
  reason_ok : Unbroken reason

namespace Head

variable (h : Head)

def statusLine : List UInt8 := encode (h.version ++ ' ' :: (Nat.toDigits 10 h.status ++ [' '])) ++ h.reason

def lines : List (List UInt8) := h.statusLine :: h.fields.map Field.line

def lookup (name : String) : Option (List Char) := firstValue name h.fields

end Head

def joined : List (List UInt8) → List UInt8
  | [] => []
  | [l] => l
  | l :: l' :: ls => l ++ 13 :: 10 :: joined (l' :: ls)

def answer (h : Head) (rest : List UInt8) : List UInt8 := joined h.lines ++ (BLANK ++ rest)

theorem Unbroken.append {a b : List UInt8} (ha : Unbroken a) (hb : Unbroken b) : Unbroken (a ++ b) := by
  simp only [Unbroken, List.mem_append, not_or]
  exact ⟨⟨ha.1, hb.1⟩, ha.2, hb.2⟩

theorem unbroken_encode {l : List Char} (h : ∀ c ∈ l, c ≠ '\r' ∧ c ≠ '\n') : Unbroken (encode l) :=
  ⟨fun hmem => (h _ (mem_encode (by decide) hmem)).1 rfl, fun hmem => (h _ (mem_encode (by decide) hmem)).2 rfl⟩

theorem not_lineEnd {c : Char} (h : isWhitespace c = false) : c ≠ '\r' ∧ c ≠ '\n' := by
  constructor
  · rintro rfl
    exact absurd h (by decide)
  · rintro rfl
    exact absurd h (by decide)

theorem digit_not_whitespace {n : Nat} {c : Char} (h : c ∈ Nat.toDigits 10 n) : isWhitespace c = false :=
  Decimal.isWhitespace_of_isDigit (Nat.isDigit_of_mem_toDigits (by decide) (by decide) h)

theorem Field.line_ok (f : Field) : f.line ≠ [] ∧ Unbroken f.line := by
  have hname : Unbroken (encode f.name) := unbroken_encode fun c hc => not_lineEnd (f.name_ok.2 c hc)
  have hcolon : Unbroken [58] := by decide
  refine ⟨by simp [line], ?_⟩
  exact hname.append (hcolon.append f.value_ok)

theorem Head.statusLine_ok (h : Head) : h.statusLine ≠ [] ∧ Unbroken h.statusLine := by
  constructor
  · obtain ⟨c, cs, hcs⟩ := List.exists_cons_of_ne_nil h.version_ne
    simp [statusLine, hcs, String.utf8EncodeChar_ne_nil]
  · refine Unbroken.append (unbroken_encode fun c hc => ?_) h.reason_ok
    simp only [List.mem_append, List.mem_cons, List.not_mem_nil, or_false] at hc
    rcases hc with hc | rfl | hc | rfl
    · exact not_lineEnd (h.version_ok c hc)
    · decide
    · exact not_lineEnd (digit_not_whitespace hc)
    · decide

theorem Head.lines_ok (h : Head) : ∀ l ∈ h.lines, l ≠ [] ∧ Unbroken l := by
  intro l hl
  rcases List.mem_cons.1 hl with rfl | hl
  · exact h.statusLine_ok
  · obtain ⟨f, -, rfl⟩ := List.mem_map.1 hl
    exact f.line_ok

/-! ### The header as it is read -/

theorem lossy_ne_nil {l : List UInt8} (h : l ≠ []) : lossy l ≠ [] := by
  rw [lossy_step h]
  cases head? l <;> exact List.cons_ne_nil _ _

theorem linesOf_joined {ls : List (List UInt8)} (h : ∀ l ∈ ls, l ≠ [] ∧ Unbroken l) :
    linesOf (lossy (joined ls)) = ls.map lossy := by
  have hline : ∀ {l : List UInt8}, Unbroken l → '\n' ∉ lossy l := by
    intro l hl hmem
    exact hl.2 (mem_of_lossy (by decide) hmem)
  induction ls with
  | nil => rfl
  | cons l ls ih =>
    obtain ⟨hl, hls⟩ := List.forall_mem_cons.1 h
    cases ls with
    | nil =>
      show linesOf (lossy l) = [lossy l]
      unfold linesOf
      rw [List.splitOn_eq_singleton (hline hl.2)]
      simp [lossy_ne_nil hl.1]
    | cons l' ls =>
      have hends : lossy (joined (l :: l' :: ls)) = lossy l ++ '\r' :: '\n' :: lossy (joined (l' :: ls)) := by
        show lossy (l ++ 13 :: 10 :: joined (l' :: ls)) = _
        rw [lossy_append_ascii (by decide), lossy_ascii_cons (by decide)]
        rfl
      rw [hends, linesOf_cons (hline hl.2), ih hls]
      rfl

theorem position_joined {ls : List (List UInt8)} (h : ∀ l ∈ ls, l ≠ [] ∧ Unbroken l) (rest : List UInt8) :
    position BLANK (joined ls ++ (BLANK ++ rest)) = some (joined ls).length := by
  have hskip : ∀ {l : List UInt8}, Unbroken l → ∀ x ∈ l, BLANK.head? ≠ some x := by
    rintro l hl x hx heq
    obtain rfl : (13 : UInt8) = x := Option.some.inj heq
    exact hl.1 hx
  induction ls with
  | nil => simp [joined, BLANK, position]
  | cons l ls ih =>
    obtain ⟨hl, hls⟩ := List.forall_mem_cons.1 h
    cases ls with
    | nil =>
      show position BLANK (l ++ (BLANK ++ rest)) = some l.length
      rw [position_append (hskip hl.2) (by decide)]
      simp [BLANK, position]
    | cons l' ls =>
      obtain ⟨hl', -⟩ := List.forall_mem_cons.1 hls
      obtain ⟨x, xs, hxs⟩ : ∃ x xs, joined (l' :: ls) ++ (BLANK ++ rest) = x :: xs ∧ x ≠ 13 := by
        obtain ⟨x, xs, rfl⟩ := List.exists_cons_of_ne_nil hl'.1
        have hx : x ≠ 13 := fun heq => hl'.2.1 (heq ▸ List.mem_cons_self)
        cases ls with
        | nil => exact ⟨x, _, rfl, hx⟩
        | cons l'' ls => exact ⟨x, _, rfl, hx⟩
      -- a line end with a line behind it is not the empty line
      have hcrlf : position BLANK (13 :: 10 :: x :: xs) = (position BLANK (x :: xs)).map (· + 2) := by
        have hfirst : ¬ BLANK <+: 13 :: 10 :: x :: xs := by
          simp [BLANK, hxs.2.symm]
        have hsecond : ¬ BLANK <+: 10 :: x :: xs := by
          simp [BLANK]
        rw [position, if_neg hfirst, position, if_neg hsecond, Option.map_map]
        rfl
      have hcons : joined (l :: l' :: ls) ++ (BLANK ++ rest) = l ++ (13 :: 10 :: x :: xs) := by
        rw [← hxs.1]
        simp [joined]
      rw [hcons, position_append (hskip hl.2) (by decide), hcrlf, ← hxs.1, ih hls]
      simp only [Option.map_some, joined, List.length_append, List.length_cons]
      congr 1
      omega

theorem trimText_word {front word back : List Char} (hfront : ∀ c ∈ front, isWhitespace c = true)
    (hword : ∀ c ∈ word, isWhitespace c = false) (hback : ∀ c ∈ back, isWhitespace c = true) :
    trimText (front ++ (word ++ back)) = word := by
  have hkeep : ∀ {l : List Char}, (∀ c ∈ l, isWhitespace c = false) → l.dropWhile isWhitespace = l := by
    intro l hl
    cases l with
    | nil => rfl
    | cons c l => rw [List.dropWhile_cons_of_neg (by simp [hl c])]
  have hstart : (((word ++ back).dropWhile isWhitespace).reverse.dropWhile isWhitespace).reverse = word := by
    cases word with
    | nil => rw [List.nil_append, List.dropWhile_eq_nil_iff.2 hback]; rfl
    | cons c word =>
      rw [List.cons_append, List.dropWhile_cons_of_neg (by simp [hword c]), ← List.cons_append, List.reverse_append,
        List.dropWhile_append_of_pos fun c hc => hback c (List.mem_reverse.1 hc),
        hkeep fun c hc => hword c (List.mem_reverse.1 hc), List.reverse_reverse]
  unfold trimText trim
  rw [String.toList_ofList, String.toList_ofList, List.dropWhile_append_of_pos hfront, hstart]

theorem parseUnsigned_digits {max : Nat} {ds : List Char} (hne : ds ≠ []) (hds : ∀ c ∈ ds, c.isDigit = true)
    (hmax : Nat.ofDigitChars 10 ds 0 ≤ max) : parseUnsigned max ds = some (Nat.ofDigitChars 10 ds 0) := by
  have hplus : ds.head? ≠ some '+' := by
    intro h
    exact absurd (hds _ (List.mem_of_mem_head? h)) (by decide)
  unfold parseUnsigned
  simp only [if_neg hplus]
  rw [if_pos ⟨hne, List.all_eq_true.2 hds, hmax⟩]

theorem parseStatus_head (h : Head) : parseStatus (lossy (joined h.lines)) = some h.status := by
  have hline : lossy h.statusLine = h.version ++ ' ' :: (Nat.toDigits 10 h.status ++ ' ' :: lossy h.reason) := by
    rw [Head.statusLine, lossy_encode_append]
    simp
  have hwords : (words (lossy h.statusLine))[1]? = some (Nat.toDigits 10 h.status) := by
    rw [hline]
    unfold words
    rw [List.splitOnP_append_cons_of_forall_mem h.version_ok ' ' (by decide),
      List.splitOnP_append_cons_of_forall_mem (fun c hc => digit_not_whitespace hc) ' ' (by decide)]
    simp [h.version_ne, Nat.toDigits_ne_nil]
  have hdigits : ∀ c ∈ Nat.toDigits 10 h.status, c.isDigit = true :=
    fun c hc => Nat.isDigit_of_mem_toDigits (by decide) (by decide) hc
  have hvalue : Nat.ofDigitChars 10 (Nat.toDigits 10 h.status) 0 = h.status :=
    Nat.ofDigitChars_toDigits (by decide) (by decide)
  have hparse := parseUnsigned_digits Nat.toDigits_ne_nil hdigits (hvalue.le.trans h.status_le)
  unfold parseStatus
  rw [linesOf_joined h.lines_ok, Head.lines, List.map_cons, List.head?_cons, Option.bind_some, hwords, Option.bind_some,
    hparse, hvalue]

theorem header_head (h : Head) (name : String) : header (lossy (joined h.lines)) name = h.lookup name := by
  have htrim : ∀ {l : List Char}, (∀ c ∈ l, isWhitespace c = false) → trimText l = l := by
    intro l hl
    have hword := trimText_word (List.forall_mem_nil _) hl (List.forall_mem_nil _)
    rwa [List.nil_append, List.append_nil] at hword
  unfold header Head.lookup firstValue
  rw [linesOf_joined h.lines_ok, Head.lines, List.map_cons, List.drop_one, List.tail_cons, List.map_map,
    List.findSome?_map]
  congr 1
  funext f
  have hline : lossy f.line = f.name ++ ':' :: lossy f.value := by
    rw [Field.line, lossy_encode_append, lossy_ascii_cons (by decide)]
    rfl
  simp only [Function.comp_apply, hline, splitOnce_append _ f.name_ok.1, htrim f.name_ok.2]

/-! ### The body -/

/-- A chunk's size as hexadecimal digits, and its extensions. -/
structure SizeLine (n : Nat) where
  digits : List Char
  pad : List Char
  ext : List UInt8
  digits_ne : digits ≠ []
  digits_ok : hexValue digits = some n
  pad_ok : ∀ c ∈ pad, c = ' ' ∨ c = '\t'
  ext_ok : ext = [] ∨ ext.head? = some 59
  ext_line : Unbroken ext

def SizeLine.bytes {n : Nat} (l : SizeLine n) : List UInt8 := encode (l.digits ++ l.pad) ++ l.ext

structure Chunk where
  data : List UInt8
  size : SizeLine data.length
  data_ne : data ≠ []

def Chunk.bytes (c : Chunk) : List UInt8 := c.size.bytes ++ (CRLF ++ (c.data ++ CRLF))

def chunkedBytes (chunks : List Chunk) (last : SizeLine 0) (trailer : List UInt8) : List UInt8 :=
  chunks.flatMap Chunk.bytes ++ (last.bytes ++ (CRLF ++ trailer))

/-- What stands behind the empty line says where the body ends. -/
inductive Framed (h : Head) (body : List Char) : List UInt8 → Prop
  | sized (ds : List Char) : h.lookup "transfer-encoding" = none → h.lookup "content-length" = some ds → ds ≠ [] →
    (∀ c ∈ ds, c.isDigit = true) → Nat.ofDigitChars 10 ds 0 = (encode body).length → Framed h body (encode body)
  | chunked (coding : List Char) (chunks : List Chunk) (last : SizeLine 0) (trailer : List UInt8) :
    h.lookup "transfer-encoding" = some coding → "chunked".toList <:+: lowered coding →
    chunks.flatMap Chunk.data = encode body → Framed h body (chunkedBytes chunks last trailer)

/-! ### Chunks as they are read -/

private theorem hex_small : ∀ n < 128, (hexVal (Char.ofNat n)).isSome →
    isWhitespace (Char.ofNat n) = false ∧ Char.ofNat n ≠ ';' ∧ Char.ofNat n ≠ '+' := by
  decide +kernel

theorem hex_plain {ds : List Char} {n : Nat} (h : hexValue ds = some n) :
    ∀ c ∈ ds, isWhitespace c = false ∧ c ≠ ';' ∧ c ≠ '+' := by
  intro c hc
  obtain ⟨vs, hvs, -⟩ := Option.map_eq_some_iff.1 h
  obtain ⟨v, hv⟩ := hexVal_of_mapM hvs c hc
  have hsmall := hex_small c.toNat (lt_of_hexVal hv)
  rw [Char.ofNat_toNat] at hsmall
  exact hsmall (by rw [hv]; rfl)

theorem take_crlf (after : List UInt8) (k : Nat) : (CRLF ++ after).take (2 + k) = CRLF ++ after.take k := by
  rw [Nat.add_comm]
  rfl

namespace SizeLine

variable {n : Nat} (l : SizeLine n)

theorem plain : ∀ c ∈ l.digits ++ l.pad, c ≠ '\r' ∧ c ≠ '\n' ∧ c ≠ ';' := by
  intro c hc
  rcases List.mem_append.1 hc with hc | hc
  · obtain ⟨hspace, hsemi, -⟩ := hex_plain l.digits_ok c hc
    obtain ⟨hr, hn⟩ := not_lineEnd hspace
    exact ⟨hr, hn, hsemi⟩
  · rcases l.pad_ok c hc with rfl | rfl <;> decide

theorem unbroken : Unbroken l.bytes :=
  (unbroken_encode fun c hc => ⟨(l.plain c hc).1, (l.plain c hc).2.1⟩).append l.ext_line

theorem trim_digits : trimText (l.digits ++ l.pad) = l.digits := by
  have hpad : ∀ c ∈ l.pad, isWhitespace c = true := by
    intro c hc
    rcases l.pad_ok c hc with rfl | rfl <;> decide
  have hword := trimText_word (List.forall_mem_nil _) (fun c hc => (hex_plain l.digits_ok c hc).1) hpad
  rwa [List.nil_append] at hword

theorem size_read (hn : n < 2 ^ 64) : fromStrRadix16 (trimText (((lossy l.bytes).splitOn ';').headD [])) = some n := by
  have hsemi : ';' ∉ l.digits ++ l.pad := fun hmem => (l.plain _ hmem).2.2 rfl
  have hhead : ((lossy l.bytes).splitOn ';').headD [] = l.digits ++ l.pad := by
    rw [bytes, lossy_encode_append]
    rcases l.ext_ok with hext | hext
    · rw [hext, show lossy [] = [] from rfl, List.append_nil, List.splitOn_eq_singleton hsemi]
      rfl
    · obtain ⟨more, hmore⟩ := List.head?_eq_some_iff.1 hext
      rw [hmore, lossy_ascii_cons (by decide), show Char.ofNat (UInt8.toNat 59) = ';' from rfl,
        List.splitOn_append_cons_self, List.splitOn_eq_singleton hsemi]
      rfl
  have hplus : l.digits.head? ≠ some '+' := by
    intro h
    exact (hex_plain l.digits_ok _ (List.mem_of_mem_head? h)).2.2 rfl
  unfold fromStrRadix16
  simp only [hhead, l.trim_digits, if_neg hplus, if_neg l.digits_ne, l.digits_ok]
  simpa [Option.filter] using hn

theorem position_crlf (after : List UInt8) : position CRLF (l.bytes ++ (CRLF ++ after)) = some l.bytes.length := by
  rw [position_append _ (by decide)]
  · simp [CRLF, position]
  · intro x hx heq
    obtain rfl : (13 : UInt8) = x := Option.some.inj heq
    exact l.unbroken.1 hx

theorem dechunk_size (hn : n < 2 ^ 64) (fuel : Nat) (after out : List UInt8) :
    dechunk (fuel + 1) (l.bytes ++ (CRLF ++ after)) out =
      if n = 0 then some (.ok out)
      else if after.length < n + 2 then some (.error "a chunked answer ends mid-chunk")
      else if CRLF <+: after.drop n then dechunk fuel ((after.drop n).drop 2) (out ++ after.take n)
      else some (.error "a chunk is not followed by its line end") := by
  have hlen : (l.bytes ++ (CRLF ++ after)).length = l.bytes.length + 2 + after.length := by
    simp [CRLF]
    omega
  have hline : (l.bytes ++ (CRLF ++ after)).take l.bytes.length = l.bytes := List.take_left
  have hafter : (l.bytes ++ (CRLF ++ after)).drop (l.bytes.length + 2) = after := by
    rw [← List.drop_drop, List.drop_left]
    rfl
  rw [dechunk, l.position_crlf after]
  dsimp only
  rw [slice_front (by omega), Option.bind_eq_bind, Option.bind_some, slice_back (by omega), Option.bind_some, hline,
    hafter, l.size_read hn]
  dsimp only
  by_cases hzero : n = 0
  · rw [if_pos hzero, if_pos hzero]
  · rw [if_neg hzero, if_neg hzero]
    by_cases hshort : n > after.length
    · rw [if_pos hshort, if_pos (by omega)]
    · rw [if_neg hshort, sub, if_pos (by omega), Option.bind_eq_bind, Option.bind_some]
      by_cases hend : after.length - n < 2
      · rw [if_pos hend, if_pos (by omega)]
      · rw [if_neg hend, if_neg (by omega), slice_front (by omega), Option.bind_some, slice_back (by omega),
          Option.bind_some]

theorem dechunk_cut (fuel : Nat) (after out : List UInt8) {m : Nat} (hm : m < l.bytes.length + 2) :
    dechunk (fuel + 1) ((l.bytes ++ (CRLF ++ after)).take m) out = some (.error "a chunked answer ends mid-chunk") := by
  rw [dechunk, position_take_none (l.position_crlf after) hm]

theorem take_bytes (after : List UInt8) (k : Nat) :
    (l.bytes ++ (CRLF ++ after)).take (l.bytes.length + 2 + k) = l.bytes ++ (CRLF ++ after.take k) := by
  rw [Nat.add_assoc, List.take_length_add_append, take_crlf]

end SizeLine

theorem dechunk_take (chunks : List Chunk) (last : SizeLine 0) (trailer : List UInt8)
    (hsmall : ∀ c ∈ chunks, c.data.length < 2 ^ 64) (m fuel : Nat) (out : List UInt8)
    (hfuel : ((chunkedBytes chunks last trailer).take m).length < fuel) :
    dechunk fuel ((chunkedBytes chunks last trailer).take m) out =
      some (if (chunkedBytes chunks last []).length ≤ m then .ok (out ++ chunks.flatMap Chunk.data)
        else .error "a chunked answer ends mid-chunk") := by
  induction chunks generalizing m fuel out with
  | nil =>
    obtain ⟨fuel, rfl⟩ : ∃ f, fuel = f + 1 := ⟨fuel - 1, by omega⟩
    have hbytes : ∀ more, chunkedBytes [] last more = last.bytes ++ (CRLF ++ more) := fun more => rfl
    have hlen : (chunkedBytes [] last []).length = last.bytes.length + 2 := by
      simp [hbytes, CRLF]
    rw [hbytes, hlen]
    by_cases hm : last.bytes.length + 2 ≤ m
    · obtain ⟨k, rfl⟩ := Nat.exists_eq_add_of_le hm
      rw [last.take_bytes, last.dechunk_size (by decide), if_pos rfl, if_pos hm]
      simp
    · rw [last.dechunk_cut fuel trailer out (by omega), if_neg hm]
  | cons c chunks ih =>
    obtain ⟨hc, hchunks⟩ := List.forall_mem_cons.1 hsmall
    obtain ⟨fuel, rfl⟩ : ∃ f, fuel = f + 1 := ⟨fuel - 1, by omega⟩
    have hbytes : ∀ more, chunkedBytes (c :: chunks) last more =
        c.size.bytes ++ (CRLF ++ (c.data ++ (CRLF ++ chunkedBytes chunks last more))) := by
      intro more
      simp [chunkedBytes, Chunk.bytes]
    have hlen : (chunkedBytes (c :: chunks) last []).length =
        c.size.bytes.length + 2 + (c.data.length + 2 + (chunkedBytes chunks last []).length) := by
      rw [hbytes]
      simp only [List.length_append, show CRLF.length = 2 from rfl]
      omega
    rw [hbytes] at hfuel ⊢
    rw [hlen]
    by_cases hm : c.size.bytes.length + 2 ≤ m
    · obtain ⟨k, rfl⟩ := Nat.exists_eq_add_of_le hm
      rw [c.size.take_bytes] at hfuel ⊢
      rw [c.size.dechunk_size hc, if_neg (mt List.length_eq_zero_iff.1 c.data_ne)]
      by_cases hk : c.data.length + 2 ≤ k
      · -- the chunk is whole
        obtain ⟨j, rfl⟩ := Nat.exists_eq_add_of_le hk
        have htake : (c.data ++ (CRLF ++ chunkedBytes chunks last trailer)).take (c.data.length + 2 + j) =
            c.data ++ (CRLF ++ (chunkedBytes chunks last trailer).take j) := by
          rw [Nat.add_assoc, List.take_length_add_append, take_crlf]
        rw [htake] at hfuel ⊢
        simp only [List.length_append, show CRLF.length = 2 from rfl] at hfuel ⊢
        have hdrop : (CRLF ++ (chunkedBytes chunks last trailer).take j).drop 2 =
            (chunkedBytes chunks last trailer).take j := rfl
        rw [if_neg (by omega), List.drop_left, List.take_left, if_pos (List.prefix_append _ _), hdrop,
          ih hchunks j fuel _ (by omega)]
        simp only [List.flatMap_cons, List.append_assoc]
        congr 1
        by_cases hj : (chunkedBytes chunks last []).length ≤ j
        · rw [if_pos hj, if_pos (by omega)]
        · rw [if_neg hj, if_neg (by omega)]
      · rw [if_pos, if_neg (by omega)]
        rw [List.length_take]
        omega
    · rw [c.size.dechunk_cut fuel _ out (by omega), if_neg (by omega)]

/-! ### Answers as they are read -/

theorem readBody_framed {h : Head} {body : List Char} {rest : List UInt8} (hframed : Framed h body rest)
    (hlen : rest.length < 2 ^ 64) (m : Nat) :
    readBody (lossy (joined h.lines)) (rest.take m) = some (.ok (encode body)) ∨
      (m < rest.length ∧ ∃ why, readBody (lossy (joined h.lines)) (rest.take m) = some (.error why)) := by
  unfold readBody
  rw [header_head, header_head]
  cases hframed with
  | sized ds hcoding hds hne hdigits hvalue =>
    have hparse : parseUnsigned (2 ^ 64 - 1) ds = some (Nat.ofDigitChars 10 ds 0) :=
      parseUnsigned_digits hne hdigits (by omega)
    rw [hcoding, hds, Option.any_none, if_neg (by decide)]
    simp only [hparse, hvalue, List.length_take]
    by_cases hm : m < (encode body).length
    · right
      exact ⟨hm, _, if_pos (by omega)⟩
    · left
      rw [if_neg (by omega), List.take_of_length_le (by omega), slice_front (Nat.le_refl _), List.take_length]
      rfl
  | chunked coding chunks last trailer hcoding hchunked hdata =>
    have hsmall : ∀ c ∈ chunks, c.data.length < 2 ^ 64 := by
      intro c hc
      obtain ⟨front, back, rfl⟩ := List.append_of_mem hc
      simp only [chunkedBytes, Chunk.bytes, List.flatMap_append, List.flatMap_cons, List.length_append] at hlen
      omega
    have hcontains : contains (lowered coding) "chunked" = true := position_isSome (by decide) hchunked
    rw [hcoding, Option.any_some, if_pos hcontains,
      dechunk_take chunks last trailer hsmall m _ [] (Nat.lt_succ_self _), List.nil_append, hdata]
    by_cases hm : (chunkedBytes chunks last []).length ≤ m
    · left
      rw [if_pos hm]
    · right
      rw [if_neg hm]
      refine ⟨?_, _, rfl⟩
      simp only [chunkedBytes, List.length_append, List.append_nil] at hm ⊢
      omega

theorem parseResponse_take {h : Head} {body : List Char} {rest : List UInt8} (hframed : Framed h body rest)
    (hlen : (answer h rest).length < MAX_ANSWER) (n : Nat) :
    parseResponse ((answer h rest).take n) = some (.ok (h.status, body)) ∨
      (n < (answer h rest).length ∧ ∃ why, parseResponse ((answer h rest).take n) = some (.error why)) := by
  have hpos := position_joined h.lines_ok rest
  have hlength : (answer h rest).length = (joined h.lines).length + 4 + rest.length := by
    simp only [answer, List.length_append, show BLANK.length = 4 from rfl]
    omega
  have hshort : ¬ ((answer h rest).take n).length ≥ MAX_ANSWER := by
    rw [List.length_take]
    omega
  unfold parseResponse
  rw [if_neg hshort]
  by_cases hn : n < (joined h.lines).length + 4
  · right
    refine ⟨by omega, "the answer has no headers", ?_⟩
    rw [answer, position_take_none hpos hn]
  · obtain ⟨m, rfl⟩ := Nat.exists_eq_add_of_le (Nat.le_of_not_lt hn)
    have htake : (answer h rest).take ((joined h.lines).length + 4 + m) = joined h.lines ++ (BLANK ++ rest.take m) := by
      rw [answer, Nat.add_assoc, List.take_length_add_append]
      congr 1
      rw [Nat.add_comm]
      rfl
    have hlen' : (joined h.lines ++ (BLANK ++ rest.take m)).length =
        (joined h.lines).length + 4 + (rest.take m).length := by
      simp only [List.length_append, show BLANK.length = 4 from rfl]
      omega
    have hbody : (joined h.lines ++ (BLANK ++ rest.take m)).drop ((joined h.lines).length + 4) = rest.take m := by
      rw [← List.drop_drop, List.drop_left]
      rfl
    rw [htake, position_joined h.lines_ok]
    dsimp only
    rw [slice_front (by omega), Option.bind_eq_bind, Option.bind_some, slice_back (by omega), Option.bind_some,
      List.take_left, hbody, parseStatus_head]
    dsimp only
    have hbig : MAX_ANSWER < 2 ^ 64 := by decide
    obtain hread | ⟨hm, why, hread⟩ := readBody_framed hframed (by omega) m
    · left
      rw [hread, Option.bind_eq_bind, Option.bind_some]
      dsimp only
      rw [fromUtf8_encode]
    · right
      rw [hread, Option.bind_eq_bind, Option.bind_some]
      exact ⟨by omega, why, rfl⟩

/-- A header field of a name without white space and a text. -/
def Field.ofText (name : String) (value : List Char)
    (hname : (name.toList.all fun c => c ≠ ':' && !isWhitespace c) = true)
    (hvalue : (value.all fun c => c ≠ '\r' && c ≠ '\n') = true) : Field where
  name := name.toList
  value := encode value
  name_ok := by
    have hall : ∀ c ∈ name.toList, c ≠ ':' ∧ isWhitespace c = false := by
      simpa using hname
    exact ⟨fun hmem => (hall _ hmem).1 rfl, fun c hc => (hall c hc).2⟩
  value_ok := unbroken_encode (by simpa using hvalue)

theorem firstValue_cons_eq {name : String} {f : Field} {fields : List Field} (h : lowered f.name = name.toList) :
    firstValue name (f :: fields) = some (trimText (lossy f.value)) := by
  unfold firstValue
  rw [List.findSome?_cons, if_pos h]

/-! ### Cut short -/

/-- An answer is read as its status and its body, a part of it as nothing else, and every answer as something. -/
theorem truncated_answer :
    (∀ (h : Head) (body : List Char) (rest : List UInt8), Framed h body rest → (answer h rest).length < MAX_ANSWER →
      parseResponse (answer h rest) = some (.ok (h.status, body)) ∧
      ∀ part, part <+: answer h rest → part ≠ answer h rest →
        (∃ why, parseResponse part = some (.error why)) ∨ parseResponse part = some (.ok (h.status, body))) ∧
    ∀ raw, ∃ r, parseResponse raw = some r := by
  refine ⟨fun h body rest hframed hlen => ⟨?_, ?_⟩, parseResponse_isSome⟩
  · obtain hread | ⟨hlt, -⟩ := parseResponse_take hframed hlen (answer h rest).length
    · rwa [List.take_length] at hread
    · exact absurd hlt (Nat.lt_irrefl _)
  · intro part hpart _
    rw [List.prefix_iff_eq_take] at hpart
    rw [hpart]
    obtain hread | ⟨-, hread⟩ := parseResponse_take hframed hlen part.length
    · exact .inr hread
    · exact .inl hread

private def sampleHead : Head where
  version := "HTTP/1.1".toList
  status := 200
  reason := encode "OK".toList
  fields := [.ofText "Transfer-Encoding" " Chunked".toList (by decide +kernel) (by decide +kernel)]
  version_ne := by decide
  version_ok := by simp; decide
  status_le := by decide
  reason_ok := by decide

private def sampleChunks : List Chunk := [
  ⟨[34, 0xC3], ⟨['2'], [' '], encode ";x=y".toList, by decide, rfl, by simp, by decide, by decide⟩, by decide⟩,
  ⟨[0xA9, 34], ⟨['0', '2'], [], [], by decide, rfl, by simp, by decide, by decide⟩, by decide⟩]

private def sampleEnd : SizeLine 0 := ⟨['0'], [], [], by decide, rfl, by simp, by decide, by decide⟩

theorem truncated_answer_sample :
    parseResponse (answer sampleHead (chunkedBytes sampleChunks sampleEnd CRLF)) =
      some (.ok (200, ['"', 'é', '"'])) ∧
    ∀ part, part <+: answer sampleHead (chunkedBytes sampleChunks sampleEnd CRLF) →
      part ≠ answer sampleHead (chunkedBytes sampleChunks sampleEnd CRLF) →
      (∃ why, parseResponse part = some (.error why)) ∨
        parseResponse part = some (.ok (200, ['"', 'é', '"'])) := by
  have hcoding : lowered "Transfer-Encoding".toList = "transfer-encoding".toList := by decide +kernel
  have hframed : Framed sampleHead ['"', 'é', '"'] (chunkedBytes sampleChunks sampleEnd CRLF) :=
    .chunked _ sampleChunks sampleEnd CRLF (firstValue_cons_eq hcoding) (by decide +kernel) (by decide)
  exact truncated_answer.1 sampleHead _ _ hframed (by decide +kernel)

end HidraNet.Core.Http
