import HidraNet.Core.RequestLines

/-!
# Requests cut short

What a server makes of a part of a client's request that is followed by the end of the stream.  A cut in the header,
from the path's first sign to the colon of `Content-Length`, leaves a request that is served, and so does every later
one where the body is empty; the other cuts are refused (`cut_refused_iff`).
-/

namespace HidraNet.Core.Http

open Hidramail (trimText lowered)
open Lines Net Text Utf8

namespace Request

variable (r : Request)

def Readable : Prop :=
  r.method ≠ [] ∧ r.path.head? = some '/' ∧ r.headerLength ≤ MAX_HEADERS ∧ r.bytes.length ≤ MAX_HEADERS + MAX_BODY

/-- The cuts that a server notices: before the path, inside a character, behind the colon of `Content-Length` if there
is a body or no digit yet, and past the limit of a header. -/
def RefusedAt (n : Nat) : Prop :=
  n ≤ (encode r.method).length + 1 ∨ (∀ t, t <+: r.text → (encode t).length ≠ n) ∨
    (r.lengthStart ≤ n ∧ (r.body ≠ [] ∨ n < r.lengthStart + 2)) ∨ (MAX_HEADERS < n ∧ n < r.headerLength + 2)

variable {name : String} {value p : List Char} {total len : Nat} {ctype : Option (List Char)}

/-! ### One line after the other -/

theorem lf_host : '\n' ∉ "Host".toList ++ (' ' :: r.host) := by
  have hname := host_name.2.1
  have hhost : '\n' ∉ r.host := fun h => (not_lineEnd (r.host_ok _ h)).2 rfl
  simp only [List.mem_append, List.mem_cons, not_or]
  exact ⟨hname, by decide, hhost⟩

theorem lf_length : '\n' ∉ "Content-Length".toList ++ (' ' :: Nat.toDigits 10 (encode r.body).length) := by
  have hname := length_name.2.1
  have hdigits : '\n' ∉ Nat.toDigits 10 (encode r.body).length :=
    fun h => (not_lineEnd (digit_not_whitespace h)).2 rfl
  simp only [List.mem_append, List.mem_cons, not_or]
  exact ⟨hname, by decide, hdigits⟩

theorem goOn_whole {len' : Nat} {ctype' : Option (List Char)} (h : '\n' ∉ name.toList ++ value)
    (hread : readHeader (fieldLine name value) len ctype = .ok (len', ctype'))
    (hlen : total + (encode (fieldLine name value)).length ≤ MAX_HEADERS) (more : List UInt8) :
    r.goOn total len ctype (encode (fieldLine name value) ++ more) =
      r.goOn (total + (encode (fieldLine name value)).length) len' ctype' more := by
  rw [r.goOn_line h, if_neg (Nat.not_lt.2 hlen), hread]

theorem goOn_host (hlen : total + (encode r.hostLine).length ≤ MAX_HEADERS) (more : List UInt8) :
    r.goOn total len ctype (encode r.hostLine ++ more) = r.goOn (total + (encode r.hostLine).length) len ctype more :=
  r.goOn_whole r.lf_host (r.readHeader_host (List.prefix_refl _)) hlen more

theorem goOn_type (hlen : total + (encode typeLine).length ≤ MAX_HEADERS) (more : List UInt8) :
    r.goOn total len ctype (encode typeLine ++ more) =
      r.goOn (total + (encode typeLine).length) len (some "application/json".toList) more :=
  r.goOn_whole type_name.2.1 readHeader_type hlen more

theorem goOn_length (hlen : total + (encode r.lengthLine).length ≤ MAX_HEADERS) (more : List UInt8) :
    r.goOn total len ctype (encode r.lengthLine ++ more) =
      r.goOn (total + (encode r.lengthLine).length) (encode r.body).length ctype more :=
  r.goOn_whole r.lf_length r.readHeader_length hlen more

theorem goOn_close (hlen : total + (encode closeLine).length ≤ MAX_HEADERS) (more : List UInt8) :
    r.goOn total len ctype (encode closeLine ++ more) = r.goOn (total + (encode closeLine).length) len ctype more :=
  r.goOn_whole close_name.2.1 (readHeader_close (List.prefix_refl _)) hlen more

theorem cut_host {q : List Char} (hq : q <+: r.hostLine) (hlt : q.length < r.hostLine.length)
    (hlen : total + (encode r.hostLine).length ≤ MAX_HEADERS) : ¬ Refused (r.goOn total 0 ctype (encode q)) := by
  have hle := length_encode_mono hq
  rw [r.goOn_cut r.lf_host hq hlt (by omega), r.readHeader_host hq]
  exact r.takeBody_none ctype

theorem cut_type {q : List Char} (hq : q <+: typeLine) (hlt : q.length < typeLine.length)
    (hlen : total + (encode typeLine).length ≤ MAX_HEADERS) : ¬ Refused (r.goOn total 0 ctype (encode q)) := by
  have hle := length_encode_mono hq
  obtain ⟨ctype', hread⟩ := readHeader_type_cut hq 0 ctype
  rw [r.goOn_cut type_name.2.1 hq hlt (by omega), hread]
  exact r.takeBody_none ctype'

theorem refused_takeBody (ctype : Option (List Char)) : Refused (takeBody r.method r.path len ctype []) ↔ 0 < len := by
  constructor
  · intro h
    by_contra hzero
    obtain rfl := Nat.eq_zero_of_not_pos hzero
    exact r.takeBody_none ctype h
  · exact r.takeBody_missing ctype

theorem body_ne_iff : r.body ≠ [] ↔ 0 < (encode r.body).length := by
  cases r.body with
  | nil => simp
  | cons c l =>
    have hpos := c.utf8Size_pos
    rw [encode_cons, List.length_append, String.length_utf8EncodeChar]
    simp only [ne_eq, reduceCtorEq, not_false_eq_true, true_iff]
    omega

theorem ascii_digits {n : Nat} : ∀ c ∈ Nat.toDigits 10 n, c.toNat < 128 := by
  intro c hc
  have hd := Char.isDigit_iff_toNat.1 (Nat.isDigit_of_mem_toDigits (by decide) (by decide) hc)
  have hnine : '9'.toNat = 57 := rfl
  omega

theorem cut_length {q : List Char} (hq : q <+: r.lengthLine) (hlt : q.length < r.lengthLine.length)
    (hlen : total + (encode r.lengthLine).length ≤ MAX_HEADERS) :
    Refused (r.goOn total 0 ctype (encode q)) ↔ (encode "Content-Length:".toList).length ≤ (encode q).length ∧
      (r.body ≠ [] ∨ (encode q).length < (encode "Content-Length:".toList).length + 2) := by
  obtain ⟨hcolon, -, -, hname⟩ := length_name
  have hle := length_encode_mono hq
  rw [r.goOn_cut r.lf_length hq hlt (by omega), hname.2]
  rcases prefix_fieldLine hq with hpre | ⟨v, hv, rfl⟩
  · have hshort := length_encode_mono hpre
    rw [readHeader_plain (fun hmem => hcolon (hpre.subset hmem))]
    simp only [r.refused_takeBody]
    omega
  · have hascii : ∀ c ∈ v, c.toNat < 128 := by
      intro c hc
      have hmem := hv.subset hc
      simp only [List.mem_append, List.mem_cons, List.not_mem_nil, or_false] at hmem
      rcases hmem with (rfl | hdigit) | rfl | rfl
      · decide
      · exact ascii_digits c hdigit
      · decide
      · decide
    have hlength : (encode ("Content-Length".toList ++ ':' :: v)).length = 15 + v.length := by
      rw [encode_append, encode_cons, List.length_append, List.length_append, hname.1, length_encode_ascii hascii,
        show (String.utf8EncodeChar ':').length = 1 from rfl]
      omega
    rw [hlength]
    rcases r.readHeader_length_cut hv 0 ctype with ⟨hshort, hread⟩ | ⟨hlong, m, hm, hpos, hread⟩
    · rw [hread]
      simp only [refused_error, true_iff]
      omega
    · rw [hread]
      simp only [r.refused_takeBody, body_ne_iff]
      omega

theorem cut_end {q : List Char} (hq : q <+: closeLine ++ ['\r'])
    (hlen : total + (encode closeLine).length ≤ MAX_HEADERS) :
    Refused (r.goOn total (encode r.body).length ctype (encode q)) ↔
      r.body ≠ [] ∨ MAX_HEADERS < total + (encode q).length := by
  rcases prefix_append_cases hq with ⟨hpre, hlt⟩ | ⟨w, hw, rfl⟩
  · have hle := length_encode_mono hpre
    rw [r.goOn_cut close_name.2.1 hpre hlt (by omega), readHeader_close hpre]
    simp only [r.refused_takeBody, body_ne_iff]
    omega
  · rw [encode_append, r.goOn_close hlen, List.length_append]
    cases w with
    | nil =>
      show Refused (takeBody r.method r.path _ ctype []) ↔ _
      simp only [r.refused_takeBody, body_ne_iff, encode_nil, List.length_nil]
      omega
    | cons c w =>
      obtain ⟨rfl, hnil⟩ := List.cons_prefix_cons.1 hw
      obtain rfl := List.prefix_nil.1 hnil
      have hone : (encode ['\r']).length = 1 := rfl
      by_cases hlimit : MAX_HEADERS < total + (encode closeLine).length + 1
      · obtain ⟨why, herror⟩ : ∃ why, readHeaders ([[13]] ++ []) (total + (encode closeLine).length)
            (encode r.body).length ctype = .error why :=
          readHeaders_long (by simp) (by simp [Blank]) [] hlimit _ ctype
        have hlines : lineList (encode ['\r']) = [[13]] ++ [] := rfl
        unfold goOn
        rw [hlines, herror, hone]
        simp only [refused_error, true_iff]
        omega
      · unfold goOn
        rw [readHeaders_ended (by decide) (by omega), readHeader_plain (by decide), hone]
        simp only [r.refused_takeBody, body_ne_iff]
        omega

/-! ### A cut in the header -/

theorem headerLength_eq : r.headerLength = (encode r.firstLine).length + ((encode r.hostLine).length +
    ((encode typeLine).length + ((encode r.lengthLine).length + (encode closeLine).length))) := by
  simp only [headerLength, header, encode_append, List.length_append]

theorem length_firstLine : (encode r.method).length + 2 ≤ (encode r.firstLine).length := by
  have hversion := version_word.2.2.2
  rw [firstLine, encode_append, encode_cons, encode_append]
  simp only [List.length_append, hversion]
  omega

theorem length_lengthLine : 17 ≤ (encode r.lengthLine).length := by
  obtain ⟨-, -, -, hname, -⟩ := length_name
  have hdigits := List.length_pos_of_ne_nil (Nat.toDigits_ne_nil (b := 10) (n := (encode r.body).length))
  have hascii : ∀ c ∈ Nat.toDigits 10 (encode r.body).length, c.toNat < 128 := ascii_digits
  have hone : (String.utf8EncodeChar ':').length = 1 ∧ (String.utf8EncodeChar ' ').length = 1 := ⟨rfl, rfl⟩
  rw [lengthLine, fieldLine, encode_append, encode_cons, encode_append, encode_cons]
  simp only [List.length_append, hname, hone, length_encode_ascii hascii]
  omega

theorem refused_cut (hmethod : r.method ≠ []) (hpath : r.path.head? = some '/') (hlimit : r.headerLength ≤ MAX_HEADERS)
    {t : List Char} (ht : t <+: r.header ++ ['\r']) :
    Refused (readTaken (encode t)) ↔ (encode t).length ≤ (encode r.method).length + 1 ∨
      (r.lengthStart ≤ (encode t).length ∧ (r.body ≠ [] ∨ (encode t).length < r.lengthStart + 2)) ∨
      MAX_HEADERS < (encode t).length := by
  have htotal := r.headerLength_eq
  have hfirst := r.length_firstLine
  have hstart : r.lengthStart = (encode r.firstLine).length + (encode r.hostLine).length + (encode typeLine).length +
    (encode "Content-Length:".toList).length := rfl
  obtain ⟨-, -, -, -, hname⟩ := length_name
  have hlengthLine := r.length_lengthLine
  have hsplit : r.header ++ ['\r'] =
      r.firstLine ++ (r.hostLine ++ (typeLine ++ (r.lengthLine ++ (closeLine ++ ['\r'])))) := by
    simp only [header, List.append_assoc]
  rw [hsplit] at ht
  rcases prefix_append_cases ht with ⟨hpre, hlt⟩ | ⟨q₁, hq₁, rfl⟩
  · -- the first line is cut
    have hle := length_encode_mono hpre
    have hlf : '\n' ∉ t := by
      rw [firstLine_eq] at hpre hlt
      exact fun hmem => r.lf_first ((prefix_of_cut hpre hlt).subset hmem)
    have hline := r.requestLine_cut hmethod hpath hpre
    rw [readTaken_ended hlf]
    cases hread : requestLine t with
    | none =>
      simp only [refused_error, true_iff]
      exact .inl (hline.1 hread)
    | some parts =>
      have hnot : ¬ (encode t).length ≤ (encode r.method).length + 1 := by
        intro hle'
        rw [hline.2 hle'] at hread
        cases hread
      simp only [not_refused_ok, false_iff]
      omega
  rw [encode_append, r.readTaken_first hmethod hpath, List.length_append]
  rcases prefix_append_cases hq₁ with ⟨hpre, hlt⟩ | ⟨q₂, hq₂, rfl⟩
  · have hle := length_encode_mono hpre
    simp only [r.cut_host hpre hlt (by omega : (encode r.firstLine).length + _ ≤ _), false_iff]
    omega
  rw [encode_append, r.goOn_host (by omega), List.length_append]
  rcases prefix_append_cases hq₂ with ⟨hpre, hlt⟩ | ⟨q₃, hq₃, rfl⟩
  · have hle := length_encode_mono hpre
    simp only [r.cut_type hpre hlt (by omega : (encode r.firstLine).length + (encode r.hostLine).length + _ ≤ _),
      false_iff]
    omega
  rw [encode_append, r.goOn_type (by omega), List.length_append]
  rcases prefix_append_cases hq₃ with ⟨hpre, hlt⟩ | ⟨q₄, hq₄, rfl⟩
  · have hle := length_encode_mono hpre
    rw [r.cut_length hpre hlt (by omega), r.body_ne_iff]
    omega
  rw [encode_append, r.goOn_length (by omega), List.length_append, r.cut_end hq₄ (by omega),
    r.body_ne_iff]
  omega

/-! ### A cut in the body, and the whole -/

theorem bytes_eq : r.bytes = encode r.header ++ 13 :: 10 :: encode r.body := by
  rw [bytes, text_eq, encode_append]
  rfl

theorem readTaken_header (hmethod : r.method ≠ []) (hpath : r.path.head? = some '/')
    (hlimit : r.headerLength ≤ MAX_HEADERS) (tail : List UInt8) :
    readTaken (encode r.header ++ 13 :: 10 :: tail) =
      if tail.length < (encode r.body).length then .error "early eof"
      else .ok ⟨r.method, r.path, some "application/json".toList, tail.take (encode r.body).length⟩ := by
  have htotal := r.headerLength_eq
  have hbody : ¬ (encode r.body).length > MAX_BODY := Nat.not_lt.2 r.body_le
  simp only [header, encode_append, List.append_assoc]
  rw [r.readTaken_first hmethod hpath, r.goOn_host (by omega), r.goOn_type (by omega), r.goOn_length (by omega),
    r.goOn_close (by omega)]
  show takeBody r.method r.path _ _ (lineList tail) = _
  rw [takeBody, if_neg hbody, flatten_lineList]

theorem readTaken_bytes (h : r.Readable) : readTaken r.bytes = .ok r.asRead := by
  rw [bytes_eq, r.readTaken_header h.1 h.2.1 h.2.2.1, if_neg (Nat.lt_irrefl _), List.take_length]
  rfl

theorem length_bytes : r.bytes.length = r.headerLength + 2 + (encode r.body).length := by
  rw [bytes_eq]
  simp only [List.length_append, List.length_cons, headerLength]
  omega

theorem take_bytes (j : Nat) :
    r.bytes.take (r.headerLength + 2 + j) = encode r.header ++ 13 :: 10 :: (encode r.body).take j := by
  have hadd : 2 + j = j + 1 + 1 := by omega
  rw [bytes_eq, headerLength, Nat.add_assoc, List.take_length_add_append, hadd, List.take_succ_cons,
    List.take_succ_cons]

theorem refused_body (hmethod : r.method ≠ []) (hpath : r.path.head? = some '/') (hlimit : r.headerLength ≤ MAX_HEADERS)
    {n : Nat} (hn : r.headerLength + 2 ≤ n) (hlt : n < r.bytes.length) : Refused (readTaken (r.bytes.take n)) := by
  obtain ⟨j, rfl⟩ := Nat.exists_eq_add_of_le hn
  rw [length_bytes] at hlt
  have hshort : ((encode r.body).take j).length < (encode r.body).length := by
    rw [List.length_take]
    omega
  rw [take_bytes, r.readTaken_header hmethod hpath hlimit, if_pos hshort]
  exact refused_error _

/-! ### The rest of the cuts, and the limits -/

def fronts : List (List Char) :=
  [r.method ++ ' ' :: (r.path ++ " HTTP/1.1\r".toList), "Host".toList ++ ':' :: ((' ' :: r.host) ++ ['\r']),
    "Content-Type".toList ++ ':' :: (" application/json".toList ++ ['\r']),
    "Content-Length".toList ++ ':' :: ((' ' :: Nat.toDigits 10 (encode r.body).length) ++ ['\r']),
    "Connection".toList ++ ':' :: (" close".toList ++ ['\r'])]

theorem fronts_ok : ∀ l ∈ r.fronts.map encode, 10 ∉ l ∧ l ≠ [] ∧ l ≠ [13] := by
  have hsign : ∀ {l : List Char} (d : Char), d ∈ l → d ≠ '\r' → '\n' ∉ l →
      10 ∉ encode l ∧ encode l ≠ [] ∧ encode l ≠ [13] := by
    intro l d hd hcr hlf
    refine ⟨lf_not_mem hlf, ?_, ?_⟩
    · intro hnil
      have hl : l = [] := encode_injective hnil
      rw [hl] at hd
      cases hd
    · intro hone
      have hl : l = ['\r'] := encode_injective hone
      rw [hl, List.mem_singleton] at hd
      exact hcr hd
  intro l hl
  obtain ⟨f, hf, rfl⟩ := List.mem_map.1 hl
  simp only [fronts, List.mem_cons, List.not_mem_nil, or_false] at hf
  rcases hf with rfl | rfl | rfl | rfl | rfl
  · exact hsign ' ' (by simp) (by decide) r.lf_first
  · exact hsign ':' (by simp) (by decide) (lf_front r.lf_host)
  · exact hsign ':' (List.mem_append_right _ List.mem_cons_self) (by decide) (lf_front type_name.2.1)
  · exact hsign ':' (by simp) (by decide) (lf_front r.lf_length)
  · exact hsign ':' (List.mem_append_right _ List.mem_cons_self) (by decide) (lf_front close_name.2.1)

theorem encode_header : encode r.header = ((r.fronts.map encode).map (· ++ [10])).flatten := by
  have hlf : ∀ l, encode (l ++ ['\n']) = encode l ++ [10] := by
    intro l
    rw [encode_append]
    rfl
  simp only [header, hostLine, typeLine, lengthLine, closeLine, firstLine_eq, fieldLine_eq, encode_append _ (_ ++ _),
    hlf, fronts, List.map_cons, List.map_nil, List.flatten_cons, List.flatten_nil, List.append_nil]

theorem prefix_of_encode {t text : List Char} (h : encode t <+: encode text) : t <+: text := by
  obtain ⟨rest, hrest⟩ := h
  have hread := congrArg lossy hrest
  rw [lossy_encode_append, lossy_encode] at hread
  exact ⟨lossy rest, hread⟩

theorem take_header {n : Nat} (hn : n ≤ r.headerLength + 1) :
    r.bytes.take n = (((r.fronts.map encode).map (· ++ [10])).flatten ++ [13]).take n := by
  have hlen : n ≤ (((r.fronts.map encode).map (· ++ [10])).flatten ++ [13]).length := by
    rw [← encode_header, List.length_append]
    exact hn
  have hbytes : r.bytes = (((r.fronts.map encode).map (· ++ [10])).flatten ++ [13]) ++ 10 :: encode r.body := by
    rw [bytes_eq, encode_header, List.append_assoc]
    rfl
  rw [hbytes, List.take_append_of_le_length hlen]

theorem refused_within (hmethod : r.method ≠ []) (hpath : r.path.head? = some '/')
    (hlimit : r.headerLength ≤ MAX_HEADERS) {n : Nat} (hn : n ≤ r.headerLength + 1) (hlt : n < r.bytes.length) :
    Refused (readTaken (r.bytes.take n)) ↔ r.RefusedAt n := by
  by_cases hchar : ∃ t, t <+: r.text ∧ (encode t).length = n
  · obtain ⟨t, ht, rfl⟩ := hchar
    have htake : r.bytes.take (encode t).length = encode t := by
      obtain ⟨rest, hrest⟩ := ht
      rw [bytes, ← hrest, encode_append, List.take_left]
    have hheader : t <+: r.header ++ ['\r'] := by
      have hwhole : r.header ++ ['\r'] <+: r.text := by
        rw [text_eq]
        exact ⟨'\n' :: r.body, by simp⟩
      rcases List.prefix_or_prefix_of_prefix ht hwhole with hpre | ⟨q, rfl⟩
      · exact hpre
      · -- nothing fits behind the whole header
        have hq : q = [] := by
          have hone : (encode ['\r']).length = 1 := rfl
          simp only [encode_append, List.length_append, hone] at hn
          unfold headerLength at hn
          have hlen : (encode q).length = 0 := by omega
          exact encode_injective (List.length_eq_zero_iff.1 hlen)
        rw [hq, List.append_nil]
    rw [htake, r.refused_cut hmethod hpath hlimit hheader]
    have hnot : ¬ ∀ t', t' <+: r.text → (encode t').length ≠ (encode t).length := fun h => h t ht rfl
    unfold RefusedAt
    simp only [hnot, false_or]
    have hend : (encode t).length < r.headerLength + 2 := by omega
    simp only [hend, and_true]
  · have hcut : r.RefusedAt n := .inr (.inl fun t ht hlen => hchar ⟨t, ht, hlen⟩)
    refine ⟨fun _ => hcut, fun _ => ?_⟩
    cases hread : readTaken (r.bytes.take n) with
    | error why => exact refused_error why
    | ok q =>
      obtain ⟨t, ht⟩ := encode_of_readTaken (by rw [r.take_header hn]; exact not_blank_take r.fronts_ok n) hread
      have hpre : encode t <+: encode r.text := by
        rw [← ht]
        exact List.take_prefix n r.bytes
      refine absurd ⟨t, prefix_of_encode hpre, ?_⟩ hchar
      rw [← ht, List.length_take]
      omega

theorem encode_rest : r.bytes =
    encode r.firstLine ++ (((r.fronts.tail.map encode).map (· ++ [10])).flatten ++ 13 :: 10 :: encode r.body) := by
  have hfirst : encode r.firstLine = encode (r.method ++ ' ' :: (r.path ++ " HTTP/1.1\r".toList)) ++ [10] := by
    rw [firstLine_eq, encode_append]
    rfl
  rw [bytes_eq, encode_header, hfirst]
  simp only [fronts, List.map_cons, List.flatten_cons, List.tail_cons, List.append_assoc]

theorem length_rest : (encode r.firstLine).length + (((r.fronts.tail.map encode).map (· ++ [10])).flatten).length =
    r.headerLength := by
  have hlen := congrArg List.length r.encode_rest
  rw [length_bytes] at hlen
  simp only [List.length_append, List.length_cons] at hlen
  omega

theorem refused_long {m : Nat} (hlong : MAX_HEADERS < r.headerLength)
    (hm : MAX_HEADERS < (encode r.firstLine).length + m) (hne : 0 < m) (len : Nat) (ctype : Option (List Char)) :
    Refused (r.goOn (encode r.firstLine).length len ctype
      ((((r.fronts.tail.map encode).map (· ++ [10])).flatten ++ 13 :: 10 :: encode r.body).take m)) := by
  have hok : ∀ l ∈ r.fronts.tail.map encode, 10 ∉ l ∧ l ≠ [] ∧ l ≠ [13] := by
    intro l hl
    obtain ⟨f, hf, rfl⟩ := List.mem_map.1 hl
    exact r.fronts_ok _ (List.mem_map_of_mem (List.mem_of_mem_tail hf))
  have hlen := r.length_rest
  have hrefused : ∀ (lines rest : List (List UInt8)) (more : List UInt8), lines ≠ [] → (∀ l ∈ lines, ¬ Blank l) →
      MAX_HEADERS < (encode r.firstLine).length + lines.flatten.length → lineList more = lines ++ rest →
      Refused (r.goOn (encode r.firstLine).length len ctype more) := by
    intro lines rest more hlines hblank hbig hmore
    obtain ⟨why, hwhy⟩ := readHeaders_long hlines hblank rest hbig len ctype
    unfold goOn
    rw [hmore, hwhy]
    exact refused_error why
  have hpos : r.fronts.tail.map encode ≠ [] := by
    simp [fronts]
  generalize r.fronts.tail.map encode = ls at hok hlen hpos ⊢
  by_cases hcut : m ≤ ((ls.map (· ++ [10])).flatten).length
  · -- the header is cut
    have htake : ((ls.map (· ++ [10])).flatten ++ 13 :: 10 :: encode r.body).take m =
        ((ls.map (· ++ [10])).flatten ++ [13]).take m := by
      rw [List.take_append_of_le_length hcut, List.take_append_of_le_length hcut]
    have hlength : (((ls.map (· ++ [10])).flatten ++ [13]).take m).length = m := by
      rw [List.length_take, List.length_append]
      omega
    rw [htake]
    refine hrefused _ [] _ ?_ (not_blank_take hok m) ?_ (List.append_nil _).symm
    · intro hnil
      have hflat := flatten_lineList (((ls.map (· ++ [10])).flatten ++ [13]).take m)
      rw [hnil, List.flatten_nil] at hflat
      rw [← hflat, List.length_nil] at hlength
      omega
    · rw [flatten_lineList, hlength]
      exact hm
  · obtain ⟨k, rfl⟩ := Nat.exists_eq_add_of_le (Nat.le_of_not_le hcut)
    rw [List.take_length_add_append]
    refine hrefused _ _ _ ?_ ?_ ?_ (lineList_lines (fun l hl => (hok l hl).1) _)
    · simpa using hpos
    · intro x hx
      refine not_blank_take hok (((ls.map (· ++ [10])).flatten).length + 1) x ?_
      rw [List.take_of_length_le (by simp), lineList_lines fun l hl => (hok l hl).1]
      exact List.mem_append_left _ hx
    · rw [hlen]
      exact hlong

theorem readable_of_ok (h : readRequest r.bytes = .ok r.asRead) : r.Readable := by
  have hlimits : MAX_HEADERS = 8192 ∧ MAX_BODY = 16384 := ⟨rfl, rfl⟩
  have hone : ∀ {s : List UInt8}, (lineList s).tail = [] → readTaken s ≠ .ok r.asRead := by
    intro s hs hread
    cases contentType_of_line hs hread
  unfold readRequest at h
  have hfirst : (encode r.firstLine).length ≤ MAX_HEADERS + MAX_BODY := by
    by_contra hlong
    have hbytes : r.bytes = encode (r.method ++ ' ' :: (r.path ++ " HTTP/1.1\r".toList)) ++ ([10] ++
        (((r.fronts.tail.map encode).map (· ++ [10])).flatten ++ 13 :: 10 :: encode r.body)) := by
      rw [encode_rest, firstLine_eq, encode_append, List.append_assoc]
      rfl
    have hlen : (encode r.firstLine).length =
        (encode (r.method ++ ' ' :: (r.path ++ " HTTP/1.1\r".toList))).length + 1 := by
      rw [firstLine_eq, encode_append, List.length_append]
      rfl
    refine hone (tail_lineList ?_) h
    rw [hbytes, List.take_append_of_le_length (by omega)]
    exact fun hmem => lf_not_mem r.lf_first (List.mem_of_mem_take hmem)
  obtain ⟨m, hm⟩ := Nat.exists_eq_add_of_le hfirst
  have htake : r.bytes.take (MAX_HEADERS + MAX_BODY) = encode r.firstLine ++
      ((((r.fronts.tail.map encode).map (· ++ [10])).flatten ++ 13 :: 10 :: encode r.body).take m) := by
    rw [hm, encode_rest, List.take_length_add_append]
  rw [htake] at h
  have hparts : r.method ≠ [] ∧ r.path.head? = some '/' := by
    have hline := r.requestLine_first
    rw [firstLine_eq] at hline h
    rw [readTaken_line r.lf_first, hline] at h
    by_contra hbad
    rw [if_pos (by tauto)] at h
    cases h
  have hheader : r.headerLength ≤ MAX_HEADERS := by
    by_contra hlong
    by_cases hzero : m = 0
    · refine hone ?_ h
      rw [hzero, List.take_zero, firstLine_eq, lineList_encode r.lf_first]
      rfl
    · rw [r.readTaken_first hparts.1 hparts.2] at h
      obtain ⟨why, hwhy⟩ := r.refused_long (Nat.lt_of_not_le hlong) (by omega) (Nat.pos_of_ne_zero hzero) 0
        none
      rw [hwhy] at h
      cases h
  refine ⟨hparts.1, hparts.2, hheader, ?_⟩
  by_contra hbig
  obtain ⟨why, hwhy⟩ := r.refused_body hparts.1 hparts.2 hheader (n := MAX_HEADERS + MAX_BODY) (by omega) (by omega)
  rw [← htake, hwhy] at h
  cases h

end Request

/-- A request is read, and refused where it is cut, just where it is within the limits and the cut is one that shows. -/
theorem cut_refused_iff (r : Request) {n : Nat} (hn : n < r.bytes.length) :
    (readRequest r.bytes = .ok r.asRead ∧ ∃ why, readRequest (r.bytes.take n) = .error why) ↔
      r.Readable ∧ r.RefusedAt n := by
  have hlimits : MAX_HEADERS = 8192 ∧ MAX_BODY = 16384 := ⟨rfl, rfl⟩
  have htake : r.Readable → ∀ k ≤ r.bytes.length, readRequest (r.bytes.take k) = readTaken (r.bytes.take k) := by
    intro hread k hk
    have hall := hread.2.2.2
    unfold readRequest
    rw [List.take_of_length_le]
    rw [List.length_take]
    omega
  have hcut : r.Readable → (Refused (readRequest (r.bytes.take n)) ↔ r.RefusedAt n) := by
    intro hread
    rw [htake hread n hn.le]
    by_cases hbody : r.headerLength + 2 ≤ n
    · -- the body is cut, so there is one
      have hrefused := r.refused_body hread.1 hread.2.1 hread.2.2.1 hbody hn
      have hlen := r.length_bytes
      have htotal := r.headerLength_eq
      have hlength := r.length_lengthLine
      have hstart : r.lengthStart = (encode r.firstLine).length + (encode r.hostLine).length +
        (encode Request.typeLine).length + (encode "Content-Length:".toList).length := rfl
      have hname := length_name.2.2.2.2
      have hne : r.body ≠ [] := r.body_ne_iff.2 (by omega)
      exact ⟨fun _ => .inr (.inr (.inl ⟨by omega, .inl hne⟩)), fun _ => hrefused⟩
    · exact r.refused_within hread.1 hread.2.1 hread.2.2.1 (by omega) hn
  constructor
  · rintro ⟨hwhole, herror⟩
    have hread := r.readable_of_ok hwhole
    exact ⟨hread, (hcut hread).1 herror⟩
  · rintro ⟨hread, hat⟩
    have hwhole := htake hread r.bytes.length le_rfl
    rw [List.take_length] at hwhole
    exact ⟨hwhole.trans (r.readTaken_bytes hread), (hcut hread).2 hat⟩

private def sampleRequest : Request where
  method := "POST".toList
  path := "/issue".toList
  host := "127.0.0.1".toList
  body := "\x7b\x7d".toList
  method_ok := by simp; decide
  path_ok := by simp; decide
  host_ok := by simp; decide
  body_le := by decide

theorem cut_refused_iff_method :
    readRequest sampleRequest.bytes = .ok sampleRequest.asRead ∧
      ∃ why, readRequest (sampleRequest.bytes.take 4) = .error why := by
  have hlen : 4 < sampleRequest.bytes.length := by decide +kernel
  have hread : sampleRequest.Readable := ⟨by decide, by decide, by decide +kernel, by decide +kernel⟩
  exact (cut_refused_iff sampleRequest hlen).2 ⟨hread, .inl (by decide +kernel)⟩

/-- A request that ends inside its path is served, as one for what there is of the path; and one that ends before its
length, as one without a body. -/
theorem cut_served : 71 < sampleRequest.bytes.length ∧
    readRequest (sampleRequest.bytes.take 9) = .ok ⟨"POST".toList, "/iss".toList, none, []⟩ ∧
    readRequest (sampleRequest.bytes.take 71) =
      .ok ⟨"POST".toList, "/issue".toList, some "application/json".toList, []⟩ := by
  decide +kernel

end HidraNet.Core.Http
