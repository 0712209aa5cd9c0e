import HidraNet.Core.Requests

/-!
# A client's request, line by line

The lines of a request as its client writes it, and what each of them, or a part of one that the stream ends in, makes a
server read.
-/

namespace HidraNet.Core.Http

open Hidramail (trimText lowered)
open Lines Net Text Utf8

def Refused (x : Except String HttpRequest) : Prop := ∃ why, x = .error why

theorem refused_error (why : String) : Refused (.error why) := ⟨why, rfl⟩

theorem not_refused_ok (q : HttpRequest) : ¬ Refused (.ok q) := by
  rintro ⟨why, h⟩
  cases h

theorem prefix_append_cases {α : Type*} {p a b : List α} (h : p <+: a ++ b) :
    (p <+: a ∧ p.length < a.length) ∨ ∃ q, q <+: b ∧ p = a ++ q := by
  by_cases hlt : p.length < a.length
  · exact .inl ⟨List.prefix_of_prefix_length_le h (List.prefix_append a b) hlt.le, hlt⟩
  · obtain ⟨q, rfl⟩ := List.prefix_of_prefix_length_le (List.prefix_append a b) h (Nat.le_of_not_lt hlt)
    exact .inr ⟨q, (List.prefix_append_right_inj a).1 h, rfl⟩

theorem prefix_of_cut {α : Type*} {p l : List α} {a : α} (h : p <+: l ++ [a]) (hlt : p.length < (l ++ [a]).length) :
    p <+: l := by
  refine List.prefix_of_prefix_length_le h (List.prefix_append l [a]) ?_
  rw [List.length_append, List.length_singleton] at hlt
  omega

theorem length_encode_mono {p l : List Char} (h : p <+: l) : (encode p).length ≤ (encode l).length := by
  obtain ⟨q, rfl⟩ := h
  rw [encode_append, List.length_append]
  exact Nat.le_add_right _ _

def fieldLine (name : String) (value : List Char) : List Char := name.toList ++ ':' :: (value ++ ['\r', '\n'])

/-! ### The words of a header -/

theorem version_word : words " HTTP/1.1\r\n".toList = ["HTTP/1.1".toList] ∧
    " HTTP/1.1\r\n".toList = " HTTP/1.1\r".toList ++ ['\n'] ∧ '\n' ∉ " HTTP/1.1\r".toList ∧
    (encode " HTTP/1.1\r\n".toList).length = 11 := by
  decide +kernel

theorem host_name : ':' ∉ "Host".toList ∧ '\n' ∉ "Host".toList ∧
    lowered (trimText "Host".toList) ≠ "content-length".toList ∧
    lowered (trimText "Host".toList) ≠ "content-type".toList := by
  decide +kernel

theorem type_name : ':' ∉ "Content-Type".toList ∧ '\n' ∉ "Content-Type".toList ++ " application/json".toList ∧
    lowered (trimText "Content-Type".toList) ≠ "content-length".toList ∧
    lowered (trimText "Content-Type".toList) = "content-type".toList ∧
    trimText (" application/json".toList ++ ['\r', '\n']) = "application/json".toList := by
  decide +kernel

example : lowered (trimText " CONTENT-type\t".toList) = "content-type".toList := by decide +kernel

theorem length_name : ':' ∉ "Content-Length".toList ∧ '\n' ∉ "Content-Length".toList ∧
    lowered (trimText "Content-Length".toList) = "content-length".toList ∧
    (encode "Content-Length".toList).length = 14 ∧ (encode "Content-Length:".toList).length = 15 := by
  decide +kernel

theorem close_name : ':' ∉ "Connection".toList ∧ '\n' ∉ "Connection".toList ++ " close".toList ∧
    lowered (trimText "Connection".toList) ≠ "content-length".toList ∧
    lowered (trimText "Connection".toList) ≠ "content-type".toList := by
  decide +kernel

theorem trimText_space : trimText [' '] = [] := by decide +kernel

namespace Request

variable (r : Request)

def firstLine : List Char := r.method ++ ' ' :: (r.path ++ " HTTP/1.1\r\n".toList)

def hostLine : List Char := fieldLine "Host" (' ' :: r.host)

def typeLine : List Char := fieldLine "Content-Type" " application/json".toList

def lengthLine : List Char := fieldLine "Content-Length" (' ' :: Nat.toDigits 10 (encode r.body).length)

def closeLine : List Char := fieldLine "Connection" " close".toList

def header : List Char := r.firstLine ++ (r.hostLine ++ (typeLine ++ (r.lengthLine ++ closeLine)))

def headerLength : Nat := (encode r.header).length

/-- How many bytes go as far as the colon of `Content-Length`. -/
def lengthStart : Nat :=
  (encode r.firstLine).length + (encode r.hostLine).length + (encode typeLine).length +
    (encode "Content-Length:".toList).length

theorem text_eq : r.text = r.header ++ '\r' :: '\n' :: r.body := by
  have hfirst : " HTTP/1.1\r\nHost: ".toList = " HTTP/1.1\r\n".toList ++ ("Host".toList ++ [':', ' ']) := by
    decide +kernel
  have hmiddle : "\r\nContent-Type: application/json\r\nContent-Length: ".toList =
      '\r' :: '\n' :: (typeLine ++ ("Content-Length".toList ++ [':', ' '])) := by
    decide +kernel
  have hlast : "\r\nConnection: close\r\n\r\n".toList = '\r' :: '\n' :: (closeLine ++ ['\r', '\n']) := by
    decide +kernel
  have hall : ∀ (first host type length close : List Char),
      r.method ++ ' ' :: r.path ++ (first ++ (host ++ [':', ' '])) ++ r.host ++
        '\r' :: '\n' :: (type ++ (length ++ [':', ' '])) ++ Nat.toDigits 10 (encode r.body).length ++
      '\r' :: '\n' :: (close ++ ['\r', '\n']) ++ r.body =
      (r.method ++ ' ' :: (r.path ++ first)) ++ (host ++ ':' :: ((' ' :: r.host) ++ ['\r', '\n']) ++ (type ++
        ((length ++ ':' :: ((' ' :: Nat.toDigits 10 (encode r.body).length) ++ ['\r', '\n'])) ++ close))) ++
        '\r' :: '\n' :: r.body := by
    intros
    simp
  unfold text
  rw [hfirst, hmiddle, hlast]
  exact hall _ _ _ _ _

/-! ### The first line -/

theorem requestLine_first :
    requestLine r.firstLine =
      if r.method = [] ∨ r.path.head? ≠ some '/' then none else some (r.method, r.path) := by
  have hversion := version_word.1
  have hspace : ∀ c ∈ " HTTP/1.1\r\n".toList.head?, isWhitespace c = true := by
    intro c hc
    obtain rfl : ' ' = c := by simpa using hc
    decide
  have hpath : words (r.path ++ " HTTP/1.1\r\n".toList) =
      if r.path = [] then ["HTTP/1.1".toList] else [r.path, "HTTP/1.1".toList] := by
    by_cases hp : r.path = []
    · rw [if_pos hp, hp, List.nil_append, hversion]
    · rw [if_neg hp, words_append hp r.path_ok hspace, hversion]
  have hwords : words r.firstLine =
      if r.method = [] then words (r.path ++ " HTTP/1.1\r\n".toList)
      else r.method :: words (r.path ++ " HTTP/1.1\r\n".toList) := by
    unfold firstLine
    by_cases hm : r.method = []
    · rw [if_pos hm, hm, List.nil_append, words_space]
    · rw [if_neg hm, words_append hm r.method_ok, words_space]
      intro c hc
      obtain rfl : ' ' = c := Option.some.inj hc
      decide
  unfold requestLine
  rw [hwords, hpath]
  by_cases hm : r.method = []
  · by_cases hp : r.path = []
    · simp [hm, hp]
    · simp [hm, hp]
  · by_cases hp : r.path = []
    · simp [hm, hp]
    · simp [hm, hp]

theorem requestLine_cut (hmethod : r.method ≠ []) (hpath : r.path.head? = some '/') {t : List Char}
    (ht : t <+: r.firstLine) : requestLine t = none ↔ (encode t).length ≤ (encode r.method).length + 1 := by
  have hnone : ∀ {l : List Char}, (words l)[1]? = none → requestLine l = none := by
    intro l hl
    unfold requestLine
    simp [hl]
  rcases prefix_append_cases ht with ⟨hm, -⟩ | ⟨q, hq, rfl⟩
  · -- the cut is inside the method
    have hwords : (words t)[1]? = none := by
      by_cases ht' : t = []
      · rw [ht']
        rfl
      · have hword : words (t ++ []) = t :: words [] :=
          words_append ht' (fun c hc => r.method_ok c (hm.subset hc)) (by simp)
        rw [List.append_nil] at hword
        rw [hword]
        rfl
    have hlen := length_encode_mono hm
    simp only [hnone hwords, true_iff]
    omega
  · rw [encode_append, List.length_append]
    cases q with
    | nil =>
      have hwords : words (r.method ++ []) = [r.method] := by
        rw [words_append hmethod r.method_ok (by simp)]
        rfl
      simp only [hnone (by rw [hwords]; rfl), true_iff, encode_nil, List.length_nil]
      omega
    | cons c q =>
      obtain ⟨rfl, hrest⟩ := List.cons_prefix_cons.1 hq
      have hspace : ∀ c ∈ (' ' :: q).head?, isWhitespace c = true := by
        intro c hc
        obtain rfl : ' ' = c := Option.some.inj hc
        decide
      have hwords := words_append hmethod r.method_ok hspace
      rw [words_space] at hwords
      cases q with
      | nil =>
        simp only [hnone (by rw [hwords]; rfl), true_iff]
        show _ + 1 ≤ _
        omega
      | cons c q =>
        -- the path has begun
        obtain ⟨path, hp⟩ := List.head?_eq_some_iff.1 hpath
        rw [hp] at hrest
        obtain ⟨rfl, -⟩ := List.cons_prefix_cons.1 hrest
        obtain ⟨w, hw⟩ := words_head (l := q) (show isWhitespace '/' = false by decide)
        have hpos : 0 < (encode ('/' :: q)).length := by
          rw [encode_cons, List.length_append, String.length_utf8EncodeChar]
          have hslash := Char.utf8Size_pos '/'
          omega
        have hsome : requestLine (r.method ++ ' ' :: '/' :: q) = some (r.method, '/' :: w) := by
          unfold requestLine
          rw [hwords]
          simp [hw, hmethod]
        rw [hsome, encode_cons, List.length_append, show (String.utf8EncodeChar ' ').length = 1 from rfl]
        simp only [reduceCtorEq, false_iff]
        omega

/-! ### The header's lines -/

def goOn (total len : Nat) (ctype : Option (List Char)) (more : List UInt8) : Except String HttpRequest :=
  match readHeaders (lineList more) total len ctype with
  | .error why => .error why
  | .ok (len, contentType, rest) => takeBody r.method r.path len contentType rest

variable {name : String} {value p : List Char} {total len : Nat} {ctype : Option (List Char)}

theorem firstLine_eq : r.firstLine = (r.method ++ ' ' :: (r.path ++ " HTTP/1.1\r".toList)) ++ ['\n'] := by
  rw [firstLine, version_word.2.1]
  simp

theorem lf_first : '\n' ∉ r.method ++ ' ' :: (r.path ++ " HTTP/1.1\r".toList) := by
  have hversion := version_word.2.2.1
  have hmethod : '\n' ∉ r.method := fun h => (not_lineEnd (r.method_ok _ h)).2 rfl
  have hpath : '\n' ∉ r.path := fun h => (not_lineEnd (r.path_ok _ h)).2 rfl
  simp only [List.mem_append, List.mem_cons, not_or]
  exact ⟨hmethod, by decide, hpath, hversion⟩

theorem readTaken_first (hmethod : r.method ≠ []) (hpath : r.path.head? = some '/') (more : List UInt8) :
    readTaken (encode r.firstLine ++ more) = r.goOn (encode r.firstLine).length 0 none more := by
  have hfirst := r.requestLine_first
  rw [if_neg (by simp [hmethod, hpath])] at hfirst
  rw [firstLine_eq] at hfirst ⊢
  rw [readTaken_line r.lf_first, hfirst]
  rfl

theorem fieldLine_eq (name : String) (value : List Char) :
    fieldLine name value = (name.toList ++ ':' :: (value ++ ['\r'])) ++ ['\n'] := by
  simp [fieldLine]

theorem lf_front (h : '\n' ∉ name.toList ++ value) : '\n' ∉ name.toList ++ ':' :: (value ++ ['\r']) := by
  simp only [List.mem_append, List.mem_cons, not_or] at h ⊢
  exact ⟨h.1, by decide, h.2, by decide, by decide⟩

theorem goOn_line (h : '\n' ∉ name.toList ++ value) (more : List UInt8) :
    r.goOn total len ctype (encode (fieldLine name value) ++ more) =
      if total + (encode (fieldLine name value)).length > MAX_HEADERS then .error "headers too long"
      else
        match readHeader (fieldLine name value) len ctype with
        | .error why => .error why
        | .ok (len, ctype) => r.goOn (total + (encode (fieldLine name value)).length) len ctype more := by
  unfold goOn
  rw [fieldLine_eq, readHeaders_line (lf_front h)]
  · by_cases hbig : total + (encode (name.toList ++ ':' :: (value ++ ['\r']) ++ ['\n'])).length > MAX_HEADERS
    · rw [if_pos hbig, if_pos hbig]
    · rw [if_neg hbig, if_neg hbig]
      cases readHeader ((name.toList ++ ':' :: (value ++ ['\r'])) ++ ['\n']) len ctype with
      | error why => rfl
      | ok q => rfl
  · simp
  · intro heq
    have hmem : ':' ∈ ['\r'] := by
      rw [← heq]
      simp
    exact absurd hmem (by decide)

theorem goOn_cut (h : '\n' ∉ name.toList ++ value) (hp : p <+: fieldLine name value)
    (hlt : p.length < (fieldLine name value).length) (hlen : total + (encode p).length ≤ MAX_HEADERS) :
    r.goOn total len ctype (encode p) =
      match readHeader p len ctype with
      | .error why => .error why
      | .ok (len, ctype) => takeBody r.method r.path len ctype [] := by
  have hlf : '\n' ∉ p := by
    rw [fieldLine_eq] at hp hlt
    exact fun hmem => lf_front h ((prefix_of_cut hp hlt).subset hmem)
  unfold goOn
  rw [readHeaders_ended hlf hlen]
  cases readHeader p len ctype with
  | error why => rfl
  | ok q => rfl

/-! ### What a part of a header line changes -/

theorem prefix_fieldLine (h : p <+: fieldLine name value) :
    p <+: name.toList ∨ ∃ v, v <+: value ++ ['\r', '\n'] ∧ p = name.toList ++ ':' :: v := by
  rcases prefix_append_cases h with ⟨hname, -⟩ | ⟨q, hq, rfl⟩
  · exact .inl hname
  · cases q with
    | nil =>
      rw [List.append_nil]
      exact .inl (List.prefix_refl _)
    | cons c v =>
      obtain ⟨rfl, hv⟩ := List.cons_prefix_cons.1 hq
      exact .inr ⟨v, hv, rfl⟩

theorem readHeader_other (hcolon : ':' ∉ name.toList)
    (hlength : lowered (trimText name.toList) ≠ "content-length".toList)
    (htype : lowered (trimText name.toList) ≠ "content-type".toList) (hp : p <+: fieldLine name value) :
    readHeader p len ctype = .ok (len, ctype) := by
  rcases prefix_fieldLine hp with hname | ⟨v, -, rfl⟩
  · exact readHeader_plain (fun hmem => hcolon (hname.subset hmem)) len ctype
  · rw [readHeader_field hcolon, if_neg hlength, if_neg htype]

theorem readHeader_host (hp : p <+: r.hostLine) : readHeader p len ctype = .ok (len, ctype) :=
  readHeader_other host_name.1 host_name.2.2.1 host_name.2.2.2 hp

theorem readHeader_close (hp : p <+: closeLine) : readHeader p len ctype = .ok (len, ctype) :=
  readHeader_other close_name.1 close_name.2.2.1 close_name.2.2.2 hp

theorem readHeader_type_cut (hp : p <+: typeLine) (len : Nat) (ctype : Option (List Char)) :
    ∃ ctype', readHeader p len ctype = .ok (len, ctype') := by
  obtain ⟨hcolon, -, hlength, htype, hvalue⟩ := type_name
  rcases prefix_fieldLine hp with hname | ⟨v, -, rfl⟩
  · exact ⟨ctype, readHeader_plain (fun hmem => hcolon (hname.subset hmem)) len ctype⟩
  · exact ⟨some (trimText v), by rw [readHeader_field hcolon, if_neg hlength, if_pos htype]⟩

theorem readHeader_type : readHeader typeLine len ctype = .ok (len, some "application/json".toList) := by
  obtain ⟨hcolon, -, hlength, htype, hvalue⟩ := type_name
  unfold typeLine fieldLine
  rw [readHeader_field hcolon, if_neg hlength, if_pos htype, hvalue]

theorem value_digits {n : Nat} {e : List Char} (h : e <+: Nat.toDigits 10 n) (hne : e ≠ []) :
    Nat.ofDigitChars 10 e 0 ≤ n ∧ (0 < n → 0 < Nat.ofDigitChars 10 e 0) := by
  obtain ⟨rest, hrest⟩ := h
  have hn : n = 10 ^ rest.length * Nat.ofDigitChars 10 e 0 + Nat.ofDigitChars 10 rest 0 := by
    rw [← Nat.ofDigitChars_eq_ofDigitChars_zero, ← Nat.ofDigitChars_append, hrest, Nat.ofDigitChars_ten_toDigits]
  constructor
  · have hpow : 0 < 10 ^ rest.length := Nat.pow_pos (by decide)
    have hmul := Nat.le_mul_of_pos_left (Nat.ofDigitChars 10 e 0) hpow
    omega
  · intro hpos
    by_contra hzero
    have hvalue : n = Nat.ofDigitChars 10 rest 0 := by
      rw [Nat.eq_zero_of_not_pos hzero, Nat.mul_zero, Nat.zero_add] at hn
      exact hn
    -- the number would have fewer digits than it has
    have hdigits : ∀ c ∈ rest, c.isDigit = true := by
      intro c hc
      refine Nat.isDigit_of_mem_toDigits (b := 10) (n := n) (by decide) (by decide) ?_
      rw [← hrest]
      exact List.mem_append_right e hc
    have hlt := Decimal.ofDigitChars_lt hdigits
    have hrestpos : 0 < rest.length := by
      by_contra hnil
      rw [Nat.eq_zero_of_not_pos hnil] at hlt
      omega
    have hlength := (Nat.length_toDigits_le_iff (b := 10) (n := n) (by decide) hrestpos).2 (by omega)
    rw [← hrest, List.length_append] at hlength
    have hepos := List.length_pos_of_ne_nil hne
    omega

theorem trimText_digits {e w : List Char} (he : ∀ c ∈ e, c.isDigit = true) (hw : w <+: ['\r', '\n']) :
    trimText (' ' :: (e ++ w)) = e := by
  have hspace : ∀ c ∈ [' '], isWhitespace c = true := by
    intro c hc
    rw [List.mem_singleton.1 hc]
    decide
  have hend : ∀ c ∈ w, isWhitespace c = true := by
    intro c hc
    have hmem := hw.subset hc
    simp only [List.mem_cons, List.not_mem_nil, or_false] at hmem
    rcases hmem with rfl | rfl <;> decide
  have hword := trimText_word hspace (fun c hc => Decimal.isWhitespace_of_isDigit (he c hc)) hend
  rwa [List.singleton_append] at hword

theorem readHeader_length_cut {v : List Char}
    (hv : v <+: (' ' :: Nat.toDigits 10 (encode r.body).length) ++ ['\r', '\n']) (len : Nat)
    (ctype : Option (List Char)) :
    (v.length < 2 ∧ readHeader ("Content-Length".toList ++ ':' :: v) len ctype = .error "bad content-length") ∨
      (2 ≤ v.length ∧ ∃ m, m ≤ (encode r.body).length ∧ (0 < (encode r.body).length → 0 < m) ∧
        readHeader ("Content-Length".toList ++ ':' :: v) len ctype = .ok (m, ctype)) := by
  obtain ⟨hcolon, -, hkey, -⟩ := length_name
  have hdigits : ∀ c ∈ Nat.toDigits 10 (encode r.body).length, c.isDigit = true :=
    fun c hc => Nat.isDigit_of_mem_toDigits (by decide) (by decide) hc
  rw [readHeader_field hcolon, if_pos hkey]
  cases v with
  | nil =>
    left
    exact ⟨by decide, rfl⟩
  | cons c d =>
    obtain ⟨rfl, hd⟩ := List.cons_prefix_cons.1 hv
    by_cases hne : d = []
    · left
      subst hne
      rw [trimText_space]
      exact ⟨by decide, rfl⟩
    · right
      obtain ⟨e, he, hene, htrim⟩ : ∃ e, e <+: Nat.toDigits 10 (encode r.body).length ∧ e ≠ [] ∧
          trimText (' ' :: d) = e := by
        rcases prefix_append_cases hd with ⟨hpre, -⟩ | ⟨w, hw, rfl⟩
        · have htrim := trimText_digits (fun c hc => hdigits c (hpre.subset hc)) (List.nil_prefix (l := ['\r', '\n']))
          rw [List.append_nil] at htrim
          exact ⟨d, hpre, hne, htrim⟩
        · exact ⟨_, List.prefix_refl _, Nat.toDigits_ne_nil, trimText_digits hdigits hw⟩
      obtain ⟨hle, hpos⟩ := value_digits he hene
      have hbody := r.body_le
      have hparse : parseUnsigned (2 ^ 64 - 1) e = some (Nat.ofDigitChars 10 e 0) :=
        parseUnsigned_digits hene (fun c hc => hdigits c (he.subset hc))
          (le_trans hle (le_trans hbody (by decide)))
      have hdpos := List.length_pos_of_ne_nil hne
      refine ⟨?_, _, hle, hpos, ?_⟩
      · rw [List.length_cons]
        omega
      · rw [htrim, hparse]

theorem readHeader_length : readHeader r.lengthLine len ctype = .ok ((encode r.body).length, ctype) := by
  obtain ⟨hcolon, -, hkey, -⟩ := length_name
  have hdigits : ∀ c ∈ Nat.toDigits 10 (encode r.body).length, c.isDigit = true :=
    fun c hc => Nat.isDigit_of_mem_toDigits (by decide) (by decide) hc
  have hbody := r.body_le
  have hparse : parseUnsigned (2 ^ 64 - 1) (Nat.toDigits 10 (encode r.body).length) = some (encode r.body).length := by
    have hvalue : Nat.ofDigitChars 10 (Nat.toDigits 10 (encode r.body).length) 0 = (encode r.body).length :=
      Nat.ofDigitChars_ten_toDigits
    have hread : parseUnsigned (2 ^ 64 - 1) (Nat.toDigits 10 (encode r.body).length) = some _ :=
      parseUnsigned_digits Nat.toDigits_ne_nil hdigits (hvalue.le.trans (le_trans hbody (by decide)))
    rw [hread, hvalue]
  unfold lengthLine fieldLine
  rw [readHeader_field hcolon, if_pos hkey, List.cons_append, trimText_digits hdigits (List.prefix_refl _), hparse]

theorem takeBody_none (ctype : Option (List Char)) : ¬ Refused (takeBody r.method r.path 0 ctype []) :=
  not_refused_ok _

theorem takeBody_missing (ctype : Option (List Char)) (h : 0 < len) :
    Refused (takeBody r.method r.path len ctype []) := by
  unfold takeBody
  by_cases hbig : len > MAX_BODY
  · rw [if_pos hbig]
    exact refused_error _
  · have hshort : ([] : List (List UInt8)).flatten.length < len := h
    rw [if_neg hbig, if_pos hshort]
    exact refused_error _

end Request

end HidraNet.Core.Http
