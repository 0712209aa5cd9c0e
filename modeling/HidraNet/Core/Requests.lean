import HidraNet.Core.HttpAnswers

/-!
# Requests

How a server of this program reads a request: line by line up to an empty line or the end of the stream, and then the
body by its `Content-Length`.  What is read without an empty line is text (`encode_of_readTaken`).
-/

namespace HidraNet.Core.Http

open Hidramail (trimText lowered)
open Lines Net Text Utf8

def MAX_HEADERS : Nat := 8 * 1024

def MAX_BODY : Nat := 16 * 1024

/-- One request, as a server reads it. -/
structure HttpRequest where
  method : List Char
  path : List Char
  contentType : Option (List Char)
  body : List UInt8
deriving DecidableEq

/-- The lines that `read_line` reads one after the other: each to its line feed, the last to the end. -/
def lineList : List UInt8 → List (List UInt8)
  | [] => []
  | b :: rest =>
    if b = 10 then [10] :: lineList rest
    else
      match lineList rest with
      | [] => [[b]]
      | line :: lines => (b :: line) :: lines

/-- What a header line changes of the body's length and type. -/
def readHeader (line : List Char) (len : Nat) (ctype : Option (List Char)) :
    Except String (Nat × Option (List Char)) :=
  match splitOnce ':' line with
  | none => .ok (len, ctype)
  | some (k, v) =>
    if lowered (trimText k) = "content-length".toList then
      match parseUnsigned (2 ^ 64 - 1) (trimText v) with
      | none => .error "bad content-length"
      | some len => .ok (len, ctype)
    else if lowered (trimText k) = "content-type".toList then .ok (len, some (trimText v))
    else .ok (len, ctype)

/-- The header's lines, as far as the empty one or the end; and what is left. -/
def readHeaders : List (List UInt8) → Nat → Nat → Option (List Char) →
    Except String (Nat × Option (List Char) × List (List UInt8))
  | [], _, len, ctype => .ok (len, ctype, [])
  | bytes :: rest, total, len, ctype =>
    match fromUtf8 bytes with
    | none => .error "stream did not contain valid UTF-8"
    | some line =>
      if line = ['\r', '\n'] ∨ line = ['\n'] then .ok (len, ctype, rest)
      else if total + bytes.length > MAX_HEADERS then .error "headers too long"
      else
        match readHeader line len ctype with
        | .error why => .error why
        | .ok (len, ctype) => readHeaders rest (total + bytes.length) len ctype

def takeBody (method path : List Char) (len : Nat) (contentType : Option (List Char)) (rest : List (List UInt8)) :
    Except String HttpRequest :=
  if len > MAX_BODY then .error "body too long"
  else if rest.flatten.length < len then .error "early eof"
  else .ok { method, path, contentType, body := rest.flatten.take len }

/-- One request of a stream that has no more than is taken of one. -/
def readTaken (bytes : List UInt8) : Except String HttpRequest :=
  match fromUtf8 ((lineList bytes).headD []) with
  | none => .error "stream did not contain valid UTF-8"
  | some line =>
    let method := (words line)[0]?.getD []
    let path := (words line)[1]?.getD []
    if method = [] ∨ path.head? ≠ some '/' then .error "not an HTTP request"
    else
      match readHeaders (lineList bytes).tail ((lineList bytes).headD []).length 0 none with
      | .error why => .error why
      | .ok (len, contentType, rest) => takeBody method path len contentType rest

def readRequest (stream : List UInt8) : Except String HttpRequest := readTaken (stream.take (MAX_HEADERS + MAX_BODY))

/-- A request as the clients of this program write it. -/
structure Request where
  method : List Char
  path : List Char
  host : List Char
  body : List Char
  method_ok : ∀ c ∈ method, isWhitespace c = false
  path_ok : ∀ c ∈ path, isWhitespace c = false
  host_ok : ∀ c ∈ host, isWhitespace c = false
  body_le : (encode body).length ≤ MAX_BODY

namespace Request

variable (r : Request)

def text : List Char :=
  r.method ++ ' ' :: r.path ++ " HTTP/1.1\r\nHost: ".toList ++ r.host ++
    "\r\nContent-Type: application/json\r\nContent-Length: ".toList ++ Nat.toDigits 10 (encode r.body).length ++
    "\r\nConnection: close\r\n\r\n".toList ++ r.body

def bytes : List UInt8 := encode r.text

def asRead : HttpRequest := ⟨r.method, r.path, some "application/json".toList, encode r.body⟩

end Request

/-! ### Lines -/

theorem lineList_line {l : List UInt8} (h : 10 ∉ l) (rest : List UInt8) :
    lineList (l ++ 10 :: rest) = (l ++ [10]) :: lineList rest := by
  induction l with
  | nil => rfl
  | cons b l ih =>
    have hb : b ≠ 10 := (List.ne_of_not_mem_cons h).symm
    rw [List.cons_append, lineList, if_neg hb, ih (List.not_mem_of_not_mem_cons h)]
    rfl

theorem lineList_ended {l : List UInt8} (h : 10 ∉ l) (hne : l ≠ []) : lineList l = [l] := by
  induction l with
  | nil => exact absurd rfl hne
  | cons b l ih =>
    have hb : b ≠ 10 := (List.ne_of_not_mem_cons h).symm
    rw [lineList, if_neg hb]
    cases l with
    | nil => rfl
    | cons b' l => rw [ih (List.not_mem_of_not_mem_cons h) (List.cons_ne_nil _ _)]

theorem tail_lineList {l : List UInt8} (h : 10 ∉ l) : (lineList l).tail = [] := by
  by_cases hne : l = []
  · rw [hne]
    rfl
  · rw [lineList_ended h hne]
    rfl

theorem lineList_lines {ls : List (List UInt8)} (h : ∀ l ∈ ls, 10 ∉ l) (rest : List UInt8) :
    lineList ((ls.map (· ++ [10])).flatten ++ rest) = ls.map (· ++ [10]) ++ lineList rest := by
  induction ls with
  | nil => rfl
  | cons l ls ih =>
    obtain ⟨hl, hls⟩ := List.forall_mem_cons.1 h
    rw [List.map_cons, List.flatten_cons, List.append_assoc, List.append_assoc, List.singleton_append, lineList_line hl,
      ih hls, List.cons_append]

@[simp] theorem flatten_lineList (bytes : List UInt8) : (lineList bytes).flatten = bytes := by
  induction bytes with
  | nil => rfl
  | cons b rest ih =>
    rw [lineList]
    by_cases hb : b = 10
    · rw [if_pos hb, List.flatten_cons, ih, hb]
      rfl
    · rw [if_neg hb]
      cases hl : lineList rest with
      | nil =>
        rw [hl] at ih
        simpa using ih
      | cons line lines =>
        rw [hl] at ih
        simpa using ih

theorem lf_not_mem {l : List Char} (h : '\n' ∉ l) : (10 : UInt8) ∉ encode l :=
  fun hmem => h (mem_encode (by decide) hmem)

theorem lineList_encode {l : List Char} (h : '\n' ∉ l) (rest : List UInt8) :
    lineList (encode (l ++ ['\n']) ++ rest) = encode (l ++ ['\n']) :: lineList rest := by
  have hend : encode (l ++ ['\n']) = encode l ++ [10] := by
    rw [encode_append]
    rfl
  rw [hend, List.append_assoc]
  exact lineList_line (lf_not_mem h) rest

def Blank (l : List UInt8) : Prop := l = [13, 10] ∨ l = [10]

theorem not_blank_take {ls : List (List UInt8)} (h : ∀ l ∈ ls, 10 ∉ l ∧ l ≠ [] ∧ l ≠ [13]) (n : Nat) :
    ∀ x ∈ lineList (((ls.map (· ++ [10])).flatten ++ [13]).take n), ¬ Blank x := by
  have hpart : ∀ {l : List UInt8}, 10 ∉ l → ∀ x ∈ lineList l, ¬ Blank x := by
    intro l hl x hx hblank
    have hne : l ≠ [] := by
      rintro rfl
      cases hx
    rw [lineList_ended hl hne, List.mem_singleton] at hx
    subst hx
    rcases hblank with rfl | rfl <;> exact absurd hl (by decide)
  induction ls generalizing n with
  | nil =>
    refine hpart fun hmem => ?_
    have hmem' := List.mem_of_mem_take hmem
    exact absurd hmem' (by decide)
  | cons l ls ih =>
    obtain ⟨⟨hlf, hne, hcr⟩, hls⟩ := List.forall_mem_cons.1 h
    rw [List.map_cons, List.flatten_cons, List.append_assoc, List.append_assoc]
    by_cases hn : n ≤ l.length
    · rw [List.take_append_of_le_length hn]
      exact hpart fun hmem => hlf (List.mem_of_mem_take hmem)
    · obtain ⟨m, rfl⟩ : ∃ m, n = l.length + (m + 1) := ⟨n - l.length - 1, by omega⟩
      rw [List.take_length_add_append, List.singleton_append, List.take_succ_cons, lineList_line hlf]
      rintro x hx
      rcases List.mem_cons.1 hx with rfl | hx
      · rintro (heq | heq)
        · exact hcr ((List.append_left_inj [10]).1 heq)
        · exact hne (List.append_left_eq_self.1 heq)
      · exact ih hls m x hx

/-! ### Header lines -/

theorem readHeaders_line {l : List Char} (h : '\n' ∉ l) (hne : l ≠ []) (hcr : l ≠ ['\r']) (rest : List UInt8)
    (total len : Nat) (ctype : Option (List Char)) :
    readHeaders (lineList (encode (l ++ ['\n']) ++ rest)) total len ctype =
      if total + (encode (l ++ ['\n'])).length > MAX_HEADERS then .error "headers too long"
      else
        match readHeader (l ++ ['\n']) len ctype with
        | .error why => .error why
        | .ok (len, ctype) => readHeaders (lineList rest) (total + (encode (l ++ ['\n'])).length) len ctype := by
  have hblank : ¬ (l ++ ['\n'] = ['\r', '\n'] ∨ l ++ ['\n'] = ['\n']) := by
    rintro (heq | heq)
    · exact hcr ((List.append_left_inj ['\n']).1 heq)
    · exact hne (List.append_left_eq_self.1 heq)
  rw [lineList_encode h, readHeaders, fromUtf8_encode]
  simp only [if_neg hblank]

theorem readHeaders_ended {l : List Char} (h : '\n' ∉ l) {total : Nat}
    (hlen : total + (encode l).length ≤ MAX_HEADERS) (len : Nat) (ctype : Option (List Char)) :
    readHeaders (lineList (encode l)) total len ctype =
      match readHeader l len ctype with
      | .error why => .error why
      | .ok (len, ctype) => .ok (len, ctype, []) := by
  cases l with
  | nil => rfl
  | cons c l =>
    have hne : encode (c :: l) ≠ [] := by simp [String.utf8EncodeChar_ne_nil]
    have hblank : ¬ (c :: l = ['\r', '\n'] ∨ c :: l = ['\n']) := by
      rintro (heq | heq)
      · exact h (by rw [heq]; simp)
      · exact h (by rw [heq]; simp)
    rw [lineList_ended (lf_not_mem h) hne, readHeaders, fromUtf8_encode]
    simp only [if_neg hblank, if_neg (Nat.not_lt.2 hlen)]
    cases readHeader (c :: l) len ctype with
    | error why => rfl
    | ok p => rfl

theorem readHeaders_long {lines : List (List UInt8)} (hne : lines ≠ []) (hblank : ∀ l ∈ lines, ¬ Blank l)
    (rest : List (List UInt8)) {total : Nat} (hlen : MAX_HEADERS < total + lines.flatten.length) (len : Nat)
    (ctype : Option (List Char)) : ∃ why, readHeaders (lines ++ rest) total len ctype = .error why := by
  induction lines generalizing total len ctype with
  | nil => exact absurd rfl hne
  | cons l lines ih =>
    obtain ⟨hl, hlines⟩ := List.forall_mem_cons.1 hblank
    rw [List.cons_append, readHeaders]
    cases hline : fromUtf8 l with
    | none => exact ⟨_, rfl⟩
    | some line =>
      have henc := fromUtf8_eq_some.1 hline
      have hnot : ¬ (line = ['\r', '\n'] ∨ line = ['\n']) := by
        rintro (rfl | rfl)
        · exact hl (.inl henc)
        · exact hl (.inr henc)
      simp only [if_neg hnot]
      by_cases hbig : total + l.length > MAX_HEADERS
      · rw [if_pos hbig]
        exact ⟨_, rfl⟩
      · rw [if_neg hbig]
        cases readHeader line len ctype with
        | error why => exact ⟨why, rfl⟩
        | ok q =>
          rw [List.flatten_cons, List.length_append] at hlen
          refine ih ?_ hlines (by omega) q.1 q.2
          rintro rfl
          rw [List.flatten_nil, List.length_nil] at hlen
          omega

theorem encode_of_readHeaders {lines : List (List UInt8)} (hblank : ∀ l ∈ lines, ¬ Blank l) {total len : Nat}
    {ctype : Option (List Char)} {q : Nat × Option (List Char) × List (List UInt8)}
    (h : readHeaders lines total len ctype = .ok q) : ∃ t, lines.flatten = encode t := by
  induction lines generalizing total len ctype with
  | nil => exact ⟨[], rfl⟩
  | cons l lines ih =>
    obtain ⟨hl, hlines⟩ := List.forall_mem_cons.1 hblank
    rw [readHeaders] at h
    cases hline : fromUtf8 l with
    | none =>
      rw [hline] at h
      cases h
    | some line =>
      have henc := fromUtf8_eq_some.1 hline
      have hnot : ¬ (line = ['\r', '\n'] ∨ line = ['\n']) := by
        rintro (rfl | rfl)
        · exact hl (.inl henc)
        · exact hl (.inr henc)
      simp only [hline, if_neg hnot] at h
      by_cases hbig : total + l.length > MAX_HEADERS
      · rw [if_pos hbig] at h
        cases h
      · rw [if_neg hbig] at h
        cases hread : readHeader line len ctype with
        | error why =>
          rw [hread] at h
          cases h
        | ok p =>
          rw [hread] at h
          obtain ⟨t, ht⟩ := ih hlines h
          refine ⟨line ++ t, ?_⟩
          rw [List.flatten_cons, ht, henc, encode_append]

theorem readHeader_plain {l : List Char} (h : ':' ∉ l) (len : Nat) (ctype : Option (List Char)) :
    readHeader l len ctype = .ok (len, ctype) := by
  rw [readHeader, splitOnce_eq_none.2 h]

theorem readHeader_field {name : List Char} (h : ':' ∉ name) (value : List Char) (len : Nat)
    (ctype : Option (List Char)) :
    readHeader (name ++ ':' :: value) len ctype =
      if lowered (trimText name) = "content-length".toList then
        match parseUnsigned (2 ^ 64 - 1) (trimText value) with
        | none => .error "bad content-length"
        | some len => .ok (len, ctype)
      else if lowered (trimText name) = "content-type".toList then .ok (len, some (trimText value))
      else .ok (len, ctype) := by
  rw [readHeader, splitOnce_append value h]

/-! ### The first line -/

theorem words_append {w rest : List Char} (hne : w ≠ []) (hw : ∀ c ∈ w, isWhitespace c = false)
    (hrest : ∀ c ∈ rest.head?, isWhitespace c = true) : words (w ++ rest) = w :: words rest := by
  unfold words
  cases rest with
  | nil =>
    rw [List.append_nil, List.splitOnP_eq_singleton hw]
    simp [hne]
  | cons c rest =>
    have hc : isWhitespace c = true := hrest c rfl
    have hnil : (c :: rest).splitOnP isWhitespace = [] :: rest.splitOnP isWhitespace := by
      rw [List.splitOnP_cons_eq_if_modifyHead, if_pos hc]
    rw [List.splitOnP_append_cons_of_forall_mem hw c hc, hnil]
    simp [hne]

theorem words_space (rest : List Char) : words (' ' :: rest) = words rest := by
  unfold words
  rw [List.splitOnP_cons_eq_if_modifyHead, if_pos (by decide)]
  simp

theorem words_head {l : List Char} {c : Char} (hc : isWhitespace c = false) :
    ∃ w, (words (c :: l))[0]? = some (c :: w) := by
  have hsplit := List.takeWhile_append_dropWhile (p := fun c => !isWhitespace c) (l := c :: l)
  have hfront : (c :: l).takeWhile (fun c => !isWhitespace c) = c :: l.takeWhile fun c => !isWhitespace c := by
    simp [hc]
  have hword : ∀ d ∈ c :: l.takeWhile (fun c => !isWhitespace c), isWhitespace d = false := by
    intro d hd
    rw [← hfront] at hd
    simpa using List.mem_takeWhile_imp hd
  have hrest : ∀ d ∈ ((c :: l).dropWhile fun c => !isWhitespace c).head?, isWhitespace d = true := by
    intro d hd
    have hnot := List.head?_dropWhile_not (fun c => !isWhitespace c) (c :: l)
    rw [hd] at hnot
    simpa using hnot
  rw [← hsplit, hfront, words_append (List.cons_ne_nil _ _) hword hrest]
  exact ⟨_, rfl⟩

def requestLine (line : List Char) : Option (List Char × List Char) :=
  let method := (words line)[0]?.getD []
  let path := (words line)[1]?.getD []
  if method = [] ∨ path.head? ≠ some '/' then none else some (method, path)

theorem readTaken_line {l : List Char} (h : '\n' ∉ l) (rest : List UInt8) :
    readTaken (encode (l ++ ['\n']) ++ rest) =
      match requestLine (l ++ ['\n']) with
      | none => .error "not an HTTP request"
      | some (method, path) =>
        match readHeaders (lineList rest) (encode (l ++ ['\n'])).length 0 none with
        | .error why => .error why
        | .ok (len, contentType, rest) => takeBody method path len contentType rest := by
  unfold readTaken requestLine
  rw [lineList_encode h, List.headD_cons, fromUtf8_encode, List.tail_cons]
  dsimp only
  split <;> rfl

theorem readTaken_ended {l : List Char} (h : '\n' ∉ l) :
    readTaken (encode l) =
      match requestLine l with
      | none => .error "not an HTTP request"
      | some (method, path) => .ok ⟨method, path, none, []⟩ := by
  have hlines : (lineList (encode l)).headD [] = encode l ∧ (lineList (encode l)).tail = [] := by
    by_cases hne : encode l = []
    · rw [hne]
      exact ⟨rfl, rfl⟩
    · rw [lineList_ended (lf_not_mem h) hne]
      exact ⟨rfl, rfl⟩
  unfold readTaken requestLine
  rw [hlines.1, hlines.2, fromUtf8_encode]
  dsimp only
  split <;> rfl

/-- What is read without an empty line is text. -/
theorem encode_of_readTaken {s : List UInt8} (hblank : ∀ l ∈ lineList s, ¬ Blank l) {q : HttpRequest}
    (h : readTaken s = .ok q) : ∃ t, s = encode t := by
  unfold readTaken at h
  cases hfirst : fromUtf8 ((lineList s).headD []) with
  | none =>
    rw [hfirst] at h
    cases h
  | some line =>
    simp only [hfirst] at h
    by_cases hbad : (words line)[0]?.getD [] = [] ∨ ((words line)[1]?.getD []).head? ≠ some '/'
    · rw [if_pos hbad] at h
      cases h
    · rw [if_neg hbad] at h
      cases hread : readHeaders (lineList s).tail ((lineList s).headD []).length 0 none with
      | error why =>
        rw [hread] at h
        cases h
      | ok p =>
        obtain ⟨t, ht⟩ := encode_of_readHeaders (fun l hl => hblank l (List.mem_of_mem_tail hl)) hread
        refine ⟨line ++ t, ?_⟩
        rw [encode_append, ← ht, ← fromUtf8_eq_some.1 hfirst]
        cases hlines : lineList s with
        | nil =>
          have hs := flatten_lineList s
          rw [hlines] at hs
          rw [← hs]
          rfl
        | cons l lines =>
          have hs := flatten_lineList s
          rw [hlines] at hs
          rw [← hs]
          rfl

theorem contentType_of_line {s : List UInt8} (h : (lineList s).tail = []) {q : HttpRequest} (hq : readTaken s = .ok q) :
    q.contentType = none := by
  unfold readTaken at hq
  rw [h] at hq
  cases hfirst : fromUtf8 ((lineList s).headD []) with
  | none =>
    rw [hfirst] at hq
    cases hq
  | some line =>
    simp only [hfirst] at hq
    by_cases hbad : (words line)[0]?.getD [] = [] ∨ ((words line)[1]?.getD []).head? ≠ some '/'
    · rw [if_pos hbad] at hq
      cases hq
    · rw [if_neg hbad] at hq
      rw [← Except.ok.inj hq]

end HidraNet.Core.Http
