import HidraNet.Hidramail.Http

/-!
# Requests as they are read

A request written as lines, an empty line and a body comes out of the connection's reads as it was written, however it
was cut: whole while it fits the buffer, and otherwise as much of it as fits (`readRequest_take`).  Its header ends
where the empty line does (`findHeaderEnd_lines`), its lines are the lines (`linesOf_lines`), and its body is the body
(`splitBlank_lines`).
-/

namespace HidraNet.Hidramail

open Text Utf8

/-- Bytes cut as a connection's reads may return them. -/
def cutAt : List Nat → List UInt8 → List (List UInt8)
  | [], bytes => if bytes = [] then [] else [bytes]
  | n :: cuts, bytes =>
    if bytes = [] then []
    else if n = 0 then cutAt cuts bytes
    else bytes.take n :: cutAt cuts (bytes.drop n)

def crlf (lines : List (List Char)) : List Char := lines.flatMap (· ++ ['\r', '\n'])

def IsLine (l : List Char) : Prop := l ≠ [] ∧ '\r' ∉ l ∧ '\n' ∉ l

instance (l : List Char) : Decidable (IsLine l) := inferInstanceAs (Decidable (_ ∧ _ ∧ _))

variable {lines : List (List Char)} {rest bytes : List UInt8} {body : List Char}

/-! ### The reads -/

theorem readRequest_pieces {buf : List UInt8} (cuts : List Nat) {rest : List UInt8} (hbuf : buf.length < bufferSize)
    (h : ∀ m, m < min (buf ++ rest).length bufferSize → complete ((buf ++ rest).take m) = false) :
    readRequest buf (cutAt cuts rest) = (buf ++ rest).take bufferSize := by
  induction cuts generalizing buf rest with
  | nil =>
    unfold cutAt
    split
    · rename_i hnil
      subst hnil
      unfold readRequest
      rw [List.append_nil, List.take_of_length_le hbuf.le]
    · rename_i hne
      obtain ⟨b, bs, rfl⟩ := List.exists_cons_of_ne_nil hne
      have hfill : fill buf (b :: bs) = (buf ++ b :: bs).take bufferSize := by
        unfold fill
        rw [List.take_append, List.take_of_length_le hbuf.le]
      show (if complete (fill buf (b :: bs)) then fill buf (b :: bs) else readRequest (fill buf (b :: bs)) []) = _
      rw [hfill]
      split <;> rfl
  | cons n cuts ih =>
    unfold cutAt
    split
    · rename_i hnil
      subst hnil
      unfold readRequest
      rw [List.append_nil, List.take_of_length_le hbuf.le]
    · rename_i hne
      split
      · exact ih hbuf h
      · rename_i hn
        have htake : rest.take n ≠ [] := by
          rw [Ne, List.take_eq_nil_iff]
          rintro (h0 | h0)
          · exact hn h0
          · exact hne h0
        have hall : buf ++ rest = (buf ++ rest.take n) ++ rest.drop n := by
          rw [List.append_assoc, List.take_append_drop]
        have hfill : fill buf (rest.take n) = (buf ++ rest.take n).take bufferSize := by
          unfold fill
          rw [List.take_append, List.take_of_length_le hbuf.le]
        obtain ⟨b, bs, hcons⟩ := List.exists_cons_of_ne_nil htake
        have hstep : readRequest buf (rest.take n :: cutAt cuts (rest.drop n)) =
            if complete (fill buf (rest.take n)) then fill buf (rest.take n)
            else readRequest (fill buf (rest.take n)) (cutAt cuts (rest.drop n)) := by
          rw [hcons]
          rfl
        rw [hstep, hfill]
        by_cases hlen : (buf ++ rest.take n).length < bufferSize
        · rw [List.take_of_length_le hlen.le]
          by_cases hdone : rest.drop n = []
          · -- nothing is left, so complete or not, this is all of it
            rw [hdone, List.append_nil] at hall
            rw [hall, hdone, List.take_of_length_le hlen.le]
            split
            · rfl
            · cases cuts with
              | nil => rfl
              | cons m cuts => rfl
          · have hmore : (buf ++ rest.take n).length < (buf ++ rest).length := by
              have hpos := List.length_pos_of_ne_nil hdone
              have hlength : rest.length = (rest.take n).length + (rest.drop n).length := by
                rw [← List.length_append, List.take_append_drop]
              rw [List.length_append, List.length_append]
              omega
            have hnot := h (buf ++ rest.take n).length (lt_min hmore hlen)
            rw [hall, List.take_left] at hnot
            rw [hnot, if_neg (by decide), ih hlen]
            · rw [← hall]
            · rw [← hall]
              exact h
        · -- the buffer is full
          have hfull : complete ((buf ++ rest.take n).take bufferSize) = true := by
            unfold complete
            rw [Bool.or_eq_true]
            right
            rw [decide_eq_true_eq, List.length_take]
            omega
          rw [if_pos hfull, hall]
          exact (List.take_append_of_le_length (by omega)).symm

theorem readRequest_take (cuts : List Nat)
    (h : ∀ m, m < min bytes.length bufferSize → complete (bytes.take m) = false) :
    readRequest [] (cutAt cuts bytes) = bytes.take bufferSize :=
  readRequest_pieces cuts (by decide) h

/-! ### Lines, and where they end -/

theorem findHeaderEnd_append {data : List UInt8} {e : Nat} (h : findHeaderEnd data = some e) (more : List UInt8) :
    findHeaderEnd (data ++ more) = some e ∧ e ≤ data.length := by
  induction data using findHeaderEnd.induct generalizing e with
  | case1 tail =>
    cases h
    exact ⟨rfl, by simp⟩
  | case2 b tail hne ih =>
    rw [findHeaderEnd.eq_2 _ _ hne] at h
    obtain ⟨e', htail, rfl⟩ := Option.map_eq_some_iff.1 h
    obtain ⟨hmore, hle⟩ := ih htail
    refine ⟨?_, by rw [List.length_cons]; omega⟩
    rw [List.cons_append, findHeaderEnd.eq_2, hmore]
    · rfl
    · -- the tail found its own end, so the four bytes do not start here only by what follows
      intro t hb hcons
      obtain _ | ⟨x, _ | ⟨y, _ | ⟨z, tail⟩⟩⟩ := tail
      · cases htail
      · simp [findHeaderEnd] at htail
      · simp [findHeaderEnd] at htail
      · simp only [List.cons_append, List.cons.injEq] at hcons
        obtain ⟨rfl, rfl, rfl, -⟩ := hcons
        exact hne tail hb rfl
  | case3 => cases h

theorem findHeaderEnd_line {l more : List UInt8} (h : (13 : UInt8) ∉ l) :
    findHeaderEnd (l ++ more) = (findHeaderEnd more).map (· + l.length) := by
  induction l with
  | nil => simp
  | cons b l ih =>
    have hb : 13 ≠ b := List.ne_of_not_mem_cons h
    have hl : 13 ∉ l := List.not_mem_of_not_mem_cons h
    rw [List.cons_append, findHeaderEnd.eq_2, ih hl, Option.map_map]
    · congr 1
    · intro t ht
      exact absurd ht hb.symm

theorem findHeaderEnd_crlf {more : List UInt8} (h : more.head? ≠ some 13) :
    findHeaderEnd (13 :: 10 :: more) = (findHeaderEnd more).map (· + 2) := by
  rw [findHeaderEnd.eq_2, findHeaderEnd.eq_2, Option.map_map]
  · rfl
  · intro t ht
    exact absurd ht (by decide)
  · intro t _ hcons
    simp only [List.cons.injEq] at hcons
    obtain ⟨-, rfl⟩ := hcons
    exact h rfl

theorem cr_encode {l : List Char} (h : '\r' ∉ l) : (13 : UInt8) ∉ encode l := fun hmem => h (mem_encode (by decide) hmem)

theorem head?_encode_ne {l : List Char} (h : '\r' ∉ l) (hne : l ≠ []) (more : List UInt8) :
    (encode l ++ more).head? ≠ some 13 := by
  have hpos : encode l ≠ [] := by
    obtain ⟨c, cs, rfl⟩ := List.exists_cons_of_ne_nil hne
    rw [encode_cons]
    simp [String.utf8EncodeChar_ne_nil]
  obtain ⟨b, bs, hb⟩ := List.exists_cons_of_ne_nil hpos
  rw [hb, List.cons_append, List.head?_cons]
  intro heq
  apply cr_encode h
  rw [hb, ← Option.some.inj heq]
  exact List.mem_cons_self

theorem encode_crlf_cons (l : List Char) (lines : List (List Char)) :
    encode (crlf (l :: lines)) = encode l ++ 13 :: 10 :: encode (crlf lines) := by
  show encode ((l ++ ['\r', '\n']) ++ crlf lines) = _
  rw [encode_append, encode_append, List.append_assoc]
  rfl

/-- The header of some lines ends behind the empty line. -/
theorem findHeaderEnd_lines (h : ∀ l ∈ lines, IsLine l) (hne : lines ≠ []) (rest : List UInt8) :
    findHeaderEnd (encode (crlf lines) ++ 13 :: 10 :: rest) = some ((encode (crlf lines)).length + 2) := by
  induction lines with
  | nil => exact absurd rfl hne
  | cons l lines ih =>
    obtain ⟨hl, hlines⟩ := List.forall_mem_cons.1 h
    rw [encode_crlf_cons, List.append_assoc, findHeaderEnd_line (cr_encode hl.2.1)]
    cases lines with
    | nil =>
      show (findHeaderEnd (13 :: 10 :: 13 :: 10 :: rest)).map _ = _
      simp [findHeaderEnd, crlf]
      omega
    | cons l' lines =>
      obtain ⟨hl', -⟩ := List.forall_mem_cons.1 hlines
      have hhead : (encode (crlf (l' :: lines)) ++ 13 :: 10 :: rest).head? ≠ some 13 := by
        rw [encode_crlf_cons, List.append_assoc]
        exact head?_encode_ne hl'.2.1 hl'.1 _
      rw [List.cons_append, List.cons_append, findHeaderEnd_crlf hhead, ih hlines (List.cons_ne_nil _ _)]
      simp only [Option.map_some, List.length_append, List.length_cons]
      congr 1
      omega

/-! ### The same of the text -/

theorem splitBlank_line {l : List Char} (h : '\r' ∉ l) (more : List Char) :
    (splitBlank (l ++ more)).map Prod.snd = (splitBlank more).map Prod.snd := by
  induction l with
  | nil => rfl
  | cons c l ih =>
    have hc : '\r' ≠ c := List.ne_of_not_mem_cons h
    rw [List.cons_append, splitBlank.eq_2, Option.map_map]
    · exact ih (List.not_mem_of_not_mem_cons h)
    · intro t ht
      exact absurd ht hc.symm

theorem splitBlank_crlf {more : List Char} (h : more.head? ≠ some '\r') :
    (splitBlank ('\r' :: '\n' :: more)).map Prod.snd = (splitBlank more).map Prod.snd := by
  rw [splitBlank.eq_2, splitBlank.eq_2, Option.map_map, Option.map_map]
  · rfl
  · intro t ht
    exact absurd ht (by decide)
  · intro t _ hcons
    simp only [List.cons.injEq] at hcons
    obtain ⟨-, rfl⟩ := hcons
    exact h rfl

theorem splitBlank_none {l : List Char} (h : '\r' ∉ l) : splitBlank l = none := by
  have hmap := splitBlank_line h []
  rw [List.append_nil] at hmap
  exact Option.map_eq_none_iff.1 hmap

/-- The body of some lines is what stands behind the empty one. -/
theorem splitBlank_lines (h : ∀ l ∈ lines, IsLine l) (hne : lines ≠ []) (body : List Char) :
    (splitBlank (crlf lines ++ '\r' :: '\n' :: body)).map Prod.snd = some body := by
  induction lines with
  | nil => exact absurd rfl hne
  | cons l lines ih =>
    obtain ⟨hl, hlines⟩ := List.forall_mem_cons.1 h
    have hcons : crlf (l :: lines) ++ '\r' :: '\n' :: body =
        l ++ '\r' :: '\n' :: (crlf lines ++ '\r' :: '\n' :: body) := by
      simp [crlf]
    rw [hcons, splitBlank_line hl.2.1]
    cases lines with
    | nil => rfl
    | cons l' lines =>
      obtain ⟨hl', -⟩ := List.forall_mem_cons.1 hlines
      obtain ⟨c, cs, hcs⟩ := List.exists_cons_of_ne_nil hl'.1
      have hhead : (crlf (l' :: lines) ++ '\r' :: '\n' :: body).head? ≠ some '\r' := by
        unfold crlf
        rw [List.flatMap_cons, hcs]
        simp only [List.cons_append, List.head?_cons, Ne, Option.some.injEq]
        rintro rfl
        exact hl'.2.1 (by rw [hcs]; exact List.mem_cons_self)
      rw [splitBlank_crlf hhead]
      exact ih hlines (List.cons_ne_nil _ _)

theorem extractBody_lines (h : ∀ l ∈ lines, IsLine l) (hne : lines ≠ []) (hbody : '\r' ∉ body) :
    extractBody (crlf lines ++ '\r' :: '\n' :: body) = body := by
  obtain ⟨parts, hparts, hsnd⟩ := Option.map_eq_some_iff.1 (splitBlank_lines h hne body)
  unfold extractBody afterBlank
  rw [hparts, Option.map_some, hsnd, splitBlank_none hbody]
  rfl

theorem linesOf_cons {l : List Char} (hl : '\n' ∉ l) (more : List Char) :
    linesOf (l ++ '\r' :: '\n' :: more) = l :: linesOf more := by
  have hn : '\n' ∉ l ++ ['\r'] := by
    rw [List.mem_append, not_or]
    exact ⟨hl, by decide⟩
  have hsplit : (l ++ '\r' :: '\n' :: more).splitOn '\n' = (l ++ ['\r']) :: more.splitOn '\n' := by
    rw [show l ++ '\r' :: '\n' :: more = (l ++ ['\r']) ++ '\n' :: more by simp, List.splitOn_append_cons_self,
      List.splitOn_eq_singleton hn]
    rfl
  have hne : more.splitOn '\n' ≠ [] := List.splitOn_ne_nil _ _
  have hstrip : (stripSuffix ['\r'] (l ++ ['\r'])).getD (l ++ ['\r']) = l := by
    unfold stripSuffix
    rw [if_pos (by rw [List.isSuffixOf_iff_suffix]; exact List.suffix_append _ _)]
    simp
  unfold linesOf
  simp only [hsplit]
  rw [List.dropLast_cons_of_ne_nil hne, List.map_cons, hstrip, List.getLast?_cons]
  obtain ⟨x, xs, hx⟩ := List.exists_cons_of_ne_nil hne
  rw [hx, List.getLast?_cons]
  simp

/-- The lines of a header are its lines, and the empty one. -/
theorem linesOf_lines (h : ∀ l ∈ lines, IsLine l) (more : List Char) :
    linesOf (crlf lines ++ more) = lines ++ linesOf more := by
  induction lines with
  | nil => rfl
  | cons l lines ih =>
    obtain ⟨hl, hlines⟩ := List.forall_mem_cons.1 h
    have hcons : crlf (l :: lines) ++ more = l ++ '\r' :: '\n' :: (crlf lines ++ more) := by simp [crlf]
    rw [hcons, linesOf_cons hl.2.2, ih hlines]
    rfl

theorem isSome_findHeaderEnd {bytes : List UInt8} (h : (splitBlank (lossy bytes)).isSome) :
    (findHeaderEnd bytes).isSome := by
  have hmain : ∀ text : List Char, ∀ b : List UInt8, lossy b = text → (splitBlank text).isSome →
      (findHeaderEnd b).isSome := by
    intro text
    induction text using splitBlank.induct with
    | case1 rest =>
      intro b hb _
      -- four characters below 128 are four bytes
      obtain ⟨f1, r1, rfl, h1, hf1⟩ := lossy_cons hb
      obtain ⟨f2, r2, rfl, h2, hf2⟩ := lossy_cons h1
      obtain ⟨f3, r3, rfl, h3, hf3⟩ := lossy_cons h2
      obtain ⟨f4, r4, rfl, -, hf4⟩ := lossy_cons h3
      rw [hf1 (by decide), hf2 (by decide), hf3 (by decide), hf4 (by decide)]
      rfl
    | case2 c rest hne ih =>
      intro b hb hblank
      rw [splitBlank.eq_2 _ _ hne, Option.isSome_map] at hblank
      obtain ⟨front, r, rfl, hr, -⟩ := lossy_cons hb
      have hfound := ih r hr hblank
      clear hb
      induction front with
      | nil => exact hfound
      | cons a front iha =>
        rw [List.cons_append]
        unfold findHeaderEnd
        split
        · rfl
        · rename_i heq
          obtain ⟨-, rfl⟩ := List.cons_eq_cons.1 heq
          rw [Option.isSome_map]
          exact iha
        · rename_i heq
          cases heq
    | case3 =>
      intro b _ hblank
      cases hblank
  exact hmain _ bytes rfl h

end HidraNet.Hidramail
