import HidraNet.Hidramail.Reading
import HidraNet.Lib.Windows

/-!
# Answers

How the client reads an HTTP answer: the header up to the first empty line, and the body by its `Content-Length` or in
chunks.  A slice out of range, a difference below zero and a loop that does not end are none; there are none
(`parseResponse_isSome`).
-/

namespace HidraNet.Core.Http

open Hidramail (linesOf trimText lowered)
open Lines Net Text Utf8 Windows

def MAX_ANSWER : Nat := 256 * 1024

def CRLF : List UInt8 := [13, 10]

def BLANK : List UInt8 := [13, 10, 13, 10]

def slice (l : List UInt8) (start stop : Nat) : Option (List UInt8) :=
  if start ≤ stop ∧ stop ≤ l.length then some ((l.take stop).drop start) else none

def sub (a b : Nat) : Option Nat := if b ≤ a then some (a - b) else none

def hexValue (ds : List Char) : Option Nat := (ds.mapM hexVal).map fun vs => vs.foldl (fun n d => 16 * n + d) 0

/-- `usize::from_str_radix` to the base 16. -/
def fromStrRadix16 (l : List Char) : Option Nat :=
  let ds := if l.head? = some '+' then l.tail else l
  if ds = [] then none else (hexValue ds).filter (· < 2 ^ 64)

/-- The body of an answer in chunks, joined; what was joined so far goes along. -/
def dechunk : Nat → List UInt8 → List UInt8 → Option (Except String (List UInt8))
  | 0, _, _ => none
  | n + 1, rest, out =>
    match position CRLF rest with
    | none => some (.error "a chunked answer ends mid-chunk")
    | some eol => do
      let sizeLine := lossy (← slice rest 0 eol)
      let after ← slice rest (eol + 2) rest.length
      let sizeHex := trimText ((sizeLine.splitOn ';').headD [])
      match fromStrRadix16 sizeHex with
      | none => some (.error "a chunked answer has a bad chunk size")
      | some size =>
        if size = 0 then some (.ok out)
        else if size > after.length then some (.error "a chunked answer ends mid-chunk")
        else if (← sub after.length size) < 2 then some (.error "a chunked answer ends mid-chunk")
        else do
          let data ← slice after 0 size
          let tail ← slice after size after.length
          if CRLF <+: tail then dechunk n (tail.drop 2) (out ++ data)
          else some (.error "a chunk is not followed by its line end")

def header (head : List Char) (name : String) : Option (List Char) :=
  ((linesOf head).drop 1).findSome? fun line =>
    match splitOnce ':' line with
    | none => none
    | some (key, value) => if lowered (trimText key) = name.toList then some (trimText value) else none

/-- `str::contains`. -/
def contains (text : List Char) (pat : String) : Bool := (position pat.toList text).isSome

def parseStatus (head : List Char) : Option Nat :=
  (((linesOf head).head?.bind fun line => (words line)[1]?)).bind (parseUnsigned 65535)

/-- The body's bytes: in chunks, of the length that the header says, or all there are. -/
def readBody (head : List Char) (body : List UInt8) : Option (Except String (List UInt8)) :=
  if (header head "transfer-encoding").any fun v => contains (lowered v) "chunked" then
    dechunk (body.length + 1) body []
  else
    match header head "content-length" with
    | some len =>
      match parseUnsigned (2 ^ 64 - 1) len with
      | none => some (.error "the answer has a bad Content-Length")
      | some len =>
        -- a connection that ended early must not pass for a short answer
        if body.length < len then some (.error "the answer was cut short")
        else (slice body 0 len).map .ok
    | none => some (.ok body)

/-- The status and the body of an answer. -/
def parseResponse (raw : List UInt8) : Option (Except String (Nat × List Char)) :=
  if raw.length ≥ MAX_ANSWER then some (.error "the answer is larger than any this client reads")
  else
    match position BLANK raw with
    | none => some (.error "the answer has no headers")
    | some split => do
      let head := lossy (← slice raw 0 split)
      let body ← slice raw (split + 4) raw.length
      match parseStatus head with
      | none => some (.error "the answer has no status")
      | some status =>
        match ← readBody head body with
        | .error why => some (.error why)
        | .ok body =>
          match fromUtf8 body with
          | none => some (.error "the answer is not text")
          | some text => some (.ok (status, text))

example : dechunk 9 (encode "4;x=y\r\n\"é\"\r\n0\r\n\r\n".toList) [] = some (.ok (encode "\"é\"".toList)) := by
  decide

/-! ### Neither out of range nor without end -/

theorem slice_some {l : List UInt8} {start stop : Nat} (h : start ≤ stop) (hstop : stop ≤ l.length) :
    slice l start stop = some ((l.take stop).drop start) := if_pos ⟨h, hstop⟩

theorem slice_front {l : List UInt8} {n : Nat} (h : n ≤ l.length) : slice l 0 n = some (l.take n) := by
  rw [slice_some (Nat.zero_le n) h, List.drop_zero]

theorem slice_back {l : List UInt8} {n : Nat} (h : n ≤ l.length) : slice l n l.length = some (l.drop n) := by
  rw [slice_some h (Nat.le_refl _), List.take_length]

theorem dechunk_isSome (n : Nat) (rest out : List UInt8) (h : rest.length < n) : ∃ r, dechunk n rest out = some r := by
  induction n generalizing rest out with
  | zero => omega
  | succ n ih =>
    rw [dechunk]
    cases hpos : position CRLF rest with
    | none => exact ⟨_, rfl⟩
    | some eol =>
      have hle : eol + 2 ≤ rest.length := position_le hpos
      dsimp only
      rw [slice_front (by omega), Option.bind_eq_bind, Option.bind_some, slice_back hle, Option.bind_some]
      split
      · exact ⟨_, rfl⟩
      · rename_i size hsize
        split
        · exact ⟨_, rfl⟩
        · split
          · exact ⟨_, rfl⟩
          · rename_i hlen
            rw [sub, if_pos (by omega), Option.bind_eq_bind, Option.bind_some]
            split
            · exact ⟨_, rfl⟩
            · rw [slice_front (by omega), Option.bind_some, slice_back (by omega), Option.bind_some]
              split
              · apply ih
                simp only [List.length_drop]
                omega
              · exact ⟨_, rfl⟩

theorem readBody_isSome (head : List Char) (body : List UInt8) : ∃ r, readBody head body = some r := by
  unfold readBody
  split
  · exact dechunk_isSome _ _ _ (Nat.lt_succ_self _)
  · split
    · split
      · exact ⟨_, rfl⟩
      · split
        · exact ⟨_, rfl⟩
        · rename_i hlen
          rw [slice_front (by omega)]
          exact ⟨_, rfl⟩
    · exact ⟨_, rfl⟩

theorem parseResponse_isSome (raw : List UInt8) : ∃ r, parseResponse raw = some r := by
  unfold parseResponse
  split
  · exact ⟨_, rfl⟩
  · cases hpos : position BLANK raw with
    | none => exact ⟨_, rfl⟩
    | some split =>
      have hle : split + 4 ≤ raw.length := position_le hpos
      dsimp only
      rw [slice_front (by omega), Option.bind_eq_bind, Option.bind_some, slice_back hle, Option.bind_some]
      split
      · exact ⟨_, rfl⟩
      · obtain ⟨r, hr⟩ := readBody_isSome (lossy (raw.take split)) (raw.drop (split + 4))
        rw [hr, Option.bind_eq_bind, Option.bind_some]
        split
        · exact ⟨_, rfl⟩
        · split <;> exact ⟨_, rfl⟩

end HidraNet.Core.Http
