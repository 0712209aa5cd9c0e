import HidraNet.Hidramail.Reading
import HidraNet.Lib.Wire

/-!
# The frames of a chat client

A connection's first read holds the request that makes it a WebSocket, and what is behind it is the first of the frames.
Until the join one frame is taken at a time, and then all that a read completes; a session waits for bytes as soon as it
has its join, whatever is left of that read.

Where the request is as long in text as in bytes, and the join's read completes nothing behind it, the frames handled
are those that have come, however the bytes are cut (`frames_run`).  Otherwise a frame that came with the join is left
(`left_behind`), and bytes behind a request that is no text are lost (`shifted`).
-/

namespace HidraNet.Hidrachat.Client

open Hidramail Utf8 Wire

abbrev Bytes := List UInt8

def MAX_FRAME_PAYLOAD : Nat := 64 * 1024

/-! ### Frames from bytes -/

inductive Frame where
  | incomplete
  | tooLarge
  | ready (opcode : UInt8) (payload : Bytes) (consumed : Nat)
deriving DecidableEq

def unmask (mask payload : Bytes) : Bytes := payload.mapIdx fun i b => b ^^^ mask.getD (i % 4) 0

def extra (second : UInt8) : Nat :=
  if second.toNat % 128 = 126 then 2 else if second.toNat % 128 = 127 then 8 else 0

def maskLen (second : UInt8) : Nat := if 128 ≤ second.toNat then 4 else 0

def payloadLen (second : UInt8) (length : Bytes) : Nat :=
  if extra second = 0 then second.toNat % 128 else ofBe length

def tryParseFrame : Bytes → Frame
  | first :: second :: rest =>
    if rest.length < extra second then .incomplete
    else
      let size := payloadLen second (rest.take (extra second))
      if MAX_FRAME_PAYLOAD < size then .tooLarge
      else
        let rest := rest.drop (extra second)
        if rest.length < maskLen second + size then .incomplete
        else
          let payload := (rest.drop (maskLen second)).take size
          .ready (first &&& 0x0F) (if 128 ≤ second.toNat then unmask (rest.take 4) payload else payload)
            (2 + extra second + maskLen second + size)
  | _ => .incomplete

/-- The frames at the front, whether one over the limit ends them, and what is left. -/
def takeFramesWithin : Nat → Bytes → List (UInt8 × Bytes) × Bool × Bytes
  | 0, buf => ([], false, buf)
  | n + 1, buf =>
    match tryParseFrame buf with
    | .incomplete => ([], false, buf)
    | .tooLarge => ([], true, buf)
    | .ready opcode payload consumed =>
      let more := takeFramesWithin n (buf.drop consumed)
      ((opcode, payload) :: more.1, more.2)

def takeFrames (buf : Bytes) : List (UInt8 × Bytes) × Bool × Bytes := takeFramesWithin buf.length buf

/-! ### A session -/

inductive Phase where
  | joining
  | live
  | ended
deriving DecidableEq

structure Session where
  phase : Phase
  wsBuf : Bytes
  handled : List (UInt8 × Bytes)
deriving DecidableEq

abbrev Join := Bytes → Option Bool

def readJoinWithin (join : Join) : Nat → Session → Session
  | 0, s => s
  | n + 1, s =>
    match tryParseFrame s.wsBuf with
    | .incomplete => s
    | .tooLarge => { s with phase := .ended }
    | .ready opcode payload consumed =>
      let s : Session := ⟨.joining, s.wsBuf.drop consumed, s.handled ++ [(opcode, payload)]⟩
      if opcode = 8 then { s with phase := .ended }
      else if opcode ≠ 1 then readJoinWithin join n s
      else
        match join payload with
        | none => readJoinWithin join n s
        | some admitted => { s with phase := if admitted then .live else .ended }

def handleFrames (s : Session) (tooLarge : Bool) : List (UInt8 × Bytes) → Session
  | [] => { s with phase := if tooLarge then .ended else s.phase }
  | (opcode, payload) :: frames =>
    let s := { s with handled := s.handled ++ [(opcode, payload)] }
    if opcode = 8 then { s with phase := .ended } else handleFrames s tooLarge frames

/-- A read. -/
def receive (join : Join) (s : Session) (bytes : Bytes) : Session :=
  match s.phase with
  | .ended => s
  | .joining => readJoinWithin join (s.wsBuf ++ bytes).length { s with wsBuf := s.wsBuf ++ bytes }
  | .live =>
    let (frames, tooLarge, rest) := takeFrames (s.wsBuf ++ bytes)
    handleFrames { s with wsBuf := rest } tooLarge frames

/-- Where `handle_conn` has the request end: by its text. -/
def headEnd (buf : Bytes) : Nat :=
  match splitBlank (lossy buf) with
  | none => buf.length
  | some (before, _) => (encode before).length + 4

def start (join : Join) (buf : Bytes) : Session := receive join ⟨.joining, [], []⟩ (buf.drop (headEnd buf))

/-! ### What a client sends -/

/-- A masked frame: its first byte and its mask. -/
structure ClientFrame where
  first : UInt8
  mask : Bytes
  payload : Bytes
  four : mask.length = 4
  fits : payload.length ≤ MAX_FRAME_PAYLOAD

namespace ClientFrame

def content (f : ClientFrame) : UInt8 × Bytes := (f.first &&& 0x0F, f.payload)

def lengthBytes (n : Nat) : Bytes :=
  if n < 126 then [UInt8.ofNat (128 + n)] else if n < 2 ^ 16 then 254 :: beBytes 2 n else 255 :: beBytes 8 n

def bytes (f : ClientFrame) : Bytes :=
  f.first :: (lengthBytes f.payload.length ++ (f.mask ++ unmask f.mask f.payload))

end ClientFrame

def Over (tail : Bytes) : Prop := ∃ first second size more, second.toNat % 128 = 127 ∧ MAX_FRAME_PAYLOAD < size ∧
  size < 2 ^ 64 ∧ tail = first :: second :: (beBytes 8 size ++ more)

def wire (frames : List ClientFrame) (tail : Bytes) : Bytes := frames.flatMap ClientFrame.bytes ++ tail

def complete : List ClientFrame → Nat → List ClientFrame
  | [], _ => []
  | f :: frames, n => if f.bytes.length ≤ n then f :: complete frames (n - f.bytes.length) else []

def Overdue (frames : List ClientFrame) (tail : Bytes) (n : Nat) : Prop :=
  tail ≠ [] ∧ (frames.flatMap ClientFrame.bytes).length + 10 ≤ n

instance (frames : List ClientFrame) (tail : Bytes) (n : Nat) : Decidable (Overdue frames tail n) :=
  inferInstanceAs (Decidable (_ ∧ _))

def Waits (frames : List ClientFrame) (tail : Bytes) (n : Nat) : Prop :=
  complete frames n = [] ∧ ¬ Overdue frames tail n

/-! ### One frame -/

theorem length_unmask (mask payload : Bytes) : (unmask mask payload).length = payload.length := List.length_mapIdx

private theorem unmask_unmask (mask payload : Bytes) : unmask mask (unmask mask payload) = payload := by
  apply List.ext_getElem?
  intro i
  unfold unmask
  simp only [List.getElem?_mapIdx]
  cases payload[i]? with
  | none => rfl
  | some b => simp

private theorem tryParseFrame_short {first second : UInt8} {rest : Bytes} (h : rest.length < extra second) :
    tryParseFrame (first :: second :: rest) = .incomplete := by
  unfold tryParseFrame
  dsimp only
  rw [if_pos h]

/-- A frame whose length is all there. -/
private theorem tryParseFrame_length {first second : UInt8} {length rest : Bytes} (h : length.length = extra second) :
    tryParseFrame (first :: second :: (length ++ rest)) =
      if MAX_FRAME_PAYLOAD < payloadLen second length then .tooLarge
      else if rest.length < maskLen second + payloadLen second length then .incomplete
      else
        let payload := (rest.drop (maskLen second)).take (payloadLen second length)
        .ready (first &&& 0x0F) (if 128 ≤ second.toNat then unmask (rest.take 4) payload else payload)
          (2 + extra second + maskLen second + payloadLen second length) := by
  have hle : ¬ (length ++ rest).length < extra second := by
    rw [List.length_append]
    omega
  unfold tryParseFrame
  dsimp only
  rw [if_neg hle, ← h, List.take_left, List.drop_left]

private theorem tryParseFrame_over {tail : Bytes} (h : Over tail) (n : Nat) :
    tryParseFrame (tail.take n) = if 10 ≤ n then .tooLarge else .incomplete := by
  obtain ⟨first, second, size, more, hsecond, hsize, hlt, rfl⟩ := h
  have hextra : extra second = 8 := by
    unfold extra
    rw [if_neg (by omega), if_pos hsecond]
  obtain _ | _ | n := n
  · rfl
  · rfl
  · rw [List.take_succ_cons, List.take_succ_cons]
    split
    · have hlen : (beBytes 8 size).length = 8 := length_beBytes 8 size
      have hpayload : payloadLen second (beBytes 8 size) = size := by
        unfold payloadLen
        rw [if_neg (by omega), ofBe_beBytes (by omega)]
      rw [List.take_append, List.take_of_length_le (by omega), tryParseFrame_length (by omega), hpayload, if_pos hsize]
    · apply tryParseFrame_short
      rw [List.length_take, hextra]
      omega

/-- The second byte of a frame's own, and the rest of its length. -/
private theorem exists_lengthBytes {n : Nat} (h : n ≤ MAX_FRAME_PAYLOAD) : ∃ second length,
    ClientFrame.lengthBytes n = second :: length ∧ length.length = extra second ∧ payloadLen second length = n ∧
      128 ≤ second.toNat := by
  unfold MAX_FRAME_PAYLOAD at h
  unfold ClientFrame.lengthBytes
  split_ifs with hshort hmiddle
  · have hsecond : (UInt8.ofNat (128 + n)).toNat = 128 + n := by
      rw [UInt8.toNat_ofNat', Nat.mod_eq_of_lt (by omega)]
    have hextra : extra (UInt8.ofNat (128 + n)) = 0 := by
      unfold extra
      rw [hsecond, if_neg (by omega), if_neg (by omega)]
    refine ⟨_, _, rfl, hextra.symm, ?_, by omega⟩
    unfold payloadLen
    rw [if_pos hextra, hsecond]
    omega
  · exact ⟨254, _, rfl, length_beBytes 2 n, ofBe_beBytes hmiddle, by decide⟩
  · exact ⟨255, _, rfl, length_beBytes 8 n, ofBe_beBytes (by omega), by decide⟩

private theorem tryParseFrame_bytes (f : ClientFrame) (rest : Bytes) :
    tryParseFrame (f.bytes ++ rest) = .ready (f.first &&& 0x0F) f.payload f.bytes.length := by
  obtain ⟨second, length, hbytes, hextra, hsize, hmasked⟩ := exists_lengthBytes f.fits
  have hfits := f.fits
  have hfour := f.four
  have hlen := length_unmask f.mask f.payload
  have hmask : maskLen second = 4 := if_pos hmasked
  unfold ClientFrame.bytes
  rw [hbytes, List.cons_append, List.cons_append, List.cons_append, List.append_assoc, tryParseFrame_length hextra,
    hsize, if_neg (by omega), hmask, if_neg (by simp; omega)]
  dsimp only
  rw [if_pos hmasked, List.append_assoc, ← hfour, List.take_left, List.drop_left, ← hlen, List.take_left, unmask_unmask]
  congr 1
  simp only [List.length_cons, List.length_append]
  omega

private theorem tryParseFrame_part (f : ClientFrame) {n : Nat} (h : n < f.bytes.length) :
    tryParseFrame (f.bytes.take n) = .incomplete := by
  obtain ⟨second, length, hbytes, hextra, hsize, hmasked⟩ := exists_lengthBytes f.fits
  have hfits := f.fits
  have hfour := f.four
  have hlen := length_unmask f.mask f.payload
  have hmask : maskLen second = 4 := if_pos hmasked
  unfold ClientFrame.bytes at h ⊢
  rw [hbytes] at h ⊢
  simp only [List.cons_append, List.length_cons, List.length_append] at h
  obtain _ | _ | n := n
  · rfl
  · rfl
  · rw [List.cons_append, List.take_succ_cons, List.take_succ_cons]
    by_cases hn : n < length.length
    · apply tryParseFrame_short
      rw [List.length_take]
      omega
    · rw [List.take_append, List.take_of_length_le (by omega), tryParseFrame_length hextra, hsize, if_neg (by omega),
        if_pos]
      rw [List.length_take, List.length_append]
      omega

/-! ### Many frames -/

variable {frames : List ClientFrame} {tail : Bytes} {join : Join}

private theorem bytes_pos (f : ClientFrame) : 0 < f.bytes.length := by
  unfold ClientFrame.bytes
  exact Nat.succ_pos _

private theorem complete_append (done : List ClientFrame) (n : Nat) :
    complete (done ++ frames) ((done.flatMap ClientFrame.bytes).length + n) = done ++ complete frames n := by
  induction done with
  | nil => simp
  | cons f done ih =>
    rw [List.flatMap_cons, List.length_append, List.cons_append, complete, if_pos (by omega), List.cons_append, ← ih]
    congr 2
    omega

private theorem complete_mono {n m : Nat} (h : n ≤ m) : complete frames n <+: complete frames m := by
  induction frames generalizing n m with
  | nil => exact List.prefix_rfl
  | cons f frames ih =>
    unfold complete
    split
    · rw [if_pos (by omega)]
      exact List.prefix_cons_inj f |>.2 (ih (by omega))
    · exact List.nil_prefix

private theorem overdue_append (done : List ClientFrame) (n : Nat) :
    Overdue (done ++ frames) tail ((done.flatMap ClientFrame.bytes).length + n) ↔ Overdue frames tail n := by
  unfold Overdue
  rw [List.flatMap_append, List.length_append]
  constructor
  · rintro ⟨htail, h⟩
    exact ⟨htail, by omega⟩
  · rintro ⟨htail, h⟩
    exact ⟨htail, by omega⟩

private theorem take_wire_cons (f : ClientFrame) {n : Nat} (h : f.bytes.length ≤ n) :
    (wire (f :: frames) tail).take n = f.bytes ++ (wire frames tail).take (n - f.bytes.length) := by
  unfold wire
  rw [List.flatMap_cons, List.append_assoc, List.take_append, List.take_of_length_le h]

private theorem take_wire_part (f : ClientFrame) {n : Nat} (h : n < f.bytes.length) :
    (wire (f :: frames) tail).take n = f.bytes.take n := by
  unfold wire
  rw [List.flatMap_cons, List.append_assoc, List.take_append_of_le_length (by omega)]

/-- A frame that is not all there, or one over the limit, stands at the front. -/
private theorem tryParseFrame_wire (htail : tail = [] ∨ Over tail) {n : Nat} (h : complete frames n = []) :
    tryParseFrame ((wire frames tail).take n) = if Overdue frames tail n then .tooLarge else .incomplete := by
  cases frames with
  | nil =>
    show tryParseFrame (tail.take n) = _
    obtain rfl | hover := htail
    · rw [if_neg fun h => h.1 rfl, List.take_nil]
      rfl
    · have hne : tail ≠ [] := by
        obtain ⟨first, second, size, more, -, -, -, rfl⟩ := hover
        exact List.cons_ne_nil _ _
      rw [tryParseFrame_over hover]
      by_cases hn : 10 ≤ n
      · rw [if_pos hn, if_pos ⟨hne, by simpa using hn⟩]
      · rw [if_neg hn, if_neg fun h => hn (by simpa using h.2)]
  | cons f frames =>
    unfold complete at h
    split at h
    · cases h
    · rename_i hlt
      rw [take_wire_part f (by omega), tryParseFrame_part f (by omega), if_neg]
      rintro ⟨-, hle⟩
      rw [List.flatMap_cons, List.length_append] at hle
      omega

/-- What is taken is what is complete. -/
private theorem takeFramesWithin_wire (htail : tail = [] ∨ Over tail) (fuel n : Nat) (hfuel : n ≤ fuel) :
    ∃ done rest k, frames = done ++ rest ∧ n = (done.flatMap ClientFrame.bytes).length + k ∧ complete rest k = [] ∧
      takeFramesWithin fuel ((wire frames tail).take n) =
        (done.map ClientFrame.content, decide (Overdue rest tail k), (wire rest tail).take k) := by
  induction fuel generalizing frames n with
  | zero =>
    obtain rfl : n = 0 := by omega
    have hnone : complete frames 0 = [] := by
      cases frames with
      | nil => rfl
      | cons f frames =>
        have hpos := bytes_pos f
        rw [complete, if_neg (by omega)]
    have hnot : ¬ Overdue frames tail 0 := fun h => absurd h.2 (by omega)
    refine ⟨[], frames, 0, rfl, rfl, hnone, ?_⟩
    rw [decide_eq_false hnot]
    rfl
  | succ fuel ih =>
    by_cases hnone : complete frames n = []
    · refine ⟨[], frames, n, rfl, (Nat.zero_add n).symm, hnone, ?_⟩
      unfold takeFramesWithin
      rw [tryParseFrame_wire htail hnone]
      by_cases hover : Overdue frames tail n
      · rw [if_pos hover, decide_eq_true hover]
        rfl
      · rw [if_neg hover, decide_eq_false hover]
        rfl
    · cases frames with
      | nil => exact absurd rfl hnone
      | cons f frames =>
        have hpos := bytes_pos f
        have hle : f.bytes.length ≤ n := by
          by_contra hlt
          exact hnone (by rw [complete, if_neg hlt])
        obtain ⟨done, rest, k, rfl, hk, hrest, htaken⟩ := @ih frames (n - f.bytes.length) (by omega)
        refine ⟨f :: done, rest, k, rfl, ?_, hrest, ?_⟩
        · rw [List.flatMap_cons, List.length_append]
          omega
        · unfold takeFramesWithin
          rw [take_wire_cons f hle, tryParseFrame_bytes]
          dsimp only
          rw [List.drop_left, htaken]
          rfl

/-! ### A session's reads -/

/-- Up to a frame that closes, the frames of a read are handled in turn. -/
theorem handleFrames_cases (s : Session) (tooLarge : Bool) (taken : List (UInt8 × Bytes)) (hlive : s.phase = .live) :
    (handleFrames s tooLarge taken).phase = .ended ∧ ((∃ c ∈ taken, c.1 = 8) ∨ tooLarge = true) ∨
      tooLarge = false ∧ handleFrames s tooLarge taken = { s with handled := s.handled ++ taken } := by
  induction taken generalizing s with
  | nil =>
    cases tooLarge with
    | true => exact .inl ⟨rfl, .inr rfl⟩
    | false => exact .inr ⟨rfl, by simp [handleFrames]⟩
  | cons c taken ih =>
    unfold handleFrames
    dsimp only
    split
    · rename_i hclose
      exact .inl ⟨rfl, .inl ⟨c, List.mem_cons_self, hclose⟩⟩
    · obtain ⟨hended, hwhy⟩ | ⟨hlarge, hsame⟩ := ih { s with handled := s.handled ++ [c] } hlive
      · refine .inl ⟨hended, hwhy.imp_left ?_⟩
        rintro ⟨c', hc', hclose⟩
        exact ⟨c', List.mem_cons_of_mem _ hc', hclose⟩
      · refine .inr ⟨hlarge, ?_⟩
        rw [hsame]
        simp

/-- Where a session is after so many bytes: its join still comes, or what is complete is handled, or it ended for one of
the two reasons. -/
inductive At (j : ClientFrame) (rest : List ClientFrame) (tail : Bytes) (n : Nat) : Session → Prop
  | joining (h : n < j.bytes.length) : At j rest tail n ⟨.joining, (wire (j :: rest) tail).take n, []⟩
  | live (done left : List ClientFrame) (k : Nat) (hall : j :: rest = done ++ left)
      (hn : n = (done.flatMap ClientFrame.bytes).length + k) (hwaits : Waits left tail k) :
      At j rest tail n ⟨.live, (wire left tail).take k, done.map ClientFrame.content⟩
  | ended (s : Session) (h : s.phase = .ended)
      (hwhy : (∃ f ∈ complete (j :: rest) n, f.content.1 = 8) ∨ Overdue (j :: rest) tail n) : At j rest tail n s

def JoinAlone (joinLen : Nat) (rest : List ClientFrame) (tail : Bytes) : Nat → List Bytes → Prop
  | _, [] => True
  | n, bytes :: reads =>
    (n < joinLen → joinLen ≤ n + bytes.length → Waits rest tail (n + bytes.length - joinLen)) ∧
      JoinAlone joinLen rest tail (n + bytes.length) reads

variable {j : ClientFrame} {rest : List ClientFrame} {s : Session} {n : Nat}

theorem At.receive (htail : tail = [] ∨ Over tail) (hj : j.content.1 = 1 ∧ join j.payload = some true)
    (h : At j rest tail n s) (bytes : Bytes) (hle : n + bytes.length ≤ (wire (j :: rest) tail).length)
    (hbytes : (wire (j :: rest) tail).take n ++ bytes = (wire (j :: rest) tail).take (n + bytes.length))
    (halone : n < j.bytes.length → j.bytes.length ≤ n + bytes.length →
      Waits rest tail (n + bytes.length - j.bytes.length)) :
    At j rest tail (n + bytes.length) (receive join s bytes) := by
  cases h with
  | joining hlt =>
    show At _ _ _ _ (readJoinWithin join _ ⟨.joining, _ ++ bytes, []⟩)
    rw [hbytes]
    obtain ⟨fuel, hfuel⟩ : ∃ fuel, ((wire (j :: rest) tail).take (n + bytes.length)).length = fuel :=
      ⟨_, rfl⟩
    rw [List.length_take, Nat.min_eq_left hle] at hfuel
    rw [List.length_take, Nat.min_eq_left hle]
    by_cases hall : j.bytes.length ≤ n + bytes.length
    · obtain ⟨m, hm⟩ : ∃ m, n + bytes.length = m + 1 := ⟨n + bytes.length - 1, by omega⟩
      rw [hm]
      unfold readJoinWithin
      rw [← hm, take_wire_cons j hall, tryParseFrame_bytes]
      have hone : j.first &&& 0x0F = 1 := hj.1
      dsimp only
      rw [if_neg (by rw [hone]; decide), if_neg (by rw [hone]; decide), hj.2, List.drop_left]
      refine At.live [j] rest (n + bytes.length - j.bytes.length) rfl ?_ (halone hlt hall)
      rw [List.flatMap_singleton]
      omega
    · have hwait : ∀ fuel, readJoinWithin join fuel ⟨.joining, (wire (j :: rest) tail).take (n + bytes.length), []⟩ =
          ⟨.joining, (wire (j :: rest) tail).take (n + bytes.length), []⟩ := by
        intro fuel
        cases fuel with
        | zero => rfl
        | succ fuel =>
          unfold readJoinWithin
          rw [take_wire_part j (by omega), tryParseFrame_part j (by omega)]
      rw [hwait]
      exact At.joining (by omega)
  | live done left k hall hn hwaits =>
    have hwire : wire (j :: rest) tail = done.flatMap ClientFrame.bytes ++ wire left tail := by
      unfold wire
      rw [hall, List.flatMap_append, List.append_assoc]
    have hbuf : (wire left tail).take k ++ bytes = (wire left tail).take (k + bytes.length) := by
      rw [hwire, hn, Nat.add_assoc, List.take_length_add_append, List.take_length_add_append,
        List.append_assoc] at hbytes
      exact List.append_cancel_left hbytes
    have hlen : k + bytes.length ≤ (wire left tail).length := by
      rw [hwire, List.length_append] at hle
      omega
    obtain ⟨done', left', k', rfl, hk', hnone, htaken⟩ := @takeFramesWithin_wire left tail htail (k + bytes.length)
      _ le_rfl
    have hn' : n + bytes.length = ((done ++ done').flatMap ClientFrame.bytes).length + k' := by
      rw [List.flatMap_append, List.length_append]
      omega
    have hreceive :
        Client.receive join ⟨.live, (wire (done' ++ left') tail).take k, done.map ClientFrame.content⟩ bytes =
        handleFrames ⟨.live, (wire left' tail).take k', done.map ClientFrame.content⟩ (decide (Overdue left' tail k'))
          (done'.map ClientFrame.content) := by
      show handleFrames _ (takeFrames _).2.1 (takeFrames _).1 = _
      unfold takeFrames
      rw [hbuf, List.length_take, Nat.min_eq_left hlen, htaken]
    rw [hreceive]
    rw [← List.append_assoc] at hall
    obtain ⟨hended, hwhy⟩ | ⟨hlarge, hsame⟩ := handleFrames_cases
      ⟨.live, (wire left' tail).take k', done.map ClientFrame.content⟩ (decide (Overdue left' tail k'))
      (done'.map ClientFrame.content) rfl
    · refine At.ended _ hended ?_
      rw [hall, hn', complete_append, hnone, overdue_append, List.append_nil]
      obtain ⟨c, hc, hclose⟩ | hover := hwhy
      · obtain ⟨f, hf, rfl⟩ := List.mem_map.1 hc
        exact .inl ⟨f, List.mem_append_right _ hf, hclose⟩
      · exact .inr (of_decide_eq_true hover)
    · rw [hsame, ← List.map_append]
      exact At.live (done ++ done') left' k' hall hn' ⟨hnone, of_decide_eq_false hlarge⟩
  | ended s h hwhy =>
    have hsame : Client.receive join s bytes = s := by
      unfold Client.receive
      rw [h]
    rw [hsame]
    refine At.ended s h (hwhy.imp ?_ ?_)
    · rintro ⟨f, hf, hclose⟩
      exact ⟨f, (complete_mono (Nat.le_add_right n _)).subset hf, hclose⟩
    · rintro ⟨htail, hle⟩
      exact ⟨htail, by omega⟩

theorem At.reads (htail : tail = [] ∨ Over tail) (hj : j.content.1 = 1 ∧ join j.payload = some true)
    (reads : List Bytes) (h : At j rest tail n s)
    (hsent : (wire (j :: rest) tail).take n ++ reads.flatten <+: wire (j :: rest) tail)
    (hn : n ≤ (wire (j :: rest) tail).length) (halone : JoinAlone j.bytes.length rest tail n reads) :
    At j rest tail (n + reads.flatten.length) (reads.foldl (Client.receive join) s) := by
  induction reads generalizing n s with
  | nil => exact h
  | cons bytes reads ih =>
    rw [List.flatten_cons, ← List.append_assoc] at hsent
    have hbytes : (wire (j :: rest) tail).take n ++ bytes = (wire (j :: rest) tail).take (n + bytes.length) := by
      have htake := List.prefix_iff_eq_take.1 ((List.prefix_append _ _).trans hsent)
      rwa [List.length_append, List.length_take, Nat.min_eq_left hn] at htake
    have hle : n + bytes.length ≤ (wire (j :: rest) tail).length := by
      have hlen := ((List.prefix_append _ reads.flatten).trans hsent).length_le
      rwa [List.length_append, List.length_take, Nat.min_eq_left hn] at hlen
    have hnext := h.receive htail hj bytes hle hbytes halone.1
    rw [hbytes] at hsent
    have hrest := ih hnext hsent hle halone.2
    rwa [List.flatten_cons, List.length_append, ← Nat.add_assoc]

/-! ### Behind the request -/

private theorem splitBlank_first {a : List Char} (h : splitBlank (a ++ ['\r', '\n', '\r']) = none) (more : List Char) :
    splitBlank (a ++ '\r' :: '\n' :: '\r' :: '\n' :: more) = some (a, more) := by
  induction a with
  | nil => rfl
  | cons c a ih =>
    -- no empty line begins at this letter, in the one text or the other
    have hno : ∀ t, c = '\r' → a ++ ['\r', '\n', '\r'] ≠ '\n' :: '\r' :: '\n' :: t := by
      rintro t rfl heq
      rw [List.cons_append, heq] at h
      cases h
    have hno' : ∀ t, c = '\r' → a ++ '\r' :: '\n' :: '\r' :: '\n' :: more = '\n' :: '\r' :: '\n' :: t → False := by
      intro t hc heq
      obtain _ | ⟨x, _ | ⟨y, _ | ⟨z, a⟩⟩⟩ := a
      · cases heq
      · cases heq
        exact hno ['\r'] hc rfl
      · cases heq
      · cases heq
        exact hno _ hc rfl
    rw [List.cons_append, splitBlank.eq_2 _ _ fun t hc heq => hno t hc heq] at h
    rw [List.cons_append, splitBlank.eq_2 _ _ hno', ih (Option.map_eq_none_iff.1 h)]
    rfl

private theorem headEnd_request {request : Bytes} (hrequest : findHeaderEnd (request ++ [13, 10, 13]) = none)
    (hsame : (encode (lossy request)).length = request.length) (first : Bytes) :
    headEnd (request ++ 13 :: 10 :: 13 :: 10 :: first) = request.length + 4 := by
  have hnone : splitBlank (lossy (request ++ [13, 10, 13])) = none := by
    by_contra hsome
    have hfound := isSome_findHeaderEnd (Option.isSome_iff_ne_none.2 hsome)
    rw [hrequest] at hfound
    cases hfound
  rw [lossy_append_ascii (by decide), lossy_ascii_cons (by decide), lossy_ascii_cons (by decide)] at hnone
  have hsplit : splitBlank (lossy (request ++ 13 :: 10 :: 13 :: 10 :: first)) = some (lossy request, lossy first) := by
    rw [lossy_append_ascii (by decide), lossy_ascii_cons (by decide), lossy_ascii_cons (by decide),
      lossy_ascii_cons (by decide)]
    exact splitBlank_first hnone (lossy first)
  unfold headEnd
  rw [hsplit]
  show (encode (lossy request)).length + 4 = _
  rw [hsame]

private theorem size_lt {size : Nat} (h : size ≤ MAX_FRAME_PAYLOAD) (second : UInt8) :
    2 + extra second + maskLen second + size < 2 ^ 32 := by
  unfold MAX_FRAME_PAYLOAD at h
  unfold extra maskLen
  split_ifs <;> omega

/-- After any reads, a session that goes on has handled the frames that are complete, and no length over the limit is
there; one that ended was closed, or had such a length; and what a frame takes of the buffer is a number of any
machine. -/
theorem frames_run (join : Join) {request : Bytes} (hrequest : findHeaderEnd (request ++ [13, 10, 13]) = none)
    (hsame : (encode (lossy request)).length = request.length) {j : ClientFrame} {rest : List ClientFrame}
    {tail : Bytes} (htail : tail = [] ∨ Over tail) (hj : j.content.1 = 1 ∧ join j.payload = some true) (first : Bytes)
    (reads : List Bytes) (hsent : first ++ reads.flatten <+: wire (j :: rest) tail)
    (halone : JoinAlone j.bytes.length rest tail 0 (first :: reads)) :
    let s := reads.foldl (receive join) (start join (request ++ 13 :: 10 :: 13 :: 10 :: first))
    let n := first.length + reads.flatten.length
    (s.phase ≠ .ended → s.handled = (complete (j :: rest) n).map ClientFrame.content ∧ ¬ Overdue (j :: rest) tail n) ∧
      (s.phase = .ended → (∃ f ∈ complete (j :: rest) n, f.content.1 = 8) ∨ Overdue (j :: rest) tail n) ∧
      ∀ second size, size ≤ MAX_FRAME_PAYLOAD → 2 + extra second + maskLen second + size < 2 ^ 32 := by
  intro s n
  have hstart : start join (request ++ 13 :: 10 :: 13 :: 10 :: first) = receive join ⟨.joining, [], []⟩ first := by
    unfold start
    rw [headEnd_request hrequest hsame, List.drop_length_add_append]
    rfl
  have hat : At j rest tail (0 + (first :: reads).flatten.length)
      ((first :: reads).foldl (receive join) ⟨.joining, [], []⟩) :=
    At.reads htail hj (first :: reads) (At.joining (bytes_pos j)) hsent (Nat.zero_le _) halone
  rw [Nat.zero_add, List.flatten_cons, List.length_append, List.foldl_cons, ← hstart] at hat
  change At j rest tail n s at hat
  clear_value s n
  refine ⟨fun hlive => ?_, fun hended => ?_, fun second size hsize => size_lt hsize second⟩
  · cases hat with
    | joining hlt =>
      have hpart : ¬ j.bytes.length ≤ n := by omega
      refine ⟨by rw [complete, if_neg hpart]; rfl, fun hover => ?_⟩
      have hle := hover.2
      rw [List.flatMap_cons, List.length_append] at hle
      omega
    | live done left k hall hn hwaits =>
      rw [hall, hn, complete_append, overdue_append, hwaits.1, List.append_nil]
      exact ⟨rfl, hwaits.2⟩
    | ended s h hwhy => exact absurd h hlive
  · cases hat with
    | joining hlt => cases hended
    | live done left k hall hn hwaits => cases hended
    | ended s h hwhy => exact hwhy

namespace Letters

def text (payload : Bytes) (h : payload.length ≤ MAX_FRAME_PAYLOAD) : ClientFrame :=
  ⟨0x81, [1, 2, 3, 4], payload, rfl, h⟩

def admits : Join := fun payload => if payload = [7] then some true else none

def hello : ClientFrame := text [7] (by decide)

def letter : ClientFrame := text [9, 9] (by decide)

end Letters

open Letters in
theorem frames_run_letter :
    let s := [letter.bytes].foldl (receive admits) (start admits ([65] ++ 13 :: 10 :: 13 :: 10 :: hello.bytes))
    s.phase ≠ .ended → s.handled = [(1, [7]), (1, [9, 9])] := by
  intro s hlive
  have halone : JoinAlone hello.bytes.length [letter] [] 0 [hello.bytes, letter.bytes] :=
    ⟨fun _ _ => ⟨rfl, by decide⟩, fun h => absurd h (by decide), trivial⟩
  have hrun := frames_run admits (@rfl _ (findHeaderEnd ([65] ++ [13, 10, 13]))) (by decide) (.inl rfl)
    (by decide) hello.bytes [letter.bytes] (by decide) halone
  exact (hrun.1 hlive).1

open Letters in
/-- A frame that came in one read with the join waits for the next. -/
theorem left_behind : start admits ([65] ++ 13 :: 10 :: 13 :: 10 :: (hello.bytes ++ letter.bytes)) =
    ⟨.live, letter.bytes, [(1, [7])]⟩ := by
  decide

open Letters in
/-- A byte of the request that is no text is three in the text, two bytes of the join are skipped, and the rest is taken
for a frame that was not sent. -/
theorem shifted : start admits ([0xFF] ++ 13 :: 10 :: 13 :: 10 :: hello.bytes) = ⟨.joining, [6], [(1, [3, 4])]⟩ ∧
    complete [hello] hello.bytes.length = [hello] :=
  ⟨by decide, rfl⟩

end HidraNet.Hidrachat.Client
