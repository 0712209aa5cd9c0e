import HidraNet.Core.Pass
import HidraNet.Lib.Runs
import HidraNet.Lib.Wire

/-!
# Frames on a stream

A frame is its length, in four bytes, and its body.  A reader keeps what it has read, so that a call that is dropped
while it waits loses nothing: however the stream is cut into reads, and wherever calls are dropped, what the calls
return are the frames that were written, in order (`frames_survive`).
-/

open HidraNet.Core (Bytes)
open HidraNet.Runs HidraNet.Wire

namespace HidraNet.Network

def MAX_FRAME_SIZE : Nat := 65536

inductive FrameError where
  | protocol (why : String)
  | io (why : String)
deriving DecidableEq

def writeFrame (data : Bytes) : Except FrameError Bytes :=
  if data.length < 2 ^ 32 then .ok (beBytes 4 data.length ++ data)
  else .error (.protocol "frame exceeds u32 size limit")

/-- Several frames, one after the other. -/
def writeFrames : List Bytes → Except FrameError Bytes
  | [] => .ok []
  | data :: rest => do
    let frame ← writeFrame data
    let stream ← writeFrames rest
    return frame ++ stream

structure FrameReader where
  buf : Bytes
deriving DecidableEq

def tooLarge (len : Nat) : FrameError :=
  .protocol ("frame size " ++ toString len ++ " exceeds maximum " ++ toString MAX_FRAME_SIZE)

/-- A whole frame off the front of the buffer, if one is there. -/
def FrameReader.takeFrame (r : FrameReader) : Except FrameError (Option Bytes) × FrameReader :=
  if r.buf.length < 4 then (.ok none, r)
  else
    let len := ofBe (r.buf.take 4)
    if MAX_FRAME_SIZE < len then (.error (tooLarge len), r)
    else if r.buf.length < 4 + len then (.ok none, r)
    else (.ok (some ((r.buf.drop 4).take len)), ⟨r.buf.drop (4 + len)⟩)

def FrameReader.announced (r : FrameReader) : Option Nat :=
  if r.buf.length < 4 then none else some (ofBe (r.buf.take 4))

/-- A reader, the bytes on the stream that it has not read, whether a call waits for some of them, and what the calls
returned. -/
structure Reading where
  reader : FrameReader
  wire : Bytes
  waiting : Bool
  returned : List (Except FrameError Bytes)

inductive Event where
  /-- `read_frame` is called. -/
  | call
  /-- The call that waits is given bytes: one more than this, or what there is. -/
  | read (n : Nat)
  | drop
  /-- What the call waits for fails, or the stream has ended. -/
  | fail (why : String)

namespace Reading

def start (wire : Bytes) : Reading := ⟨⟨[]⟩, wire, false, []⟩

def turn (s : Reading) : Reading :=
  match s.reader.takeFrame with
  | (.ok (some frame), r) => { s with reader := r, waiting := false, returned := s.returned ++ [.ok frame] }
  | (.ok none, r) => { s with reader := r, waiting := true }
  | (.error e, r) => { s with reader := r, waiting := false, returned := s.returned ++ [.error e] }

def fill (s : Reading) (n : Nat) : Reading :=
  { s with reader := ⟨s.reader.buf ++ s.wire.take (n + 1)⟩, wire := s.wire.drop (n + 1) }

def step (s : Reading) : Event → Reading
  | .call => if s.waiting then s else s.turn
  | .read n => if s.waiting && !s.wire.isEmpty then (s.fill n).turn else s
  | .drop => { s with waiting := false }
  | .fail why => if s.waiting then { s with waiting := false, returned := s.returned ++ [.error (.io why)] } else s

def frames (s : Reading) : List Bytes := s.returned.filterMap Except.toOption

end Reading

def rounds (ns : List Nat) : List Event := ns.flatMap fun n => [.call, .read n]

/-! ### One frame -/

def frameBytes (data : Bytes) : Bytes := beBytes 4 data.length ++ data

def stream (fs : List Bytes) : Bytes := (fs.map frameBytes).flatten

variable {fs : List Bytes} {s : Reading} {f buf wire rest : Bytes}

theorem writeFrames_ok (h : ∀ f ∈ fs, f.length ≤ MAX_FRAME_SIZE) : writeFrames fs = .ok (stream fs) := by
  induction fs with
  | nil => rfl
  | cons f fs ih =>
    have hf : f.length < 2 ^ 32 := by
      have := h f (List.mem_cons_self ..)
      unfold MAX_FRAME_SIZE at this
      omega
    unfold writeFrames writeFrame
    rw [if_pos hf, ih fun g hg => h g (List.mem_cons_of_mem _ hg)]
    rfl

theorem length_frameBytes (f : Bytes) : (frameBytes f).length = 4 + f.length := by
  simp [frameBytes]

/-- Either the frame has not come whole, and nothing is taken, or it is taken and the rest stays. -/
theorem takeFrame_cases (h : buf ++ wire = frameBytes f ++ rest) (hf : f.length ≤ MAX_FRAME_SIZE) :
    (buf.length < 4 + f.length ∧ FrameReader.takeFrame ⟨buf⟩ = (.ok none, ⟨buf⟩)) ∨
    ∃ buf', buf' ++ wire = rest ∧ FrameReader.takeFrame ⟨buf⟩ = (.ok (some f), ⟨buf'⟩) := by
  have hlen : ofBe (beBytes 4 f.length) = f.length := by
    apply ofBe_beBytes
    unfold MAX_FRAME_SIZE at hf
    omega
  have hannounced : 4 ≤ buf.length → buf.take 4 = beBytes 4 f.length := by
    intro hfour
    have htake := congrArg (List.take 4) h
    rw [List.take_append_of_le_length hfour] at htake
    rw [htake, frameBytes, List.append_assoc, List.take_left' (length_beBytes 4 _)]
  unfold FrameReader.takeFrame
  dsimp only
  by_cases hfour : buf.length < 4
  · exact .inl ⟨by omega, by rw [if_pos hfour]⟩
  · rw [if_neg hfour, hannounced (by omega), hlen, if_neg (by omega)]
    by_cases hwhole : buf.length < 4 + f.length
    · exact .inl ⟨hwhole, by rw [if_pos hwhole]⟩
    · right
      rw [if_neg hwhole]
      have hpre : frameBytes f <+: buf := by
        have hleft : frameBytes f <+: buf ++ wire := ⟨rest, h.symm⟩
        exact List.prefix_of_prefix_length_le hleft (List.prefix_append ..) (by rw [length_frameBytes]; omega)
      obtain ⟨buf', rfl⟩ := hpre
      refine ⟨buf', ?_, ?_⟩
      · rw [List.append_assoc] at h
        exact List.append_cancel_left h
      · have hdrop : (frameBytes f ++ buf').drop (4 + f.length) = buf' := by
          rw [← length_frameBytes, List.drop_left]
        have hbody : ((frameBytes f ++ buf').drop 4).take f.length = f := by
          rw [frameBytes, List.append_assoc, List.drop_left' (length_beBytes 4 _), List.take_left]
        rw [hdrop, hbody]

/-! ### A call that waits -/

theorem takeFrame_none {r r' : FrameReader} (h : r.takeFrame = (.ok none, r')) : r' = r := by
  unfold FrameReader.takeFrame at h
  by_cases hfour : r.buf.length < 4
  · rw [if_pos hfour] at h
    exact (Prod.mk.inj h).2.symm
  · rw [if_neg hfour] at h
    dsimp only at h
    by_cases hlarge : MAX_FRAME_SIZE < ofBe (r.buf.take 4)
    · rw [if_pos hlarge] at h
      cases h
    · rw [if_neg hlarge] at h
      by_cases hwhole : r.buf.length < 4 + ofBe (r.buf.take 4)
      · rw [if_pos hwhole] at h
        exact (Prod.mk.inj h).2.symm
      · rw [if_neg hwhole] at h
        cases h

def Waits (s : Reading) : Prop := s.waiting = true → s.reader.takeFrame = (.ok none, s.reader)

theorem waits_turn (s : Reading) : Waits s.turn := by
  unfold Reading.turn
  rcases htake : s.reader.takeFrame with ⟨e | _ | frame, r⟩
  · intro hwaits
    cases hwaits
  · intro _
    have hsame := takeFrame_none htake
    rw [hsame] at htake
    show r.takeFrame = (.ok none, r)
    rw [hsame]
    exact htake
  · intro hwaits
    cases hwaits

theorem waits_step (h : Waits s) (e : Event) : Waits (s.step e) := by
  cases e with
  | call =>
    unfold Reading.step
    dsimp only
    split
    · exact h
    · exact waits_turn s
  | read n =>
    unfold Reading.step
    dsimp only
    split
    · exact waits_turn (s.fill n)
    · exact h
  | drop =>
    intro hwaits
    cases hwaits
  | fail why =>
    unfold Reading.step
    dsimp only
    split
    · intro hwaits
      cases hwaits
    · exact h

theorem Waits.small (h : Waits s) (hwaits : s.waiting = true) {len : Nat} (hlen : s.reader.announced = some len) :
    len ≤ MAX_FRAME_SIZE := by
  have htake := h hwaits
  unfold FrameReader.announced at hlen
  unfold FrameReader.takeFrame at htake
  by_cases hfour : s.reader.buf.length < 4
  · rw [if_pos hfour] at hlen
    cases hlen
  · rw [if_neg hfour] at hlen htake
    rw [Option.some.inj hlen] at htake
    dsimp only at htake
    by_contra hlarge
    rw [if_pos (by omega)] at htake
    cases htake

theorem call_tooLarge (hready : s.waiting = false) {len : Nat} (hlen : s.reader.announced = some len)
    (hlarge : MAX_FRAME_SIZE < len) :
    s.step .call = { s with returned := s.returned ++ [.error (tooLarge len)] } := by
  have htake : s.reader.takeFrame = (.error (tooLarge len), s.reader) := by
    unfold FrameReader.announced at hlen
    unfold FrameReader.takeFrame
    by_cases hfour : s.reader.buf.length < 4
    · rw [if_pos hfour] at hlen
      cases hlen
    · rw [if_neg hfour] at hlen ⊢
      rw [Option.some.inj hlen]
      dsimp only
      rw [if_pos hlarge]
  unfold Reading.step Reading.turn
  rw [hready, htake]
  rfl

/-! ### What is left to return -/

/-- The frames that were returned come first, and the buffer begins what is left of the stream. -/
structure Left (fs : List Bytes) (s : Reading) : Prop where
  small : ∀ f ∈ fs, f.length ≤ MAX_FRAME_SIZE
  split : ∃ todo, s.frames ++ todo = fs ∧ s.reader.buf ++ s.wire = stream todo
  waits : Waits s

theorem left_start (h : ∀ f ∈ fs, f.length ≤ MAX_FRAME_SIZE) : Left fs (Reading.start (stream fs)) :=
  ⟨h, ⟨fs, rfl, rfl⟩, fun hwaits => by cases hwaits⟩

theorem turn_cases (hsmall : ∀ f ∈ fs, f.length ≤ MAX_FRAME_SIZE)
    (h : ∃ todo, s.frames ++ todo = fs ∧ s.reader.buf ++ s.wire = stream todo) :
    Left fs s.turn ∧ s.turn.wire = s.wire ∧
      ((s.turn.waiting = true ∧ s.turn.frames = s.frames) ∨
        (s.turn.waiting = false ∧ s.turn.frames.length = s.frames.length + 1)) := by
  obtain ⟨todo, hsplit, hbytes⟩ := h
  have hwait : s.reader.takeFrame = (.ok none, s.reader) → s.turn = { s with waiting := true } := by
    intro htake
    unfold Reading.turn
    rw [htake]
  cases todo with
  | nil =>
    have hempty : s.reader.buf = [] := (List.append_eq_nil_iff.1 hbytes).1
    have htake : s.reader.takeFrame = (.ok none, s.reader) := by
      unfold FrameReader.takeFrame
      rw [hempty, if_pos (by decide)]
    have hwaits := waits_turn s
    rw [hwait htake] at hwaits ⊢
    exact ⟨⟨hsmall, ⟨[], hsplit, hbytes⟩, hwaits⟩, rfl, .inl ⟨rfl, rfl⟩⟩
  | cons f todo =>
    have hf : f.length ≤ MAX_FRAME_SIZE := by
      apply hsmall
      rw [← hsplit]
      exact List.mem_append_right _ (List.mem_cons_self ..)
    rcases takeFrame_cases hbytes hf with ⟨-, htake⟩ | ⟨buf', hbuf, htake⟩
    · have hwaits := waits_turn s
      rw [hwait htake] at hwaits ⊢
      exact ⟨⟨hsmall, ⟨f :: todo, hsplit, hbytes⟩, hwaits⟩, rfl, .inl ⟨rfl, rfl⟩⟩
    · have hturn : s.turn = ⟨⟨buf'⟩, s.wire, false, s.returned ++ [.ok f]⟩ := by
        unfold Reading.turn
        rw [htake]
      have hframes : s.turn.frames = s.frames ++ [f] := by
        rw [hturn]
        exact List.filterMap_append
      rw [hframes, hturn]
      refine ⟨⟨hsmall, ⟨todo, ?_, hbuf⟩, fun hwaits => by cases hwaits⟩, rfl, .inr ⟨rfl, List.length_append⟩⟩
      rw [hturn] at hframes
      rw [hframes, List.append_assoc]
      exact hsplit

theorem fill_split (h : Left fs s) (n : Nat) :
    ∃ todo, (s.fill n).frames ++ todo = fs ∧ (s.fill n).reader.buf ++ (s.fill n).wire = stream todo := by
  obtain ⟨todo, hsplit, hbytes⟩ := h.split
  refine ⟨todo, hsplit, ?_⟩
  show (s.reader.buf ++ s.wire.take (n + 1)) ++ s.wire.drop (n + 1) = _
  rw [List.append_assoc, List.take_append_drop]
  exact hbytes

theorem left_step (h : Left fs s) (e : Event) : Left fs (s.step e) := by
  cases e with
  | call =>
    unfold Reading.step
    by_cases hwaiting : s.waiting = true
    · rw [if_pos hwaiting]
      exact h
    · rw [if_neg hwaiting]
      exact (turn_cases h.small h.split).1
  | read n =>
    unfold Reading.step
    dsimp only
    by_cases hready : (s.waiting && !s.wire.isEmpty) = true
    · rw [if_pos hready]
      exact (turn_cases h.small (fill_split h n)).1
    · rw [if_neg hready]
      exact h
  | drop => exact ⟨h.small, h.split, waits_step h.waits .drop⟩
  | fail why =>
    have hwaits := waits_step h.waits (.fail why)
    unfold Reading.step at hwaits ⊢
    dsimp only at hwaits ⊢
    by_cases hwaiting : s.waiting = true
    · have hframes : Reading.frames { s with waiting := false, returned := s.returned ++ [.error (.io why)] } =
          s.frames := by
        unfold Reading.frames
        rw [List.filterMap_append]
        exact List.append_nil _
      rw [if_pos hwaiting] at hwaits ⊢
      obtain ⟨todo, hsplit, hbytes⟩ := h.split
      exact ⟨h.small, ⟨todo, by rw [hframes]; exact hsplit, hbytes⟩, hwaits⟩
    · rw [if_neg hwaiting]
      exact h

/-! ### What is returned in the end -/

def Reading.todo (s : Reading) (fs : List Bytes) : Nat := s.wire.length + (fs.length - s.frames.length)

theorem Left.front (h : Left fs s) : s.frames <+: fs := by
  obtain ⟨todo, hsplit, -⟩ := h.split
  exact ⟨todo, hsplit⟩

theorem Left.done (h : Left fs s) (hwaits : s.waiting = true) (hwire : s.wire = []) : s.frames = fs := by
  obtain ⟨todo, hsplit, hbytes⟩ := h.split
  cases todo with
  | nil => rw [← hsplit, List.append_nil]
  | cons f todo =>
    rw [hwire, List.append_nil] at hbytes
    have hf : f.length ≤ MAX_FRAME_SIZE := by
      apply h.small
      rw [← hsplit]
      exact List.mem_append_right _ (List.mem_cons_self ..)
    have hall : s.reader.buf ++ [] = frameBytes f ++ stream todo := by
      rw [List.append_nil]
      exact hbytes
    rcases takeFrame_cases hall hf with ⟨hshort, -⟩ | ⟨buf', -, htake⟩
    · have hlen := congrArg List.length hbytes
      unfold stream at hlen
      rw [List.map_cons, List.flatten_cons, List.length_append, length_frameBytes] at hlen
      omega
    · have hnone := h.waits hwaits
      rw [show s.reader = ⟨s.reader.buf⟩ from rfl, htake] at hnone
      cases hnone

theorem todo_round (h : Left fs s) (n : Nat) :
    ((s.step .call).step (.read n)).todo fs ≤ s.todo fs - 1 := by
  have hcall := left_step h .call
  have hread := left_step hcall (.read n)
  -- after the call: a frame has come, or the call waits
  have hafter : (s.step .call).wire = s.wire ∧
      (((s.step .call).waiting = true ∧ (s.step .call).frames = s.frames) ∨
        (s.step .call).waiting = false ∧ (s.step .call).frames.length = s.frames.length + 1) := by
    unfold Reading.step
    by_cases hwaiting : s.waiting = true
    · rw [if_pos hwaiting]
      exact ⟨rfl, .inl ⟨hwaiting, rfl⟩⟩
    · rw [if_neg hwaiting]
      exact (turn_cases h.small h.split).2
  obtain ⟨hwire, ⟨hwaits, hframes⟩ | ⟨hready, hframes⟩⟩ := hafter
  · by_cases hnone : (s.step .call).wire = []
    · have hsame : (s.step .call).step (.read n) = s.step .call := by
        show (if ((s.step .call).waiting && !(s.step .call).wire.isEmpty) = true then _ else s.step .call) = _
        rw [if_neg (by simp [hnone])]
      have hdone := hcall.done hwaits hnone
      rw [hsame]
      unfold Reading.todo
      rw [hdone, hnone]
      simp
    · have hturn : (s.step .call).step (.read n) = ((s.step .call).fill n).turn := by
        show (if ((s.step .call).waiting && !(s.step .call).wire.isEmpty) = true then _ else s.step .call) = _
        rw [if_pos (by simp [hwaits, hnone])]
      obtain ⟨-, hwire', hmore⟩ := turn_cases hcall.small (fill_split hcall n)
      have hshorter : ((s.step .call).fill n).wire.length = s.wire.length - (n + 1) := by
        rw [← hwire]
        exact List.length_drop
      have hpos : 0 < s.wire.length := by
        rw [← hwire]
        exact List.length_pos_iff.2 hnone
      have hgrow : s.frames.length ≤ ((s.step .call).fill n).turn.frames.length := by
        have hfill : ((s.step .call).fill n).frames = s.frames := hframes
        rw [hfill] at hmore
        rcases hmore with ⟨-, hsame⟩ | ⟨-, hone⟩
        · rw [hsame]
        · omega
      rw [hturn]
      unfold Reading.todo
      rw [hwire', hshorter]
      omega
  · have hsame : (s.step .call).step (.read n) = s.step .call := by
      show (if ((s.step .call).waiting && !(s.step .call).wire.isEmpty) = true then _ else s.step .call) = _
      rw [if_neg (by simp [hready])]
    have hbound := hcall.front.length_le
    rw [hsame]
    unfold Reading.todo
    rw [hwire, hframes]
    omega

theorem frames_of_rounds (h : Left fs s) (ns : List Nat) (hns : s.todo fs ≤ ns.length) :
    (run Reading.step s (rounds ns)).frames = fs := by
  induction ns generalizing s with
  | nil =>
    apply h.front.eq_of_length
    have hbound := h.front.length_le
    unfold Reading.todo at hns
    simp only [List.length_nil] at hns
    show s.frames.length = _
    omega
  | cons n ns ih =>
    have hround := todo_round h n
    rw [List.length_cons] at hns
    exact ih (left_step (left_step h .call) (.read n)) (by omega)

/-- However the stream is cut into reads, and wherever calls are dropped or fail, the frames that the calls return are
the first of those that were written, and all of them once everything has arrived and was asked for.  A call waits for
more only while what is announced is small enough; what is too large is an error at once. -/
theorem frames_survive :
    (∀ fs : List Bytes, (∀ f ∈ fs, f.length ≤ MAX_FRAME_SIZE) → ∃ wire, writeFrames fs = .ok wire ∧
      ∀ events : List Event,
        (run Reading.step (Reading.start wire) events).frames <+: fs ∧
        ((run Reading.step (Reading.start wire) events).waiting = true →
          (run Reading.step (Reading.start wire) events).wire = [] →
          (run Reading.step (Reading.start wire) events).frames = fs) ∧
        ∀ ns : List Nat, (run Reading.step (Reading.start wire) events).todo fs ≤ ns.length →
          (run Reading.step (Reading.start wire) (events ++ rounds ns)).frames = fs) ∧
    ∀ (wire : Bytes) (events : List Event) (len : Nat),
      (run Reading.step (Reading.start wire) events).reader.announced = some len → MAX_FRAME_SIZE < len →
        (run Reading.step (Reading.start wire) events).waiting = false ∧
        run Reading.step (Reading.start wire) (events ++ [.call]) =
          { run Reading.step (Reading.start wire) events with
            returned := (run Reading.step (Reading.start wire) events).returned ++ [.error (tooLarge len)] } := by
  constructor
  · intro fs hsmall
    refine ⟨stream fs, writeFrames_ok hsmall, ?_⟩
    intro events
    have hleft : Left fs (run Reading.step (Reading.start (stream fs)) events) :=
      run_always (P := Left fs) (fun s e hs => left_step hs e) (left_start hsmall) events
    refine ⟨hleft.front, hleft.done, ?_⟩
    intro ns hns
    rw [run_append]
    exact frames_of_rounds hleft ns hns
  · intro wire events len hlen hlarge
    have hwaits : Waits (run Reading.step (Reading.start wire) events) :=
      run_always (P := Waits) (fun s e hs => waits_step hs e) (fun h => by cases h) events
    have hready : (run Reading.step (Reading.start wire) events).waiting = false := by
      rw [← Bool.not_eq_true]
      intro hwaiting
      have hsmall := hwaits.small hwaiting hlen
      omega
    refine ⟨hready, ?_⟩
    rw [run_append]
    exact call_tooLarge hready hlen hlarge

/-- A call that is dropped in the middle of a frame, and one after it. -/
theorem frames_survive_drop : ∃ wire, writeFrames [[1, 2, 3], []] = .ok wire ∧
    (run Reading.step (Reading.start wire) ([.call, .read 5, .drop] ++ rounds [0, 9, 0, 0, 0, 0, 0])).frames =
      [[1, 2, 3], []] := by
  obtain ⟨wire, hwire, hall⟩ := frames_survive.1 [[1, 2, 3], []] (by decide)
  refine ⟨wire, hwire, (hall _).2.2 _ ?_⟩
  cases hwire
  decide

end HidraNet.Network
