import HidraNet.Lib.Runs
import HidraNet.Lib.Utf8
import HidraNet.Lib.Wire

/-!
# MQTT packets

A packet is parsed from the front of a buffer once it is there whole.  Nothing that is said of a buffer changes with
what follows it (`parse_append`), so that the packets of a stream do not depend on how it arrives, as long as no frame
takes the buffer over the connection's limit; and what is published is parsed as it was published, if its length can be
written (`parse_publish`).
-/

open HidraNet.Runs HidraNet.Utf8 HidraNet.Wire

namespace HidraNet.Hidrarelay.Mqtt

abbrev Bytes := List UInt8

inductive Packet where
  | connect (level : UInt8) (keepalive : Nat) (clientId : List Char) (hasWill : Bool)
  | publish (topic : List Char) (qos : Nat) (retain : Bool) (packetId : Option Nat) (payload : Bytes)
  | subscribe (packetId : Nat) (filters : List (List Char × Nat))
  | unsubscribe (packetId : Nat) (filters : List (List Char))
  | pingReq
  | disconnect
  | unsupported (kind : Nat)
deriving DecidableEq

/-- Why no packet is taken. -/
inductive Stop where
  | incomplete
  | tooLarge
  | malformed
  /-- An index out of range, a number too large for the machine, or a loop that does not end. -/
  | crash
deriving DecidableEq

structure Ready where
  packet : Packet
  consumed : Nat
deriving DecidableEq

abbrev Parsed := Except Stop Ready

def checked (n : Nat) : Except Stop Nat := if n < 2 ^ 32 then .ok n else .error .crash

def orMalformed {α : Type} : Option α → Except Stop α
  | some a => .ok a
  | none => .error .malformed

def get (b : Bytes) (i j : Nat) : Option Bytes := if i ≤ j ∧ j ≤ b.length then some ((b.drop i).take (j - i)) else none

def slice (b : Bytes) (i j : Nat) : Except Stop Bytes :=
  match get b i j with
  | some s => .ok s
  | none => .error .crash

def readU16 (b : Bytes) (pos : Nat) : Option Nat := do
  let x ← b[pos]?
  let y ← b[pos + 1]?
  return ofBe [x, y]

def readStr (b : Bytes) (pos : Nat) : Option (List Char × Nat) := do
  let len ← readU16 b pos
  let s ← get b (pos + 2) (pos + 2 + len)
  let text ← fromUtf8 s
  if '\x00' ∈ text then none else some (text, pos + 2 + len)

/-- The remaining length, up to four bytes, seven bits each, and where it ends; `rest` is the buffer from `i` on. -/
def remaining (i mult sum : Nat) : (rest : Bytes) → Except Stop (Nat × Nat)
  | [] => .error .incomplete
  | b :: rest => do
    let part ← checked (b.toNat % 128 * mult)
    let sum ← checked (sum + part)
    if b.toNat < 128 then .ok (sum, i + 1)
    else if i + 1 > 4 then .error .malformed
    else do
      let mult ← checked (mult * 128)
      remaining (i + 1) mult sum rest

/-- The filters of a subscription, each with what follows it. -/
def filtersFrom {α : Type} (one : Bytes → Nat → Except Stop (α × Nat)) (b : Bytes) : Nat → Nat → Except Stop (List α)
  | 0, _ => .error .crash
  | fuel + 1, pos =>
    if pos < b.length then do
      let (f, next) ← one b pos
      let fs ← filtersFrom one b fuel next
      return f :: fs
    else .ok []

def filterWithQos (b : Bytes) (pos : Nat) : Except Stop ((List Char × Nat) × Nat) := do
  let (f, next) ← orMalformed (readStr b pos)
  let q ← orMalformed b[next]?
  return ((f, q.toNat % 4), next + 1)

def filterAlone (b : Bytes) (pos : Nat) : Except Stop (List Char × Nat) := orMalformed (readStr b pos)

def parseConnect (body : Bytes) : Except Stop Packet := do
  let (name, pos) ← orMalformed (readStr body 0)
  if name ≠ "MQTT".toList ∧ name ≠ "MQIsdp".toList then .error .malformed
  else do
    let level ← orMalformed body[pos]?
    let cflags ← orMalformed body[pos + 1]?
    let keepalive ← orMalformed (readU16 body (pos + 2))
    let (clientId, _) ← orMalformed (readStr body (pos + 4))
    return .connect level keepalive clientId (cflags.toNat / 4 % 2 = 1)

def parsePublish (flags : Nat) (body : Bytes) : Except Stop Packet :=
  let qos := flags / 2 % 4
  if qos = 3 then .error .malformed
  else do
    let retain := flags % 2 = 1
    let (topic, pos) ← orMalformed (readStr body 0)
    if qos > 0 then do
      let id ← orMalformed (readU16 body pos)
      let payload ← slice body (pos + 2) body.length
      return .publish topic qos retain (some id) payload
    else do
      let payload ← slice body pos body.length
      return .publish topic qos retain none payload

def parseSubscribe (flags : Nat) (body : Bytes) : Except Stop Packet :=
  if flags ≠ 2 then .error .malformed
  else do
    let packetId ← orMalformed (readU16 body 0)
    let filters ← filtersFrom filterWithQos body (body.length + 1) 2
    if filters = [] then .error .malformed else return .subscribe packetId filters

def parseUnsubscribe (flags : Nat) (body : Bytes) : Except Stop Packet :=
  if flags ≠ 2 then .error .malformed
  else do
    let packetId ← orMalformed (readU16 body 0)
    let filters ← filtersFrom filterAlone body (body.length + 1) 2
    return .unsubscribe packetId filters

def parseBody (kind flags : Nat) (body : Bytes) : Except Stop Packet :=
  match kind with
  | 1 => parseConnect body
  | 3 => parsePublish flags body
  | 8 => parseSubscribe flags body
  | 10 => parseUnsubscribe flags body
  | 12 => .ok .pingReq
  | 14 => .ok .disconnect
  | other => .ok (.unsupported other)

/-- One packet from the front of the buffer, if a whole one is there. -/
def parse (buf : Bytes) (maxPacket : Nat) : Parsed :=
  match buf with
  | first :: second :: rest => do
    let (remaining, i) ← remaining 1 1 0 (second :: rest)
    if remaining > maxPacket then .error .tooLarge
    else do
      let total ← checked (i + remaining)
      if buf.length < total then .error .incomplete
      else do
        let body ← slice buf i total
        let packet ← parseBody (first.toNat / 16) (first.toNat % 16) body
        return ⟨packet, total⟩
  | _ => .error .incomplete

def encodeLen (n : Nat) : Bytes :=
  if n / 128 > 0 then UInt8.ofNat (n % 128 + 128) :: encodeLen (n / 128) else [UInt8.ofNat (n % 128)]
termination_by n

def packet (first : UInt8) (body : Bytes) : Bytes := first :: encodeLen body.length ++ body

def publish (topic : List Char) (payload : Bytes) (retain : Bool) : Bytes :=
  packet (if retain then 0x31 else 0x30) (beBytes 2 (encode topic).length ++ encode topic ++ payload)

/-! ### A connection -/

def MAX_PACKET : Nat := 640 * 1024 + 256 + 16
def PRE_CONNECT_BYTES : Nat := 4096

/-- What was taken from a connection, what is left of what arrived, and why it was closed. -/
structure Framing where
  taken : List Packet
  buf : Bytes
  closed : Option Stop
deriving DecidableEq

/-- The packets at the front of the buffer, one after the other. -/
def takePackets (maxPacket : Nat) : Nat → List Packet → Bytes → Framing
  | 0, taken, buf => ⟨taken, buf, some .crash⟩
  | fuel + 1, taken, buf =>
    match parse buf maxPacket with
    | .ok r => takePackets maxPacket fuel (taken ++ [r.packet]) (buf.drop r.consumed)
    | .error .incomplete => ⟨taken, buf, none⟩
    | .error why => ⟨taken, buf, some why⟩

namespace Framing

def start : Framing := ⟨[], [], none⟩

def limit (s : Framing) : Nat := if s.taken = [] then PRE_CONNECT_BYTES else MAX_PACKET + 16

/-- A frame arrives. -/
def receive (s : Framing) (frame : Bytes) : Framing :=
  if s.closed.isSome then s
  else
    let buf := s.buf ++ frame
    if buf.length > s.limit then { s with buf, closed := some .tooLarge }
    else takePackets MAX_PACKET (buf.length + 1) s.taken buf

def Within (s : Framing) (frame : Bytes) : Prop := s.closed = none → (s.buf ++ frame).length ≤ s.limit

end Framing

/-! ### What is in range -/

section

variable {b c rest body : Bytes} {i j n pos next mult sum fuel : Nat} {text : List Char} {α β : Type}

theorem bind_ne_crash {x : Except Stop α} {f : α → Except Stop β} (hx : x ≠ .error .crash)
    (hf : ∀ a, x = .ok a → f a ≠ .error .crash) : (x >>= f) ≠ .error .crash := by
  cases x with
  | error e =>
    intro h
    apply hx
    cases h
    rfl
  | ok a => exact hf a rfl

theorem orMalformed_bind_ne_crash {o : Option α} {f : α → Except Stop β} (h : ∀ a, o = some a → f a ≠ .error .crash) :
    (orMalformed o >>= f) ≠ .error .crash := by
  cases o with
  | none =>
    intro hcrash
    cases hcrash
  | some a => exact h a rfl

theorem slice_ok (hij : i ≤ j) (hj : j ≤ b.length) : slice b i j = .ok ((b.drop i).take (j - i)) := by
  unfold slice get
  rw [if_pos ⟨hij, hj⟩]

theorem readStr_next (h : readStr b pos = some (text, next)) : pos + 2 ≤ next ∧ next ≤ b.length := by
  unfold readStr at h
  obtain ⟨len, -, h⟩ := Option.bind_eq_some_iff.1 h
  obtain ⟨s, hget, h⟩ := Option.bind_eq_some_iff.1 h
  obtain ⟨text', -, h⟩ := Option.bind_eq_some_iff.1 h
  unfold get at hget
  split at hget
  · rename_i hrange
    split at h
    · cases h
    · cases h
      omega
  · cases hget

theorem readU16_range (h : readU16 b pos = some n) : pos + 2 ≤ b.length := by
  unfold readU16 at h
  obtain ⟨x, -, h⟩ := Option.bind_eq_some_iff.1 h
  obtain ⟨y, hy, -⟩ := Option.bind_eq_some_iff.1 h
  obtain ⟨hlt, -⟩ := List.getElem?_eq_some_iff.1 hy
  omega

theorem filtersFrom_ne_crash {one : Bytes → Nat → Except Stop (α × Nat)}
    (hone : ∀ pos, one b pos ≠ .error .crash ∧ ∀ f next, one b pos = .ok (f, next) → pos < next)
    (hfuel : b.length < fuel + pos) (hpos : 0 < fuel) : filtersFrom one b fuel pos ≠ .error .crash := by
  induction fuel generalizing pos with
  | zero => omega
  | succ fuel ih =>
    unfold filtersFrom
    by_cases hmore : pos < b.length
    · rw [if_pos hmore]
      apply bind_ne_crash (hone pos).1
      rintro ⟨f, next⟩ hres
      have hnext := (hone pos).2 f next hres
      apply bind_ne_crash (ih (by omega) (by omega))
      intro fs _ h
      cases h
    · rw [if_neg hmore]
      intro h
      cases h

theorem filterAlone_advances (b : Bytes) (pos : Nat) :
    filterAlone b pos ≠ .error .crash ∧ ∀ f next, filterAlone b pos = .ok (f, next) → pos < next := by
  unfold filterAlone
  cases hstr : readStr b pos with
  | none => simp [orMalformed]
  | some r =>
    refine ⟨by simp [orMalformed], ?_⟩
    intro f next h
    cases h
    have := readStr_next hstr
    omega

theorem filterWithQos_advances (b : Bytes) (pos : Nat) :
    filterWithQos b pos ≠ .error .crash ∧ ∀ f next, filterWithQos b pos = .ok (f, next) → pos < next := by
  unfold filterWithQos
  cases hstr : readStr b pos with
  | none => simp [orMalformed, bind, Except.bind]
  | some r =>
    obtain ⟨text, end'⟩ := r
    have hrange := readStr_next hstr
    cases hq : b[end']? with
    | none => simp [orMalformed, bind, Except.bind, hq]
    | some q =>
      refine ⟨by simp [orMalformed, bind, Except.bind, hq, pure, Except.pure], ?_⟩
      intro f next h
      simp only [orMalformed, bind, Except.bind, hq, pure, Except.pure, Except.ok.injEq, Prod.mk.injEq] at h
      omega

theorem parseConnect_ne_crash : parseConnect body ≠ .error .crash := by
  unfold parseConnect
  apply orMalformed_bind_ne_crash
  rintro ⟨name, pos⟩ -
  dsimp only
  split
  · intro h
    cases h
  apply orMalformed_bind_ne_crash
  intro level _
  apply orMalformed_bind_ne_crash
  intro cflags _
  apply orMalformed_bind_ne_crash
  intro keepalive _
  apply orMalformed_bind_ne_crash
  rintro ⟨clientId, end'⟩ - h
  cases h

theorem parsePublish_ne_crash (flags : Nat) : parsePublish flags body ≠ .error .crash := by
  unfold parsePublish
  dsimp only
  split
  · intro h
    cases h
  apply orMalformed_bind_ne_crash
  rintro ⟨topic, pos⟩ htopic
  have hrange := readStr_next htopic
  dsimp only
  split
  · apply orMalformed_bind_ne_crash
    intro id hid
    have hmore := readU16_range hid
    rw [slice_ok hmore (le_refl _)]
    intro h
    cases h
  · rw [slice_ok hrange.2 (le_refl _)]
    intro h
    cases h

theorem parseSubscribe_ne_crash (flags : Nat) : parseSubscribe flags body ≠ .error .crash := by
  unfold parseSubscribe
  split
  · intro h
    cases h
  apply orMalformed_bind_ne_crash
  intro id _
  apply bind_ne_crash (filtersFrom_ne_crash (filterWithQos_advances body) (by omega) (by omega))
  intro filters _
  split
  · intro h
    cases h
  · intro h
    cases h

theorem parseUnsubscribe_ne_crash (flags : Nat) : parseUnsubscribe flags body ≠ .error .crash := by
  unfold parseUnsubscribe
  split
  · intro h
    cases h
  apply orMalformed_bind_ne_crash
  intro id _
  apply bind_ne_crash (filtersFrom_ne_crash (filterAlone_advances body) (by omega) (by omega))
  intro filters _ h
  cases h

theorem parseBody_ne_crash (kind flags : Nat) : parseBody kind flags body ≠ .error .crash := by
  unfold parseBody
  split
  · exact parseConnect_ne_crash
  · exact parsePublish_ne_crash flags
  · exact parseSubscribe_ne_crash flags
  · exact parseUnsubscribe_ne_crash flags
  · exact fun h => by cases h
  · exact fun h => by cases h
  · exact fun h => by cases h

/-! ### The remaining length -/

theorem checked_ok (h : n < 2 ^ 32) : checked n = .ok n := if_pos h

theorem remaining_cons (hi : 1 ≤ i) (hi' : i ≤ 4) (hmult : mult = 128 ^ (i - 1)) (hsum : sum < mult) (b : UInt8)
    (rest : Bytes) : remaining i mult sum (b :: rest) =
      if b.toNat < 128 then .ok (sum + b.toNat % 128 * mult, i + 1)
      else if i + 1 > 4 then .error .malformed
      else remaining (i + 1) (mult * 128) (sum + b.toNat % 128 * mult) rest := by
  have hpow : mult ≤ 128 ^ 3 := by
    rw [hmult]
    exact Nat.pow_le_pow_right (by omega) (by omega)
  have hbyte : b.toNat % 128 * mult ≤ 127 * mult := Nat.mul_le_mul_right _ (by omega)
  rw [remaining, checked_ok (by omega)]
  show (checked (sum + b.toNat % 128 * mult) >>= _) = _
  rw [checked_ok (by omega)]
  dsimp only [bind, Except.bind]
  rw [checked_ok (by omega)]

theorem mult_succ (hi : 1 ≤ i) (hmult : mult = 128 ^ (i - 1)) : mult * 128 = 128 ^ (i + 1 - 1) := by
  rw [hmult, ← pow_succ]
  congr 1
  omega

theorem sum_lt (hsum : sum < mult) (n : Nat) : sum + n % 128 * mult < mult * 128 := by
  have hbyte : n % 128 * mult ≤ 127 * mult := Nat.mul_le_mul_right _ (by omega)
  omega

theorem remaining_cases (hi : 1 ≤ i) (hi' : i ≤ 4) (hmult : mult = 128 ^ (i - 1)) (hsum : sum < mult) (rest : Bytes) :
    remaining i mult sum rest ≠ .error .crash ∧
      ∀ n j, remaining i mult sum rest = .ok (n, j) → n < 128 ^ 4 ∧ i < j ∧ j ≤ 5 := by
  induction rest generalizing i mult sum with
  | nil =>
    refine ⟨fun h => ?_, fun n j h => ?_⟩
    · cases h
    · cases h
  | cons b rest ih =>
    have hpow : mult ≤ 128 ^ 3 := by
      rw [hmult]
      exact Nat.pow_le_pow_right (by omega) (by omega)
    have hless := sum_lt hsum b.toNat
    rw [remaining_cons hi hi' hmult hsum]
    by_cases hlast : b.toNat < 128
    · rw [if_pos hlast]
      refine ⟨fun h => (by cases h), ?_⟩
      intro n j h
      cases h
      omega
    · rw [if_neg hlast]
      by_cases hfour : i + 1 > 4
      · rw [if_pos hfour]
        refine ⟨fun h => ?_, fun n j h => ?_⟩
        · cases h
        · cases h
      · rw [if_neg hfour]
        obtain ⟨hsafe, hrange⟩ := ih (i := i + 1) (by omega) (by omega) (mult_succ hi hmult) hless
        refine ⟨hsafe, ?_⟩
        intro n j h
        have := hrange n j h
        omega

theorem remaining_append (h : remaining i mult sum rest ≠ .error .incomplete) :
    remaining i mult sum (rest ++ c) = remaining i mult sum rest := by
  induction rest generalizing i mult sum with
  | nil => exact absurd rfl h
  | cons b rest ih =>
    rw [List.cons_append]
    unfold remaining at h ⊢
    cases hpart : checked (b.toNat % 128 * mult) with
    | error e => rfl
    | ok part =>
      rw [hpart] at h
      dsimp only [bind, Except.bind] at h ⊢
      cases hsum : checked (sum + part) with
      | error e => rfl
      | ok sum' =>
        rw [hsum] at h
        dsimp only at h ⊢
        split
        · rfl
        · rename_i hmore
          rw [if_neg hmore] at h
          split
          · rfl
          · rename_i hfour
            rw [if_neg hfour] at h
            cases hmult : checked (mult * 128) with
            | error e => rfl
            | ok mult' =>
              rw [hmult] at h
              exact ih h

end

/-! ### One packet -/

section

variable {b c : Bytes} {maxPacket : Nat} {r : Ready}

theorem parse_cases (first second : UInt8) (rest : Bytes) (maxPacket : Nat) :
    (∃ e, e ≠ .crash ∧ remaining 1 1 0 (second :: rest) = .error e ∧
      parse (first :: second :: rest) maxPacket = .error e) ∨
    ∃ n i, remaining 1 1 0 (second :: rest) = .ok (n, i) ∧ 2 ≤ i ∧
      ((maxPacket < n ∧ parse (first :: second :: rest) maxPacket = .error .tooLarge) ∨
      (n ≤ maxPacket ∧ (first :: second :: rest).length < i + n ∧
        parse (first :: second :: rest) maxPacket = .error .incomplete) ∨
      n ≤ maxPacket ∧ i + n ≤ (first :: second :: rest).length ∧
        parse (first :: second :: rest) maxPacket =
          (parseBody (first.toNat / 16) (first.toNat % 16) (((first :: second :: rest).drop i).take n)).map
            fun packet => ⟨packet, i + n⟩) := by
  obtain ⟨hsafe, hrange⟩ : remaining 1 1 0 (second :: rest) ≠ .error .crash ∧
      ∀ n j, remaining 1 1 0 (second :: rest) = .ok (n, j) → n < 128 ^ 4 ∧ 1 < j ∧ j ≤ 5 :=
    remaining_cases (by omega) (by omega) rfl (by omega) (second :: rest)
  cases hrem : remaining 1 1 0 (second :: rest) with
  | error e =>
    refine .inl ⟨e, ?_, rfl, ?_⟩
    · rintro rfl
      exact hsafe hrem
    · unfold parse
      dsimp only
      rw [hrem]
      rfl
  | ok r =>
    obtain ⟨n, i⟩ := r
    obtain ⟨hn, hi, hi'⟩ := hrange n i hrem
    refine .inr ⟨n, i, rfl, by omega, ?_⟩
    unfold parse
    dsimp only
    rw [hrem]
    dsimp only [bind, Except.bind]
    by_cases hlarge : maxPacket < n
    · rw [if_pos hlarge]
      exact .inl ⟨hlarge, rfl⟩
    · rw [if_neg hlarge, checked_ok (by omega)]
      dsimp only
      by_cases hwhole : (first :: second :: rest).length < i + n
      · rw [if_pos hwhole]
        exact .inr (.inl ⟨by omega, hwhole, rfl⟩)
      · rw [if_neg hwhole, slice_ok (by omega) (by omega), Nat.add_sub_cancel_left]
        refine .inr (.inr ⟨by omega, by omega, ?_⟩)
        dsimp only
        cases parseBody (first.toNat / 16) (first.toNat % 16) (((first :: second :: rest).drop i).take n) with
        | error e => rfl
        | ok packet => rfl

theorem parse_ne_crash (b : Bytes) (maxPacket : Nat) : parse b maxPacket ≠ .error .crash := by
  match b with
  | [] => exact fun h => by cases h
  | [_] => exact fun h => by cases h
  | first :: second :: rest =>
    rcases parse_cases first second rest maxPacket with ⟨e, he, -, hparse⟩ | ⟨n, i, -, -, ⟨-, hparse⟩ | ⟨-, -, hparse⟩ |
      ⟨-, -, hparse⟩⟩
    · rw [hparse]
      intro h
      cases h
      exact he rfl
    · rw [hparse]
      intro h
      cases h
    · rw [hparse]
      intro h
      cases h
    · rw [hparse]
      have hbody : parseBody (first.toNat / 16) (first.toNat % 16) (((first :: second :: rest).drop i).take n) ≠
          .error .crash := parseBody_ne_crash _ _
      cases hres : parseBody (first.toNat / 16) (first.toNat % 16) (((first :: second :: rest).drop i).take n) with
      | error e =>
        rw [hres] at hbody
        intro h
        apply hbody
        cases h
        rfl
      | ok packet =>
        intro h
        cases h

theorem parse_consumed (h : parse b maxPacket = .ok r) : 2 ≤ r.consumed ∧ r.consumed ≤ b.length := by
  match b with
  | [] => cases h
  | [_] => cases h
  | first :: second :: rest =>
    rcases parse_cases first second rest maxPacket with ⟨e, -, -, hparse⟩ | ⟨n, i, -, hi, ⟨-, hparse⟩ | ⟨-, -, hparse⟩ |
      ⟨-, hwhole, hparse⟩⟩
    · rw [hparse] at h
      cases h
    · rw [hparse] at h
      cases h
    · rw [hparse] at h
      cases h
    · rw [hparse] at h
      cases hres : parseBody (first.toNat / 16) (first.toNat % 16) (((first :: second :: rest).drop i).take n) with
      | error e =>
        rw [hres] at h
        cases h
      | ok packet =>
        rw [hres] at h
        cases h
        exact ⟨by dsimp only; omega, hwhole⟩

/-- What is said of a buffer, other than that the packet is not there whole, is said of it whatever follows. -/
theorem parse_append (h : parse b maxPacket ≠ .error .incomplete) (c : Bytes) :
    parse (b ++ c) maxPacket = parse b maxPacket := by
  match b with
  | [] => exact absurd rfl h
  | [_] => exact absurd rfl h
  | first :: second :: rest =>
    have hhead : remaining 1 1 0 (second :: rest) ≠ .error .incomplete := by
      intro hrem
      apply h
      unfold parse
      dsimp only
      rw [hrem]
      rfl
    have hmore := remaining_append (c := c) hhead
    rcases parse_cases first second rest maxPacket with ⟨e, -, hrem, hparse⟩ | ⟨n, i, hrem, hi, hhere⟩
    · rcases parse_cases first second (rest ++ c) maxPacket with ⟨e', -, hrem', hparse'⟩ | ⟨n', i', hrem', -⟩
      · rw [← List.cons_append, hmore, hrem] at hrem'
        rw [hparse, List.cons_append, List.cons_append, hparse', Except.error.inj hrem']
      · rw [← List.cons_append, hmore, hrem] at hrem'
        cases hrem'
    · rcases parse_cases first second (rest ++ c) maxPacket with ⟨e', -, hrem', -⟩ | ⟨n', i', hrem', -, hthere⟩
      · rw [← List.cons_append, hmore, hrem] at hrem'
        cases hrem'
      · rw [← List.cons_append, hmore, hrem] at hrem'
        obtain ⟨rfl, rfl⟩ := Prod.mk.inj (Except.ok.inj hrem')
        rw [← List.cons_append, ← List.cons_append] at hthere
        rcases hhere with ⟨hlarge, hparse⟩ | ⟨-, -, hparse⟩ | ⟨hsmall, hwhole, hparse⟩
        · rcases hthere with ⟨-, hparse'⟩ | ⟨hsmall, -⟩ | ⟨hsmall, -⟩
          · rw [hparse', hparse]
          · omega
          · omega
        · exact absurd hparse h
        · rcases hthere with ⟨hlarge, -⟩ | ⟨-, hshort, -⟩ | ⟨-, -, hparse'⟩
          · omega
          · rw [List.length_append] at hshort
            omega
          · have hsame : ((first :: second :: rest ++ c).drop i).take n =
                ((first :: second :: rest).drop i).take n := by
              rw [List.drop_append_of_le_length (by omega),
                List.take_append_of_le_length (by rw [List.length_drop]; omega)]
            rw [hparse', hparse, hsame]

end

/-! ### A stream -/

section

variable {maxPacket fuel fuel' : Nat} {taken : List Packet} {b c : Bytes} {s full : Framing} {frame : Bytes}

theorem takePackets_stop {e : Stop} (h : parse b maxPacket = .error e) (taken : List Packet) (fuel : Nat) :
    takePackets maxPacket (fuel + 1) taken b = ⟨taken, b, if e = .incomplete then none else some e⟩ := by
  unfold takePackets
  rw [h]
  cases e with
  | incomplete => rfl
  | tooLarge => rfl
  | malformed => rfl
  | crash => rfl

theorem takePackets_ready {r : Ready} (h : parse b maxPacket = .ok r) (taken : List Packet) (fuel : Nat) :
    takePackets maxPacket (fuel + 1) taken b =
      takePackets maxPacket fuel (taken ++ [r.packet]) (b.drop r.consumed) := by
  rw [takePackets, h]

theorem takePackets_fuel (h : b.length < fuel) (h' : b.length < fuel') :
    takePackets maxPacket fuel taken b = takePackets maxPacket fuel' taken b := by
  induction fuel generalizing fuel' taken b with
  | zero => omega
  | succ fuel ih =>
    cases fuel' with
    | zero => omega
    | succ fuel' =>
      cases hparse : parse b maxPacket with
      | error e => rw [takePackets_stop hparse, takePackets_stop hparse]
      | ok r =>
        have hrange := parse_consumed hparse
        rw [takePackets_ready hparse, takePackets_ready hparse]
        apply ih
        · rw [List.length_drop]
          omega
        · rw [List.length_drop]
          omega

theorem takePackets_ne_crash (h : b.length < fuel) : (takePackets maxPacket fuel taken b).closed ≠ some .crash := by
  induction fuel generalizing taken b with
  | zero => omega
  | succ fuel ih =>
    cases hparse : parse b maxPacket with
    | error e =>
      rw [takePackets_stop hparse]
      dsimp only
      split
      · intro hcrash
        cases hcrash
      · intro hcrash
        rw [Option.some.inj hcrash] at hparse
        exact parse_ne_crash b maxPacket hparse
    | ok r =>
      have hrange := parse_consumed hparse
      rw [takePackets_ready hparse]
      apply ih
      rw [List.length_drop]
      omega

theorem takePackets_waits (h : b.length < fuel) (hopen : (takePackets maxPacket fuel taken b).closed = none) :
    parse (takePackets maxPacket fuel taken b).buf maxPacket = .error .incomplete := by
  induction fuel generalizing taken b with
  | zero => omega
  | succ fuel ih =>
    cases hparse : parse b maxPacket with
    | error e =>
      rw [takePackets_stop hparse] at hopen ⊢
      dsimp only at hopen ⊢
      by_cases he : e = .incomplete
      · rw [hparse, he]
      · rw [if_neg he] at hopen
        cases hopen
    | ok r =>
      have hrange := parse_consumed hparse
      rw [takePackets_ready hparse] at hopen ⊢
      apply ih ?_ hopen
      rw [List.length_drop]
      omega

theorem prefix_takePackets (maxPacket fuel : Nat) (taken : List Packet) (b : Bytes) :
    taken <+: (takePackets maxPacket fuel taken b).taken := by
  induction fuel generalizing taken b with
  | zero => exact List.prefix_refl taken
  | succ fuel ih =>
    cases hparse : parse b maxPacket with
    | error e =>
      rw [takePackets_stop hparse]
    | ok r =>
      rw [takePackets_ready hparse]
      exact (List.prefix_append taken [r.packet]).trans (ih _ _)

/-- The same packets, and closed for the same reason; or open, with the same bytes left. -/
structure Agrees (s full : Framing) : Prop where
  taken : s.taken = full.taken
  closed : s.closed = full.closed
  buf : s.closed = none → s.buf = full.buf

theorem takePackets_append (maxPacket : Nat) (taken : List Packet) (h : b.length < fuel) (c : Bytes) :
    let first := takePackets maxPacket fuel taken b
    (first.closed = none → takePackets maxPacket ((b ++ c).length + 1) taken (b ++ c) =
        takePackets maxPacket ((first.buf ++ c).length + 1) first.taken (first.buf ++ c)) ∧
      (first.closed ≠ none → Agrees first (takePackets maxPacket ((b ++ c).length + 1) taken (b ++ c))) := by
  induction fuel generalizing taken b with
  | zero => omega
  | succ fuel ih =>
    cases hparse : parse b maxPacket with
    | error e =>
      rw [takePackets_stop hparse]
      dsimp only
      by_cases he : e = .incomplete
      · rw [if_pos he]
        exact ⟨fun _ => rfl, fun hclosed => absurd rfl hclosed⟩
      · have hmore : parse (b ++ c) maxPacket = .error e := by
          rw [parse_append (by rw [hparse]; exact fun h => he (Except.error.inj h)), hparse]
        rw [if_neg he, takePackets_stop hmore, if_neg he]
        refine ⟨fun hopen => ?_, fun _ => ⟨rfl, rfl, fun hopen => ?_⟩⟩
        · cases hopen
        · cases hopen
    | ok r =>
      have hrange := parse_consumed hparse
      have hmore : parse (b ++ c) maxPacket = .ok r := by
        rw [parse_append (by rw [hparse]; exact fun h => by cases h), hparse]
      have hrest : takePackets maxPacket ((b ++ c).length + 1) taken (b ++ c) =
          takePackets maxPacket ((b.drop r.consumed ++ c).length + 1) (taken ++ [r.packet])
            (b.drop r.consumed ++ c) := by
        rw [takePackets_ready hmore, List.drop_append_of_le_length hrange.2]
        apply takePackets_fuel
        · rw [List.length_append, List.length_append, List.length_drop]
          omega
        · omega
      rw [takePackets_ready hparse, hrest]
      exact ih (taken ++ [r.packet]) (by rw [List.length_drop]; omega)

theorem receive_closed (h : s.closed ≠ none) (frame : Bytes) : s.receive frame = s := by
  unfold Framing.receive
  rw [if_pos (Option.isSome_iff_ne_none.2 h)]

theorem run_closed (h : s.closed ≠ none) (frames : List Bytes) : run Framing.receive s frames = s := by
  induction frames with
  | nil => rfl
  | cons frame frames ih =>
    show run Framing.receive (s.receive frame) frames = s
    rw [receive_closed h]
    exact ih

theorem run_receive (hopen : s.closed = none) (hwaits : parse s.buf MAX_PACKET = .error .incomplete)
    (frames : List Bytes) :
    let full := takePackets MAX_PACKET ((s.buf ++ frames.flatten).length + 1) s.taken (s.buf ++ frames.flatten)
    (run Framing.receive s frames).taken <+: full.taken ∧
      (Along Framing.receive Framing.Within s frames → Agrees (run Framing.receive s frames) full) := by
  induction frames generalizing s with
  | nil =>
    have hnone : takePackets MAX_PACKET ((s.buf ++ ([] : List Bytes).flatten).length + 1) s.taken
        (s.buf ++ ([] : List Bytes).flatten) = s := by
      rw [List.flatten_nil, List.append_nil, takePackets_stop hwaits, if_pos rfl, ← hopen]
    rw [hnone]
    exact ⟨List.prefix_refl _, fun _ => ⟨rfl, rfl, fun _ => rfl⟩⟩
  | cons frame frames ih =>
    rw [List.flatten_cons, ← List.append_assoc]
    show (run Framing.receive (s.receive frame) frames).taken <+: _ ∧ (s.Within frame ∧
      Along Framing.receive Framing.Within (s.receive frame) frames →
        Agrees (run Framing.receive (s.receive frame) frames) _)
    by_cases hover : s.limit < (s.buf ++ frame).length
    · have hclosed : s.receive frame = ⟨s.taken, s.buf ++ frame, some .tooLarge⟩ := by
        unfold Framing.receive
        rw [if_neg (by simp [hopen])]
        dsimp only
        rw [if_pos hover]
      rw [hclosed, run_closed (by simp)]
      refine ⟨prefix_takePackets .., ?_⟩
      rintro ⟨hwithin, -⟩
      have := hwithin hopen
      omega
    · have hreceive : s.receive frame =
          takePackets MAX_PACKET ((s.buf ++ frame).length + 1) s.taken (s.buf ++ frame) := by
        unfold Framing.receive
        rw [if_neg (by simp [hopen])]
        dsimp only
        rw [if_neg hover]
      obtain ⟨hgoes, hends⟩ := takePackets_append MAX_PACKET s.taken (Nat.lt_succ_self (s.buf ++ frame).length)
        frames.flatten
      rw [← hreceive] at hgoes hends
      by_cases hstill : (s.receive frame).closed = none
      · rw [hgoes hstill]
        have hwait : parse (s.receive frame).buf MAX_PACKET = .error .incomplete := by
          rw [hreceive] at hstill ⊢
          exact takePackets_waits (Nat.lt_succ_self _) hstill
        obtain ⟨hfront, hall⟩ := ih hstill hwait
        exact ⟨hfront, fun h => hall h.2⟩
      · have hagrees := hends hstill
        rw [run_closed hstill]
        exact ⟨by rw [hagrees.taken], fun _ => hagrees⟩

end

/-! ### What is published -/

section

variable {n i mult sum : Nat} {topic : List Char} {payload : Bytes} {maxPacket : Nat}

theorem toNat_ofNat_of_lt (h : n < 256) : (UInt8.ofNat n).toNat = n := by
  rw [UInt8.toNat_ofNat']
  omega

theorem toNat_low (n : Nat) : (UInt8.ofNat (n % 128)).toNat = n % 128 := toNat_ofNat_of_lt (by omega)

theorem toNat_high (n : Nat) : (UInt8.ofNat (n % 128 + 128)).toNat = n % 128 + 128 := toNat_ofNat_of_lt (by omega)

theorem remaining_encodeLen (hi : 1 ≤ i) (hi' : i ≤ 4) (hmult : mult = 128 ^ (i - 1)) (hsum : sum < mult)
    (hn : n < 128 ^ (5 - i)) (rest : Bytes) :
    remaining i mult sum (encodeLen n ++ rest) = .ok (sum + n * mult, i + (encodeLen n).length) := by
  induction n using encodeLen.induct generalizing i mult sum with
  | case1 n hmore ih =>
    have hroom : 5 - i = (5 - (i + 1)) + 1 := by omega
    have hrest : n / 128 < 128 ^ (5 - (i + 1)) := by
      rw [hroom, pow_succ] at hn
      exact Nat.div_lt_of_lt_mul (by omega)
    have hfour : ¬ i + 1 > 4 := by
      intro hlast
      have hone : 5 - (i + 1) = 0 := by omega
      rw [hone] at hrest
      omega
    have hless := sum_lt hsum n
    have hsplit : n % 128 * mult + n / 128 * (mult * 128) = n * mult := by
      calc n % 128 * mult + n / 128 * (mult * 128) = (n % 128 + 128 * (n / 128)) * mult := by ring
        _ = n * mult := by rw [Nat.mod_add_div]
    rw [encodeLen, if_pos hmore, List.cons_append, remaining_cons hi hi' hmult hsum, toNat_high, if_neg (by omega),
      if_neg hfour, Nat.add_mod_right, Nat.mod_mod, ih (by omega) (by omega) (mult_succ hi hmult) hless hrest,
      List.length_cons]
    congr 2
    · omega
    · omega
  | case2 n hless =>
    have hsmall : n % 128 = n := Nat.mod_eq_of_lt (by omega)
    rw [encodeLen, if_neg hless, List.singleton_append, remaining_cons hi hi' hmult hsum, toNat_low, if_pos (by omega),
      Nat.mod_mod, hsmall]
    rfl

theorem remaining_tooLong (hi : 1 ≤ i) (hi' : i ≤ 4) (hmult : mult = 128 ^ (i - 1)) (hsum : sum < mult)
    (hn : 128 ^ (5 - i) ≤ n) (rest : Bytes) : remaining i mult sum (encodeLen n ++ rest) = .error .malformed := by
  induction n using encodeLen.induct generalizing i mult sum with
  | case1 n hmore ih =>
    have hless := sum_lt hsum n
    rw [encodeLen, if_pos hmore, List.cons_append, remaining_cons hi hi' hmult hsum, toNat_high, if_neg (by omega),
      Nat.add_mod_right, Nat.mod_mod]
    by_cases hfour : i + 1 > 4
    · rw [if_pos hfour]
    · have hroom : 5 - i = (5 - (i + 1)) + 1 := by omega
      have hrest : 128 ^ (5 - (i + 1)) ≤ n / 128 := by
        rw [hroom, pow_succ] at hn
        exact (Nat.le_div_iff_mul_le (by omega)).2 hn
      rw [if_neg hfour]
      exact ih (by omega) (by omega) (mult_succ hi hmult) hless hrest
  | case2 n hless =>
    have hpow : 128 ^ 1 ≤ 128 ^ (5 - i) := Nat.pow_le_pow_right (by omega) (by omega)
    omega

theorem encodeLen_eq_cons (n : Nat) : ∃ second more, encodeLen n = second :: more := by
  rw [encodeLen]
  split
  · exact ⟨_, _, rfl⟩
  · exact ⟨_, _, rfl⟩

theorem parse_packet (first : UInt8) (body : Bytes) (hsize : body.length < 2 ^ 28) (hmax : body.length ≤ maxPacket) :
    parse (packet first body) maxPacket = (parseBody (first.toNat / 16) (first.toNat % 16) body).map
      fun p => ⟨p, (packet first body).length⟩ := by
  have hlen : remaining 1 1 0 (encodeLen body.length ++ body) =
      .ok (0 + body.length * 1, 1 + (encodeLen body.length).length) :=
    remaining_encodeLen (by omega) (by omega) rfl (by omega) (by omega) body
  unfold packet
  obtain ⟨second, more, hcons⟩ := encodeLen_eq_cons body.length
  have hwhole : first :: encodeLen body.length ++ body = first :: second :: (more ++ body) := by
    rw [hcons]
    rfl
  have htotal : 1 + (encodeLen body.length).length + body.length = (first :: encodeLen body.length ++ body).length := by
    rw [List.length_append, List.length_cons]
    omega
  have hbody : (first :: encodeLen body.length ++ body).drop (1 + (encodeLen body.length).length) = body := by
    rw [Nat.add_comm, List.cons_append, List.drop_succ_cons, List.drop_left]
  rw [hcons, List.cons_append, ← hcons, Nat.mul_one, Nat.zero_add] at hlen
  rcases parse_cases first second (more ++ body) maxPacket with ⟨e, -, hrem, -⟩ | ⟨n, i, hrem, -, hres⟩
  · rw [hlen] at hrem
    cases hrem
  · rw [hlen] at hrem
    obtain ⟨rfl, rfl⟩ := Prod.mk.inj (Except.ok.inj hrem)
    rw [← hwhole] at hres
    rcases hres with ⟨hlarge, -⟩ | ⟨-, hshort, -⟩ | ⟨-, -, hparse⟩
    · omega
    · omega
    · rw [hparse, hbody, List.take_length, htotal]

theorem parse_packet_tooLong (first : UInt8) (body : Bytes) (hsize : 2 ^ 28 ≤ body.length) :
    parse (packet first body) maxPacket = .error .malformed := by
  have hlen : remaining 1 1 0 (encodeLen body.length ++ body) = .error .malformed :=
    remaining_tooLong (by omega) (by omega) rfl (by omega) (by omega) body
  unfold packet
  obtain ⟨second, more, hcons⟩ := encodeLen_eq_cons body.length
  rw [hcons] at hlen ⊢
  show parse (first :: second :: (more ++ body)) maxPacket = _
  rcases parse_cases first second (more ++ body) maxPacket with ⟨e, -, hrem, hparse⟩ | ⟨n, i, hrem, -⟩
  · rw [List.cons_append, hrem] at hlen
    rw [hparse, Except.error.inj hlen]
  · rw [List.cons_append, hrem] at hlen
    cases hlen

theorem readU16_beBytes (h : n < 2 ^ 16) (rest : Bytes) : readU16 (beBytes 2 n ++ rest) 0 = some n := by
  have hbe : ofBe (beBytes 2 n) = n := ofBe_beBytes (by omega)
  unfold readU16
  show some (ofBe (beBytes 2 n)) = _
  rw [hbe]

theorem readStr_encode (hlen : (encode topic).length < 2 ^ 16) (hnul : '\x00' ∉ topic) (rest : Bytes) :
    readStr (beBytes 2 (encode topic).length ++ encode topic ++ rest) 0 = some (topic, 2 + (encode topic).length) := by
  have hget : get (beBytes 2 (encode topic).length ++ encode topic ++ rest) (0 + 2) (0 + 2 + (encode topic).length) =
      some (encode topic) := by
    unfold get
    rw [if_pos, List.append_assoc, List.drop_left' (length_beBytes 2 _), Nat.add_sub_cancel_left, List.take_left]
    refine ⟨by omega, ?_⟩
    rw [List.length_append, List.length_append, length_beBytes]
    omega
  unfold readStr
  rw [List.append_assoc, readU16_beBytes hlen, ← List.append_assoc]
  dsimp only [bind, Option.bind]
  rw [hget]
  dsimp only
  rw [fromUtf8_encode]
  dsimp only
  rw [if_neg hnul, Nat.zero_add]

/-- What is published is parsed as it was published, if its length can be written. -/
theorem parse_publish (hlen : (encode topic).length < 2 ^ 16) (hnul : '\x00' ∉ topic) (retain : Bool)
    (hsize : 2 + (encode topic).length + payload.length < 2 ^ 28)
    (hmax : 2 + (encode topic).length + payload.length ≤ maxPacket) :
    parse (publish topic payload retain) maxPacket =
      .ok ⟨.publish topic 0 retain none payload, (publish topic payload retain).length⟩ := by
  have hbody : (beBytes 2 (encode topic).length ++ encode topic ++ payload).length =
      2 + (encode topic).length + payload.length := by
    rw [List.length_append, List.length_append, length_beBytes]
  have hpayload : slice (beBytes 2 (encode topic).length ++ encode topic ++ payload) (2 + (encode topic).length)
      (beBytes 2 (encode topic).length ++ encode topic ++ payload).length = .ok payload := by
    rw [slice_ok (by omega) (le_refl _), List.drop_left' (by rw [List.length_append, length_beBytes]), hbody,
      Nat.add_sub_cancel_left, List.take_length]
  have hparsed : ∀ flags, flags < 2 → parsePublish flags (beBytes 2 (encode topic).length ++ encode topic ++ payload) =
      .ok (.publish topic 0 (flags = 1) none payload) := by
    intro flags hflags
    have hqos : flags / 2 % 4 = 0 := by omega
    unfold parsePublish
    dsimp only
    rw [hqos, if_neg (by omega), readStr_encode hlen hnul]
    dsimp only [orMalformed, bind, Except.bind]
    rw [if_neg (by omega), hpayload, Nat.mod_eq_of_lt hflags]
    rfl
  unfold publish
  rw [parse_packet _ _ (by omega) (by omega)]
  cases retain with
  | true =>
    show (parsePublish 1 _).map _ = _
    rw [hparsed 1 (by omega)]
    rfl
  | false =>
    show (parsePublish 0 _).map _ = _
    rw [hparsed 0 (by omega)]
    rfl

end

/-! ### However it arrives -/

theorem prefix_receive (s : Framing) (frame : Bytes) : s.taken <+: (s.receive frame).taken := by
  unfold Framing.receive
  split
  · exact List.prefix_refl _
  · dsimp only
    split
    · exact List.prefix_refl _
    · exact prefix_takePackets ..

theorem receive_ne_crash {s : Framing} (h : s.closed ≠ some .crash) (frame : Bytes) :
    (s.receive frame).closed ≠ some .crash := by
  unfold Framing.receive
  split
  · exact h
  · dsimp only
    split
    · intro hcrash
      cases hcrash
    · exact takePackets_ne_crash (Nat.lt_succ_self _)

/-- What is said of a buffer holds whatever follows it, and is said without a crash.  So the packets of a connection are
those of its stream, as long as no frame goes over the limit, and the first of them otherwise.  What is published is
parsed as it was published, if its length can be written. -/
theorem framing_independent :
    (∀ (b c : Bytes) (maxPacket : Nat), parse b maxPacket ≠ .error .crash ∧
      (∀ r, parse b maxPacket = .ok r →
        2 ≤ r.consumed ∧ r.consumed ≤ b.length ∧ parse (b ++ c) maxPacket = .ok r) ∧
      ∀ e, e = .tooLarge ∨ e = .malformed → parse b maxPacket = .error e → parse (b ++ c) maxPacket = .error e) ∧
    (∀ frames : List Bytes, (run Framing.receive .start frames).closed ≠ some .crash ∧
      (run Framing.receive .start frames).taken <+:
        (takePackets MAX_PACKET (frames.flatten.length + 1) [] frames.flatten).taken ∧
      (Along Framing.receive Framing.Within .start frames →
        Agrees (run Framing.receive .start frames)
          (takePackets MAX_PACKET (frames.flatten.length + 1) [] frames.flatten))) ∧
    ∀ (topic : List Char) (payload : Bytes) (retain : Bool) (maxPacket : Nat),
      (encode topic).length ≤ 65535 → '\x00' ∉ topic → 2 + (encode topic).length + payload.length ≤ maxPacket →
      2 + (encode topic).length + payload.length < 2 ^ 28 →
        parse (publish topic payload retain) maxPacket =
          .ok ⟨.publish topic 0 retain none payload, (publish topic payload retain).length⟩ := by
  refine ⟨?_, ?_, ?_⟩
  · intro b c maxPacket
    refine ⟨parse_ne_crash b maxPacket, ?_, ?_⟩
    · intro r hr
      obtain ⟨htwo, hle⟩ := parse_consumed hr
      refine ⟨htwo, hle, ?_⟩
      rw [parse_append (by rw [hr]; exact fun h => by cases h), hr]
    · intro e he hparse
      rw [parse_append, hparse]
      rw [hparse]
      rcases he with rfl | rfl
      · exact fun h => by cases h
      · exact fun h => by cases h
  · intro frames
    have hsafe : (run Framing.receive .start frames).closed ≠ some .crash :=
      run_always (P := fun s : Framing => s.closed ≠ some .crash) (fun s frame hs => receive_ne_crash hs frame)
        (fun h => by cases h) frames
    exact ⟨hsafe, run_receive (s := .start) rfl rfl frames⟩
  · intro topic payload retain maxPacket hlen hnul hmax hsize
    exact parse_publish (by omega) hnul retain hsize hmax

/-- A publish of a text under a topic, and two pings in three frames. -/
theorem framing_independent_hidra :
    parse (publish "hidra/x".toList [104, 105] true) MAX_PACKET =
        .ok ⟨.publish "hidra/x".toList 0 true none [104, 105], (publish "hidra/x".toList [104, 105] true).length⟩ ∧
      Agrees (run Framing.receive .start [[0xc0], [0, 0xc0], [0]])
        (takePackets MAX_PACKET ([[0xc0], [0, 0xc0], [0]].flatten.length + 1) [] [[0xc0], [0, 0xc0], [0]].flatten) := by
  constructor
  · exact framing_independent.2.2 "hidra/x".toList [104, 105] true MAX_PACKET (by decide) (by decide)
      (by decide) (by decide)
  · refine (framing_independent.2.1 [[0xc0], [0, 0xc0], [0]]).2.2 ⟨?_, ?_, ?_, trivial⟩
    · intro _
      decide
    · intro _
      decide
    · intro _
      decide

/-- A packet of 2 ^ 28 bytes is written with a length of five bytes, which is no length; and a frame that goes over the
limit closes a connection that the same bytes in two frames do not. -/
theorem framing_dependent :
    (¬ ∀ (topic : List Char) (payload : Bytes) (retain : Bool) (maxPacket : Nat),
      (encode topic).length ≤ 65535 → '\x00' ∉ topic → 2 + (encode topic).length + payload.length ≤ maxPacket →
        parse (publish topic payload retain) maxPacket =
          .ok ⟨.publish topic 0 retain none payload, (publish topic payload retain).length⟩) ∧
    ¬ ∀ frames frames' : List Bytes, frames.flatten = frames'.flatten →
      (run Framing.receive .start frames).taken = (run Framing.receive .start frames').taken := by
  constructor
  · intro h
    obtain ⟨payload, hpayload⟩ : ∃ payload : Bytes, payload.length = 2 ^ 28 :=
      ⟨List.replicate (2 ^ 28) 0, List.length_replicate⟩
    have hread := h [] payload false (2 ^ 28 + 2) (by simp) (by simp) (by rw [hpayload]; simp)
    unfold publish at hread
    rw [parse_packet_tooLong _ _ (by rw [List.length_append, hpayload]; omega)] at hread
    cases hread
  · intro h
    obtain ⟨more, hmore⟩ : ∃ more : Bytes, more.length = 4096 := ⟨List.replicate 4096 0, List.length_replicate⟩
    -- the packet that connects
    let connect : Bytes := [0x10, 0x0c, 0, 4, 77, 81, 84, 84, 4, 2, 0, 60, 0, 0]
    have hconnect : (Framing.start.receive connect).taken ≠ [] := by decide
    have hsame := h [connect ++ more] [connect, more] (by simp)
    have hnone : (run Framing.receive .start [connect ++ more]).taken = [] := by
      show (Framing.start.receive (connect ++ more)).taken = []
      unfold Framing.receive
      rw [if_neg (by decide)]
      dsimp only
      rw [if_pos]
      · rfl
      · show (connect ++ more).length > 4096
        rw [List.length_append, hmore]
        decide
    rw [hnone] at hsame
    have hgrows := prefix_receive (Framing.start.receive connect) more
    change [] = ((Framing.start.receive connect).receive more).taken at hsame
    rw [← hsame] at hgrows
    exact hconnect (List.prefix_nil.1 hgrows)

end HidraNet.Hidrarelay.Mqtt
