import HidraNet.Core.Pass
import HidraNet.Lib.Json
import HidraNet.Lib.Lines
import HidraNet.Lib.Maps
import HidraNet.Lib.Runs
import HidraNet.Lib.Utf8

/-!
# The chat server's sessions

A session is a task for each connection: it reads a join, enters a room, sends the welcome, announces itself, subscribes
to the room's channel and then relays what its client says and what the channel gives, until it leaves; a room nobody is
left in is reaped.  The rooms are behind one lock, and the members of each room behind another.

A step of the server is a step of one session, from one lock, write or read it waits for to the next.  What a text on
the wire says is carried as the value it is parsed to.
-/

namespace HidraNet.Hidrachat

open HidraNet.Core Json Lines Maps Text Utf8

abbrev Text := List Char

def MAX_CLIENTS : Nat := 512
def MAX_MESSAGE_BYTES : Nat := 8 * 1024
def MAX_NICK_CHARS : Nat := 24
def MAX_ROOM_CHARS : Nat := 64
def BROADCAST_CAP : Nat := 1024
def HISTORY_LIMIT : Nat := 200

def COLORS : List String := [
  "#00d4aa", "#ff6b6b", "#4ecdc4", "#45b7d1", "#f9ca24",
  "#fd79a8", "#6c5ce7", "#e17055", "#0984e3", "#00b894",
  "#e84393", "#00cec9", "#fdcb6e", "#a29bfe", "#74b9ff",
  "#55efc4", "#fab1a0", "#81ecec", "#ffeaa7", "#ff9ff3"]

/-- The libraries' part, and what a client must show to join. -/
structure Env where
  /-- `serde_json::from_str`. -/
  fromStr : Text → Option Value
  nfkc : Text → Text
  toLowercase : Text → Text
  blake3 : List UInt8 → UInt8
  joinVerifier : List UInt8

variable (env : Env)

/-! ### Names -/

def nickColor (nick : Text) : Text := (COLORS.getD ((env.blake3 (encode nick)).toNat % COLORS.length) "").toList

def invisible : List (Nat × Nat) := [
  (0x0000, 0x001f), (0x007f, 0x009f), (0x00ad, 0x00ad), (0x034f, 0x034f), (0x061c, 0x061c), (0x115f, 0x115f),
  (0x1160, 0x1160), (0x17b4, 0x17b4), (0x17b5, 0x17b5), (0x180b, 0x180f), (0x200b, 0x200f), (0x2028, 0x202e),
  (0x2060, 0x206f), (0x3164, 0x3164), (0xe000, 0xf8ff), (0xfe00, 0xfe0f), (0xfeff, 0xfeff), (0xffa0, 0xffa0),
  (0xfff9, 0xfffb), (0x1bca0, 0x1bca3), (0x1d173, 0x1d17a), (0xe0000, 0xe007f), (0xe0100, 0xe01ef),
  (0xf0000, 0xffffd), (0x100000, 0x10fffd)]

def isInvisible (c : Char) : Bool := invisible.any fun r => r.1 ≤ c.toNat && c.toNat ≤ r.2

def nickKey (nick : Text) : Text :=
  env.toLowercase ([' '].intercalate (words ((env.nfkc nick).filter (!isInvisible ·))))

def bounded (s : Text) (maxChars : Nat) (fallback : String) : Text :=
  let s := (trim (String.ofList s)).toList.take maxChars
  if s = [] then fallback.toList else s

def parseAuth (auth : Text) : Option (List UInt8) :=
  if (encode auth).length = 64 then hexDecode auth else none

/-! ### Rooms -/

structure UserInfo where
  nick : Text
  color : Text
deriving DecidableEq

/-- A message of a room: who said it, how many were said before it, and what it says. -/
structure Kept where
  sender : Nat
  number : Nat
  msg : Value

/-- What is sent to a room's channel. -/
inductive Sent where
  | msg (k : Kept)
  | typing (sender : Nat) (v : Value)
  | notice (v : Value)

structure RoomState where
  users : Map Nat UserInfo
  usersLock : Option Nat
  history : List Kept
  log : List Kept
  tx : List Sent

namespace RoomState

def new : RoomState := ⟨.empty, none, [], [], []⟩

def push (r : RoomState) (k : Kept) : RoomState :=
  let history := r.history ++ [k]
  { r with history := history.drop (history.length - HISTORY_LIMIT), log := r.log ++ [k] }

def send (r : RoomState) (item : Sent) : RoomState := { r with tx := r.tx ++ [item] }

def remove (r : RoomState) (id : Nat) : RoomState := { r with users := r.users.remove id }

end RoomState

structure Welcome where
  room : Text
  you : Nat
  users : List UserInfo
  history : List Kept
  count : Nat
  taken : Nat

abbrev Frames := List (Nat × List UInt8)

/-- What a session waits for, or is about to do. -/
inductive Place where
  | joining
  | entering
  | registering
  /-- Refused; holds the rooms, waits for the members' lock again. -/
  | refusing (why : String)
  | welcoming
  | takingHistory
  | sendingWelcome
  | announcing
  | joined (count : Nat)
  | subscribing
  | live
  | forwarding (item : Sent)
  | handling (frames : Frames) (tooLarge : Bool)
  | pushing (msg : Value) (frames : Frames) (tooLarge : Bool)
  | relaying (k : Kept) (frames : Frames) (tooLarge : Bool)
  /-- The welcome could not be sent: waits for the members' lock. -/
  | failing
  | leaving
  | reaping
  | reapingUsers
  | gone

structure Session where
  place : Place
  nick : Text := []
  color : Text := []
  roomId : Text := []
  auth : Option (List UInt8) := none
  told : Option String := none
  room : Nat := 0
  welcome : Option Welcome := none
  /-- What the receiver has taken or skipped of the channel. -/
  rx : Nat := 0
  /-- What was sent to the client of it since it subscribed. -/
  got : List Sent := []

structure ChatServer where
  rooms : Map Text Nat
  roomsLock : Option Nat
  /-- The rooms ever made, those not in the map any more included. -/
  heap : Nat → RoomState
  made : Nat
  nextId : Nat
  sessions : Nat → Session

/-- What a session is given where it waits. -/
inductive Input where
  | frame (op : Nat) (payload : List UInt8)
  | ended
  | sent (ok : Bool)
  /-- Frames of a member, and whether one over the limit follows. -/
  | read (frames : Frames) (tooLarge : Bool)
  | receive
  /-- The ping timer: whether the client was silent for too long, and whether the ping was sent. -/
  | tick (idle ok : Bool)
  /-- A lock is free, or nothing is waited for; the time, and a number drawn. -/
  | go (now rand : Nat)

inductive Event where
  | accept
  | act (id : Nat) (i : Input)

/-! ### What a client says -/

/-- What `on_message` makes of a frame. -/
inductive Said where
  | msg (v : Value)
  | typing (v : Value)
  | nothing

/-- `gen_id`. -/
def genId (rand : Nat) : Text :=
  "m_".toList ++ (List.range 16).map fun i => Json.hexDigit (rand / 16 ^ (15 - i) % 16)

def stamp (msg : Value) (connId : Nat) (nick color : Text) (now rand : Nat) : Value :=
  ((((msg.insert "nick" (.string nick)).insert "color" (.string color)).insert "from" (.nat connId)).insert
    "time" (.nat now)).insert "id" (.string (genId rand))

def typingNote (connId : Nat) (nick : Text) (state : Bool) : Value :=
  .object [("type".toList, .text "typing"), ("nick".toList, .string nick), ("from".toList, .nat connId),
    ("state".toList, .bool state)]

def onMessage (payload : List UInt8) (connId : Nat) (nick color : Text) (now rand : Nat) : Said :=
  if payload.length > MAX_MESSAGE_BYTES then .nothing
  else
    match (fromUtf8 payload).bind env.fromStr with
    | none => .nothing
    | some msg =>
      let msgType := ((msg.get "type").bind Value.asStr).getD []
      if msgType = "msg".toList then .msg (stamp msg connId nick color now rand)
      else if msgType = "typing".toList then
        .typing (typingNote connId nick (((msg.get "state").bind Value.asBool).getD false))
      else .nothing

/-! ### The steps of a session -/

namespace ChatServer

variable (s : ChatServer) (id : Nat)

def new : ChatServer := ⟨.empty, none, fun _ => .new, 0, 1, fun _ => { place := .gone }⟩

def change (me : Session) : ChatServer := { s with sessions := Function.update s.sessions id me }

def goes (p : Place) : ChatServer := s.change id { s.sessions id with place := p }

def roomOf : RoomState := s.heap (s.sessions id).room

def setRoom (room : RoomState) : ChatServer :=
  { s with heap := Function.update s.heap (s.sessions id).room room }

/-- `read_join`, and what the join is answered before the rooms are locked. -/
def readJoin (op : Nat) (payload : List UInt8) : ChatServer :=
  if op = 8 then s.goes id .gone
  else if op ≠ 1 then s
  else
    match (fromUtf8 payload).bind env.fromStr with
    | none => s
    | some msg =>
      if (msg.get "type").bind Value.asStr ≠ some "join".toList then s
      else
        let nick := bounded (((msg.get "nick").bind Value.asStr).getD []) MAX_NICK_CHARS "Anon"
        let roomId := bounded (((msg.get "room").bind Value.asStr).getD []) MAX_ROOM_CHARS "lobby"
        let auth := ((msg.get "auth").bind Value.asStr).bind parseAuth
        if auth = some env.joinVerifier then
          s.change id { s.sessions id with
            place := .entering, nick := nick, color := nickColor env nick, roomId := roomId, auth := auth }
        else s.change id { s.sessions id with place := .gone, told := some "Wrong room passphrase." }

/-- The rooms' lock is had, and the room looked up or made. -/
def enter : ChatServer :=
  if s.roomsLock.isSome then s
  else
    let me := s.sessions id
    match s.rooms.get? me.roomId with
    | some r => { s.change id { me with place := .registering, room := r } with roomsLock := some id }
    | none =>
      { s.change id { me with place := .registering, room := s.made } with
        rooms := s.rooms.set me.roomId s.made
        roomsLock := some id
        heap := Function.update s.heap s.made .new
        made := s.made + 1 }

def refusal : Option String :=
  if (s.roomOf id).users.size ≥ MAX_CLIENTS then some "Room is full"
  else if (s.roomOf id).users.entries.any fun u => nickKey env u.2.nick = nickKey env (s.sessions id).nick then
    some "That nickname is already in the room."
  else none

def register : ChatServer :=
  let me := s.sessions id
  let room := s.roomOf id
  if room.usersLock.isSome then s
  else
    match s.refusal env id with
    | some why => s.goes id (.refusing why)
    | none =>
      { (s.setRoom id { room with users := room.users.set id ⟨me.nick, me.color⟩ }).goes id .welcoming with
        roomsLock := none }

def endRefused (why : String) : ChatServer :=
  let me := s.sessions id
  if (s.roomOf id).usersLock.isSome then s
  else
    { s.change id { me with place := .gone, told := some why } with
      roomsLock := none
      rooms := if (s.roomOf id).users.size = 0 then s.rooms.remove me.roomId else s.rooms }

def lockUsers : ChatServer :=
  if (s.roomOf id).usersLock.isSome then s
  else (s.setRoom id { s.roomOf id with usersLock := some id }).goes id .takingHistory

def takeWelcome : ChatServer :=
  let me := s.sessions id
  let room := s.roomOf id
  let welcome : Welcome :=
    ⟨me.roomId, id, room.users.entries.map Prod.snd, room.history, room.users.size, room.log.length⟩
  (s.setRoom id { room with usersLock := none }).change id
    { me with place := .sendingWelcome, welcome := some welcome }

def count : ChatServer :=
  if (s.roomOf id).usersLock.isSome then s else s.goes id (.joined (s.roomOf id).users.size)

def announce (count now : Nat) : ChatServer :=
  let me := s.sessions id
  let note := .object [("type".toList, .text "joined"), ("nick".toList, .string me.nick),
    ("color".toList, .string me.color), ("count".toList, .nat count), ("time".toList, .nat now)]
  (s.setRoom id ((s.roomOf id).send (.notice note))).goes id .subscribing

def subscribe : ChatServer :=
  s.change id { s.sessions id with place := .live, rx := (s.roomOf id).tx.length, got := [] }

/-- `rx.recv`: a receiver that lags behind is moved to the oldest that is kept. -/
def receive : ChatServer :=
  let me := s.sessions id
  let tx := (s.roomOf id).tx
  if me.rx + BROADCAST_CAP < tx.length then s.change id { me with rx := tx.length - BROADCAST_CAP }
  else
    match tx[me.rx]? with
    | none => s
    | some item => s.change id { me with place := .forwarding item, rx := me.rx + 1 }

def forwarded (item : Sent) : ChatServer :=
  s.change id { s.sessions id with place := .live, got := (s.sessions id).got ++ [item] }

/-- The next frame of a member that waits for nothing. -/
def handle (op : Nat) (payload : List UInt8) (rest : Frames) (tooLarge : Bool) (now rand : Nat) : ChatServer :=
  let me := s.sessions id
  if op = 1 ∨ op = 2 then
    match onMessage env payload id me.nick me.color now rand with
    | .msg v => s.goes id (.pushing v rest tooLarge)
    | .typing v => (s.setRoom id ((s.roomOf id).send (.typing id v))).goes id (.handling rest tooLarge)
    | .nothing => s.goes id (.handling rest tooLarge)
  else if op = 8 then s.goes id .leaving
  else s.goes id (.handling rest tooLarge)

def push (msg : Value) (rest : Frames) (tooLarge : Bool) : ChatServer :=
  let k : Kept := ⟨id, (s.roomOf id).log.length, msg⟩
  (s.setRoom id ((s.roomOf id).push k)).goes id (.relaying k rest tooLarge)

def relay (k : Kept) (rest : Frames) (tooLarge : Bool) : ChatServer :=
  (s.setRoom id ((s.roomOf id).send (.msg k))).goes id (.handling rest tooLarge)

def fail : ChatServer :=
  if (s.roomOf id).usersLock.isSome then s
  else (s.setRoom id ((s.roomOf id).remove id)).goes id .reaping

def leave (now : Nat) : ChatServer :=
  if (s.roomOf id).usersLock.isSome then s
  else
    let room := (s.roomOf id).remove id
    let note := .object [("type".toList, .text "left"), ("nick".toList, .string (s.sessions id).nick),
      ("count".toList, .nat room.users.size), ("time".toList, .nat now)]
    (s.setRoom id (room.send (.notice note))).goes id .reaping

def lockRooms : ChatServer :=
  if s.roomsLock.isSome then s else { s.goes id .reapingUsers with roomsLock := some id }

/-- The rest of `reap_room`. -/
def reap : ChatServer :=
  let me := s.sessions id
  if (s.roomOf id).usersLock.isSome then s
  else
    { s.goes id .gone with
      roomsLock := none
      rooms := if (s.roomOf id).users.size = 0 ∧ s.rooms.get? me.roomId = some me.room then s.rooms.remove me.roomId
        else s.rooms }

/-- A session's step, where it is given what it waits for. -/
def act (i : Input) : ChatServer :=
  match (s.sessions id).place, i with
  | .joining, .frame op payload => s.readJoin env id op payload
  | .joining, .ended => s.goes id .gone
  | .entering, .go _ _ => s.enter id
  | .registering, .go _ _ => s.register env id
  | .refusing why, .go _ _ => s.endRefused id why
  | .welcoming, .go _ _ => s.lockUsers id
  | .takingHistory, .go _ _ => s.takeWelcome id
  | .sendingWelcome, .sent ok => s.goes id (if ok then .announcing else .failing)
  | .announcing, .go _ _ => s.count id
  | .joined count, .go now _ => s.announce id count now
  | .subscribing, .go _ _ => s.subscribe id
  | .live, .read frames tooLarge => s.goes id (.handling frames tooLarge)
  | .live, .ended => s.goes id .leaving
  | .live, .receive => s.receive id
  | .live, .tick idle ok => s.goes id (if idle || !ok then .leaving else .live)
  | .forwarding item, .sent ok => if ok then s.forwarded id item else s.goes id .leaving
  | .handling [] tooLarge, .go _ _ => s.goes id (if tooLarge then .leaving else .live)
  | .handling ((op, payload) :: rest) tooLarge, .go now rand =>
    if op = 9 then s else s.handle env id op payload rest tooLarge now rand
  | .handling ((op, _) :: rest) tooLarge, .sent ok =>
    if op ≠ 9 then s else s.goes id (if ok then .handling rest tooLarge else .leaving)
  | .pushing msg rest tooLarge, .go _ _ => s.push id msg rest tooLarge
  | .relaying k rest tooLarge, .go _ _ => s.relay id k rest tooLarge
  | .failing, .go _ _ => s.fail id
  | .leaving, .go now _ => s.leave id now
  | .reaping, .go _ _ => s.lockRooms id
  | .reapingUsers, .go _ _ => s.reap id
  | _, _ => s

def step : Event → ChatServer
  | .accept =>
    { s with sessions := Function.update s.sessions s.nextId { place := .joining }, nextId := s.nextId + 1 }
  | .act id i => s.act env id i

end ChatServer

end HidraNet.Hidrachat
