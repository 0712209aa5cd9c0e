import HidraNet.Hidrachat.Moves

/-!
# The chat server's rooms

Whatever the sessions do, and in whatever order: a member showed the join verifier, and its room is the one in the map
under its name; no two members of a room have one name, and no room has too many; a room in the map without members has
a session that joins or reaps it; and what is kept or relayed bears the name and number of the session that said it
(`rooms_run`).  A typing note has no colour (`typing_without_color`).
-/

namespace HidraNet.Hidrachat

open Json Maps Runs Utf8

namespace RoomState

theorem push_users (r : RoomState) (k : Kept) : (r.push k).users = r.users := by
  unfold push
  rfl

theorem push_usersLock (r : RoomState) (k : Kept) : (r.push k).usersLock = r.usersLock := by
  unfold push
  rfl

theorem push_tx (r : RoomState) (k : Kept) : (r.push k).tx = r.tx := by
  unfold push
  rfl

end RoomState

namespace Phase

theorem inRoom_of_registered {p : Phase} (h : p.registered) : p.inRoom := by
  cases p <;> simp_all [registered, inRoom]

theorem not_registered_of_holdsRooms {p : Phase} (h : p.holdsRooms) : p.registered = false ∧ p ≠ .takingHistory := by
  cases p <;> simp_all [holdsRooms, registered]

theorem keeps_cases {p : Phase} (h : p.keeps) : p.registered ∨ p.holdsRooms := by
  cases p <;> simp_all [holdsRooms, registered, keeps]

end Phase

namespace ChatServer

def phase (s : ChatServer) (id : Nat) : Phase := (s.sessions id).place.phase

/-- Locks, members and the map of rooms agree with where the sessions are. -/
structure Books (s : ChatServer) : Prop where
  unborn : ∀ id, s.nextId ≤ id → s.phase id = .gone
  lock : ∀ id, s.roomsLock = some id ↔ (s.phase id).holdsRooms
  usersLock : ∀ r id, (s.heap r).usersLock = some id ↔ s.phase id = .takingHistory ∧ (s.sessions id).room = r
  users : ∀ r id u, (s.heap r).users.get? id = some u ↔
    (s.phase id).registered ∧ (s.sessions id).room = r ∧ u = ⟨(s.sessions id).nick, (s.sessions id).color⟩
  made : ∀ id, (s.phase id).inRoom → (s.sessions id).room < s.made
  mapped : ∀ id, (s.phase id).keeps → s.rooms.get? (s.sessions id).roomId = some (s.sessions id).room
  named : ∀ id name, (s.phase id).inRoom → s.rooms.get? name = some (s.sessions id).room →
    name = (s.sessions id).roomId
  peopled : ∀ name r, s.rooms.get? name = some r →
    r < s.made ∧ ∃ id, (s.phase id).inRoom ∧ (s.sessions id).room = r

variable {env : Env} {s s' : ChatServer} {id : Nat} {i : Input}

/-- The session is in the books as before. -/
structure SameWho (me me' : Session) : Prop where
  phase : me'.place.phase = me.place.phase
  nick : me'.nick = me.nick
  color : me'.color = me.color
  roomId : me'.roomId = me.roomId
  auth : me'.auth = me.auth
  room : me'.room = me.room

theorem SameWho.refl (me : Session) : SameWho me me := ⟨rfl, rfl, rfl, rfl, rfl, rfl⟩

theorem Books.congr (h : Books s) (hsame : ∀ id, SameWho (s.sessions id) (s'.sessions id))
    (hrooms : s'.rooms = s.rooms ∧ s'.roomsLock = s.roomsLock ∧ s'.made = s.made ∧ s'.nextId = s.nextId)
    (hheap : ∀ r, (s'.heap r).users = (s.heap r).users ∧ (s'.heap r).usersLock = (s.heap r).usersLock) : Books s' := by
  obtain ⟨hmap, hlock, hmade, hnext⟩ := hrooms
  have hphase (id : Nat) : s'.phase id = s.phase id := (hsame id).phase
  constructor
  · intro id hid
    rw [hphase]
    exact h.unborn id (hnext ▸ hid)
  · intro id
    rw [hphase, hlock]
    exact h.lock id
  · intro r id
    rw [hphase, (hheap r).2, (hsame id).room]
    exact h.usersLock r id
  · intro r id u
    rw [hphase, (hheap r).1, (hsame id).room, (hsame id).nick, (hsame id).color]
    exact h.users r id u
  · intro id
    rw [hphase, (hsame id).room, hmade]
    exact h.made id
  · intro id
    rw [hphase, (hsame id).room, (hsame id).roomId, hmap]
    exact h.mapped id
  · intro id name
    rw [hphase, (hsame id).room, (hsame id).roomId, hmap]
    exact h.named id name
  · intro name r hget
    rw [hmap] at hget
    obtain ⟨hlt, id, hin, hroom⟩ := h.peopled name r hget
    refine ⟨hmade ▸ hlt, id, ?_, ?_⟩
    · rw [hphase]
      exact hin
    · rw [(hsame id).room]
      exact hroom

/-! ### Each step that changes the books -/

attribute [local grind] Place.phase Phase.holdsRooms Phase.registered Phase.inRoom Phase.keeps

theorem Books.accepted (h : Books s) : Books (s.step env .accept) := by
  have hgone := h.unborn s.nextId (Nat.le_refl _)
  cases h
  constructor <;> simp only [phase, step, Function.update_apply] at *
  case unborn | lock | usersLock | users => grind
  case made | mapped | named | peopled => grind

theorem Books.outside (h : Books s) {me : Session} (hplace : (s.sessions id).place = .joining)
    (hout : me.place.phase = .gone ∨ me.place.phase = .entering) : Books (s.change id me) := by
  cases h
  constructor <;> simp only [phase, change, Function.update_apply] at *
  case unborn | lock | usersLock | users => grind
  case made | mapped | named | peopled => grind

theorem Books.found (h : Books s) {r : Nat} (hplace : (s.sessions id).place = .entering) (hlock : s.roomsLock = none)
    (hget : s.rooms.get? (s.sessions id).roomId = some r) :
    Books { s.change id { s.sessions id with place := .registering, room := r } with roomsLock := some id } := by
  cases h
  constructor <;> simp only [phase, change, Function.update_apply] at *
  case unborn | lock | usersLock | users => grind
  case made | mapped | named | peopled => grind

theorem Books.created (h : Books s) (hplace : (s.sessions id).place = .entering) (hlock : s.roomsLock = none)
    (hget : s.rooms.get? (s.sessions id).roomId = none) :
    Books { s.change id { s.sessions id with place := .registering, room := s.made } with
      rooms := s.rooms.set (s.sessions id).roomId s.made
      roomsLock := some id
      heap := Function.update s.heap s.made .new
      made := s.made + 1 } := by
  cases h
  constructor <;> simp only [phase, change, Function.update_apply, RoomState.new, Map.get?_set] at *
  case unborn | lock | usersLock => grind
  case users =>
    intro r id' u
    have hin := Phase.inRoom_of_registered (p := (s.sessions id').place.phase)
    by_cases hr : r = s.made
    · grind [Map.get?_empty]
    · grind
  case made | mapped | named | peopled => grind

theorem Books.refused (h : Books s) (hplace : (s.sessions id).place = .registering) (why : String) :
    Books (s.goes id (.refusing why)) := by
  cases h
  constructor <;> simp only [phase, goes, change, Function.update_apply] at *
  case unborn | lock | usersLock | users => grind
  case made | mapped | named | peopled => grind

theorem Books.registered (h : Books s) (hplace : (s.sessions id).place = .registering) :
    Books { (s.setRoom id { s.roomOf id with
      users := (s.roomOf id).users.set id ⟨(s.sessions id).nick, (s.sessions id).color⟩ }).goes id .welcoming with
        roomsLock := none } := by
  cases h
  constructor <;> simp only [phase, goes, change, setRoom, roomOf, Function.update_apply] at *
  case unborn | lock | usersLock => grind
  case users => grind [Map.get?_set]
  case made | mapped | named | peopled => grind

theorem Books.lockedUsers (h : Books s) (hplace : (s.sessions id).place = .welcoming)
    (hlock : (s.roomOf id).usersLock = none) :
    Books ((s.setRoom id { s.roomOf id with usersLock := some id }).goes id .takingHistory) := by
  cases h
  constructor <;> simp only [phase, goes, change, setRoom, roomOf, Function.update_apply] at *
  case unborn | lock | usersLock | users => grind
  case made | mapped | named | peopled => grind

theorem Books.tookWelcome (h : Books s) (hplace : (s.sessions id).place = .takingHistory) :
    Books (s.takeWelcome id) := by
  cases h
  constructor <;> simp only [phase, takeWelcome, change, setRoom, roomOf, Function.update_apply] at *
  case unborn | lock | usersLock | users => grind
  case made | mapped | named | peopled => grind

theorem Books.removed (h : Books s) (hplace : (s.sessions id).place.phase = .member) (tx : List Sent) :
    Books ((s.setRoom id { s.roomOf id with users := (s.roomOf id).users.remove id, tx := tx }).goes id .reaping) := by
  cases h
  constructor <;> simp only [phase, goes, change, setRoom, roomOf, Function.update_apply] at *
  case unborn | lock | usersLock => grind
  case users =>
    intro r id' u
    by_cases hid : id' = id
    · grind [Map.get?_remove]
    · grind [Map.get?_remove]
  case made | mapped | named | peopled => grind

theorem Books.lockedRooms (h : Books s) (hplace : (s.sessions id).place = .reaping) (hlock : s.roomsLock = none) :
    Books { s.goes id .reapingUsers with roomsLock := some id } := by
  cases h
  constructor <;> simp only [phase, goes, change, Function.update_apply] at *
  case unborn | lock | usersLock | users => grind
  case made | mapped | named | peopled => grind

def Cleared (s : ChatServer) (id : Nat) (rooms : Map Text Nat) : Prop :=
  rooms = s.rooms ∧ ((s.roomOf id).users.size ≠ 0 ∨
      s.rooms.get? (s.sessions id).roomId ≠ some (s.sessions id).room) ∨
    rooms = s.rooms.remove (s.sessions id).roomId ∧ (s.roomOf id).users.size = 0 ∧
      s.rooms.get? (s.sessions id).roomId = some (s.sessions id).room

theorem Books.someone (h : Books s) (hself : (s.phase id).registered = false) (hleft : (s.roomOf id).users.size ≠ 0) :
    ∃ id', id' ≠ id ∧ (s.phase id').inRoom ∧ (s.sessions id').room = (s.sessions id).room := by
  rw [Ne, Map.size_eq_zero_iff, not_forall] at hleft
  obtain ⟨id', hget⟩ := hleft
  obtain ⟨u, hu⟩ := Option.ne_none_iff_exists'.1 hget
  obtain ⟨hreg, hroom, -⟩ := (h.users _ id' u).1 hu
  refine ⟨id', ?_, Phase.inRoom_of_registered hreg, hroom⟩
  rintro rfl
  rw [hself] at hreg
  cases hreg

theorem Books.mapped_cleared (h : Books s) (hholds : (s.phase id).holdsRooms) {rooms : Map Text Nat}
    (hrooms : s.Cleared id rooms) {id' : Nat} (hne : id' ≠ id) (hkeeps : (s.phase id').keeps) :
    rooms.get? (s.sessions id').roomId = some (s.sessions id').room := by
  have hmapped := h.mapped id' hkeeps
  obtain ⟨rfl, -⟩ | ⟨rfl, hempty, hget⟩ := hrooms
  · exact hmapped
  · have hreg : (s.phase id').registered := by
      refine (Phase.keeps_cases hkeeps).resolve_right fun hheld => ?_
      have hlock := (h.lock id').2 hheld
      rw [(h.lock id).2 hholds] at hlock
      cases hlock
      exact hne rfl
    rw [Map.get?_remove, if_neg]
    · exact hmapped
    · intro hroomId
      rw [hroomId, hget] at hmapped
      have hmember := (h.users _ id' _).2 ⟨hreg, rfl, rfl⟩
      rw [← Option.some.inj hmapped] at hmember
      have hnone := Map.size_eq_zero_iff.1 hempty id'
      unfold roomOf at hnone
      rw [hmember] at hnone
      cases hnone

theorem Books.peopled_cleared (h : Books s) (hholds : (s.phase id).holdsRooms) {rooms : Map Text Nat}
    (hrooms : s.Cleared id rooms) {name : Text} {r : Nat} (hget : rooms.get? name = some r) :
    r < s.made ∧ ∃ id', id' ≠ id ∧ (s.phase id').inRoom ∧ (s.sessions id').room = r := by
  have hself := Phase.not_registered_of_holdsRooms hholds
  have hold : s.rooms.get? name = some r ∧ (rooms ≠ s.rooms → name ≠ (s.sessions id).roomId) := by
    obtain ⟨rfl, -⟩ | ⟨rfl, -, -⟩ := hrooms
    · exact ⟨hget, fun hne => absurd rfl hne⟩
    · obtain ⟨hne, hget⟩ := Map.get?_remove_some.1 hget
      exact ⟨hget, fun _ => hne⟩
  obtain ⟨hlt, id', hin, hroom⟩ := h.peopled name r hold.1
  refine ⟨hlt, ?_⟩
  by_cases hid : id' = id
  · subst hid
    have hname := h.named id' name hin (hroom ▸ hold.1)
    obtain ⟨-, hleft | hother⟩ | ⟨rfl, -, hmap⟩ := hrooms
    · obtain ⟨id'', hne, hin', hroom'⟩ := h.someone hself.1 hleft
      exact ⟨id'', hne, hin', hroom'.trans hroom⟩
    · rw [← hname, hroom] at hother
      exact absurd hold.1 hother
    · refine absurd hname (hold.2 fun heq => ?_)
      rw [← heq, Map.get?_remove, if_pos rfl] at hmap
      cases hmap
  · exact ⟨id', hid, hin, hroom⟩

theorem Books.cleared (h : Books s) {me : Session} (hgone : me.place = .gone) (hholds : (s.phase id).holdsRooms)
    {rooms : Map Text Nat} (hrooms : s.Cleared id rooms) :
    Books { s.change id me with roomsLock := none, rooms := rooms } := by
  have hlock := (h.lock id).2 hholds
  have hself := Phase.not_registered_of_holdsRooms hholds
  have hmapped (id' : Nat) (hne : id' ≠ id) (hkeeps : (s.phase id').keeps) := h.mapped_cleared hholds hrooms hne hkeeps
  have hpeopled (name : Text) (r : Nat) (hget : rooms.get? name = some r) := h.peopled_cleared hholds hrooms hget
  have hsub (name : Text) (r : Nat) (hget : rooms.get? name = some r) : s.rooms.get? name = some r := by
    obtain ⟨rfl, -⟩ | ⟨rfl, -, -⟩ := hrooms
    · exact hget
    · exact (Map.get?_remove_some.1 hget).2
  obtain ⟨hunborn, hlocks, husersLock, husers, hmade, -, hnamed, -⟩ := h
  clear hrooms
  constructor <;> simp only [phase, change, Function.update_apply] at *
  case unborn | lock | usersLock | users => grind
  case made | mapped | named | peopled => grind

theorem Books.same (h : Books s) {me : Session} (hme : SameWho (s.sessions id) me) {heap : Nat → RoomState}
    (hheap : ∀ r, (heap r).users = (s.heap r).users ∧ (heap r).usersLock = (s.heap r).usersLock) :
    Books { s.change id me with heap := heap } := by
  refine h.congr (fun id' => ?_) ⟨rfl, rfl, rfl, rfl⟩ hheap
  simp only [change, Function.update_apply]
  split
  · rename_i heq
    subst heq
    exact hme
  · exact .refl _

theorem Books.sameRooms (h : Books s) {me : Session} (hme : SameWho (s.sessions id) me) : Books (s.change id me) :=
  h.same hme fun _ => ⟨rfl, rfl⟩

theorem heap_setRoom {β : Type*} (f : RoomState → β) {room : RoomState} (hroom : f room = f (s.roomOf id)) (r : Nat) :
    f ((s.setRoom id room).heap r) = f (s.heap r) := by
  simp only [setRoom, Function.update_apply]
  split
  · rename_i heq
    rw [heq]
    exact hroom
  · rfl

theorem Books.sameUsers (h : Books s) {p : Place} (hp : p.phase = (s.sessions id).place.phase) {room : RoomState}
    (husers : room.users = (s.roomOf id).users) (hlock : room.usersLock = (s.roomOf id).usersLock) :
    Books ((s.setRoom id room).goes id p) := by
  have hme : SameWho (s.sessions id) { s.sessions id with place := p } := ⟨hp, rfl, rfl, rfl, rfl, rfl⟩
  exact h.same hme fun r => ⟨heap_setRoom RoomState.users husers r, heap_setRoom RoomState.usersLock hlock r⟩

theorem Books.did (h : Books s) (hdid : Did env s id i s') : Books s' := by
  have hgoes {p : Place} (hp : p.phase = (s.sessions id).place.phase) :
      SameWho (s.sessions id) { s.sessions id with place := p } := ⟨hp, rfl, rfl, rfl, rfl, rfl⟩
  cases hdid with
  | nothing => exact h
  | dropped me place gone => exact h.outside place (.inl (by rw [gone]; rfl))
  | asked nick roomId place => exact h.outside place (.inr rfl)
  | found r place lock get => exact h.found place lock get
  | made place lock get => exact h.created place lock get
  | refused why place => exact h.refused place why
  | registered place lock few nick => exact h.registered place
  | endedRefused why place lock =>
    have hholds : (s.phase id).holdsRooms := by
      unfold phase
      rw [place]
      rfl
    refine h.cleared rfl hholds ?_
    split
    · rename_i hempty
      refine .inr ⟨rfl, hempty, h.mapped id ?_⟩
      unfold phase
      rw [place]
      rfl
    · rename_i hleft
      exact .inl ⟨rfl, .inl hleft⟩
  | lockedUsers place lock => exact h.lockedUsers place lock
  | tookWelcome place => exact h.tookWelcome place
  | announced note count place => exact h.sameUsers (by rw [place]; rfl) rfl rfl
  | subscribed now rand input place =>
    refine h.sameRooms ⟨?_, rfl, rfl, rfl, rfl, rfl⟩
    rw [place]
    rfl
  | lagged input place lag => exact h.sameRooms ⟨rfl, rfl, rfl, rfl, rfl, rfl⟩
  | received item place get =>
    refine h.sameRooms ⟨?_, rfl, rfl, rfl, rfl, rfl⟩
    rw [place]
    rfl
  | forwarded item place =>
    refine h.sameRooms ⟨?_, rfl, rfl, rfl, rfl, rfl⟩
    rw [place]
    rfl
  | typed state frames rest tooLarge place => exact h.sameUsers (by rw [place]; rfl) rfl rfl
  | said v frames rest tooLarge place stamped => exact h.sameRooms (hgoes (by rw [place]; rfl))
  | pushed v rest tooLarge place =>
    exact h.sameUsers (by rw [place]; rfl) (RoomState.push_users ..) (RoomState.push_usersLock ..)
  | relayed now rand input k rest tooLarge place => exact h.sameUsers (by rw [place]; rfl) rfl rfl
  | removed notes place lock =>
    refine h.removed ?_ _
    obtain place | place := place <;> (rw [place]; rfl)
  | lockedRooms place lock => exact h.lockedRooms place lock
  | reaped place lock =>
    refine h.cleared rfl ?_ ?_
    · unfold phase
      rw [place]
      rfl
    · split
      · rename_i hempty
        exact .inr ⟨rfl, hempty.1, hempty.2⟩
      · rename_i hleft
        rw [not_and_or] at hleft
        exact .inl ⟨rfl, hleft⟩
  | went p member phase stage relays quiet => exact h.sameRooms (hgoes (phase.trans member.symm))

theorem Books.new : Books new := by
  constructor
  · exact fun _ _ => rfl
  · exact fun id => ⟨fun h => (nomatch h), fun h => (nomatch h)⟩
  · exact fun r id => ⟨fun h => (nomatch h), fun h => (nomatch h.1)⟩
  · exact fun r id u => ⟨fun h => (nomatch h), fun h => (nomatch h.1)⟩
  · exact fun id h => nomatch h
  · exact fun id h => nomatch h
  · exact fun id name h => nomatch h
  · exact fun name r h => nomatch h

theorem Books.step (h : Books s) (e : Event) : Books (s.step env e) := by
  cases e with
  | accept => exact h.accepted
  | act id i => exact h.did (did_act env s id i)

/-! ### Sessions that go on -/

theorem Did.session (hdid : Did env s id i s') : s'.nextId = s.nextId ∧ ∃ me,
    s'.sessions = Function.update s.sessions id me ∧
      (me = s.sessions id ∨
        (s.sessions id).place = .joining ∧ me.place ≠ .joining ∧ me.place.relays = none ∧ me.place.speaks = none ∧
          (me.place.phase.shown → me.auth = some env.joinVerifier ∧ me.color = nickColor env me.nick) ∨
        (s.sessions id).place.phase.shown ∧ me.place ≠ .joining ∧ me.nick = (s.sessions id).nick ∧
          me.color = (s.sessions id).color ∧ me.auth = (s.sessions id).auth) := by
  cases hdid with
  | nothing => exact ⟨rfl, _, (Function.update_eq_self id s.sessions).symm, .inl rfl⟩
  | dropped me place gone =>
    refine ⟨rfl, me, rfl, .inr (.inl ⟨place, ?_⟩)⟩
    simp [gone, Place.relays, Place.speaks, Place.phase, Phase.shown]
  | asked nick roomId place => exact ⟨rfl, _, rfl, .inr (.inl ⟨place, by simp, rfl, rfl, fun _ => ⟨rfl, rfl⟩⟩)⟩
  | went p member phase stage relays quiet =>
    refine ⟨rfl, _, rfl, .inr (.inr ⟨?_, ?_, rfl, rfl, rfl⟩)⟩
    · rw [member]
      rfl
    · rintro hjoining
      change p = .joining at hjoining
      rw [hjoining] at phase
      cases phase
  | removed notes place lock =>
    refine ⟨rfl, _, rfl, .inr (.inr ⟨?_, by simp, rfl, rfl, rfl⟩)⟩
    obtain place | place := place <;> (rw [place]; rfl)
  | lagged input place lag => exact ⟨rfl, _, rfl, .inr (.inr ⟨by rw [place]; rfl, by simp [place], rfl, rfl, rfl⟩)⟩
  | _ =>
    refine ⟨rfl, _, rfl, .inr (.inr ⟨?_, by simp, rfl, rfl, rfl⟩)⟩
    simp [*, Place.phase, Phase.shown]

/-- The message bears the names of a session that has joined. -/
structure Bears (s : ChatServer) (k : Kept) : Prop where
  born : k.sender < s.nextId
  joined : (s.sessions k.sender).place ≠ .joining
  stamped : Stamped (s.sessions k.sender) k.sender k.msg

theorem Did.sender (hdid : Did env s id i s') {sender : Nat} (hjoined : (s.sessions sender).place ≠ .joining) :
    (s'.sessions sender).place ≠ .joining ∧ (s'.sessions sender).nick = (s.sessions sender).nick ∧
      (s'.sessions sender).color = (s.sessions sender).color := by
  obtain ⟨-, me, hme, hcases⟩ := hdid.session
  rw [hme]
  by_cases hid : sender = id
  · subst hid
    rw [Function.update_self]
    obtain rfl | ⟨hjoining, -⟩ | ⟨-, hplace, hnick, hcolor, -⟩ := hcases
    · exact ⟨hjoined, rfl, rfl⟩
    · exact absurd hjoining hjoined
    · exact ⟨hplace, hnick, hcolor⟩
  · rw [Function.update_of_ne hid]
    exact ⟨hjoined, rfl, rfl⟩

theorem Bears.did {k : Kept} (h : s.Bears k) (hdid : Did env s id i s') : s'.Bears k := by
  obtain ⟨hplace, hnick, hcolor⟩ := hdid.sender h.joined
  refine ⟨?_, hplace, ?_, ?_, h.stamped.connId⟩
  · rw [hdid.session.1]
    exact h.born
  · rw [hnick]
    exact h.stamped.nick
  · rw [hcolor]
    exact h.stamped.color

def BearsItem (s : ChatServer) : Sent → Prop
  | .msg k => s.Bears k
  | .typing sender v => sender < s.nextId ∧ (s.sessions sender).place ≠ .joining ∧
    v.get "nick" = some (.string (s.sessions sender).nick) ∧ v.get "from" = some (.nat sender)
  | .notice _ => True

theorem BearsItem.did {item : Sent} (h : s.BearsItem item) (hdid : Did env s id i s') : s'.BearsItem item := by
  cases item with
  | msg k => exact Bears.did h hdid
  | typing sender v =>
    obtain ⟨hborn, hjoined, hnick, hfrom⟩ := h
    obtain ⟨hplace, hsame, -⟩ := hdid.sender hjoined
    refine ⟨?_, hplace, ?_, hfrom⟩
    · rw [hdid.session.1]
      exact hborn
    · rw [hsame]
      exact hnick
  | notice v => trivial

theorem mem_push {r : RoomState} {k k' : Kept} (h : k' ∈ (r.push k).history) : k' ∈ r.history ∨ k' = k := by
  unfold RoomState.push at h
  dsimp only at h
  generalize (r.history ++ [k]).length - HISTORY_LIMIT = n at h
  have hmem := List.mem_of_mem_drop h
  rwa [List.mem_append, List.mem_singleton] at hmem

theorem Did.history (hdid : Did env s id i s') (r : Nat) {k : Kept} (hk : k ∈ (s'.heap r).history) :
    k ∈ (s.heap r).history ∨ ∃ v, (s.sessions id).place.speaks = some v ∧ k.sender = id ∧ k.msg = v := by
  have hsame {room : RoomState} (hk : k ∈ ((s.setRoom id room).heap r).history)
      (hroom : room.history = (s.roomOf id).history) : k ∈ (s.heap r).history := by
    rwa [heap_setRoom RoomState.history hroom] at hk
  cases hdid with
  | made place lock get =>
    simp only [Function.update_apply] at hk
    split at hk
    · exact absurd hk List.not_mem_nil
    · exact .inl hk
  | pushed v rest tooLarge place =>
    simp only [push, goes, change, setRoom, Function.update_apply] at hk
    split at hk
    · rename_i heq
      obtain hk | rfl := mem_push hk
      · rw [heq]
        exact .inl hk
      · exact .inr ⟨v, by rw [place]; rfl, rfl, rfl⟩
    · exact .inl hk
  | registered place lock few nick => exact .inl (hsame hk rfl)
  | lockedUsers place lock => exact .inl (hsame hk rfl)
  | tookWelcome place => exact .inl (hsame hk rfl)
  | announced note count place => exact .inl (hsame hk rfl)
  | typed state frames rest tooLarge place => exact .inl (hsame hk rfl)
  | relayed now rand input k' rest tooLarge place => exact .inl (hsame hk rfl)
  | removed notes place lock => exact .inl (hsame hk rfl)
  | _ => exact .inl hk

theorem Did.tx (hdid : Did env s id i s') (r : Nat) {item : Sent} (hitem : item ∈ (s'.heap r).tx) :
    item ∈ (s.heap r).tx ∨ (∃ k, item = .msg k ∧ (s.sessions id).place.relays = some k) ∨
      (∃ state, item = .typing id (typingNote id (s.sessions id).nick state) ∧ (s.sessions id).place.phase = .member) ∨
      ∃ v, item = .notice v := by
  have hsame {room : RoomState} (hk : item ∈ ((s.setRoom id room).heap r).tx) (hroom : room.tx = (s.roomOf id).tx) :
      item ∈ (s.heap r).tx := by
    rwa [heap_setRoom RoomState.tx hroom] at hk
  -- the room's channel has items more
  have hmore {room : RoomState} {items : List Sent} (hk : item ∈ ((s.setRoom id room).heap r).tx)
      (hroom : room.tx = (s.roomOf id).tx ++ items) : item ∈ (s.heap r).tx ∨ item ∈ items := by
    simp only [setRoom, Function.update_apply] at hk
    split at hk
    · rename_i heq
      rwa [hroom, List.mem_append, roomOf, ← heq] at hk
    · exact .inl hk
  cases hdid with
  | made place lock get =>
    simp only [Function.update_apply] at hitem
    split at hitem
    · exact absurd hitem List.not_mem_nil
    · exact .inl hitem
  | announced note count place =>
    refine (hmore hitem rfl).imp_right fun hmem => ?_
    exact .inr (.inr ⟨note, List.mem_singleton.1 hmem⟩)
  | typed state frames rest tooLarge place =>
    refine (hmore hitem rfl).imp_right fun hmem => ?_
    exact .inr (.inl ⟨state, List.mem_singleton.1 hmem, by rw [place]; rfl⟩)
  | relayed now rand input k rest tooLarge place =>
    refine (hmore hitem rfl).imp_right fun hmem => ?_
    exact .inl ⟨k, List.mem_singleton.1 hmem, by rw [place]; rfl⟩
  | removed notes place lock =>
    refine (hmore hitem rfl).imp_right fun hmem => ?_
    obtain ⟨v, -, rfl⟩ := List.mem_map.1 hmem
    exact .inr (.inr ⟨v, rfl⟩)
  | registered place lock few nick => exact .inl (hsame hitem rfl)
  | lockedUsers place lock => exact .inl (hsame hitem rfl)
  | tookWelcome place => exact .inl (hsame hitem rfl)
  | pushed v rest tooLarge place => exact .inl (hsame hitem (RoomState.push_tx ..))
  | _ => exact .inl hitem

/-! ### Members of a room -/

/-- No two members have one name, and neither members nor messages are too many. -/
structure RoomOk (env : Env) (room : RoomState) : Prop where
  nicks : ∀ id id' u u', room.users.get? id = some u → room.users.get? id' = some u' →
    nickKey env u.nick = nickKey env u'.nick → id = id'
  few : room.users.size ≤ MAX_CLIENTS
  short : room.history.length ≤ HISTORY_LIMIT

theorem RoomOk.congr {room room' : RoomState} (h : RoomOk env room) (husers : room'.users = room.users)
    (hhistory : room'.history.length ≤ HISTORY_LIMIT) : RoomOk env room' := by
  refine ⟨?_, ?_, hhistory⟩
  · rw [husers]
    exact h.nicks
  · rw [husers]
    exact h.few

theorem RoomOk.register {room : RoomState} (h : RoomOk env room) {u : UserInfo} (hfew : room.users.size < MAX_CLIENTS)
    (hnick : ∀ e ∈ room.users.entries, nickKey env e.2.nick ≠ nickKey env u.nick) :
    RoomOk env { room with users := room.users.set id u } := by
  refine ⟨?_, ?_, h.short⟩
  · intro a b ua ub ha hb hkey
    rw [Map.get?_set] at ha hb
    split at ha
    · rename_i hself
      split at hb
      · rename_i hself'
        rw [hself, hself']
      · cases ha
        exact absurd hkey.symm (hnick (b, ub) (Map.mem_entries.2 hb))
    · split at hb
      · cases hb
        exact absurd hkey (hnick (a, ua) (Map.mem_entries.2 ha))
      · exact h.nicks a b ua ub ha hb hkey
  · exact (Map.size_set_le ..).trans hfew

theorem RoomOk.remove {room : RoomState} (h : RoomOk env room) (id : Nat) : RoomOk env (room.remove id) := by
  refine ⟨?_, ?_, h.short⟩
  · intro a b ua ub ha hb
    exact h.nicks a b ua ub (Map.get?_remove_some.1 ha).2 (Map.get?_remove_some.1 hb).2
  · exact (List.length_filter_le ..).trans h.few

theorem RoomOk.did (hdid : Did env s id i s') (h : ∀ r, RoomOk env (s.heap r)) (r : Nat) : RoomOk env (s'.heap r) := by
  have hset {room : RoomState} (hroom : RoomOk env room) : RoomOk env ((s.setRoom id room).heap r) := by
    simp only [setRoom, Function.update_apply]
    split
    · exact hroom
    · exact h r
  have hown := h (s.sessions id).room
  cases hdid with
  | made place lock get =>
    simp only [Function.update_apply]
    split
    · exact ⟨fun _ _ _ _ hget => (nomatch hget), Nat.zero_le _, Nat.zero_le _⟩
    · exact h r
  | registered place lock few nick => exact hset (hown.register few nick)
  | removed notes place lock =>
    have hremove := hown.remove id
    exact hset ⟨hremove.nicks, hremove.few, hremove.short⟩
  | pushed v rest tooLarge place =>
    refine hset (hown.congr (RoomState.push_users ..) ?_)
    unfold RoomState.push
    rw [List.length_drop]
    omega
  | lockedUsers place lock => exact hset (hown.congr rfl hown.short)
  | tookWelcome place => exact hset (hown.congr rfl hown.short)
  | announced note count place => exact hset (hown.congr rfl hown.short)
  | typed state frames rest tooLarge place => exact hset (hown.congr rfl hown.short)
  | relayed now rand input k rest tooLarge place => exact hset (hown.congr rfl hown.short)
  | _ => exact h r

/-! ### What holds in every state -/

theorem speaks_eq_some {p : Place} {v : Value} (h : p.speaks = some v) : ∃ rest tooLarge, p = .pushing v rest tooLarge := by
  cases p <;> simp_all [Place.speaks]

theorem Did.speaks (hdid : Did env s id i s') {v : Value} (h : (s'.sessions id).place.speaks = some v) :
    (s.sessions id).place.speaks = some v ∨
      Stamped (s.sessions id) id v ∧ (s.sessions id).place.phase = .member := by
  cases hdid with
  | nothing => exact .inl h
  | said v' frames rest tooLarge place stamped =>
    simp only [goes, change, Function.update_self, Place.speaks, Option.some.injEq] at h
    subst h
    exact .inr ⟨stamped, by rw [place]; rfl⟩
  | went p member phase stage relays quiet =>
    simp only [goes, change, Function.update_self, quiet.1, reduceCtorEq] at h
  | dropped me place gone => simp [change, gone, Place.speaks] at h
  | lagged input place lag => simp [change, place, Place.speaks] at h
  | _ => simp [goes, change, takeWelcome, subscribe, ChatServer.forwarded, push, relay, Place.speaks] at h

theorem Did.relays (hdid : Did env s id i s') {k : Kept} (h : (s'.sessions id).place.relays = some k) :
    (s.sessions id).place.relays = some k ∨ k.sender = id ∧ (s.sessions id).place.speaks = some k.msg := by
  cases hdid with
  | nothing => exact .inl h
  | pushed v rest tooLarge place =>
    simp only [push, goes, change, Function.update_self, Place.relays, Option.some.injEq] at h
    subst h
    exact .inr ⟨rfl, by rw [place]; rfl⟩
  | went p member phase stage relays quiet =>
    simp only [goes, change, Function.update_self, quiet.2.1, reduceCtorEq] at h
  | dropped me place gone => simp [change, gone, Place.relays] at h
  | lagged input place lag => simp [change, place, Place.relays] at h
  | _ => simp [goes, change, takeWelcome, subscribe, ChatServer.forwarded, relay, Place.relays] at h

structure Sound (env : Env) (s : ChatServer) : Prop where
  books : Books s
  shown : ∀ id, (s.phase id).shown →
    (s.sessions id).auth = some env.joinVerifier ∧ (s.sessions id).color = nickColor env (s.sessions id).nick
  rooms : ∀ r, RoomOk env (s.heap r)
  history : ∀ r, ∀ k ∈ (s.heap r).history, s.Bears k
  tx : ∀ r, ∀ item ∈ (s.heap r).tx, s.BearsItem item
  speaks : ∀ id v, (s.sessions id).place.speaks = some v → Stamped (s.sessions id) id v
  relays : ∀ id k, (s.sessions id).place.relays = some k → s.Bears k

theorem Sound.new : Sound env new := by
  refine ⟨.new, fun id h => ?_, fun r => ?_, fun r k h => ?_, fun r item h => ?_, fun id v h => ?_, fun id k h => ?_⟩
  · cases h
  · exact ⟨fun _ _ _ _ hget => (nomatch hget), Nat.zero_le _, Nat.zero_le _⟩
  · cases h
  · cases h
  · cases h
  · cases h

theorem Books.born (h : Books s) (hphase : s.phase id ≠ .gone) : id < s.nextId := by
  by_contra hle
  exact hphase (h.unborn id (not_lt.1 hle))

theorem Sound.did (h : Sound env s) (hdid : Did env s id i s') : Sound env s' := by
  have hother {id' : Nat} (hne : id' ≠ id) : s'.sessions id' = s.sessions id' := by
    obtain ⟨-, me, hme, -⟩ := hdid.session
    rw [hme, Function.update_of_ne hne]
  -- what it speaks becomes a message that bears its names
  have hspoken {k : Kept} (hsender : k.sender = id) (hspeaks : (s.sessions id).place.speaks = some k.msg) : s.Bears k := by
    obtain ⟨rest, tooLarge, hplace⟩ := speaks_eq_some hspeaks
    refine ⟨?_, ?_, ?_⟩
    · rw [hsender]
      refine h.books.born ?_
      unfold phase
      rw [hplace]
      nofun
    · rw [hsender, hplace]
      nofun
    · rw [hsender]
      exact h.speaks id k.msg hspeaks
  refine ⟨h.books.did hdid, ?_, RoomOk.did hdid h.rooms, ?_, ?_, ?_, ?_⟩
  · intro id' hshown
    by_cases hid : id' = id
    · subst hid
      obtain ⟨-, me, hme, hcases⟩ := hdid.session
      unfold phase at hshown
      rw [hme, Function.update_self] at hshown ⊢
      obtain rfl | ⟨-, -, -, -, hasked⟩ | ⟨hshown', -, hnick, hcolor, hauth⟩ := hcases
      · exact h.shown id' hshown
      · exact hasked hshown
      · rw [hnick, hcolor, hauth]
        exact h.shown id' hshown'
    · unfold phase at hshown
      rw [hother hid] at hshown ⊢
      exact h.shown id' hshown
  · intro r k hk
    obtain hold | ⟨v, hspeaks, hsender, rfl⟩ := hdid.history r hk
    · exact (h.history r k hold).did hdid
    · exact (hspoken hsender hspeaks).did hdid
  · intro r item hitem
    obtain hold | ⟨k, rfl, hrelays⟩ | ⟨state, rfl, hmember⟩ | ⟨v, rfl⟩ := hdid.tx r hitem
    · exact (h.tx r item hold).did hdid
    · exact (h.relays id k hrelays).did hdid
    · refine BearsItem.did (s := s) ⟨h.books.born ?_, ?_, rfl, rfl⟩ hdid
      · unfold phase
        rw [hmember]
        nofun
      · intro hjoining
        rw [hjoining] at hmember
        cases hmember
    · trivial
  · intro id' v hspeaks
    by_cases hid : id' = id
    · subst hid
      have hstamped : Stamped (s.sessions id') id' v ∧ (s.sessions id').place ≠ .joining := by
        obtain hold | ⟨hstamped, hmember⟩ := hdid.speaks hspeaks
        · obtain ⟨rest, tooLarge, hplace⟩ := speaks_eq_some hold
          exact ⟨h.speaks id' v hold, by rw [hplace]; nofun⟩
        · refine ⟨hstamped, fun hjoining => ?_⟩
          rw [hjoining] at hmember
          cases hmember
      obtain ⟨-, hnick, hcolor⟩ := hdid.sender hstamped.2
      refine ⟨?_, ?_, hstamped.1.connId⟩
      · rw [hnick]
        exact hstamped.1.nick
      · rw [hcolor]
        exact hstamped.1.color
    · rw [hother hid] at hspeaks ⊢
      exact h.speaks id' v hspeaks
  · intro id' k hrelays
    by_cases hid : id' = id
    · subst hid
      obtain hold | ⟨hsender, hspeaks⟩ := hdid.relays hrelays
      · exact (h.relays id' k hold).did hdid
      · exact (hspoken hsender hspeaks).did hdid
    · rw [hother hid] at hrelays
      exact (h.relays id' k hrelays).did hdid

theorem Sound.accepted (h : Sound env s) : Sound env (s.step env .accept) := by
  have hgone := h.books.unborn s.nextId (Nat.le_refl _)
  have hkept {k : Kept} (hk : s.Bears k) : (s.step env .accept).Bears k := by
    have hne : k.sender ≠ s.nextId := Nat.ne_of_lt hk.born
    refine ⟨Nat.lt_succ_of_lt hk.born, ?_, ?_⟩
    · simp only [step, Function.update_of_ne hne]
      exact hk.joined
    · simp only [step, Function.update_of_ne hne]
      exact hk.stamped
  refine ⟨h.books.accepted, ?_, h.rooms, fun r k hk => hkept (h.history r k hk), ?_, ?_, ?_⟩
  · intro id hshown
    unfold phase at hshown
    simp only [step, Function.update_apply] at hshown ⊢
    split at hshown
    · cases hshown
    · rename_i hne
      rw [if_neg hne]
      exact h.shown id hshown
  · intro r item hitem
    have hbears := h.tx r item hitem
    cases item with
    | msg k => exact hkept hbears
    | typing sender v =>
      have hne : sender ≠ s.nextId := Nat.ne_of_lt hbears.1
      refine ⟨Nat.lt_succ_of_lt hbears.1, ?_, ?_, hbears.2.2.2⟩
      · simp only [step, Function.update_of_ne hne]
        exact hbears.2.1
      · simp only [step, Function.update_of_ne hne]
        exact hbears.2.2.1
    | notice v => trivial
  · intro id v hspeaks
    simp only [step, Function.update_apply] at hspeaks ⊢
    split at hspeaks
    · cases hspeaks
    · rename_i hne
      rw [if_neg hne]
      exact h.speaks id v hspeaks
  · intro id k hrelays
    simp only [step, Function.update_apply] at hrelays
    split at hrelays
    · cases hrelays
    · exact hkept (h.relays id k hrelays)

theorem Sound.step (h : Sound env s) (e : Event) : Sound env (s.step env e) := by
  cases e with
  | accept => exact h.accepted
  | act id i => exact h.did (did_act env s id i)

/-- What the rooms of a chat server are to be. -/
structure InOrder (env : Env) (s : ChatServer) : Prop where
  verified : ∀ r id u, (s.heap r).users.get? id = some u → (s.sessions id).auth = some env.joinVerifier
  /-- A member's room is the one the map holds under its room's name. -/
  mapped : ∀ r id u, (s.heap r).users.get? id = some u → s.rooms.get? (s.sessions id).roomId = some r
  peopled : (∀ id, (s.sessions id).place.underWay = false) →
    ∀ name r, s.rooms.get? name = some r → (s.heap r).users.size ≠ 0
  nicks : ∀ r id id' u u', (s.heap r).users.get? id = some u → (s.heap r).users.get? id' = some u' →
    nickKey env u.nick = nickKey env u'.nick → id = id'
  few : ∀ r, (s.heap r).users.size ≤ MAX_CLIENTS ∧ (s.heap r).history.length ≤ HISTORY_LIMIT
  /-- A member is known in its room by its own name and colour. -/
  known : ∀ r id u, (s.heap r).users.get? id = some u → u = ⟨(s.sessions id).nick, (s.sessions id).color⟩
  kept : ∀ r, ∀ k ∈ (s.heap r).history, Stamped (s.sessions k.sender) k.sender k.msg
  relayed : ∀ r k, .msg k ∈ (s.heap r).tx → Stamped (s.sessions k.sender) k.sender k.msg
  typing : ∀ r sender v, .typing sender v ∈ (s.heap r).tx →
    v.get "nick" = some (.string (s.sessions sender).nick) ∧ v.get "from" = some (.nat sender)

theorem Sound.inOrder (h : Sound env s) : InOrder env s := by
  have husers {r id : Nat} {u : UserInfo} (hget : (s.heap r).users.get? id = some u) := (h.books.users r id u).1 hget
  refine ⟨?_, ?_, ?_, fun r => (h.rooms r).nicks, fun r => ⟨(h.rooms r).few, (h.rooms r).short⟩, ?_,
    fun r k hk => (h.history r k hk).stamped, fun r k hk => (h.tx r _ hk).stamped, ?_⟩
  · intro r id u hget
    refine (h.shown id ?_).1
    have hreg := (husers hget).1
    revert hreg
    cases s.phase id <;> simp [Phase.registered, Phase.shown]
  · intro r id u hget
    obtain ⟨hreg, hroom, -⟩ := husers hget
    rw [← hroom]
    refine h.books.mapped id ?_
    revert hreg
    cases s.phase id <;> simp [Phase.registered, Phase.keeps]
  · intro hquiet name r hget
    obtain ⟨-, id, hin, hroom⟩ := h.books.peopled name r hget
    -- a session in a room is a member of it, when it is neither about to join nor about to leave
    have hreg : (s.phase id).registered := by
      have hrest := hquiet id
      revert hrest hin
      unfold phase
      cases (s.sessions id).place <;> simp [Place.phase, Place.underWay, Phase.inRoom, Phase.registered]
    have hmember := (h.books.users r id _).2 ⟨hreg, hroom, rfl⟩
    intro hempty
    rw [Map.size_eq_zero_iff.1 hempty id] at hmember
    cases hmember
  · intro r id u hget
    exact (husers hget).2.2
  · intro r sender v hmem
    exact (h.tx r _ hmem).2.2

end ChatServer

/-- Whatever the sessions do, the rooms of a chat server are in order. -/
theorem rooms_run (env : Env) (events : List Event) :
    ChatServer.InOrder env (run (ChatServer.step env) .new events) := by
  have hsound : ChatServer.Sound env (run (ChatServer.step env) .new events) :=
    run_always (P := ChatServer.Sound env) (fun _ e h => h.step e) .new events
  exact hsound.inOrder

/-! ### A typing note has no colour -/

namespace Sample

def verifier : Text := List.replicate 64 '1'

def joinText (nick : String) : Text :=
  "\x7b\"type\":\"join\",\"nick\":\"".toList ++ nick.toList ++ "\",\"auth\":\"".toList ++ verifier ++ "\"\x7d".toList

def typingText : Text := "\x7b\"type\":\"typing\",\"state\":true\x7d".toList

def helloText : Text := "\x7b\"type\":\"msg\",\"text\":\"hello\"\x7d".toList

def joinValue (nick : String) : Value :=
  .object [("type".toList, .text "join"), ("nick".toList, .text nick), ("auth".toList, .string verifier)]

/-- A room whose clients write four texts. -/
def env : Env where
  fromStr text :=
    if text = joinText "ana" then some (joinValue "ana")
    else if text = joinText "bob" then some (joinValue "bob")
    else if text = typingText then some (.object [("type".toList, .text "typing"), ("state".toList, .bool true)])
    else if text = helloText then some (.object [("type".toList, .text "msg"), ("text".toList, .text "hello")])
    else none
  nfkc text := text
  toLowercase text := text
  blake3 _ := 0
  joinVerifier := List.replicate 32 0x11

def go (id : Nat) : Event := .act id (.go 0 0)

def join (id : Nat) (nick : String) : List Event :=
  [.accept, .act id (.frame 1 (encode (joinText nick))), go id, go id, go id, go id]

def subscribe (id : Nat) : List Event := [.act id (.sent true), go id, go id, go id]

def writes (id : Nat) (text : Text) : Event := .act id (.read [(1, encode text)] false)

def colorless : Sent → Bool
  | .typing _ v => (v.get "color").isNone
  | _ => false

end Sample

/-- What a member types is relayed without its colour. -/
theorem typing_without_color : ¬ ∀ (env : Env) (events : List Event) (r sender : Nat) (v : Value),
    .typing sender v ∈ ((run (ChatServer.step env) .new events).heap r).tx →
      Stamped ((run (ChatServer.step env) .new events).sessions sender) sender v := by
  intro h
  let anaTypes := Sample.join 1 "ana" ++ Sample.subscribe 1 ++ [Sample.writes 1 Sample.typingText, Sample.go 1]
  have hsent : (((run (ChatServer.step Sample.env) .new anaTypes).heap 0).tx[1]?).any Sample.colorless = true := by
    decide +kernel
  obtain ⟨item, hitem, hcolorless⟩ := (Option.any_eq_true _ _).1 hsent
  cases item with
  | typing sender v =>
    have hcolor := (h Sample.env anaTypes 0 sender v (List.mem_of_getElem? hitem)).color
    have hnone : (v.get "color").isNone = true := hcolorless
    rw [hcolor] at hnone
    cases hnone
  | msg k => cases hcolorless
  | notice v => cases hcolorless

end HidraNet.Hidrachat
