import HidraNet.Hidramail.Deliveries

/-!
# Visitors of a hidden service

The mail server run as a hidden service: the service's loop hands what a client sends to a connection of its own to the
server, from this machine, and sends the answer back.  The server takes the owner from the request's `Host` and
`Origin`, which the client writes.

While no request is one that it takes for the owner's, and a mail delivered has a name of its own, nothing is sent and
the tree changes by new mails alone; and a client is answered the same by any two mailboxes that differ in their mails
and secrets only (`visitors_run`).  A request without a `Host` is the owner's: it reads the inbox, and deletes from it
(`visitor_reads`).
-/

namespace HidraNet.Hidramail

open FileTrees Maps Runs Utf8

variable {δ : Type*} [DecidableEq δ]

/-! ### The service -/

/-- A connection of the service to the server. -/
structure Conn where
  flight : List UInt8
  buf : List UInt8
  ended : Bool
  /-- What the service has not read of the answer, once the request was handled. -/
  answer : Option (List UInt8)
deriving DecidableEq

structure Service (δ : Type*) [DecidableEq δ] where
  tree : FileTree δ
  session : Bool
  conns : List Conn
  localConn : Option Nat
  /-- What was sent to clients, the ends of streams as `none`. -/
  toClient : List (Option (List UInt8))
  outgoing : List (Text × Text)

inductive Event where
  /-- A client's hello, and whether it could be answered. -/
  | hello (answered : Bool)
  /-- A client's message, opened if it can be; whether the server could be connected to, and how much was written where
  the write failed. -/
  | data (opened : Option (List UInt8)) (connected : Bool) (failed : Option Nat)
  /-- The server reads from a connection, so much at most. -/
  | reads (c n : Nat) (w : World)
  | ends (c : Nat) (w : World)
  /-- The service reads from its connection, so much at most. -/
  | fromServer (n : Nat)
  | serverClosed (failed : Bool)

namespace Conn

def read (conn : Conn) (n : Nat) : Conn :=
  let k := min n (bufferSize - conn.buf.length)
  { conn with buf := conn.buf ++ conn.flight.take k, flight := conn.flight.drop k }

end Conn

namespace Service

variable (st : Service δ)

def start (t : FileTree δ) : Service δ := ⟨t, false, [], none, [], []⟩

/-- `local = None`. -/
def letGo : Service δ :=
  match st.localConn with
  | none => st
  | some c => { st with localConn := none, conns := st.conns.modify c fun conn => { conn with ended := true } }

/-- The request that a step has the server handle, with the connection. -/
def asked : Event → Option (Nat × List UInt8 × World)
  | .reads c n w =>
    match st.conns[c]? with
    | none => none
    | some conn =>
      if conn.answer = none ∧ (conn.read n).flight ≠ conn.flight ∧ complete (conn.read n).buf then
        some (c, (conn.read n).buf, w)
      else none
  | .ends c w =>
    match st.conns[c]? with
    | none => none
    | some conn =>
      if conn.answer = none ∧ conn.ended ∧ conn.flight = [] ∧ conn.buf ≠ [] then some (c, conn.buf, w) else none
  | _ => none

def connect (connected : Bool) : Option (Nat × List Conn) :=
  match st.localConn with
  | some c => some (c, st.conns)
  | none => if connected then some (st.conns.length, st.conns ++ [⟨[], [], false, none⟩]) else none

/-- What a step does where no request is handled. -/
def move : Event → Service δ
  | .hello answered => if answered then { st.letGo with session := true } else st.letGo
  | .data opened connected failed =>
    if st.session then
      match opened with
      | none => { st.letGo with session := false }
      | some bytes =>
        match st.connect connected with
        | none => st
        | some (c, conns) =>
          let conns := conns.modify c fun conn =>
            { conn with flight := conn.flight ++ bytes.take (failed.getD bytes.length) }
          let st := { st with localConn := some c, conns := conns }
          if failed.isSome then st.letGo else st
    else st
  | .reads c n _ =>
    { st with conns := st.conns.modify c fun conn => if conn.answer = none then conn.read n else conn }
  | .ends _ _ => st
  | .fromServer n =>
    match st.localConn.bind fun c => st.conns[c]?.bind Conn.answer with
    | none => st
    | some answer =>
      if answer = [] ∨ n = 0 then st
      else
        { st with
          conns := st.conns.modify (st.localConn.getD 0) fun conn => { conn with answer := some (answer.drop n) }
          toClient := if st.session then st.toClient ++ [some (answer.take n)] else st.toClient }
  | .serverClosed failed =>
    if st.localConn.isSome ∧ (failed ∨ (st.localConn.bind fun c => st.conns[c]?.bind Conn.answer) = some []) then
      { st.letGo with toClient := if st.session then st.toClient ++ [none] else st.toClient }
    else st

end Service

section

variable (pk : Packages) (s : ServerState δ) (front : Frontend)

namespace Service

def step (st : Service δ) (e : Event) : Service δ :=
  match st.asked e with
  | none => st.move e
  | some (c, raw, w) =>
    let o := handleHttp pk s front st.tree (lossy raw) w
    { st with
      tree := o.tree
      conns := st.conns.modify c fun conn => { conn with answer := some (encode (o.answer.getD [])) }
      outgoing := st.outgoing ++ o.outgoing }

end Service

def OwnersRoute (method path : Text) : Prop :=
  method = "GET".toList ∧
      (path = "/api/inbox".toList ∨ path = "/api/sent".toList ∨ mailRoute.isPrefixOf path = true) ∨
    method = "POST".toList ∧ path = "/api/send".toList ∨ method = "DELETE".toList ∧ mailRoute.isPrefixOf path = true

instance (method path : Text) : Decidable (OwnersRoute method path) := by
  unfold OwnersRoute
  infer_instance

/-- A request that is not taken for the owner's, and if it delivers a mail, then under a name of its own. -/
def Visits (t : FileTree δ) (raw : Text) (w : World) : Prop :=
  match parseRequestLine raw with
  | none => True
  | some (method, path) =>
    ¬ (fromThisMachine raw = true ∧ OwnersRoute method path) ∧
      (method = "POST".toList ∧ path = "/api/deliver".toList → Named pk s t (.deliver (extractBody raw), w))

instance (t : FileTree δ) (raw : Text) (w : World) : Decidable (Visits pk s t raw w) := by
  unfold Visits
  split <;> infer_instance

def Visiting (st : Service δ) (e : Event) : Prop :=
  match st.asked e with
  | none => True
  | some (_, raw, w) => Visits pk s st.tree (lossy raw) w

instance (st : Service δ) (e : Event) : Decidable (Visiting pk s st e) := by
  unfold Visiting
  split <;> infer_instance

def OneMail (t t' : FileTree δ) (raw : Text) : Prop :=
  t' = t ∨ parseRequestLine raw = some ("POST".toList, "/api/deliver".toList) ∧
    ∃ id bytes, t'.dirs = t.dirs ∧ Created t t' (s.store.inboxDir, mailFile id) bytes

def Delivers (st : Service δ) (e : Event) : Prop :=
  match st.asked e with
  | none => (st.step pk s front e).tree = st.tree
  | some (_, raw, _) => OneMail s st.tree (st.step pk s front e).tree (lossy raw)

end

def ServerState.withSecrets (s : ServerState δ) (secret signing : Key) : ServerState δ :=
  { s with mailKeys := { s.mailKeys with secretBytes := secret }, signingKey := signing }

/-- Two trees that differ in the files of the two folders only. -/
structure Alike (st : MailStore δ) (t t' : FileTree δ) : Prop where
  dirs : t.dirs = t'.dirs
  outside : ∀ p, p.1 ≠ st.inboxDir → p.1 ≠ st.sentDir → t.files.get? p = t'.files.get? p

variable {pk : Packages} {s : ServerState δ} {front : Frontend} {t t' : FileTree δ} {raw body method path : Text}
  {w : World} {secret signing : Key}

/-! ### A visitor's request -/

theorem Alike.trans {t'' : FileTree δ} {st : MailStore δ} (h : Alike st t t') (h' : Alike st t' t'') : Alike st t t'' :=
  ⟨h.dirs.trans h'.dirs, fun p hi hs => (h.outside p hi hs).trans (h'.outside p hi hs)⟩

theorem Alike.symm {st : MailStore δ} (h : Alike st t t') : Alike st t' t :=
  ⟨h.dirs.symm, fun p hi hs => (h.outside p hi hs).symm⟩

private theorem alike_storeIncoming {env : MailEnvelope} (st : MailStore δ) (t : FileTree δ) (disk : Disk)
    (hslash : '/' ∉ env.id) : Alike st t (st.storeIncoming t env disk).1 := by
  obtain ⟨e, hu⟩ | ⟨hdir, n, r, hu, -⟩ := st.storeIncoming_cases t disk hslash
  · rw [hu]
    exact ⟨rfl, fun _ _ _ => rfl⟩
  · rw [hu]
    refine ⟨rfl, fun p hinbox _ => ?_⟩
    rw [FileTree.get?_put, if_neg]
    rintro rfl
    exact hinbox rfl

private theorem created_storeIncoming {env : MailEnvelope} (st : MailStore δ) (t : FileTree δ) (disk : Disk)
    (hslash : '/' ∉ env.id) (hnew : t.files.get? (st.inboxDir, mailFile env.id) = none) :
    (st.storeIncoming t env disk).1 = t ∨ ∃ bytes, (st.storeIncoming t env disk).1.dirs = t.dirs ∧
      Created t (st.storeIncoming t env disk).1 (st.inboxDir, mailFile env.id) bytes := by
  obtain ⟨e, hu⟩ | ⟨hdir, n, r, hu, -⟩ := st.storeIncoming_cases t disk hslash
  · exact .inl (by rw [hu])
  · refine .inr ⟨(encode env.json).take n, ?_⟩
    rw [hu]
    exact ⟨rfl, hnew, fun q => FileTree.get?_put hdir⟩

/-- Two outcomes that a client cannot tell apart, of a request that sent nothing. -/
structure Unseen (st : MailStore δ) (o o' : Outcome δ) : Prop where
  answer : o.answer = o'.answer
  outgoing : o.outgoing = []
  outgoing' : o'.outgoing = []
  alike : Alike st o.tree o'.tree

private theorem unseen_reply {st : MailStore δ} (h : Alike st t t') (text : Text) :
    Unseen st (.reply t text) (.reply t' text) := ⟨rfl, rfl, rfl, h⟩

theorem apiDeliver_visit (h : Named pk s t (.deliver body, w)) (halike : Alike s.store t t') (secret signing : Key) :
    Unseen s.store (apiDeliver pk s t body w) (apiDeliver pk (s.withSecrets secret signing) t' body w) ∧
      ((apiDeliver pk s t body w).tree = t ∨ ∃ id bytes, (apiDeliver pk s t body w).tree.dirs = t.dirs ∧
        Created t (apiDeliver pk s t body w).tree (s.store.inboxDir, mailFile id) bytes) := by
  unfold Named at h
  dsimp only at h
  unfold apiDeliver
  cases henv : pk.readEnvelope body with
  | error e => exact ⟨unseen_reply halike _, .inl rfl⟩
  | ok env =>
    rw [henv] at h
    dsimp only at h ⊢
    split
    · rename_i hsig
      obtain ⟨hslash, hnew⟩ := h hsig
      have hsame : (s.store.storeIncoming t env w.disk).2 = (s.store.storeIncoming t' env w.disk).2 := by
        show Except.mapError _ (t.write _ _ _ w.disk).2 = Except.mapError _ (t'.write _ _ _ w.disk).2
        rw [FileTree.write_congr (slash_mailFile hslash) halike.dirs w.disk]
      have hboth := ((alike_storeIncoming s.store t w.disk hslash).symm.trans halike).trans
        (alike_storeIncoming s.store t' w.disk hslash)
      refine ⟨⟨?_, rfl, rfl, hboth⟩, ?_⟩
      · show some (storedAnswer env (s.store.storeIncoming t env w.disk).2) =
          some (storedAnswer env (s.store.storeIncoming t' env w.disk).2)
        rw [hsame]
      · obtain hleft | ⟨bytes, hdirs, hcreated⟩ := created_storeIncoming s.store t w.disk hslash hnew
        · exact .inl hleft
        · exact .inr ⟨env.id, bytes, hdirs, hcreated⟩
    · exact ⟨unseen_reply halike _, .inl rfl⟩

private theorem route_visit (pk : Packages) (s : ServerState δ) (front : Frontend) (raw : Text) (w : World)
    (hroute : ¬ OwnersRoute method path) :
    method = "POST".toList ∧ path = "/api/deliver".toList ∧ (∀ (s' : ServerState δ) (u : FileTree δ),
      route pk s' front u method path raw w = apiDeliver pk s' u (extractBody raw) w) ∨
    ∃ text, ∀ secret signing (u : FileTree δ),
      route pk (s.withSecrets secret signing) front u method path raw w = .reply u text := by
  unfold OwnersRoute at hroute
  simp only [not_or, not_and] at hroute
  obtain ⟨hget, hsend, hdelete⟩ := hroute
  have hmail : ¬ (method = "GET".toList ∧ mailRoute.isPrefixOf path = true) := fun h => (hget h.1).2.2 h.2
  have hinbox : ¬ (method = "GET".toList ∧ path = "/api/inbox".toList) := fun h => (hget h.1).1 h.2
  have hsent : ¬ (method = "GET".toList ∧ path = "/api/sent".toList) := fun h => (hget h.1).2.1 h.2
  have hsend' : ¬ (method = "POST".toList ∧ path = "/api/send".toList) := fun h => hsend h.1 h.2
  have hdelete' : ¬ (method = "DELETE".toList ∧ mailRoute.isPrefixOf path = true) := fun h => hdelete h.1 h.2
  unfold route
  simp only [if_neg hmail, if_neg hinbox, if_neg hsent, if_neg hsend', if_neg hdelete']
  by_cases hdeliver : method = "POST".toList ∧ path = "/api/deliver".toList
  · obtain ⟨rfl, rfl⟩ := hdeliver
    exact .inl ⟨rfl, rfl, fun _ _ => rfl⟩
  · right
    simp only [if_neg hdeliver]
    -- what is left are texts, chosen by the method and the path
    split_ifs
    · exact ⟨htmlResponse (s.mailAddr.intercalate front.indexHtml), fun _ _ _ => rfl⟩
    · exact ⟨staticResponse "text/css" front.styleCss, fun _ _ _ => rfl⟩
    · exact ⟨staticResponse "application/javascript" front.appJs, fun _ _ _ => rfl⟩
    · exact ⟨jsonOk ("\x7b\"address\":\"".toList ++ s.mailAddr ++ "\",\"pubkey\":\"".toList ++
        hexEncode s.mailKeys.publicBytes.1 ++ "\"\x7d".toList), fun _ _ _ => rfl⟩
    · exact ⟨jsonOk ("\x7b\"pubkey\":\"".toList ++ hexEncode s.mailKeys.publicBytes.1 ++ "\"\x7d".toList),
        fun _ _ _ => rfl⟩
    · exact ⟨_, fun _ _ _ => rfl⟩
    · exact ⟨_, fun _ _ _ => rfl⟩

private theorem handleHttp_visit (h : Visits pk s t raw w) (halike : Alike s.store t t') (front : Frontend)
    (secret signing : Key) :
    Unseen s.store (handleHttp pk s front t raw w) (handleHttp pk (s.withSecrets secret signing) front t' raw w) ∧
      OneMail s t (handleHttp pk s front t raw w).tree raw := by
  unfold Visits at h
  unfold handleHttp OneMail
  cases hline : parseRequestLine raw with
  | none => exact ⟨unseen_reply halike _, .inl rfl⟩
  | some line =>
    obtain ⟨method, path⟩ := line
    rw [hline] at h
    dsimp only at h ⊢
    split
    · exact ⟨unseen_reply halike _, .inl rfl⟩
    · rename_i hscreen
      -- what is not screened out comes from this machine, or delivers
      have hroute : ¬ OwnersRoute method path := by
        intro howner
        apply hscreen
        refine ⟨fun hhere => h.1 ⟨hhere, howner⟩, ?_⟩
        rintro rfl
        revert howner
        unfold OwnersRoute
        rintro (⟨-, hp⟩ | ⟨-, hp⟩ | ⟨-, hp⟩) <;> revert hp <;> decide +kernel
      obtain ⟨rfl, rfl, hdeliver⟩ | ⟨text, htext⟩ := route_visit pk s front raw w hroute
      · rw [hdeliver s t, hdeliver (s.withSecrets secret signing) t']
        obtain ⟨hunseen, hmade⟩ := apiDeliver_visit (h.2 ⟨rfl, rfl⟩) halike secret signing
        refine ⟨hunseen, ?_⟩
        obtain hleft | ⟨id, bytes, hcreated⟩ := hmade
        · exact .inl hleft
        · exact .inr ⟨rfl, id, bytes, hcreated⟩
      · have hself := htext s.mailKeys.secretBytes s.signingKey t
        rw [show s.withSecrets s.mailKeys.secretBytes s.signingKey = s from rfl] at hself
        rw [hself, htext secret signing t']
        exact ⟨unseen_reply halike _, .inl rfl⟩

/-! ### The service's steps -/

namespace Service

variable {st : Service δ} {e : Event}

theorem letGo_tree (st : Service δ) (t : FileTree δ) : { st with tree := t }.letGo = { st.letGo with tree := t } := by
  obtain ⟨-, session, conns, localConn, toClient, outgoing⟩ := st
  cases localConn <;> rfl

@[simp] theorem outgoing_letGo (st : Service δ) : st.letGo.outgoing = st.outgoing := by
  unfold letGo
  cases st.localConn <;> rfl

theorem asked_tree (st : Service δ) (t : FileTree δ) (e : Event) : { st with tree := t }.asked e = st.asked e := by
  cases e <;> rfl

private theorem move_tree (st : Service δ) (t : FileTree δ) (e : Event) :
    { st with tree := t }.move e = { st.move e with tree := t } := by
  cases e with
  | hello answered =>
    unfold move
    rw [letGo_tree]
    cases answered <;> rfl
  | data opened connected failed =>
    unfold move
    dsimp only
    split
    · cases opened with
      | none => rw [letGo_tree]
      | some bytes =>
        dsimp only
        have hconnect : ({ st with tree := t } : Service δ).connect connected = st.connect connected := rfl
        rw [hconnect]
        cases st.connect connected with
        | none => rfl
        | some found =>
          cases failed with
          | none => rfl
          | some n =>
            simp only [Option.isSome_some, if_true]
            rw [← letGo_tree]
    · rfl
  | reads c n w => rfl
  | ends c w => rfl
  | fromServer n =>
    unfold move
    dsimp only
    split
    · rfl
    · split <;> rfl
  | serverClosed failed =>
    unfold move
    dsimp only
    split
    · rw [letGo_tree]
    · rfl

private theorem tree_move (st : Service δ) (e : Event) : (st.move e).tree = st.tree := by
  have h := move_tree st st.tree e
  rw [show { st with tree := st.tree } = st from rfl] at h
  rw [h]

private theorem outgoing_move (st : Service δ) (e : Event) : (st.move e).outgoing = st.outgoing := by
  cases e with
  | hello answered =>
    cases answered <;> exact outgoing_letGo st
  | data opened connected failed =>
    unfold move
    dsimp only
    split
    · cases opened with
      | none => exact outgoing_letGo st
      | some bytes =>
        dsimp only
        cases st.connect connected with
        | none => rfl
        | some found =>
          cases failed with
          | none => rfl
          | some n => simp only [Option.isSome_some, if_true, outgoing_letGo]
    · rfl
  | reads c n w => rfl
  | ends c w => rfl
  | fromServer n =>
    unfold move
    dsimp only
    split
    · rfl
    · split <;> rfl
  | serverClosed failed =>
    unfold move
    dsimp only
    split
    · exact outgoing_letGo st
    · rfl

/-- Two services whose clients see the same, and that sent nothing. -/
structure Same (st : MailStore δ) (a b : Service δ) : Prop where
  rest : ∃ t, b = { a with tree := t } ∧ Alike st a.tree t
  quiet : a.outgoing = []

theorem Same.toClient {st : MailStore δ} {a b : Service δ} (h : Same st a b) : a.toClient = b.toClient := by
  obtain ⟨t, rfl, -⟩ := h.rest
  rfl

private theorem Same.quiet' {st : MailStore δ} {a b : Service δ} (h : Same st a b) : b.outgoing = [] := by
  obtain ⟨t, rfl, -⟩ := h.rest
  exact h.quiet

private theorem step_visit {a b : Service δ} (h : Same s.store a b) (hv : Visiting pk s a e) (front : Frontend)
    (secret signing : Key) :
    Same s.store (a.step pk s front e) (b.step pk (s.withSecrets secret signing) front e) ∧ Delivers pk s front a e := by
  obtain ⟨⟨t, rfl, halike⟩, hquiet⟩ := h
  unfold Visiting at hv
  unfold Delivers step
  rw [asked_tree a t e]
  cases hasked : a.asked e with
  | none =>
    refine ⟨⟨⟨t, ?_, ?_⟩, ?_⟩, tree_move a e⟩
    · exact move_tree a t e
    · show Alike s.store (a.move e).tree t
      rw [tree_move]
      exact halike
    · show (a.move e).outgoing = []
      rw [outgoing_move]
      exact hquiet
  | some request =>
    obtain ⟨c, raw, w⟩ := request
    rw [hasked] at hv
    obtain ⟨hunseen, hmail⟩ := handleHttp_visit hv halike front secret signing
    dsimp only at hunseen hmail ⊢
    refine ⟨⟨⟨_, ?_, hunseen.alike⟩, ?_⟩, hmail⟩
    · rw [hunseen.answer, hunseen.outgoing, hunseen.outgoing']
    · rw [hquiet, hunseen.outgoing]
      rfl

end Service

/-- While every request is a visitor's: a client is answered the same by two mailboxes that differ in the files of
their two folders and their secrets only; nothing is sent to other nodes; and each step leaves the tree as it is, or
delivers one mail. -/
theorem visitors_run (pk : Packages) (s : ServerState δ) (front : Frontend) (secret signing : Key) (t t' : FileTree δ)
    (halike : Alike s.store t t') (es : List Event)
    (h : Along (Service.step pk s front) (Visiting pk s) (Service.start t) es) :
    let a := run (Service.step pk s front) (Service.start t) es
    let b := run (Service.step pk (s.withSecrets secret signing) front) (Service.start t') es
    a.toClient = b.toClient ∧ a.outgoing = [] ∧ b.outgoing = [] ∧
      Along (Service.step pk s front) (Delivers pk s front) (Service.start t) es := by
  have hstart : Service.Same s.store (Service.start t) (Service.start t') := ⟨⟨t', rfl, halike⟩, rfl⟩
  generalize Service.start t = a at h hstart
  generalize Service.start t' = b at hstart
  induction es generalizing a b with
  | nil => exact ⟨hstart.toClient, hstart.quiet, hstart.quiet', trivial⟩
  | cons e es ih =>
    obtain ⟨hnext, hdelivers⟩ := Service.step_visit hstart h.1 front secret signing
    obtain ⟨hclient, hquiet, hquiet', hrest⟩ := ih _ h.2 _ hnext
    exact ⟨hclient, hquiet, hquiet', hdelivers, hrest⟩

private def note : MailEnvelope := Sample.mail "m".toList

private def full : FileTree Nat := Sample.folders.put (1, mailFile "m".toList) (encode note.json) (by decide)

private def noPages : Frontend := ⟨[], [], []⟩

private def visit (request : String) : List Event :=
  [.hello true, .data (some (encode request.toList)) true none, .reads 0 65536 Sample.world, .fromServer 65536]

private theorem alike_full : Alike Sample.server.store Sample.folders full := by
  refine ⟨rfl, fun p hinbox _ => ?_⟩
  show _ = (Sample.folders.put (1, mailFile "m".toList) _ _).files.get? p
  rw [FileTree.get?_put, if_neg]
  rintro rfl
  exact hinbox rfl

theorem visitors_run_pubkey :
    (run (Service.step (Sample.packages note) Sample.server noPages) (Service.start Sample.folders)
      (visit "GET /api/pubkey HTTP/1.1\r\n\r\n")).toClient =
    (run (Service.step (Sample.packages note) (Sample.server.withSecrets Sample.key Sample.key) noPages)
      (Service.start full) (visit "GET /api/pubkey HTTP/1.1\r\n\r\n")).toClient :=
  (visitors_run (Sample.packages note) Sample.server noPages Sample.key Sample.key Sample.folders full alike_full
    (visit "GET /api/pubkey HTTP/1.1\r\n\r\n") (by decide +kernel)).1

/-- A client that names no host is answered what the inbox holds, and has its mail deleted. -/
theorem visitor_reads :
    Alike Sample.server.store Sample.folders full ∧
      (run (Service.step (Sample.packages note) Sample.server noPages) (Service.start Sample.folders)
        (visit "GET /api/inbox HTTP/1.1\r\n\r\n")).toClient ≠
      (run (Service.step (Sample.packages note) Sample.server noPages) (Service.start full)
        (visit "GET /api/inbox HTTP/1.1\r\n\r\n")).toClient ∧
      full.files.get? (1, "m.json".toList) = some (encode note.json) ∧
      (run (Service.step (Sample.packages note) Sample.server noPages) (Service.start full)
        (visit "DELETE /api/mail/m HTTP/1.1\r\n\r\n")).tree.files.get? (1, "m.json".toList) = none := by
  refine ⟨alike_full, ?_, ?_, ?_⟩
  · decide +kernel
  · decide +kernel
  · decide +kernel

end HidraNet.Hidramail
