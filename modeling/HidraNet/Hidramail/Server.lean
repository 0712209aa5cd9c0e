import HidraNet.Hidramail.Http
import HidraNet.Hidramail.Store
import HidraNet.Lib.Ints

/-!
# The mail server

What a request does to the store, what it is answered, and what is sent to other nodes for it.  What is not this
server's to say, what the disk and the other node answer, the time and the random texts, is a request's `World`.
-/

namespace HidraNet.Hidramail

open FileTrees Ints Json Text Utf8

variable {δ : Type*} [DecidableEq δ]

abbrev Uuid := { text : Text // text.length = 36 ∧ text.all (fun c => c = '-' || (hexVal c).isSome) = true }

structure MailKeys where
  secretBytes : Key
  publicBytes : Key
deriving DecidableEq

structure ServerState (δ : Type*) where
  mailAddr : Text
  mailKeys : MailKeys
  signingKey : Key
  store : MailStore δ
deriving DecidableEq

/-- The pages' texts; the first cut where the mail address stands. -/
structure Frontend where
  indexHtml : List Text
  styleCss : Text
  appJs : Text

structure World where
  /-- What the disk makes of the write that the request needs. -/
  disk : Disk
  /-- What it says to the removal of a mail, and of its marker. -/
  refused : Option String × Option String
  now : Nat
  uuid : Uuid
  ephemeral : Key
  nonce : Nonce
  copyEphemeral : Key
  copyNonce : Nonce
  /-- What one read returns of the other node's answer, when it is asked for its key. -/
  fetched : Except Refusal (List UInt8)
  delivered : Except Refusal (List UInt8)

/-- What became of a request.  A handler that panics gives no answer. -/
structure Outcome (δ : Type*) [DecidableEq δ] where
  tree : FileTree δ
  answer : Option Text
  /-- The requests made to other nodes, each with its address. -/
  outgoing : List (Text × Text)

def Outcome.reply (t : FileTree δ) (answer : Text) : Outcome δ := ⟨t, some answer, []⟩

def hexEncode (bytes : List UInt8) : Text := bytes.flatMap fun b => [hexDigit (b.toNat / 16), hexDigit (b.toNat % 16)]

def escapeJson (s : Text) : Text :=
  s.flatMap fun c =>
    if c = '\\' then ['\\', '\\'] else if c = '"' then ['\\', '"'] else if c = '\n' then ['\\', 'n']
    else if c = '\r' then ['\\', 'r'] else if c = '\t' then ['\\', 't'] else [c]

/-- The value of two digits, the first of which may be a sign. -/
def hexByte (a b : UInt8) : Option UInt8 :=
  let b' := hexVal (Char.ofNat b.toNat)
  if a = 43 then b'.map UInt8.ofNat
  else
    match hexVal (Char.ofNat a.toNat), b' with
    | some x, some y => some (UInt8.ofNat (16 * x + y))
    | _, _ => none

/-- The bytes of pairs of digits.  A pair that cuts a character is a panic. -/
def hexPairs : List UInt8 → Option (Except HidraError (List UInt8))
  | a :: b :: rest =>
    if (rest.head?.map fun c => decide (0x80 ≤ c ∧ c < 0xC0)).getD false then none
    else
      match hexByte a b with
      | none => some (.error (.protocol "invalid hex".toList))
      | some byte => (hexPairs rest).map fun r => r.map (byte :: ·)
  | _ => some (.ok [])

def hexDecode (hex : Text) : Option (Except HidraError (List UInt8)) :=
  if (encode hex).length % 2 ≠ 0 then some (.error (.protocol "odd hex length".toList)) else hexPairs (encode hex)

variable (pk : Packages) (s : ServerState δ)

def pubkeyRequest (addr : Text) : Text :=
  "GET /api/pubkey HTTP/1.1\r\nHost: ".toList ++ addr ++ "\r\nConnection: close\r\n\r\n".toList

/-- What `fetch_recipient_pubkey` makes of the answer. -/
def readPubkeyAnswer (resp : List UInt8) : Option (Except HidraError Key) :=
  match afterBlank (lossy resp) with
  | none => some (.error (.protocol "no response body".toList))
  | some body =>
    match pk.readPubkey (trimText body) with
    | .error e => some (.error (.protocol ("parse pubkey response: ".toList ++ e)))
    | .ok hex =>
      (hexDecode hex).map fun r =>
        match r with
        | .error e => .error e
        | .ok bytes =>
          if h : bytes.length = 32 then .ok ⟨bytes, h⟩ else .error (.crypto "invalid pubkey length".toList)

def deliverRequest (addr : Text) (envelope : MailEnvelope) : Text :=
  "POST /api/deliver HTTP/1.1\r\nHost: ".toList ++ addr ++
    "\r\nContent-Type: application/json\r\nContent-Length: ".toList ++ number (encode envelope.json).length ++
    "\r\nConnection: close\r\n\r\n".toList ++ envelope.json

/-- What `deliver_to_remote` makes of the answer. -/
def readDeliveryAnswer (resp : List UInt8) : Except HidraError Unit :=
  if "200".toList <:+: lossy resp then .ok () else .error (.protocol ("delivery failed: ".toList ++ lossy resp))

/-- The envelope that a mail goes out in. -/
def makeEnvelope (req : SendRequest) (recipient : Key) (w : World) : MailEnvelope :=
  let content : MailContent := ⟨req.subject, req.body⟩
  let (ephPubkey, sealedBody) := sealMessage pk recipient w.ephemeral w.nonce (encode content.json)
  let envelope : MailEnvelope :=
    ⟨w.uuid.1, s.mailAddr, req.mailTo, wrap64 w.now, ephPubkey, sealedBody, (pk.verifyingKey s.signingKey).1, []⟩
  { envelope with signature := pk.sign s.signingKey envelope.signingData }

def makeSenderCopy (original : MailEnvelope) (contentJson : List UInt8) (w : World) : MailEnvelope :=
  let (eph, sealedBody) := sealMessage pk s.mailKeys.publicBytes w.copyEphemeral w.copyNonce contentJson
  let copy := { original with ephemeralPubkey := eph, sealedBody := sealedBody, signature := [] }
  { copy with signature := pk.sign s.signingKey copy.signingData }

def apiSendMail (t : FileTree δ) (body : Text) (w : World) : Outcome δ :=
  match pk.readSendRequest body with
  | .error e => .reply t (jsonErr "400" ("parse: ".toList ++ e))
  | .ok req =>
    match req.directAddr with
    | none => .reply t (jsonErr "400" "direct_addr required (SOCKS5 delivery not yet implemented)".toList)
    | some addr =>
      let asked := [(addr, pubkeyRequest addr)]
      match w.fetched with
      | .error e => ⟨t, some (jsonErr "502" ("fetch pubkey: ".toList ++ (HidraError.io e).text)), asked⟩
      | .ok resp =>
        match readPubkeyAnswer pk resp with
        | none => ⟨t, none, asked⟩
        | some (.error e) => ⟨t, some (jsonErr "502" ("fetch pubkey: ".toList ++ e.text)), asked⟩
        | some (.ok recipient) =>
          let envelope := makeEnvelope pk s req recipient w
          let asked := asked ++ [(addr, deliverRequest addr envelope)]
          match w.delivered with
          | .error e => ⟨t, some (jsonErr "502" ("delivery: ".toList ++ (HidraError.io e).text)), asked⟩
          | .ok resp =>
            match readDeliveryAnswer resp with
            | .error e => ⟨t, some (jsonErr "502" ("delivery: ".toList ++ e.text)), asked⟩
            | .ok () =>
              let content : MailContent := ⟨req.subject, req.body⟩
              let copy := makeSenderCopy pk s envelope (encode content.json) w
              ⟨(s.store.storeSent t copy w.disk).1, some (jsonOk "\x7b\"ok\":true\x7d".toList), asked⟩

def storedAnswer (envelope : MailEnvelope) : Except HidraError Unit → Text
  | .ok () => jsonOk ("\x7b\"ok\":true,\"id\":\"".toList ++ envelope.id ++ "\"\x7d".toList)
  | .error e => jsonErr "500" ("store: ".toList ++ e.text)

def apiDeliver (t : FileTree δ) (body : Text) (w : World) : Outcome δ :=
  match pk.readEnvelope body with
  | .error e => .reply t (jsonErr "400" ("parse: ".toList ++ e))
  | .ok envelope =>
    if verifySig pk envelope.senderVerifyingKey envelope.signingData envelope.signature then
      let (t, r) := s.store.storeIncoming t envelope w.disk
      .reply t (storedAnswer envelope r)
    else .reply t (jsonErr "403" "invalid signature".toList)

def mailBody (env : MailEnvelope) (content : MailContent) (verified : Bool) : Text :=
  "\x7b\"id\":\"".toList ++ escapeJson env.id ++ "\",\"from_addr\":\"".toList ++ escapeJson env.fromAddr ++
    "\",\"to_addr\":\"".toList ++ escapeJson env.toAddr ++ "\",\"subject\":\"".toList ++ escapeJson content.subject ++
    "\",\"body\":\"".toList ++ escapeJson content.body ++ "\",\"timestamp\":".toList ++ number env.timestamp ++
    ",\"verified\":".toList ++ bool verified ++ "\x7d".toList

def apiReadMail (t : FileTree δ) (id : Text) (w : World) : Outcome δ :=
  match s.store.readMail pk t id s.mailKeys.secretBytes w.disk with
  | (t, .ok (env, content)) =>
    .reply t (jsonOk (mailBody env content (verifySig pk env.senderVerifyingKey env.signingData env.signature)))
  | (t, .error e) => .reply t (jsonErr "404" e.text)

def apiDeleteMail (t : FileTree δ) (id : Text) (w : World) : Outcome δ :=
  match s.store.deleteMail t id w.refused with
  | (t, .ok ()) => .reply t (jsonOk "\x7b\"ok\":true\x7d".toList)
  | (t, .error e) => .reply t (jsonErr "404" e.text)

def mailRoute : Text := "/api/mail/".toList

/-- The routes. -/
def route (front : Frontend) (t : FileTree δ) (method path raw : Text) (w : World) : Outcome δ :=
  if method = "GET".toList ∧ (path = "/".toList ∨ path = "/index.html".toList) then
    .reply t (htmlResponse (s.mailAddr.intercalate front.indexHtml))
  else if method = "GET".toList ∧ path = "/style.css".toList then .reply t (staticResponse "text/css" front.styleCss)
  else if method = "GET".toList ∧ path = "/app.js".toList then
    .reply t (staticResponse "application/javascript" front.appJs)
  else if method = "GET".toList ∧ path = "/api/identity".toList then
    .reply t (jsonOk ("\x7b\"address\":\"".toList ++ s.mailAddr ++ "\",\"pubkey\":\"".toList ++
      hexEncode s.mailKeys.publicBytes.1 ++ "\"\x7d".toList))
  else if method = "GET".toList ∧ path = "/api/pubkey".toList then
    .reply t (jsonOk ("\x7b\"pubkey\":\"".toList ++ hexEncode s.mailKeys.publicBytes.1 ++ "\"\x7d".toList))
  else if method = "GET".toList ∧ path = "/api/inbox".toList then
    .reply t (jsonOk (array ((s.store.listInbox pk t s.mailKeys.secretBytes).map MailSummary.json)))
  else if method = "GET".toList ∧ path = "/api/sent".toList then
    .reply t (jsonOk (array ((s.store.listSent pk t s.mailKeys.secretBytes).map MailSummary.json)))
  else if method = "GET".toList ∧ mailRoute.isPrefixOf path then apiReadMail pk s t (path.drop 10) w
  else if method = "POST".toList ∧ path = "/api/send".toList then apiSendMail pk s t (extractBody raw) w
  else if method = "POST".toList ∧ path = "/api/deliver".toList then apiDeliver pk s t (extractBody raw) w
  else if method = "DELETE".toList ∧ mailRoute.isPrefixOf path then apiDeleteMail s t (path.drop 10) w
  else if method = "OPTIONS".toList then
    .reply t ("HTTP/1.1 204 No Content\r\nAccess-Control-Allow-Methods: GET,POST,DELETE,OPTIONS\r\n" ++
      "Connection: close\r\n\r\n").toList
  else .reply t (jsonErr "404" "not found".toList)

def handleHttp (front : Frontend) (t : FileTree δ) (raw : Text) (w : World) : Outcome δ :=
  match parseRequestLine raw with
  | none => .reply t (jsonErr "400" "bad request".toList)
  | some (method, path) =>
    if ¬ fromThisMachine raw ∧ path ≠ "/api/deliver".toList then
      .reply t (jsonErr "403" "request did not come from this machine".toList)
    else route pk s front t method path raw w

def handleConnection (front : Frontend) (t : FileTree δ) (reads : List (List UInt8)) (w : World) : Outcome δ :=
  let raw := readRequest [] reads
  if raw = [] then ⟨t, none, []⟩ else handleHttp pk s front t (lossy raw) w

/-! ### A small server -/

namespace Sample

def key : Key := ⟨List.replicate 32 7, by decide⟩

def server : ServerState Nat := ⟨"b@x.hidra".toList, ⟨key, key⟩, key, ⟨1, 2⟩⟩

def folders : FileTree Nat where
  root := 9
  dirs := ((((Maps.Map.empty.set (0, "inbox".toList) 1).set (0, "sent".toList) 2).set (1, "..".toList) 0).set
    (2, "..".toList) 0)
  files := .empty
  apart := fun _ _ => rfl

/-- Packages that seal nothing, take every signature, and read one text as a mail. -/
def packages (mail : MailEnvelope) : Packages where
  publicKey := id
  encrypt := fun _ _ _ plaintext => plaintext
  decrypt := fun _ _ _ sealedBody => some sealedBody
  verifyingKey := id
  sign := fun _ _ => List.replicate 64 0
  verify := fun _ _ _ => true
  readEnvelope := fun text => if text = mail.json then .ok mail else .error "expected value at line 1 column 1".toList
  readContent := fun _ => .error "expected value at line 1 column 1".toList
  readSendRequest := fun _ => .error "expected value at line 1 column 1".toList
  readPubkey := fun _ => .error "expected value at line 1 column 1".toList

def mail (id : Text) : MailEnvelope :=
  ⟨id, "a@y.hidra".toList, "b@x.hidra".toList, 1, key.1, List.replicate 20 5, key.1, List.replicate 64 0⟩

def world : World :=
  ⟨.done, (none, none), 1, ⟨"00000000-0000-4000-8000-000000000000".toList, by decide⟩, key,
    ⟨List.replicate 12 0, by decide⟩, key, ⟨List.replicate 12 0, by decide⟩,
    .error (.disk "Connection refused (os error 111)"), .error (.disk "Connection refused (os error 111)")⟩

end Sample

end HidraNet.Hidramail
