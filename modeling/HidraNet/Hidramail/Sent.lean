import HidraNet.Core.HttpAnswers
import HidraNet.Hidramail.Answers
import HidraNet.Hidramail.Deliveries

/-!
# A mail that is reported sent

One node's delivery request, read by another however its bytes are cut: what fits the buffer is read whole, with the
mail for its body, and of a longer one the mail's text is cut (`handleConnection_deliver`).

The sender looks for "200" anywhere in the answer, so that a refusal that has these digits, as that of a mail cut at
column 65200, is taken for a delivery (`sent_iff`, `reported_sent`).
-/

namespace HidraNet.Hidramail

open FileTrees Json Lines Net Text Utf8

variable {δ : Type*} [DecidableEq δ]

/-! ### The request as it is written -/

def deliverLines (addr : Text) (n : Nat) : List Text :=
  ["POST /api/deliver HTTP/1.1".toList, "Host: ".toList ++ addr, "Content-Type: application/json".toList,
    "Content-Length: ".toList ++ number n, "Connection: close".toList]

def deliverHead (addr : Text) (n : Nat) : Nat := (encode (crlf (deliverLines addr n))).length + 2

variable {addr : Text} {n : Nat} {env : MailEnvelope}

private theorem isLine_deliver (h : oneLine addr = true) (n : Nat) : ∀ l ∈ deliverLines addr n, IsLine l := by
  unfold deliverLines
  simp only [List.forall_mem_cons]
  exact ⟨isLine_of_oneLine (by simp) (by decide),
    isLine_of_oneLine (by simp) (oneLine_append (by decide) h), isLine_of_oneLine (by simp) (by decide),
    isLine_of_oneLine (by simp) (oneLine_append (by decide) (oneLine_number n)),
    isLine_of_oneLine (by simp) (by decide), fun l hl => absurd hl List.not_mem_nil⟩

private theorem deliverRequest_lines (addr : Text) (env : MailEnvelope) : deliverRequest addr env =
    crlf (deliverLines addr (encode env.json).length) ++ '\r' :: '\n' :: env.json := by
  have hhost : "POST /api/deliver HTTP/1.1\r\nHost: ".toList =
      "POST /api/deliver HTTP/1.1".toList ++ ['\r', '\n'] ++ "Host: ".toList := by simp
  have htype : "\r\nContent-Type: application/json\r\nContent-Length: ".toList =
      ['\r', '\n'] ++ "Content-Type: application/json".toList ++ ['\r', '\n'] ++ "Content-Length: ".toList := by simp
  have hclose : "\r\nConnection: close\r\n\r\n".toList =
      ['\r', '\n'] ++ "Connection: close".toList ++ ['\r', '\n'] ++ ['\r', '\n'] := by simp
  unfold deliverRequest deliverLines crlf
  rw [hhost, htype, hclose]
  simp only [List.append_assoc, List.flatMap_cons, List.flatMap_nil, List.nil_append, List.cons_append]

private theorem encode_deliverRequest (addr : Text) (env : MailEnvelope) : encode (deliverRequest addr env) =
    encode (crlf (deliverLines addr (encode env.json).length)) ++ 13 :: 10 :: encode env.json := by
  rw [deliverRequest_lines, encode_append]
  rfl

private theorem parseContentLength_deliver (h : oneLine addr = true) (hn : n < 2 ^ 64) :
    parseContentLength (crlf (deliverLines addr n) ++ ['\r', '\n']) = n := by
  have hlines : linesOf (crlf (deliverLines addr n) ++ ['\r', '\n']) = deliverLines addr n ++ [[]] := by
    rw [linesOf_lines (isLine_deliver h n)]
    rfl
  have hlower : ∀ l : Text,
      lowered ("Content-Length: ".toList ++ l) = "content-length:".toList ++ ' ' :: lowered l := by
    intro l
    unfold lowered
    rw [List.map_append]
    rfl
  have hfind : (deliverLines addr n ++ [[]]).find? (fun line => "content-length:".toList.isPrefixOf (lowered line)) =
      some ("Content-Length: ".toList ++ number n) := by
    unfold deliverLines
    rw [List.cons_append, List.find?_cons_of_neg (by decide), List.cons_append, List.find?_cons_of_neg,
      List.cons_append, List.find?_cons_of_neg (by decide), List.cons_append, List.find?_cons_of_pos]
    · rw [hlower, List.isPrefixOf_iff_prefix]
      exact List.prefix_append _ _
    · unfold lowered
      rw [List.map_append]
      exact Bool.false_ne_true
  have hvalue : trimText (' ' :: number n) = number n := by
    have hspace : ∀ c ∈ [' '], isWhitespace c = true := fun c hc => by rw [List.mem_singleton.1 hc]; decide
    have hword := Core.Http.trimText_word hspace (fun c hc => Core.Http.digit_not_whitespace (n := n) hc)
      (List.forall_mem_nil _)
    rwa [List.append_nil] at hword
  have hsplit : splitOnce ':' ("Content-Length: ".toList ++ number n) =
      some ("Content-Length".toList, ' ' :: number n) := rfl
  have hread : Nat.ofDigitChars 10 (number n) 0 = n := Nat.ofDigitChars_toDigits (by decide) (by decide)
  have hne : number n ≠ [] := Nat.toDigits_ne_nil
  unfold parseContentLength
  rw [hlines, hfind]
  dsimp only
  rw [hsplit]
  dsimp only
  rw [hvalue, Core.Http.parseUnsigned_digits hne (fun c hc => digit_of_number hc) (by omega), hread]
  rfl

/-! ### The request as it is read -/

private theorem findHeaderEnd_deliver (h : oneLine addr = true) (rest : List UInt8) :
    findHeaderEnd (encode (crlf (deliverLines addr n)) ++ 13 :: 10 :: rest) = some (deliverHead addr n) :=
  findHeaderEnd_lines (isLine_deliver h n) (List.cons_ne_nil _ _) rest

/-- The cut falls in the head, or behind it. -/
private theorem take_deliver (body : List UInt8) {m : Nat} (hm : deliverHead addr n ≤ m) :
    (encode (crlf (deliverLines addr n)) ++ 13 :: 10 :: body).take m =
      encode (crlf (deliverLines addr n)) ++ 13 :: 10 :: body.take (m - deliverHead addr n) := by
  unfold deliverHead at hm ⊢
  obtain ⟨k, rfl⟩ : ∃ k, m = (encode (crlf (deliverLines addr n))).length + 2 + k := ⟨_, (Nat.add_sub_of_le hm).symm⟩
  rw [Nat.add_sub_cancel_left, Nat.add_assoc, List.take_length_add_append, Nat.add_comm 2 k]
  rfl

private theorem findHeaderEnd_take (h : oneLine addr = true) (body : List UInt8) {m e : Nat}
    (hfound : findHeaderEnd ((encode (crlf (deliverLines addr n)) ++ 13 :: 10 :: body).take m) = some e) :
    e = deliverHead addr n ∧ deliverHead addr n ≤ m := by
  obtain ⟨hall, hle⟩ := findHeaderEnd_append hfound ((encode (crlf (deliverLines addr n)) ++ 13 :: 10 :: body).drop m)
  rw [List.take_append_drop, findHeaderEnd_deliver h] at hall
  cases hall
  rw [List.length_take] at hle
  exact ⟨rfl, by omega⟩

/-- However the bytes are cut, as many are read as the buffer holds. -/
theorem readRequest_deliver (h : oneLine addr = true) (hn : (encode env.json).length < 2 ^ 64) (cuts : List Nat) :
    readRequest [] (cutAt cuts (encode (deliverRequest addr env))) =
      (encode (deliverRequest addr env)).take bufferSize := by
  apply readRequest_take
  intro m hm
  rw [encode_deliverRequest] at hm ⊢
  have hfull : ¬ bufferSize ≤
      ((encode (crlf (deliverLines addr (encode env.json).length)) ++ 13 :: 10 :: encode env.json).take m).length := by
    rw [List.length_take]
    omega
  unfold complete
  rw [decide_eq_false hfull, Bool.or_false]
  split
  · rfl
  · rename_i e hfound
    obtain ⟨rfl, hle⟩ := findHeaderEnd_take h _ hfound
    rw [decide_eq_false_iff_not, take_deliver _ hle]
    have hhead : (encode (crlf (deliverLines addr (encode env.json).length)) ++
        13 :: 10 :: (encode env.json).take (m - deliverHead addr (encode env.json).length)).take
          (deliverHead addr (encode env.json).length) =
        encode (crlf (deliverLines addr (encode env.json).length) ++ ['\r', '\n']) := by
      rw [take_deliver _ le_rfl, Nat.sub_self, encode_append]
      rfl
    rw [hhead, lossy_encode, parseContentLength_deliver h hn]
    simp only [List.length_append, List.length_cons, List.length_take] at hm ⊢
    unfold deliverHead at hle ⊢
    omega

private theorem extractBody_deliver (h : oneLine addr = true) {body : List UInt8} (hbody : 13 ∉ body) (m : Nat) :
    extractBody (lossy ((encode (crlf (deliverLines addr n)) ++ 13 :: 10 :: body).take m)) =
      lossy (body.take (m - deliverHead addr n)) := by
  by_cases hle : deliverHead addr n ≤ m
  · rw [take_deliver body hle, lossy_encode_append, lossy_ascii_cons (by decide), lossy_ascii_cons (by decide)]
    apply extractBody_lines (isLine_deliver h n) (List.cons_ne_nil _ _)
    intro hcr
    exact hbody (List.mem_of_mem_take (mem_of_lossy (by decide) hcr))
  · have hnone : splitBlank (lossy ((encode (crlf (deliverLines addr n)) ++ 13 :: 10 :: body).take m)) = none := by
      by_contra hsome
      obtain ⟨e, he⟩ := Option.isSome_iff_exists.1 (isSome_findHeaderEnd (Option.isSome_iff_ne_none.2 hsome))
      exact hle (findHeaderEnd_take h body he).2
    unfold extractBody afterBlank
    rw [hnone, Nat.sub_eq_zero_of_le (by omega), List.take_zero]
    rfl

private theorem parseRequestLine_deliver (body : List UInt8) : parseRequestLine
    (lossy ((encode (crlf (deliverLines addr n)) ++ 13 :: 10 :: body).take bufferSize)) =
      some ("POST".toList, "/api/deliver".toList) := by
  obtain ⟨rest, hrest⟩ : ∃ rest, encode (crlf (deliverLines addr n)) ++ 13 :: 10 :: body =
      encode "POST /api/deliver HTTP/1.1".toList ++ 13 :: 10 :: rest := by
    unfold deliverLines
    rw [encode_crlf_cons, List.append_assoc]
    exact ⟨_, rfl⟩
  have hlen : (encode "POST /api/deliver HTTP/1.1".toList).length = 26 := by decide
  have htake : (encode "POST /api/deliver HTTP/1.1".toList ++ 13 :: 10 :: rest).take bufferSize =
      encode "POST /api/deliver HTTP/1.1".toList ++ 13 :: 10 :: rest.take 65508 := by
    rw [show bufferSize = (encode "POST /api/deliver HTTP/1.1".toList).length + 65510 by rw [hlen]; rfl,
      List.take_length_add_append]
    rfl
  have hline : '\n' ∉ "POST /api/deliver HTTP/1.1".toList := by decide
  have hwords : words "POST /api/deliver HTTP/1.1".toList =
      ["POST".toList, "/api/deliver".toList, "HTTP/1.1".toList] := by decide
  rw [hrest, htake, lossy_encode_append, lossy_ascii_cons (by decide), lossy_ascii_cons (by decide)]
  unfold parseRequestLine
  rw [show Char.ofNat (13 : UInt8).toNat = '\r' from rfl, show Char.ofNat (10 : UInt8).toNat = '\n' from rfl,
    linesOf_cons hline]
  dsimp only
  rw [hwords]

/-! ### What the recipient does -/

variable {pk : Packages} {s r : ServerState δ} {t t' : FileTree δ} {content : MailContent} {w w' : World}

theorem handleConnection_deliver (h : oneLine addr = true) (hn : (encode env.json).length < 2 ^ 64) (front : Frontend)
    (cuts : List Nat) :
    handleConnection pk r front t' (cutAt cuts (encode (deliverRequest addr env))) w' = apiDeliver pk r t'
      (lossy ((encode env.json).take (bufferSize - deliverHead addr (encode env.json).length))) w' := by
  have hline := @parseRequestLine_deliver addr (encode env.json).length (encode env.json)
  unfold handleConnection
  dsimp only
  rw [readRequest_deliver h hn cuts, encode_deliverRequest]
  split
  · rename_i hnil
    rw [hnil] at hline
    cases hline
  · unfold handleHttp
    rw [hline]
    dsimp only
    rw [if_neg fun h => h.2 rfl]
    unfold route
    rw [if_neg (by decide), if_neg (by decide), if_neg (by decide), if_neg (by decide),
      if_neg (by decide), if_neg (by decide), if_neg (by decide), if_neg (by decide),
      if_neg (by decide), if_pos (by decide), extractBody_deliver h (cr_encode env.plain_json.no_cr)]

/-- What the packages do with this mail: the sender's signature holds, the recipient's key opens what was sealed for it,
and what was written is read, and no part of it. -/
structure Works (pk : Packages) (s r : ServerState δ) (env : MailEnvelope) (content : MailContent) : Prop where
  signs : ∀ data, (pk.sign s.signingKey data).length = 64 ∧
    pk.verify (pk.verifyingKey s.signingKey).1 data (pk.sign s.signingKey data) = true
  opens : ∀ k (nonce : Nonce) text, pk.decrypt r.mailKeys.secretBytes (pk.publicKey k) nonce.1
    (pk.encrypt r.mailKeys.publicBytes k nonce.1 text) = some text
  tagged : ∀ k (nonce : Nonce) text, pk.encrypt r.mailKeys.publicBytes k nonce.1 text ≠ []
  content : pk.readContent (encode content.json) = .ok content
  envelope : pk.readEnvelope env.json = .ok env
  part : ∀ n < (encode env.json).length, ∃ e, pk.readEnvelope (lossy ((encode env.json).take n)) = .error e
  size : (encode env.json).length < 2 ^ 64

private theorem readMail_stored {st : MailStore δ} {secret : Key} {disk disk' : Disk} (hslash : '/' ∉ env.id)
    (hstored : (st.storeIncoming t env disk).2 = .ok ()) (hread : pk.readEnvelope env.json = .ok env)
    (hopen : openMessage pk secret env.ephemeralPubkey env.sealedBody = .ok (encode content.json))
    (hcontent : pk.readContent (encode content.json) = .ok content) :
    (st.readMail pk (st.storeIncoming t env disk).1 env.id secret disk').2 = .ok (env, content) := by
  unfold MailStore.storeIncoming at hstored ⊢
  obtain ⟨e, hw⟩ | ⟨p, hdir, n, res, hloc, hw, hall⟩ :=
    t.write_cases st.inboxDir (mailFile env.id) (encode env.json) disk
  · rw [hw] at hstored
    cases hstored
  · obtain rfl := FileTree.locate_of_name (slash_mailFile hslash) hloc
    rw [hw] at hstored ⊢
    dsimp only at hstored ⊢
    have hwhole : (encode env.json).take n = encode env.json := by
      cases res with
      | error e => cases hstored
      | ok u => exact hall rfl
    rw [hwhole]
    generalize hput : t.put (st.inboxDir, mailFile env.id) (encode env.json) hdir = tree
    have hfile : tree.files.get? (st.inboxDir, mailFile env.id) = some (encode env.json) := by
      rw [← hput, FileTree.get?_put, if_pos rfl]
    have hdirs : ¬ (tree.dirs.get? (st.inboxDir, mailFile env.id)).isSome := by
      rw [← hput]
      exact hdir
    have hopens : ∀ u : FileTree δ, u.dirs = tree.dirs →
        u.files.get? (st.inboxDir, mailFile env.id) = some (encode env.json) →
        MailStore.openFile pk u st.inboxDir (mailFile env.id) secret = .ok (env, content) := by
      intro u hu hufile
      have hbytes : u.read st.inboxDir (mailFile env.id) = .ok (encode env.json) := by
        unfold FileTree.read
        rw [FileTree.locate_congr (slash_mailFile hslash), hloc]
        dsimp only
        rw [hu, if_neg hdirs, hufile]
      unfold MailStore.openFile readToString readText
      rw [hbytes]
      dsimp only
      rw [lossy_encode, if_pos rfl]
      dsimp only
      rw [hread]
      dsimp only
      rw [hopen]
      dsimp only
      rw [hcontent]
    have hhas : tree.has st.inboxDir (mailFile env.id) = true := by
      unfold FileTree.has
      rw [FileTree.locate_congr (slash_mailFile hslash), hloc]
      dsimp only
      rw [hfile, Option.isSome_some, Bool.or_true]
    unfold MailStore.readMail
    rw [if_pos hhas]
    dsimp only
    -- the marker is another file
    obtain ⟨e, hm⟩ | ⟨p, hp, k, res', hmloc, hm, -⟩ := tree.write_cases st.inboxDir (markerFile env.id) [] disk'
    · rw [hm]
      exact hopens _ rfl hfile
    · obtain rfl := FileTree.locate_of_name (slash_markerFile hslash) hmloc
      rw [hm]
      refine hopens _ rfl ?_
      rw [FileTree.get?_put, if_neg]
      · exact hfile
      · intro heq
        exact mailFile_ne_markerFile _ _ (congrArg Prod.snd heq)

def Takes (r : ServerState δ) (t' : FileTree δ) (addr : Text) (env : MailEnvelope) (disk : Disk) : Prop :=
  deliverHead addr (encode env.json).length + (encode env.json).length ≤ bufferSize ∧
    (r.store.storeIncoming t' env disk).2 = .ok ()

variable (pk s r t t') (w w' : World)

def delivery (front : Frontend) (cuts : List Nat) (addr : Text) (env : MailEnvelope) : Outcome δ :=
  handleConnection pk r front t' (cutAt cuts (encode (deliverRequest addr env))) w'

def Taken (o : Outcome δ) (env : MailEnvelope) : Prop := o.answer = some (storedAnswer env (.ok ()))

def Reported (o : Outcome δ) : Prop := o.answer = some (jsonOk "\x7b\"ok\":true\x7d".toList)

variable {pk s r t t' w w'}

private theorem delivery_cases (h : oneLine addr = true) (hworks : Works pk s r env content)
    (hsig : verifySig pk env.senderVerifyingKey env.signingData env.signature = true) (front : Frontend)
    (cuts : List Nat) :
    (Takes r t' addr env w'.disk → Taken (delivery pk r t' w' front cuts addr env) env ∧
        (delivery pk r t' w' front cuts addr env).tree = (r.store.storeIncoming t' env w'.disk).1) ∧
      (¬ Takes r t' addr env w'.disk → ¬ Taken (delivery pk r t' w' front cuts addr env) env) := by
  have hrefused : ∀ (status : String) msg, status.toList.head? ≠ some '2' →
      ∀ o : Outcome δ, o.answer = some (jsonErr status msg) → ¬ Taken o env := by
    intro status msg hstatus o ho htaken
    exact jsonErr_ne_jsonOk hstatus _ _ (Option.some.inj (ho.symm.trans htaken))
  unfold delivery
  rw [handleConnection_deliver h hworks.size]
  by_cases hfits : deliverHead addr (encode env.json).length + (encode env.json).length ≤ bufferSize
  · rw [List.take_of_length_le (by omega), lossy_encode]
    have hdeliver : apiDeliver pk r t' env.json w' = .reply (r.store.storeIncoming t' env w'.disk).1
        (storedAnswer env (r.store.storeIncoming t' env w'.disk).2) := by
      unfold apiDeliver
      rw [hworks.envelope]
      dsimp only
      rw [if_pos hsig]
    rw [hdeliver]
    refine ⟨fun htakes => ⟨?_, rfl⟩, fun hnot => ?_⟩
    · show some (storedAnswer env _) = _
      rw [htakes.2]
    · cases hres : (r.store.storeIncoming t' env w'.disk).2 with
      | ok u => exact absurd ⟨hfits, hres⟩ hnot
      | error e => exact hrefused "500" _ (by decide) _ rfl
  · have hpos : 0 < (encode env.json).length := by
      show 0 < (encode ('\x7b' :: _)).length
      rw [encode_cons, List.length_append]
      exact Nat.add_pos_left (by decide) _
    obtain ⟨e, he⟩ := hworks.part (bufferSize - deliverHead addr (encode env.json).length) (by omega)
    have hdeliver : apiDeliver pk r t'
        (lossy ((encode env.json).take (bufferSize - deliverHead addr (encode env.json).length))) w' =
        .reply t' (jsonErr "400" ("parse: ".toList ++ e)) := by
      unfold apiDeliver
      rw [he]
    rw [hdeliver]
    exact ⟨fun htakes => absurd htakes.1 hfits, fun _ => hrefused "400" _ (by decide) _ rfl⟩

/-- A call of the send path that gets to the delivery: a mail reported sent is in the recipient's inbox, and a refused
one is neither reported sent nor kept, just when the recipient takes it, or what is read of its answer has no "200". -/
theorem sent_iff {body : Text} {req : SendRequest} {page resp : List UInt8}
    (hreq : pk.readSendRequest body = .ok req) (haddr : req.directAddr = some addr) (hline : oneLine addr = true)
    (hpage : w.fetched = .ok page) (hkey : readPubkeyAnswer pk page = some (.ok r.mailKeys.publicBytes))
    (hworks : Works pk s r (makeEnvelope pk s req r.mailKeys.publicBytes w) ⟨req.subject, req.body⟩)
    (hresp : w.delivered = .ok resp) (front : Frontend) (cuts : List Nat) :
    let env := makeEnvelope pk s req r.mailKeys.publicBytes w
    let o := apiSendMail pk s t body w
    let o' := delivery pk r t' w' front cuts addr env
    ((Reported o → ∀ disk, (r.store.readMail pk o'.tree env.id r.mailKeys.secretBytes disk).2 =
          .ok (env, ⟨req.subject, req.body⟩)) ∧
        (¬ Taken o' env → ¬ Reported o ∧ o.tree = t)) ↔
      Takes r t' addr env w'.disk ∨ ¬ "200".toList <:+: lossy resp := by
  intro env o o'
  have hslash : '/' ∉ env.id := by
    intro hmem
    have hall := List.all_eq_true.1 w.uuid.2.2 '/' hmem
    exact absurd hall (by decide)
  have hsig : verifySig pk env.senderVerifyingKey env.signingData env.signature = true := by
    obtain ⟨hlen, hverify⟩ := hworks.signs env.signingData
    have hdata : env.signature = pk.sign s.signingKey env.signingData := rfl
    have hkeylen : env.senderVerifyingKey.length = 32 := (pk.verifyingKey s.signingKey).2
    unfold verifySig
    rw [hdata, if_neg (by simp [hkeylen, hlen])]
    exact hverify
  have hopen : openMessage pk r.mailKeys.secretBytes env.ephemeralPubkey env.sealedBody =
      .ok (encode (MailContent.json ⟨req.subject, req.body⟩)) := by
    have hpos := List.length_pos_of_ne_nil (hworks.tagged w.ephemeral w.nonce
      (encode (MailContent.json ⟨req.subject, req.body⟩)))
    show openMessage pk r.mailKeys.secretBytes (pk.publicKey w.ephemeral).1 (w.nonce.1 ++ _) = _
    unfold openMessage
    rw [dif_pos (pk.publicKey w.ephemeral).2, if_neg (by rw [List.length_append, w.nonce.2]; omega),
      List.take_left' w.nonce.2, List.drop_left' w.nonce.2, hworks.opens]
  have hsend : ("200".toList <:+: lossy resp ∧
        ∃ tree asked, o = ⟨tree, some (jsonOk "\x7b\"ok\":true\x7d".toList), asked⟩) ∨
      (¬ "200".toList <:+: lossy resp ∧ ∃ text asked, o = ⟨t, some (jsonErr "502" text), asked⟩) := by
    unfold o apiSendMail
    rw [hreq]
    dsimp only
    rw [haddr]
    dsimp only
    rw [hpage]
    dsimp only
    rw [hkey]
    dsimp only
    rw [hresp]
    dsimp only
    unfold readDeliveryAnswer
    by_cases hfound : "200".toList <:+: lossy resp
    · rw [if_pos hfound]
      exact .inl ⟨hfound, _, _, rfl⟩
    · rw [if_neg hfound]
      exact .inr ⟨hfound, _, _, rfl⟩
  obtain ⟨htakes, hrefuses⟩ :=
    @delivery_cases δ _ addr env pk s r t' ⟨req.subject, req.body⟩ w' hline hworks hsig front cuts
  have hreported : Reported o ↔ "200".toList <:+: lossy resp := by
    unfold Reported
    rcases hsend with ⟨hfound, tree, asked, hsend⟩ | ⟨hfound, text, asked, hsend⟩
    · rw [hsend]
      exact ⟨fun _ => hfound, fun _ => rfl⟩
    · rw [hsend]
      exact ⟨fun h => absurd (Option.some.inj h) (jsonErr_ne_jsonOk (by decide) _ _), fun h => absurd h hfound⟩
  by_cases htake : Takes r t' addr env w'.disk
  · obtain ⟨htaken, htree⟩ := htakes htake
    refine ⟨fun _ => .inl htake, fun _ => ⟨fun _ disk => ?_, fun hnot => absurd htaken hnot⟩⟩
    show (r.store.readMail pk (delivery pk r t' w' front cuts addr env).tree _ _ _).2 = _
    rw [htree]
    exact readMail_stored hslash htake.2 hworks.envelope hopen hworks.content
  · have hnot := hrefuses htake
    constructor
    · rintro ⟨-, hclean⟩
      exact .inr fun hfound => (hclean hnot).1 (hreported.2 hfound)
    · rintro (h | hfound)
      · exact absurd h htake
      · refine ⟨fun hrep => absurd (hreported.1 hrep) hfound, fun _ => ⟨fun hrep => hfound (hreported.1 hrep), ?_⟩⟩
        rcases hsend with ⟨hyes, -⟩ | ⟨-, text, asked, hsend⟩
        · exact absurd hyes hfound
        · rw [hsend]

/-! ### A request of this machine's own -/

private theorem splitCrlf_line {l : Text} (h : '\r' ∉ l) (more : Text) :
    splitCrlf (l ++ '\r' :: '\n' :: more) = l :: splitCrlf more := by
  induction l with
  | nil => rfl
  | cons c l ih =>
    have hc : '\r' ≠ c := List.ne_of_not_mem_cons h
    rw [List.cons_append, splitCrlf.eq_3, ih (List.not_mem_of_not_mem_cons h)]
    intro t ht
    exact absurd ht hc.symm

def sendLines (n : Nat) : List Text :=
  ["POST /api/send HTTP/1.1".toList, "Host: 127.0.0.1:8025".toList, "Content-Length: ".toList ++ number n]

def sendRequest (body : Text) : Text := crlf (sendLines (encode body).length) ++ '\r' :: '\n' :: body

private theorem isLine_send (n : Nat) : ∀ l ∈ sendLines n, IsLine l := by
  unfold sendLines
  simp only [List.forall_mem_cons]
  exact ⟨isLine_of_oneLine (by simp) (by decide), isLine_of_oneLine (by simp) (by decide),
    isLine_of_oneLine (by simp) (oneLine_append (by decide) (oneLine_number n)),
    fun l hl => absurd hl List.not_mem_nil⟩

private theorem splitCrlf_send (body : Text) :
    splitCrlf (sendRequest body) = sendLines (encode body).length ++ [] :: splitCrlf body := by
  have hlines : ∀ lines : List Text, (∀ l ∈ lines, IsLine l) → ∀ more : Text,
      splitCrlf (crlf lines ++ more) = lines ++ splitCrlf more := by
    intro lines h more
    induction lines with
    | nil => rfl
    | cons l lines ih =>
      obtain ⟨hl, hrest⟩ := List.forall_mem_cons.1 h
      have hcons : crlf (l :: lines) ++ more = l ++ '\r' :: '\n' :: (crlf lines ++ more) := by simp [crlf]
      rw [hcons, splitCrlf_line hl.2.1, ih hrest]
      rfl
  unfold sendRequest
  rw [hlines _ (isLine_send _)]
  rfl

/-- It names this machine as its host, and no origin. -/
private theorem fromThisMachine_send (body : Text) : fromThisMachine (sendRequest body) = true := by
  have hfields : ((splitCrlf (sendRequest body)).drop 1).takeWhile (· ≠ []) =
      ["Host: 127.0.0.1:8025".toList, "Content-Length: ".toList ++ number (encode body).length] := by
    rw [splitCrlf_send]
    rfl
  have hlength : splitOnce ':' ("Content-Length: ".toList ++ number (encode body).length) =
      some ("Content-Length".toList, ' ' :: number (encode body).length) := rfl
  have hhost : header (sendRequest body) "host" = some "127.0.0.1:8025".toList := by
    unfold header
    rw [hfields, List.findSome?_cons_of_isSome (by decide)]
    decide
  have horigin : header (sendRequest body) "origin" = none := by
    unfold header
    rw [hfields, List.findSome?_cons_of_isNone (by decide), List.findSome?_cons, hlength]
    dsimp only
    rw [if_neg (by decide)]
    rfl
  unfold fromThisMachine screen
  rw [hhost, horigin, if_neg (by decide)]

/-- What fits the buffer gets to the send path. -/
private theorem handleConnection_send {body : Text} (hcr : '\r' ∉ body)
    (hfits : (encode (sendRequest body)).length ≤ bufferSize) (front : Frontend) (w : World) :
    handleConnection pk s front t [encode (sendRequest body)] w = apiSendMail pk s t body w := by
  have hraw : readRequest [] [encode (sendRequest body)] = encode (sendRequest body) := by
    have hfill : fill [] (encode (sendRequest body)) = encode (sendRequest body) := List.take_of_length_le hfits
    have hcons : encode (sendRequest body) = 80 :: (encode (sendRequest body)).tail := rfl
    rw [hcons] at hfill ⊢
    unfold readRequest
    rw [hfill]
    split <;> rfl
  have hline : parseRequestLine (sendRequest body) = some ("POST".toList, "/api/send".toList) := by
    have hwords : words "POST /api/send HTTP/1.1".toList =
        ["POST".toList, "/api/send".toList, "HTTP/1.1".toList] := by decide
    unfold parseRequestLine sendRequest
    rw [linesOf_lines (isLine_send _), sendLines, List.cons_append]
    dsimp only
    rw [hwords]
  have hbody : extractBody (sendRequest body) = body := extractBody_lines (isLine_send _) (List.cons_ne_nil _ _) hcr
  unfold handleConnection
  dsimp only
  rw [hraw, lossy_encode]
  split
  · rename_i hnil
    rw [← lossy_encode (sendRequest body), hnil] at hline
    cases hline
  · unfold handleHttp
    rw [hline]
    dsimp only
    rw [if_neg fun h => h.1 (fromThisMachine_send body)]
    unfold route
    rw [if_neg (by decide), if_neg (by decide), if_neg (by decide), if_neg (by decide),
      if_neg (by decide), if_neg (by decide), if_neg (by decide), if_neg (by decide),
      if_pos (by decide), hbody]

/-! ### A long mail -/

private theorem length_lossy_le (bytes : List UInt8) : (lossy bytes).length ≤ bytes.length := by
  obtain ⟨n, hn⟩ : ∃ n, bytes.length ≤ n := ⟨_, le_rfl⟩
  induction n generalizing bytes with
  | zero =>
    obtain rfl := List.length_eq_zero_iff.1 (Nat.le_zero.1 hn)
    exact Nat.le_refl _
  | succ n ih =>
    by_cases hne : bytes = []
    · subst hne
      exact Nat.le_refl _
    · have hpos := List.length_pos_of_ne_nil hne
      rw [lossy_step hne]
      cases hhead : head? bytes with
      | none =>
        have hbroken := brokenLength_pos bytes
        have hrest := ih (bytes.drop (brokenLength bytes)) (by rw [List.length_drop]; omega)
        rw [List.length_drop] at hrest
        simp only [List.length_cons]
        omega
      | some c =>
        have hsize := c.utf8Size_pos
        have hrest := ih (bytes.drop c.utf8Size) (by rw [List.length_drop]; omega)
        rw [List.length_drop] at hrest
        simp only [List.length_cons]
        omega

/-- What the bytes of an array take, each with what stands before it. -/
def width (b : List UInt8) : Nat := (b.map fun x => (number x.toNat).length + 1).sum

theorem length_bytes {b : List UInt8} (hne : b ≠ []) : (encode (bytes b)).length = width b + 1 := by
  have hnumber : ∀ n : Nat, (encode (number n)).length = (number n).length := fun n =>
    length_encode_ascii fun c hc => by
      have hdigit := digit_of_number hc
      simp only [Char.isDigit, Bool.and_eq_true, decide_eq_true_eq] at hdigit
      exact Nat.lt_of_le_of_lt (UInt32.le_iff_toNat_le.1 hdigit.2) (by decide)
  have hitems : ∀ b : List UInt8, b ≠ [] →
      (encode ([','].intercalate (b.map fun x => number x.toNat))).length + 1 = width b := by
    intro b hne
    induction b with
    | nil => exact absurd rfl hne
    | cons x b ih =>
      cases b with
      | nil =>
        unfold width
        simp [hnumber]
      | cons y b =>
        have hrest := ih (List.cons_ne_nil _ _)
        unfold width at hrest ⊢
        rw [List.map_cons, List.map_cons, List.intercalate_cons_cons, encode_append, encode_append, List.length_append,
          List.length_append, hnumber]
        rw [List.map_cons, List.sum_cons, ← hrest, List.map_cons]
        show _ + 1 + _ + 1 = _
        omega
  unfold bytes array
  rw [List.cons_append, encode_cons, encode_append, List.length_append, List.length_append, ← hitems b hne]
  show 1 + (_ + 1) = _
  omega

namespace Sample

def greeting : MailContent := ⟨"Hi".toList, "Hello".toList⟩

def longHost : Text := ['.'].intercalate (List.replicate 4 (List.replicate 54 'h')) ++ ":9100".toList

def toLong (n : Nat) : SendRequest := ⟨"a@y.hidra".toList, "Hi".toList, List.replicate n 'a', some longHost⟩

def short : SendRequest := ⟨"a@y.hidra".toList, greeting.subject, greeting.body, some "10.0.0.1:9100".toList⟩

def sendJson (req : SendRequest) : Text :=
  object [("to", quoted req.mailTo), ("subject", quoted req.subject), ("body", quoted req.body),
    ("direct_addr", quoted (req.directAddr.getD []))]

/-- Packages that put a tag of zeros in front of what they seal, and read one request, its content and one key. -/
def one (req : SendRequest) (readEnvelope : Text → Except Text MailEnvelope) : Packages where
  publicKey := id
  encrypt := fun _ _ _ text => List.replicate 16 0 ++ text
  decrypt := fun _ _ _ sealedBody => some (sealedBody.drop 16)
  verifyingKey := id
  sign := fun _ _ => List.replicate 64 0
  verify := fun _ _ _ => true
  readEnvelope := readEnvelope
  readContent := fun text =>
    if text = encode (MailContent.json ⟨req.subject, req.body⟩) then .ok ⟨req.subject, req.body⟩ else .error []
  readSendRequest := fun text => if text = sendJson req then .ok req else .error []
  readPubkey := fun _ => .ok (hexEncode key.1)

private theorem readSendRequest_one (req : SendRequest) (readEnvelope : Text → Except Text MailEnvelope) :
    (one req readEnvelope).readSendRequest (sendJson req) = .ok req := if_pos rfl

def page : List UInt8 := encode (jsonOk "\x7b\"pubkey\":\"07\"\x7d".toList)

def asked (answer : Text) : World := { world with fetched := .ok page, delivered := .ok (encode answer) }

def front : Frontend := ⟨[], [], []⟩

def shortMail : MailEnvelope := makeEnvelope (one short fun _ => .error []) server short key world

def reading : Packages := one short fun text => if text = shortMail.json then .ok shortMail else .error []

private theorem readEnvelope_reading (text : Text) :
    reading.readEnvelope text = if text = shortMail.json then .ok shortMail else .error [] := rfl

private theorem readContent_reading (text : List UInt8) :
    reading.readContent text = if text = encode greeting.json then .ok greeting else .error [] := rfl

private theorem makeEnvelope_reading (answer : Text) :
    makeEnvelope reading server short server.mailKeys.publicBytes (asked answer) = shortMail := rfl

private theorem part_short {n : Nat} (hn : n < (encode shortMail.json).length) :
    reading.readEnvelope (lossy ((encode shortMail.json).take n)) = .error [] := by
  rw [readEnvelope_reading]
  refine if_neg fun heq => ?_
  have hlen := length_lossy_le ((encode shortMail.json).take n)
  have hsame : (encode shortMail.json).length = shortMail.json.length := by decide +kernel
  rw [heq, List.length_take] at hlen
  omega

private theorem works_reading : Works reading server server shortMail greeting := by
  have hsize : (encode shortMail.json).length < 2 ^ 64 := by decide +kernel
  refine ⟨fun _ => ⟨rfl, rfl⟩, fun _ _ _ => rfl, fun _ _ _ => List.cons_ne_nil _ _, ?_, ?_, ?_, hsize⟩
  · exact (readContent_reading _).trans (if_pos rfl)
  · exact (readEnvelope_reading _).trans (if_pos rfl)
  · exact fun n hn => ⟨[], part_short hn⟩

private theorem readPubkeyAnswer_page (req : SendRequest) (readEnvelope : Text → Except Text MailEnvelope) :
    readPubkeyAnswer (one req readEnvelope) page = some (.ok key) := by
  have hbody : afterBlank (lossy page) = some "\x7b\"pubkey\":\"07\"\x7d".toList := by decide
  have hdecode : hexDecode (hexEncode key.1) = some (.ok key.1) := by decide
  unfold readPubkeyAnswer
  rw [hbody]
  show (hexDecode (hexEncode key.1)).map _ = _
  rw [hdecode]
  rfl

def longMail (n : Nat) : MailEnvelope := makeEnvelope (one (toLong n) fun _ => .error []) server (toLong n) key world

/-- What `serde_json` says of a text that is cut inside of an array. -/
def cutOff : Text := "EOF while parsing a list at line 1 column 65200".toList

def filling (n : Nat) : Packages :=
  one (toLong n) fun text => if text.length ≤ 65200 then .error cutOff else .ok (longMail n)

private theorem encode_replicate (n : Nat) : encode (List.replicate n 'a') = List.replicate n 97 := by
  rw [encode_ascii fun c hc => by rw [List.eq_of_mem_replicate hc]; decide, List.map_replicate]
  rfl

private theorem quoted_replicate (n : Nat) : quoted (List.replicate n 'a') = '"' :: List.replicate n 'a' ++ ['"'] := by
  have hplain : (List.replicate n 'a').flatMap quoteChar = List.replicate n 'a' := by
    induction n with
    | zero => rfl
    | succ n ih =>
      rw [List.replicate_succ, List.flatMap_cons, ih]
      rfl
  unfold quoted
  rw [hplain]

private theorem length_quoted (n : Nat) : (encode (quoted (List.replicate n 'a'))).length = n + 2 := by
  rw [quoted_replicate, List.cons_append, encode_cons, encode_append, encode_replicate, List.length_append,
    List.length_append, List.length_replicate]
  show 1 + (n + 1) = _
  omega

private theorem length_sendJson (n : Nat) :
    (encode (sendJson (toLong n))).length = n + (encode (sendJson (toLong 0))).length := by
  unfold toLong sendJson object
  simp only [List.map_cons, List.map_nil, List.intercalate, List.intersperse, List.flatten_cons, List.flatten_nil,
    encode_append, encode_cons, List.length_append, length_quoted]
  omega

private theorem no_cr_sendJson (req : SendRequest) : '\r' ∉ sendJson req := by
  refine (plain_object fun f hf => ?_).no_cr
  simp only [List.mem_cons, List.not_mem_nil, or_false] at hf
  obtain rfl | rfl | rfl | rfl := hf <;> exact plain_quoted _

/-- Of the mail only what is sealed depends on the text, and each letter takes three bytes of it. -/
theorem length_longMail (n : Nat) : (encode (longMail n).json).length = 3 * n + (encode (longMail 0).json).length := by
  have hjson (e : MailEnvelope) (b : List UInt8) : (encode { e with sealedBody := b }.json).length + 2 =
      (encode (bytes b)).length + (encode { e with sealedBody := [] }.json).length := by
    have hempty : (encode (bytes [])).length = 2 := rfl
    unfold MailEnvelope.json object
    simp only [List.map_cons, List.map_nil, List.intercalate, List.intersperse, List.flatten_cons, List.flatten_nil,
      encode_append, encode_cons, List.length_append, hempty]
    omega
  have hsealed (n : Nat) : (longMail n).sealedBody = (world.nonce.1 ++ List.replicate 16 0 ++
      encode "\x7b\"subject\":\"Hi\",\"body\":\"".toList) ++ (List.replicate n 97 ++ encode "\"\x7d".toList) := by
    have hcontent : (MailContent.json ⟨"Hi".toList, List.replicate n 'a'⟩) =
        "\x7b\"subject\":\"Hi\",\"body\":\"".toList ++ (List.replicate n 'a' ++ "\"\x7d".toList) := by
      unfold MailContent.json object
      simp only [List.map_cons, List.map_nil, quoted_replicate, List.intercalate, List.intersperse, List.flatten_cons,
        List.flatten_nil]
      simp only [List.append_assoc, List.cons_append]
      rfl
    show world.nonce.1 ++ (List.replicate 16 0 ++ encode (MailContent.json ⟨"Hi".toList, List.replicate n 'a'⟩)) = _
    rw [hcontent, encode_append, encode_append, encode_replicate]
    simp only [List.append_assoc]
  have hwidth (n : Nat) : width (longMail n).sealedBody = 3 * n + width (longMail 0).sealedBody := by
    have hletter : (number (97 : UInt8).toNat).length = 2 := by decide
    rw [hsealed, hsealed]
    unfold width
    simp only [List.map_append, List.sum_append, List.map_replicate, hletter, List.sum_replicate, smul_eq_mul]
    omega
  have hne (n : Nat) : (longMail n).sealedBody ≠ [] := by
    rw [hsealed]
    exact List.cons_ne_nil _ _
  have hmail := hjson (longMail 0) (longMail n).sealedBody
  have hfirst := hjson (longMail 0) (longMail 0).sealedBody
  rw [length_bytes (hne _), hwidth] at hmail
  rw [length_bytes (hne _)] at hfirst
  change (encode (longMail n).json).length + 2 = _ at hmail
  change (encode (longMail 0).json).length + 2 = _ at hfirst
  omega

/-- The head takes 336 bytes, and 65200 of the mail are left. -/
theorem delivery_long {env : MailEnvelope} {e : Text} (hhead : deliverHead longHost (encode env.json).length = 336)
    (hsize : (encode env.json).length < 2 ^ 64)
    (hread : ∀ text : Text, text.length ≤ 65200 → pk.readEnvelope text = .error e) (front : Frontend)
    (cuts : List Nat) :
    delivery pk r t' w' front cuts longHost env = .reply t' (jsonErr "400" ("parse: ".toList ++ e)) := by
  have hline : oneLine longHost = true := by decide +kernel
  have hshort := length_lossy_le ((encode env.json).take (bufferSize - 336))
  rw [List.length_take] at hshort
  unfold delivery
  rw [handleConnection_deliver hline hsize, hhead]
  unfold apiDeliver
  rw [hread _ (hshort.trans (Nat.min_le_left _ _))]

end Sample

open Sample in
theorem sent_iff_short :
    let o := apiSendMail reading server folders (sendJson short) (asked (storedAnswer shortMail (.ok ())))
    let o' := delivery reading server folders world front [100, 7] "10.0.0.1:9100".toList shortMail
    Reported o ∧ (server.store.readMail reading o'.tree shortMail.id key .done).2 = .ok (shortMail, greeting) := by
  have hworks : Works reading server server
      (makeEnvelope reading server short server.mailKeys.publicBytes (asked (storedAnswer shortMail (.ok ()))))
      ⟨short.subject, short.body⟩ := by
    rw [makeEnvelope_reading]
    exact works_reading
  have hline : oneLine "10.0.0.1:9100".toList = true := by decide
  have hiff := @sent_iff Nat _ "10.0.0.1:9100".toList reading server server folders folders
    (asked (storedAnswer shortMail (.ok ()))) world (sendJson short) short page _ (readSendRequest_one _ _) rfl hline rfl
    (readPubkeyAnswer_page _ _) hworks rfl front [100, 7]
  rw [makeEnvelope_reading] at hiff
  have hreported : Reported (apiSendMail reading server folders (sendJson short)
      (asked (storedAnswer shortMail (.ok ())))) := by
    unfold Reported
    decide +kernel
  have htakes : Takes server folders "10.0.0.1:9100".toList shortMail .done := by
    unfold Takes
    decide +kernel
  exact ⟨hreported, (hiff.2 (.inl htakes)).1 hreported .done⟩

open Sample in
private theorem reported_long {n : Nat} (hn : n ≤ 60000) (hhead : deliverHead longHost (3 * n + 582) = 336)
    (hshort : (encode (crlf (sendLines (n + 284)))).length = 70) :
    let answer := jsonErr "400" ("parse: ".toList ++ cutOff)
    let env := makeEnvelope (filling n) server (toLong n) server.mailKeys.publicBytes (asked answer)
    let o := handleConnection (filling n) server front folders [encode (sendRequest (sendJson (toLong n)))] (asked answer)
    let o' := delivery (filling n) server folders world front [] longHost env
    o'.answer = some answer ∧ ¬ Taken o' env ∧ Reported o := by
  intro answer env o o'
  have hlen : (encode env.json).length = 3 * n + 582 := by
    have hrest : (encode (longMail 0).json).length = 582 := by decide +kernel
    show (encode (longMail n).json).length = _
    rw [length_longMail, hrest]
  have ho' : o' = .reply folders answer :=
    delivery_long (by rw [hlen, hhead]) (by omega) (fun text htext => if_pos htext) front []
  have hfits : (encode (sendRequest (sendJson (toLong n)))).length ≤ bufferSize := by
    have hrest : (encode (sendJson (toLong 0))).length = 284 := by decide +kernel
    unfold sendRequest bufferSize
    rw [length_sendJson, hrest, encode_append, List.length_append, hshort, encode_cons, encode_cons, List.length_append,
      List.length_append, length_sendJson, hrest]
    show 70 + (1 + (1 + (n + 284))) ≤ _
    omega
  have hfound : readDeliveryAnswer (encode answer) = .ok () := by decide +kernel
  have hfetched : (asked answer).fetched = .ok page := rfl
  have hdelivered : (asked answer).delivered = .ok (encode answer) := rfl
  have ho : Reported o := by
    unfold Reported o
    rw [handleConnection_send (no_cr_sendJson _) hfits]
    unfold apiSendMail
    rw [show (filling n).readSendRequest (sendJson (toLong n)) = .ok (toLong n) from readSendRequest_one _ _]
    dsimp only [toLong]
    rw [hfetched]
    dsimp only
    rw [show readPubkeyAnswer (filling n) page = some (.ok key) from readPubkeyAnswer_page _ _]
    dsimp only
    rw [hdelivered]
    dsimp only
    rw [hfound]
  refine ⟨by rw [ho']; rfl, ?_, ho⟩
  rw [ho']
  exact fun htaken => jsonErr_ne_jsonOk (by decide) _ _ (Option.some.inj htaken)

open Sample in
/-- A mail of 22000 letters fits the sender's buffer, and its envelope does not fit the recipient's. -/
theorem reported_sent : ∃ answer,
    let pk := filling 22000
    let env := makeEnvelope pk server (toLong 22000) server.mailKeys.publicBytes (asked answer)
    let o := handleConnection pk server front folders [encode (sendRequest (sendJson (toLong 22000)))] (asked answer)
    let o' := delivery pk server folders world front [] longHost env
    o'.answer = some answer ∧ ¬ Taken o' env ∧ Reported o :=
  ⟨_, reported_long (by decide) (by decide +kernel) (by decide +kernel)⟩

end HidraNet.Hidramail
