import HidraNet.Hidramail.Mail

/-!
# The mail store

Two folders of files: a mail is `{id}.json` in one of them, and the inbox has `{id}.read` beside a mail that was read.
The id is whatever the mail's sender, or the request, says; it is joined to the folder as a path.

With an id that has no slash, each operation reads, makes and removes only what the id names in the folder it is joined
to (`storeIncoming_cases`, `readMail_tree`, `deleteMail_tree`).
-/

namespace HidraNet.Hidramail

open FileTrees Maps Utf8

variable {δ : Type*} [DecidableEq δ]

structure MailStore (δ : Type*) where
  inboxDir : δ
  sentDir : δ
deriving DecidableEq

def mailFile (id : Text) : Name := id ++ ".json".toList

def markerFile (id : Text) : Name := id ++ ".read".toList

def readText (bytes : List UInt8) : Option Text := if encode (lossy bytes) = bytes then some (lossy bytes) else none

/-- `fs::read_to_string`. -/
def readToString (t : FileTree δ) (base : δ) (path : Text) : Except Refusal Text :=
  match t.read base path with
  | .error e => .error e
  | .ok bytes =>
    match readText bytes with
    | none => .error (.disk "stream did not contain valid UTF-8")
    | some text => .ok text

/-- `Path::extension` of a name. -/
def extension (name : Name) : Option Name :=
  let after := (name.reverse.takeWhile (· ≠ '.')).reverse
  if after.length + 1 < name.length ∧ name ≠ ['.', '.'] then some after else none

def withExtension (name ext : Name) : Name :=
  match extension name with
  | none => name ++ '.' :: ext
  | some after => name.take (name.length - after.length) ++ ext

namespace MailStore

variable (pk : Packages) (st : MailStore δ)

def storeIncoming (t : FileTree δ) (env : MailEnvelope) (disk : Disk) : FileTree δ × Except HidraError Unit :=
  let (t, r) := t.write st.inboxDir (mailFile env.id) (encode env.json) disk
  (t, r.mapError .io)

def storeSent (t : FileTree δ) (env : MailEnvelope) (disk : Disk) : FileTree δ × Except HidraError Unit :=
  let (t, r) := t.write st.sentDir (mailFile env.id) (encode env.json) disk
  (t, r.mapError .io)

def decryptSubject (env : MailEnvelope) (secret : Key) : Text :=
  match openMessage pk secret env.ephemeralPubkey env.sealedBody with
  | .error _ => "[encrypted]".toList
  | .ok plaintext =>
    match pk.readContent plaintext with
    | .error _ => "[error]".toList
    | .ok c => c.subject

/-- A folder's mails, the latest first. -/
def listFolder (t : FileTree δ) (dir : δ) (secret : Key) : List MailSummary :=
  let out := t.files.entries.filterMap fun entry =>
    if entry.1.1 ≠ dir ∨ extension entry.1.2 ≠ some "json".toList then none
    else
      match readText entry.2 with
      | none => none
      | some data =>
        match pk.readEnvelope data with
        | .error _ => none
        | .ok env =>
          some ⟨env.id, env.fromAddr, env.toAddr, env.timestamp, decryptSubject pk env secret,
            t.has dir (withExtension entry.1.2 "read".toList)⟩
  out.mergeSort fun a b => b.timestamp ≤ a.timestamp

def listInbox (t : FileTree δ) (secret : Key) : List MailSummary := listFolder pk t st.inboxDir secret

def listSent (t : FileTree δ) (secret : Key) : List MailSummary := listFolder pk t st.sentDir secret

def notFound (id : Text) : HidraError := .protocol ("mail not found: ".toList ++ id)

/-- The mail in a file. -/
def openFile (t : FileTree δ) (dir : δ) (path : Text) (secret : Key) : Except HidraError (MailEnvelope × MailContent) :=
  match readToString t dir path with
  | .error e => .error (.io e)
  | .ok data =>
    match pk.readEnvelope data with
    | .error e => .error (.protocol ("deserialize: ".toList ++ e))
    | .ok env =>
      match openMessage pk secret env.ephemeralPubkey env.sealedBody with
      | .error e => .error e
      | .ok plaintext =>
        match pk.readContent plaintext with
        | .error e => .error (.protocol ("content: ".toList ++ e))
        | .ok content => .ok (env, content)

def readMail (t : FileTree δ) (id : Text) (secret : Key) (disk : Disk) :
    FileTree δ × Except HidraError (MailEnvelope × MailContent) :=
  if t.has st.inboxDir (mailFile id) then
    -- whether the marker could be written is not looked at
    let t := (t.write st.inboxDir (markerFile id) [] disk).1
    (t, openFile pk t st.inboxDir (mailFile id) secret)
  else if t.has st.sentDir (mailFile id) then (t, openFile pk t st.sentDir (mailFile id) secret)
  else (t, .error (notFound id))

/-- With what the disk says to the removal of the mail, and of the marker. -/
def deleteMail (t : FileTree δ) (id : Text) (refused : Option String × Option String) :
    FileTree δ × Except HidraError Unit :=
  if t.has st.inboxDir (mailFile id) then
    match t.remove st.inboxDir (mailFile id) refused.1 with
    | (t, .error e) => (t, .error (.io e))
    | (t, .ok ()) => ((t.remove st.inboxDir (markerFile id) refused.2).1, .ok ())
  else if t.has st.sentDir (mailFile id) then
    let (t, r) := t.remove st.sentDir (mailFile id) refused.1
    (t, r.mapError .io)
  else (t, .error (notFound id))

end MailStore

/-! ### Ids without a slash -/

variable {t t' : FileTree δ} {id : Text}

theorem slash_mailFile (h : '/' ∉ id) : '/' ∉ mailFile id := by
  unfold mailFile
  rw [List.mem_append, not_or]
  exact ⟨h, by decide⟩

theorem slash_markerFile (h : '/' ∉ id) : '/' ∉ markerFile id := by
  unfold markerFile
  rw [List.mem_append, not_or]
  exact ⟨h, by decide⟩

theorem mailFile_ne_markerFile (id id' : Text) : mailFile id ≠ markerFile id' := by
  intro h
  unfold mailFile markerFile at h
  -- they differ in the last character
  have hlast : some 'n' = some 'd' := by
    calc some 'n' = (id ++ ".json".toList).getLast? := by rw [List.getLast?_append]; rfl
      _ = (id' ++ ".read".toList).getLast? := by rw [h]
      _ = some 'd' := by rw [List.getLast?_append]; rfl
  cases hlast

theorem mailFile_inj {id' : Text} (h : mailFile id = mailFile id') : id = id' := List.append_cancel_right h

namespace MailStore

variable {pk : Packages} {st : MailStore δ} {env : MailEnvelope} {secret : Key} {disk : Disk}

/-- A mail stored is put in its file, whole when the disk takes it. -/
theorem storeIncoming_cases (st : MailStore δ) (t : FileTree δ) (disk : Disk) (hslash : '/' ∉ env.id) :
    (∃ e, st.storeIncoming t env disk = (t, .error e)) ∨
    ∃ h n r, st.storeIncoming t env disk = (t.put (st.inboxDir, mailFile env.id) ((encode env.json).take n) h, r) ∧
      (r = .ok () → (encode env.json).take n = encode env.json) := by
  unfold storeIncoming
  obtain ⟨e, hw⟩ | ⟨p, h, n, r, hloc, hw, hall⟩ :=
    t.write_cases st.inboxDir (mailFile env.id) (encode env.json) disk
  · rw [hw]
    exact .inl ⟨_, rfl⟩
  · obtain rfl := FileTree.locate_of_name (slash_mailFile hslash) hloc
    rw [hw]
    refine .inr ⟨h, n, _, rfl, fun hr => hall ?_⟩
    cases r with
    | error e => cases hr
    | ok u => rfl

theorem readMail_tree (pk : Packages) (st : MailStore δ) (t : FileTree δ) (secret : Key) (disk : Disk)
    (hslash : '/' ∉ id) :
    (st.readMail pk t id secret disk).1 = t ∨
    t.has st.inboxDir (mailFile id) = true ∧
      ∃ h, (st.readMail pk t id secret disk).1 = t.put (st.inboxDir, markerFile id) [] h := by
  unfold readMail
  split
  · rename_i hhas
    obtain ⟨e, hw⟩ | ⟨p, h, n, r, hloc, hw, -⟩ := t.write_cases st.inboxDir (markerFile id) [] disk
    · exact .inl (by rw [hw])
    · obtain rfl := FileTree.locate_of_name (slash_markerFile hslash) hloc
      refine .inr ⟨hhas, h, ?_⟩
      rw [hw, List.take_nil]
  · split <;> exact .inl rfl

theorem deleteMail_tree (st : MailStore δ) (t : FileTree δ) (refused : Option String × Option String)
    (hslash : '/' ∉ id) :
    (st.deleteMail t id refused).1 = t ∨
    (st.deleteMail t id refused).1 = t.drop (st.inboxDir, mailFile id) ∨
    (st.deleteMail t id refused).1 = (t.drop (st.inboxDir, mailFile id)).drop (st.inboxDir, markerFile id) ∨
    (st.deleteMail t id refused).1 = t.drop (st.sentDir, mailFile id) := by
  unfold deleteMail
  split
  · obtain ⟨e, hr⟩ | ⟨p, hloc, hr⟩ := t.remove_cases st.inboxDir (mailFile id) refused.1
    · rw [hr]
      exact .inl rfl
    · obtain rfl := FileTree.locate_of_name (slash_mailFile hslash) hloc
      rw [hr]
      dsimp only
      obtain ⟨e, hr'⟩ | ⟨p, hloc', hr'⟩ :=
        (t.drop (st.inboxDir, mailFile id)).remove_cases st.inboxDir (markerFile id) refused.2
      · rw [hr']
        exact .inr (.inl rfl)
      · obtain rfl := FileTree.locate_of_name (slash_markerFile hslash) hloc'
        rw [hr']
        exact .inr (.inr (.inl rfl))
  · split
    · obtain ⟨e, hr⟩ | ⟨p, hloc, hr⟩ := t.remove_cases st.sentDir (mailFile id) refused.1
      · rw [hr]
        exact .inl rfl
      · obtain rfl := FileTree.locate_of_name (slash_mailFile hslash) hloc
        rw [hr]
        exact .inr (.inr (.inr rfl))
    · exact .inl rfl

/-- Two trees with the same directories, and the same mail of an id in both folders. -/
structure SameMail (st : MailStore δ) (id : Text) (t t' : FileTree δ) : Prop where
  dirs : t.dirs = t'.dirs
  inbox : t.files.get? (st.inboxDir, mailFile id) = t'.files.get? (st.inboxDir, mailFile id)
  sent : t.files.get? (st.sentDir, mailFile id) = t'.files.get? (st.sentDir, mailFile id)

theorem openFile_congr {dir : δ} {path : Text} (h : t.read dir path = t'.read dir path) :
    openFile pk t dir path secret = openFile pk t' dir path secret := by
  unfold openFile readToString
  rw [h]

theorem readMail_congr (hslash : '/' ∉ id) (h : SameMail st id t t') :
    (st.readMail pk t id secret disk).2 = (st.readMail pk t' id secret disk).2 := by
  have hinbox : t.has st.inboxDir (mailFile id) = t'.has st.inboxDir (mailFile id) :=
    FileTree.has_congr (slash_mailFile hslash) h.dirs h.inbox
  have hsent : t.has st.sentDir (mailFile id) = t'.has st.sentDir (mailFile id) :=
    FileTree.has_congr (slash_mailFile hslash) h.dirs h.sent
  -- the marker is another file than the mail
  have hmarked : ∀ u : FileTree δ,
      (u.write st.inboxDir (markerFile id) [] disk).1.dirs = u.dirs ∧
        (u.write st.inboxDir (markerFile id) [] disk).1.files.get? (st.inboxDir, mailFile id) =
          u.files.get? (st.inboxDir, mailFile id) := by
    intro u
    obtain ⟨e, hw⟩ | ⟨p, hp, n, r, hloc, hw, -⟩ := u.write_cases st.inboxDir (markerFile id) [] disk
    · rw [hw]
      exact ⟨rfl, rfl⟩
    · obtain rfl := FileTree.locate_of_name (slash_markerFile hslash) hloc
      rw [hw]
      refine ⟨rfl, ?_⟩
      rw [FileTree.get?_put, if_neg]
      intro heq
      exact mailFile_ne_markerFile id id (congrArg Prod.snd heq)
  unfold readMail
  rw [hinbox, hsent]
  split
  · apply openFile_congr
    apply FileTree.read_congr (slash_mailFile hslash)
    · rw [(hmarked t).1, (hmarked t').1, h.dirs]
    · rw [(hmarked t).2, (hmarked t').2, h.inbox]
  · split
    · exact openFile_congr (FileTree.read_congr (slash_mailFile hslash) h.dirs h.sent)
    · rfl

theorem deleteMail_congr (hslash : '/' ∉ id) (h : SameMail st id t t') (refused : Option String × Option String) :
    (st.deleteMail t id refused).2 = (st.deleteMail t' id refused).2 := by
  have hinbox : t.has st.inboxDir (mailFile id) = t'.has st.inboxDir (mailFile id) :=
    FileTree.has_congr (slash_mailFile hslash) h.dirs h.inbox
  have hsent : t.has st.sentDir (mailFile id) = t'.has st.sentDir (mailFile id) :=
    FileTree.has_congr (slash_mailFile hslash) h.dirs h.sent
  have hrinbox := FileTree.remove_congr (slash_mailFile hslash) h.dirs h.inbox refused.1
  have hrsent := FileTree.remove_congr (slash_mailFile hslash) h.dirs h.sent refused.1
  unfold deleteMail
  rw [hinbox, hsent]
  split
  · cases hu : t.remove st.inboxDir (mailFile id) refused.1 with
    | mk u r =>
      cases hu' : t'.remove st.inboxDir (mailFile id) refused.1 with
      | mk u' r' =>
        rw [hu, hu'] at hrinbox
        obtain rfl : r = r' := hrinbox
        cases r <;> rfl
  · split
    · show Except.mapError _ (t.remove st.sentDir (mailFile id) refused.1).2 =
        Except.mapError _ (t'.remove st.sentDir (mailFile id) refused.1).2
      rw [hrsent]
    · rfl

end MailStore

end HidraNet.Hidramail
