import HidraNet.Hidramail.Reading
import HidraNet.Hidramail.Server
import HidraNet.Lib.JsonReader

/-!
# What a reader makes of an answer

The answers are put together as text, with the quotes, the backslashes and three of the control characters escaped in a
mail, and nothing in an error.  A mail is read back when it has no other control character, and an error when it has
nothing that had to be escaped (`answers_iff`); else the answer may be no JSON at all (`unreadable`).
-/

namespace HidraNet.Hidramail

open FileTrees Json Utf8

variable {δ : Type*} [DecidableEq δ]

def answerBody (answer : Text) : Option Text := (splitBlank answer).map Prod.snd

/-- A text without the control characters that `escape_json` leaves. -/
def Shown (s : Text) : Prop := ∀ c ∈ s, 0x20 ≤ c.toNat ∨ c = '\n' ∨ c = '\r' ∨ c = '\t'

instance (s : Text) : Decidable (Shown s) := List.decidableBAll ..

def Legible (env : MailEnvelope) (content : MailContent) : Prop :=
  Shown env.id ∧ Shown env.fromAddr ∧ Shown env.toAddr ∧ Shown content.subject ∧ Shown content.body

instance (env : MailEnvelope) (content : MailContent) : Decidable (Legible env content) := by
  unfold Legible
  infer_instance

def mailValue (env : MailEnvelope) (content : MailContent) (verified : Bool) : Value :=
  .object [("id".toList, .string env.id), ("from_addr".toList, .string env.fromAddr),
    ("to_addr".toList, .string env.toAddr), ("subject".toList, .string content.subject),
    ("body".toList, .string content.body), ("timestamp".toList, .nat env.timestamp),
    ("verified".toList, .bool verified)]

def errorValue (msg : Text) : Value := .object [("error".toList, .string msg)]

/-! ### Escaped texts -/

private theorem readChars_escapeJson (s rest : Text) :
    readChars (escapeJson s ++ '"' :: rest) = if Shown s then some (s, rest) else none := by
  induction s with
  | nil =>
    have hnil : Shown [] := fun c hc => absurd hc List.not_mem_nil
    rw [if_pos hnil]
    exact readChars_bare (fun c hc => absurd hc List.not_mem_nil) rest
  | cons c s ih =>
    have hshown : Shown (c :: s) ↔ (0x20 ≤ c.toNat ∨ c = '\n' ∨ c = '\r' ∨ c = '\t') ∧ Shown s := List.forall_mem_cons
    -- a letter that is read as it was meant
    have hread : ∀ text, 0x20 ≤ c.toNat ∨ c = '\n' ∨ c = '\r' ∨ c = '\t' →
        readChars text = ((readChars (escapeJson s ++ '"' :: rest)).map fun r => (c :: r.1, r.2)) →
        readChars text = if Shown (c :: s) then some (c :: s, rest) else none := by
      intro text hc htext
      rw [htext, ih]
      by_cases hs : Shown s
      · rw [if_pos hs, if_pos (hshown.2 ⟨hc, hs⟩)]
        rfl
      · rw [if_neg hs, if_neg fun h => hs (hshown.1 h).2]
        rfl
    have hunread : ¬ Shown (c :: s) → (if Shown (c :: s) then some (c :: s, rest) else none) = none := fun h => if_neg h
    show readChars ((if _ then _ else _) ++ escapeJson s ++ '"' :: rest) = _
    rw [List.append_assoc]
    generalize (if Shown (c :: s) then some (c :: s, rest) else none) = expected at hread hunread
    split_ifs with hslash hquote hnewline hreturn htab
    · subst hslash
      exact hread _ (.inl (by decide)) (readChars_escaped (e := '\\') rfl _)
    · subst hquote
      exact hread _ (.inl (by decide)) (readChars_escaped (e := '"') rfl _)
    · subst hnewline
      exact hread _ (by decide) (readChars_escaped (e := 'n') rfl _)
    · subst hreturn
      exact hread _ (by decide) (readChars_escaped (e := 'r') rfl _)
    · subst htab
      exact hread _ (by decide) (readChars_escaped (e := 't') rfl _)
    · by_cases hlow : 0x20 ≤ c.toNat
      · exact hread _ (.inl hlow) (readChars_plain ⟨hlow, hquote, hslash⟩ _)
      · rw [hunread fun h => ?_, List.singleton_append, readChars.eq_def]
        · dsimp only
          rw [if_neg hquote, if_pos (by omega)]
        · obtain h | h | h | h := (hshown.1 h).1
          · exact hlow h
          · exact hnewline h
          · exact hreturn h
          · exact htab h

private theorem readFields_escaped {name : Text} (h : Bare name) (n : Nat) (s rest : Text) :
    readFields (n + 2) ('"' :: (name ++ '"' :: ':' :: '"' :: (escapeJson s ++ '"' :: ',' :: rest))) =
      if Shown s then (readFields (n + 1) rest).map fun more => ((name, .string s) :: more.1, more.2) else none := by
  rw [readFields_quoted h, readValue_string, readChars_escapeJson]
  split <;> rfl

private theorem parse_mailBody (env : MailEnvelope) (content : MailContent) (verified : Bool) :
    parse (mailBody env content verified) =
      if Legible env content then some (mailValue env content verified) else none := by
  -- the last two fields
  have hend : ∀ n, readFields (n + 3) ('"' :: ("timestamp".toList ++ '"' :: ':' :: (number env.timestamp ++ ',' ::
      '"' :: ("verified".toList ++ '"' :: ':' :: (bool verified ++ ['\x7d']))))) =
      some ([("timestamp".toList, .nat env.timestamp), ("verified".toList, .bool verified)], []) := by
    intro n
    rw [readFields_quoted (by decide), readValue_number _ _ (by decide), Option.bind_some]
    show (readFields (n + 2) ('"' :: ("verified".toList ++ '"' :: ':' :: (bool verified ++ ['\x7d'])))).map _ = _
    rw [readFields_quoted (by decide)]
    cases verified <;> rfl
  have hbody : mailBody env content verified = '\x7b' :: '"' :: ("id".toList ++ '"' :: ':' :: '"' ::
      (escapeJson env.id ++ '"' :: ',' :: '"' :: ("from_addr".toList ++ '"' :: ':' :: '"' ::
      (escapeJson env.fromAddr ++ '"' :: ',' :: '"' :: ("to_addr".toList ++ '"' :: ':' :: '"' ::
      (escapeJson env.toAddr ++ '"' :: ',' :: '"' :: ("subject".toList ++ '"' :: ':' :: '"' ::
      (escapeJson content.subject ++ '"' :: ',' :: '"' :: ("body".toList ++ '"' :: ':' :: '"' ::
      (escapeJson content.body ++ '"' :: ',' :: '"' :: ("timestamp".toList ++ '"' :: ':' ::
      (number env.timestamp ++ ',' :: '"' ::
      ("verified".toList ++ '"' :: ':' :: (bool verified ++ ['\x7d'])))))))))))))) := by
    unfold mailBody
    simp only [List.append_assoc]
    rfl
  rw [hbody, parse_object]
  generalize hlen : List.length _ + 2 = n
  obtain ⟨n, rfl⟩ : ∃ k, n = k + 8 := ⟨n - 8, by simp at hlen; omega⟩
  rw [readFields_escaped (by decide), readFields_escaped (by decide), readFields_escaped (by decide),
    readFields_escaped (by decide), readFields_escaped (by decide), hend]
  by_cases hid : Shown env.id
  swap
  · rw [if_neg hid, if_neg fun h : Legible env content => hid h.1]
    rfl
  by_cases hfrom : Shown env.fromAddr
  swap
  · rw [if_pos hid, if_neg hfrom,
      if_neg fun h : Legible env content => hfrom h.2.1]
    rfl
  by_cases hto : Shown env.toAddr
  swap
  · rw [if_pos hid, if_pos hfrom, if_neg hto,
      if_neg fun h : Legible env content => hto h.2.2.1]
    rfl
  by_cases hsubject : Shown content.subject
  swap
  · rw [if_pos hid, if_pos hfrom, if_pos hto, if_neg hsubject,
      if_neg fun h : Legible env content => hsubject h.2.2.2.1]
    rfl
  by_cases htext : Shown content.body
  swap
  · rw [if_pos hid, if_pos hfrom, if_pos hto, if_pos hsubject, if_neg htext,
      if_neg fun h : Legible env content => htext h.2.2.2.2]
    rfl
  have hall : Legible env content := ⟨hid, hfrom, hto, hsubject, htext⟩
  rw [if_pos hid, if_pos hfrom, if_pos hto, if_pos hsubject, if_pos htext, if_pos hall]
  rfl

/-! ### Errors -/

private theorem parse_error (msg : Text) :
    parse ("\x7b\"error\":\"".toList ++ msg ++ "\"\x7d".toList) = some (errorValue msg) ↔ Bare msg := by
  have hbody : "\x7b\"error\":\"".toList ++ msg ++ "\"\x7d".toList =
      '\x7b' :: '"' :: ("error".toList ++ '"' :: ':' :: '"' :: (msg ++ '"' :: ['\x7d'])) := by
    rw [List.append_assoc]
    rfl
  rw [hbody, parse_object]
  generalize hlen : List.length _ + 2 = n
  obtain ⟨n, rfl⟩ : ∃ k, n = k + 2 := ⟨n - 2, by omega⟩
  rw [readFields_quoted (by decide), readValue_string]
  constructor
  · intro h
    obtain ⟨r, hr, hvalue⟩ := Option.bind_eq_some_iff.1 h
    obtain ⟨v, hv, hrest⟩ := Option.bind_eq_some_iff.1 hr
    obtain ⟨p, hp, rfl⟩ := Option.map_eq_some_iff.1 hv
    -- what is left holds the closing brace, so nothing was longer than it was read
    have hs : p.1 = msg ∧ p.2 ≠ [] := by
      dsimp only at hrest
      constructor
      · split at hrest
        · obtain ⟨more, -, rfl⟩ := Option.map_eq_some_iff.1 hrest
          split at hvalue
          · have hfields := Value.object.inj (Option.some.inj hvalue)
            exact Value.string.inj (Prod.mk.inj (List.cons.inj hfields).1).2
          · cases hvalue
        · cases hrest
          split at hvalue
          · cases hvalue
            rfl
          · cases hvalue
        · cases hrest
      · intro hnil
        rw [hnil] at hrest
        cases hrest
    obtain ⟨hle, hbare⟩ := length_of_readChars (s := p.1) (r := p.2) hp
    have hpos := List.length_pos_of_ne_nil hs.2
    rw [hs.1] at hle hbare
    simp only [List.length_append, List.length_cons, List.length_nil] at hle hbare
    exact hbare (by omega)
  · intro h
    rw [readChars_bare h]
    rfl

/-! ### Answers -/

def oneLine (text : Text) : Bool := text.all fun c => c ≠ '\r' && c ≠ '\n'

theorem oneLine_append {a b : Text} (ha : oneLine a = true) (hb : oneLine b = true) : oneLine (a ++ b) = true := by
  unfold oneLine at *
  rw [List.all_append, ha, hb]
  rfl

theorem oneLine_number (n : Nat) : oneLine (number n) = true := by
  unfold oneLine
  rw [List.all_eq_true]
  intro c hc
  have hdigit := digit_of_number hc
  rw [Bool.and_eq_true, decide_eq_true_eq, decide_eq_true_eq]
  constructor <;> (rintro rfl; exact absurd hdigit (by decide))

theorem isLine_of_oneLine {l : Text} (hne : l ≠ []) (h : oneLine l = true) : IsLine l := by
  unfold oneLine at h
  simp only [List.all_eq_true, Bool.and_eq_true, decide_eq_true_eq] at h
  exact ⟨hne, fun hc => (h _ hc).1 rfl, fun hc => (h _ hc).2 rfl⟩

private theorem answerBody_json {status : String} (hstatus : oneLine status.toList = true) (body : Text) :
    answerBody (response status "application/json" "" body) = some body := by
  have hresponse : response status "application/json" "" body = crlf ["HTTP/1.1 ".toList ++ status.toList,
      "Content-Type: application/json; charset=utf-8".toList,
      "Content-Length: ".toList ++ number (encode body).length, "Connection: close".toList] ++
        '\r' :: '\n' :: body := by
    unfold response crlf
    simp only [List.append_assoc, List.flatMap_cons, List.flatMap_nil, List.append_nil]
    rfl
  unfold answerBody
  rw [hresponse]
  apply splitBlank_lines _ (List.cons_ne_nil _ _)
  simp only [List.forall_mem_cons]
  refine ⟨isLine_of_oneLine (by simp) (oneLine_append (by decide) hstatus),
    isLine_of_oneLine (by simp) (by decide),
    isLine_of_oneLine (by simp) (oneLine_append (by decide) (oneLine_number _)),
    isLine_of_oneLine (by simp) (by decide), fun l hl => absurd hl List.not_mem_nil⟩

variable (pk : Packages) (s : ServerState δ)

/-- A mail that opens is answered with a text that is JSON, and read as the mail, just when its texts have no control
character but line ends and tabs; an error is read as the text it tells just when nothing of that has to be escaped. -/
theorem answers_iff (t : FileTree δ) (id : Text) (w : World) :
    (∀ env content, (s.store.readMail pk t id s.mailKeys.secretBytes w.disk).2 = .ok (env, content) →
      ∃ answer body, (apiReadMail pk s t id w).answer = some answer ∧ answerBody answer = some body ∧
        ((∃ v, parse body = some v) ↔ Legible env content) ∧
        (parse body = some (mailValue env content
          (verifySig pk env.senderVerifyingKey env.signingData env.signature)) ↔ Legible env content)) ∧
      ∀ status msg, oneLine status.toList = true → ∃ body, answerBody (jsonErr status msg) = some body ∧
        (parse body = some (errorValue msg) ↔ Bare msg) := by
  constructor
  · intro env content hread
    have hanswer : (apiReadMail pk s t id w).answer = some (jsonOk (mailBody env content
        (verifySig pk env.senderVerifyingKey env.signingData env.signature))) := by
      unfold apiReadMail
      split
      · rename_i heq
        rw [heq] at hread
        cases hread
        rfl
      · rename_i heq
        rw [heq] at hread
        cases hread
    refine ⟨_, _, hanswer, answerBody_json (by decide) _, ?_⟩
    rw [parse_mailBody]
    split
    · rename_i hlegible
      exact ⟨⟨fun _ => hlegible, fun _ => ⟨_, rfl⟩⟩, ⟨fun _ => hlegible, fun _ => rfl⟩⟩
    · rename_i hlegible
      refine ⟨⟨?_, fun h => absurd h hlegible⟩, ⟨?_, fun h => absurd h hlegible⟩⟩
      · rintro ⟨v, hv⟩
        cases hv
      · intro hv
        cases hv
  · intro status msg hstatus
    refine ⟨_, answerBody_json ?_ _, parse_error msg⟩
    rw [String.toList_append]
    exact oneLine_append hstatus (by decide)

namespace Sample

def opening (subject : Text) : Packages :=
  { packages (mail "m".toList) with readContent := fun _ => .ok ⟨subject, "Hello".toList⟩ }

def inbox : FileTree Nat := (server.store.storeIncoming folders (mail "m".toList) .done).1

end Sample

open Sample in
theorem answers_iff_line : ∃ answer body, (apiReadMail (opening "a\nb".toList) server inbox "m".toList world).answer =
    some answer ∧ answerBody answer = some body ∧
      parse body = some (mailValue (mail "m".toList) ⟨"a\nb".toList, "Hello".toList⟩ true) := by
  have hanswers := answers_iff (opening "a\nb".toList) server inbox "m".toList world
  obtain ⟨answer, body, hanswer, hbody, -, hread⟩ :=
    hanswers.1 (mail "m".toList) ⟨"a\nb".toList, "Hello".toList⟩ (by decide +kernel)
  exact ⟨answer, body, hanswer, hbody, hread.2 (by decide)⟩

open Sample in
/-- A mail with the character 1 in its subject, and the answer to a mail that is not there, whose id has a quote. -/
theorem unreadable :
    (((apiReadMail (opening ['\x01']) server inbox "m".toList world).answer.bind answerBody).map fun body =>
      (parse body).isSome) = some false ∧
    (((apiReadMail (opening []) server inbox "a\"b".toList world).answer.bind answerBody).map fun body =>
      (parse body).isSome) = some false := by
  decide +kernel

end HidraNet.Hidramail
