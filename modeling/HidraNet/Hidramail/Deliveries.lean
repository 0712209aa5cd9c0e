import HidraNet.Hidramail.Server
import HidraNet.Lib.Runs

/-!
# Deliveries, and the owner's reads and deletions

Runs of requests for mails: another node's deliveries, and the owner's reads and deletions.

While no id has a slash, and a mail delivered has one that the inbox does not have yet, a delivery makes one file, in
the inbox, and a read or a deletion stays with the files of its mail (`deliveries_run`).  Nothing looks at the ids: a
delivery replaces a mail that was sent, and a deletion takes away a file outside the store (`delivery_replaces`).
-/

namespace HidraNet.Hidramail

open FileTrees Maps Runs Utf8

variable {δ : Type*} [DecidableEq δ]

inductive MailRequest where
  | deliver (body : Text)
  | read (id : Text)
  | delete (id : Text)
deriving DecidableEq

section

variable (pk : Packages) (s : ServerState δ)

def handle (t : FileTree δ) (e : MailRequest × World) : Outcome δ :=
  match e.1 with
  | .deliver body => apiDeliver pk s t body e.2
  | .read id => apiReadMail pk s t id e.2
  | .delete id => apiDeleteMail s t id e.2

def step (t : FileTree δ) (e : MailRequest × World) : FileTree δ := (handle pk s t e).tree

/-- The ids are names, and a mail that is to be stored has a new one. -/
def Named (t : FileTree δ) (e : MailRequest × World) : Prop :=
  match e.1 with
  | .deliver body =>
    match pk.readEnvelope body with
    | .error _ => True
    | .ok env =>
      verifySig pk env.senderVerifyingKey env.signingData env.signature = true →
        '/' ∉ env.id ∧ t.files.get? (s.store.inboxDir, mailFile env.id) = none
  | .read id => '/' ∉ id ∧ t.dirs.get? (s.store.inboxDir, mailFile id) = none
  | .delete id => '/' ∉ id

instance (t : FileTree δ) (e : MailRequest × World) : Decidable (Named pk s t e) := by
  unfold Named
  split
  · split <;> infer_instance
  · infer_instance
  · infer_instance

def Created (t t' : FileTree δ) (p : Place δ) (bytes : List UInt8) : Prop :=
  t.files.get? p = none ∧ ∀ q, t'.files.get? q = if q = p then some bytes else t.files.get? q

/-- What a request may do: a delivery keeps every file, and one that is accepted makes one file in the inbox; a read at
most marks a mail of the inbox, and a deletion takes away what its mail has; what both answer is in their mail's
files. -/
def Framed (t : FileTree δ) (e : MailRequest × World) : Prop :=
  let o := handle pk s t e
  o.tree.dirs = t.dirs ∧
    match e.1 with
    | .deliver body =>
      (∀ p bytes, t.files.get? p = some bytes → o.tree.files.get? p = some bytes) ∧
        ∀ text, o.answer = some (jsonOk text) → ∃ env, pk.readEnvelope body = .ok env ∧
          Created t o.tree (s.store.inboxDir, mailFile env.id) (encode env.json)
    | .read id =>
      (∀ p, p ≠ (s.store.inboxDir, markerFile id) → o.tree.files.get? p = t.files.get? p) ∧
        (o.tree = t ∨ (t.files.get? (s.store.inboxDir, mailFile id)).isSome) ∧
        ∀ t', s.store.SameMail id t t' → (handle pk s t' e).answer = o.answer
    | .delete id =>
      (∀ p, p ≠ (s.store.inboxDir, mailFile id) → p ≠ (s.store.inboxDir, markerFile id) →
        p ≠ (s.store.sentDir, mailFile id) → o.tree.files.get? p = t.files.get? p) ∧
        ∀ t', s.store.SameMail id t t' → (handle pk s t' e).answer = o.answer

end

variable {pk : Packages} {s : ServerState δ} {t t' : FileTree δ} {id body : Text} {w : World}

/-! ### Each request -/

theorem jsonErr_ne_jsonOk {status : String} (h : status.toList.head? ≠ some '2') (msg text : Text) :
    jsonErr status msg ≠ jsonOk text := by
  intro heq
  have hdrop := congrArg (fun l => (l.drop 9).head?) heq
  unfold jsonErr jsonOk response at hdrop
  simp only [List.append_assoc, String.toList_append] at hdrop
  rw [List.drop_append, List.drop_append] at hdrop
  simp only [String.reduceToList, List.length_cons, List.length_nil, List.drop_succ_cons, List.drop_zero, List.drop_nil,
    Nat.sub_self, List.nil_append, List.cons_append, List.head?_cons] at hdrop
  cases hs : status.toList with
  | nil =>
    rw [hs] at hdrop
    exact absurd hdrop (by simp)
  | cons c cs =>
    rw [hs] at hdrop h
    simp only [List.cons_append, List.head?_cons, Option.some.injEq] at hdrop
    rw [hdrop] at h
    exact h rfl

theorem framed_deliver (h : Named pk s t (.deliver body, w)) : Framed pk s t (.deliver body, w) := by
  unfold Framed handle
  unfold Named at h
  dsimp only at h ⊢
  unfold apiDeliver
  cases henv : pk.readEnvelope body with
  | error e =>
    refine ⟨rfl, fun _ _ hp => hp, fun text htext => ?_⟩
    exact absurd (Option.some.inj htext) (jsonErr_ne_jsonOk (by decide) _ _)
  | ok env =>
    rw [henv] at h
    dsimp only at h ⊢
    split
    · rename_i hsig
      obtain ⟨hslash, hnew⟩ := h hsig
      obtain ⟨e, hstore⟩ | ⟨hdir, n, r, hstore, hall⟩ := s.store.storeIncoming_cases t w.disk hslash
      · rw [hstore]
        refine ⟨rfl, fun _ _ hp => hp, fun text htext => ?_⟩
        exact absurd (Option.some.inj htext) (jsonErr_ne_jsonOk (by decide) _ _)
      · have hkept : ∀ p bytes, t.files.get? p = some bytes →
            (t.put (s.store.inboxDir, mailFile env.id) ((encode env.json).take n) hdir).files.get? p = some bytes := by
          intro p bytes hp
          rw [FileTree.get?_put, if_neg]
          · exact hp
          · rintro rfl
            rw [hnew] at hp
            cases hp
        rw [hstore]
        cases r with
        | error e =>
          refine ⟨rfl, hkept, fun text htext => ?_⟩
          exact absurd (Option.some.inj htext) (jsonErr_ne_jsonOk (by decide) _ _)
        | ok u =>
          refine ⟨rfl, hkept, fun _ _ => ⟨env, rfl, hnew, fun q => ?_⟩⟩
          show (t.put _ ((encode env.json).take n) hdir).files.get? q = _
          rw [FileTree.get?_put, hall rfl]
    · refine ⟨rfl, fun _ _ hp => hp, fun text htext => ?_⟩
      exact absurd (Option.some.inj htext) (jsonErr_ne_jsonOk (by decide) _ _)

theorem tree_apiReadMail (pk : Packages) (s : ServerState δ) (t : FileTree δ) (id : Text) (w : World) :
    (apiReadMail pk s t id w).tree = (s.store.readMail pk t id s.mailKeys.secretBytes w.disk).1 := by
  unfold apiReadMail
  rcases s.store.readMail pk t id s.mailKeys.secretBytes w.disk with ⟨u, e | ⟨env, content⟩⟩ <;> rfl

theorem answer_apiReadMail (h : (s.store.readMail pk t id s.mailKeys.secretBytes w.disk).2 =
      (s.store.readMail pk t' id s.mailKeys.secretBytes w.disk).2) :
    (apiReadMail pk s t id w).answer = (apiReadMail pk s t' id w).answer := by
  unfold apiReadMail
  rcases hread : s.store.readMail pk t id s.mailKeys.secretBytes w.disk with ⟨u, r⟩
  rcases hread' : s.store.readMail pk t' id s.mailKeys.secretBytes w.disk with ⟨u', r'⟩
  rw [hread, hread'] at h
  obtain rfl : r = r' := h
  rcases r with e | ⟨env, content⟩ <;> rfl

theorem framed_read (h : Named pk s t (.read id, w)) : Framed pk s t (.read id, w) := by
  obtain ⟨hslash, hdir⟩ := h
  unfold Framed handle
  dsimp only
  rw [tree_apiReadMail]
  have hcongr : ∀ t', s.store.SameMail id t t' → (apiReadMail pk s t' id w).answer = (apiReadMail pk s t id w).answer :=
    fun t' hsame => (answer_apiReadMail (MailStore.readMail_congr hslash hsame)).symm
  obtain htree | ⟨hhas, hp, htree⟩ :=
    MailStore.readMail_tree pk s.store t s.mailKeys.secretBytes w.disk hslash
  · rw [htree]
    exact ⟨rfl, fun _ _ => rfl, .inl rfl, hcongr⟩
  · rw [htree]
    refine ⟨rfl, fun p hne => ?_, .inr ?_, hcongr⟩
    · rw [FileTree.get?_put, if_neg hne]
    · -- what was found is no directory, so it is a file
      unfold FileTree.has at hhas
      cases hloc : t.locate s.store.inboxDir (mailFile id) with
      | error e =>
        rw [hloc] at hhas
        cases hhas
      | ok p =>
        rw [hloc, FileTree.locate_of_name (slash_mailFile hslash) hloc] at hhas
        simpa [hdir] using hhas

theorem tree_apiDeleteMail (s : ServerState δ) (t : FileTree δ) (id : Text) (w : World) :
    (apiDeleteMail s t id w).tree = (s.store.deleteMail t id w.refused).1 := by
  unfold apiDeleteMail
  rcases s.store.deleteMail t id w.refused with ⟨u, e | u'⟩ <;> rfl

theorem answer_apiDeleteMail (h : (s.store.deleteMail t id w.refused).2 = (s.store.deleteMail t' id w.refused).2) :
    (apiDeleteMail s t id w).answer = (apiDeleteMail s t' id w).answer := by
  unfold apiDeleteMail
  rcases hdel : s.store.deleteMail t id w.refused with ⟨u, r⟩
  rcases hdel' : s.store.deleteMail t' id w.refused with ⟨u', r'⟩
  rw [hdel, hdel'] at h
  obtain rfl : r = r' := h
  rcases r with e | u <;> rfl

theorem framed_delete (h : Named pk s t (.delete id, w)) : Framed pk s t (.delete id, w) := by
  have hslash : '/' ∉ id := h
  unfold Framed handle
  dsimp only
  rw [tree_apiDeleteMail]
  have hcongr : ∀ t', s.store.SameMail id t t' →
      (apiDeleteMail s t' id w).answer = (apiDeleteMail s t id w).answer :=
    fun t' hsame => (answer_apiDeleteMail (MailStore.deleteMail_congr hslash hsame w.refused)).symm
  obtain htree | htree | htree | htree := MailStore.deleteMail_tree s.store t w.refused hslash
  · rw [htree]
    exact ⟨rfl, fun _ _ _ _ => rfl, hcongr⟩
  · rw [htree]
    refine ⟨rfl, fun p hmail _ _ => ?_, hcongr⟩
    rw [FileTree.get?_drop, if_neg hmail]
  · rw [htree]
    refine ⟨rfl, fun p hmail hmarker _ => ?_, hcongr⟩
    rw [FileTree.get?_drop, if_neg hmarker, FileTree.get?_drop, if_neg hmail]
  · rw [htree]
    refine ⟨rfl, fun p _ _ hsent => ?_, hcongr⟩
    rw [FileTree.get?_drop, if_neg hsent]

theorem framed_of_named {e : MailRequest × World} (h : Named pk s t e) : Framed pk s t e := by
  obtain ⟨r, w⟩ := e
  cases r with
  | deliver body => exact framed_deliver h
  | read id => exact framed_read h
  | delete id => exact framed_delete h

/-! ### Whole runs -/

theorem step_keeps {e : MailRequest × World} {d : δ} {bytes : List UInt8} (h : Framed pk s t e)
    (hdel : e.1 ≠ .delete id) (hmail : t.files.get? (d, mailFile id) = some bytes) :
    (step pk s t e).files.get? (d, mailFile id) = some bytes := by
  obtain ⟨r, w⟩ := e
  obtain ⟨-, h⟩ := h
  unfold step
  cases r with
  | deliver body => exact h.1 _ _ hmail
  | read id' =>
    rw [h.1 _ fun heq => mailFile_ne_markerFile id id' (congrArg Prod.snd heq)]
    exact hmail
  | delete id' =>
    have hne : id ≠ id' := by
      rintro rfl
      exact hdel rfl
    rw [h.1 _ (fun heq => hne (mailFile_inj (congrArg Prod.snd heq)))
      (fun heq => mailFile_ne_markerFile id id' (congrArg Prod.snd heq))
      (fun heq => hne (mailFile_inj (congrArg Prod.snd heq)))]
    exact hmail

theorem run_keeps {es : List (MailRequest × World)} {d : δ} {bytes : List UInt8} (h : Along (step pk s) (Named pk s) t es)
    (hdel : ∀ e ∈ es, e.1 ≠ .delete id) (hmail : t.files.get? (d, mailFile id) = some bytes) :
    (run (step pk s) t es).files.get? (d, mailFile id) = some bytes := by
  induction es generalizing t with
  | nil => exact hmail
  | cons e es ih =>
    obtain ⟨he, hes⟩ := List.forall_mem_cons.1 hdel
    exact ih h.2 hes (step_keeps (framed_of_named h.1) he hmail)

/-- While the ids are names, and new ones where a mail is delivered: every request is framed, and a mail once in a
folder stays there as it is until its own id is deleted. -/
theorem deliveries_run (pk : Packages) (s : ServerState δ) (t : FileTree δ) (es : List (MailRequest × World))
    (h : Along (step pk s) (Named pk s) t es) :
    Along (step pk s) (Framed pk s) t es ∧
      ∀ before after d id bytes, es = before ++ after →
        (run (step pk s) t before).files.get? (d, mailFile id) = some bytes → (∀ e ∈ after, e.1 ≠ .delete id) →
          (run (step pk s) t es).files.get? (d, mailFile id) = some bytes := by
  constructor
  · exact Along.of_invariant (P := fun _ => True) (fun _ _ _ _ => trivial) (fun _ _ _ => framed_of_named) h trivial
  · rintro before after d id bytes rfl hmail hdel
    rw [run_append]
    exact run_keeps ((along_append _ _ _).1 h).2 hdel hmail

private def letter : MailEnvelope := Sample.mail "m".toList

theorem deliveries_run_read :
    (run (step (Sample.packages letter) Sample.server) Sample.folders
      [(.deliver letter.json, Sample.world), (.read "m".toList, Sample.world)]).files.get?
        (1, mailFile "m".toList) = some (encode letter.json) := by
  have hnamed : Along (step (Sample.packages letter) Sample.server) (Named (Sample.packages letter) Sample.server)
      Sample.folders [(.deliver letter.json, Sample.world), (.read "m".toList, Sample.world)] := by decide +kernel
  apply (deliveries_run (Sample.packages letter) Sample.server Sample.folders _ hnamed).2
    [(.deliver letter.json, Sample.world)] [(.read "m".toList, Sample.world)] 1 "m".toList (encode letter.json) rfl
  · decide +kernel
  · decide

private def replacing : MailEnvelope := Sample.mail "../sent/m".toList

/-- A delivery accepted that replaces a mail of the sent folder, and a deletion of a file outside both folders. -/
theorem delivery_replaces :
    let t := Sample.folders.put (2, "m.json".toList) (encode letter.json) (by decide)
    let o := handle (Sample.packages replacing) Sample.server t (.deliver replacing.json, Sample.world)
    o.answer = some (jsonOk "\x7b\"ok\":true,\"id\":\"../sent/m\"\x7d".toList) ∧
      o.tree.files.get? (2, "m.json".toList) = some (encode replacing.json) ∧ encode replacing.json ≠ encode letter.json ∧
      let t' := Sample.folders.put (0, "keys.json".toList) [1] (by decide)
      (handle (Sample.packages letter) Sample.server t' (.delete "../keys".toList, Sample.world)).tree.files.get?
        (0, "keys.json".toList) = none := by
  refine ⟨?_, ?_, ?_, ?_⟩ <;> decide +kernel

end HidraNet.Hidramail
