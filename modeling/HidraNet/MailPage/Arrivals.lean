import HidraNet.MailPage.Mailbox

/-!
# What arrives on the mail page

A proven mail to one of the page's identities goes in the inbox once, stays away once it was deleted for good, and only
what was put away is taken off the relays (`ArrivesOnce`), as long as the page is not misled about what a mail is
(`Meets`).  The page tells mails by the ids that their senders chose and takes copies off by the topics that they chose,
so that two mails that share one are taken for the same.
-/

namespace HidraNet.MailPage

open Hidrarelay (Json)
open Forum (inherited)
open Runs

variable {κ : Type*} (b : Platform κ) {w w' : World κ}

/-! ### What is to hold, and when -/

def World.letterAt (w : World κ) (topic payload : String) : Option Letter :=
  (opened b w.ids topic payload).map fun r => letterOf b r.2

structure ArrivesOnce (w : World κ) : Prop where
  once : ∀ l ∈ w.arrived, w.entered.count l = 1
  notTwice : ∀ l, w.entered.count l ≤ 1
  gone : ∀ l ∈ w.deleted, ∀ f, ∀ x ∈ w.now.box f, x.letter ≠ some l
  off : ∀ t ∈ w.takenOff, ∃ l ∈ w.putAway, w.letterAt b t.1 t.2 = some l

def Recognized (w : World κ) (l : Letter) : Prop :=
  ∀ mid ∈ l.mid, (∀ x ∈ w.now.box.mails, x.mid = mid → x.letter = some l) ∧ (w.now.isGone mid = true → l ∈ w.deleted)

def Told (w : World κ) (m : Json) (proven : Prop) (relay : Nat) (topic : String) (up : List Nat) : Prop :=
  (proven → Recognized w (letterOf b m)) ∧
    (known w.now m = some true → relay ∈ up → w.held relay topic ≠ "" →
      ∃ l ∈ w.letterAt b topic (w.held relay topic), l.mid = m.s "mid" ∧ Recognized w l)

def Alone (w : World κ) (up : List Nat) (x : Mail) : Prop :=
  ∀ topic ∈ x.topic, ∀ relay ∈ up, w.held relay topic ≠ "" → w.letterAt b topic (w.held relay topic) = x.letter

/-- No mail is taken for another, and no more are deleted for good than the page remembers. -/
def Meets (w : World κ) : Step κ → Prop
  | .delivered relay topic payload up => ∀ r ∈ opened b w.ids topic payload,
      Told b w r.2 (r.2.s "to" = some r.1.addr ∧ (verifyMail b r.2).isSome = true) relay topic up
  | .finished k up _ _ => ∀ fl ∈ w.flights[k]?, (verifyMail b fl.mail).isSome = true →
      (fl.mail.s "mid").any (fun mid => Keeps mid) = true ∧ Told b w fl.mail True fl.relay fl.topic up
  | .trashed mid up _ => ∀ r ∈ w.now.box.find mid, Alone b w up r.2 ∧ (r.1 = .trash → w.now.gone.length < GONE_KEPT)
  | .spammed mid up => ∀ r ∈ w.now.box.find mid, Alone b w up r.2
  | .sent mid .. | .drafted mid .. => Keeps mid ∧ ∀ x ∈ w.now.box.mails, x.mid ≠ mid
  | .published .. | .newAddress .. | .reloaded .. => True

instance (w : World κ) (l : Letter) : Decidable (Recognized w l) :=
  inferInstanceAs (Decidable (∀ mid ∈ l.mid, (∀ x ∈ w.now.box.mails, x.mid = mid → x.letter = some l) ∧
    (w.now.isGone mid = true → l ∈ w.deleted)))

instance (w : World κ) (m : Json) (proven : Prop) [Decidable proven] (relay : Nat) (topic : String) (up : List Nat) :
    Decidable (Told b w m proven relay topic up) :=
  inferInstanceAs (Decidable ((proven → Recognized w (letterOf b m)) ∧
    (known w.now m = some true → relay ∈ up → w.held relay topic ≠ "" →
      ∃ l ∈ w.letterAt b topic (w.held relay topic), l.mid = m.s "mid" ∧ Recognized w l)))

instance (w : World κ) (up : List Nat) (x : Mail) : Decidable (Alone b w up x) :=
  inferInstanceAs (Decidable (∀ topic ∈ x.topic, ∀ relay ∈ up, w.held relay topic ≠ "" →
    w.letterAt b topic (w.held relay topic) = x.letter))

instance decidableMeets (w : World κ) (e : Step κ) : Decidable (Meets b w e) := by
  cases e <;> dsimp only [Meets] <;> infer_instance

/-! ### What the page's state keeps -/

structure Sound (w : World κ) : Prop where
  saved : w.saved = w.now
  mids : (w.now.box.mails.map Mail.mid).Nodup
  keeps : ∀ x ∈ w.now.box.mails, Keeps x.mid
  fits : ∀ mid, w.now.isGone mid = true → MID_RE mid = true
  came : ∀ x ∈ w.now.box.mails, x.letter = none → x.topic = none
  letter : ∀ x ∈ w.now.box.mails, ∀ l, x.letter = some l → l.mid = some x.mid ∧ l ∈ w.entered
  away : ∀ x ∈ w.now.box.mails, x.folder = .trash ∨ x.folder = .spam → ∀ l, x.letter = some l → l ∈ w.putAway
  nodup : w.entered.Nodup
  entered : ∀ l ∈ w.entered, l ∈ w.deleted ∨ ∃ x ∈ w.now.box.mails, x.letter = some l
  deleted : ∀ l ∈ w.deleted, l ∈ w.entered ∧ l ∈ w.putAway ∧ ∃ mid, l.mid = some mid ∧ w.now.isGone mid = true
  gone : ∀ l ∈ w.deleted, ∀ x ∈ w.now.box.mails, x.letter ≠ some l
  arrived : ∀ l ∈ w.arrived, l ∈ w.entered

def Off (w : World κ) : Prop := ∀ t ∈ w.takenOff, ∃ l ∈ w.putAway, w.letterAt b t.1 t.2 = some l

private theorem Sound.arrivesOnce (h : Sound w) (hoff : Off b w) : ArrivesOnce b w := by
  refine ⟨fun l hl => ?_, fun l => List.nodup_iff_count_le_one.1 h.nodup l, fun l hl f x hx => ?_, hoff⟩
  · exact List.count_eq_one_of_mem h.nodup (h.arrived l hl)
  · exact h.gone l hl x (Box.mem_mails.2 ⟨f, hx⟩)

theorem sound_start (ids : List (Identity κ)) (held : Nat → String → String) : Sound (World.start ids held) := by
  constructor <;> simp [World.start, Mailbox.empty, Mailbox.isGone, Box.mails, folders]

/-- The mailbox, the letters and the identities are the same. -/
structure Same (w w' : World κ) : Prop where
  ids : w'.ids = w.ids
  now : w'.now = w.now
  saved : w'.saved = w.saved
  arrived : w'.arrived = w.arrived
  entered : w'.entered = w.entered
  putAway : w'.putAway = w.putAway
  deleted : w'.deleted = w.deleted

theorem Sound.congr (h : Sound w) (hsame : Same w w') : Sound w' := by
  obtain ⟨-, hnow, hsaved, harrived, hentered, hput, hdeleted⟩ := hsame
  constructor
  · rw [hsaved, hnow, h.saved]
  · rw [hnow]; exact h.mids
  · rw [hnow]; exact h.keeps
  · rw [hnow]; exact h.fits
  · rw [hnow]; exact h.came
  · rw [hnow, hentered]; exact h.letter
  · rw [hnow, hput]; exact h.away
  · rw [hentered]; exact h.nodup
  · rw [hnow, hentered, hdeleted]; exact h.entered
  · rw [hnow, hentered, hdeleted, hput]; exact h.deleted
  · rw [hnow, hdeleted]; exact h.gone
  · rw [harrived, hentered]; exact h.arrived

/-! ### Taking copies off -/

private theorem same_takeOff (w : World κ) (relays : List Nat) (topic : String) : Same w (w.takeOff relays topic) :=
  ⟨rfl, rfl, rfl, rfl, rfl, rfl, rfl⟩

private theorem same_dropped (w : World κ) (clear : Bool) (up : List Nat) (relay : Nat) (topic : String) :
    Same w (w.dropped clear up relay topic) := by
  unfold World.dropped
  split
  · exact same_takeOff w _ _
  · exact ⟨rfl, rfl, rfl, rfl, rfl, rfl, rfl⟩

private theorem same_clearRetained (w : World κ) (up : List Nat) (x : Mail) : Same w (w.clearRetained up x) := by
  unfold World.clearRetained
  split
  · exact same_takeOff w _ _
  · exact ⟨rfl, rfl, rfl, rfl, rfl, rfl, rfl⟩

private theorem off_takeOff (h : Off b w) {relays : List Nat} {topic : String}
    (hheld : ∀ r ∈ relays, w.held r topic ≠ "" → ∃ l ∈ w.putAway, w.letterAt b topic (w.held r topic) = some l) :
    Off b (w.takeOff relays topic) := by
  intro t ht
  rcases List.mem_append.1 ht with ht | ht
  · exact h t ht
  · obtain ⟨hmem, hne⟩ := List.mem_filter.1 ht
    obtain ⟨r, hr, rfl⟩ := List.mem_map.1 hmem
    exact hheld r hr (by simpa using hne)

theorem Off.mono (h : Off b w) (hids : w'.ids = w.ids) (htaken : w'.takenOff = w.takenOff)
    (hput : ∀ l ∈ w.putAway, l ∈ w'.putAway) : Off b w' := by
  intro t ht
  rw [htaken] at ht
  obtain ⟨l, hl, hletter⟩ := h t ht
  refine ⟨l, hput l hl, ?_⟩
  unfold World.letterAt at hletter ⊢
  rw [hids]
  exact hletter

/-! ### A mail comes -/

private theorem letterOf_mid (m : Json) : (letterOf b m).mid = m.s "mid" := rfl

private theorem Sound.known_entered (h : Sound w) {m : Json} {clear : Bool} (hknown : known w.now m = some clear)
    (hrec : Recognized w (letterOf b m)) : letterOf b m ∈ w.entered := by
  obtain ⟨mid, hmid, ⟨x, hx, hsame, -⟩ | hgone⟩ := known_some hknown
  · exact (h.letter x hx _ ((hrec mid hmid).1 x hx hsame)).2
  · exact (h.deleted _ ((hrec mid hmid).2 hgone)).1

private theorem Sound.known_putAway (h : Sound w) {m : Json} {l : Letter} (hknown : known w.now m = some true)
    (hl : l.mid = m.s "mid") (hrec : Recognized w l) : l ∈ w.putAway := by
  obtain ⟨mid, hmid, ⟨x, hx, hsame, haway⟩ | hgone⟩ := known_some hknown
  · exact h.away x hx (by simpa using haway.symm) _ ((hrec mid (hl.trans hmid)).1 x hx hsame)
  · exact (h.deleted _ ((hrec mid (hl.trans hmid)).2 hgone)).2.1

theorem Sound.arrive (h : Sound w) {m : Json} (hentered : letterOf b m ∈ w.entered) : Sound (w.arrive b m) := by
  refine ⟨h.saved, h.mids, h.keeps, h.fits, h.came, h.letter, h.away, h.nodup, h.entered, h.deleted, h.gone, ?_⟩
  intro l hl
  rcases List.mem_cons.1 hl with rfl | hl
  · exact hentered
  · exact h.arrived l hl

private theorem off_dropped (h : Sound w) (hoff : Off b w) {m : Json} {proven : Prop} {clear : Bool} {relay : Nat}
    {topic : String} {up : List Nat} (hknown : known w.now m = some clear) (htold : Told b w m proven relay topic up) :
    Off b (w.dropped clear up relay topic) := by
  cases clear with
  | false => exact hoff
  | true =>
    refine off_takeOff b hoff fun r hr hne => ?_
    obtain ⟨hup, rfl⟩ : r ∈ up ∧ r = relay := by simpa using hr
    obtain ⟨l, hletter, hmid, hrec⟩ := htold.2 hknown hup hne
    exact ⟨l, h.known_putAway hknown hmid hrec, hletter⟩

private theorem sound_deliver (h : Sound w) {relay : Nat} {topic payload : String} {up : List Nat}
    (hmeets : Meets b w (.delivered relay topic payload up)) : Sound (w.deliver b relay topic payload up) := by
  unfold World.deliver
  unfold Meets at hmeets
  cases hopened : opened b w.ids topic payload with
  | none => exact h
  | some r =>
    obtain ⟨id, m⟩ := r
    have htold := hmeets (id, m) hopened
    dsimp only
    cases hknown : known w.now m with
    | some clear =>
      have hsame := same_dropped w clear up relay topic
      dsimp only
      split
      case isTrue hproven =>
        refine (h.congr hsame).arrive b ?_
        rw [hsame.entered]
        exact h.known_entered b hknown (htold.1 hproven)
      case isFalse => exact h.congr hsame
    | none =>
      dsimp only
      split
      · exact h.congr ⟨rfl, rfl, rfl, rfl, rfl, rfl, rfl⟩
      · exact h

private theorem off_deliver (h : Sound w) (hoff : Off b w) {relay : Nat} {topic payload : String} {up : List Nat}
    (hmeets : Meets b w (.delivered relay topic payload up)) : Off b (w.deliver b relay topic payload up) := by
  unfold World.deliver
  unfold Meets at hmeets
  cases hopened : opened b w.ids topic payload with
  | none => exact hoff
  | some r =>
    obtain ⟨id, m⟩ := r
    have htold := hmeets (id, m) hopened
    dsimp only
    cases hknown : known w.now m with
    | some clear =>
      have hdropped : Off b (w.dropped clear up relay topic) := off_dropped b h hoff hknown htold
      dsimp only
      split
      · exact hdropped.mono b rfl rfl fun _ hl => hl
      · exact hdropped
    | none =>
      dsimp only
      split
      · exact hoff.mono b rfl rfl fun _ hl => hl
      · exact hoff

/-! ### A mail is filed -/

def World.refiled (w : World κ) (box : Box) (entered putAway : List Letter) : World κ :=
  { w with now := { w.now with box }, saved := { w.now with box }, entered, putAway }

private theorem Sound.refile (h : Sound w) {box : Box} {x : Mail} {rest : List Mail} {entered putAway : List Letter}
    (hperm : box.mails.Perm (x :: rest)) (hrest : ∀ y ∈ rest, y ∈ w.now.box.mails)
    (hmids : (x.mid :: rest.map Mail.mid).Nodup) (hkeeps : Keeps x.mid) (hcame : x.letter = none → x.topic = none)
    (hletter : ∀ l, x.letter = some l → l.mid = some x.mid ∧ l ∈ entered ∧ l ∉ w.deleted)
    (hstill : ∀ y ∈ w.now.box.mails, y ∈ rest ∨ y.letter = x.letter ∨ y.letter = none)
    (hnodup : entered.Nodup) (hentered : ∀ l ∈ w.entered, l ∈ entered)
    (honly : ∀ l ∈ entered, l ∈ w.entered ∨ x.letter = some l)
    (haway : x.folder = .trash ∨ x.folder = .spam → ∀ l, x.letter = some l → l ∈ putAway)
    (hput : ∀ l ∈ w.putAway, l ∈ putAway) : Sound (w.refiled box entered putAway) := by
  have hmem : ∀ y, y ∈ box.mails ↔ y = x ∨ y ∈ rest := fun y => hperm.mem_iff.trans List.mem_cons
  constructor
  · rfl
  · exact (hperm.map _).nodup_iff.2 hmids
  · intro y hy
    rcases (hmem y).1 hy with rfl | hy
    · exact hkeeps
    · exact h.keeps y (hrest y hy)
  · exact h.fits
  · intro y hy hnone
    rcases (hmem y).1 hy with rfl | hy
    · exact hcame hnone
    · exact h.came y (hrest y hy) hnone
  · intro y hy l hl
    rcases (hmem y).1 hy with rfl | hy
    · exact ⟨(hletter l hl).1, (hletter l hl).2.1⟩
    · obtain ⟨hmid, hold⟩ := h.letter y (hrest y hy) l hl
      exact ⟨hmid, hentered l hold⟩
  · intro y hy hfolder l hl
    rcases (hmem y).1 hy with rfl | hy
    · exact haway hfolder l hl
    · exact hput l (h.away y (hrest y hy) hfolder l hl)
  · exact hnodup
  · intro l hl
    rcases honly l hl with hold | hx
    · rcases h.entered l hold with hdeleted | ⟨y, hy, hyl⟩
      · exact .inl hdeleted
      · rcases hstill y hy with hin | hsame | hnone
        · exact .inr ⟨y, (hmem y).2 (.inr hin), hyl⟩
        · exact .inr ⟨x, (hmem x).2 (.inl rfl), hsame.symm.trans hyl⟩
        · cases hnone.symm.trans hyl
    · exact .inr ⟨x, (hmem x).2 (.inl rfl), hx⟩
  · intro l hl
    obtain ⟨hold, haway, hgone⟩ := h.deleted l hl
    exact ⟨hentered l hold, hput l haway, hgone⟩
  · intro l hl y hy hyl
    rcases (hmem y).1 hy with rfl | hy
    · exact (hletter l hyl).2.2 hl
    · exact h.gone l hl y (hrest y hy) hyl
  · intro l hl
    exact hentered l (h.arrived l hl)

private theorem nodup_mids (h : Sound w) {mid : String} (hnew : ∀ x ∈ w.now.box.mails, x.mid ≠ mid) :
    (mid :: w.now.box.mails.map Mail.mid).Nodup := by
  refine List.nodup_cons.2 ⟨fun hin => ?_, h.mids⟩
  obtain ⟨y, hy, hsame⟩ := List.mem_map.1 hin
  exact hnew y hy hsame

theorem Sound.enter (h : Sound w) {m : Json} {mid topic fresh : String} {now : ℚ} (hmid : m.s "mid" = some mid)
    (hkeeps : Keeps mid) (hknown : known w.now m = none) :
    Sound (w.refiled (w.now.box.put .inbox (cleanMail b (w.now.box.mails.map Mail.mid) fresh now topic m))
      (letterOf b m :: w.entered) w.putAway) := by
  obtain ⟨hnew, hgone⟩ := known_none hknown hmid
  set x := cleanMail b (w.now.box.mails.map Mail.mid) fresh now topic m with hx
  have hxmid : x.mid = mid := by
    rw [hx]
    unfold cleanMail
    rw [hmid]
    exact cleanMid_self hkeeps (List.nodup_cons.1 (nodup_mids h hnew)).1
  have hxletter : ∀ l, x.letter = some l → l = letterOf b m := fun l hl => (Option.some.inj hl).symm
  -- nothing that went in before, or that was deleted, has this id
  have hfresh : letterOf b m ∉ w.deleted := by
    intro hdeleted
    obtain ⟨mid', hmid', hgone'⟩ := (h.deleted _ hdeleted).2.2
    rw [letterOf_mid, hmid, Option.some.injEq] at hmid'
    rw [← hmid', hgone] at hgone'
    cases hgone'
  have hnotin : letterOf b m ∉ w.entered := by
    intro hentered
    rcases h.entered _ hentered with hdeleted | ⟨y, hy, hletter⟩
    · exact hfresh hdeleted
    · have hsame := (h.letter y hy _ hletter).1
      rw [letterOf_mid, hmid, Option.some.injEq] at hsame
      exact hnew y hy hsame.symm
  refine h.refile (Box.mails_put w.now.box .inbox x) (fun _ hy => hy) (hxmid ▸ nodup_mids h hnew) (hxmid ▸ hkeeps)
    (fun hnone => by cases hnone) (fun l hl => ?_) (fun y hy => .inl hy) (List.nodup_cons.2 ⟨hnotin, h.nodup⟩)
    (fun l hl => List.mem_cons_of_mem _ hl) (fun l hl => ?_) (fun hfolder => ?_) fun _ hl => hl
  · obtain rfl := hxletter l hl
    exact ⟨by rw [letterOf_mid, hmid, hxmid], List.mem_cons_self, hfresh⟩
  · rcases List.mem_cons.1 hl with rfl | hl
    · exact .inr rfl
    · exact .inl hl
  · rcases hfolder with hfolder | hfolder <;> cases hfolder

private theorem sound_finish (h : Sound w) {k : Nat} {up : List Nat} {fresh : String} {now : ℚ}
    (hmeets : Meets b w (.finished k up fresh now)) : Sound (w.finish b k up fresh now) := by
  unfold World.finish
  unfold Meets at hmeets
  cases hflight : w.flights[k]? with
  | none => exact h
  | some fl =>
    have hfl := hmeets fl hflight
    dsimp only
    have hlanded : Sound { w with flights := w.flights.eraseIdx k } := h.congr ⟨rfl, rfl, rfl, rfl, rfl, rfl, rfl⟩
    by_cases hnone : (verifyMail b fl.mail).isNone = true
    · rw [if_pos hnone]
      exact hlanded
    · rw [if_neg hnone]
      obtain ⟨hkept, htold⟩ := hfl (by simpa [Option.isSome_iff_ne_none] using hnone)
      cases hknown : known w.now fl.mail with
      | some clear =>
        have hsame := same_dropped { w with flights := w.flights.eraseIdx k } clear up fl.relay fl.topic
        refine (hlanded.congr hsame).arrive b ?_
        rw [hsame.entered]
        exact h.known_entered b hknown (htold.1 trivial)
      | none =>
        obtain ⟨mid, hmid, hkeeps⟩ := (Option.any_eq_true _ _).1 hkept
        exact (hlanded.enter b hmid (of_decide_eq_true hkeeps) hknown).arrive b List.mem_cons_self

private theorem off_finish (h : Sound w) (hoff : Off b w) {k : Nat} {up : List Nat} {fresh : String} {now : ℚ}
    (hmeets : Meets b w (.finished k up fresh now)) : Off b (w.finish b k up fresh now) := by
  unfold World.finish
  unfold Meets at hmeets
  cases hflight : w.flights[k]? with
  | none => exact hoff
  | some fl =>
    have hfl := hmeets fl hflight
    dsimp only
    have hlanded : Off b { w with flights := w.flights.eraseIdx k } := hoff.mono b rfl rfl fun _ hl => hl
    by_cases hnone : (verifyMail b fl.mail).isNone = true
    · rw [if_pos hnone]
      exact hlanded
    · rw [if_neg hnone]
      obtain ⟨-, htold⟩ := hfl (by simpa [Option.isSome_iff_ne_none] using hnone)
      cases hknown : known w.now fl.mail with
      | some clear =>
        have hsound : Sound { w with flights := w.flights.eraseIdx k } := h.congr ⟨rfl, rfl, rfl, rfl, rfl, rfl, rfl⟩
        exact (off_dropped b hsound hlanded hknown htold).mono b rfl rfl fun _ hl => hl
      | none => exact hlanded.mono b rfl rfl fun _ hl => hl

/-! ### The user puts a mail away -/

private theorem off_clearRetained (h : Sound w) (hoff : Off b w) {up : List Nat} {x : Mail} (hx : x ∈ w.now.box.mails)
    (hput : ∀ l, x.letter = some l → l ∈ w.putAway) (halone : Alone b w up x) : Off b (w.clearRetained up x) := by
  unfold World.clearRetained
  cases htopic : x.topic with
  | none => exact hoff
  | some topic =>
    refine off_takeOff b hoff fun r hr hne => ?_
    cases hletter : x.letter with
    | none => cases (h.came x hx hletter).symm.trans htopic
    | some l => exact ⟨l, hput l hletter, (halone topic htopic r hr hne).trans hletter⟩

private theorem off_putAway (h : Sound w) (hoff : Off b w) {up : List Nat} {x : Mail} (hx : x ∈ w.now.box.mails)
    (halone : Alone b w up x) (hids : w'.ids = w.ids) (htaken : w'.takenOff = (w.clearRetained up x).takenOff)
    (hput : w'.putAway = x.letter.toList ++ w.putAway) : Off b w' := by
  let away : World κ := { w with putAway := x.letter.toList ++ w.putAway }
  have hmore : ∀ l ∈ w.putAway, l ∈ away.putAway := fun l hl => List.mem_append_right _ hl
  have haway : Sound away := by
    refine ⟨h.saved, h.mids, h.keeps, h.fits, h.came, h.letter, fun y hy hfolder l hl => ?_, h.nodup, h.entered,
      fun l hl => ?_, h.gone, h.arrived⟩
    · exact hmore l (h.away y hy hfolder l hl)
    · obtain ⟨hentered, hold, hgone⟩ := h.deleted l hl
      exact ⟨hentered, hmore l hold, hgone⟩
  have hx' : ∀ l, x.letter = some l → l ∈ away.putAway := fun l hl =>
    List.mem_append_left _ (Option.mem_toList.2 hl)
  have hcleared := off_clearRetained b haway (hoff.mono b rfl rfl hmore) hx hx' halone
  have hsame := same_clearRetained away up x
  refine hcleared.mono b (hids.trans hsame.ids.symm) (htaken.trans ?_) fun l hl => ?_
  · unfold World.clearRetained
    cases x.topic <;> rfl
  · rw [hput]
    rw [hsame.putAway] at hl
    exact hl

@[simp] theorem cleared_mid (x : Mail) (up : List Nat) : (x.cleared up).mid = x.mid := by
  unfold Mail.cleared
  split <;> rfl

@[simp] theorem cleared_letter (x : Mail) (up : List Nat) : (x.cleared up).letter = x.letter := by
  unfold Mail.cleared
  split <;> rfl

private theorem cleared_topic {x : Mail} (h : x.topic = none) (up : List Nat) : (x.cleared up).topic = none := by
  unfold Mail.cleared
  split
  · exact h
  · rfl

theorem Sound.takeOut (h : Sound w) {f : Folder} {x : Mail} {mid : String} (hfind : w.now.box.find mid = some (f, x)) :
    x ∈ w.now.box.mails ∧ (∀ y ∈ (w.now.box.without f mid).mails, y ∈ w.now.box.mails) ∧
      (x.mid :: (w.now.box.without f mid).mails.map Mail.mid).Nodup ∧
      ∀ y ∈ w.now.box.mails, y = x ∨ y ∈ (w.now.box.without f mid).mails := by
  have hperm := (Box.find_some hfind).2
  refine ⟨hperm.mem_iff.2 List.mem_cons_self, fun y hy => hperm.mem_iff.2 (List.mem_cons_of_mem _ hy), ?_,
    fun y hy => List.mem_cons.1 (hperm.mem_iff.1 hy)⟩
  exact (hperm.map Mail.mid).nodup_iff.1 h.mids

theorem Sound.move (h : Sound w) {f g : Folder} {x : Mail} {mid : String} (hfind : w.now.box.find mid = some (f, x))
    (up : List Nat) : Sound (w.refiled ((w.now.box.without f mid).put g { x.cleared up with folder := g }) w.entered
      (x.letter.toList ++ w.putAway)) := by
  obtain ⟨hx, hrest, hmids, hsplit⟩ := h.takeOut hfind
  refine h.refile (Box.mails_put _ g _) hrest (by simpa using hmids) (by simpa using h.keeps x hx) (fun hnone => ?_)
    (fun l hl => ?_) (fun y hy => ?_) h.nodup (fun _ hl => hl) (fun _ hl => .inl hl) (fun _ l hl => ?_)
    fun _ hl => List.mem_append_right _ hl
  · exact cleared_topic (h.came x hx (by simpa using hnone)) up
  · replace hl : x.letter = some l := by simpa using hl
    obtain ⟨hmid, hentered⟩ := h.letter x hx l hl
    exact ⟨by simpa using hmid, hentered, fun hdeleted => h.gone l hdeleted x hx hl⟩
  · rcases hsplit y hy with rfl | hy
    · exact .inr (.inl (by simp))
    · exact .inl hy
  · exact List.mem_append_left _ (Option.mem_toList.2 (by simpa using hl))

theorem Sound.delete (h : Sound w) {f : Folder} {x : Mail} {mid : String} (hfind : w.now.box.find mid = some (f, x))
    (hroom : w.now.gone.length < GONE_KEPT) (now : Int) :
    Sound { w with
      now := ⟨w.now.box.without f mid, forget w.now.gone x.mid now⟩
      saved := ⟨w.now.box.without f mid, forget w.now.gone x.mid now⟩
      putAway := x.letter.toList ++ w.putAway
      deleted := x.letter.toList ++ w.deleted } := by
  obtain ⟨hx, hrest, hmids, hsplit⟩ := h.takeOut hfind
  have hisGone : ∀ k, Mailbox.isGone ⟨w.now.box.without f mid, forget w.now.gone x.mid now⟩ k = true ↔
      k = x.mid ∨ w.now.isGone k = true := by
    intro k
    unfold Mailbox.isGone
    rw [any_forget hroom, Bool.or_eq_true, decide_eq_true_eq, eq_comm]
  have hother : ∀ l, x.letter = some l → ∀ y ∈ (w.now.box.without f mid).mails, y.letter ≠ some l := by
    intro l hl y hy hyl
    have hsame : y.mid = x.mid :=
      Option.some.inj ((h.letter y (hrest y hy) l hyl).1.symm.trans (h.letter x hx l hl).1)
    exact (List.nodup_cons.1 hmids).1 (hsame ▸ List.mem_map_of_mem hy)
  constructor
  · rfl
  · exact (List.nodup_cons.1 hmids).2
  · exact fun y hy => h.keeps y (hrest y hy)
  · intro k hk
    rcases (hisGone k).1 hk with rfl | hk
    · exact (h.keeps x hx).1
    · exact h.fits k hk
  · exact fun y hy => h.came y (hrest y hy)
  · exact fun y hy => h.letter y (hrest y hy)
  · exact fun y hy hfolder l hl => List.mem_append_right _ (h.away y (hrest y hy) hfolder l hl)
  · exact h.nodup
  · intro l hl
    rcases h.entered l hl with hdeleted | ⟨y, hy, hyl⟩
    · exact .inl (List.mem_append_right _ hdeleted)
    · rcases hsplit y hy with rfl | hy
      · exact .inl (List.mem_append_left _ (Option.mem_toList.2 hyl))
      · exact .inr ⟨y, hy, hyl⟩
  · intro l hl
    rcases List.mem_append.1 hl with hl | hl
    · obtain ⟨hmid, hentered⟩ := h.letter x hx l (Option.mem_toList.1 hl)
      exact ⟨hentered, List.mem_append_left _ hl, x.mid, hmid, (hisGone _).2 (.inl rfl)⟩
    · obtain ⟨hentered, haway, k, hmid, hgone⟩ := h.deleted l hl
      exact ⟨hentered, List.mem_append_right _ haway, k, hmid, (hisGone _).2 (.inr hgone)⟩
  · intro l hl y hy
    rcases List.mem_append.1 hl with hl | hl
    · exact hother l (Option.mem_toList.1 hl) y hy
    · exact h.gone l hl y (hrest y hy)
  · exact h.arrived

private theorem sound_trash (h : Sound w) {mid : String} {up : List Nat} {now : Int}
    (hmeets : Meets b w (.trashed mid up now)) : Sound (w.trash mid up now) := by
  unfold World.trash
  unfold Meets at hmeets
  cases hfind : w.now.box.find mid with
  | none => exact h.congr ⟨rfl, rfl, h.saved.symm, rfl, rfl, rfl, rfl⟩
  | some r =>
    obtain ⟨f, x⟩ := r
    have hsame := same_clearRetained w up x
    dsimp only
    split
    case isTrue htrash =>
      have hdeleted := h.delete hfind ((hmeets (f, x) hfind).2 htrash) now
      exact hdeleted.congr ⟨hsame.ids, rfl, rfl, hsame.arrived, hsame.entered, rfl,
        congrArg (x.letter.toList ++ ·) hsame.deleted⟩
    case isFalse =>
      exact (h.move hfind up).congr ⟨hsame.ids, rfl, rfl, hsame.arrived, hsame.entered, rfl, hsame.deleted⟩

private theorem off_trash (h : Sound w) (hoff : Off b w) {mid : String} {up : List Nat} {now : Int}
    (hmeets : Meets b w (.trashed mid up now)) : Off b (w.trash mid up now) := by
  unfold World.trash
  unfold Meets at hmeets
  cases hfind : w.now.box.find mid with
  | none => exact hoff.mono b rfl rfl fun _ hl => hl
  | some r =>
    obtain ⟨f, x⟩ := r
    have halone := (hmeets (f, x) hfind).1
    have hids := (same_clearRetained w up x).ids
    dsimp only
    split
    · exact off_putAway b h hoff (h.takeOut hfind).1 halone hids rfl rfl
    · exact off_putAway b h hoff (h.takeOut hfind).1 halone hids rfl rfl

private theorem sound_spam (h : Sound w) (mid : String) (up : List Nat) : Sound (w.spam mid up) := by
  unfold World.spam
  cases hfind : w.now.box.find mid with
  | none => exact h.congr ⟨rfl, rfl, h.saved.symm, rfl, rfl, rfl, rfl⟩
  | some r =>
    obtain ⟨f, x⟩ := r
    have hsame := same_clearRetained w up x
    exact (h.move hfind up).congr ⟨hsame.ids, rfl, rfl, hsame.arrived, hsame.entered, rfl, hsame.deleted⟩

private theorem off_spam (h : Sound w) (hoff : Off b w) {mid : String} {up : List Nat}
    (hmeets : Meets b w (.spammed mid up)) : Off b (w.spam mid up) := by
  unfold World.spam
  unfold Meets at hmeets
  cases hfind : w.now.box.find mid with
  | none => exact hoff.mono b rfl rfl fun _ hl => hl
  | some r =>
    obtain ⟨f, x⟩ := r
    exact off_putAway b h hoff (h.takeOut hfind).1 (hmeets (f, x) hfind) (same_clearRetained w up x).ids rfl rfl

/-! ### Every step -/

theorem sound_write (h : Sound w) {mid : String} (hkeeps : Keeps mid) (hnew : ∀ x ∈ w.now.box.mails, x.mid ≠ mid)
    {f : Folder} (sender recipient subject body : String) (date : ℚ) :
    Sound (w.write f mid sender recipient subject body date) := by
  refine (h.refile (Box.mails_put w.now.box f ⟨mid, sender, recipient, subject, body, date, true, f, none, false, none⟩)
    (fun _ hy => hy) (nodup_mids h hnew) hkeeps (fun _ => rfl) (fun l hl => by cases hl) (fun _ hy => .inl hy) h.nodup
    (fun _ hl => hl) (fun _ hl => .inl hl) (fun _ l hl => by cases hl) fun _ hl => hl).congr ?_
  exact ⟨rfl, rfl, rfl, rfl, rfl, rfl, rfl⟩

private theorem sound_reload (h : Sound w) (fresh : Nat → String) : Sound (w.reload fresh) := by
  have hgone : w.now.gone.filter (fun e => MID_RE e.1) = w.now.gone := by
    refine List.filter_eq_self.2 fun e he => h.fits e.1 ?_
    exact List.any_eq_true.2 ⟨e, he, by simp⟩
  have hload : load fresh w.saved = w.now := by
    unfold load
    rw [h.saved, cleanBox_self h.keeps h.mids, hgone]
  exact h.congr ⟨rfl, hload, rfl, rfl, rfl, rfl, rfl⟩

theorem opened_append {ids : List (Identity κ)} {id : Identity κ} {topic payload : String} {r : Identity κ × Json}
    (h : opened b ids topic payload = some r) : opened b (ids ++ [id]) topic payload = some r := by
  unfold opened at h ⊢
  split at h
  case isTrue => cases h
  case isFalse hguard =>
    rw [if_neg hguard]
    obtain ⟨found, hfind, hrest⟩ := Option.bind_eq_some_iff.1 h
    rw [List.find?_append, hfind]
    exact hrest

private theorem off_newAddress (hoff : Off b w) (id : Identity κ) : Off b { w with ids := w.ids ++ [id] } := by
  intro t ht
  obtain ⟨l, hl, hletter⟩ := hoff t ht
  obtain ⟨r, hr, hrl⟩ := Option.map_eq_some_iff.1 hletter
  exact ⟨l, hl, Option.map_eq_some_iff.2 ⟨r, opened_append b hr, hrl⟩⟩

theorem sound_step (h : Sound w) {e : Step κ} (hmeets : Meets b w e) : Sound (step b w e) := by
  cases e with
  | published relay topic payload => exact h.congr ⟨rfl, rfl, rfl, rfl, rfl, rfl, rfl⟩
  | delivered relay topic payload up => exact sound_deliver b h hmeets
  | finished k up fresh now => exact sound_finish b h hmeets
  | trashed mid up now => exact sound_trash b h hmeets
  | spammed mid up => exact sound_spam h mid up
  | sent mid sender recipient subject body date =>
    exact sound_write h hmeets.1 hmeets.2 sender recipient subject body date
  | drafted mid sender recipient subject body date =>
    exact sound_write h hmeets.1 hmeets.2 sender recipient subject body date
  | newAddress id => exact ⟨h.saved, h.mids, h.keeps, h.fits, h.came, h.letter, h.away, h.nodup, h.entered, h.deleted,
      h.gone, h.arrived⟩
  | reloaded fresh => exact sound_reload h fresh

private theorem off_step (h : Sound w) (hoff : Off b w) {e : Step κ} (hmeets : Meets b w e) : Off b (step b w e) := by
  cases e with
  | published relay topic payload => exact hoff.mono b rfl rfl fun _ hl => hl
  | delivered relay topic payload up => exact off_deliver b h hoff hmeets
  | finished k up fresh now => exact off_finish b h hoff hmeets
  | trashed mid up now => exact off_trash b h hoff hmeets
  | spammed mid up => exact off_spam b h hoff hmeets
  | sent mid sender recipient subject body date => exact hoff.mono b rfl rfl fun _ hl => hl
  | drafted mid sender recipient subject body date => exact hoff.mono b rfl rfl fun _ hl => hl
  | newAddress id => exact off_newAddress b hoff id
  | reloaded fresh => exact hoff.mono b rfl rfl fun _ hl => hl

/-- In a run in which no mail is taken for another, every proven mail arrives, once, in every state on the way. -/
theorem arrives_once (ids : List (Identity κ)) (held : Nat → String → String) (es : List (Step κ))
    (h : Along (step b) (Meets b) (World.start ids held) es) (k : Nat) :
    ArrivesOnce b (run (step b) (World.start ids held) (es.take k)) := by
  have hstart : Sound (World.start ids held) ∧ Off b (World.start ids held) :=
    ⟨sound_start ids held, fun t ht => by cases ht⟩
  have hrun := run_invariant (P := fun w => Sound w ∧ Off b w)
    (fun w e hw hmeets => ⟨sound_step b hw.1 hmeets, off_step b hw.1 hw.2 hmeets⟩) (h.take k) hstart
  exact hrun.1.arrivesOnce b hrun.2

/-! ### Two mails with one id -/

/-- A browser whose cryptography hides nothing. -/
def reading (parse : String → Option Json) : Platform Unit where
  sha256 bytes := bytes.reverse
  deriveBits _ _ := some []
  hkdf bits _ := bits
  encrypt _ _ _ text := text ++ List.replicate 16 0
  decrypt _ _ _ text := some (text.take (text.length - 16))
  verify _ _ _ := some true
  parse := parse
  number
    | .int n => some n
    | _ => none
  string
    | .str s => s
    | .int n => toString n
    | _ => ""
  lower t := t.map Char.toLower

def identity (n : UInt8) : Identity Unit := genId (reading fun _ => none) [0, 0, n] [n, n, n] ()

def mailNamed (mid : String) (n : UInt8) (subject : String) : Json :=
  .obj [("v", .int 2), ("mid", .str mid), ("from", .str (identity n).addr), ("to", .str (identity 0).addr),
    ("date", .int 1), ("subject", .str subject), ("body", .str ""), ("sp", .str (b64e [0, 0, n])),
    ("ss", .str (b64e [n, n, n])), ("sig", .str "AAAA")]

def mailFrom (n : UInt8) (subject : String) : Json := mailNamed "m1" n subject

def twoMails : Platform Unit :=
  reading fun text => if text = "1" then some (mailFrom 1 "Invoice") else some (mailFrom 2 "")

def topicOf (n : Nat) : String := inboxTopic twoMails (identity 0).addr ++ "/" ++ toString n

def payloadOf (n : UInt8) : String := b64e (List.replicate 77 0 ++ [48 + n] ++ List.replicate 16 0)

/-- A stranger's mail comes first. -/
theorem mail_lost : ¬ ArrivesOnce twoMails (run (step twoMails) (World.start [identity 0] fun _ _ => "")
    [.delivered 0 (topicOf 2) (payloadOf 2) [0], .finished 0 [0] "m2" 0,
      .delivered 0 (topicOf 1) (payloadOf 1) [0]]) := by
  intro h
  have hcount := h.once (letterOf twoMails (mailFrom 1 "Invoice")) (by decide +kernel)
  revert hcount
  decide +kernel

def ownNames : Platform Unit :=
  reading fun text => if text = "1" then some (mailFrom 1 "Invoice") else some (mailNamed "m3" 2 "")

/-- Two mails come together, one is put in the trash while no relay is up, comes again, and is deleted for good, and then
both come again. -/
theorem arrives_once_deleted : ArrivesOnce ownNames (run (step ownNames) (World.start [identity 0] fun _ _ => "")
    (List.take 11 [.published 0 (topicOf 1) (payloadOf 1), .delivered 0 (topicOf 1) (payloadOf 1) [0],
      .delivered 0 (topicOf 2) (payloadOf 2) [0], .finished 1 [0] "m2" 0, .finished 0 [0] "m2" 0, .trashed "m1" [] 1,
      .delivered 0 (topicOf 1) (payloadOf 1) [0], .trashed "m1" [0] 2, .reloaded fun _ => "m4",
      .delivered 1 (topicOf 1) (payloadOf 1) [0, 1], .delivered 1 (topicOf 2) (payloadOf 2) [0, 1]])) :=
  arrives_once ownNames [identity 0] (fun _ _ => "") _ (by decide +kernel) 11

end HidraNet.MailPage
