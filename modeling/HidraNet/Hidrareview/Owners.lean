import HidraNet.Hidrareview.Page

/-!
# Who speaks for a listing

The key that first signed a listing is remembered, and what the page then shows as the listing's is what that key signed
(`Speaks`); nothing else removes or replaces it (`Kept`).  This holds as long as an id is that of one listing's review
only, and no listing has a name that every object has (`Meets`): replies are kept by their id alone, so that whoever
owns any listing, or writes for one without an owner, may answer there for another.
-/

namespace HidraNet.Hidrareview

open Forum (inherited)
open Maps Runs

variable (b : Browser) {p p' : Page}

/-! ### What is to hold -/

/-- What is shown as a listing's is what the listing's key signed. -/
structure Speaks (p : Page) : Prop where
  listing : ∀ slug pk rec, p.knownOwners.get? slug = some pk → p.biz.get? slug = some rec →
    rec.opk = pk ∧ listingVerifies b pk slug rec = true
  photo : ∀ slug pk pid x, p.knownOwners.get? slug = some pk → p.pics.get? (slug, pid) = some x →
    photoVerifies b pk slug pid x = true
  reply : ∀ slug pk id r, p.knownOwners.get? slug = some pk → p.fromBusiness slug id = some r →
    replyVerifies b pk slug id r = true

def SignsListing (pk slug : String) (topic : List String) (s : String) : Prop :=
  readTopic topic = some (.listing slug) ∧ ∃ rec, (b.parse s).bind (cleanBiz b) = some rec ∧
    listingVerifies b pk slug rec = true

def SignsPhoto (pk slug pid : String) (topic : List String) (s : String) : Prop :=
  readTopic topic = some (.photo slug pid) ∧ ∃ x, readPhoto b s = some x ∧ photoVerifies b pk slug pid x = true

def SignsReply (pk slug id : String) (topic : List String) (s : String) : Prop :=
  readTopic topic = some (.reply slug id) ∧ ∃ r, (b.parse s).bind (cleanReply b slug) = some r ∧
    replyVerifies b pk slug id r = true

/-- The first signed listing of a name is shown and its key is remembered for good, and only a message of that key
removes or replaces what the key signed. -/
structure Kept (p : Page) (e : Event) : Prop where
  first : ∀ topic s slug rec, e = .message topic s → readTopic topic = some (.listing slug) → s ≠ "" →
    (b.parse s).bind (cleanBiz b) = some rec → listingVerifies b rec.opk slug rec = true →
    p.knownOwners.get? slug = none → (step b p e).knownOwners.get? slug = some rec.opk ∧
      (step b p e).biz.get? slug = some { rec with signed := true }
  remembered : ∀ slug pk, p.knownOwners.get? slug = some pk → (step b p e).knownOwners.get? slug = some pk
  listing : ∀ topic s slug pk rec, e = .message topic s → p.knownOwners.get? slug = some pk →
    p.biz.get? slug = some rec → (step b p e).biz.get? slug = some rec ∨ SignsListing b pk slug topic s
  photo : ∀ topic s slug pk pid x, e = .message topic s → p.knownOwners.get? slug = some pk →
    p.pics.get? (slug, pid) = some x → (step b p e).pics.get? (slug, pid) = some x ∨ SignsPhoto b pk slug pid topic s
  reply : ∀ topic s slug pk id r, e = .message topic s → p.knownOwners.get? slug = some pk →
    p.replies.get? id = some r → r.verified = true → r.slug = slug →
    (step b p e).replies.get? id = some r ∨ SignsReply b pk slug id topic s

/-! ### When -/

def Foreign (p : Page) (slug id : String) : Prop :=
  (p.replies.get? id).any (fun r => r.verified && r.slug ≠ slug) = true

def Elsewhere (p : Page) (slug id : String) : Prop :=
  (p.revs.get? id).any (fun rev => rev.slug ≠ slug && (p.knownOwners.get? rev.slug).isSome) = true

def Heard (p : Page) (slug id s : String) : Prop :=
  match p.owner slug with
  | none => s = "" ∨ ((b.parse s).bind (cleanReply b slug)).any (·.sig = "") = true
  | some owner => s ≠ "" ∧ ((b.parse s).bind (cleanReply b slug)).any
      (fun r => r.sig ≠ "" && owner.any (replyVerifies b · slug id r)) = true

/-- A reply that is taken is to no other listing's review, and no other listing's is under a review of an owner's. -/
def MeetsAt (p : Page) (s : String) : Topic → Prop
  | .reply slug id => Heard b p slug id s → ¬ Foreign p slug id ∧ ((p.owner slug).isSome = true → ¬ Elsewhere p slug id)
  | .listing slug => s ≠ "" → ∀ rec ∈ (b.parse s).bind (cleanBiz b), listingVerifies b rec.opk slug rec = true →
      p.knownOwners.get? slug = none → slug ∉ inherited ∧
        (∀ e ∈ p.heldReplies b slug rec.opk, ¬ Foreign p slug e.1 ∧ ¬ Elsewhere p slug e.1) ∧
        ∀ e ∈ p.revs.entries, e.2.slug = slug → ¬ Foreign p slug e.1
  | .review slug id => s ≠ "" → (p.knownOwners.get? slug).isSome = true →
      ((b.parse s).bind (cleanReview b slug)).isSome = true → ¬ Foreign p slug id
  | .photo _ _ => True

def Meets (p : Page) : Event → Prop
  | .message topic s => ∀ t ∈ readTopic topic, MeetsAt b p s t
  | .reload => True

instance (p : Page) (slug id : String) : Decidable (Foreign p slug id) := inferInstanceAs (Decidable (_ = true))

instance (p : Page) (slug id : String) : Decidable (Elsewhere p slug id) := inferInstanceAs (Decidable (_ = true))

instance (p : Page) (slug id s : String) : Decidable (Heard b p slug id s) := by
  unfold Heard
  split <;> infer_instance

instance (p : Page) (s : String) (t : Topic) : Decidable (MeetsAt b p s t) := by
  cases t <;> dsimp only [MeetsAt] <;> infer_instance

instance decidableMeets (p : Page) (e : Event) : Decidable (Meets b p e) := by
  cases e <;> dsimp only [Meets] <;> infer_instance

/-! ### What the page keeps up -/

structure Sound (p : Page) : Prop where
  keys : ∀ slug pk, p.knownOwners.get? slug = some pk → pk ≠ ""
  listing : ∀ slug pk rec, p.knownOwners.get? slug = some pk → p.biz.get? slug = some rec →
    rec.opk = pk ∧ listingVerifies b pk slug rec = true
  photo : ∀ slug pk pid x, p.knownOwners.get? slug = some pk → p.pics.get? (slug, pid) = some x →
    photoVerifies b pk slug pid x = true ∧ x.sig ≠ ""
  bare : ∀ slug pid x, p.knownOwners.get? slug = none → p.pics.get? (slug, pid) = some x → x.sig = ""
  reply : ∀ id r, p.replies.get? id = some r → r.verified = true →
    ∃ pk, p.knownOwners.get? r.slug = some pk ∧ replyVerifies b pk r.slug id r = true
  pending : ∀ k r, p.pendingReplies.get? k = some r → r.slug = k.1 ∧ p.knownOwners.get? k.1 = none
  pendingPics : ∀ k x, p.pendingPics.get? k = some x → p.knownOwners.get? k.1 = none
  labels : ∀ id rev, p.revs.get? id = some rev → (p.knownOwners.get? rev.slug).isSome = true → ¬ Foreign p rev.slug id

theorem Sound.speaks (h : Sound b p) : Speaks b p := by
  refine ⟨h.listing, fun slug pk pid x hknown hx => (h.photo slug pk pid x hknown hx).1,
    fun slug pk id r hknown hlabel => ?_⟩
  unfold Page.fromBusiness at hlabel
  split at hlabel
  case isFalse => cases hlabel
  case isTrue hreviewed =>
    obtain ⟨rev, hrev, hslug⟩ := (Option.any_eq_true _ _).1 hreviewed
    replace hslug : rev.slug = slug := of_decide_eq_true hslug
    obtain ⟨hr, hverified⟩ := Option.filter_eq_some_iff.1 hlabel
    -- no other listing's reply is under this review
    have hsame : r.slug = slug := by
      by_contra hne
      refine h.labels id rev hrev (by rw [hslug, hknown]; rfl) ?_
      unfold Foreign
      rw [hr, hslug]
      simp [hverified, hne]
    obtain ⟨pk', hknown', hverifies⟩ := h.reply id r hr hverified
    rw [hsame, hknown, Option.some.injEq] at hknown'
    rw [hsame, ← hknown'] at hverifies
    exact hverifies

theorem sound_opened {known : Map String String} (hkeys : ∀ slug pk, known.get? slug = some pk → pk ≠ "") :
    Sound b (.opened known) := by
  constructor
  · exact hkeys
  all_goals intros
  all_goals simp_all [Page.opened]

/-! ### Whose a listing is -/

theorem Sound.owner_known (h : Sound b p) {slug pk : String} (hknown : p.knownOwners.get? slug = some pk) :
    p.owner slug = some (some pk) := by
  unfold Page.owner
  rw [hknown, Option.filter_some, if_pos (by simpa using h.keys slug pk hknown)]

theorem owner_unknown {slug : String} (hunknown : p.knownOwners.get? slug = none) :
    p.owner slug = if slug ∈ inherited then some none else none := by
  unfold Page.owner
  rw [hunknown, Option.filter_none]

theorem Sound.unknown_of_none (h : Sound b p) {slug : String} (hnone : p.owner slug = none) :
    p.knownOwners.get? slug = none := by
  cases hknown : p.knownOwners.get? slug with
  | none => rfl
  | some pk => cases (h.owner_known b hknown).symm.trans hnone

theorem Sound.known_of_some (h : Sound b p) {slug pk : String} (hsome : p.owner slug = some (some pk)) :
    p.knownOwners.get? slug = some pk := by
  cases hknown : p.knownOwners.get? slug with
  | none =>
    rw [owner_unknown hknown] at hsome
    split at hsome <;> cases hsome
  | some pk' =>
    have heq := (h.owner_known b hknown).symm.trans hsome
    rw [Option.some.injEq] at heq
    exact heq

/-! ### What a message changes -/

theorem cleanReply_some {slug : String} {o : Hidrarelay.Json} {r : Reply} (h : cleanReply b slug o = some r) :
    r.slug = slug ∧ r.verified = false := by
  unfold cleanReply at h
  split at h
  · obtain rfl := Option.some.inj h
    exact ⟨rfl, rfl⟩
  · cases h

theorem reply_cases (h : Sound b p) (slug id s : String) :
    p.reply b slug id s = p ∨
    (p.knownOwners.get? slug = none ∧ Heard b p slug id s ∧
      p.reply b slug id s = { p with replies := p.replies.remove id }) ∨
    (∃ pk r, p.knownOwners.get? slug = some pk ∧ (b.parse s).bind (cleanReply b slug) = some r ∧ r.slug = slug ∧
      replyVerifies b pk slug id r = true ∧ Heard b p slug id s ∧
      p.reply b slug id s = { p with replies := p.replies.set id { r with verified := true } }) ∨
    (∃ r, p.knownOwners.get? slug = none ∧ r.slug = slug ∧
      p.reply b slug id s = { p with pendingReplies := hold p.pendingReplies slug id r }) ∨
    ∃ r, p.knownOwners.get? slug = none ∧ r.slug = slug ∧ r.verified = false ∧ Heard b p slug id s ∧
      p.reply b slug id s =
        { p with pendingReplies := hold p.pendingReplies slug id r, replies := p.replies.set id r } := by
  unfold Page.reply Heard
  by_cases hempty : s = ""
  · cases howner : p.owner slug with
    | some owner => exact .inl (by simp [hempty])
    | none => exact .inr (.inl ⟨h.unknown_of_none b howner, .inl hempty, by simp [hempty]⟩)
  · simp only [if_neg hempty]
    cases hread : (b.parse s).bind (cleanReply b slug) with
    | none => exact .inl rfl
    | some r =>
      obtain ⟨o, -, hclean⟩ := Option.bind_eq_some_iff.1 hread
      obtain ⟨hslug, hverified⟩ := cleanReply_some b hclean
      dsimp only
      cases howner : p.owner slug with
      | none =>
        have hunknown := h.unknown_of_none b howner
        by_cases hsig : r.sig = ""
        · exact .inr (.inr (.inr (.inr ⟨r, hunknown, hslug, hverified, .inr (by simp [hsig]), by simp [hsig]⟩)))
        · exact .inr (.inr (.inr (.inl ⟨r, hunknown, hslug, by simp [hsig]⟩)))
      | some owner =>
        dsimp only
        split
        case isFalse => exact .inl rfl
        case isTrue htaken =>
          obtain ⟨-, hany⟩ := Bool.and_eq_true_iff.1 htaken
          obtain ⟨pk, rfl, hverifies⟩ := (Option.any_eq_true _ _).1 hany
          exact .inr (.inr (.inl ⟨pk, r, h.known_of_some b howner, rfl, hslug, hverifies,
            ⟨hempty, by simpa using htaken⟩, rfl⟩))

theorem photo_cases (h : Sound b p) (slug pid s : String) :
    p.photo b slug pid s = p ∨
    (p.knownOwners.get? slug = none ∧ p.photo b slug pid s = { p with pics := p.pics.remove (slug, pid) }) ∨
    (∃ pk x, p.knownOwners.get? slug = some pk ∧ readPhoto b s = some x ∧ photoVerifies b pk slug pid x = true ∧
      x.sig ≠ "" ∧ p.photo b slug pid s = { p with pics := p.pics.set (slug, pid) x }) ∨
    (∃ x, p.knownOwners.get? slug = none ∧
      p.photo b slug pid s = { p with pendingPics := hold p.pendingPics slug pid x }) ∨
    ∃ x, p.knownOwners.get? slug = none ∧ x.sig = "" ∧ p.photo b slug pid s =
      { p with pendingPics := hold p.pendingPics slug pid x, pics := p.pics.set (slug, pid) x } := by
  unfold Page.photo
  by_cases hempty : s = ""
  · cases howner : p.owner slug with
    | some owner => exact .inl (by simp [hempty])
    | none => exact .inr (.inl ⟨h.unknown_of_none b howner, by simp [hempty]⟩)
  · simp only [if_neg hempty]
    cases hread : (readPhoto b s).filter (okPic ·.d) with
    | none => exact .inl rfl
    | some x =>
      have hx := (Option.filter_eq_some_iff.1 hread).1
      dsimp only
      cases howner : p.owner slug with
      | none =>
        have hunknown := h.unknown_of_none b howner
        by_cases hsig : x.sig = ""
        · exact .inr (.inr (.inr (.inr ⟨x, hunknown, hsig, by simp [hsig]⟩)))
        · exact .inr (.inr (.inr (.inl ⟨x, hunknown, by simp [hsig]⟩)))
      | some owner =>
        dsimp only
        split
        case isFalse => exact .inl rfl
        case isTrue htaken =>
          obtain ⟨hsig, hany⟩ := Bool.and_eq_true_iff.1 htaken
          obtain ⟨pk, rfl, hverifies⟩ := (Option.any_eq_true _ _).1 hany
          exact .inr (.inr (.inl ⟨pk, x, h.known_of_some b howner, hx, hverifies, of_decide_eq_true hsig, rfl⟩))

def Page.takeListing (p : Page) (slug : String) (rec : Biz) : Page :=
  { (p.rememberOwner slug rec.opk).settle b slug rec.opk with biz := p.biz.set slug { rec with signed := true } }

theorem listing_cases (h : Sound b p) (slug s : String) :
    (∃ d, p.listing b slug s = { p with disputed := d }) ∨
    (p.knownOwners.get? slug = none ∧ p.listing b slug s = { p with biz := p.biz.remove slug }) ∨
    (∃ rec, p.knownOwners.get? slug = none ∧ p.listing b slug s = { p with biz := p.biz.set slug rec }) ∨
    ∃ rec, s ≠ "" ∧ (b.parse s).bind (cleanBiz b) = some rec ∧ listingVerifies b rec.opk slug rec = true ∧
      (p.owner slug = none ∨ p.owner slug = some (some rec.opk)) ∧ p.listing b slug s = p.takeListing b slug rec := by
  unfold Page.listing
  by_cases hempty : s = ""
  · cases howner : p.owner slug with
    | some owner => exact .inl ⟨_, by simp [hempty]; rfl⟩
    | none => exact .inr (.inl ⟨h.unknown_of_none b howner, by simp [hempty]⟩)
  · simp only [if_neg hempty]
    cases hread : (b.parse s).bind (cleanBiz b) with
    | none => exact .inl ⟨p.disputed, rfl⟩
    | some rec =>
      dsimp only
      by_cases hsigned : (rec.opk ≠ "" || rec.sig ≠ "") = true
      · rw [if_pos hsigned]
        split
        case isFalse => exact .inl ⟨p.disputed, rfl⟩
        case isTrue hverifies =>
          split
          case isTrue => exact .inl ⟨_, rfl⟩
          case isFalse hown =>
            refine .inr (.inr (.inr ⟨rec, hempty, rfl, hverifies, ?_, ?_⟩))
            · cases howner : p.owner slug with
              | none => exact .inl rfl
              | some owner =>
                refine .inr ?_
                by_contra hne
                exact hown (by simp [howner, hne])
            · unfold Page.takeListing Page.settle Page.rememberOwner
              split <;> rfl
      · rw [if_neg hsigned]
        cases howner : p.owner slug with
        | some owner => exact .inl ⟨_, by simp; rfl⟩
        | none => exact .inr (.inr (.inl ⟨rec, h.unknown_of_none b howner, by simp⟩))

/-! ### What is kept up -/

theorem foreign_iff {slug id : String} :
    Foreign p slug id ↔ ∃ r, p.replies.get? id = some r ∧ r.verified = true ∧ r.slug ≠ slug := by
  unfold Foreign
  rw [Option.any_eq_true]
  simp

theorem elsewhere_iff {slug id : String} :
    Elsewhere p slug id ↔ ∃ rev, p.revs.get? id = some rev ∧ rev.slug ≠ slug ∧
      (p.knownOwners.get? rev.slug).isSome = true := by
  unfold Elsewhere
  rw [Option.any_eq_true]
  simp

theorem get?_hold {ν : Type*} {held : Map (String × String) ν} {slug id : String} {item v : ν} {k : String × String}
    (h : (hold held slug id item).get? k = some v) : (k = (slug, id) ∧ v = item) ∨ held.get? k = some v := by
  unfold hold at h
  split at h
  · rw [Map.get?_set] at h
    split at h
    case isTrue hk => exact .inl ⟨hk, (Option.some.inj h).symm⟩
    case isFalse => exact .inr h
  · exact .inr h

theorem sound_reply (h : Sound b p) {slug id s : String} (hmeets : MeetsAt b p s (.reply slug id)) :
    Sound b (p.reply b slug id s) := by
  rcases reply_cases b h slug id s with heq | ⟨-, -, heq⟩ | ⟨pk, r, hknown, -, hslug, hverifies, hheard, heq⟩ |
    ⟨r, hunknown, hslug, heq⟩ | ⟨r, hunknown, hslug, hverified, -, heq⟩ <;> rw [heq]
  · exact h
  · -- one reply less
    have hless : ∀ id' r, (p.replies.remove id).get? id' = some r → p.replies.get? id' = some r :=
      fun _ _ hr => (Map.get?_remove_some.1 hr).2
    refine ⟨h.keys, h.listing, h.photo, h.bare, fun id' r hr => h.reply id' r (hless id' r hr), h.pending,
      h.pendingPics, ?_⟩
    intro id' rev hrev hknown hforeign
    obtain ⟨r, hr, hrest⟩ := foreign_iff.1 hforeign
    exact h.labels id' rev hrev hknown (foreign_iff.2 ⟨r, hless id' r hr, hrest⟩)
  · refine ⟨h.keys, h.listing, h.photo, h.bare, fun id' r' hr hver => ?_, h.pending,
      h.pendingPics, fun id' rev hrev hsome hforeign => ?_⟩
    · obtain ⟨rfl, rfl⟩ | ⟨-, hr⟩ := Map.get?_set_some.1 hr
      · rw [← hslug] at hknown hverifies
        exact ⟨pk, hknown, hverifies⟩
      · exact h.reply id' r' hr hver
    · obtain ⟨r', hr, hver, hne⟩ := foreign_iff.1 hforeign
      obtain ⟨rfl, rfl⟩ | ⟨-, hr⟩ := Map.get?_set_some.1 hr
      · -- the review is of this listing, for the owner of another would see this reply under it
        have howner : (p.owner slug).isSome = true := by rw [h.owner_known b hknown]; rfl
        exact (hmeets hheard).2 howner (elsewhere_iff.2 ⟨rev, hrev, fun heq => hne (hslug.trans heq.symm), hsome⟩)
      · exact h.labels id' rev hrev hsome (foreign_iff.2 ⟨r', hr, hver, hne⟩)
  · refine ⟨h.keys, h.listing, h.photo, h.bare, h.reply, fun k r' hr => ?_, h.pendingPics, h.labels⟩
    rcases get?_hold hr with ⟨rfl, rfl⟩ | hr
    · exact ⟨hslug, hunknown⟩
    · exact h.pending k r' hr
  · have hold' : ∀ id' r', (p.replies.set id r).get? id' = some r' → r'.verified = true →
        p.replies.get? id' = some r' := by
      intro id' r' hr hver
      obtain ⟨-, rfl⟩ | ⟨-, hr⟩ := Map.get?_set_some.1 hr
      · cases hver.symm.trans hverified
      · exact hr
    refine ⟨h.keys, h.listing, h.photo, h.bare, fun id' r' hr hver => h.reply id' r' (hold' id' r' hr hver) hver,
      fun k r' hr => ?_, h.pendingPics, fun id' rev hrev hsome hforeign => ?_⟩
    · rcases get?_hold hr with ⟨rfl, rfl⟩ | hr
      · exact ⟨hslug, hunknown⟩
      · exact h.pending k r' hr
    · obtain ⟨r', hr, hver, hne⟩ := foreign_iff.1 hforeign
      exact h.labels id' rev hrev hsome (foreign_iff.2 ⟨r', hold' id' r' hr hver, hver, hne⟩)

theorem sound_photo (h : Sound b p) (slug pid s : String) : Sound b (p.photo b slug pid s) := by
  have hheld : ∀ item, p.knownOwners.get? slug = none → ∀ k x, (hold p.pendingPics slug pid item).get? k = some x →
      p.knownOwners.get? k.1 = none := by
    intro item hunknown k x hx
    rcases get?_hold hx with ⟨rfl, -⟩ | hx
    · exact hunknown
    · exact h.pendingPics k x hx
  rcases photo_cases b h slug pid s with heq | ⟨-, heq⟩ | ⟨pk, x, hknown, -, hverifies, hsig, heq⟩ |
    ⟨x, hunknown, heq⟩ | ⟨x, hunknown, hsig, heq⟩ <;> rw [heq]
  · exact h
  · have hless : ∀ k x, (p.pics.remove (slug, pid)).get? k = some x → p.pics.get? k = some x :=
      fun _ _ hx => (Map.get?_remove_some.1 hx).2
    exact ⟨h.keys, h.listing, fun slug' pk pid' x hpk hx => h.photo slug' pk pid' x hpk (hless _ x hx),
      fun slug' pid' x hnone hx => h.bare slug' pid' x hnone (hless _ x hx), h.reply, h.pending, h.pendingPics,
      h.labels⟩
  · refine ⟨h.keys, h.listing, fun slug' pk' pid' x' hpk hx => ?_, fun slug' pid' x' hnone hx => ?_, h.reply, h.pending,
      h.pendingPics, h.labels⟩
    · obtain ⟨⟨⟩, rfl⟩ | ⟨-, hx⟩ := Map.get?_set_some.1 hx
      · obtain rfl := Option.some.inj (hknown.symm.trans hpk)
        exact ⟨hverifies, hsig⟩
      · exact h.photo slug' pk' pid' x' hpk hx
    · obtain ⟨⟨⟩, -⟩ | ⟨-, hx⟩ := Map.get?_set_some.1 hx
      · cases hknown.symm.trans hnone
      · exact h.bare slug' pid' x' hnone hx
  · exact ⟨h.keys, h.listing, h.photo, h.bare, h.reply, h.pending, hheld x hunknown, h.labels⟩
  · refine ⟨h.keys, h.listing, fun slug' pk' pid' x' hpk hx => ?_, fun slug' pid' x' hnone hx => ?_, h.reply, h.pending,
      hheld x hunknown, h.labels⟩
    · obtain ⟨⟨⟩, -⟩ | ⟨-, hx⟩ := Map.get?_set_some.1 hx
      · cases hunknown.symm.trans hpk
      · exact h.photo slug' pk' pid' x' hpk hx
    · obtain ⟨-, rfl⟩ | ⟨-, hx⟩ := Map.get?_set_some.1 hx
      · exact hsig
      · exact h.bare slug' pid' x' hnone hx

theorem sound_review (h : Sound b p) {slug id s : String} (hmeets : MeetsAt b p s (.review slug id)) :
    Sound b (p.review b slug id s) := by
  unfold Page.review
  by_cases hempty : s = ""
  · rw [if_pos hempty]
    exact ⟨h.keys, h.listing, h.photo, h.bare, h.reply, h.pending, h.pendingPics,
      fun id' rev hrev => h.labels id' rev (Map.get?_remove_some.1 hrev).2⟩
  · rw [if_neg hempty]
    cases hread : (b.parse s).bind (cleanReview b slug) with
    | none => exact h
    | some r =>
      refine ⟨h.keys, h.listing, h.photo, h.bare, h.reply, h.pending, h.pendingPics, fun id' rev hrev hsome => ?_⟩
      obtain ⟨rfl, rfl⟩ | ⟨-, hrev⟩ := Map.get?_set_some.1 hrev
      · have hslug : r.slug = slug := by
          obtain ⟨o, -, hclean⟩ := Option.bind_eq_some_iff.1 hread
          unfold cleanReview at hclean
          split at hclean
          · obtain rfl := Option.some.inj hclean
            rfl
          · cases hclean
        rw [hslug] at hsome ⊢
        exact hmeets hempty hsome (by rw [hread]; rfl)
      · exact h.labels id' rev hrev hsome

/-! ### A signed listing -/

theorem get?_rememberOwner (h : Sound b p) {slug opk : String}
    (howner : p.owner slug = none ∨ p.owner slug = some (some opk)) (slug' : String) :
    (p.rememberOwner slug opk).knownOwners.get? slug' =
      if slug' = slug then some opk else p.knownOwners.get? slug' := by
  unfold Page.rememberOwner
  rcases howner with howner | howner
  · simp only [howner, Option.isSome_none, Bool.false_eq_true, if_false, Map.get?_set]
  · simp only [howner, Option.isSome_some, if_true]
    split
    case isTrue hslug => rw [hslug, h.known_of_some b howner]
    case isFalse => rfl

theorem mem_heldPics {slug opk : String} {k : String × String} {x : Pic} (h : (k, x) ∈ p.heldPics b slug opk) :
    k.1 = slug ∧ x.sig ≠ "" ∧ photoVerifies b opk slug k.2 x = true := by
  obtain ⟨-, hx⟩ := List.mem_filter.1 h
  simpa [and_assoc] using hx

theorem mem_heldReplies (hsound : Sound b p) {slug opk id : String} {r : Reply}
    (h : (id, r) ∈ p.heldReplies b slug opk) :
    p.knownOwners.get? slug = none ∧ r.slug = slug ∧ replyVerifies b opk slug id r = true := by
  obtain ⟨⟨k, held⟩, hmem, heq⟩ := List.mem_map.1 h
  obtain ⟨rfl, rfl⟩ := Prod.mk.inj heq
  obtain ⟨hentry, hheld⟩ := List.mem_filter.1 hmem
  obtain ⟨⟨hslug, -⟩, hverifies⟩ : (k.1 = slug ∧ held.sig ≠ "") ∧ replyVerifies b opk slug k.2 held = true := by
    simpa using hheld
  obtain ⟨hsame, hunknown⟩ := hsound.pending k held (Map.mem_entries.1 hentry)
  exact ⟨hslug ▸ hunknown, hsame.trans hslug, hverifies⟩

section Taken

variable {slug : String} {rec : Biz}

theorem knownOwners_takeListing (h : Sound b p) (howner : p.owner slug = none ∨ p.owner slug = some (some rec.opk))
    (slug' : String) : (p.takeListing b slug rec).knownOwners.get? slug' =
      if slug' = slug then some rec.opk else p.knownOwners.get? slug' :=
  get?_rememberOwner b h howner slug'

theorem rememberOwner_rest (p : Page) (slug opk : String) :
    (p.rememberOwner slug opk).pics = p.pics ∧ (p.rememberOwner slug opk).replies = p.replies ∧
      (p.rememberOwner slug opk).revs = p.revs ∧ (p.rememberOwner slug opk).pendingReplies = p.pendingReplies ∧
      (p.rememberOwner slug opk).pendingPics = p.pendingPics := by
  unfold Page.rememberOwner
  split <;> exact ⟨rfl, rfl, rfl, rfl, rfl⟩

theorem pics_takeListing {k : String × String} {x : Pic} (h : (p.takeListing b slug rec).pics.get? k = some x) :
    (k.1 = slug ∧ photoVerifies b rec.opk slug k.2 x = true ∧ x.sig ≠ "") ∨
      (p.pics.get? k = some x ∧ ¬ (k.1 = slug ∧ x.sig = "")) := by
  obtain ⟨hpics, -, -, -, hpending⟩ := rememberOwner_rest p slug rec.opk
  rcases get?_setAll h with hmem | hkept
  · obtain ⟨hslug, hsig, hverifies⟩ := mem_heldPics b hmem
    exact .inl ⟨hslug, hverifies, hsig⟩
  · rw [hpics, Map.get?_retain] at hkept
    obtain ⟨hx, hkeep⟩ := Option.filter_eq_some_iff.1 hkept
    refine .inr ⟨hx, fun ⟨hslug, hsig⟩ => ?_⟩
    simp [hslug, hsig] at hkeep

theorem replies_takeListing {id : String} {r : Reply} (h : (p.takeListing b slug rec).replies.get? id = some r) :
    (id, r) ∈ p.heldReplies b slug rec.opk ∨ p.replies.get? id = some r := by
  obtain ⟨-, hreplies, -, hpending, -⟩ := rememberOwner_rest p slug rec.opk
  rcases get?_setAll h with hmem | hkept
  · unfold Page.heldReplies at hmem ⊢
    rw [hpending] at hmem
    exact .inl hmem
  · rw [hreplies, Map.get?_retain] at hkept
    exact .inr (Option.filter_eq_some_iff.1 hkept).1

theorem known_takeListing (h : Sound b p) (howner : p.owner slug = none ∨ p.owner slug = some (some rec.opk))
    {slug' pk : String} (hknown : p.knownOwners.get? slug' = some pk) :
    (p.takeListing b slug rec).knownOwners.get? slug' = some pk := by
  rw [knownOwners_takeListing b h howner]
  split
  case isFalse => exact hknown
  case isTrue heq =>
    subst heq
    rcases howner with howner | howner
    · cases (h.owner_known b hknown).symm.trans howner
    · exact (h.known_of_some b howner).symm.trans hknown

theorem sound_takeListing (h : Sound b p) (hverifies : listingVerifies b rec.opk slug rec = true)
    (howner : p.owner slug = none ∨ p.owner slug = some (some rec.opk))
    (hmeets : p.knownOwners.get? slug = none →
      (∀ e ∈ p.heldReplies b slug rec.opk, ¬ Foreign p slug e.1 ∧ ¬ Elsewhere p slug e.1) ∧
        ∀ e ∈ p.revs.entries, e.2.slug = slug → ¬ Foreign p slug e.1) : Sound b (p.takeListing b slug rec) := by
  have hget := knownOwners_takeListing b h howner
  have hunknown : ∀ slug', (p.takeListing b slug rec).knownOwners.get? slug' = none →
      slug' ≠ slug ∧ p.knownOwners.get? slug' = none := by
    intro slug' hnone
    rw [hget] at hnone
    split at hnone
    case isTrue => cases hnone
    case isFalse hne => exact ⟨hne, hnone⟩
  constructor
  · intro slug' pk hpk
    rw [hget] at hpk
    split at hpk
    · rintro rfl
      obtain hopk := Option.some.inj hpk
      unfold listingVerifies at hverifies
      rw [hopk, b.verifyFields_empty] at hverifies
      cases hverifies
    · exact h.keys slug' pk hpk
  · intro slug' pk rec' hpk hrec
    rw [hget] at hpk
    replace hrec : (p.biz.set slug { rec with signed := true }).get? slug' = some rec' := hrec
    rw [Map.get?_set] at hrec
    split at hpk
    case isTrue heq =>
      rw [if_pos heq] at hrec
      obtain rfl := Option.some.inj hrec
      obtain rfl := Option.some.inj hpk
      rw [heq]
      exact ⟨rfl, hverifies⟩
    case isFalse hne =>
      rw [if_neg hne] at hrec
      exact h.listing slug' pk rec' hpk hrec
  · intro slug' pk pid x hpk hx
    rw [hget] at hpk
    rcases pics_takeListing b hx with ⟨heq, hsigned, hsig⟩ | ⟨hold, hkeep⟩
    · rw [if_pos heq] at hpk
      obtain rfl := Option.some.inj hpk
      obtain rfl : slug' = slug := heq
      exact ⟨hsigned, hsig⟩
    · split at hpk
      case isFalse => exact h.photo slug' pk pid x hpk hold
      case isTrue heq =>
        subst heq
        obtain rfl := Option.some.inj hpk
        rcases howner with howner | howner
        · exact absurd ⟨rfl, h.bare slug' pid x (h.unknown_of_none b howner) hold⟩ hkeep
        · exact h.photo slug' _ pid x (h.known_of_some b howner) hold
  · intro slug' pid x hnone hx
    obtain ⟨hne, hnone⟩ := hunknown slug' hnone
    rcases pics_takeListing b hx with ⟨heq, -⟩ | ⟨hold, -⟩
    · exact absurd heq hne
    · exact h.bare slug' pid x hnone hold
  · intro id r hr hver
    rcases replies_takeListing b hr with hheld | hold
    · obtain ⟨-, hslug, hsigned⟩ := mem_heldReplies b h hheld
      exact ⟨rec.opk, by rw [hget, if_pos hslug], by rw [hslug]; exact hsigned⟩
    · obtain ⟨pk, hpk, hsigned⟩ := h.reply id r hold hver
      exact ⟨pk, known_takeListing b h howner hpk, hsigned⟩
  · intro k r hr
    obtain ⟨-, -, -, hpending, -⟩ := rememberOwner_rest p slug rec.opk
    replace hr : ((p.rememberOwner slug rec.opk).pendingReplies.retain fun k _ => k.1 ≠ slug).get? k = some r := hr
    rw [hpending, Map.get?_retain] at hr
    obtain ⟨hr, hne⟩ := Option.filter_eq_some_iff.1 hr
    obtain ⟨hslug, hnone⟩ := h.pending k r hr
    exact ⟨hslug, by rw [hget, if_neg (by simpa using hne)]; exact hnone⟩
  · intro k x hx
    obtain ⟨-, -, -, -, hpending⟩ := rememberOwner_rest p slug rec.opk
    replace hx : ((p.rememberOwner slug rec.opk).pendingPics.retain fun k _ => k.1 ≠ slug).get? k = some x := hx
    rw [hpending, Map.get?_retain] at hx
    obtain ⟨hx, hne⟩ := Option.filter_eq_some_iff.1 hx
    rw [hget, if_neg (by simpa using hne)]
    exact h.pendingPics k x hx
  · intro id rev hrev hsome hforeign
    replace hrev : p.revs.get? id = some rev := (rememberOwner_rest p slug rec.opk).2.2.1 ▸ hrev
    obtain ⟨r, hr, hver, hne⟩ := foreign_iff.1 hforeign
    rcases replies_takeListing b hr with hheld | hold
    · -- a reply that was held is under a review of another listing
      obtain ⟨hnone, hslug, -⟩ := mem_heldReplies b h hheld
      refine ((hmeets hnone).1 _ hheld).2 (elsewhere_iff.2 ⟨rev, hrev, fun heq => hne (hslug.trans heq.symm), ?_⟩)
      rwa [hget, if_neg fun heq => hne (hslug.trans heq.symm)] at hsome
    · by_cases hknown : (p.knownOwners.get? rev.slug).isSome = true
      · exact h.labels id rev hrev hknown (foreign_iff.2 ⟨r, hold, hver, hne⟩)
      · -- the review is of the listing that has an owner now
        have hnone : p.knownOwners.get? rev.slug = none := by simpa using hknown
        have heq : rev.slug = slug := by
          by_contra hother
          rw [hget, if_neg hother, hnone] at hsome
          cases hsome
        subst heq
        exact (hmeets hnone).2 (id, rev) (Map.mem_entries.2 hrev) rfl (foreign_iff.2 ⟨r, hold, hver, hne⟩)

theorem sound_listing (h : Sound b p) {s : String} (hmeets : MeetsAt b p s (.listing slug)) :
    Sound b (p.listing b slug s) := by
  rcases listing_cases b h slug s with ⟨d, heq⟩ | ⟨hunknown, heq⟩ | ⟨rec, hunknown, heq⟩ |
    ⟨rec, hne, hread, hverifies, howner, heq⟩ <;> rw [heq]
  · exact ⟨h.keys, h.listing, h.photo, h.bare, h.reply, h.pending, h.pendingPics, h.labels⟩
  · exact ⟨h.keys, fun slug' pk rec' hpk hrec => h.listing slug' pk rec' hpk (Map.get?_remove_some.1 hrec).2, h.photo,
      h.bare, h.reply, h.pending, h.pendingPics, h.labels⟩
  · refine ⟨h.keys, fun slug' pk rec' hpk hrec => ?_, h.photo, h.bare, h.reply, h.pending, h.pendingPics, h.labels⟩
    obtain ⟨rfl, -⟩ | ⟨-, hrec⟩ := Map.get?_set_some.1 hrec
    · cases hunknown.symm.trans hpk
    · exact h.listing slug' pk rec' hpk hrec
  · exact sound_takeListing b h hverifies howner fun hnone => (hmeets hne rec hread hverifies hnone).2

end Taken

theorem sound_step (h : Sound b p) {e : Event} (hmeets : Meets b p e) : Sound b (step b p e) := by
  cases e with
  | reload => exact sound_opened b h.keys
  | message topic s =>
    show Sound b (p.handle b topic s)
    unfold Page.handle
    cases htopic : readTopic topic with
    | none => exact h
    | some t =>
      have hat := hmeets t htopic
      cases t with
      | reply slug id => exact sound_reply b h hat
      | listing slug => exact sound_listing b h hat
      | review slug id => exact sound_review b h hat
      | photo slug pid => exact sound_photo b h slug pid s

/-! ### What a message leaves -/

theorem listing_first {slug s : String} {rec : Biz} (hne : s ≠ "") (hread : (b.parse s).bind (cleanBiz b) = some rec)
    (hverifies : listingVerifies b rec.opk slug rec = true) (howner : p.owner slug = none) :
    p.listing b slug s = p.takeListing b slug rec := by
  have hopk : rec.opk ≠ "" := by
    intro hempty
    unfold listingVerifies at hverifies
    rw [hempty, b.verifyFields_empty] at hverifies
    cases hverifies
  unfold Page.listing Page.takeListing Page.settle Page.rememberOwner
  simp [hne, hread, hopk, hverifies, howner]

theorem handle_listing {topic : List String} {s slug : String} (htopic : readTopic topic = some (.listing slug)) :
    step b p (.message topic s) = p.listing b slug s := by
  show p.handle b topic s = p.listing b slug s
  unfold Page.handle
  rw [htopic]

theorem reply_rest (h : Sound b p) (slug id s : String) : (p.reply b slug id s).knownOwners = p.knownOwners ∧
    (p.reply b slug id s).biz = p.biz ∧ (p.reply b slug id s).pics = p.pics := by
  rcases reply_cases b h slug id s with heq | ⟨-, -, heq⟩ | ⟨pk, r, -, -, -, -, -, heq⟩ | ⟨r, -, -, heq⟩ |
    ⟨r, -, -, -, -, heq⟩ <;> rw [heq] <;> exact ⟨rfl, rfl, rfl⟩

theorem photo_rest (h : Sound b p) (slug pid s : String) : (p.photo b slug pid s).knownOwners = p.knownOwners ∧
    (p.photo b slug pid s).biz = p.biz ∧ (p.photo b slug pid s).replies = p.replies := by
  rcases photo_cases b h slug pid s with heq | ⟨-, heq⟩ | ⟨pk, x, -, -, -, -, heq⟩ | ⟨x, -, heq⟩ | ⟨x, -, -, heq⟩ <;>
    rw [heq] <;> exact ⟨rfl, rfl, rfl⟩

theorem review_rest (p : Page) (slug id s : String) : (p.review b slug id s).knownOwners = p.knownOwners ∧
    (p.review b slug id s).biz = p.biz ∧ (p.review b slug id s).pics = p.pics ∧
      (p.review b slug id s).replies = p.replies := by
  unfold Page.review
  split
  · exact ⟨rfl, rfl, rfl, rfl⟩
  · split <;> exact ⟨rfl, rfl, rfl, rfl⟩

theorem remembered_listing (h : Sound b p) {slug pk : String} (slug' s : String)
    (hknown : p.knownOwners.get? slug = some pk) : (p.listing b slug' s).knownOwners.get? slug = some pk := by
  rcases listing_cases b h slug' s with ⟨d, heq⟩ | ⟨-, heq⟩ | ⟨rec, -, heq⟩ | ⟨rec, -, -, -, howner, heq⟩ <;> rw [heq]
  · exact hknown
  · exact hknown
  · exact hknown
  · exact known_takeListing b h howner hknown

theorem kept_listing (h : Sound b p) {topic : List String} {s slug slug' pk : String} {rec : Biz}
    (htopic : readTopic topic = some (.listing slug')) (hknown : p.knownOwners.get? slug = some pk)
    (hrec : p.biz.get? slug = some rec) :
    (p.listing b slug' s).biz.get? slug = some rec ∨ SignsListing b pk slug topic s := by
  rcases listing_cases b h slug' s with ⟨d, heq⟩ | ⟨hunknown, heq⟩ | ⟨rec', hunknown, heq⟩ |
    ⟨rec', -, hread, hverifies, howner, heq⟩ <;> rw [heq]
  · exact .inl hrec
  · have hne : slug ≠ slug' := by
      rintro rfl
      cases hunknown.symm.trans hknown
    exact .inl (by rw [Map.get?_remove, if_neg hne]; exact hrec)
  · have hne : slug ≠ slug' := by
      rintro rfl
      cases hunknown.symm.trans hknown
    exact .inl ((Map.get?_set_other p.biz _ hne).trans hrec)
  · by_cases hsame : slug = slug'
    · subst hsame
      have hopk : rec'.opk = pk := by
        rcases howner with howner | howner
        · cases (h.unknown_of_none b howner).symm.trans hknown
        · exact Option.some.inj ((h.known_of_some b howner).symm.trans hknown)
      exact .inr ⟨htopic, rec', hread, hopk ▸ hverifies⟩
    · exact .inl ((Map.get?_set_other p.biz _ hsame).trans hrec)

theorem pics_kept (h : Sound b p) {slug slug' pk pid : String} {rec : Biz} {x : Pic}
    (hknown : p.knownOwners.get? slug = some pk) (hx : p.pics.get? (slug, pid) = some x) :
    (p.takeListing b slug' rec).pics.get? (slug, pid) = some x := by
  obtain ⟨hpics, -, -, -, hpending⟩ := rememberOwner_rest p slug' rec.opk
  have hnot : ∀ x, ((slug, pid), x) ∉ (p.rememberOwner slug' rec.opk).heldPics b slug' rec.opk := by
    intro x hmem
    obtain ⟨hentry, -⟩ := List.mem_filter.1 hmem
    rw [hpending] at hentry
    cases (h.pendingPics _ x (Map.mem_entries.1 hentry)).symm.trans hknown
  refine (get?_setAll_other hnot).trans ?_
  rw [hpics, Map.get?_retain, hx, Option.filter_some, if_pos (by simp [(h.photo slug pk pid x hknown hx).2])]

theorem replies_kept (h : Sound b p) {slug' id : String} {rec : Biz} {r : Reply}
    (hmeets : p.knownOwners.get? slug' = none → ∀ e ∈ p.heldReplies b slug' rec.opk, ¬ Foreign p slug' e.1)
    (hr : p.replies.get? id = some r) (hverified : r.verified = true) :
    (p.takeListing b slug' rec).replies.get? id = some r := by
  obtain ⟨-, hreplies, -, hpending, -⟩ := rememberOwner_rest p slug' rec.opk
  have hnot : ∀ r', (id, r') ∉ (p.rememberOwner slug' rec.opk).heldReplies b slug' rec.opk := by
    intro r' hmem
    unfold Page.heldReplies at hmem
    rw [hpending] at hmem
    obtain ⟨hunknown, -, -⟩ := mem_heldReplies b h hmem
    refine hmeets hunknown _ hmem (foreign_iff.2 ⟨r, hr, hverified, ?_⟩)
    obtain ⟨pk, hpk, -⟩ := h.reply id r hr hverified
    intro hsame
    rw [hsame, hunknown] at hpk
    cases hpk
  refine (get?_setAll_other hnot).trans ?_
  rw [hreplies, Map.get?_retain, hr, Option.filter_some, if_pos (by simp [hverified])]

theorem kept_photo (h : Sound b p) {topic : List String} {s slug slug' pk pid pid' : String} {x : Pic}
    (htopic : readTopic topic = some (.photo slug' pid')) (hknown : p.knownOwners.get? slug = some pk)
    (hx : p.pics.get? (slug, pid) = some x) :
    (p.photo b slug' pid' s).pics.get? (slug, pid) = some x ∨ SignsPhoto b pk slug pid topic s := by
  have hother : p.knownOwners.get? slug' = none → (slug, pid) ≠ (slug', pid') := by
    intro hunknown heq
    obtain ⟨rfl, rfl⟩ := Prod.mk.inj heq
    cases hunknown.symm.trans hknown
  rcases photo_cases b h slug' pid' s with heq | ⟨hunknown, heq⟩ | ⟨pk', x', hknown', hread, hverifies, -, heq⟩ |
    ⟨x', -, heq⟩ | ⟨x', hunknown, -, heq⟩ <;> rw [heq]
  · exact .inl hx
  · exact .inl (by rw [Map.get?_remove, if_neg (hother hunknown)]; exact hx)
  · by_cases hsame : (slug, pid) = (slug', pid')
    · obtain ⟨rfl, rfl⟩ := Prod.mk.inj hsame
      obtain rfl := Option.some.inj (hknown'.symm.trans hknown)
      exact .inr ⟨htopic, x', hread, hverifies⟩
    · exact .inl ((Map.get?_set_other p.pics x' hsame).trans hx)
  · exact .inl hx
  · exact .inl ((Map.get?_set_other p.pics x' (hother hunknown)).trans hx)

theorem kept_reply (h : Sound b p) {topic : List String} {s slug slug' pk id id' : String} {r : Reply}
    (htopic : readTopic topic = some (.reply slug' id')) (hmeets : MeetsAt b p s (.reply slug' id'))
    (hknown : p.knownOwners.get? slug = some pk) (hr : p.replies.get? id = some r) (hverified : r.verified = true)
    (hslug : r.slug = slug) :
    (p.reply b slug' id' s).replies.get? id = some r ∨ SignsReply b pk slug id topic s := by
  -- what is taken under this id is of this listing, which has an owner
  have hsame : Heard b p slug' id' s → id = id' → slug' = slug := by
    rintro hheard rfl
    by_contra hne
    exact (hmeets hheard).1 (foreign_iff.2 ⟨r, hr, hverified, fun heq => hne (heq.symm.trans hslug)⟩)
  have hother : Heard b p slug' id' s → p.knownOwners.get? slug' = none → id ≠ id' := by
    intro hheard hunknown hid
    rw [hsame hheard hid, hknown] at hunknown
    cases hunknown
  rcases reply_cases b h slug' id' s with heq | ⟨hunknown, hheard, heq⟩ |
    ⟨pk', r', hknown', hread, -, hverifies, hheard, heq⟩ | ⟨r', -, -, heq⟩ | ⟨r', hunknown, -, -, hheard, heq⟩ <;>
    rw [heq]
  · exact .inl hr
  · exact .inl (by rw [Map.get?_remove, if_neg (hother hheard hunknown)]; exact hr)
  · by_cases hid : id = id'
    · obtain rfl := hsame hheard hid
      subst hid
      obtain rfl := Option.some.inj (hknown'.symm.trans hknown)
      exact .inr ⟨htopic, r', hread, hverifies⟩
    · exact .inl ((Map.get?_set_other p.replies _ hid).trans hr)
  · exact .inl hr
  · exact .inl ((Map.get?_set_other p.replies _ (hother hheard hunknown)).trans hr)

theorem kept_step (h : Sound b p) {e : Event} (hmeets : Meets b p e) : Kept b p e := by
  constructor
  · rintro topic s slug rec rfl htopic hne hread hverifies hunknown
    have hat := hmeets _ htopic
    obtain ⟨hplain, -⟩ := hat hne rec hread hverifies hunknown
    have howner : p.owner slug = none := by rw [owner_unknown hunknown, if_neg hplain]
    rw [handle_listing b htopic, listing_first b hne hread hverifies howner]
    refine ⟨?_, Map.get?_set_self p.biz slug _⟩
    rw [knownOwners_takeListing b h (.inl howner), if_pos rfl]
  · intro slug pk hknown
    cases e with
    | reload => exact hknown
    | message topic s =>
      show (p.handle b topic s).knownOwners.get? slug = some pk
      unfold Page.handle
      cases readTopic topic with
      | none => exact hknown
      | some t =>
        cases t with
        | reply slug' id => exact (reply_rest b h slug' id s).1 ▸ hknown
        | listing slug' => exact remembered_listing b h slug' s hknown
        | review slug' id => exact (review_rest b p slug' id s).1 ▸ hknown
        | photo slug' pid => exact (photo_rest b h slug' pid s).1 ▸ hknown
  · rintro topic s slug pk rec rfl hknown hrec
    show (p.handle b topic s).biz.get? slug = some rec ∨ _
    unfold Page.handle
    cases htopic : readTopic topic with
    | none => exact .inl hrec
    | some t =>
      cases t with
      | reply slug' id => exact .inl ((reply_rest b h slug' id s).2.1 ▸ hrec)
      | listing slug' => exact kept_listing b h htopic hknown hrec
      | review slug' id => exact .inl ((review_rest b p slug' id s).2.1 ▸ hrec)
      | photo slug' pid => exact .inl ((photo_rest b h slug' pid s).2.1 ▸ hrec)
  · rintro topic s slug pk pid x rfl hknown hx
    show (p.handle b topic s).pics.get? (slug, pid) = some x ∨ _
    unfold Page.handle
    cases htopic : readTopic topic with
    | none => exact .inl hx
    | some t =>
      cases t with
      | reply slug' id => exact .inl ((reply_rest b h slug' id s).2.2 ▸ hx)
      | listing slug' =>
        rcases listing_cases b h slug' s with ⟨d, heq⟩ | ⟨-, heq⟩ | ⟨rec, -, heq⟩ | ⟨rec, -, -, -, -, heq⟩ <;>
          refine .inl ?_ <;> dsimp only <;> rw [heq]
        · exact hx
        · exact hx
        · exact hx
        · exact pics_kept b h hknown hx
      | review slug' id => exact .inl ((review_rest b p slug' id s).2.2.1 ▸ hx)
      | photo slug' pid' => exact kept_photo b h htopic hknown hx
  · rintro topic s slug pk id r rfl hknown hr hverified hslug
    show (p.handle b topic s).replies.get? id = some r ∨ _
    unfold Page.handle
    cases htopic : readTopic topic with
    | none => exact .inl hr
    | some t =>
      have hat := hmeets t htopic
      cases t with
      | reply slug' id' => exact kept_reply b h htopic hat hknown hr hverified hslug
      | listing slug' =>
        rcases listing_cases b h slug' s with ⟨d, heq⟩ | ⟨-, heq⟩ | ⟨rec, -, heq⟩ |
          ⟨rec, hne, hread, hverifies, -, heq⟩ <;> refine .inl ?_ <;> dsimp only <;> rw [heq]
        · exact hr
        · exact hr
        · exact hr
        · exact replies_kept b h (fun hunknown e he => ((hat hne rec hread hverifies hunknown).2.1 e he).1) hr hverified
      | review slug' id' => exact .inl ((review_rest b p slug' id' s).2.2.2 ▸ hr)
      | photo slug' pid => exact .inl ((photo_rest b h slug' pid s).2.2 ▸ hr)

/-- In a run that meets the condition, only a listing's own key speaks for it, in every state and at every step. -/
theorem owners_run (es : List Event) (h : Along (step b) (Meets b) (.opened .empty) es) :
    Along (step b) (Kept b) (.opened .empty) es ∧ ∀ k, Speaks b (run (step b) (.opened .empty) (es.take k)) := by
  have hstart : Sound b (.opened .empty) := sound_opened b fun _ _ hknown => by cases hknown
  refine ⟨?_, fun k => ?_⟩
  · exact Along.of_invariant (fun p e hp hmeets => sound_step b hp hmeets)
      (fun p e hp hmeets => kept_step b hp hmeets) h hstart
  · exact (run_invariant (fun p e hp hmeets => sound_step b hp hmeets) (h.take k) hstart).speaks b

/-! ### Two listings and one review -/

open Hidrarelay (Json)

/-- A signature that says who signed what. -/
def signature (pk : String) (fields : List Json) : String :=
  fields.foldl (fun t field =>
    match field with
    | .str s => t ++ ";" ++ s
    | .int n => t ++ ";" ++ toString n
    | _ => t) pk

def reading (parse : String → Option Json) : Browser where
  parse := parse
  number
    | .int n => some n
    | _ => none
  printed q := .int q.num
  toLowercase s := String.ofList (s.toList.map Char.toLower)
  href := some
  verifyFields pk fields sig := pk ≠ "" && sig = signature pk fields
  verifyFields_empty := by simp

def signedListing (slug pk : String) : Json :=
  let fields := [("name", Json.str slug), ("opk", .str pk)]
  let blind := reading fun _ => none
  .obj (fields ++ ((cleanBiz blind (.obj fields)).map fun rec =>
    ("sig", Json.str (signature pk (listingFields blind slug rec)))).toList)

def signedReply (slug id pk text : String) : Json :=
  .obj [("text", .str text),
    ("sig", .str (signature pk (replyFields (reading fun _ => none) slug id ⟨text, 0, "", slug, false⟩)))]

def signedPhoto (slug pid pk d : String) : Json :=
  .obj [("d", .str d), ("sig", .str (signature pk (photoFields slug pid d)))]

def cafe : Browser :=
  reading fun s =>
    if s = "listing" then some (signedListing "cafe" "K")
    else if s = "other" then some (signedListing "bar" "M")
    else if s = "taken over" then some (signedListing "cafe" "M")
    else if s = "reply" then some (signedReply "cafe" "r1" "K" "Thank you!")
    else if s = "other reply" then some (signedReply "bar" "r1" "M" "We are closed.")
    else if s = "\x7bphoto" then some (signedPhoto "cafe" "p1" "K" "data:image/png;base64,AAAA")
    else some (.obj [("text", .str s)])

/-- Whoever owns any listing answers for the business of another. -/
theorem reply_taken_over : ¬ ∀ k, Speaks cafe (run (step cafe) (.opened .empty) (List.take k
    [.message ["hreview", "b", "cafe"] "listing", .message ["hreview", "b", "bar"] "other",
      .message ["hreview", "r", "cafe", "r1"] "great", .message ["hreview", "reply", "cafe", "r1"] "reply",
      .message ["hreview", "reply", "bar", "r1"] "other reply"])) := by
  intro h
  let other : Reply := ⟨"We are closed.", 0, "", "bar", false⟩
  have hreply := (h 5).reply "cafe" "K" "r1"
    { other with sig := signature "M" (replyFields cafe "bar" "r1" other), verified := true }
    (by decide +kernel) (by decide +kernel)
  revert hreply
  decide

/-- A photo comes before its listing, and a stranger tries to take that over, to wipe it and to answer for it. -/
theorem owners_run_cafe :
    let es : List Event := [.message ["hreview", "p", "cafe", "p1"] "\x7bphoto",
      .message ["hreview", "b", "cafe"] "unsigned", .message ["hreview", "b", "cafe"] "listing",
      .message ["hreview", "r", "cafe", "r1"] "great", .message ["hreview", "reply", "cafe", "r1"] "reply",
      .message ["hreview", "b", "cafe"] "taken over",
      .message ["hreview", "b", "cafe"] "", .message ["hreview", "reply", "cafe", "r1"] "We are closed.", .reload,
      .message ["hreview", "b", "cafe"] "taken over", .message ["hreview", "b", "cafe"] "listing"]
    Along (step cafe) (Kept cafe) (.opened .empty) es ∧
      ∀ k, Speaks cafe (run (step cafe) (.opened .empty) (es.take k)) :=
  owners_run cafe _ (by decide)

end HidraNet.Hidrareview
