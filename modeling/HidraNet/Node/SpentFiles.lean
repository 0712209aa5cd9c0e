import HidraNet.Lib.Lines
import HidraNet.Lib.Runs
import HidraNet.Core.Pass
import HidraNet.Node.SpentPasses

/-!
# Spent passes on disk

The snapshot (`spent.json`) and the journal (`spent.log`) beside the tags in memory.  Every operation is cut off
anywhere by a failing write or a power cut, the append of a line at any byte, the save between the snapshot's rename
and the journal's truncation; after a power cut the tags are read back from the two files (`load`).

A tag that was recorded, and neither forgotten nor pruned since, is read back after any run (`spentKept_run`); a line
cut short is never appended to.  Such a line may read as a line of its own: a tag too many, which does no harm.
-/

namespace HidraNet.Node

open Lines Runs

/-- The files of a directory; one that is not there reads as an empty one.  The journal holds ASCII only, a character a
byte. -/
structure SpentFiles where
  snapshot : List (String × Int)
  journal : List Char
deriving DecidableEq

/-- How far an operation on the files gets, when it fails or is cut off. -/
structure FileFaults where
  record : RecordFaults
  /-- How much of the line is written, when writing it fails. -/
  written : Nat
  /-- When a save fails: it does once the new snapshot is in place. -/
  renamed : Bool
  emptied : Bool
deriving DecidableEq

def isAsciiHexdigit (c : Char) : Bool := c.isDigit || ('a' ≤ c && c ≤ 'f') || ('A' ≤ c && c ≤ 'F')

/-- A tag as `spentTag` writes it: 64 hex digits. -/
def IsTag (tag : String) : Prop := tag.toList.length = 64 ∧ ∀ c ∈ tag.toList, isAsciiHexdigit c = true

instance (tag : String) : Decidable (IsTag tag) := inferInstanceAs (Decidable (_ ∧ _))

def journalLine (tag : String) (validUntil : Int) : List Char := tag.toList ++ ' ' :: formatInt validUntil

def parseLine (line : List Char) : Option (String × Int) :=
  match words line with
  | [tag, validUntil] =>
    match parseI64 validUntil with
    | some v => if tag.length = 64 ∧ tag.all isAsciiHexdigit then some (String.ofList tag, v) else none
    | none => none
  | _ => none

namespace SpentFiles

/-- `SpentPasses::load_from`. -/
def load (files : SpentFiles) : SpentPasses :=
  let s := (entries parseLine files.journal).foldl
    (fun (s : SpentPasses) e => { s.insert e.1 e.2 with journal := s.journal + 1 }) ⟨files.snapshot, 0, false⟩
  { s with journalTorn := !decide (Whole files.journal) }

def saved (files : SpentFiles) (tags : List (String × Int)) (fails : Option String) (f : FileFaults) : SpentFiles :=
  match fails with
  | none => ⟨tags, []⟩
  | some _ => if f.renamed then ⟨tags, if f.emptied then [] else files.journal⟩ else files

/-- The files `record` leaves. -/
def recorded (files : SpentFiles) (s : SpentPasses) (tag : String) (validUntil : Int) (f : FileFaults) : SpentFiles :=
  if s.journalTorn then files.saved (s.insert tag validUntil).tags f.record.snapshot f
  else
    match f.record.opening with
    | some _ => files
    | none =>
      let line := journalLine tag validUntil ++ ['\n']
      match f.record.writing with
      | some _ => { files with journal := files.journal ++ line.take f.written }
      | none => { files with journal := files.journal ++ line }

/-- The files `forget` leaves. -/
def forgotten (files : SpentFiles) (s : SpentPasses) (tag : String) (fails : Option String) (f : FileFaults) :
    SpentFiles :=
  if s.contains tag then files.saved (s.tags.filter (·.1 ≠ tag)) fails f else files

end SpentFiles

/-- A node's spent passes, in memory and on disk. -/
structure SpentStore where
  spent : SpentPasses
  files : SpentFiles
  /-- The tags recorded, and neither forgotten nor pruned since. -/
  owed : List String
deriving DecidableEq

inductive SpentStep where
  | record (tag : String) (validUntil : Int) (f : FileFaults)
  | forget (tag : String) (fails : Option String) (f : FileFaults)
  | prune (now : Int)
  | save (fails : Option String) (f : FileFaults)
  /-- A power cut, and a start again: after an operation that fails somewhere, one while it is under way. -/
  | crash
deriving DecidableEq

namespace SpentStore

def start (files : SpentFiles) : SpentStore := ⟨files.load, files, []⟩

def step (s : SpentStore) : SpentStep → SpentStore
  | .record tag v f =>
    let (spent, r) := s.spent.record tag v f.record
    { spent, files := s.files.recorded s.spent tag v f, owed := if r.isOk then tag :: s.owed else s.owed }
  | .forget tag fails f =>
    -- forgotten on disk once the new snapshot is in place, also when what comes after fails
    { spent := (s.spent.forget tag fails).1
      files := s.files.forgotten s.spent tag fails f
      owed := if fails.isNone || f.renamed then s.owed.filter (· ≠ tag) else s.owed }
  | .prune now => { s with spent := s.spent.prune now, owed := s.owed.filter (s.spent.prune now).contains }
  | .save fails f => { s with spent := (s.spent.save fails).1, files := s.files.saved s.spent.tags fails f }
  | .crash => { s with spent := s.files.load }

def Allowed (_ : SpentStore) : SpentStep → Prop
  | .record tag v _ => IsTag tag ∧ InI64 v
  | _ => True

instance (s : SpentStore) (e : SpentStep) : Decidable (s.Allowed e) := by
  cases e <;> unfold Allowed <;> infer_instance

end SpentStore

/-! ### Lines -/

private theorem not_isWhitespace_of_hex {c : Char} (h : isAsciiHexdigit c = true) : Text.isWhitespace c = false := by
  unfold isAsciiHexdigit Char.isDigit at h
  simp only [Bool.or_eq_true, Bool.and_eq_true, decide_eq_true_eq, Char.le_def, UInt32.le_iff_toNat_le] at h
  unfold Text.isWhitespace
  simp only [Bool.or_eq_false_iff, decide_eq_false_iff_not, List.mem_cons, List.not_mem_nil, or_false,
    Bool.and_eq_false_iff, UInt32.le_iff_toNat_le, ← UInt32.toNat_inj]
  simp at h ⊢
  omega

theorem parseLine_nil : parseLine [] = none := by decide

theorem not_isWhitespace_formatInt {v : Int} {c : Char} (h : c ∈ formatInt v) : Text.isWhitespace c = false := by
  rcases mem_formatInt h with rfl | hdigit
  · decide
  · exact not_isWhitespace_of_hex (by simp [isAsciiHexdigit, hdigit])

theorem parseLine_journalLine {tag : String} {v : Int} (htag : IsTag tag) (hv : InI64 v) :
    parseLine (journalLine tag v) = some (tag, v) := by
  have hne : tag.toList ≠ [] := by
    intro h
    have := htag.1
    simp [h] at this
  have hwords : words (journalLine tag v) = [tag.toList, formatInt v] :=
    words_pair hne (formatInt_ne_nil v) (fun c hc => not_isWhitespace_of_hex (htag.2 c hc))
      fun c hc => not_isWhitespace_formatInt hc
  unfold parseLine
  rw [hwords]
  dsimp only
  rw [parseI64_formatInt hv]
  dsimp only
  rw [if_pos ⟨htag.1, List.all_eq_true.2 htag.2⟩, String.ofList_toList]

theorem newline_not_mem_journalLine {tag : String} {v : Int} (htag : IsTag tag) : '\n' ∉ journalLine tag v := by
  have hnewline : Text.isWhitespace '\n' = true := by decide
  intro h
  rcases List.mem_append.1 h with h | h
  · rw [not_isWhitespace_of_hex (htag.2 _ h)] at hnewline
    cases hnewline
  · rcases List.mem_cons.1 h with h | h
    · cases h
    · rw [not_isWhitespace_formatInt h] at hnewline
      cases hnewline

/-! ### What is read back -/

namespace SpentFiles

variable {files : SpentFiles} {s : SpentPasses} {tag t : String} {v : Int} {f : FileFaults}

def Has (files : SpentFiles) (t : String) : Prop :=
  (∃ v, (t, v) ∈ files.snapshot) ∨ ∃ v, (t, v) ∈ entries parseLine files.journal

theorem contains_load : files.load.contains t = true ↔ files.Has t := by
  have hfold : ∀ (es : List (String × Int)) (s : SpentPasses),
      (es.foldl (fun (s : SpentPasses) e => { s.insert e.1 e.2 with journal := s.journal + 1 }) s).contains t = true ↔
        s.contains t = true ∨ ∃ v, (t, v) ∈ es := by
    intro es
    induction es with
    | nil => simp
    | cons e es ih =>
      intro s
      rw [List.foldl_cons, ih]
      have hinsert : ({ s.insert e.1 e.2 with journal := s.journal + 1 } : SpentPasses).contains t = true ↔
          t = e.1 ∨ s.contains t = true := SpentPasses.contains_insert_iff
      rw [hinsert]
      constructor
      · rintro ((rfl | h) | ⟨v, hv⟩)
        · exact Or.inr ⟨e.2, List.mem_cons_self⟩
        · exact Or.inl h
        · exact Or.inr ⟨v, List.mem_cons_of_mem _ hv⟩
      · rintro (h | ⟨v, hv⟩)
        · exact Or.inl (Or.inr h)
        · rcases List.mem_cons.1 hv with rfl | hv
          · exact Or.inl (Or.inl rfl)
          · exact Or.inr ⟨v, hv⟩
  unfold Has load
  exact (hfold _ _).trans (or_congr_left SpentPasses.contains_iff)

theorem saved_cases (files : SpentFiles) (tags : List (String × Int)) (fails : Option String) (f : FileFaults) :
    (files.saved tags fails f = files ∧ fails ≠ none ∧ f.renamed = false) ∨
      ((fails = none ∨ f.renamed = true) ∧ (files.saved tags fails f).snapshot = tags ∧
        ((fails ≠ none ∧ (files.saved tags fails f).journal = files.journal) ∨
          (files.saved tags fails f).journal = [])) := by
  unfold saved
  cases fails with
  | none => exact Or.inr ⟨Or.inl rfl, rfl, Or.inr rfl⟩
  | some e =>
    cases f.renamed with
    | false => exact Or.inl ⟨rfl, Option.some_ne_none e, rfl⟩
    | true =>
      refine Or.inr ⟨Or.inr rfl, rfl, ?_⟩
      cases f.emptied with
      | false => exact Or.inl ⟨Option.some_ne_none e, rfl⟩
      | true => exact Or.inr rfl

end SpentFiles

/-! ### What is kept over a run -/

section Kept

variable {s : SpentStore} {t : String}

/-- Every tag owed is in memory and on disk, and a journal that ends in a line cut short is known to. -/
structure SpentKept (s : SpentStore) : Prop where
  memory : ∀ t ∈ s.owed, s.spent.contains t = true
  disk : ∀ t ∈ s.owed, s.files.Has t
  whole : s.spent.journalTorn = false → Whole s.files.journal

def NoneAfterTorn (s : SpentStore) : Prop :=
  ∀ e, (s.step e).files.journal = s.files.journal ∨ (s.step e).files.journal = [] ∨ Whole s.files.journal

private theorem has_of_contains {tags : List (String × Int)} {journal : List Char} {spent : SpentPasses}
    (htags : spent.tags = tags) (h : spent.contains t = true) : (SpentFiles.mk tags journal).Has t := by
  rw [SpentPasses.contains_iff, htags] at h
  exact Or.inl h

private theorem has_saved {files : SpentFiles} {spent : SpentPasses} {fails : Option String} {f : FileFaults}
    (hmemory : spent.contains t = true) (hdisk : files.Has t) : (files.saved spent.tags fails f).Has t := by
  rcases files.saved_cases spent.tags fails f with ⟨h, -, -⟩ | ⟨-, h, -⟩
  · rw [h]
    exact hdisk
  · rw [SpentPasses.contains_iff, ← h] at hmemory
    exact Or.inl hmemory

private theorem whole_saved {files : SpentFiles} {tags : List (String × Int)} {fails : Option String} {f : FileFaults}
    (h : Whole files.journal) : Whole (files.saved tags fails f).journal := by
  rcases files.saved_cases tags fails f with ⟨hr, -, -⟩ | ⟨-, -, ⟨-, hr⟩ | hr⟩ <;> rw [hr]
  · exact h
  · exact h
  · exact Or.inl rfl

private theorem has_append {files : SpentFiles} (hwhole : Whole files.journal) (more : List Char) (h : files.Has t) :
    ({ files with journal := files.journal ++ more } : SpentFiles).Has t := by
  rcases h with h | ⟨v, hv⟩
  · exact Or.inl h
  · refine Or.inr ⟨v, ?_⟩
    rw [entries_append parseLine_nil hwhole]
    exact List.mem_append_left _ hv

private theorem spentKept_record (h : SpentKept s) {tag : String} {v : Int} (f : FileFaults) (htag : IsTag tag)
    (hv : InI64 v) : SpentKept (s.step (.record tag v f)) := by
  have hinsert : ∀ t ∈ s.owed, (s.spent.insert tag v).contains t = true := fun t ht =>
    SpentPasses.contains_insert_iff.2 (Or.inr (h.memory t ht))
  unfold SpentStore.step SpentPasses.record SpentFiles.recorded
  cases htorn : s.spent.journalTorn with
  | true =>
    simp only [if_true]
    cases hfails : f.record.snapshot with
    | none =>
      -- the snapshot is rewritten, and the journal emptied
      have hall : ∀ t ∈ tag :: s.owed, (s.spent.insert tag v).contains t = true := by
        intro t ht
        rcases List.mem_cons.1 ht with rfl | ht
        · exact SpentPasses.contains_insert ..
        · exact hinsert t ht
      exact ⟨hall, fun t ht => has_of_contains rfl (hall t ht), fun _ => Or.inl rfl⟩
    | some e =>
      refine ⟨hinsert, fun t ht => has_saved (hinsert t ht) (h.disk t ht), fun hfalse => ?_⟩
      exact absurd (htorn.symm.trans hfalse) (by decide)
  | false =>
    simp only [Bool.false_eq_true, if_false]
    have hwhole := h.whole htorn
    cases f.record.opening with
    | some e => exact ⟨h.memory, h.disk, fun _ => hwhole⟩
    | none =>
      cases f.record.writing with
      | some e => exact ⟨h.memory, fun t ht => has_append hwhole _ (h.disk t ht), fun hfalse => by cases hfalse⟩
      | none =>
        -- the line is there whole, and reads as the tag
        refine ⟨fun t ht => ?_, fun t ht => ?_, fun _ => whole_append_line _ _⟩
        · rcases List.mem_cons.1 ht with rfl | ht
          · exact SpentPasses.contains_insert ..
          · exact hinsert t ht
        · rcases List.mem_cons.1 ht with rfl | ht
          · refine Or.inr ⟨v, ?_⟩
            rw [entries_append parseLine_nil hwhole,
              entries_line parseLine_nil (newline_not_mem_journalLine htag), parseLine_journalLine htag hv]
            exact List.mem_append_right _ (List.mem_singleton_self _)
          · exact has_append hwhole _ (h.disk t ht)

private theorem contains_filter {spent : SpentPasses} {tag : String} (hne : t ≠ tag) (h : spent.contains t = true) :
    ({ spent with tags := spent.tags.filter (·.1 ≠ tag) } : SpentPasses).contains t = true := by
  obtain ⟨v, hv⟩ := SpentPasses.contains_iff.1 h
  exact SpentPasses.contains_iff.2 ⟨v, List.mem_filter.2 ⟨hv, by simpa using hne⟩⟩

private theorem spentKept_forget (h : SpentKept s) (tag : String) (fails : Option String) (f : FileFaults) :
    SpentKept (s.step (.forget tag fails f)) := by
  unfold SpentStore.step SpentPasses.forget SpentFiles.forgotten
  cases hfind : s.spent.tags.find? (·.1 == tag) with
  | none =>
    -- not spent: nothing changes
    have hnot : s.spent.contains tag = false := by
      unfold SpentPasses.contains
      rw [List.any_eq_false]
      exact List.find?_eq_none.1 hfind
    have howed : (if fails.isNone || f.renamed then s.owed.filter (· ≠ tag) else s.owed) ⊆ s.owed := by
      split
      · exact fun t ht => List.mem_of_mem_filter ht
      · exact fun t ht => ht
    simp only [hfind, hnot, Bool.false_eq_true, if_false]
    exact ⟨fun t ht => h.memory t (howed ht), fun t ht => h.disk t (howed ht), h.whole⟩
  | some e =>
    obtain ⟨tag', v⟩ := e
    have htag : tag' = tag := by simpa using List.find?_some hfind
    have hspent : s.spent.contains tag = true :=
      SpentPasses.contains_iff.2 ⟨v, htag ▸ List.mem_of_find?_eq_some hfind⟩
    simp only [hfind, hspent, if_true]
    have hother : ∀ t ∈ s.owed.filter (· ≠ tag), t ∈ s.owed ∧ t ≠ tag := by
      intro t ht
      simpa using List.mem_filter.1 ht
    cases fails with
    | none =>
      have hall : ∀ t ∈ s.owed.filter (· ≠ tag),
          ({ s.spent with tags := s.spent.tags.filter (·.1 ≠ tag) } : SpentPasses).contains t = true := fun t ht =>
        contains_filter (hother t ht).2 (h.memory t (hother t ht).1)
      exact ⟨hall, fun t ht => has_of_contains rfl (hall t ht), fun _ => Or.inl rfl⟩
    | some e =>
      -- put back in memory; on disk it is gone when the new snapshot is in place
      have hmemory : ∀ t ∈ s.owed, (SpentPasses.insert { s.spent with tags := s.spent.tags.filter (·.1 ≠ tag) } tag
          v).contains t = true := by
        intro t ht
        refine SpentPasses.contains_insert_iff.2 ?_
        by_cases hne : t = tag
        · exact Or.inl hne
        · exact Or.inr (contains_filter hne (h.memory t ht))
      refine ⟨?_, ?_, fun hwhole => whole_saved (h.whole hwhole)⟩
      · intro t ht
        dsimp only at ht
        split at ht
        · exact hmemory t (hother t ht).1
        · exact hmemory t ht
      · intro t ht
        dsimp only [SpentPasses.save, SpentFiles.saved] at ht ⊢
        cases hrenamed : f.renamed with
        | true =>
          simp only [hrenamed, Option.isNone_some, Bool.or_true, if_true] at ht
          exact has_of_contains rfl
            (contains_filter (hother t ht).2 (h.memory t (hother t ht).1))
        | false =>
          simp only [hrenamed, Option.isNone_some, Bool.or_self, Bool.false_eq_true, if_false] at ht
          exact h.disk t ht

private theorem spentKept_step (s : SpentStore) (e : SpentStep) (h : SpentKept s) (hok : s.Allowed e) :
    SpentKept (s.step e) := by
  cases e with
  | record tag v f => exact spentKept_record h f hok.1 hok.2
  | forget tag fails f => exact spentKept_forget h tag fails f
  | prune now =>
    exact ⟨fun t ht => (List.mem_filter.1 ht).2, fun t ht => h.disk t (List.mem_of_mem_filter ht), h.whole⟩
  | save fails f =>
    refine ⟨fun t ht => ?_, fun t ht => has_saved (h.memory t ht) (h.disk t ht), fun hwhole => ?_⟩
    · have hmemory := h.memory t ht
      cases fails <;> exact hmemory
    · cases fails with
      | none => exact Or.inl rfl
      | some e => exact whole_saved (h.whole hwhole)
  | crash =>
    exact ⟨fun t ht => SpentFiles.contains_load.2 (h.disk t ht), h.disk, fun hwhole => by
      simpa [SpentStore.step, SpentFiles.load] using hwhole⟩

private theorem noneAfterTorn_of_kept (h : SpentKept s) : NoneAfterTorn s := by
  have hsaved : ∀ (tags : List (String × Int)) (fails : Option String) (f : FileFaults),
      (s.files.saved tags fails f).journal = s.files.journal ∨ (s.files.saved tags fails f).journal = [] := by
    intro tags fails f
    rcases s.files.saved_cases tags fails f with ⟨hr, -, -⟩ | ⟨-, -, ⟨-, hr⟩ | hr⟩
    · exact Or.inl (by rw [hr])
    · exact Or.inl hr
    · exact Or.inr hr
  intro e
  cases e with
  | record tag v f =>
    cases htorn : s.spent.journalTorn with
    | true =>
      have hr : (s.step (.record tag v f)).files = s.files.saved (s.spent.insert tag v).tags f.record.snapshot f := by
        simp [SpentStore.step, SpentFiles.recorded, htorn]
      rw [hr]
      exact (hsaved _ _ f).imp_right Or.inl
    | false => exact Or.inr (Or.inr (h.whole htorn))
  | forget tag fails f =>
    show (s.files.forgotten s.spent tag fails f).journal = _ ∨ (s.files.forgotten s.spent tag fails f).journal = _ ∨ _
    unfold SpentFiles.forgotten
    split
    · exact (hsaved _ _ f).imp_right Or.inl
    · exact Or.inl rfl
  | prune now => exact Or.inl rfl
  | save fails f => exact (hsaved _ _ f).imp_right Or.inl
  | crash => exact Or.inl rfl

private theorem spentKept_start (files : SpentFiles) : SpentKept (SpentStore.start files) := by
  refine ⟨fun t ht => ?_, fun t ht => ?_, fun hwhole => ?_⟩
  · cases ht
  · cases ht
  · simpa [SpentStore.start, SpentFiles.load] using hwhole

/-- After every run, cut off anywhere and any number of times, a tag that was recorded and neither forgotten nor pruned
since is in memory and is read back from the files; and no line is appended after one cut short. -/
theorem spentKept_run (files : SpentFiles) (es : List SpentStep)
    (h : Along SpentStore.step SpentStore.Allowed (SpentStore.start files) es) :
    (∀ t ∈ (run SpentStore.step (SpentStore.start files) es).owed,
      (run SpentStore.step (SpentStore.start files) es).spent.contains t = true ∧
        (run SpentStore.step (SpentStore.start files) es).files.load.contains t = true) ∧
      NoneAfterTorn (run SpentStore.step (SpentStore.start files) es) := by
  have hinv := run_invariant (P := SpentKept) spentKept_step h (spentKept_start files)
  exact ⟨fun t ht => ⟨hinv.memory t ht, SpentFiles.contains_load.2 (hinv.disk t ht)⟩, noneAfterTorn_of_kept hinv⟩

private def digits (c : Char) : String := String.ofList (List.replicate 64 c)

set_option maxRecDepth 20000 in
/-- The power goes while the second tag's line is written, which reads as a line all the same; the third tag is put in
the snapshot. -/
theorem spentKept_cutLine :
    let s := run SpentStore.step (SpentStore.start ⟨[], []⟩) [.record (digits '1') 100 ⟨.none, 0, false, false⟩,
      .record (digits '2') 200 ⟨⟨none, some "power cut", none⟩, 66, false, false⟩, .crash,
      .record (digits '3') 300 ⟨.none, 0, false, false⟩, .crash]
    s.spent.tags = [(digits '1', 100), (digits '2', 2), (digits '3', 300)] ∧ s.owed = [digits '3', digits '1'] ∧
      ∀ t ∈ s.owed, s.spent.contains t = true ∧ s.files.load.contains t = true := by
  have htag : ∀ c, isAsciiHexdigit c = true → IsTag (digits c) := by
    intro c hc
    unfold IsTag digits
    rw [String.toList_ofList]
    exact ⟨List.length_replicate, fun x hx => by rw [List.eq_of_mem_replicate hx]; exact hc⟩
  refine ⟨by decide, by decide, (spentKept_run ⟨[], []⟩ _ ?_).1⟩
  exact ⟨⟨htag '1' (by decide), by decide⟩, ⟨htag '2' (by decide), by decide⟩, trivial,
    ⟨htag '3' (by decide), by decide⟩, trivial, trivial⟩

end Kept

end HidraNet.Node
