import HidraNet.Browser.UpdateCheck

/-!
# What the notice says

Over the sessions of a browser the versions kept only rise, and while the last day kept has not passed, a build below a
minimum that was verified is told so.  When the last day of everything verified has passed there is a notice, unless the
session has no answer yet or has one by which the build was current: that answer is kept for the session, past its last
day (`Asked`, `ask_run`).
-/

namespace HidraNet.Browser.Update

open Runs UpdateCheck

/-- A browser, its data folder, and all records it verified. -/
structure World where
  clock : Int
  check : UpdateCheck
  file : Option SavedFile
  verified : List Record

inductive Event where
  | tick (ms : Nat)
  | run
  | answered (signature table : Answer)
  | ask
  | restart (build : Build)

def start (clock : Int) (build : Build) : World := ⟨clock, new build none, none, []⟩

variable (verifyBrowserSums : Verifier)

def World.answer (w : World) (signature table : Answer) : World :=
  let r := w.check.runOnce verifyBrowserSums w.clock signature table
  let next := w.check.keep r
  { clock := w.clock
    check := { w.check with result := some r, saved := next, running := false }
    file := if r.record.isSome ∧ next.map Record.written ≠ w.check.saved.map Record.written then next.map Record.written
      else w.file
    verified := w.verified ++ r.record.toList }

def World.step (w : World) : Event → World
  | .tick ms => { w with clock := w.clock + ms }
  | .run => { w with check := w.check.run }
  | .answered signature table => if w.check.running then w.answer verifyBrowserSums signature table else w
  | .ask => w
  | .restart build => { w with check := new build w.file }

/-! ### What is to hold -/

structure Holds (w : World) (e : Event) : Prop where
  grows : ∀ s, w.check.saved = some s → ∃ s', (w.step verifyBrowserSums e).check.saved = some s' ∧
    compareVersions s.latest s'.latest ≤ 0 ∧ compareVersions s.minimum s'.minimum ≤ 0
  warned : e = .ask → ∀ r ∈ w.verified, ∀ v, readVersion w.check.build.currentVersion = some v →
    compareVersions v r.minimum < 0 → ∀ s, w.check.saved = some s → w.clock < s.expires →
    ∃ latest minimum, w.check.notice w.clock = some (.update v latest minimum true)
  told : e = .ask → w.verified ≠ [] → (∀ r ∈ w.verified, r.expires ≤ w.clock) → w.check.notice w.clock ≠ none

def Asked (w : World) (e : Event) : Prop :=
  e = .ask → w.verified ≠ [] → (∀ r ∈ w.verified, r.expires ≤ w.clock) →
    ∃ r, w.check.result = some r ∧ ∀ latest minimum record, r ≠ .decided (.current latest minimum) record

/-! ### What is kept -/

/-- What is kept is in the file, and is the most of all that was verified; a decision is on the last of it. -/
structure Kept (w : World) : Prop where
  file : w.file = w.check.saved.map Record.written
  most : ∀ r ∈ w.verified, ∃ s, w.check.saved = some s ∧ r.latest.key ≤ s.latest.key ∧
    r.minimum.key ≤ s.minimum.key ∧ r.expires ≤ s.expires
  one : ∀ s, w.check.saved = some s → ∃ r ∈ w.verified, r.expires = s.expires
  last : ∀ decision record, w.check.result = some (.decided decision record) →
    (∃ current, readVersion w.check.build.currentVersion = some current ∧ decision = decide record current) ∧
      ∀ r ∈ w.verified, r.minimum.key ≤ record.minimum.key

theorem kept_start (clock : Int) (build : Build) : Kept (start clock build) :=
  ⟨rfl, fun _ h => absurd h List.not_mem_nil, fun _ h => (nomatch h), fun _ _ h => (nomatch h)⟩

variable {verifyBrowserSums} {w : World}

theorem readVersion_text (v : Version) : readVersion v.text = some v := by
  have hparses := v.parses
  unfold readVersion
  split
  · rename_i numbers h
    obtain rfl := Option.some.inj (hparses.symm.trans h)
    rfl
  · rename_i h
    rw [hparses] at h
    cases h

theorem readSaved_written (s : Record) : readSaved s.written = some s := by
  have hends := s.ends
  unfold readSaved Record.written
  simp only [readVersion_text, bind, Option.bind_some, s.ordered, dite_true]
  split
  · rename_i h
    rw [hends] at h
    cases h
  · rename_i expires h
    obtain rfl := Option.some.inj (hends.symm.trans h)
    rfl

theorem of_evaluate {table : List UInt8} {signature currentVersion publicKey : Text} {now : Int} {saved : Option Record}
    {decision : Decision} {record : Record}
    (h : evaluate verifyBrowserSums table signature currentVersion now publicKey saved = .decided decision record) :
    (∃ current, readVersion currentVersion = some current ∧ decision = decide record current) ∧
      ∀ s, saved = some s → s.latest.key ≤ record.latest.key ∧ s.minimum.key ≤ record.minimum.key := by
  unfold evaluate at h
  split_ifs at h
  split at h
  · cases h
  · split_ifs at h with hstale hexpired
    split at h
    · cases h
    · rename_i current hcurrent
      cases h
      refine ⟨⟨current, hcurrent, rfl⟩, ?_⟩
      rintro s rfl
      simp only [Option.any_some, Bool.or_eq_true, decide_eq_true_eq, not_or] at hstale
      rw [compareVersions_neg, compareVersions_neg, not_lt, not_lt] at hstale
      exact hstale

theorem of_runOnce {u : UpdateCheck} {now : Int} {signature table : Answer} {decision : Decision} {record : Record}
    (h : u.runOnce verifyBrowserSums now signature table = .decided decision record) :
    (∃ current, readVersion u.build.currentVersion = some current ∧ decision = decide record current) ∧
      ∀ s, u.saved = some s → s.latest.key ≤ record.latest.key ∧ s.minimum.key ≤ record.minimum.key := by
  unfold runOnce at h
  split at h
  · split_ifs at h
  · split at h
    · cases h
    · exact of_evaluate h

theorem mergeSaved_most (s record : Record) :
    (s.latest.key ≤ (mergeSaved s record).latest.key ∧ s.minimum.key ≤ (mergeSaved s record).minimum.key ∧
        s.expires ≤ (mergeSaved s record).expires) ∧
      (record.latest.key ≤ (mergeSaved s record).latest.key ∧ record.minimum.key ≤ (mergeSaved s record).minimum.key ∧
        record.expires ≤ (mergeSaved s record).expires) ∧
      ((mergeSaved s record).expires = s.expires ∨ (mergeSaved s record).expires = record.expires) := by
  unfold mergeSaved
  simp only [higher_key]
  refine ⟨⟨le_max_right _ _, le_max_right _ _, ?_⟩, ⟨le_max_left _ _, le_max_left _ _, ?_⟩, ?_⟩
  all_goals
    split_ifs
    all_goals omega

theorem keep_grows {u : UpdateCheck} {r : Result} {s : Record} (h : u.saved = some s) :
    ∃ s', u.keep r = some s' ∧ s.latest.key ≤ s'.latest.key ∧ s.minimum.key ≤ s'.minimum.key ∧
      s.expires ≤ s'.expires := by
  unfold keep
  cases r.record with
  | none => exact ⟨s, h, le_rfl, le_rfl, le_rfl⟩
  | some record =>
    rw [h]
    exact ⟨mergeSaved s record, rfl, (mergeSaved_most s record).1⟩

theorem Kept.answer (hw : Kept w) (signature table : Answer) : Kept (w.answer verifyBrowserSums signature table) := by
  unfold World.answer
  generalize hr : w.check.runOnce verifyBrowserSums w.clock signature table = r
  refine ⟨?_, ?_, ?_, ?_⟩
  · dsimp only
    split_ifs with hnew
    · rfl
    · rw [hw.file]
      rw [not_and_or, not_not] at hnew
      obtain hnone | hsame := hnew
      · rw [Bool.not_eq_true, Option.isSome_eq_false_iff, Option.isNone_iff_eq_none] at hnone
        unfold keep
        rw [hnone]
      · exact hsame.symm
  · intro r' hr'
    rw [List.mem_append, Option.mem_toList] at hr'
    obtain hold | hnew := hr'
    · obtain ⟨s, hs, hlatest, hminimum, hexpires⟩ := hw.most r' hold
      obtain ⟨s', hs', hlatest', hminimum', hexpires'⟩ := keep_grows (r := r) hs
      exact ⟨s', hs', hlatest.trans hlatest', hminimum.trans hminimum', hexpires.trans hexpires'⟩
    · dsimp only
      unfold keep
      rw [hnew]
      cases w.check.saved with
      | none => exact ⟨r', rfl, le_rfl, le_rfl, le_rfl⟩
      | some s => exact ⟨mergeSaved s r', rfl, (mergeSaved_most s r').2.1⟩
  · intro s hs
    dsimp only at hs ⊢
    unfold keep at hs
    cases hrecord : r.record with
    | none =>
      rw [hrecord] at hs
      obtain ⟨r', hr', hexpires⟩ := hw.one s hs
      exact ⟨r', List.mem_append_left _ hr', hexpires⟩
    | some record =>
      rw [hrecord] at hs
      have hnew : record ∈ w.verified ++ (some record).toList := by simp
      cases hsaved : w.check.saved with
      | none =>
        rw [hsaved] at hs
        obtain rfl := Option.some.inj hs
        exact ⟨record, hnew, rfl⟩
      | some s₀ =>
        rw [hsaved] at hs
        obtain rfl := Option.some.inj hs
        obtain hold | hlast := (mergeSaved_most s₀ record).2.2
        · obtain ⟨r', hr', hexpires⟩ := hw.one s₀ hsaved
          exact ⟨r', List.mem_append_left _ hr', hexpires.trans hold.symm⟩
        · exact ⟨record, hnew, hlast.symm⟩
  · intro decision record hresult
    obtain rfl := Option.some.inj hresult
    obtain ⟨hdecision, hbelow⟩ := of_runOnce hr
    refine ⟨hdecision, fun r' hr' => ?_⟩
    rw [List.mem_append, Option.mem_toList] at hr'
    obtain hold | hnew := hr'
    · obtain ⟨s, hs, -, hminimum, -⟩ := hw.most r' hold
      exact hminimum.trans (hbelow s hs).2
    · obtain rfl := Option.some.inj hnew
      exact le_rfl

theorem run_fields (u : UpdateCheck) : u.run.build = u.build ∧ u.run.saved = u.saved ∧ u.run.result = u.result := by
  unfold UpdateCheck.run
  split <;> exact ⟨rfl, rfl, rfl⟩

theorem Kept.restart (hw : Kept w) (build : Build) : (new build w.file).saved = w.check.saved := by
  unfold new
  rw [hw.file]
  cases w.check.saved with
  | none => rfl
  | some s => exact readSaved_written s

theorem Kept.step (hw : Kept w) (e : Event) : Kept (w.step verifyBrowserSums e) := by
  cases e with
  | tick | ask => exact ⟨hw.file, hw.most, hw.one, hw.last⟩
  | run =>
    obtain ⟨hbuild, hsaved, hresult⟩ := run_fields w.check
    constructor <;> dsimp only [World.step]
    · rw [hsaved]
      exact hw.file
    · rw [hsaved]
      exact hw.most
    · rw [hsaved]
      exact hw.one
    · rw [hresult, hbuild]
      exact hw.last
  | answered signature table =>
    unfold World.step
    split_ifs
    · exact hw.answer signature table
    · exact hw
  | restart build =>
    constructor <;> dsimp only [World.step]
    · rw [hw.restart]
      exact hw.file
    · rw [hw.restart]
      exact hw.most
    · rw [hw.restart]
      exact hw.one
    · intro _ _ h
      cases h

theorem Kept.grows (hw : Kept w) (e : Event) (s : Record) (hs : w.check.saved = some s) :
    ∃ s', (w.step verifyBrowserSums e).check.saved = some s' ∧ compareVersions s.latest s'.latest ≤ 0 ∧
      compareVersions s.minimum s'.minimum ≤ 0 := by
  simp only [compareVersions_nonpos]
  have hsame (h : (w.step verifyBrowserSums e).check.saved = w.check.saved) :
      ∃ s', (w.step verifyBrowserSums e).check.saved = some s' ∧ s.latest.key ≤ s'.latest.key ∧
        s.minimum.key ≤ s'.minimum.key := ⟨s, h.trans hs, le_rfl, le_rfl⟩
  cases e with
  | tick | ask => exact hsame rfl
  | run => exact hsame (run_fields w.check).2.1
  | answered signature table =>
    unfold World.step
    split_ifs
    · obtain ⟨s', hs', hlatest, hminimum, -⟩ :=
        keep_grows (r := w.check.runOnce verifyBrowserSums w.clock signature table) hs
      exact ⟨s', hs', hlatest, hminimum⟩
    · exact ⟨s, hs, le_rfl, le_rfl⟩
  | restart build => exact hsame (hw.restart build)

theorem update_unsafe {record : Record} {v : Version} (h : v.key < record.minimum.key) :
    update (decide record v) = some (.update v record.latest record.minimum true) := by
  have hneg := compareVersions_neg.2 h
  unfold decide
  simp [hneg, update]

theorem Kept.warned (hw : Kept w) {r s : Record} {v : Version} (hr : r ∈ w.verified)
    (hv : readVersion w.check.build.currentVersion = some v) (hbelow : compareVersions v r.minimum < 0)
    (hs : w.check.saved = some s) (hclock : w.clock < s.expires) :
    ∃ latest minimum, w.check.notice w.clock = some (.update v latest minimum true) := by
  rw [compareVersions_neg] at hbelow
  unfold notice
  split
  · rename_i decision record hresult
    obtain ⟨⟨current, hcurrent, rfl⟩, hmost⟩ := hw.last decision record hresult
    obtain rfl := Option.some.inj (hv.symm.trans hcurrent)
    exact ⟨_, _, update_unsafe (hbelow.trans_le (hmost r hr))⟩
  · obtain ⟨s', hs', -, hminimum, -⟩ := hw.most r hr
    obtain rfl := Option.some.inj (hs.symm.trans hs')
    rw [hs, hv]
    dsimp only
    rw [if_pos hclock]
    exact ⟨_, _, update_unsafe (hbelow.trans_le hminimum)⟩

theorem Kept.told_iff (hw : Kept w) (hverified : w.verified ≠ []) (hpassed : ∀ r ∈ w.verified, r.expires ≤ w.clock) :
    w.check.notice w.clock ≠ none ↔
      ∃ r, w.check.result = some r ∧ ∀ latest minimum record, r ≠ .decided (.current latest minimum) record := by
  obtain ⟨r₀, hr₀⟩ := List.exists_mem_of_ne_nil _ hverified
  obtain ⟨s, hs, -⟩ := hw.most r₀ hr₀
  have hexpired : ¬ w.clock < s.expires := by
    obtain ⟨r, hr, hexpires⟩ := hw.one s hs
    have := hpassed r hr
    omega
  -- what is kept has passed too, so only the session's answer is left to go by
  have hunanswered (h : ∀ decision record, w.check.result ≠ some (.decided decision record)) :
      w.check.notice w.clock = w.check.unanswered := by
    unfold notice
    split
    · rename_i decision record hresult
      exact absurd hresult (h decision record)
    · rw [hs]
      cases readVersion w.check.build.currentVersion with
      | none => rfl
      | some current => exact if_neg hexpired
  cases hresult : w.check.result with
  | none =>
    rw [hunanswered (by simp [hresult])]
    simp [unanswered, hresult]
  | some r =>
    cases r with
    | decided decision record =>
      have hnotice : w.check.notice w.clock = update decision := by simp [notice, hresult]
      rw [hnotice]
      cases decision with
      | update => simp [update]
      | current => simp [update]
    | _ =>
      rw [hunanswered (by simp [hresult])]
      simp [unanswered, hresult, hs]

theorem Kept.holds_iff (hw : Kept w) (e : Event) : Holds verifyBrowserSums w e ↔ Asked w e := by
  constructor
  · intro h he hverified hpassed
    exact (hw.told_iff hverified hpassed).1 (h.told he hverified hpassed)
  · intro h
    refine ⟨hw.grows e, fun _ r hr v hv hbelow s hs hclock => hw.warned hr hv hbelow hs hclock, ?_⟩
    intro he hverified hpassed
    exact (hw.told_iff hverified hpassed).2 (h he hverified hpassed)

/-- A history keeps to the law just as long as the notice is asked for as it should be. -/
theorem ask_run (verifyBrowserSums : Verifier) (clock : Int) (build : Build) (es : List Event) :
    Along (World.step verifyBrowserSums) (Holds verifyBrowserSums) (start clock build) es ↔
      Along (World.step verifyBrowserSums) Asked (start clock build) es := by
  have hstep (w : World) (e : Event) (hw : Kept w) : Kept (w.step verifyBrowserSums e) := hw.step e
  constructor
  · intro h
    exact Along.of_invariant (fun w e hw _ => hstep w e hw) (fun w e hw => (hw.holds_iff e).1) h
      (kept_start clock build)
  · intro h
    exact Along.of_invariant (fun w e hw _ => hstep w e hw) (fun w e hw => (hw.holds_iff e).2) h
      (kept_start clock build)

private def one : Version := ⟨"1.0.0".toList, (1, 0, 0), by decide⟩

private def dayOne : Record := ⟨one, one, "1970-01-01".toList, DAY, by decide, by decide⟩

private def table : Text := ("  latest-version:  1.0.0\n  minimum-safe-version:  1.0.0\n  valid-until:  1970-01-01\n" ++
  "0000000000000000000000000000000000000000000000000000000000000000  HidraNet-Browser-1.0.0-Linux-x64.zip\n").toList

private def newest : Build := ⟨one.text, "key".toList, false⟩

/-- The browser stays open past the last day of the record by which it was current. -/
theorem silent_past : ¬ ∀ (verifyBrowserSums : Verifier) (clock : Int) (build : Build) (es : List Event),
    Along (World.step verifyBrowserSums) (Holds verifyBrowserSums) (start clock build) es := by
  intro h
  obtain ⟨text, hrecord⟩ : ∃ text, parseRecord text = .ok dayOne := by
    refine ⟨table, ?_⟩
    unfold table
    -- the list of a literal is its characters; the kernel would decode them one by one
    rw [String.toList_append]
    refine (congrArg₂ (fun a b => parseRecord (a ++ b)) String.toList_ofList String.toList_ofList).trans ?_
    decide
  have hanswer : (new newest none).run.runOnce (fun _ _ _ => true) 0 (.ok []) (.ok (Utf8.encode text)) =
      .decided (.current one one) dayOne := by
    simp only [runOnce, evaluate, Utf8.lossy_encode, hrecord]
    decide
  have hlast := h (fun _ _ _ => true) 0 newest [.run, .answered (.ok []) (.ok (Utf8.encode text)), .tick DAY, .ask]
  have htold := hlast.2.2.2.1.told rfl
  have hrunning : (new newest none).run.running = true := rfl
  simp only [World.step, World.answer, start, hanswer, hrunning, if_true, Result.record, Option.toList_some,
    List.nil_append, List.mem_singleton, forall_eq] at htold
  exact htold (by simp) (by decide) rfl

end HidraNet.Browser.Update
