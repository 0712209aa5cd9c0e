import HidraNet.Forum.Registrar

/-!
# Runs of the registrar

A run loads the file, answers the relay one task at a time, and gives out its list: changes are gathered for a while, the
list goes out again now and then, and when a relay comes back without one.  A list is saved before it is sent.  A run may
end at any moment, and `set-admin` is a process of its own, which loads the file and saves it whole.

What was sent, the moderators that were set and whether a run has settled are remembered beside it.
-/

namespace HidraNet.Forum.Registrar

open Hidrarelay Maps Runs

/-! ### A run -/

inductive Task where
  | message (topic : List String) (s : String)
  | settle
  | relist
  | coalesced
  | periodic
deriving DecidableEq

/-- How far a list has come. -/
inductive Publishing where
  | signing (reg : Registry)
  | saved (reg : Registry)
  | sent

structure Run where
  registrar : Registrar
  first : Bool
  settling : Bool
  /-- Whether the timer of a connection's window is set, and for the first window. -/
  settleTimer : Option Bool
  coalesceTimer : Bool
  periodic : Bool
  /-- Whether the relay gave a list since the connection was made. -/
  sawList : Bool
  chain : List Task
  publishing : Option Publishing
  /-- How many moderators had been set when the run loaded the file. -/
  since : Nat

def Run.load (file : Record) (adoptExisting : Bool) (since : Nat) : Run :=
  ⟨.new file adoptExisting, true, false, none, false, false, false, [], none, since⟩

def Run.connect (run : Run) : Run :=
  { run with sawList := false, settling := run.settling || run.first, settleTimer := some run.first }

def Run.publish (run : Run) (now : Nat) : Run :=
  let built := run.registrar.build now
  { run with registrar := built.1, publishing := some (.signing built.2) }

def Run.schedulePublish (run : Run) : Run :=
  if run.registrar.dirty ∧ ¬ run.settling then { run with coalesceTimer := true } else run

def Run.handle (b : Node) (run : Run) (now : Nat) (topic : List String) (s : String) : Run :=
  match topic with
  | ["hforum", "registry"] => { run with sawList := true, registrar := run.registrar.onRegistry b now s }
  | ["hforum", "u", norm] => { run with registrar := run.registrar.onClaim b now norm s }
  | ["hforum", "mod", id] => { run with registrar := run.registrar.onHide b id s }
  | _ => run

def Run.task (b : Node) (run : Run) (now : Nat) : Task → Run
  | .message topic s => (run.handle b now topic s).schedulePublish
  | .settle => { run with settling := false, first := false, registrar.bootstrapping := false }.publish now
  | .relist => if ¬ run.sawList ∨ run.registrar.dirty then run.publish now else run
  | .coalesced => if run.registrar.dirty then run.publish now else run
  | .periodic => run.publish now

/-! ### The world -/

structure World where
  file : Record
  run : Option Run
  /-- What the `set-admin` processes have loaded, each with the key it is to set. -/
  commands : List (Record × String)
  sent : List Registry
  admins : List String
  settled : Bool

inductive Event where
  | start (adoptExisting : Bool)
  | stop
  | connect
  | arrive (topic : List String) (s : String)
  | window
  | coalesce
  | interval
  | turn (now : Nat)
  /-- A list is signed, and saved; then it is sent, and the relay has it. -/
  | save
  | send
  | acknowledged
  /-- `set-admin` loads the file, and saves it. -/
  | command (pk : String)
  | commanded (i : Nat)

def start : World := ⟨emptyState, none, [], [], [], false⟩

def Run.step (b : Node) (run : Run) : Event → Run
  | .connect => run.connect
  | .arrive topic s => { run with chain := run.chain ++ [.message topic s] }
  | .window =>
    match run.settleTimer with
    | none => run
    | some first => { run with settleTimer := none, chain := run.chain ++ [if first then .settle else .relist] }
  | .coalesce =>
    if run.coalesceTimer then { run with coalesceTimer := false, chain := run.chain ++ [.coalesced] } else run
  | .interval => if run.periodic then { run with chain := run.chain ++ [.periodic] } else run
  | .turn now =>
    match run.publishing, run.chain with
    | none, task :: chain => Run.task b { run with chain } now task
    | _, _ => run
  | .save =>
    match run.publishing with
    | some (.signing reg) =>
      if MAX_LIST_BYTES < b.length reg then { run with publishing := none, periodic := true }
      else { run with publishing := some (.saved reg) }
    | _ => run
  | .send =>
    match run.publishing with
    | some (.saved _) => { run with publishing := some .sent }
    | _ => run
  | .acknowledged =>
    match run.publishing with
    | some .sent => { run with publishing := none, periodic := true }
    | _ => run
  | _ => run

def Run.next (run : Run) : Option Task := if run.publishing.isNone then run.chain.head? else none

def Run.saves (b : Node) (run : Run) : Option Registry :=
  match run.publishing with
  | some (.signing reg) => if MAX_LIST_BYTES < b.length reg then none else some reg
  | _ => none

def Run.sends (run : Run) : Option Registry :=
  match run.publishing with
  | some (.saved reg) => some reg
  | _ => none

def World.step (b : Node) (w : World) (e : Event) : World :=
  match e, w.run with
  | .start adoptExisting, none => { w with run := some (Run.load w.file adoptExisting w.admins.length) }
  | .stop, some _ => { w with run := none }
  | .command pk, _ => { w with commands := w.commands ++ [(w.file, pk)] }
  | .commanded i, _ =>
    match w.commands[i]? with
    | none => w
    | some (loaded, pk) =>
      let w := { w with commands := w.commands.eraseIdx i }
      match (new loaded false).setAdmin b pk with
      | none => w
      | some set => { w with file := set.state, admins := pk :: w.admins }
  | .save, some run =>
    { w with
      run := some (run.step b .save)
      file := if (run.saves b).isSome then run.registrar.state else w.file }
  | .send, some run => { w with run := some (run.step b .send), sent := run.sends.toList ++ w.sent }
  | .turn now, some run =>
    { w with
      run := some (run.step b (.turn now))
      settled := w.settled || (run.next matches some .settle) }
  | e, some run => { w with run := some (run.step b e) }
  | _, none => w

/-! ### What is to hold -/

def Gives (reg : Registry) (norm pk : String) : Prop :=
  (∃ e ∈ reg.names, e.norm = norm) ∧ ∀ e ∈ reg.names, e.norm = norm → e.pk = pk

structure Holds (b : Node) (w : World) (e : Event) : Prop where
  growing : (w.step b e).sent.Pairwise fun later earlier => earlier.seq < later.seq
  given : (w.step b e).sent.Pairwise fun later earlier => ∀ norm pk, Gives earlier norm pk → Gives later norm pk
  /-- Once a run has settled, the first claim on a name is recorded, if there is room and no burst. -/
  first : ∀ now run norm s c, e = .turn now → w.run = some run → run.next = some (.message ["hforum", "u", norm] s) →
    w.settled → readClaim b norm s = some c → run.registrar.state.names.get? norm = none →
    run.registrar.state.names.size < MAX_NAMES → ¬ run.registrar.rateLimited now →
    ∃ run' n, (w.step b e).run = some run' ∧ run'.registrar.state.names.get? norm = some n ∧ n.pk = c.pk
  stands : ∀ run run' norm n, w.run = some run → (w.step b e).run = some run' →
    run.registrar.state.names.get? norm = some n → run'.registrar.state.names.get? norm = some n
  /-- A list that a run sends names the moderator that was set last, if none was set since the run started. -/
  moderator : ∀ run reg pk rest, e = .send → w.run = some run → run.sends = some reg → w.admins = pk :: rest →
    run.since = w.admins.length → reg.admin = some pk

def Ideal (b : Node) (w : World) : Event → Prop
  | .turn _ => ∀ run s reg, w.run = some run → run.next = some (.message ["hforum", "registry"] s) →
      (b.fromSlice s).bind (verifyRegistry b.toBrowser) = some reg → reg ∈ w.sent
  | _ => True

/-- No claim on "constructor" is handled, nor one by a run that starts anew after one has settled; a list is saved only by
a run that knows the moderator in the file; and `set-admin` saves what it loaded only if the sequence and the names in the
file are still those. -/
def InOrder (b : Node) (w : World) : Event → Prop
  | .turn _ => ∀ run norm s, w.run = some run → run.next = some (.message ["hforum", "u", norm] s) →
      (readClaim b norm s).isSome →
      norm ≠ "constructor" ∧ ¬ (w.settled ∧ run.registrar.bootstrapping ∧ ¬ run.registrar.adoptExisting)
  | .save => ∀ run, w.run = some run → (run.saves b).isSome → run.registrar.state.admin = w.file.admin
  | .commanded i => ∀ loaded pk, w.commands[i]? = some (loaded, pk) → b.canonicalPub pk →
      loaded.seq = w.file.seq ∧ loaded.names = w.file.names
  | _ => True

/-! ### What a message does to a record -/

/-- Nothing of a record is lost. -/
structure Within (state state' : Record) : Prop where
  seq : state.seq ≤ state'.seq
  names : ∀ norm n, state.names.get? norm = some n → state'.names.get? norm = some n

theorem Within.refl (state : Record) : Within state state := ⟨le_refl _, fun _ _ h => h⟩

theorem Within.trans {s s' s'' : Record} (h : Within s s') (h' : Within s' s'') : Within s s'' :=
  ⟨h.seq.trans h'.seq, fun norm n hn => h'.names norm n (h.names norm n hn)⟩

/-- A record keeps its sequence and its moderator, and its names, and may have more of them. -/
structure Grows (state state' : Record) : Prop where
  seq : state'.seq = state.seq
  admin : state'.admin = state.admin
  names : ∀ norm n, state.names.get? norm = some n → state'.names.get? norm = some n

theorem Grows.refl (state : Record) : Grows state state := ⟨rfl, rfl, fun _ _ h => h⟩

theorem Grows.within {state state' : Record} (h : Grows state state') : Within state state' := ⟨h.seq.ge, h.names⟩

variable {b : Node} {r : Registrar}

private theorem knows_of_get? {state : Record} {norm : String} {n : Named} (h : state.names.get? norm = some n) :
    state.knows norm := by
  unfold Record.knows Map.contains
  rw [h]
  rfl

private theorem isName_of_readClaim {norm s : String} {c : Claim} (h : readClaim b norm s = some c) : isName norm := by
  unfold readClaim at h
  simp only [Option.bind_eq_bind, Option.bind_eq_some_iff] at h
  obtain ⟨_, hguard, -⟩ := h
  have hvalid := (Option.guard_eq_some' _).1 hguard
  have hname : isName (normalizeName b.toEnv norm) := hvalid.2.2.1
  rwa [← hvalid.2.2.2] at hname

private theorem onClaim_grows (now : Nat) (norm s : String) : Grows r.state (r.onClaim b now norm s).state := by
  unfold onClaim
  split
  · exact .refl _
  · rename_i c _
    by_cases hknown : r.state.knows norm
    · rw [if_pos hknown]
      exact .refl _
    rw [if_neg hknown]
    split_ifs
    · exact .refl _
    · exact .refl _
    · exact .refl _
    · refine ⟨rfl, rfl, fun norm' n hn => ?_⟩
      have hne : norm' ≠ norm := by
        rintro rfl
        exact hknown (knows_of_get? hn)
      rw [Map.get?_set_other _ _ hne]
      exact hn

private theorem onHide_grows (id s : String) : Grows r.state (r.onHide b id s).state := by
  unfold onHide
  split
  · exact .refl _
  · split_ifs
    · exact .refl _
    · exact .refl _
    · exact ⟨rfl, rfl, fun _ _ h => h⟩

private theorem foreign_state (now : Nat) : (r.foreign now).state = r.state := by
  unfold foreign
  split_ifs
  · rfl
  · rfl

private theorem onRegistry_grows {now : Nat} {s : String}
    (h : ∀ reg, (b.fromSlice s).bind (verifyRegistry b.toBrowser) = some reg → reg.seq ≤ r.state.seq) :
    Grows r.state (r.onRegistry b now s).state := by
  unfold onRegistry
  split_ifs
  · rw [foreign_state]
    exact .refl _
  · split
    · rw [foreign_state]
      exact .refl _
    · rename_i reg hreg
      rw [if_neg (not_lt.2 (h reg hreg))]
      exact .refl _

/-! ### The list -/

def Lists (reg : Registry) (names : Map String Named) : Prop :=
  ∀ e, e ∈ reg.names ↔ ∃ n, names.get? e.norm = some n ∧ e = ⟨e.norm, n.name, n.pk, n.ts⟩

private theorem lists_build (now : Nat) : Lists (r.build now).2 r.state.names := by
  intro e
  unfold build
  simp only [List.mem_mergeSort, List.mem_map, Prod.exists, Map.mem_entries]
  constructor
  · rintro ⟨norm, n, hn, rfl⟩
    exact ⟨n, hn, rfl⟩
  · rintro ⟨n, hn, he⟩
    exact ⟨e.norm, n, hn, he.symm⟩

private theorem Lists.gives_iff {reg : Registry} {names : Map String Named} (h : Lists reg names) (norm pk : String) :
    Gives reg norm pk ↔ ∃ n, names.get? norm = some n ∧ n.pk = pk := by
  constructor
  · rintro ⟨⟨e, he, rfl⟩, hall⟩
    obtain ⟨n, hn, heq⟩ := (h e).1 he
    refine ⟨n, hn, ?_⟩
    rw [← hall e he rfl, heq]
  · rintro ⟨n, hn, rfl⟩
    refine ⟨⟨⟨norm, n.name, n.pk, n.ts⟩, (h _).2 ⟨n, hn, rfl⟩, rfl⟩, ?_⟩
    rintro e he rfl
    obtain ⟨n', hn', heq⟩ := (h e).1 he
    rw [hn] at hn'
    obtain rfl := Option.some.inj hn'
    rw [heq]

/-! ### What is kept -/

/-- The file has a sequence as high as the list's, and its names. -/
structure Covers (file : Record) (reg : Registry) : Prop where
  seq : reg.seq ≤ file.seq
  names : ∀ norm pk, Gives reg norm pk → ∃ n, file.names.get? norm = some n ∧ n.pk = pk

theorem Covers.within {file file' : Record} {reg : Registry} (h : Covers file reg) (hwithin : Within file file') :
    Covers file' reg := by
  refine ⟨h.seq.trans hwithin.seq, fun norm pk hgives => ?_⟩
  obtain ⟨n, hn, hpk⟩ := h.names norm pk hgives
  exact ⟨n, hwithin.names norm n hn, hpk⟩

/-- A run that has the file's record, and maybe more. -/
structure Run.Kept (w : World) (run : Run) : Prop where
  within : Within w.file run.registrar.state
  list : ∀ reg, run.publishing = some (.signing reg) ∨ run.publishing = some (.saved reg) →
    reg.seq = run.registrar.state.seq ∧ Lists reg run.registrar.state.names ∧ reg.admin = run.registrar.state.admin
  signing : ∀ reg, run.publishing = some (.signing reg) → w.file.seq < reg.seq
  saved : ∀ reg, run.publishing = some (.saved reg) → Within run.registrar.state w.file ∧
    ∀ old ∈ w.sent, old.seq < reg.seq
  since : run.since ≤ w.admins.length
  moderator : run.since = w.admins.length → ∀ pk rest, w.admins = pk :: rest → run.registrar.state.admin = some pk

structure Kept (w : World) : Prop where
  growing : w.sent.Pairwise fun later earlier => earlier.seq < later.seq
  given : w.sent.Pairwise fun later earlier => ∀ norm pk, Gives earlier norm pk → Gives later norm pk
  filed : ∀ reg ∈ w.sent, Covers w.file reg
  moderator : ∀ pk rest, w.admins = pk :: rest → w.file.admin = some pk
  run : ∀ run, w.run = some run → run.Kept w

theorem kept_start : Kept start := by
  refine ⟨.nil, .nil, ?_, ?_, ?_⟩
  · intro reg hreg
    cases hreg
  · intro pk rest h
    cases h
  · intro run h
    cases h

variable {w : World} {run : Run}

theorem Run.Kept.same {run' : Run} (h : run.Kept w) (hstate : run'.registrar.state = run.registrar.state)
    (hpublishing : run'.publishing = run.publishing) (hsince : run'.since = run.since) : run'.Kept w := by
  constructor
  · rw [hstate]
    exact h.within
  · rw [hstate, hpublishing]
    exact h.list
  · rw [hpublishing]
    exact h.signing
  · rw [hstate, hpublishing]
    exact h.saved
  · rw [hsince]
    exact h.since
  · rw [hstate, hsince]
    exact h.moderator

theorem Run.Kept.grown {run' : Run} (h : run.Kept w) (hgrows : Grows run.registrar.state run'.registrar.state)
    (hnone : ∀ reg, run'.publishing ≠ some (.signing reg) ∧ run'.publishing ≠ some (.saved reg))
    (hsince : run'.since = run.since) : run'.Kept w := by
  refine ⟨h.within.trans hgrows.within, ?_, ?_, ?_, hsince ▸ h.since, ?_⟩
  · rintro reg (hreg | hreg)
    · exact absurd hreg (hnone reg).1
    · exact absurd hreg (hnone reg).2
  · intro reg hreg
    exact absurd hreg (hnone reg).1
  · intro reg hreg
    exact absurd hreg (hnone reg).2
  · rw [hsince, hgrows.admin]
    exact h.moderator

theorem Run.Kept.publish (h : run.Kept w) (now : Nat) : (run.publish now).Kept w := by
  have hseq : run.registrar.state.seq < run.registrar.state.seq + 1 := lt_add_one _
  refine ⟨⟨h.within.seq.trans hseq.le, h.within.names⟩, ?_, ?_, ?_, h.since, h.moderator⟩
  · rintro reg (hreg | hreg)
    · cases hreg
      exact ⟨rfl, lists_build now, rfl⟩
    · cases hreg
  · intro reg hreg
    cases hreg
    exact h.within.seq.trans_lt hseq
  · intro reg hreg
    cases hreg

private theorem handle_grows (b : Node) (run : Run) (now : Nat) (topic : List String) (s : String)
    (h : topic = ["hforum", "registry"] → ∀ reg, (b.fromSlice s).bind (verifyRegistry b.toBrowser) = some reg →
      reg.seq ≤ run.registrar.state.seq) :
    Grows run.registrar.state (run.handle b now topic s).registrar.state ∧
      (run.handle b now topic s).publishing = run.publishing ∧ (run.handle b now topic s).since = run.since := by
  unfold Run.handle
  split
  · exact ⟨onRegistry_grows (h rfl), rfl, rfl⟩
  · exact ⟨onClaim_grows now _ s, rfl, rfl⟩
  · exact ⟨onHide_grows _ s, rfl, rfl⟩
  · exact ⟨.refl _, rfl, rfl⟩

private theorem schedulePublish_same (run : Run) : run.schedulePublish.registrar = run.registrar ∧
    run.schedulePublish.publishing = run.publishing ∧ run.schedulePublish.since = run.since := by
  unfold Run.schedulePublish
  split_ifs
  · exact ⟨rfl, rfl, rfl⟩
  · exact ⟨rfl, rfl, rfl⟩

private theorem next_cases {task : Task} (h : run.next = some task) :
    run.publishing = none ∧ ∃ chain, run.chain = task :: chain := by
  unfold Run.next at h
  split_ifs at h with hidle
  refine ⟨Option.isNone_iff_eq_none.1 hidle, ?_⟩
  cases hchain : run.chain with
  | nil =>
    rw [hchain] at h
    cases h
  | cons head chain =>
    rw [hchain] at h
    cases h
    exact ⟨chain, rfl⟩

/-- One task of the queue at a time, and none while a publish is under way. -/
theorem turn_cases (b : Node) (run : Run) (now : Nat) :
    (run.next = none ∧ run.step b (.turn now) = run) ∨
      ∃ task chain, run.next = some task ∧ run.publishing = none ∧
        run.step b (.turn now) = Run.task b { run with chain } now task := by
  cases hnext : run.next with
  | none =>
    left
    refine ⟨rfl, ?_⟩
    unfold Run.step
    simp only
    split
    · rename_i hidle hchain
      simp only [Run.next, hidle, hchain] at hnext
      cases hnext
    · rfl
  | some task =>
    right
    obtain ⟨hidle, chain, hchain⟩ := next_cases hnext
    refine ⟨task, chain, rfl, hidle, ?_⟩
    simp only [Run.step, hidle, hchain]

private theorem task_names (b : Node) (run : Run) (now : Nat) (task : Task)
    (hown : ∀ s, task = .message ["hforum", "registry"] s → ∀ reg,
      (b.fromSlice s).bind (verifyRegistry b.toBrowser) = some reg → reg.seq ≤ run.registrar.state.seq)
    {norm : String} {n : Named} (hn : run.registrar.state.names.get? norm = some n) :
    (Run.task b run now task).registrar.state.names.get? norm = some n := by
  cases task with
  | message topic s =>
    obtain ⟨hgrows, -⟩ := handle_grows b run now topic s (by rintro rfl; exact hown s rfl)
    show (Run.schedulePublish _).registrar.state.names.get? norm = _
    rw [(schedulePublish_same _).1]
    exact hgrows.names norm n hn
  | settle => exact hn
  | relist =>
    simp only [Run.task]
    split_ifs
    · exact hn
    · exact hn
  | coalesced =>
    simp only [Run.task]
    split_ifs
    · exact hn
    · exact hn
  | periodic => exact hn

private theorem task_kept (h : run.Kept w) (hidle : run.publishing = none) (now : Nat) (task : Task)
    (hown : ∀ s, task = .message ["hforum", "registry"] s → ∀ reg,
      (b.fromSlice s).bind (verifyRegistry b.toBrowser) = some reg → reg.seq ≤ run.registrar.state.seq) :
    (Run.task b run now task).Kept w := by
  cases task with
  | message topic s =>
    obtain ⟨hgrows, hpublishing, hsince⟩ := handle_grows b run now topic s
      (by rintro rfl; exact hown s rfl)
    obtain ⟨hreg, hpub, hsin⟩ := schedulePublish_same (run.handle b now topic s)
    refine h.grown ?_ ?_ (hsin.trans hsince)
    · show Grows _ (Run.schedulePublish _).registrar.state
      rw [hreg]
      exact hgrows
    · intro reg
      show (Run.schedulePublish _).publishing ≠ _ ∧ (Run.schedulePublish _).publishing ≠ _
      rw [hpub, hpublishing, hidle]
      exact ⟨nofun, nofun⟩
  | settle =>
    have hsettled : ({ run with settling := false, first := false, registrar.bootstrapping := false } : Run).Kept w :=
      h.same rfl rfl rfl
    exact hsettled.publish now
  | relist =>
    simp only [Run.task]
    split_ifs
    · exact h.publish now
    · exact h
  | coalesced =>
    simp only [Run.task]
    split_ifs
    · exact h.publish now
    · exact h
  | periodic => exact h.publish now

/-! ### Steps -/

theorem Kept.goOn (hw : Kept w) {run' : Run} (hrun : run'.Kept w) (settled : Bool) :
    Kept { w with run := some run', settled } := by
  refine ⟨hw.growing, hw.given, hw.filed, hw.moderator, ?_⟩
  intro run'' h
  cases h
  exact ⟨hrun.within, hrun.list, hrun.signing, hrun.saved, hrun.since, hrun.moderator⟩

theorem Kept.other (hw : Kept w) (hrun : w.run = some run) {run' : Run}
    (hstate : run'.registrar = run.registrar) (hpublishing : run'.publishing = run.publishing ∨ run'.publishing = none)
    (hsince : run'.since = run.since) : Kept { w with run := some run' } := by
  have hkept := hw.run run hrun
  obtain hpublishing | hpublishing := hpublishing
  · exact hw.goOn (hkept.same (by rw [hstate]) hpublishing hsince) w.settled
  · refine hw.goOn (hkept.grown (by rw [hstate]; exact .refl _) (fun reg => ?_) hsince) w.settled
    rw [hpublishing]
    exact ⟨nofun, nofun⟩

private theorem saves_cases (b : Node) (run : Run) :
    (∃ reg, run.publishing = some (.signing reg) ∧ run.saves b = some reg ∧
        run.step b .save = { run with publishing := some (.saved reg) }) ∨
      run.saves b = none ∧
        (run.step b .save = run ∨ run.step b .save = { run with publishing := none, periodic := true }) := by
  unfold Run.saves
  unfold Run.step
  simp only
  split
  · rename_i reg hsigning
    split_ifs
    · exact .inr ⟨rfl, .inr rfl⟩
    · exact .inl ⟨reg, hsigning, rfl, rfl⟩
  · exact .inr ⟨rfl, .inl rfl⟩

private theorem sends_cases (b : Node) (run : Run) :
    (∃ reg, run.publishing = some (.saved reg) ∧ run.sends = some reg ∧
        run.step b .send = { run with publishing := some .sent }) ∨
      run.sends = none ∧ run.step b .send = run := by
  unfold Run.sends
  unfold Run.step
  simp only
  split
  · rename_i reg hsaved
    exact .inl ⟨reg, hsaved, rfl, rfl⟩
  · exact .inr ⟨rfl, rfl⟩

theorem Kept.save (hw : Kept w) (hrun : w.run = some run) (hin : InOrder b w .save) : Kept (w.step b .save) := by
  have hkept := hw.run run hrun
  unfold World.step
  simp only [hrun]
  obtain ⟨reg, hsigning, hsaves, hstep⟩ | ⟨hsaves, hstep⟩ := saves_cases b run
  · have hadmin := hin run hrun (by rw [hsaves]; rfl)
    obtain ⟨hseq, hlists, hreg⟩ := hkept.list reg (.inl hsigning)
    simp only [hsaves, Option.isSome_some, if_true, hstep]
    refine ⟨hw.growing, hw.given, fun old hold => (hw.filed old hold).within hkept.within, ?_, ?_⟩
    · intro pk rest hadmins
      exact hadmin.trans (hw.moderator pk rest hadmins)
    · intro run' h
      cases h
      refine ⟨.refl _, ?_, ?_, ?_, hkept.since, hkept.moderator⟩
      · rintro reg' (h | h)
        · cases h
        · cases h
          exact ⟨hseq, hlists, hreg⟩
      · intro reg' h
        cases h
      · intro reg' h
        cases h
        exact ⟨.refl _, fun old hold => (hw.filed old hold).seq.trans_lt (hkept.signing reg hsigning)⟩
  · simp only [hsaves, Option.isSome_none, Bool.false_eq_true, if_false]
    obtain hstep | hstep := hstep
    · rw [hstep]
      exact hw.goOn hkept w.settled
    · rw [hstep]
      exact hw.other hrun rfl (.inr rfl) rfl

theorem Kept.send (hw : Kept w) (hrun : w.run = some run) : Kept (w.step b .send) := by
  have hkept := hw.run run hrun
  unfold World.step
  simp only [hrun]
  obtain ⟨reg, hsaved, hsends, hstep⟩ | ⟨hsends, hstep⟩ := sends_cases b run
  · obtain ⟨hwithin, hlater⟩ := hkept.saved reg hsaved
    obtain ⟨hseq, hlists, -⟩ := hkept.list reg (.inr hsaved)
    simp only [hsends, hstep, Option.toList_some, List.singleton_append]
    refine ⟨List.pairwise_cons.2 ⟨hlater, hw.growing⟩, List.pairwise_cons.2 ⟨?_, hw.given⟩, ?_, hw.moderator, ?_⟩
    · intro old hold norm pk hgives
      obtain ⟨n, hn, hpk⟩ := (hw.filed old hold).names norm pk hgives
      exact (hlists.gives_iff norm pk).2 ⟨n, hkept.within.names norm n hn, hpk⟩
    · intro reg' hreg'
      obtain rfl | hold := List.mem_cons.1 hreg'
      · refine ⟨hseq.trans_le hwithin.seq, fun norm pk hgives => ?_⟩
        obtain ⟨n, hn, hpk⟩ := (hlists.gives_iff norm pk).1 hgives
        exact ⟨n, hwithin.names norm n hn, hpk⟩
      · exact hw.filed reg' hold
    · intro run' h
      cases h
      refine ⟨hkept.within, ?_, ?_, ?_, hkept.since, hkept.moderator⟩
      · rintro reg' (h | h)
        · cases h
        · cases h
      · intro reg' h
        cases h
      · intro reg' h
        cases h
  · rw [hstep, hsends]
    exact hw.goOn hkept w.settled

theorem Kept.own (hw : Kept w) {now : Nat} (hideal : Ideal b w (.turn now)) (hrun : w.run = some run) {task : Task}
    (hnext : run.next = some task) : ∀ s, task = .message ["hforum", "registry"] s → ∀ reg,
      (b.fromSlice s).bind (verifyRegistry b.toBrowser) = some reg → reg.seq ≤ run.registrar.state.seq := by
  rintro s rfl reg hreg
  have hsent := hideal run s reg hrun hnext hreg
  exact (hw.filed reg hsent).seq.trans (hw.run run hrun).within.seq

theorem Kept.turn (hw : Kept w) (hrun : w.run = some run) (now : Nat) (hideal : Ideal b w (.turn now)) :
    Kept (w.step b (.turn now)) := by
  have hkept := hw.run run hrun
  unfold World.step
  simp only [hrun]
  obtain ⟨-, hstep⟩ | ⟨task, chain, hnext, hidle, hstep⟩ := turn_cases b run now
  · rw [hstep]
    exact hw.goOn hkept _
  · have hrest : ({ run with chain } : Run).Kept w := hkept.same rfl rfl rfl
    rw [hstep]
    exact hw.goOn (task_kept hrest hidle now task (hw.own hideal hrun hnext)) _

theorem Kept.commands (hw : Kept w) (commands : List (Record × String)) : Kept { w with commands } := by
  refine ⟨hw.growing, hw.given, hw.filed, hw.moderator, fun run hrun => ?_⟩
  have hkept := hw.run run hrun
  exact ⟨hkept.within, hkept.list, hkept.signing, hkept.saved, hkept.since, hkept.moderator⟩

theorem Kept.commanded (hw : Kept w) (i : Nat) (hin : InOrder b w (.commanded i)) : Kept (w.step b (.commanded i)) := by
  unfold World.step
  simp only
  split
  · exact hw
  · rename_i loaded pk hget
    unfold setAdmin
    by_cases hcanonical : b.canonicalPub pk
    · obtain ⟨hseq, hnames⟩ := hin loaded pk hget hcanonical
      rw [if_pos hcanonical]
      have hback : Within { loaded with admin := some pk } w.file := ⟨hseq.le, hnames ▸ fun _ _ h => h⟩
      have hforth : Within w.file { loaded with admin := some pk } := ⟨hseq.ge, hnames ▸ fun _ _ h => h⟩
      refine ⟨hw.growing, hw.given, fun reg hreg => (hw.filed reg hreg).within hforth, ?_, ?_⟩
      · rintro pk' rest hadmins
        cases hadmins
        rfl
      · intro run hrun
        have hkept := hw.run run hrun
        have hlt : run.since < w.admins.length + 1 := Nat.lt_succ_of_le hkept.since
        refine ⟨hback.trans hkept.within, hkept.list, ?_, ?_, hlt.le, ?_⟩
        · intro reg hreg
          exact hback.seq.trans_lt (hkept.signing reg hreg)
        · intro reg hreg
          obtain ⟨hwithin, hlater⟩ := hkept.saved reg hreg
          exact ⟨hwithin.trans hforth, hlater⟩
        · intro hsince
          exact absurd hsince hlt.ne
    · rw [if_neg hcanonical]
      exact hw.commands _

theorem Kept.step (hw : Kept w) (e : Event) (hideal : Ideal b w e) (hin : InOrder b w e) : Kept (w.step b e) := by
  cases hrun : w.run with
  | none =>
    cases e with
    | start adoptExisting =>
      unfold World.step
      simp only [hrun]
      refine ⟨hw.growing, hw.given, hw.filed, hw.moderator, ?_⟩
      intro run h
      cases h
      refine ⟨.refl _, ?_, nofun, nofun, le_refl _, fun _ => hw.moderator⟩
      rintro reg (h | h)
      · cases h
      · cases h
    | commanded i => exact hw.commanded i hin
    | command pk => exact hw.commands _
    | _ =>
      unfold World.step
      simp only [hrun]
      exact hw
  | some run =>
    cases e with
    | save => exact hw.save hrun hin
    | send => exact hw.send hrun
    | turn now => exact hw.turn hrun now hideal
    | commanded i => exact hw.commanded i hin
    | start adoptExisting =>
      unfold World.step Run.step
      simp only [hrun]
      exact hw.other hrun rfl (.inl rfl) rfl
    | stop =>
      unfold World.step
      simp only [hrun]
      refine ⟨hw.growing, hw.given, hw.filed, hw.moderator, ?_⟩
      intro run h
      cases h
    | connect =>
      unfold World.step Run.step
      simp only [hrun]
      exact hw.other hrun rfl (.inl rfl) rfl
    | arrive topic s =>
      unfold World.step Run.step
      simp only [hrun]
      exact hw.other hrun rfl (.inl rfl) rfl
    | window =>
      unfold World.step Run.step
      simp only [hrun]
      split
      · exact hw.other hrun rfl (.inl rfl) rfl
      · exact hw.other hrun rfl (.inl rfl) rfl
    | coalesce =>
      unfold World.step Run.step
      simp only [hrun]
      split_ifs
      · exact hw.other hrun rfl (.inl rfl) rfl
      · exact hw.other hrun rfl (.inl rfl) rfl
    | interval =>
      unfold World.step Run.step
      simp only [hrun]
      split_ifs
      · exact hw.other hrun rfl (.inl rfl) rfl
      · exact hw.other hrun rfl (.inl rfl) rfl
    | acknowledged =>
      unfold World.step Run.step
      simp only [hrun]
      split
      · exact hw.other hrun rfl (.inr rfl) rfl
      · exact hw.other hrun rfl (.inl rfl) rfl
    | command pk => exact hw.commands _

/-! ### Every run -/

private theorem names_other {e : Event} (hturn : ∀ now, e ≠ .turn now) (hrun : w.run = some run) {run' : Run}
    (hrun' : (w.step b e).run = some run') : run'.registrar.state.names = run.registrar.state.names := by
  cases e with
  | turn now => exact absurd rfl (hturn now)
  | stop =>
    unfold World.step at hrun'
    simp only [hrun] at hrun'
    cases hrun'
  | commanded i =>
    unfold World.step at hrun'
    simp only at hrun'
    split at hrun'
    · rw [hrun] at hrun'
      cases hrun'
      rfl
    · split at hrun'
      · rw [hrun] at hrun'
        cases hrun'
        rfl
      · rw [hrun] at hrun'
        cases hrun'
        rfl
  | command pk =>
    unfold World.step at hrun'
    simp only [hrun] at hrun'
    cases hrun'
    rfl
  | _ =>
    unfold World.step Run.step at hrun'
    simp only [hrun] at hrun'
    grind [Run.connect]

theorem Kept.holds (hw : Kept w) (e : Event) (hideal : Ideal b w e) (hin : InOrder b w e) : Holds b w e := by
  have hnext := hw.step e hideal hin
  refine ⟨hnext.growing, hnext.given, ?_, ?_, ?_⟩
  · rintro now run norm s c rfl hrun hmessage hsettled hread hnone hroom hrate
    obtain ⟨hname, hstarted⟩ := hin run norm s hrun hmessage (by rw [hread]; rfl)
    have hknown : ¬ run.registrar.state.knows norm := by
      unfold Record.knows Map.contains
      rw [hnone]
      simp only [Option.isSome_none, Bool.false_or, decide_eq_true_eq]
      exact fun h => hname (constructor_of_inherited (isName_of_readClaim hread) h)
    have hrecords := onClaim_records hread hknown (fun h => hstarted ⟨hsettled, h⟩) hroom hrate
    obtain ⟨hnothing, -⟩ | ⟨task, chain, htask, -, hstep⟩ := turn_cases b run now
    · rw [hnothing] at hmessage
      cases hmessage
    · rw [hmessage] at htask
      cases htask
      refine ⟨run.step b (.turn now), ⟨c.name, c.pk, c.ts, now⟩, ?_, ?_, rfl⟩
      · unfold World.step
        simp only [hrun]
      · rw [hstep]
        show (Run.schedulePublish _).registrar.state.names.get? norm = _
        rw [(schedulePublish_same _).1]
        exact hrecords
  · intro run run' norm n hrun hrun' hn
    by_cases hturn : ∃ now, e = .turn now
    · obtain ⟨now, rfl⟩ := hturn
      unfold World.step at hrun'
      simp only [hrun] at hrun'
      cases hrun'
      obtain ⟨-, hstep⟩ | ⟨task, chain, htask, hidle, hstep⟩ := turn_cases b run now
      · rw [hstep]
        exact hn
      · rw [hstep]
        exact task_names b { run with chain } now task (hw.own hideal hrun htask) hn
    · rw [names_other (fun now h => hturn ⟨now, h⟩) hrun hrun']
      exact hn
  · rintro run reg pk rest rfl hrun hsends hadmins hsince
    have hkept := hw.run run hrun
    obtain ⟨reg', hsaved, hsends', -⟩ | ⟨hsends', -⟩ := sends_cases b run
    · rw [hsends] at hsends'
      cases hsends'
      rw [(hkept.list reg (.inr hsaved)).2.2]
      exact hkept.moderator hsince pk rest hadmins
    · rw [hsends] at hsends'
      cases hsends'

/-- In every run in order, what the registrar recorded and gave out stands, and its lists go on. -/
theorem registrar_run (b : Node) (es : List Event) (hideal : Along (World.step b) (Ideal b) start es)
    (h : Along (World.step b) (InOrder b) start es) : Along (World.step b) (Holds b) start es :=
  Along.of_invariant (fun _ e hw hok => hw.step e hok.1 hok.2) (fun _ e hw hok => hw.holds e hok.1 hok.2)
    (hideal.and h) kept_start

/-- The second list of a registrar that has the name. -/
private def list : Json :=
  .obj [("v", .int 1), ("seq", .int 2), ("ts", .int 3), ("sig", .str "s"),
    ("names", .arr [.arr [.str "alice", .str "alice", .str "k", .int 5]]), ("hides", .arr [])]

/-- A registrar to which one payload is a claim and one a list, and all signatures are good. -/
private def clerk : Node where
  fromSlice s :=
    if s = "claim" then
      some (.obj [("v", .int 2), ("name", .str "alice"), ("pk", .str "k"), ("sig", .str "s"), ("ts", .int 5)])
    else if s = "list" then some list
    else none
  isOne s := s = "1"
  verifyFields _ _ _ := true
  canonicalPub _ := true
  toLowercase s := s
  ofInt n := n
  ofInt_eq := integer_kept
  ofText _ := none
  printed q := .int q.num
  printed_eq := integer_printed
  fingerprint pk := pk
  REGISTRY_PUBKEY := "registrar"
  ofDigits _ := none
  length _ := 0

/-- A list that is good was sent. -/
private def Sent (w : World) (e : Event) : Prop :=
  (w.run.bind Run.next).all fun task => match e, task with
    | .turn _, .message ["hforum", "registry"] s =>
      ((clerk.fromSlice s).bind (verifyRegistry clerk.toBrowser)).all (· ∈ w.sent)
    | _, _ => true

private instance (w : World) (e : Event) : Decidable (Sent w e) := inferInstanceAs (Decidable (_ = true))

private theorem ideal_of_sent {es : List Event} (h : Along (World.step clerk) Sent start es) :
    Along (World.step clerk) (Ideal clerk) start es := by
  refine Along.of_invariant (P := fun _ => True) (fun _ _ _ _ => trivial) (fun w e _ hsent => ?_) h trivial
  cases e with
  | turn now =>
    intro run s reg hrun hnext hreg
    unfold Sent at hsent
    simpa [hrun, hnext, hreg] using hsent
  | _ => trivial

/-- No name is "constructor" and no run starts anew, no moderator is lost, and nothing that `set-admin` loaded is older
than the file. -/
private def Orderly (w : World) (e : Event) : Prop :=
  (w.run.all fun run => match e, run.next with
    | .turn _, some (.message ["hforum", "u", norm] _) =>
      norm ≠ "constructor" && !(w.settled && run.registrar.bootstrapping && !run.registrar.adoptExisting)
    | .save, _ => run.registrar.state.admin = w.file.admin
    | _, _ => true) &&
  match e with
  | .commanded i => (w.commands[i]?).all fun c => c.1.seq = w.file.seq && c.1.names = w.file.names
  | _ => true

private instance (w : World) (e : Event) : Decidable (Orderly w e) := inferInstanceAs (Decidable (_ = true))

private theorem inOrder_of_orderly {es : List Event} (h : Along (World.step clerk) Orderly start es) :
    Along (World.step clerk) (InOrder clerk) start es := by
  refine Along.of_invariant (P := fun _ => True) (fun _ _ _ _ => trivial) (fun w e _ horderly => ?_) h trivial
  unfold Orderly at horderly
  rw [Bool.and_eq_true] at horderly
  obtain ⟨hnext, hcommanded⟩ := horderly
  cases e with
  | turn now =>
    intro run norm s hrun hmessage _
    simp only [hrun, hmessage, Option.all_some, Bool.and_eq_true, decide_eq_true_eq] at hnext
    refine ⟨hnext.1, ?_⟩
    rintro ⟨hsettled, hboot, hadopt⟩
    simp [hsettled, hboot, hadopt] at hnext
  | save =>
    intro run hrun _
    simpa [hrun] using hnext
  | commanded i =>
    intro loaded pk hget _
    simpa [hget] using hcommanded
  | _ => trivial

private def listed (now : Nat) : List Event := [.start false, .connect, .window, .turn now, .save, .send, .acknowledged]

/-- `set-admin` while the registrar runs is undone by the next list, and the run after that names no moderator. -/
theorem moderator_forgotten : ¬ ∀ (b : Node) (es : List Event), Along (World.step b) (Ideal b) start es →
    Along (World.step b) (Holds b) start es := by
  intro h
  let before := listed 1 ++ [.command "k", .commanded 0, .interval, .turn 2, .save, .send, .stop, .start false, .connect,
    .window, .turn 3, .save]
  have hrun := h clerk (before ++ [.send]) (ideal_of_sent (by decide))
  have hsend := ((along_append _ _ _).1 hrun).2.1
  have hadmins : (run (World.step clerk) start before).admins = ["k"] := by decide
  have hsince : (run (World.step clerk) start before).run.map Run.since = some 1 := by decide
  have hlist : (run (World.step clerk) start before).run.bind (fun run => run.sends.map Registry.admin) = some none := by
    decide
  obtain ⟨run, hget, hsince⟩ := Option.map_eq_some_iff.1 hsince
  rw [hget, Option.bind_some] at hlist
  obtain ⟨reg, hsends, hadmin⟩ := Option.map_eq_some_iff.1 hlist
  have hset := hsend.moderator run reg "k" [] rfl hget hsends hadmins (by rw [hadmins]; exact hsince)
  rw [hadmin] at hset
  cases hset

/-- A name is recorded and given out, a moderator is set, and the next run hears its own list and gives out both. -/
theorem registrar_given : Along (World.step clerk) (Holds clerk) start
    (listed 1 ++ [.arrive ["hforum", "u", "alice"] "claim", .turn 2, .coalesce, .turn 3, .save, .send, .stop,
      .command "k", .commanded 0, .start false, .connect, .arrive ["hforum", "registry"] "list", .turn 4, .window,
      .turn 5, .save, .send, .acknowledged]) :=
  registrar_run clerk _ (ideal_of_sent (by decide +kernel)) (inOrder_of_orderly (by decide +kernel))

end HidraNet.Forum.Registrar
