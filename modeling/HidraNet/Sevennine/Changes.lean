import HidraNet.Sevennine.Sites

/-!
# Changes of a site that are refused

A change is refused by the checks before its first file operation, or on the way.  A refusal by the checks leaves
everything as it was; one on the way leaves what it removed and wrote (`change_iff`): a publication without a valid page
has removed the old pages by then (`refused_and_emptied`).
-/

namespace HidraNet.Sevennine

open Maps Text Utf8

/-! ### Names of files -/

theorem not_mem_of_mem_splitOn {sep : Char} {text piece : Text} (h : piece ∈ text.splitOn sep) : sep ∉ piece := by
  rw [List.splitOn_eq_splitOnP] at h
  induction text generalizing piece with
  | nil =>
    rw [List.splitOnP_nil, List.mem_singleton] at h
    rw [h]
    exact List.not_mem_nil
  | cons c text ih =>
    rw [List.splitOnP_cons_eq_if_modifyHead] at h
    split at h
    · obtain rfl | h := List.mem_cons.1 h
      · exact List.not_mem_nil
      · exact ih h
    · rename_i hc
      cases hsplit : text.splitOnP (· == sep) with
      | nil => exact absurd hsplit (List.splitOnP_ne_nil _ _)
      | cons first rest =>
        rw [hsplit] at h ih
        rw [List.modifyHead_cons] at h
        obtain rfl | h := List.mem_cons.1 h
        · rw [List.mem_cons, not_or]
          exact ⟨fun heq => hc (by simp [heq]), ih List.mem_cons_self⟩
        · exact ih (List.mem_cons_of_mem _ h)

private theorem fileName_fileName {path n : Text} (h : fileName path = some n) : fileName n = some n := by
  unfold fileName at h
  rw [Option.filter_eq_some_iff] at h
  obtain ⟨hlast, hdots⟩ := h
  obtain ⟨hsplit, hplain⟩ := List.mem_filter.1 (List.mem_of_getLast? hlast)
  have hsingle : n.splitOn '/' = [n] := List.splitOn_eq_singleton (not_mem_of_mem_splitOn hsplit)
  unfold fileName
  rw [hsingle, List.filter_cons, if_pos hplain]
  simpa using hdots

def Servable (n : Text) : Prop := fileName n = some n ∧ hidden n = false

theorem servable_of_fileName {path n : Text} (h : fileName path = some n) (hplain : hidden n = false) : Servable n :=
  ⟨fileName_fileName h, hplain⟩

private theorem servable_of_pageName {path n : Text} (h : pageName path = some n) : Servable n ∧ isHtml n := by
  unfold pageName at h
  rw [Option.filter_eq_some_iff] at h
  obtain ⟨hname, hn⟩ := h
  simp only [Bool.and_eq_true, Bool.not_eq_true'] at hn
  exact ⟨servable_of_fileName hname hn.1, hn.2⟩

private theorem Servable.ne_pageFile {n : Text} (h : Servable n) : n ≠ pageFile := by
  rintro rfl
  exact absurd h.2 (by decide)

private theorem Servable.ne_metaFile {n : Text} (h : Servable n) : n ≠ metaFile := by
  rintro rfl
  exact absurd h.2 (by decide)

/-! ### What is written -/

def Wrote.leaves (content : Bytes) (old : Option Bytes) : Wrote → Option Bytes
  | .done => some content
  | .failed none _ => old
  | .failed (some k) _ => some (content.take k)

theorem Dir.get?_write (d : Dir) (name : Text) (content : Bytes) (w : Wrote) (n : Text) :
    (d.write name content w).files.get? n =
      if n = name then w.leaves content (d.files.get? name) else d.files.get? n := by
  cases w with
  | done => exact Map.get?_set ..
  | failed left e =>
    cases left with
    | none =>
      unfold Dir.write Wrote.leaves
      dsimp only
      split
      · rename_i hn
        rw [hn]
      · rfl
    | some k => exact Map.get?_set ..

def pages (files : List (Text × Text)) : List (Text × Bytes) :=
  files.filterMap fun p => (pageName p.1).map (·, encode p.2)

/-- What the writes leave, in order, up to the first that fails. -/
def puts (page : Nat → Wrote) : Nat → List (Text × Bytes) → List (Text × Bytes)
  | _, [] => []
  | i, (n, c) :: rest =>
    match page i with
    | .done => (n, c) :: puts page (i + 1) rest
    | .failed none _ => []
    | .failed (some k) _ => [(n, c.take k)]

def lastPut (l : List (Text × Bytes)) (n : Text) : Option Bytes := (l.reverse.find? (·.1 = n)).map Prod.snd

def putAll (files : Map Text Bytes) (l : List (Text × Bytes)) : Map Text Bytes := l.foldl (fun m p => m.set p.1 p.2) files

private theorem get?_putAll (files : Map Text Bytes) (l : List (Text × Bytes)) (n : Text) :
    (putAll files l).get? n = (lastPut l n).or (files.get? n) := by
  induction l using List.reverseRecOn with
  | nil => rfl
  | append_singleton l p ih =>
    unfold putAll lastPut at ih ⊢
    rw [List.foldl_append, List.reverse_append, List.foldl_cons, List.foldl_nil, Map.get?_set, List.reverse_singleton,
      List.singleton_append, List.find?_cons]
    by_cases hn : n = p.1
    · rw [if_pos hn, decide_eq_true hn.symm]
      rfl
    · rw [if_neg hn, decide_eq_false (Ne.symm hn)]
      exact ih

theorem lastPut_mem {l : List (Text × Bytes)} {n : Text} {c : Bytes} (h : lastPut l n = some c) : (n, c) ∈ l := by
  unfold lastPut at h
  obtain ⟨p, hp, rfl⟩ := Option.map_eq_some_iff.1 h
  have hn : p.1 = n := by simpa using List.find?_some hp
  rw [← hn]
  exact List.mem_reverse.1 (List.mem_of_find?_eq_some hp)

theorem lastPut_isSome {l : List (Text × Bytes)} {n : Text} {c : Bytes} (h : (n, c) ∈ l) : (lastPut l n).isSome := by
  unfold lastPut
  rw [Option.isSome_map, List.find?_isSome]
  exact ⟨(n, c), List.mem_reverse.2 h, by simp⟩

private theorem mem_puts {page : Nat → Wrote} {i : Nat} {l : List (Text × Bytes)} {n : Text} {c : Bytes}
    (h : (n, c) ∈ puts page i l) : ∃ c', (n, c') ∈ l := by
  induction l generalizing i with
  | nil => cases h
  | cons p rest ih =>
    obtain ⟨name, content⟩ := p
    unfold puts at h
    split at h
    · obtain heq | h := List.mem_cons.1 h
      · obtain ⟨rfl, -⟩ := Prod.mk.inj heq
        exact ⟨content, List.mem_cons_self⟩
      · obtain ⟨c', hc⟩ := ih h
        exact ⟨c', List.mem_cons_of_mem _ hc⟩
    · cases h
    · obtain ⟨rfl, -⟩ := Prod.mk.inj (List.mem_singleton.1 h)
      exact ⟨content, List.mem_cons_self⟩

private theorem puts_done {page : Nat → Wrote} {i : Nat} {l : List (Text × Bytes)}
    (h : ∀ j < l.length, page (i + j) = .done) : puts page i l = l := by
  induction l generalizing i with
  | nil => rfl
  | cons p rest ih =>
    have hfirst := h 0 (Nat.zero_lt_succ _)
    rw [Nat.add_zero] at hfirst
    unfold puts
    rw [hfirst]
    dsimp only
    rw [ih fun j hj => ?_]
    have hnext := h (j + 1) (Nat.succ_lt_succ hj)
    rwa [Nat.add_left_comm, Nat.add_comm j] at hnext

private theorem writePages_files (page : Nat → Wrote) (i : Nat) (files : List (Text × Text)) (d : Dir) :
    (SiteManager.writePages page i files d).1.files = putAll d.files (puts page i (pages files)) ∧
      (SiteManager.writePages page i files d).1.others = d.others := by
  induction files generalizing i d with
  | nil => exact ⟨rfl, rfl⟩
  | cons p rest ih =>
    obtain ⟨path, html⟩ := p
    unfold SiteManager.writePages pages
    rw [List.filterMap_cons]
    cases hname : pageName path with
    | none => exact ih i d
    | some safe =>
      dsimp only [Option.map_some]
      unfold puts
      cases hpage : page i with
      | done => exact ih (i + 1) _
      | failed left e =>
        cases left with
        | none => exact ⟨rfl, rfl⟩
        | some k => exact ⟨rfl, rfl⟩

private theorem writePages_result (page : Nat → Wrote) (i : Nat) (files : List (Text × Text)) (d : Dir) :
    ((∀ j < (pages files).length, page (i + j) = .done) ∧
        (SiteManager.writePages page i files d).2 = .ok (i + (pages files).length)) ∨
      (¬ (∀ j < (pages files).length, page (i + j) = .done) ∧
        ∃ e, (SiteManager.writePages page i files d).2 = .error e) := by
  induction files generalizing i d with
  | nil => exact .inl ⟨fun j hj => absurd hj (Nat.not_lt_zero j), rfl⟩
  | cons p rest ih =>
    obtain ⟨path, html⟩ := p
    unfold SiteManager.writePages pages
    rw [List.filterMap_cons]
    cases hname : pageName path with
    | none => exact ih i d
    | some safe =>
      dsimp only [Option.map_some]
      cases hpage : page i with
      | done =>
        have hshift : (∀ j < (pages rest).length + 1, page (i + j) = .done) ↔
            ∀ j < (pages rest).length, page (i + 1 + j) = .done := by
          constructor
          · intro h j hj
            have hnext := h (j + 1) (Nat.succ_lt_succ hj)
            rwa [Nat.add_left_comm, Nat.add_comm j] at hnext
          · intro h j hj
            cases j with
            | zero => exact hpage
            | succ j =>
              have hnext := h j (Nat.lt_of_succ_lt_succ hj)
              rwa [Nat.add_assoc, Nat.add_comm 1] at hnext
        obtain ⟨hall, hok⟩ | ⟨hnot, e, herror⟩ := ih (i + 1) (d.write safe (encode html) .done)
        · refine .inl ⟨hshift.2 hall, hok.trans ?_⟩
          rw [List.length_cons]
          congr 1
          unfold pages
          omega
        · exact .inr ⟨fun h => hnot (hshift.1 h), e, herror⟩
      | failed left e =>
        refine .inr ⟨fun h => ?_, _, rfl⟩
        have hfirst := h 0 (Nat.zero_lt_succ _)
        rw [Nat.add_zero, hpage] at hfirst
        cases hfirst

/-! ### Changes -/

inductive Call where
  | publish (name : Text) (source : Bytes) (files : List (Text × Text))
  | save (name html : Text) (source : Bytes)
  | upload (name filename : Text) (content : Bytes)

namespace SiteManager

variable (env : Env) (m : SiteManager) (f : Faults)

def perform : Call → SiteManager × Except Text SiteInfo
  | .publish name source files => m.publishSite env f name source files
  | .save name html source => m.savePage env f name html source
  | .upload name filename content => m.uploadFile env f name filename content

/-- What a site is to its visitors and its owner is as before. -/
structure Unchanged (m' : SiteManager) : Prop where
  served : ∀ name path, m'.serveFile env name path = m.serveFile env name path
  sites : m'.sites = m.sites
  stored : ∀ site, (m'.disk.get? site).bind (·.files.get? metaFile) = (m.disk.get? site).bind (·.files.get? metaFile)
  source : ∀ site, m'.source site = m.source site

/-- The pages served of a site are those given, each with its content. -/
structure PagesAre (name : Text) (files : List (Text × Text)) : Prop where
  given : ∀ p ∈ files, ∃ n, fileName p.1 = some n ∧ isHtml n ∧ m.serveFile env name n = some (encode p.2)
  no_other : ∀ n c, fileName n = some n → isHtml n → m.serveFile env name n = some c →
    ∃ p ∈ files, fileName p.1 = some n ∧ encode p.2 = c

/-- What a change is to do: one that is refused leaves a site as it was, and a publication that succeeds has the site's
pages be those given. -/
structure Meets (call : Call) : Prop where
  refused : ∀ e, (m.perform env f call).2 = .error e → m.Unchanged env (m.perform env f call).1
  published : ∀ name source files info, call = .publish name source files → (m.perform env f call).2 = .ok info →
    (m.perform env f call).1.PagesAre env name files

variable {env m f}

theorem Unchanged.refl : m.Unchanged env m := ⟨fun _ _ => rfl, rfl, fun _ => rfl, fun _ => rfl⟩

theorem serveFile_servable {name n : Text} (hok : siteNameOk (siteName env.toLowercase name)) (hn : Servable n) :
    m.serveFile env name n = (m.disk.get? (siteName env.toLowercase name)).bind (·.files.get? n) := by
  have hpath : (if n = [] ∨ n = ['/'] then indexFile else n) = n := by
    rw [if_neg]
    rintro (rfl | rfl)
    · exact absurd hn.1 (by decide)
    · exact absurd hn.1 (by decide)
  unfold serveFile
  dsimp only
  rw [hpath, hn.1, hok]
  simp [hn.2]

private theorem unchanged_iff {name : Text} {d d' : Dir} (hok : siteNameOk (siteName env.toLowercase name))
    (hget : m.disk.get? (siteName env.toLowercase name) = some d)
    (hmeta : d'.files.get? metaFile = d.files.get? metaFile) :
    m.Unchanged env { m with disk := m.disk.set (siteName env.toLowercase name) d' } ↔
      (∀ n, Servable n → d'.files.get? n = d.files.get? n) ∧ d'.files.get? pageFile = d.files.get? pageFile := by
  constructor
  · intro h
    constructor
    · intro n hn
      have hserved := h.served name n
      rw [serveFile_servable hok hn, serveFile_servable hok hn, hget, Map.get?_set_self] at hserved
      exact hserved
    · have hsource := h.source (siteName env.toLowercase name)
      unfold source at hsource
      rw [hget, Map.get?_set_self] at hsource
      exact hsource
  · rintro ⟨hserved, hsource⟩
    refine ⟨fun other path => ?_, rfl, fun site => ?_, fun site => ?_⟩
    · unfold serveFile
      dsimp only
      split
      · rfl
      · split
        · rfl
        · rename_i safe hsafe
          split
          · rfl
          · rename_i hplain
            rw [Map.get?_set]
            split
            · rename_i hsite
              rw [hsite, hget]
              exact hserved safe (servable_of_fileName hsafe (by simpa using hplain))
            · rfl
    · rw [Map.get?_set]
      split
      · rename_i hsite
        rw [hsite, hget]
        exact hmeta
      · rfl
    · unfold source
      rw [Map.get?_set]
      split
      · rename_i hsite
        rw [hsite, hget]
        exact hsource
      · rfl

/-! ### When a change does what it is to do -/

variable (env m f) in
def Written (files : List (Text × Text)) : Prop :=
  pages files ≠ [] ∧ ∀ i < (pages files).length, f.page i = .done

variable (f) in
/-- What a publication removes it writes again, and all it writes is what was there. -/
structure Restores (d : Dir) (files : List (Text × Text)) : Prop where
  rewritten : ∀ n c, Servable n → isHtml n → d.files.get? n = some c → n ∉ f.stuck →
    (lastPut (puts f.page 0 (pages files)) n).isSome
  same : ∀ n c, lastPut (puts f.page 0 (pages files)) n = some c → d.files.get? n = some c

variable (f) in
/-- The pages given are pages, one for each name, and no other page stays. -/
structure Complete (d : Dir) (files : List (Text × Text)) : Prop where
  valid : ∀ p ∈ files, (pageName p.1).isSome
  agree : ∀ p ∈ files, ∀ q ∈ files, fileName p.1 = fileName q.1 → p.2 = q.2
  gone : ∀ n c, Servable n → isHtml n → d.files.get? n = some c → n ∈ f.stuck → ∃ p ∈ files, fileName p.1 = some n

variable (env m f) in
/-- When a change that is not refused by its checks does what it is to do. -/
def HoldsWhen : Call → Prop
  | .upload name filename content => ∀ safe d, siteNameOk (siteName env.toLowercase name) →
    fileName filename = some safe → hidden safe = false → m.disk.get? (siteName env.toLowercase name) = some d →
    f.page 0 = .done ∧ (m.sites.get? (siteName env.toLowercase name)).isSome ∨
      (f.page 0).leaves content (d.files.get? safe) = d.files.get? safe
  | .save name html source => ∀ d, siteNameOk (siteName env.toLowercase name) →
    m.disk.get? (siteName env.toLowercase name) = some d → (encode html).length ≤ 2000000 →
    f.page 0 = .done ∧ (m.sites.get? (siteName env.toLowercase name)).isSome ∨
      (f.page 0).leaves (encode html) (d.files.get? indexFile) = d.files.get? indexFile ∧
        (f.page 0 = .done → f.source.leaves source (d.files.get? pageFile) = d.files.get? pageFile)
  | .publish name source files => ∀ d, siteNameOk (siteName env.toLowercase name) →
    m.disk.get? (siteName env.toLowercase name) = some d → (files.map fun p => (encode p.2).length).sum ≤ 5000000 →
    files ≠ [] →
    (Written f files ∧ (m.sites.get? (siteName env.toLowercase name)).isSome → Complete f d files) ∧
      (¬ (Written f files ∧ (m.sites.get? (siteName env.toLowercase name)).isSome) → Restores f d files ∧
        (Written f files → f.source.leaves source (d.files.get? pageFile) = d.files.get? pageFile))

theorem meets_of_untouched {call : Call} (h : ∃ e, m.perform env f call = (m, .error e)) : m.Meets env f call := by
  obtain ⟨e, h⟩ := h
  constructor
  · intro e' _
    rw [h]
    exact .refl
  · intro name source files info _ hinfo
    rw [h] at hinfo
    cases hinfo

private theorem finish_error {site : Text} {d : Dir} (h : m.sites.get? site = none) :
    m.finish env f site d = ({ m with disk := m.disk.set site d }, .error "Site not found".toList) := by
  unfold finish
  rw [h]

theorem finish_ok {site : Text} {d : Dir} {record : SiteRecord} (h : m.sites.get? site = some record) :
    ∃ info, (m.finish env f site d).2 = .ok info ∧
      (m.finish env f site d).1.disk = m.disk.set site (d.write metaFile (env.toStringPretty info) f.record) := by
  unfold finish
  rw [h]
  exact ⟨_, rfl, rfl⟩

private theorem meets_iff_of_error {call : Call} {name : Text} {d d' : Dir} {e : Text}
    (hok : siteNameOk (siteName env.toLowercase name)) (hget : m.disk.get? (siteName env.toLowercase name) = some d)
    (hmeta : d'.files.get? metaFile = d.files.get? metaFile)
    (h : m.perform env f call = ({ m with disk := m.disk.set (siteName env.toLowercase name) d' }, .error e)) :
    m.Meets env f call ↔
      (∀ n, Servable n → d'.files.get? n = d.files.get? n) ∧ d'.files.get? pageFile = d.files.get? pageFile := by
  rw [← unchanged_iff hok hget hmeta]
  constructor
  · intro hmeets
    have hrefused := hmeets.refused e (by rw [h])
    rw [h] at hrefused
    exact hrefused
  · intro hsame
    constructor
    · intro e' _
      rw [h]
      exact hsame
    · intro name source files info _ hinfo
      rw [h] at hinfo
      cases hinfo

private theorem meets_of_ok {call : Call} {info : SiteInfo} (h : (m.perform env f call).2 = .ok info)
    (hcall : ∀ name source files, call ≠ .publish name source files) : m.Meets env f call := by
  constructor
  · intro e he
    rw [h] at he
    cases he
  · intro name source files _ hpublish
    exact absurd hpublish (hcall name source files)

private theorem written_iff {d : Dir} {safe : Text} {content : Bytes} {w : Wrote} (hsafe : Servable safe) :
    ((∀ n, Servable n → (d.write safe content w).files.get? n = d.files.get? n) ∧
        (d.write safe content w).files.get? pageFile = d.files.get? pageFile) ↔
      w.leaves content (d.files.get? safe) = d.files.get? safe := by
  constructor
  · intro h
    have hself := h.1 safe hsafe
    rwa [Dir.get?_write, if_pos rfl] at hself
  · intro h
    refine ⟨fun n _ => ?_, ?_⟩
    · rw [Dir.get?_write]
      split
      · rename_i hn
        rw [hn]
        exact h
      · rfl
    · rw [Dir.get?_write, if_neg hsafe.ne_pageFile.symm]

private theorem get?_write_meta {d : Dir} {safe : Text} {content : Bytes} {w : Wrote} (hsafe : safe ≠ metaFile) :
    (d.write safe content w).files.get? metaFile = d.files.get? metaFile := by
  rw [Dir.get?_write, if_neg hsafe.symm]

private theorem upload_iff (name filename : Text) (content : Bytes) :
    m.Meets env f (.upload name filename content) ↔ m.HoldsWhen env f (.upload name filename content) := by
  by_cases hok : siteNameOk (siteName env.toLowercase name)
  case neg =>
    have hcall : ∃ e, m.perform env f (.upload name filename content) = (m, .error e) := by
      simp [perform, uploadFile, hok]
    exact iff_of_true (meets_of_untouched hcall) fun safe d hok' => absurd hok' hok
  cases hname : fileName filename with
  | none =>
    have hcall : ∃ e, m.perform env f (.upload name filename content) = (m, .error e) := by
      simp [perform, uploadFile, hok, hname]
    refine iff_of_true (meets_of_untouched hcall) fun safe d _ hname' => ?_
    rw [hname] at hname'
    cases hname'
  | some safe =>
    by_cases hplain : hidden safe = true
    · have hcall : ∃ e, m.perform env f (.upload name filename content) = (m, .error e) := by
        simp [perform, uploadFile, hok, hname, hplain]
      refine iff_of_true (meets_of_untouched hcall) fun safe' d _ hname' hplain' => ?_
      rw [hname] at hname'
      cases hname'
      rw [hplain] at hplain'
      cases hplain'
    · rw [Bool.not_eq_true] at hplain
      have hsafe := servable_of_fileName hname hplain
      cases hget : m.disk.get? (siteName env.toLowercase name) with
      | none =>
        have hcall : ∃ e, m.perform env f (.upload name filename content) = (m, .error e) := by
          simp [perform, uploadFile, hok, hname, hplain, hget]
        refine iff_of_true (meets_of_untouched hcall) fun safe' d _ _ _ hget' => ?_
        rw [hget] at hget'
        cases hget'
      | some d =>
        have hholds : m.HoldsWhen env f (.upload name filename content) ↔
            f.page 0 = .done ∧ (m.sites.get? (siteName env.toLowercase name)).isSome ∨
              (f.page 0).leaves content (d.files.get? safe) = d.files.get? safe := by
          constructor
          · exact fun h => h safe d hok hname hplain hget
          · intro h safe' d' _ hname' _ hget'
            rw [hname] at hname'
            rw [hget] at hget'
            cases hname'
            cases hget'
            exact h
        rw [hholds]
        have hmeta := @get?_write_meta d safe content (f.page 0) hsafe.ne_metaFile
        cases hpage : f.page 0 with
        | failed left e =>
          rw [hpage] at hmeta
          have hcall : m.perform env f (.upload name filename content) =
              ({ m with disk := m.disk.set (siteName env.toLowercase name) (d.write safe content (.failed left e)) },
                .error ("Could not save file: ".toList ++ e)) := by
            simp [perform, uploadFile, hok, hname, hplain, hget, hpage]
          rw [meets_iff_of_error hok hget hmeta hcall, written_iff hsafe]
          simp
        | done =>
          rw [hpage] at hmeta
          have hfinish : m.perform env f (.upload name filename content) =
              m.finish env f (siteName env.toLowercase name) (d.write safe content .done) := by
            simp [perform, uploadFile, hok, hname, hplain, hget, hpage]
          cases hsite : m.sites.get? (siteName env.toLowercase name) with
          | some record =>
            obtain ⟨info, hinfo, -⟩ := @finish_ok env m f _ (d.write safe content .done) record hsite
            exact iff_of_true (meets_of_ok (hfinish ▸ hinfo) fun _ _ _ h => nomatch h) (.inl ⟨rfl, rfl⟩)
          | none =>
            rw [meets_iff_of_error hok hget hmeta (hfinish.trans (finish_error hsite)), written_iff hsafe]
            simp

private theorem servable_index : Servable indexFile := by
  unfold Servable
  decide

private theorem save_iff (name html : Text) (source : Bytes) :
    m.Meets env f (.save name html source) ↔ m.HoldsWhen env f (.save name html source) := by
  by_cases hok : siteNameOk (siteName env.toLowercase name)
  case neg =>
    have hcall : ∃ e, m.perform env f (.save name html source) = (m, .error e) := by
      simp [perform, savePage, hok]
    exact iff_of_true (meets_of_untouched hcall) fun d hok' => absurd hok' hok
  cases hget : m.disk.get? (siteName env.toLowercase name) with
  | none =>
    have hcall : ∃ e, m.perform env f (.save name html source) = (m, .error e) := by
      simp [perform, savePage, hok, hget]
    refine iff_of_true (meets_of_untouched hcall) fun d _ hget' => ?_
    rw [hget] at hget'
    cases hget'
  | some d =>
    by_cases hlarge : (encode html).length > 2000000
    · have hcall : ∃ e, m.perform env f (.save name html source) = (m, .error e) := by
        simp [perform, savePage, hok, hget, hlarge]
      exact iff_of_true (meets_of_untouched hcall) fun d _ _ hsmall => absurd hsmall (not_le.2 hlarge)
    have hholds : m.HoldsWhen env f (.save name html source) ↔
        f.page 0 = .done ∧ (m.sites.get? (siteName env.toLowercase name)).isSome ∨
          (f.page 0).leaves (encode html) (d.files.get? indexFile) = d.files.get? indexFile ∧
            (f.page 0 = .done → f.source.leaves source (d.files.get? pageFile) = d.files.get? pageFile) := by
      constructor
      · exact fun h => h d hok hget (not_lt.1 hlarge)
      · intro h d' _ hget' _
        rw [hget] at hget'
        cases hget'
        exact h
    rw [hholds]
    have hmeta := @get?_write_meta d indexFile (encode html) (f.page 0) servable_index.ne_metaFile
    cases hpage : f.page 0 with
    | failed left e =>
      rw [hpage] at hmeta
      have hcall : m.perform env f (.save name html source) =
          ({ m with disk := m.disk.set (siteName env.toLowercase name) (d.write indexFile (encode html) (.failed left e)) },
            .error ("Could not save page: ".toList ++ e)) := by
        simp [perform, savePage, hok, hget, hlarge, hpage]
      rw [meets_iff_of_error hok hget hmeta hcall, written_iff servable_index]
      simp
    | done =>
      rw [hpage] at hmeta
      have hfinish : m.perform env f (.save name html source) = m.finish env f (siteName env.toLowercase name)
          ((d.write indexFile (encode html) .done).write pageFile source f.source) := by
        simp [perform, savePage, hok, hget, hlarge, hpage]
      cases hsite : m.sites.get? (siteName env.toLowercase name) with
      | some record =>
        obtain ⟨info, hinfo, -⟩ := @finish_ok env m f _
          ((d.write indexFile (encode html) .done).write pageFile source f.source) record hsite
        exact iff_of_true (meets_of_ok (hfinish ▸ hinfo) fun _ _ _ h => nomatch h) (.inl ⟨rfl, rfl⟩)
      | none =>
        have hmeta' : ((d.write indexFile (encode html) .done).write pageFile source f.source).files.get? metaFile =
            d.files.get? metaFile := by
          rw [get?_write_meta (by decide), hmeta]
        rw [meets_iff_of_error hok hget hmeta' (hfinish.trans (finish_error hsite))]
        have hserved (n : Text) (hn : Servable n) :
            ((d.write indexFile (encode html) .done).write pageFile source f.source).files.get? n =
              (d.write indexFile (encode html) .done).files.get? n := by
          rw [Dir.get?_write, if_neg hn.ne_pageFile]
        have hsource : ((d.write indexFile (encode html) .done).write pageFile source f.source).files.get? pageFile =
            f.source.leaves source (d.files.get? pageFile) := by
          rw [Dir.get?_write, if_pos rfl, Dir.get?_write, if_neg (by decide)]
        rw [hsource]
        have hwritten := @written_iff d indexFile (encode html) .done servable_index
        constructor
        · rintro ⟨hsame, hsourceSame⟩
          refine .inr ⟨?_, fun _ => hsourceSame⟩
          have hindex := hsame indexFile servable_index
          rwa [hserved _ servable_index, Dir.get?_write, if_pos rfl] at hindex
        · rintro (⟨-, hnone⟩ | ⟨hindex, hsourceSame⟩)
          · cases hnone
          · refine ⟨fun n hn => ?_, hsourceSame rfl⟩
            rw [hserved n hn]
            exact (hwritten.2 hindex).1 n hn

/-! ### Publications -/

def published (f : Faults) (d : Dir) (files : List (Text × Text)) : Dir :=
  (writePages f.page 0 files (clearPages f d)).1

private theorem get?_published (d : Dir) (files : List (Text × Text)) (n : Text) :
    (published f d files).files.get? n = (lastPut (puts f.page 0 (pages files)) n).or
      (if isHtml n ∧ n ∉ f.stuck then none else d.files.get? n) := by
  unfold published
  rw [(writePages_files ..).1, get?_putAll]
  congr 1
  unfold clearPages
  dsimp only
  rw [Map.get?_retain]
  by_cases hhtml : isHtml n ∧ n ∉ f.stuck
  · rw [if_pos hhtml]
    cases d.files.get? n <;> simp [hhtml]
  · rw [if_neg hhtml]
    rw [not_and_or, not_not] at hhtml
    cases d.files.get? n with
    | none => rfl
    | some c =>
      rcases hhtml with hhtml | hstuck
      · simp [hhtml]
      · simp [hstuck]

private theorem servable_of_put {files : List (Text × Text)} {n : Text} {c : Bytes}
    (h : lastPut (puts f.page 0 (pages files)) n = some c) : Servable n ∧ isHtml n := by
  obtain ⟨c', hmem⟩ := mem_puts (lastPut_mem h)
  obtain ⟨p, -, hp⟩ := List.mem_filterMap.1 hmem
  obtain ⟨safe, hsafe, heq⟩ := Option.map_eq_some_iff.1 hp
  cases heq
  exact servable_of_pageName hsafe

private theorem restores_iff (d : Dir) (files : List (Text × Text)) :
    (∀ n, Servable n → (published f d files).files.get? n = d.files.get? n) ↔ Restores f d files := by
  constructor
  · intro h
    constructor
    · intro n c hn hhtml hget hstuck
      have hleft := h n hn
      rw [get?_published, if_pos ⟨hhtml, hstuck⟩, hget, Option.or_none] at hleft
      rw [hleft]
      rfl
    · intro n c hput
      have hleft := h n (servable_of_put hput).1
      rw [get?_published, hput, Option.some_or] at hleft
      exact hleft.symm
  · intro h n hn
    rw [get?_published]
    cases hput : lastPut (puts f.page 0 (pages files)) n with
    | some c => exact (h.same n c hput).symm
    | none =>
      rw [Option.none_or]
      split
      · rename_i hhtml
        cases hget : d.files.get? n with
        | none => rfl
        | some c =>
          have hsome := h.rewritten n c hn hhtml.1 hget hhtml.2
          rw [hput] at hsome
          cases hsome
      · rfl

private theorem published_hidden (d : Dir) (files : List (Text × Text)) {n : Text} (hn : hidden n = true)
    (hhtml : isHtml n = false) : (published f d files).files.get? n = d.files.get? n := by
  rw [get?_published]
  have hput : lastPut (puts f.page 0 (pages files)) n = none := by
    rw [Option.eq_none_iff_forall_ne_some]
    intro c hput
    have hplain := (servable_of_put hput).1.2
    rw [hn] at hplain
    cases hplain
  rw [hput, Option.none_or, if_neg]
  rw [hhtml]
  simp

private theorem mem_pages {files : List (Text × Text)} {n : Text} {c : Bytes} :
    (n, c) ∈ pages files ↔ ∃ p ∈ files, pageName p.1 = some n ∧ encode p.2 = c := by
  unfold pages
  simp only [List.mem_filterMap, Option.map_eq_some_iff, Prod.mk.injEq]
  constructor
  · rintro ⟨p, hp, safe, hsafe, rfl, rfl⟩
    exact ⟨p, hp, hsafe, rfl⟩
  · rintro ⟨p, hp, hsafe, rfl⟩
    exact ⟨p, hp, n, hsafe, rfl, rfl⟩

private theorem fileName_of_pageName {path n : Text} (h : pageName path = some n) : fileName path = some n := by
  unfold pageName at h
  exact (Option.filter_eq_some_iff.1 h).1

theorem pageName_of_fileName {path n : Text} (h : fileName path = some n) (hplain : hidden n = false) (hhtml : isHtml n) :
    pageName path = some n := by
  unfold pageName
  rw [h, Option.filter_some, hplain, hhtml]
  rfl

private theorem pagesAre_iff {name : Text} {d : Dir} {files : List (Text × Text)} {m' : SiteManager}
    (hok : siteNameOk (siteName env.toLowercase name)) (hwritten : Written f files)
    (hserved : ∀ n, Servable n → (m'.disk.get? (siteName env.toLowercase name)).bind (·.files.get? n) =
      (published f d files).files.get? n) : m'.PagesAre env name files ↔ Complete f d files := by
  have hputs : puts f.page 0 (pages files) = pages files := puts_done fun j hj => by
    rw [Nat.zero_add]
    exact hwritten.2 j hj
  have hserve (n : Text) (hn : Servable n) : m'.serveFile env name n = (lastPut (pages files) n).or
      (if isHtml n ∧ n ∉ f.stuck then none else d.files.get? n) := by
    rw [serveFile_servable hok hn, hserved n hn, get?_published, hputs]
  have hhidden {n : Text} {c : Bytes} (hn : fileName n = some n) (hserved : m'.serveFile env name n = some c) :
      Servable n := by
    refine ⟨hn, ?_⟩
    unfold serveFile at hserved
    have hpath : (if n = [] ∨ n = ['/'] then indexFile else n) = n := by
      rw [if_neg]
      rintro (rfl | rfl)
      · exact absurd hn (by decide)
      · exact absurd hn (by decide)
    dsimp only at hserved
    rw [hpath, hn, hok] at hserved
    by_contra hplain
    simp [hplain] at hserved
  constructor
  · intro h
    have hvalid (p : Text × Text) (hp : p ∈ files) :
        ∃ n, pageName p.1 = some n ∧ Servable n ∧ m'.serveFile env name n = some (encode p.2) := by
      obtain ⟨n, hname, hhtml, hget⟩ := h.given p hp
      have hn := hhidden (fileName_fileName hname) hget
      exact ⟨n, pageName_of_fileName hname hn.2 hhtml, hn, hget⟩
    refine ⟨fun p hp => ?_, fun p hp q hq hsame => ?_, fun n c hn hhtml hget hstuck => ?_⟩
    · obtain ⟨n, hname, -⟩ := hvalid p hp
      rw [hname]
      rfl
    · obtain ⟨n, hname, -, hget⟩ := hvalid p hp
      obtain ⟨n', hname', -, hget'⟩ := hvalid q hq
      rw [fileName_of_pageName hname, fileName_of_pageName hname'] at hsame
      cases hsame
      rw [hget] at hget'
      exact encode_injective (Option.some.inj hget')
    · -- a page that stays is served
      have hsome : ∃ c', m'.serveFile env name n = some c' := by
        rw [hserve n hn, if_neg (fun hgone => hgone.2 hstuck), hget]
        cases lastPut (pages files) n with
        | none => exact ⟨c, rfl⟩
        | some c' => exact ⟨c', rfl⟩
      obtain ⟨c', hc'⟩ := hsome
      obtain ⟨p, hp, hname, -⟩ := h.no_other n c' hn.1 hhtml hc'
      exact ⟨p, hp, hname⟩
  · intro h
    constructor
    · intro p hp
      obtain ⟨n, hname⟩ := Option.isSome_iff_exists.1 (h.valid p hp)
      obtain ⟨hn, hhtml⟩ := servable_of_pageName hname
      refine ⟨n, fileName_of_pageName hname, hhtml, ?_⟩
      obtain ⟨c, hc⟩ := Option.isSome_iff_exists.1 (lastPut_isSome (mem_pages.2 ⟨p, hp, hname, rfl⟩))
      obtain ⟨q, hq, hqname, rfl⟩ := mem_pages.1 (lastPut_mem hc)
      have hsame := h.agree p hp q hq ((fileName_of_pageName hname).trans (fileName_of_pageName hqname).symm)
      rw [hserve n hn, hc, hsame, Option.some_or]
    · intro n c hn hhtml hget
      have hservable := hhidden hn hget
      rw [hserve n hservable] at hget
      cases hput : lastPut (pages files) n with
      | some c' =>
        rw [hput, Option.some_or] at hget
        cases hget
        obtain ⟨q, hq, hqname, hqc⟩ := mem_pages.1 (lastPut_mem hput)
        exact ⟨q, hq, fileName_of_pageName hqname, hqc⟩
      | none =>
        rw [hput, Option.none_or] at hget
        split at hget
        · cases hget
        · rename_i hstays
          rw [not_and_or, not_not] at hstays
          obtain ⟨p, hp, hname⟩ := h.gone n c hservable hhtml hget (hstays.resolve_left (absurd hhtml))
          have hmem := mem_pages.2 ⟨p, hp, pageName_of_fileName hname hservable.2 hhtml, rfl⟩
          have hsome := lastPut_isSome hmem
          rw [hput] at hsome
          cases hsome

/-- The pages were all written, or one failed, or there was none. -/
private theorem written_cases (d : Dir) (files : List (Text × Text)) :
    (Written f files ∧ ∃ k, writePages f.page 0 files (clearPages f d) = (published f d files, .ok (k + 1))) ∨
      (¬ Written f files ∧ ∃ e, writePages f.page 0 files (clearPages f d) = (published f d files, .error e)) ∨
      (¬ Written f files ∧ writePages f.page 0 files (clearPages f d) = (published f d files, .ok 0)) := by
  have hresult := writePages_result f.page 0 files (clearPages f d)
  simp only [Nat.zero_add] at hresult
  obtain ⟨hall, hok⟩ | ⟨hnot, e, herror⟩ := hresult
  · cases hpages : pages files with
    | nil =>
      right
      right
      refine ⟨fun h => h.1 hpages, Prod.ext rfl ?_⟩
      rw [hok, hpages]
      rfl
    | cons p rest =>
      left
      refine ⟨⟨by rw [hpages]; nofun, hall⟩, rest.length, Prod.ext rfl ?_⟩
      rw [hok, hpages]
      rfl
  · exact .inr (.inl ⟨fun h => hnot h.2, e, Prod.ext rfl herror⟩)

private theorem publish_iff (name : Text) (source : Bytes) (files : List (Text × Text)) :
    m.Meets env f (.publish name source files) ↔ m.HoldsWhen env f (.publish name source files) := by
  by_cases hok : siteNameOk (siteName env.toLowercase name)
  case neg =>
    have hcall : ∃ e, m.perform env f (.publish name source files) = (m, .error e) := by
      simp [perform, publishSite, hok]
    exact iff_of_true (meets_of_untouched hcall) fun d hok' => absurd hok' hok
  cases hget : m.disk.get? (siteName env.toLowercase name) with
  | none =>
    have hcall : ∃ e, m.perform env f (.publish name source files) = (m, .error e) := by
      simp [perform, publishSite, hok, hget]
    refine iff_of_true (meets_of_untouched hcall) fun d _ hget' => ?_
    rw [hget] at hget'
    cases hget'
  | some d =>
    by_cases hlarge : (files.map fun p => (encode p.2).length).sum > 5000000
    · have hcall : ∃ e, m.perform env f (.publish name source files) = (m, .error e) := by
        simp [perform, publishSite, hok, hget, hlarge]
      exact iff_of_true (meets_of_untouched hcall) fun d _ _ hsmall => absurd hsmall (not_le.2 hlarge)
    by_cases hnone : files = []
    · have hcall : ∃ e, m.perform env f (.publish name source files) = (m, .error e) := by
        simp [perform, publishSite, hok, hget, hnone]
      exact iff_of_true (meets_of_untouched hcall) fun d _ _ _ hsome => absurd hnone hsome
    have hholds : m.HoldsWhen env f (.publish name source files) ↔
        (Written f files ∧ (m.sites.get? (siteName env.toLowercase name)).isSome → Complete f d files) ∧
          (¬ (Written f files ∧ (m.sites.get? (siteName env.toLowercase name)).isSome) → Restores f d files ∧
            (Written f files → f.source.leaves source (d.files.get? pageFile) = d.files.get? pageFile)) := by
      constructor
      · exact fun h => h d hok hget (not_lt.1 hlarge) hnone
      · intro h d' _ hget' _ _
        rw [hget] at hget'
        cases hget'
        exact h
    rw [hholds]
    have hmeta : (published f d files).files.get? metaFile = d.files.get? metaFile :=
      published_hidden d files (by decide) (by decide)
    have hpage : (published f d files).files.get? pageFile = d.files.get? pageFile :=
      published_hidden d files (by decide) (by decide)
    obtain ⟨hwritten, k, hresult⟩ | ⟨hnot, e, hresult⟩ | ⟨hnot, hresult⟩ := written_cases (f := f) d files
    · have hfinish : m.perform env f (.publish name source files) = m.finish env f (siteName env.toLowercase name)
          ((published f d files).write pageFile source f.source) := by
        simp [perform, publishSite, hok, hget, hlarge, hnone, hresult]
      have hserved (n : Text) (hn : Servable n) :
          ((published f d files).write pageFile source f.source).files.get? n =
            (published f d files).files.get? n := by
        rw [Dir.get?_write, if_neg hn.ne_pageFile]
      cases hsite : m.sites.get? (siteName env.toLowercase name) with
      | some record =>
        obtain ⟨info, hinfo, hdisk⟩ := @finish_ok env m f _
          ((published f d files).write pageFile source f.source) record hsite
        rw [← hfinish] at hinfo hdisk
        have hdir (n : Text) (hn : Servable n) :
            ((m.perform env f (.publish name source files)).1.disk.get? (siteName env.toLowercase name)).bind
              (·.files.get? n) = (published f d files).files.get? n := by
          rw [hdisk, Map.get?_set_self, Option.bind_some, Dir.get?_write, if_neg hn.ne_metaFile, hserved n hn]
        have hiff := pagesAre_iff hok hwritten hdir
        constructor
        · intro hmeets
          exact ⟨fun _ => hiff.1 (hmeets.published name source files info rfl hinfo), fun h => absurd ⟨hwritten, rfl⟩ h⟩
        · intro h
          constructor
          · intro e he
            rw [hinfo] at he
            cases he
          · intro name' source' files' info' heq _
            cases heq
            exact hiff.2 (h.1 ⟨hwritten, rfl⟩)
      | none =>
        have hmeta' : ((published f d files).write pageFile source f.source).files.get? metaFile =
            d.files.get? metaFile := by
          rw [get?_write_meta (by decide), hmeta]
        have hsource : ((published f d files).write pageFile source f.source).files.get? pageFile =
            f.source.leaves source (d.files.get? pageFile) := by
          rw [Dir.get?_write, if_pos rfl, hpage]
        rw [meets_iff_of_error hok hget hmeta' (hfinish.trans (finish_error hsite)), hsource, ← restores_iff]
        simp only [Option.isSome_none, Bool.false_eq_true, and_false, false_implies, not_false_eq_true,
          forall_const, true_and, hwritten]
        refine and_congr_left' ⟨fun h n hn => ?_, fun h n hn => ?_⟩
        · rw [← hserved n hn]
          exact h n hn
        · rw [hserved n hn]
          exact h n hn
    · have hcall : m.perform env f (.publish name source files) =
          ({ m with disk := m.disk.set (siteName env.toLowercase name) (published f d files) }, .error e) := by
        simp [perform, publishSite, hok, hget, hlarge, hnone, hresult]
      rw [meets_iff_of_error hok hget hmeta hcall, ← restores_iff]
      simp [hnot, hpage]
    · have hcall : m.perform env f (.publish name source files) =
          ({ m with disk := m.disk.set (siteName env.toLowercase name) (published f d files) },
            .error "No valid page (.html)".toList) := by
        simp [perform, publishSite, hok, hget, hlarge, hnone, hresult]
      rw [meets_iff_of_error hok hget hmeta hcall, ← restores_iff]
      simp [hnot, hpage]

/-- When each change does what it is to do. -/
theorem change_iff (env : Env) (m : SiteManager) (f : Faults) (call : Call) :
    m.Meets env f call ↔ m.HoldsWhen env f call := by
  cases call with
  | publish name source files => exact publish_iff name source files
  | save name html source => exact save_iff name html source
  | upload name filename content => exact upload_iff name filename content

/-- A publication without a valid page is refused after the old pages were removed. -/
theorem refused_and_emptied : ¬ ∀ (env : Env) (m : SiteManager) (f : Faults) (call : Call), m.Meets env f call := by
  intro h
  let env : Env := ⟨id, fun _ => []⟩
  let f : Faults := ⟨[], fun _ => .done, .done, .done, [], []⟩
  let info : SiteInfo := ⟨"blog".toList, "blog.hidra".toList, [], [], [indexFile], 2, 0⟩
  let m : SiteManager :=
    ⟨Map.empty.set "blog".toList ⟨info, []⟩, Map.empty.set "blog".toList ⟨Map.empty.set indexFile (encode "hi".toList), []⟩⟩
  let call : Call := .publish "blog".toList [] [("notes.txt".toList, "x".toList)]
  have hrefused : (m.perform env f call).2 = .error "No valid page (.html)".toList := by decide
  have hserved := ((h env m f call).refused _ hrefused).served "blog".toList indexFile
  revert hserved
  decide

end SiteManager

end HidraNet.Sevennine
