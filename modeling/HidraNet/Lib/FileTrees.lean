import HidraNet.Lib.Maps

/-!
# File trees

Directories, the files in them, and the paths that lead through them.  A directory is known by what its entries lead
to, the entry `..` as any other, so a path may lead out of the directory it starts from, or start from the root.  A file
is known by its place: its directory and its name there.

A path without a slash stays in its directory (`locate_no_slash`).  What a path allows, the disk may still refuse.
-/

namespace HidraNet.FileTrees

open Maps

abbrev Name := List Char

abbrev Place (δ : Type*) := δ × Name

/-- Why a path leads to no file, or the disk's own reason. -/
inductive Refusal where
  | nul
  | notFound
  | notDirectory
  | isDirectory
  | disk (text : String)
deriving DecidableEq

/-- As `io::Error` is shown. -/
def Refusal.text : Refusal → String
  | nul => "file name contained an unexpected NUL byte"
  | notFound => "No such file or directory (os error 2)"
  | notDirectory => "Not a directory (os error 20)"
  | isDirectory => "Is a directory (os error 21)"
  | disk text => text

/-- What the disk makes of a write. -/
inductive Disk where
  | done
  | refused (text : String)
  /-- The file is made, and only so many bytes of it written. -/
  | short (n : Nat) (text : String)
deriving DecidableEq

structure FileTree (δ : Type*) [DecidableEq δ] where
  root : δ
  dirs : Map (Place δ) δ
  files : Map (Place δ) (List UInt8)
  apart : ∀ p, (dirs.get? p).isSome → files.get? p = none

variable {δ : Type*} [DecidableEq δ]

namespace FileTree

variable {t : FileTree δ} {base d : δ} {path : List Char} {p q : Place δ} {bytes content : List UInt8}

/-- The directory that some entries lead to. -/
def walk (t : FileTree δ) : δ → List Name → Except Refusal δ
  | d, [] => .ok d
  | d, n :: ns =>
    match t.dirs.get? (d, n) with
    | some d' => t.walk d' ns
    | none => if (t.files.get? (d, n)).isSome then .error .notDirectory else .error .notFound

/-- Where a path from a directory leads. -/
def locate (t : FileTree δ) (base : δ) (path : List Char) : Except Refusal (Place δ) :=
  if '\x00' ∈ path then .error .nul
  else
    let names := path.splitOn '/'
    let start := if path.head? = some '/' then t.root else base
    match t.walk start (names.dropLast.filter fun n => n ≠ [] ∧ n ≠ ['.']) with
    | .error e => .error e
    | .ok d =>
      let name := names.getLast?.getD []
      if name = [] ∨ name = ['.'] ∨ name = ['.', '.'] then .error .isDirectory else .ok (d, name)

/-- `Path::exists`, of a file or a directory. -/
def has (t : FileTree δ) (base : δ) (path : List Char) : Bool :=
  match t.locate base path with
  | .error _ => false
  | .ok p => (t.dirs.get? p).isSome || (t.files.get? p).isSome

def read (t : FileTree δ) (base : δ) (path : List Char) : Except Refusal (List UInt8) :=
  match t.locate base path with
  | .error e => .error e
  | .ok p =>
    if (t.dirs.get? p).isSome then .error .isDirectory
    else
      match t.files.get? p with
      | none => .error .notFound
      | some bytes => .ok bytes

def put (t : FileTree δ) (p : Place δ) (bytes : List UInt8) (h : ¬ (t.dirs.get? p).isSome) : FileTree δ where
  root := t.root
  dirs := t.dirs
  files := t.files.set p bytes
  apart := by
    intro q hq
    have hne : q ≠ p := by
      rintro rfl
      exact h hq
    rw [Map.get?_set_other _ _ hne]
    exact t.apart q hq

/-- `fs::write`: the file is made, or emptied, and the bytes written. -/
def write (t : FileTree δ) (base : δ) (path : List Char) (bytes : List UInt8) (disk : Disk) :
    FileTree δ × Except Refusal Unit :=
  match t.locate base path with
  | .error e => (t, .error e)
  | .ok p =>
    if h : (t.dirs.get? p).isSome then (t, .error .isDirectory)
    else
      match disk with
      | .done => (t.put p bytes h, .ok ())
      | .refused text => (t, .error (.disk text))
      | .short n text => (t.put p (bytes.take n) h, .error (.disk text))

def drop (t : FileTree δ) (p : Place δ) : FileTree δ where
  root := t.root
  dirs := t.dirs
  files := t.files.remove p
  apart := by
    intro q hq
    rw [Map.get?_remove]
    split
    · rfl
    · exact t.apart q hq

/-- `fs::remove_file`. -/
def remove (t : FileTree δ) (base : δ) (path : List Char) (refused : Option String) : FileTree δ × Except Refusal Unit :=
  match t.locate base path with
  | .error e => (t, .error e)
  | .ok p =>
    if (t.dirs.get? p).isSome then (t, .error .isDirectory)
    else if (t.files.get? p).isNone then (t, .error .notFound)
    else
      match refused with
      | some text => (t, .error (.disk text))
      | none => (t.drop p, .ok ())

/-! ### Paths that are names -/

theorem locate_no_slash (hslash : '/' ∉ path) : t.locate base path =
    if '\x00' ∈ path then .error .nul
    else if path = [] ∨ path = ['.'] ∨ path = ['.', '.'] then .error .isDirectory else .ok (base, path) := by
  have hhead : path.head? ≠ some '/' := fun h => hslash (List.mem_of_mem_head? h)
  unfold locate
  simp only [List.splitOn_eq_singleton hslash, if_neg hhead]
  rfl

theorem locate_of_name (hslash : '/' ∉ path) (h : t.locate base path = .ok p) : p = (base, path) := by
  rw [locate_no_slash hslash] at h
  split at h
  · cases h
  · split at h
    · cases h
    · cases h
      rfl

variable {t' : FileTree δ}

theorem locate_congr (hslash : '/' ∉ path) : t.locate base path = t'.locate base path := by
  rw [locate_no_slash hslash, locate_no_slash hslash]

theorem has_congr (hslash : '/' ∉ path) (hdirs : t.dirs = t'.dirs)
    (hfile : t.files.get? (base, path) = t'.files.get? (base, path)) : t.has base path = t'.has base path := by
  unfold has
  rw [locate_congr hslash]
  cases hloc : t'.locate base path with
  | error e => rfl
  | ok p =>
    rw [locate_of_name hslash hloc]
    dsimp only
    rw [hdirs, hfile]

theorem read_congr (hslash : '/' ∉ path) (hdirs : t.dirs = t'.dirs)
    (hfile : t.files.get? (base, path) = t'.files.get? (base, path)) : t.read base path = t'.read base path := by
  unfold read
  rw [locate_congr hslash]
  cases hloc : t'.locate base path with
  | error e => rfl
  | ok p =>
    rw [locate_of_name hslash hloc]
    dsimp only
    rw [hdirs, hfile]

theorem write_congr (hslash : '/' ∉ path) (hdirs : t.dirs = t'.dirs) (disk : Disk) :
    (t.write base path bytes disk).2 = (t'.write base path bytes disk).2 := by
  unfold write
  rw [locate_congr hslash]
  cases hloc : t'.locate base path with
  | error e => rfl
  | ok p =>
    dsimp only
    by_cases hdir : (t'.dirs.get? p).isSome = true
    · rw [dif_pos (by rw [hdirs]; exact hdir), dif_pos hdir]
    · rw [dif_neg (by rw [hdirs]; exact hdir), dif_neg hdir]
      cases disk <;> rfl

theorem remove_congr (hslash : '/' ∉ path) (hdirs : t.dirs = t'.dirs)
    (hfile : t.files.get? (base, path) = t'.files.get? (base, path)) (refused : Option String) :
    (t.remove base path refused).2 = (t'.remove base path refused).2 := by
  unfold remove
  rw [locate_congr hslash]
  cases hloc : t'.locate base path with
  | error e => rfl
  | ok p =>
    rw [locate_of_name hslash hloc]
    dsimp only
    rw [hdirs, hfile]
    split
    · rfl
    · split
      · rfl
      · cases refused <;> rfl

/-! ### What the operations leave -/

@[simp] theorem dirs_put (h : ¬ (t.dirs.get? p).isSome) : (t.put p bytes h).dirs = t.dirs := rfl

@[simp] theorem root_put (h : ¬ (t.dirs.get? p).isSome) : (t.put p bytes h).root = t.root := rfl

theorem get?_put (h : ¬ (t.dirs.get? p).isSome) :
    (t.put p bytes h).files.get? q = if q = p then some bytes else t.files.get? q := Map.get?_set ..

@[simp] theorem dirs_drop (t : FileTree δ) (p : Place δ) : (t.drop p).dirs = t.dirs := rfl

@[simp] theorem root_drop (t : FileTree δ) (p : Place δ) : (t.drop p).root = t.root := rfl

theorem get?_drop (t : FileTree δ) (p q : Place δ) :
    (t.drop p).files.get? q = if q = p then none else t.files.get? q := Map.get?_remove ..

theorem write_cases (t : FileTree δ) (base : δ) (path : List Char) (bytes : List UInt8) (disk : Disk) :
    (∃ e, t.write base path bytes disk = (t, .error e)) ∨
    ∃ p h n r, t.locate base path = .ok p ∧ t.write base path bytes disk = (t.put p (bytes.take n) h, r) ∧
      (r = .ok () → bytes.take n = bytes) := by
  unfold write
  cases hloc : t.locate base path with
  | error e => exact .inl ⟨e, rfl⟩
  | ok p =>
    dsimp only
    by_cases hdir : (t.dirs.get? p).isSome = true
    · rw [dif_pos hdir]
      exact .inl ⟨_, rfl⟩
    · rw [dif_neg hdir]
      cases disk with
      | done => exact .inr ⟨p, hdir, bytes.length, .ok (), rfl, by rw [List.take_length], fun _ => List.take_length⟩
      | refused text => exact .inl ⟨_, rfl⟩
      | short n text => exact .inr ⟨p, hdir, n, _, rfl, rfl, fun h => by cases h⟩

theorem remove_cases (t : FileTree δ) (base : δ) (path : List Char) (refused : Option String) :
    (∃ e, t.remove base path refused = (t, .error e)) ∨
    ∃ p, t.locate base path = .ok p ∧ t.remove base path refused = (t.drop p, .ok ()) := by
  unfold remove
  cases hloc : t.locate base path with
  | error e => exact .inl ⟨e, rfl⟩
  | ok p =>
    dsimp only
    split
    · exact .inl ⟨_, rfl⟩
    · split
      · exact .inl ⟨_, rfl⟩
      · cases refused with
        | some text => exact .inl ⟨_, rfl⟩
        | none => exact .inr ⟨p, rfl, rfl⟩

end FileTree

end HidraNet.FileTrees
