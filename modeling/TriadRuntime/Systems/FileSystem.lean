import Mathlib.Logic.Function.Basic
import TriadRuntime.Systems.Paths
/-!
# A Unix file system

A tree of directories, symbolic links and other files. A location is the list
of names from the root. The kernel walks a path from directory to directory,
following links, to the location of its last name; calls look at the entry
there or change it.

Sockets are numbered as they are made, so that two sockets are the same file
just when they have the same number.
-/

namespace Systems

abbrev Location := List Name

inductive Entry where
  | Socket (inode mode : Nat)
  | RegularFile (inode : Nat)
  | Directory
  | Symlink (target : Path)
  | Other (inode : Nat)
deriving DecidableEq, Repr

inductive FsError where
  | NotFound
  | NotADirectory
  | IsADirectory
  | Loop
  | AlreadyExists
  /-- Whatever else can make a call fail (permissions, a full disk). -/
  | Fault
deriving DecidableEq, Repr

structure FileSystem where
  entry : Location → Option Entry
  cwd : Location
  next : Nat
  root : entry [] = some .Directory
  fresh : ∀ loc inode mode, entry loc = some (.Socket inode mode) → inode < next

namespace FileSystem

/-- Nothing but the root directory. -/
def bare : FileSystem where
  entry loc := if loc = [] then some .Directory else none
  cwd := []
  next := 0
  root := rfl
  fresh := by
    intro loc inode mode h
    split at h <;> cases h

/-! ## Walking a path -/

/-- Walk from `dir`; `again` goes on behind a link. A last name that is a link is
followed only if `follow` says so, and need not exist. -/
def walkFrom (fs : FileSystem) (follow : Bool) (again : Location → List Component → Except FsError Location) :
    Location → List Component → Except FsError Location
  | dir, [] => .ok dir
  | dir, .RootDir :: rest => walkFrom fs follow again dir rest
  | dir, .CurDir :: rest => walkFrom fs follow again dir rest
  | dir, .ParentDir :: rest => walkFrom fs follow again dir.dropLast rest
  | dir, .Normal name :: rest =>
    match fs.entry (dir ++ [name]) with
    | some .Directory => walkFrom fs follow again (dir ++ [name]) rest
    | some (.Symlink target) =>
      if rest = [] ∧ follow = false then .ok (dir ++ [name])
      else again (if target.isAbsolute then [] else dir) (target.steps ++ rest)
    | some _ => if rest = [] then .ok (dir ++ [name]) else .error .NotADirectory
    | none => if rest = [] then .ok (dir ++ [name]) else .error .NotFound

/-- At most `links` links are followed. -/
def walk (fs : FileSystem) (follow : Bool) : Nat → Location → List Component → Except FsError Location
  | 0 => fs.walkFrom follow fun _ _ => .error .Loop
  | links + 1 => fs.walkFrom follow (fs.walk follow links)

/-- Linux gives up after this many. -/
def maxLinks : Nat := 40

def locate (fs : FileSystem) (follow : Bool) (p : Path) : Except FsError Location :=
  if p = [] then .error .NotFound else fs.walk follow maxLinks (if p.isAbsolute then [] else fs.cwd) p.steps

/-! ## Calls -/

/-- Put `e` at a location that is no directory. -/
def write (fs : FileSystem) (loc : Location) (e : Option Entry) (next : Nat) (hloc : fs.entry loc ≠ some .Directory)
    (hnext : fs.next ≤ next) (he : ∀ inode mode, e = some (.Socket inode mode) → inode < next) : FileSystem where
  entry := Function.update fs.entry loc e
  cwd := fs.cwd
  next := next
  root := by
    rw [Function.update_of_ne]
    · exact fs.root
    · rintro rfl
      exact hloc fs.root
  fresh := by
    intro l inode mode h
    rw [Function.update_apply] at h
    split at h
    · exact he inode mode h
    · exact Nat.lt_of_lt_of_le (fs.fresh l inode mode h) hnext

/-- The entry a path leads to, a link at the end not followed. -/
def lstat (fs : FileSystem) (p : Path) : Except FsError Entry := do
  match fs.entry (← fs.locate false p) with
  | some e => .ok e
  | none => .error .NotFound

/-- The socket that a client of `p` gets to. -/
def connect (fs : FileSystem) (p : Path) : Except FsError Nat := do
  match fs.entry (← fs.locate true p) with
  | some (.Socket inode _) => .ok inode
  | some _ => .error .Fault
  | none => .error .NotFound

def isDir (fs : FileSystem) (p : Path) : Bool :=
  match fs.locate true p with
  | .ok loc => fs.entry loc = some .Directory
  | .error _ => false

/-- `Path::exists`: a link at the end is followed, and no name holds a NUL. -/
def exists_ (fs : FileSystem) (p : Path) : Bool :=
  if 0 ∈ p then false
  else
    match fs.locate true p with
    | .ok loc => (fs.entry loc).isSome
    | .error _ => false

def unlink (fs : FileSystem) (p : Path) : Except FsError FileSystem := do
  let loc ← fs.locate false p
  if h : fs.entry loc = some .Directory then .error .IsADirectory
  else if fs.entry loc = none then .error .NotFound
  else .ok (fs.write loc none fs.next h (Nat.le_refl _) (by simp))

def mkdir (fs : FileSystem) (p : Path) : Except FsError FileSystem := do
  let loc ← fs.locate false p
  match h : fs.entry loc with
  | none => .ok (fs.write loc (some .Directory) fs.next (by simp [h]) (Nat.le_refl _) (by simp))
  | some _ => .error .AlreadyExists

/-- A new socket, with the number it gets. -/
def bindSocket (fs : FileSystem) (p : Path) (mode : Nat) : Except FsError (FileSystem × Nat) := do
  let loc ← fs.locate false p
  match h : fs.entry loc with
  | none =>
    .ok (fs.write loc (some (.Socket fs.next mode)) (fs.next + 1) (by simp [h]) (Nat.le_succ _)
      (by rintro _ _ ⟨⟩; exact Nat.lt_succ_self _), fs.next)
  | some _ => .error .AlreadyExists

/-- Only the modes of sockets are kept. -/
def chmod (fs : FileSystem) (p : Path) (mode : Nat) : Except FsError FileSystem := do
  let loc ← fs.locate true p
  match h : fs.entry loc with
  | none => .error .NotFound
  | some (.Socket inode _) =>
    .ok (fs.write loc (some (.Socket inode mode)) fs.next (by simp [h]) (Nat.le_refl _)
      (by rintro _ _ ⟨⟩; exact fs.fresh loc _ _ h))
  | some _ => .ok fs

/-- `std::fs::create_dir_all`: try the directory, make its parents if one is
missing, try again. `fails depth again` makes a call fail, `blind depth again`
the look at what stands in its way; there are at most `depth` components. -/
def createDirAll (fails blind : Nat → Bool → Bool) : Nat → FileSystem → Path → Except FsError Unit × FileSystem
  | 0, fs, _ => (.ok (), fs)
  | depth + 1, fs, p =>
    match p.parent with
    | none => (.ok (), fs)
    | some parent =>
      match (if fails depth false then .error .Fault else fs.mkdir p) with
      | .ok fs => (.ok (), fs)
      | .error .NotFound =>
        match createDirAll fails blind depth fs parent with
        | (.error e, fs) => (.error e, fs)
        | (.ok (), fs) =>
          match (if fails depth true then .error .Fault else fs.mkdir p) with
          | .ok fs => (.ok (), fs)
          | .error e => if !blind depth true && fs.isDir p then (.ok (), fs) else (.error e, fs)
      | .error e => if !blind depth false && fs.isDir p then (.ok (), fs) else (.error e, fs)

/-! ## What a call changes -/

theorem bind_ok {ε α β : Type} {x : Except ε α} {f : α → Except ε β} {b : β} :
    x >>= f = .ok b ↔ ∃ a, x = .ok a ∧ f a = .ok b := by
  cases x with
  | ok a => simp [bind, Except.bind]
  | error e => simp [bind, Except.bind]

/-- `fs'` is `fs` but for the entry at `loc`, which is `e` there. -/
structure Changed (fs : FileSystem) (loc : Location) (e : Option Entry) (fs' : FileSystem) : Prop where
  self : fs'.entry loc = e
  other : ∀ l, l ≠ loc → fs'.entry l = fs.entry l
  cwd : fs'.cwd = fs.cwd

theorem write_changed {fs : FileSystem} {loc : Location} {e : Option Entry} {next : Nat}
    (hloc : fs.entry loc ≠ some .Directory) (hnext : fs.next ≤ next)
    (he : ∀ inode mode, e = some (.Socket inode mode) → inode < next) :
    Changed fs loc e (fs.write loc e next hloc hnext he) :=
  ⟨Function.update_self _ _ _, fun _ hl => Function.update_of_ne hl _ _, rfl⟩

theorem lstat_ok {fs : FileSystem} {p : Path} {e : Entry} :
    fs.lstat p = .ok e ↔ ∃ loc, fs.locate false p = .ok loc ∧ fs.entry loc = some e := by
  simp only [lstat, bind_ok]
  constructor
  · rintro ⟨loc, hl, h⟩
    split at h
    · rename_i e' he
      cases h
      exact ⟨loc, hl, he⟩
    · cases h
  · rintro ⟨loc, hl, he⟩
    exact ⟨loc, hl, by rw [he]⟩

theorem connect_ok {fs : FileSystem} {p : Path} {inode : Nat} :
    fs.connect p = .ok inode ↔ ∃ loc mode, fs.locate true p = .ok loc ∧ fs.entry loc = some (.Socket inode mode) := by
  simp only [connect, bind_ok]
  constructor
  · rintro ⟨loc, hl, h⟩
    split at h
    · rename_i i mode he
      cases h
      exact ⟨loc, mode, hl, he⟩
    · cases h
    · cases h
  · rintro ⟨loc, mode, hl, he⟩
    exact ⟨loc, hl, by rw [he]⟩

theorem unlink_ok {fs fs' : FileSystem} {p : Path} (h : fs.unlink p = .ok fs') :
    ∃ loc, fs.locate false p = .ok loc ∧ fs.entry loc ≠ some .Directory ∧ Changed fs loc none fs' ∧
      fs'.next = fs.next := by
  obtain ⟨loc, hl, h⟩ := bind_ok.1 h
  split at h
  · cases h
  · rename_i hd
    split at h
    · cases h
    · cases h
      exact ⟨loc, hl, hd, write_changed hd _ _, rfl⟩

theorem unlink_there {fs fs' : FileSystem} {p : Path} {loc : Location} (h : fs.unlink p = .ok fs')
    (hl : fs.locate false p = .ok loc) : fs.entry loc ≠ none := by
  obtain ⟨loc', hl', h⟩ := bind_ok.1 h
  rw [hl] at hl'
  cases hl'
  intro hn
  rw [dif_neg (by simp [hn]), if_pos hn] at h
  cases h

/-- What is no directory and is there can be unlinked. -/
theorem unlink_of_lstat {fs : FileSystem} {p : Path} {e : Entry} (h : fs.lstat p = .ok e) (he : e ≠ .Directory) :
    ∃ fs', fs.unlink p = .ok fs' := by
  obtain ⟨loc, hl, hloc⟩ := lstat_ok.1 h
  have hd : fs.entry loc ≠ some .Directory := by simp [hloc, he]
  refine ⟨fs.write loc none fs.next hd (Nat.le_refl _) (by simp), bind_ok.2 ⟨loc, hl, ?_⟩⟩
  rw [dif_neg hd, if_neg (by simp [hloc])]

theorem mkdir_ok {fs fs' : FileSystem} {p : Path} (h : fs.mkdir p = .ok fs') :
    ∃ loc, fs.locate false p = .ok loc ∧ fs.entry loc = none ∧ Changed fs loc (some .Directory) fs' ∧
      fs'.next = fs.next := by
  obtain ⟨loc, hl, h⟩ := bind_ok.1 h
  split at h
  · rename_i hn
    cases h
    exact ⟨loc, hl, hn, write_changed (by simp [hn]) _ _, rfl⟩
  · cases h

theorem bindSocket_ok {fs fs' : FileSystem} {p : Path} {mode inode : Nat} (h : fs.bindSocket p mode = .ok (fs', inode)) :
    ∃ loc, fs.locate false p = .ok loc ∧ fs.entry loc = none ∧ Changed fs loc (some (.Socket inode mode)) fs' ∧
      inode = fs.next ∧ fs'.next = fs.next + 1 := by
  obtain ⟨loc, hl, h⟩ := bind_ok.1 h
  split at h
  · rename_i hn
    cases h
    exact ⟨loc, hl, hn, write_changed (by simp [hn]) _ _, rfl, rfl⟩
  · cases h

theorem chmod_ok {fs fs' : FileSystem} {p : Path} {mode : Nat} (h : fs.chmod p mode = .ok fs') :
    fs'.next = fs.next ∧ (fs' = fs ∨ ∃ loc inode old, fs.entry loc = some (.Socket inode old) ∧
      Changed fs loc (some (.Socket inode mode)) fs') := by
  obtain ⟨loc, hl, h⟩ := bind_ok.1 h
  split at h
  · cases h
  · rename_i inode old he
    cases h
    exact ⟨rfl, .inr ⟨loc, inode, old, he, write_changed (by simp [he]) _ _⟩⟩
  · cases h
    exact ⟨rfl, .inl rfl⟩

theorem chmod_socket {fs : FileSystem} {p : Path} {loc : Location} {inode old : Nat} (mode : Nat)
    (hl : fs.locate true p = .ok loc) (he : fs.entry loc = some (.Socket inode old)) :
    ∃ fs', fs.chmod p mode = .ok fs' ∧ Changed fs loc (some (.Socket inode mode)) fs' := by
  refine ⟨fs.write loc (some (.Socket inode mode)) fs.next (by simp [he]) (Nat.le_refl _)
    (by rintro _ _ ⟨⟩; exact fs.fresh loc _ _ he), bind_ok.2 ⟨loc, hl, ?_⟩, write_changed (by simp [he]) _ _⟩
  split
  · rename_i hn
    rw [he] at hn
    cases hn
  · rename_i i o hs
    rw [he] at hs
    cases hs
    rfl
  · rename_i e hno hs
    rw [he] at hs
    exact absurd (Option.some.inj hs).symm (hno inode old)

/-! ## Where paths lead -/

/-- Every directory and link of `fs` is in `fs'`, and no other links. -/
structure Extends (fs fs' : FileSystem) : Prop where
  cwd : fs'.cwd = fs.cwd
  dir : ∀ loc, fs.entry loc = some .Directory → fs'.entry loc = some .Directory
  link : ∀ loc target, fs.entry loc = some (.Symlink target) ↔ fs'.entry loc = some (.Symlink target)

theorem Extends.refl (fs : FileSystem) : Extends fs fs := ⟨rfl, fun _ h => h, fun _ _ => .rfl⟩

theorem Extends.trans {fs fs' fs'' : FileSystem} (h : Extends fs fs') (h' : Extends fs' fs'') : Extends fs fs'' :=
  ⟨h'.cwd.trans h.cwd, fun loc hd => h'.dir loc (h.dir loc hd), fun loc t => (h.link loc t).trans (h'.link loc t)⟩

/-- What a walk makes of the next name: a link, or something else that is a
directory or the end. -/
theorem walkFrom_normal {fs : FileSystem} {follow : Bool} {again : Location → List Component → Except FsError Location}
    {dir loc : Location} {name : Name} {cs : List Component}
    (hw : fs.walkFrom follow again dir (.Normal name :: cs) = .ok loc) :
    (∃ target, fs.entry (dir ++ [name]) = some (.Symlink target) ∧
      if cs = [] ∧ follow = false then loc = dir ++ [name]
      else again (if target.isAbsolute then [] else dir) (target.steps ++ cs) = .ok loc) ∨
    (∀ target, fs.entry (dir ++ [name]) ≠ some (.Symlink target)) ∧
      (fs.entry (dir ++ [name]) = some .Directory ∨ cs = []) ∧ fs.walkFrom follow again (dir ++ [name]) cs = .ok loc := by
  simp only [walkFrom] at hw
  split at hw
  · rename_i hd
    exact .inr ⟨by simp [hd], .inl hd, hw⟩
  · rename_i target ht
    refine .inl ⟨target, ht, ?_⟩
    split at hw
    · rename_i hlast
      rw [if_pos hlast]
      cases hw
      rfl
    · rename_i hlast
      rw [if_neg hlast]
      exact hw
  · rename_i e hnd hnl he
    split at hw
    · rename_i hlast
      subst hlast
      exact .inr ⟨fun target ht => hnl target ((Option.some.inj (he.symm.trans ht))), .inr rfl, hw⟩
    · cases hw
  · rename_i hn
    split at hw
    · rename_i hlast
      subst hlast
      exact .inr ⟨by simp [hn], .inr rfl, hw⟩
    · cases hw

/-- The last name need not be there. -/
theorem walkFrom_last {fs : FileSystem} {dir : Location} {name : Name} (follow : Bool)
    (again : Location → List Component → Except FsError Location)
    (hno : ∀ target, fs.entry (dir ++ [name]) ≠ some (.Symlink target)) :
    fs.walkFrom follow again dir [.Normal name] = .ok (dir ++ [name]) := by
  simp only [walkFrom]
  split
  · rfl
  · rename_i target ht
    exact absurd ht (hno target)
  · rfl
  · rfl

theorem walkFrom_extends {fs fs' : FileSystem} (h : Extends fs fs') {follow : Bool}
    {again again' : Location → List Component → Except FsError Location}
    (hagain : ∀ dir cs loc, again dir cs = .ok loc → again' dir cs = .ok loc) (cs : List Component) (dir loc : Location)
    (hw : fs.walkFrom follow again dir cs = .ok loc) : fs'.walkFrom follow again' dir cs = .ok loc := by
  induction cs generalizing dir with
  | nil => exact hw
  | cons c cs ih =>
    cases c with
    | RootDir => exact ih dir hw
    | CurDir => exact ih dir hw
    | ParentDir => exact ih dir.dropLast hw
    | Normal name =>
      rcases walkFrom_normal hw with ⟨target, ht, hw⟩ | ⟨hno, hd | rfl, hw⟩
      · simp only [walkFrom, (h.link _ target).1 ht]
        split at hw
        · rename_i hlast
          rw [if_pos hlast, hw]
        · rename_i hlast
          rw [if_neg hlast]
          exact hagain _ _ _ hw
      · simp only [walkFrom, h.dir _ hd]
        exact ih _ hw
      · -- The last name: a directory may have been made there, but no link.
        cases hw
        exact walkFrom_last follow again' fun target ht => hno target ((h.link _ target).2 ht)

theorem walk_extends {fs fs' : FileSystem} (h : Extends fs fs') {follow : Bool} (links : Nat) (cs : List Component)
    (dir loc : Location) (hw : fs.walk follow links dir cs = .ok loc) : fs'.walk follow links dir cs = .ok loc := by
  induction links generalizing dir cs loc with
  | zero => exact walkFrom_extends h (by rintro dir cs loc ⟨⟩) cs dir loc hw
  | succ links ih => exact walkFrom_extends h (fun dir cs loc => ih cs dir loc) cs dir loc hw

/-- Where a path leads it still leads when directories have been made and other
files have come and gone. -/
theorem locate_extends {fs fs' : FileSystem} (h : Extends fs fs') {follow : Bool} {p : Path} {loc : Location}
    (hw : fs.locate follow p = .ok loc) : fs'.locate follow p = .ok loc := by
  unfold locate at hw ⊢
  split at hw
  · cases hw
  · rename_i hp
    rw [if_neg hp, h.cwd]
    exact walk_extends h _ _ _ _ hw

/-- The same links, and the same directory to start from. -/
structure SameLinks (fs fs' : FileSystem) : Prop where
  cwd : fs'.cwd = fs.cwd
  link : ∀ loc target, fs.entry loc = some (.Symlink target) ↔ fs'.entry loc = some (.Symlink target)

theorem SameLinks.of_extends {fs fs₁ fs₂ : FileSystem} (h₁ : Extends fs fs₁) (h₂ : Extends fs fs₂) :
    SameLinks fs₁ fs₂ :=
  ⟨h₂.cwd.trans h₁.cwd.symm, fun loc t => (h₁.link loc t).symm.trans (h₂.link loc t)⟩

theorem walkFrom_agrees {fs fs' : FileSystem} (h : SameLinks fs fs') {follow : Bool}
    {again again' : Location → List Component → Except FsError Location}
    (hagain : ∀ dir cs loc loc', again dir cs = .ok loc → again' dir cs = .ok loc' → loc = loc') (cs : List Component)
    (dir loc loc' : Location) (hw : fs.walkFrom follow again dir cs = .ok loc)
    (hw' : fs'.walkFrom follow again' dir cs = .ok loc') : loc = loc' := by
  induction cs generalizing dir with
  | nil =>
    cases hw
    cases hw'
    rfl
  | cons c cs ih =>
    cases c with
    | RootDir => exact ih dir hw hw'
    | CurDir => exact ih dir hw hw'
    | ParentDir => exact ih dir.dropLast hw hw'
    | Normal name =>
      rcases walkFrom_normal hw with ⟨target, ht, hw⟩ | ⟨hno, -, hw⟩
      · rcases walkFrom_normal hw' with ⟨target', ht', hw'⟩ | ⟨hno', -, -⟩
        · rw [(h.link _ target).1 ht] at ht'
          cases ht'
          split at hw
          · rename_i hlast
            rw [if_pos hlast] at hw'
            rw [hw, hw']
          · rename_i hlast
            rw [if_neg hlast] at hw'
            exact hagain _ _ _ _ hw hw'
        · exact absurd ((h.link _ target).1 ht) (hno' target)
      · rcases walkFrom_normal hw' with ⟨target', ht', -⟩ | ⟨-, -, hw'⟩
        · exact absurd ((h.link _ target').2 ht') (hno target')
        · exact ih _ hw hw'

theorem walk_agrees {fs fs' : FileSystem} (h : SameLinks fs fs') {follow : Bool} (links : Nat) (cs : List Component)
    (dir loc loc' : Location) (hw : fs.walk follow links dir cs = .ok loc) (hw' : fs'.walk follow links dir cs = .ok loc') :
    loc = loc' := by
  induction links generalizing dir cs loc loc' with
  | zero => exact walkFrom_agrees h (by rintro dir cs loc loc' ⟨⟩) cs dir loc loc' hw hw'
  | succ links ih => exact walkFrom_agrees h (fun dir cs loc loc' => ih cs dir loc loc') cs dir loc loc' hw hw'

/-- Which place a path leads to is a matter of the links alone. -/
theorem locate_agrees {fs fs' : FileSystem} (h : SameLinks fs fs') {follow : Bool} {p : Path} {loc loc' : Location}
    (hw : fs.locate follow p = .ok loc) (hw' : fs'.locate follow p = .ok loc') : loc = loc' := by
  unfold locate at hw hw'
  split at hw
  · cases hw
  · rename_i hp
    rw [if_neg hp, h.cwd] at hw'
    exact walk_agrees h _ _ _ _ _ hw hw'

theorem walkFrom_follow {fs : FileSystem} {again again' : Location → List Component → Except FsError Location}
    {loc : Location} (hloc : ∀ target, fs.entry loc ≠ some (.Symlink target))
    (hagain : ∀ dir cs, again dir cs = .ok loc → again' dir cs = .ok loc) (cs : List Component) (dir : Location)
    (hw : fs.walkFrom false again dir cs = .ok loc) : fs.walkFrom true again' dir cs = .ok loc := by
  induction cs generalizing dir with
  | nil => exact hw
  | cons c cs ih =>
    cases c with
    | RootDir => exact ih dir hw
    | CurDir => exact ih dir hw
    | ParentDir => exact ih dir.dropLast hw
    | Normal name =>
      simp only [walkFrom] at hw ⊢
      split at hw
      · exact ih _ hw
      · rename_i target ht
        split at hw
        · cases hw
          exact absurd ht (hloc target)
        · simp only [Bool.true_eq_false, and_false, if_false]
          exact hagain _ _ hw
      · exact hw
      · exact hw

theorem walk_follow {fs : FileSystem} {loc : Location} (hloc : ∀ target, fs.entry loc ≠ some (.Symlink target))
    (links : Nat) (cs : List Component) (dir : Location) (hw : fs.walk false links dir cs = .ok loc) :
    fs.walk true links dir cs = .ok loc := by
  induction links generalizing dir cs with
  | zero => exact walkFrom_follow hloc (by rintro dir cs ⟨⟩) cs dir hw
  | succ links ih => exact walkFrom_follow hloc (fun dir cs => ih cs dir) cs dir hw

/-- A path that does not lead to a link leads to the same place if links are followed. -/
theorem locate_follow {fs : FileSystem} {p : Path} {loc : Location} (hw : fs.locate false p = .ok loc)
    (hloc : ∀ target, fs.entry loc ≠ some (.Symlink target)) : fs.locate true p = .ok loc := by
  unfold locate at hw ⊢
  split at hw
  · cases hw
  · rename_i hp
    rw [if_neg hp]
    exact walk_follow hloc _ _ _ hw

theorem walkFrom_unfollow {fs : FileSystem} {again again' : Location → List Component → Except FsError Location}
    {loc : Location} (hagain : ∀ dir cs, again dir cs = .ok loc →
      ∃ loc', again' dir cs = .ok loc' ∧ (loc' = loc ∨ ∃ target, fs.entry loc' = some (.Symlink target)))
    (cs : List Component) (dir : Location) (hw : fs.walkFrom true again dir cs = .ok loc) :
    ∃ loc', fs.walkFrom false again' dir cs = .ok loc' ∧ (loc' = loc ∨ ∃ target, fs.entry loc' = some (.Symlink target)) := by
  induction cs generalizing dir with
  | nil => exact ⟨loc, hw, .inl rfl⟩
  | cons c cs ih =>
    cases c with
    | RootDir => exact ih dir hw
    | CurDir => exact ih dir hw
    | ParentDir => exact ih dir.dropLast hw
    | Normal name =>
      simp only [walkFrom] at hw ⊢
      split at hw
      · exact ih _ hw
      · rename_i target ht
        simp only [Bool.true_eq_false, and_false, if_false] at hw
        by_cases hlast : cs = []
        · rw [if_pos ⟨hlast, trivial⟩]
          exact ⟨_, rfl, .inr ⟨target, ht⟩⟩
        · rw [if_neg (by simp [hlast])]
          exact hagain _ _ hw
      · exact ⟨loc, hw, .inl rfl⟩
      · exact ⟨loc, hw, .inl rfl⟩

theorem walk_unfollow {fs : FileSystem} {loc : Location} (links : Nat) (cs : List Component) (dir : Location)
    (hw : fs.walk true links dir cs = .ok loc) :
    ∃ loc', fs.walk false links dir cs = .ok loc' ∧ (loc' = loc ∨ ∃ target, fs.entry loc' = some (.Symlink target)) := by
  induction links generalizing dir cs with
  | zero => exact walkFrom_unfollow (by rintro dir cs ⟨⟩) cs dir hw
  | succ links ih => exact walkFrom_unfollow (fun dir cs => ih cs dir) cs dir hw

/-- Where links are followed, the path itself leads to the same place or to a link. -/
theorem locate_unfollow {fs : FileSystem} {p : Path} {loc : Location} (hw : fs.locate true p = .ok loc) :
    ∃ loc', fs.locate false p = .ok loc' ∧ (loc' = loc ∨ ∃ target, fs.entry loc' = some (.Symlink target)) := by
  unfold locate at hw ⊢
  split at hw
  · cases hw
  · rename_i hp
    rw [if_neg hp]
    exact walk_unfollow _ _ _ hw

/-- Once the directories they go through are there, both paths lead to one place. -/
def SamePlace (fs : FileSystem) (p q : Path) : Prop :=
  ∃ fs' loc, Extends fs fs' ∧ fs'.locate false p = .ok loc ∧ fs'.locate false q = .ok loc

/-- Nothing or a socket: an entry no walk goes through. -/
def Spot (e : Option Entry) : Prop := e = none ∨ ∃ inode mode, e = some (.Socket inode mode)

theorem Changed.extends {fs fs' : FileSystem} {loc : Location} {e : Option Entry} (h : Changed fs loc e fs')
    (hold : Spot (fs.entry loc)) (hnew : Spot e ∨ e = some .Directory) : Extends fs fs' := by
  have hno : ∀ target, fs.entry loc ≠ some (.Symlink target) ∧ e ≠ some (.Symlink target) := by
    intro target
    constructor
    · rcases hold with ho | ⟨i, m, ho⟩ <;> simp [ho]
    · rcases hnew with (rfl | ⟨i, m, rfl⟩) | rfl <;> simp
  refine ⟨h.cwd, fun l hl => ?_, fun l target => ?_⟩
  · by_cases hll : l = loc
    · subst hll
      rcases hold with ho | ⟨i, m, ho⟩ <;> simp [ho] at hl
    · rw [h.other l hll]
      exact hl
  · by_cases hll : l = loc
    · subst hll
      rw [h.self]
      exact ⟨fun ht => absurd ht (hno target).1, fun ht => absurd ht (hno target).2⟩
    · rw [h.other l hll]

/-- A change between sockets and nothing can be taken back. -/
theorem Changed.extends_back {fs fs' : FileSystem} {loc : Location} {e : Option Entry} (h : Changed fs loc e fs')
    (hold : Spot (fs.entry loc)) (hnew : Spot e) : Extends fs' fs := by
  have hback : Changed fs' loc (fs.entry loc) fs := ⟨rfl, fun l hl => (h.other l hl).symm, h.cwd.symm⟩
  exact hback.extends (by rw [h.self]; exact hnew) (.inl hold)

/-! ## Directories and sockets that come and go -/

/-- From `fs` to `fs'` directories were made, and sockets made and removed. -/
structure Grows (fs fs' : FileSystem) : Prop where
  extends_ : Extends fs fs'
  next : fs.next ≤ fs'.next
  old : ∀ loc inode mode, inode < fs.next → fs'.entry loc = some (.Socket inode mode) →
    ∃ mode', fs.entry loc = some (.Socket inode mode')

theorem Grows.refl (fs : FileSystem) : Grows fs fs := ⟨.refl fs, Nat.le_refl _, fun _ _ mode _ h => ⟨mode, h⟩⟩

theorem Grows.trans {fs fs' fs'' : FileSystem} (h : Grows fs fs') (h' : Grows fs' fs'') : Grows fs fs'' := by
  refine ⟨h.extends_.trans h'.extends_, Nat.le_trans h.next h'.next, fun loc inode mode hlt he => ?_⟩
  obtain ⟨mode', he'⟩ := h'.old loc inode mode (Nat.lt_of_lt_of_le hlt h.next) he
  exact h.old loc inode mode' hlt he'

theorem Changed.grows {fs fs' : FileSystem} {loc : Location} {e : Option Entry} (h : Changed fs loc e fs')
    (hold : Spot (fs.entry loc)) (hnew : Spot e ∨ e = some .Directory) (hnext : fs.next ≤ fs'.next)
    (hinode : ∀ inode mode, inode < fs.next → e = some (.Socket inode mode) →
      ∃ mode', fs.entry loc = some (.Socket inode mode')) : Grows fs fs' := by
  refine ⟨h.extends hold hnew, hnext, fun l inode mode hlt he => ?_⟩
  by_cases hl : l = loc
  · subst hl
    rw [h.self] at he
    exact hinode inode mode hlt he
  · rw [h.other l hl] at he
    exact ⟨mode, he⟩

theorem mkdir_grows {fs fs' : FileSystem} {p : Path} (h : fs.mkdir p = .ok fs') : Grows fs fs' := by
  obtain ⟨loc, -, hn, hc, hnext⟩ := mkdir_ok h
  exact hc.grows (.inl hn) (.inr rfl) (Nat.le_of_eq hnext.symm) (by rintro _ _ _ ⟨⟩)

/-- Whatever holds of each directory made holds of them together; the paths are
those of `P`. -/
theorem createDirAll_induct_on {R : FileSystem → FileSystem → Prop} {P : Path → Prop} (hrefl : ∀ fs, R fs fs)
    (htrans : ∀ {fs fs' fs''}, R fs fs' → R fs' fs'' → R fs fs'') (hparent : ∀ {p q}, P p → p.parent = some q → P q)
    (hmkdir : ∀ {fs fs' p}, P p → fs.mkdir p = .ok fs' → R fs fs') (fails blind : Nat → Bool → Bool) (depth : Nat)
    (fs : FileSystem) {p : Path} (hp : P p) : R fs (createDirAll fails blind depth fs p).2 := by
  induction depth generalizing fs p with
  | zero => exact hrefl fs
  | succ depth ih =>
    have htry : ∀ (b : Bool) (fs fs' : FileSystem),
        (if fails depth b then .error .Fault else fs.mkdir p) = Except.ok fs' → R fs fs' := by
      intro b fs fs' h
      split at h
      · cases h
      · exact hmkdir hp h
    unfold createDirAll
    split
    · exact hrefl fs
    · rename_i parent hq
      split
      · rename_i fs' h
        exact htry false fs fs' h
      · have habove := ih fs (hparent hp hq)
        split
        · rename_i fs' h
          rw [h] at habove
          exact habove
        · rename_i fs' h
          rw [h] at habove
          split
          · rename_i fs'' h'
            exact htrans habove (htry true fs' fs'' h')
          · split <;> exact habove
      · split <;> exact hrefl fs

theorem createDirAll_induct {R : FileSystem → FileSystem → Prop} (hrefl : ∀ fs, R fs fs)
    (htrans : ∀ {fs fs' fs''}, R fs fs' → R fs' fs'' → R fs fs'') (hmkdir : ∀ {fs fs' p}, fs.mkdir p = .ok fs' → R fs fs')
    (fails blind : Nat → Bool → Bool) (depth : Nat) (fs : FileSystem) (p : Path) :
    R fs (createDirAll fails blind depth fs p).2 :=
  createDirAll_induct_on (P := fun _ => True) hrefl htrans (fun _ _ => trivial) (fun _ => hmkdir) fails blind depth fs
    trivial

/-- Nothing has changed but that directories were made. -/
def MakesDirs (fs fs' : FileSystem) : Prop :=
  ∀ loc, fs'.entry loc = fs.entry loc ∨ fs.entry loc = none ∧ fs'.entry loc = some .Directory

theorem MakesDirs.refl (fs : FileSystem) : MakesDirs fs fs := fun _ => .inl rfl

theorem MakesDirs.trans {fs fs' fs'' : FileSystem} (h : MakesDirs fs fs') (h' : MakesDirs fs' fs'') : MakesDirs fs fs'' := by
  intro loc
  rcases h loc with hl | ⟨hn, hd⟩
  · rw [← hl]
    exact h' loc
  · rcases h' loc with hl' | ⟨hn', -⟩
    · exact .inr ⟨hn, hl'.trans hd⟩
    · rw [hd] at hn'
      cases hn'

/-- What is there stays. -/
theorem MakesDirs.keeps {fs fs' : FileSystem} (h : MakesDirs fs fs') {loc : Location} {e : Entry}
    (he : fs.entry loc = some e) : fs'.entry loc = some e := by
  rcases h loc with hl | ⟨hn, -⟩
  · exact hl.trans he
  · rw [he] at hn
    cases hn

theorem MakesDirs.socket {fs fs' : FileSystem} (h : MakesDirs fs fs') {loc : Location} {inode mode : Nat}
    (he : fs'.entry loc = some (.Socket inode mode)) : fs.entry loc = some (.Socket inode mode) := by
  rcases h loc with hl | ⟨-, hd⟩
  · exact hl.symm.trans he
  · rw [he] at hd
    cases hd

theorem mkdir_makesDirs {fs fs' : FileSystem} {p : Path} (h : fs.mkdir p = .ok fs') : MakesDirs fs fs' := by
  obtain ⟨loc, -, hn, hc, -⟩ := mkdir_ok h
  intro l
  by_cases hl : l = loc
  · subst hl
    exact .inr ⟨hn, hc.self⟩
  · exact .inl (hc.other l hl)

theorem bindSocket_grows {fs fs' : FileSystem} {p : Path} {mode inode : Nat}
    (h : fs.bindSocket p mode = .ok (fs', inode)) : Grows fs fs' := by
  obtain ⟨loc, -, hn, hc, rfl, hnext⟩ := bindSocket_ok h
  refine hc.grows (.inl hn) (.inl (.inr ⟨_, _, rfl⟩)) (by omega) ?_
  rintro i m hlt ⟨⟩
  exact absurd hlt (Nat.lt_irrefl _)

/-- Removing a socket, seen from before and from after. -/
theorem unlink_socket {fs fs' : FileSystem} {p : Path} {loc : Location} {inode mode : Nat}
    (hl : fs.locate false p = .ok loc) (he : fs.entry loc = some (.Socket inode mode)) (h : fs.unlink p = .ok fs') :
    Changed fs loc none fs' ∧ Grows fs fs' ∧ Extends fs' fs ∧ fs'.next = fs.next := by
  obtain ⟨loc', hl', -, hc, hnext⟩ := unlink_ok h
  rw [hl] at hl'
  cases hl'
  have hspot : Spot (fs.entry loc) := .inr ⟨inode, mode, he⟩
  exact ⟨hc, hc.grows hspot (.inl (.inl rfl)) (Nat.le_of_eq hnext.symm) (by rintro _ _ _ ⟨⟩),
    hc.extends_back hspot (.inl rfl), hnext⟩

theorem chmod_grows {fs fs' : FileSystem} {p : Path} {mode : Nat} (h : fs.chmod p mode = .ok fs') :
    Grows fs fs' ∧ Grows fs' fs := by
  obtain ⟨hnext, rfl | ⟨loc, inode, old, he, hc⟩⟩ := chmod_ok h
  · exact ⟨.refl fs', .refl fs'⟩
  · have hback : Changed fs' loc (some (.Socket inode old)) fs := ⟨he, fun l hl => (hc.other l hl).symm, hc.cwd.symm⟩
    refine ⟨hc.grows (.inr ⟨_, _, he⟩) (.inl (.inr ⟨_, _, rfl⟩)) (Nat.le_of_eq hnext.symm) ?_,
      hback.grows (.inr ⟨_, _, hc.self⟩) (.inl (.inr ⟨_, _, rfl⟩)) (Nat.le_of_eq hnext) ?_⟩
    · rintro i m hlt ⟨⟩
      exact ⟨old, he⟩
    · rintro i m hlt ⟨⟩
      exact ⟨mode, hc.self⟩

end FileSystem

end Systems
