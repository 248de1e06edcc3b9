import TriadRuntime.Systems.Runs
import TriadRuntime.Systems.FileSystem
import TriadRuntime.RequestGate
/-!
# Socket files (`process.rs`, `daemon.rs`, `async_runtime.rs`)

A Unix listener clears its path, binds a socket there, sets its mode and is then
given a guard (`BoundSocketFile`, `AsyncSocketFile`) that clears the path again
when it is dropped. Any call on the way may fail; which do is part of the input.

Trusted: `std::fs` and the kernel as in `Systems.FileSystem`; a value is dropped
when the function that owns it returns, panics or, if it is a future, is
dropped; the elements of a vector are dropped in order.
-/

open Systems

namespace TriadRuntime

/-! ## Paths a runtime may use -/

inductive SocketPathSource where
  | ConfigurationField (field : String)
  | Default (field : String)
  | EnvironmentOverride (variable_ value : String)
  | RuntimeDirectory (variable_ value field : String)
deriving DecidableEq, Repr

inductive RuntimePathErrorKind where
  | Empty
  | Relative
  | ParentDirectory
deriving DecidableEq, Repr

structure RuntimePathError where
  path_source : SocketPathSource
  value : String
  kind : RuntimePathErrorKind
deriving DecidableEq, Repr

/-- The error shows the path, as text. -/
def RuntimePathError.new (source : SocketPathSource) (path : Path) (kind : RuntimePathErrorKind) : RuntimePathError :=
  ⟨source, from_utf8_lossy path, kind⟩

structure AbsoluteRuntimePath where
  path : Path
  absolute : path.isAbsolute = true
  no_parent : path.components.any (· = .ParentDir) = false
deriving DecidableEq, Repr

namespace AbsoluteRuntimePath

def try_new (source : SocketPathSource) (path : Path) : Except RuntimePathError AbsoluteRuntimePath :=
  if path = [] then .error (.new source path .Empty)
  else if habs : path.isAbsolute = true then
    if hno : path.components.any (· = .ParentDir) = false then .ok ⟨path, habs, hno⟩
    else .error (.new source path .ParentDirectory)
  else .error (.new source path .Relative)

/-- Why no runtime may use a path. -/
inductive Invalid : Path → RuntimePathErrorKind → Prop where
  | empty : Invalid [] .Empty
  | relative {path : Path} : path ≠ [] → path.isAbsolute = false → Invalid path .Relative
  | parent_directory {path : Path} : path.isAbsolute = true → .ParentDir ∈ path.components → Invalid path .ParentDirectory

theorem no_parentDir (p : AbsoluteRuntimePath) : .ParentDir ∉ p.path.components := by
  intro hmem
  have := List.any_eq_false.1 p.no_parent _ hmem
  simp at this

theorem Invalid.not_valid {path : Path} {kind : RuntimePathErrorKind} (h : Invalid path kind) (p : AbsoluteRuntimePath) :
    p.path ≠ path := by
  intro heq
  have habs : path.isAbsolute = true := heq ▸ p.absolute
  have hno : .ParentDir ∉ path.components := heq ▸ p.no_parentDir
  cases h with
  | empty => cases habs
  | relative _ hrel =>
    rw [hrel] at habs
    cases habs
  | parent_directory _ hmem => exact hno hmem

theorem Invalid.unique {path : Path} {kind kind' : RuntimePathErrorKind} (h : Invalid path kind) (h' : Invalid path kind') :
    kind = kind' := by
  cases h with
  | empty =>
    cases h' with
    | empty => rfl
    | relative hne => exact absurd rfl hne
    | parent_directory habs => cases habs
  | relative hne hrel =>
    cases h' with
    | empty => exact absurd rfl hne
    | relative => rfl
    | parent_directory habs =>
      rw [hrel] at habs
      cases habs
  | parent_directory habs =>
    cases h' with
    | empty => cases habs
    | relative _ hrel =>
      rw [hrel] at habs
      cases habs
    | parent_directory => rfl

/-- Only emptiness, the root and the climbing components of a path matter. -/
theorem Invalid.of_alike {path path' : Path} {kind : RuntimePathErrorKind} (hempty : path = [] ↔ path' = [])
    (habs : path.isAbsolute = path'.isAbsolute) (hparent : .ParentDir ∈ path.components ↔ .ParentDir ∈ path'.components)
    (h : Invalid path kind) : Invalid path' kind := by
  cases h with
  | empty =>
    rw [hempty.1 rfl]
    exact .empty
  | relative hne hrel => exact .relative (mt hempty.2 hne) (habs ▸ hrel)
  | parent_directory h hmem => exact .parent_directory (habs ▸ h) (hparent.1 hmem)

theorem try_new_cases (source : SocketPathSource) (path : Path) :
    (∃ p, try_new source path = .ok p ∧ p.path = path) ∨
    ∃ kind, try_new source path = .error (.new source path kind) ∧ Invalid path kind := by
  unfold try_new
  split
  · rename_i hempty
    subst hempty
    exact .inr ⟨_, rfl, .empty⟩
  · rename_i hne
    split
    · rename_i habs
      split
      · exact .inl ⟨_, rfl, rfl⟩
      · rename_i hany
        rw [Bool.not_eq_false, List.any_eq_true] at hany
        obtain ⟨c, hmem, hc⟩ := hany
        exact .inr ⟨_, rfl, .parent_directory habs (of_decide_eq_true hc ▸ hmem)⟩
    · exact .inr ⟨_, rfl, .relative hne (Bool.eq_false_iff.2 ‹_›)⟩

theorem try_new_ok_iff {source : SocketPathSource} {path : Path} {p : AbsoluteRuntimePath} :
    try_new source path = .ok p ↔ p.path = path := by
  rcases try_new_cases source path with ⟨q, hq, hpath⟩ | ⟨kind, herror, hkind⟩
  · rw [hq, Except.ok.injEq, ← hpath]
    exact ⟨fun h => h ▸ rfl, fun h => by cases p; cases q; cases h; rfl⟩
  · rw [herror]
    exact iff_of_false (fun h => by cases h) (hkind.not_valid p)

theorem try_new_error_iff {source : SocketPathSource} {path : Path} {e : RuntimePathError} :
    try_new source path = .error e ↔ ∃ kind, Invalid path kind ∧ e = .new source path kind := by
  rcases try_new_cases source path with ⟨p, hp, hpath⟩ | ⟨kind, herror, hkind⟩
  · rw [hp]
    refine iff_of_false (fun h => by cases h) ?_
    rintro ⟨kind, hkind, -⟩
    exact hkind.not_valid p hpath
  · rw [herror, Except.error.injEq]
    constructor
    · rintro rfl
      exact ⟨kind, hkind, rfl⟩
    · rintro ⟨kind', hkind', rfl⟩
      rw [hkind.unique hkind']

theorem invalid_iff {path : Path} :
    (∃ kind, Invalid path kind) ↔ path = [] ∨ path.isAbsolute = false ∨ .ParentDir ∈ path.components := by
  constructor
  · rintro ⟨kind, h⟩
    cases h with
    | empty => exact .inl rfl
    | relative _ hrel => exact .inr (.inl hrel)
    | parent_directory _ hmem => exact .inr (.inr hmem)
  · intro h
    rcases try_new_cases (.Default "") path with ⟨p, -, rfl⟩ | ⟨kind, -, hkind⟩
    · have habs := p.absolute
      rcases h with hempty | hrel | hmem
      · rw [hempty] at habs
        cases habs
      · rw [hrel] at habs
        cases habs
      · exact absurd hmem p.no_parentDir
    · exact ⟨kind, hkind⟩

end AbsoluteRuntimePath

/-! ## Calls that may fail -/

inductive FsCall where
  | mkdir (depth : Nat) (again : Bool)
  /-- `is_dir`, after `mkdir` has failed. -/
  | metadata (depth : Nat) (again : Bool)
  | symlink_metadata
  | remove_file
  | bind
  /-- `listen`, or registering the listener with the reactor: the file is there. -/
  | listen
  | set_permissions
  | set_nonblocking
deriving DecidableEq, Repr

/-- The calls that fail for a reason of their own. -/
abbrev Faults := FsCall → Bool

def noFaults : Faults := fun _ => false

def Faults.call {α : Type} (faults : Faults) (c : FsCall) (result : Except FsError α) : Except FsError α :=
  if faults c then .error .Fault else result

/-! ## Preparing and clearing a path -/

inductive ExistingRuntimePathKind where
  | Socket
  | RegularFile
  | Directory
  | Symlink
  | Other
deriving DecidableEq, Repr

def ExistingRuntimePathKind.from_file_type : Entry → ExistingRuntimePathKind
  | .Socket _ _ => .Socket
  | .RegularFile _ => .RegularFile
  | .Directory => .Directory
  | .Symlink _ => .Symlink
  | .Other _ => .Other

def ExistingRuntimePathKind.is_socket (kind : ExistingRuntimePathKind) : Bool := kind = .Socket

inductive RuntimeSocketFileError where
  | RuntimePath (error : RuntimePathError)
  | Io (error : FsError)
  | NonSocketPath (path : Path) (kind : ExistingRuntimePathKind)
deriving DecidableEq, Repr

structure RuntimeSocketFile where
  path : Path
deriving DecidableEq, Repr

namespace RuntimeSocketFile

def create_parent_directory (faults : Faults) (fs : FileSystem) (f : RuntimeSocketFile) :
    Except RuntimeSocketFileError Unit × FileSystem :=
  match f.path.parent with
  | none => (.ok (), fs)
  | some parent =>
    match fs.createDirAll (fun depth again => faults (.mkdir depth again))
      (fun depth again => faults (.metadata depth again)) parent.components.length parent with
    | (.ok (), fs) => (.ok (), fs)
    | (.error e, fs) => (.error (.Io e), fs)

def remove_stale_socket (faults : Faults) (fs : FileSystem) (f : RuntimeSocketFile) :
    Except RuntimeSocketFileError Unit × FileSystem :=
  match faults.call .symlink_metadata (fs.lstat f.path) with
  | .ok metadata =>
    let kind := ExistingRuntimePathKind.from_file_type metadata
    if kind.is_socket then
      match faults.call .remove_file (fs.unlink f.path) with
      | .ok fs => (.ok (), fs)
      | .error e => (.error (.Io e), fs)
    else (.error (.NonSocketPath f.path kind), fs)
  | .error .NotFound => (.ok (), fs)
  | .error e => (.error (.Io e), fs)

def prepare (faults : Faults) (fs : FileSystem) (f : RuntimeSocketFile) :
    Except RuntimeSocketFileError Unit × FileSystem :=
  match AbsoluteRuntimePath.try_new (.Default "listener socket path") f.path with
  | .error e => (.error (.RuntimePath e), fs)
  | .ok _ =>
    match f.create_parent_directory faults fs with
    | (.error e, fs) => (.error e, fs)
    | (.ok (), fs) => f.remove_stale_socket faults fs

/-- What the guards do when they are dropped. It looks at the kind of the file,
not at whose socket it is. -/
def remove_socket_if_current (faults : Faults) (fs : FileSystem) (f : RuntimeSocketFile) : FileSystem :=
  match faults.call .symlink_metadata (fs.lstat f.path) with
  | .error _ => fs
  | .ok metadata =>
    if (ExistingRuntimePathKind.from_file_type metadata).is_socket then
      match faults.call .remove_file (fs.unlink f.path) with
      | .ok fs => fs
      | .error _ => fs
    else fs

end RuntimeSocketFile

/-! ## Binding a socket -/

/-- `ListenerError` and `AsyncListenerError`, as far as `bind` returns them. -/
inductive BindError where
  | Io (error : FsError)
  | RuntimeSocketFile (error : RuntimeSocketFileError)
deriving DecidableEq, Repr

/-- `BoundSocketPath` and `AsyncSocketPath`. -/
structure SocketPath where
  path : Path
  socket_mode : Option Nat
deriving DecidableEq, Repr

/-- The file system after a bind, the socket it has made (for the theorems
only), and its result. -/
structure SocketBind where
  fs : FileSystem
  made : Option Nat
  result : Except BindError Unit

namespace SocketPath

def apply_socket_mode (faults : Faults) (fs : FileSystem) (p : SocketPath) : Except FsError FileSystem :=
  match p.socket_mode with
  | none => .ok fs
  | some mode => faults.call .set_permissions (fs.chmod p.path mode)

/-- `BoundSocketPath::bind_listener` and `AsyncSocketPath::bind`, which are the
same text. `umask` is the mode a new socket gets. -/
def bind (umask : Nat) (faults : Faults) (fs : FileSystem) (p : SocketPath) : SocketBind :=
  match (RuntimeSocketFile.mk p.path).prepare faults fs with
  | (.error e, fs) => ⟨fs, none, .error (.RuntimeSocketFile e)⟩
  | (.ok (), fs) =>
    match faults.call .bind (fs.bindSocket p.path umask) with
    | .error e => ⟨fs, none, .error (.Io e)⟩
    | .ok (fs, inode) =>
      if faults .listen then ⟨fs, some inode, .error (.Io .Fault)⟩
      else
        match p.apply_socket_mode faults fs with
        | .error e => ⟨fs, some inode, .error (.Io e)⟩
        | .ok fs => ⟨fs, some inode, .ok ()⟩

end SocketPath

/-- `BoundSocketFile` and `AsyncSocketFile`: the path, and for the theorems only
the socket that was bound there. -/
structure BoundSocketFile where
  path : Path
  inode : Nat
deriving DecidableEq, Repr

/-- `Drop`. Its calls do not fail. -/
def BoundSocketFile.drop (fs : FileSystem) (g : BoundSocketFile) : FileSystem :=
  (RuntimeSocketFile.mk g.path).remove_socket_if_current noFaults fs

/-! ## What they change -/

theorem Faults.call_ok {α : Type} {faults : Faults} {c : FsCall} {result : Except FsError α} {a : α}
    (h : faults.call c result = .ok a) : result = .ok a := by
  unfold Faults.call at h
  split at h
  · cases h
  · exact h

theorem Faults.call_succeeds {α : Type} {faults : Faults} {c : FsCall} {result : Except FsError α} {a : α}
    (h : faults.call c result = .ok a) : faults c = false := by
  unfold Faults.call at h
  split at h
  · cases h
  · exact Bool.eq_false_iff.2 ‹_›

theorem is_socket_iff {e : Entry} :
    (ExistingRuntimePathKind.from_file_type e).is_socket = true ↔ ∃ inode mode, e = .Socket inode mode := by
  cases e <;> simp [ExistingRuntimePathKind.from_file_type, ExistingRuntimePathKind.is_socket]

namespace RuntimeSocketFile

theorem create_parent_directory_induct {R : FileSystem → FileSystem → Prop} (hrefl : ∀ fs, R fs fs)
    (htrans : ∀ {fs fs' fs''}, R fs fs' → R fs' fs'' → R fs fs'') (hmkdir : ∀ {fs fs' p}, fs.mkdir p = .ok fs' → R fs fs')
    (faults : Faults) (fs : FileSystem) (f : RuntimeSocketFile) : R fs (f.create_parent_directory faults fs).2 := by
  unfold create_parent_directory
  split
  · exact hrefl fs
  · rename_i parent _
    have h := FileSystem.createDirAll_induct hrefl htrans hmkdir (fun depth again => faults (.mkdir depth again))
      (fun depth again => faults (.metadata depth again))
      parent.components.length fs parent
    split
    · rename_i fs' hfs
      rw [hfs] at h
      exact h
    · rename_i e fs' hfs
      rw [hfs] at h
      exact h

theorem create_parent_directory_grows (faults : Faults) (fs : FileSystem) (f : RuntimeSocketFile) :
    fs.Grows (f.create_parent_directory faults fs).2 :=
  create_parent_directory_induct FileSystem.Grows.refl FileSystem.Grows.trans FileSystem.mkdir_grows faults fs f

/-- A stale socket goes, and nothing else changes. -/
theorem remove_stale_socket_cases (faults : Faults) (fs : FileSystem) (f : RuntimeSocketFile) :
    (f.remove_stale_socket faults fs).2 = fs ∨
    ∃ loc inode mode, fs.locate false f.path = .ok loc ∧ fs.entry loc = some (.Socket inode mode) ∧
      fs.unlink f.path = .ok (f.remove_stale_socket faults fs).2 := by
  unfold remove_stale_socket
  split
  · rename_i metadata hm
    simp only
    by_cases hs : (ExistingRuntimePathKind.from_file_type metadata).is_socket = true
    · rw [if_pos hs]
      split
      · rename_i fs' hu
        obtain ⟨inode, mode, rfl⟩ := is_socket_iff.1 hs
        obtain ⟨loc, hl, he⟩ := FileSystem.lstat_ok.1 (Faults.call_ok hm)
        exact .inr ⟨loc, inode, mode, hl, he, Faults.call_ok hu⟩
      · exact .inl rfl
    · rw [if_neg hs]
      exact .inl rfl
  · exact .inl rfl
  · exact .inl rfl

theorem remove_stale_socket_grows (faults : Faults) (fs : FileSystem) (f : RuntimeSocketFile) :
    fs.Grows (f.remove_stale_socket faults fs).2 ∧ FileSystem.Extends (f.remove_stale_socket faults fs).2 fs := by
  rcases f.remove_stale_socket_cases faults fs with h | ⟨loc, inode, mode, hl, he, hu⟩
  · rw [h]
    exact ⟨.refl fs, .refl fs⟩
  · obtain ⟨-, hg, hx, -⟩ := FileSystem.unlink_socket hl he hu
    exact ⟨hg, hx⟩

theorem prepare_grows (faults : Faults) (fs : FileSystem) (f : RuntimeSocketFile) :
    fs.Grows (f.prepare faults fs).2 := by
  unfold prepare
  split
  · exact .refl fs
  · have h := create_parent_directory_grows faults fs f
    split
    · rename_i e fs' hfs
      rw [hfs] at h
      exact h
    · rename_i fs' hfs
      rw [hfs] at h
      exact h.trans (remove_stale_socket_grows faults fs' f).1

theorem create_parent_directory_makesDirs (faults : Faults) (fs : FileSystem) (f : RuntimeSocketFile) :
    fs.MakesDirs (f.create_parent_directory faults fs).2 :=
  create_parent_directory_induct FileSystem.MakesDirs.refl FileSystem.MakesDirs.trans FileSystem.mkdir_makesDirs faults
    fs f

/-- The path is one a runtime may use, its directories are there or are made in
`fs'`, it leads to the socket `inode` then, and neither `symlink_metadata` nor
`remove_file` fails. -/
structure LeadsTo (faults : Faults) (fs : FileSystem) (f : RuntimeSocketFile) (fs' : FileSystem) (loc : Location)
    (inode mode : Nat) : Prop where
  valid : ∃ path, AbsoluteRuntimePath.try_new (.Default "listener socket path") f.path = .ok path
  parent : f.create_parent_directory faults fs = (.ok (), fs')
  located : fs'.locate false f.path = .ok loc
  socket : fs'.entry loc = some (.Socket inode mode)
  lstats : faults .symlink_metadata = false
  unlinks : faults .remove_file = false

theorem prepare_leadsTo {faults : Faults} {fs fs' : FileSystem} {f : RuntimeSocketFile} {loc : Location}
    {inode mode : Nat} (h : f.LeadsTo faults fs fs' loc inode mode) :
    fs'.unlink f.path = .ok (f.prepare faults fs).2 := by
  obtain ⟨path, hvalid⟩ := h.valid
  have hstat := FileSystem.lstat_ok.2 ⟨loc, h.located, h.socket⟩
  obtain ⟨fs'', hunlink⟩ := FileSystem.unlink_of_lstat hstat (by simp)
  have hsocket : (ExistingRuntimePathKind.from_file_type (.Socket inode mode)).is_socket = true :=
    is_socket_iff.2 ⟨inode, mode, rfl⟩
  simp [prepare, hvalid, h.parent, remove_stale_socket, Faults.call, h.lstats, h.unlinks, hstat, hsocket, hunlink]

/-- `prepare` makes directories, and then it unlinks a socket or does nothing. -/
theorem prepare_cases (faults : Faults) (fs : FileSystem) (f : RuntimeSocketFile) :
    fs.MakesDirs (f.prepare faults fs).2 ∨ ∃ fs' loc inode mode, f.LeadsTo faults fs fs' loc inode mode := by
  have hdirs := create_parent_directory_makesDirs faults fs f
  unfold prepare
  cases htry : AbsoluteRuntimePath.try_new (.Default "listener socket path") f.path with
  | error e => exact .inl (.refl fs)
  | ok path =>
    cases hfs : f.create_parent_directory faults fs with
    | mk result fs' =>
      rw [hfs] at hdirs
      cases result with
      | error e => exact .inl hdirs
      | ok =>
        simp only
        unfold remove_stale_socket
        split
        · rename_i metadata hstat
          simp only
          by_cases hs : (ExistingRuntimePathKind.from_file_type metadata).is_socket = true
          · rw [if_pos hs]
            split
            · rename_i fs'' hunlink
              obtain ⟨inode, mode, rfl⟩ := is_socket_iff.1 hs
              obtain ⟨loc, hl, he⟩ := FileSystem.lstat_ok.1 (Faults.call_ok hstat)
              refine .inr ⟨fs', loc, inode, mode, ⟨path, htry⟩, hfs, hl, he, ?_, ?_⟩
              · exact Faults.call_succeeds hstat
              · exact Faults.call_succeeds hunlink
            · exact .inl hdirs
          · rw [if_neg hs]
            exact .inl hdirs
        · exact .inl hdirs
        · exact .inl hdirs

/-- A socket that the path does not lead to stays. -/
theorem prepare_keeps (faults : Faults) (fs : FileSystem) (f : RuntimeSocketFile) {loc : Location} {inode mode : Nat}
    (he : fs.entry loc = some (.Socket inode mode)) (hl : (f.prepare faults fs).2.locate false f.path ≠ .ok loc) :
    (f.prepare faults fs).2.entry loc = some (.Socket inode mode) := by
  rcases f.prepare_cases faults fs with hdirs | ⟨fs', l, i, m, hu⟩
  · exact hdirs.keeps he
  · have hdirs := create_parent_directory_makesDirs faults fs f
    rw [hu.parent] at hdirs
    obtain ⟨hc, hg, -⟩ := FileSystem.unlink_socket hu.located hu.socket (prepare_leadsTo hu)
    have hlater := FileSystem.locate_extends hg.extends_ hu.located
    rw [hc.other loc (by rintro rfl; exact hl hlater)]
    exact hdirs.keeps he

end RuntimeSocketFile

namespace BoundSocketFile

/-- A guard removes the socket its path leads to, if it leads to one. -/
theorem drop_cases (fs : FileSystem) (g : BoundSocketFile) :
    (g.drop fs = fs ∧ ∀ loc inode mode, fs.locate false g.path = .ok loc → fs.entry loc ≠ some (.Socket inode mode)) ∨
    ∃ loc inode mode, fs.locate false g.path = .ok loc ∧ fs.entry loc = some (.Socket inode mode) ∧
      fs.unlink g.path = .ok (g.drop fs) := by
  unfold drop RuntimeSocketFile.remove_socket_if_current
  simp only [Faults.call, noFaults, Bool.false_eq_true, if_false]
  cases hm : fs.lstat g.path with
  | error e =>
    refine .inl ⟨rfl, fun loc inode mode hl he => ?_⟩
    rw [FileSystem.lstat_ok.2 ⟨loc, hl, he⟩] at hm
    cases hm
  | ok metadata =>
    simp only
    by_cases hs : (ExistingRuntimePathKind.from_file_type metadata).is_socket = true
    · rw [if_pos hs]
      obtain ⟨inode, mode, rfl⟩ := is_socket_iff.1 hs
      obtain ⟨loc, hl, he⟩ := FileSystem.lstat_ok.1 hm
      obtain ⟨fs', hu⟩ := FileSystem.unlink_of_lstat hm (by simp)
      simp only [hu]
      exact .inr ⟨loc, inode, mode, hl, he, trivial⟩
    · rw [if_neg hs]
      refine .inl ⟨rfl, fun loc inode mode hl he => hs ?_⟩
      rw [FileSystem.lstat_ok.2 ⟨loc, hl, he⟩] at hm
      cases hm
      exact is_socket_iff.2 ⟨inode, mode, rfl⟩

theorem drop_grows (fs : FileSystem) (g : BoundSocketFile) :
    fs.Grows (g.drop fs) ∧ FileSystem.Extends (g.drop fs) fs := by
  rcases g.drop_cases fs with ⟨h, -⟩ | ⟨loc, inode, mode, hl, he, hu⟩
  · rw [h]
    exact ⟨.refl fs, .refl fs⟩
  · obtain ⟨-, hg, hx, -⟩ := FileSystem.unlink_socket hl he hu
    exact ⟨hg, hx⟩

/-- The sockets that are left after a guard is dropped. -/
theorem drop_sockets (fs : FileSystem) (g : BoundSocketFile) (loc : Location) (inode mode : Nat) :
    (g.drop fs).entry loc = some (.Socket inode mode) ↔
      fs.entry loc = some (.Socket inode mode) ∧ fs.locate false g.path ≠ .ok loc := by
  rcases g.drop_cases fs with ⟨h, hno⟩ | ⟨l, i, m, hl, he, hu⟩
  · rw [h]
    exact ⟨fun hs => ⟨hs, fun hl => hno loc inode mode hl hs⟩, fun hs => hs.1⟩
  · obtain ⟨hc, -⟩ := FileSystem.unlink_socket hl he hu
    by_cases hll : loc = l
    · subst hll
      rw [hc.self]
      simp [hl]
    · rw [hc.other loc hll, hl]
      simp [Ne.symm hll]

end BoundSocketFile

namespace SocketPath

/-- The bind gets as far as making a socket file. -/
def Appears (umask : Nat) (faults : Faults) (fs : FileSystem) (p : SocketPath) : Prop :=
  ∃ fs' made, (RuntimeSocketFile.mk p.path).prepare faults fs = (.ok (), fs') ∧
    faults.call .bind (fs'.bindSocket p.path umask) = .ok made

/-- The file system in which the socket of `p` is bound. -/
def prepared (faults : Faults) (fs : FileSystem) (p : SocketPath) : FileSystem :=
  ((RuntimeSocketFile.mk p.path).prepare faults fs).2

theorem bind_none {umask : Nat} {faults : Faults} {fs : FileSystem} {p : SocketPath}
    (h : (p.bind umask faults fs).made = none) :
    ¬ p.Appears umask faults fs ∧ (p.bind umask faults fs).fs = p.prepared faults fs ∧
      (p.bind umask faults fs).result ≠ .ok () := by
  unfold bind prepared Appears at *
  split at h
  · rename_i e fs' hp
    simp [hp]
  · rename_i fs' hp
    split at h
    · rename_i e hb
      simp [hp, hb]
    · rename_i fs'' inode hb
      split at h
      · cases h
      · split at h <;> cases h

/-- The new socket is where its path leads, and the others are where they were. -/
structure Made (p : SocketPath) (fs fs' : FileSystem) (inode : Nat) (loc : Location) : Prop where
  grows : fs.Grows fs'
  back : FileSystem.Extends fs' fs
  new : inode = fs.next
  located : fs.locate false p.path = .ok loc
  there : ∃ mode, fs'.entry loc = some (.Socket inode mode)
  others : ∀ l i m, fs'.entry l = some (.Socket i m) →
    (l = loc ∧ i = inode) ∨ l ≠ loc ∧ ∃ m', fs.entry l = some (.Socket i m')

theorem bindSocket_made {umask inode : Nat} {fs fs' : FileSystem} {p : SocketPath}
    (h : fs.bindSocket p.path umask = .ok (fs', inode)) : ∃ loc, Made p fs fs' inode loc := by
  obtain ⟨loc, hl, hn, hc, hi, hnext⟩ := FileSystem.bindSocket_ok h
  refine ⟨loc, FileSystem.bindSocket_grows h, hc.extends_back (.inl hn) (.inr ⟨_, _, rfl⟩), hi, hl, ⟨_, hc.self⟩, ?_⟩
  intro l i m he
  by_cases hll : l = loc
  · subst hll
    rw [hc.self] at he
    cases he
    exact .inl ⟨rfl, rfl⟩
  · rw [hc.other l hll] at he
    exact .inr ⟨hll, m, he⟩

theorem made_chmod {inode : Nat} {fs fs' fs'' : FileSystem} {p : SocketPath} {loc : Location} {mode : Nat} {path : Path}
    (hm : Made p fs fs' inode loc) (h : fs'.chmod path mode = .ok fs'') : Made p fs fs'' inode loc := by
  obtain ⟨hg, hb⟩ := FileSystem.chmod_grows h
  obtain ⟨m, hthere⟩ := hm.there
  have hlt := fs'.fresh loc inode m hthere
  refine ⟨hm.grows.trans hg, hb.extends_.trans hm.back, hm.new, hm.located, ?_, ?_⟩
  · exact hb.old loc inode m (Nat.lt_of_lt_of_le hlt hg.next) hthere
  · intro l i m he
    have hi := Nat.lt_of_lt_of_le (fs''.fresh l i m he) hb.next
    obtain ⟨m', he'⟩ := hg.old l i m hi he
    exact hm.others l i m' he'

theorem bind_some {umask : Nat} {faults : Faults} {fs : FileSystem} {p : SocketPath} {inode : Nat}
    (h : (p.bind umask faults fs).made = some inode) :
    p.Appears umask faults fs ∧ ∃ loc, Made p (p.prepared faults fs) (p.bind umask faults fs).fs inode loc := by
  unfold bind prepared Appears at *
  split at h
  · cases h
  · rename_i fs₁ hp
    split at h
    · cases h
    · rename_i fs₂ i hb
      simp only [hp]
      obtain ⟨loc, hm⟩ := bindSocket_made (p := p) (Faults.call_ok hb)
      refine ⟨⟨fs₁, (fs₂, i), rfl, hb⟩, loc, ?_⟩
      by_cases hlisten : faults .listen = true
      · rw [if_pos hlisten] at h ⊢
        cases h
        exact hm
      · rw [if_neg hlisten] at h ⊢
        -- The mode is set, or is not; the socket stays where it is.
        cases hmode : p.apply_socket_mode faults fs₂ with
        | error e =>
          rw [hmode] at h
          cases h
          exact hm
        | ok fs₃ =>
          rw [hmode] at h
          cases h
          unfold apply_socket_mode at hmode
          split at hmode
          · cases hmode
            exact hm
          · exact made_chmod hm (Faults.call_ok hmode)

/-- What was there before the socket was made stays; a mode may have been set. -/
theorem bind_keeps (umask : Nat) (faults : Faults) (fs : FileSystem) (p : SocketPath) {loc : Location} {inode mode : Nat}
    (he : (p.prepared faults fs).entry loc = some (.Socket inode mode)) :
    ∃ mode', (p.bind umask faults fs).fs.entry loc = some (.Socket inode mode') := by
  unfold bind
  unfold prepared at he
  split
  · rename_i e fs' hp
    rw [hp] at he
    exact ⟨mode, he⟩
  · rename_i fs₁ hp
    rw [hp] at he
    split
    · exact ⟨mode, he⟩
    · rename_i fs₂ i hb
      have hnew : fs₂.entry loc = some (.Socket inode mode) := by
        obtain ⟨l, -, hn, hc, -⟩ := FileSystem.bindSocket_ok (Faults.call_ok hb)
        rw [hc.other loc (by rintro rfl; rw [hn] at he; cases he)]
        exact he
      split
      · exact ⟨mode, hnew⟩
      · split
        · exact ⟨mode, hnew⟩
        · rename_i fs₃ hmode
          unfold apply_socket_mode at hmode
          split at hmode
          · cases hmode
            exact ⟨mode, hnew⟩
          · obtain ⟨hg, hb⟩ := FileSystem.chmod_grows (Faults.call_ok hmode)
            exact hb.old loc inode mode (Nat.lt_of_lt_of_le (fs₂.fresh loc inode mode hnew) hg.next) hnew

theorem bind_grows (umask : Nat) (faults : Faults) (fs : FileSystem) (p : SocketPath) :
    fs.Grows (p.bind umask faults fs).fs := by
  have hp := RuntimeSocketFile.prepare_grows faults fs (RuntimeSocketFile.mk p.path)
  cases h : (p.bind umask faults fs).made with
  | none =>
    rw [(bind_none h).2.1]
    exact hp
  | some inode =>
    obtain ⟨-, loc, hm⟩ := bind_some h
    exact hp.trans hm.grows

end SocketPath

/-- The guard's path leads to its own socket. -/
def AtOwn (fs : FileSystem) (g : BoundSocketFile) : Prop :=
  ∃ loc mode, fs.locate false g.path = .ok loc ∧ fs.entry loc = some (.Socket g.inode mode)

/-- Where it does, the clients of the path get to that socket. -/
theorem AtOwn.connect {fs : FileSystem} {g : BoundSocketFile} (h : AtOwn fs g) : fs.connect g.path = .ok g.inode := by
  obtain ⟨loc, mode, hl, he⟩ := h
  exact FileSystem.connect_ok.2 ⟨loc, mode, FileSystem.locate_follow hl (by simp [he]), he⟩

/-! ## Whose socket a guard removes -/

/-- The file system with the guards of the listeners bound in it. -/
structure World where
  fs : FileSystem
  live : List BoundSocketFile

inductive WorldEvent where
  /-- Some daemon binds a listener. -/
  | bind (umask : Nat) (faults : Faults) (socket : SocketPath)
  /-- The listener `i` is dropped. -/
  | drop (i : Nat)
  /-- Somebody else changes files, and leaves `fs`. -/
  | outside (fs : FileSystem)

namespace World

def step (s : World) : WorldEvent → Option World
  | .bind umask faults socket =>
    let b := socket.bind umask faults s.fs
    match b.result, b.made with
    | .ok (), some inode => some ⟨b.fs, s.live ++ [⟨socket.path, inode⟩]⟩
    | _, _ => some { s with fs := b.fs }
  | .drop i =>
    match s.live[i]? with
    | some g => some ⟨g.drop s.fs, s.live.eraseIdx i⟩
    | none => none
  | .outside fs => if s.fs.next ≤ fs.next then some { s with fs := fs } else none

/-- Whatever listener is dropped next, only its own socket goes. -/
def DropsOwn (s : World) : Prop :=
  ∀ g ∈ s.live, ∀ loc, (g.drop s.fs).entry loc ≠ s.fs.entry loc →
    ∃ mode, s.fs.entry loc = some (.Socket g.inode mode)

/-- No path of a live listener leads to a socket that is not the listener's. -/
def Own (fs : FileSystem) (live : List BoundSocketFile) : Prop :=
  ∀ g ∈ live, ∀ loc inode mode, fs.locate false g.path = .ok loc → fs.entry loc = some (.Socket inode mode) →
    inode = g.inode

/-- No other socket is put where the path of a live listener leads: a bind makes
its socket elsewhere, and neither the directories it makes nor what others do
lets the path lead to another socket. -/
def Undisturbed (s : World) : WorldEvent → Prop
  | .bind umask faults socket =>
    Own (socket.prepared faults s.fs) s.live ∧
      (socket.Appears umask faults s.fs → ∀ g ∈ s.live, ∀ loc,
        (socket.prepared faults s.fs).locate false g.path = .ok loc →
        (socket.prepared faults s.fs).locate false socket.path ≠ .ok loc)
  | .drop _ => True
  | .outside fs => Own fs s.live

theorem own_dropsOwn {s : World} (h : Own s.fs s.live) : s.DropsOwn := by
  intro g hg loc hne
  rcases g.drop_cases s.fs with ⟨hsame, -⟩ | ⟨l, inode, mode, hl, he, hu⟩
  · rw [hsame] at hne
    exact absurd rfl hne
  · obtain ⟨hc, -⟩ := FileSystem.unlink_socket hl he hu
    by_cases hll : loc = l
    · subst hll
      exact ⟨mode, h g hg loc inode mode hl he ▸ he⟩
    · exact absurd (hc.other loc hll) hne

/-- A socket made elsewhere leaves the others' paths alone, and its own leads to it. -/
theorem own_made {fs fs' : FileSystem} {p : SocketPath} {inode : Nat} {loc : Location} {live : List BoundSocketFile}
    (hm : SocketPath.Made p fs fs' inode loc) (h : Own fs live)
    (haway : ∀ g ∈ live, ∀ l, fs.locate false g.path = .ok l → fs.locate false p.path ≠ .ok l) :
    Own fs' (live ++ [⟨p.path, inode⟩]) := by
  intro g hg l i mode hl he
  have hl' := FileSystem.locate_extends hm.back hl
  rcases List.mem_append.1 hg with hg | hg
  · rcases hm.others l i mode he with ⟨rfl, -⟩ | ⟨-, m', he'⟩
    · exact absurd hm.located (haway g hg l hl')
    · exact h g hg l i m' hl' he'
  · rw [List.mem_singleton.1 hg] at hl' ⊢
    rw [hm.located] at hl'
    cases hl'
    rcases hm.others loc i mode he with ⟨-, hi⟩ | ⟨hne, -⟩
    · exact hi
    · exact absurd rfl hne

theorem own_step {s t : World} {event : WorldEvent} (h : Own s.fs s.live) (hc : s.Undisturbed event)
    (hstep : s.step event = some t) : Own t.fs t.live := by
  cases event with
  | bind umask faults socket =>
    obtain ⟨hown, haway⟩ := hc
    simp only [step] at hstep
    cases hmade : (socket.bind umask faults s.fs).made with
    | none =>
      have hfs := (SocketPath.bind_none hmade).2.1
      simp only [hmade, hfs] at hstep
      split at hstep
      · rename_i hsome
        cases hsome
      · cases hstep
        exact hown
    | some inode =>
      obtain ⟨happears, loc, hm⟩ := SocketPath.bind_some hmade
      have hnew := own_made hm hown (haway happears)
      simp only [hmade] at hstep
      split at hstep
      · rename_i hsome
        cases hsome
        cases hstep
        exact hnew
      · cases hstep
        exact fun g hg => hnew g (List.mem_append_left _ hg)
  | drop i =>
    simp only [step] at hstep
    split at hstep
    · rename_i g hg
      cases hstep
      intro x hx loc inode mode hl he
      have hx' := List.mem_of_mem_eraseIdx hx
      exact h x hx' loc inode mode (FileSystem.locate_extends (g.drop_grows s.fs).2 hl)
        ((g.drop_sockets s.fs loc inode mode).1 he).1
    · cases hstep
  | outside fs =>
    simp only [step, Option.ite_none_right_eq_some, Option.some.injEq] at hstep
    obtain ⟨-, rfl⟩ := hstep
    exact hc

/-- In a run where no other socket is put at the path of a live listener, each
listener that is dropped removes its own socket or nothing. -/
theorem drops_only_own (fs : FileSystem) (events : List WorldEvent) (s : World)
    (hc : Along step Undisturbed ⟨fs, []⟩ events) (hrun : exec step ⟨fs, []⟩ events = some s) : s.DropsOwn := by
  have hown : Own s.fs s.live := by
    refine exec_invariant_along (fun s => Own s.fs s.live) (fun s event t h hc hs => own_step h hc hs) hc hrun ?_
    intro g hg
    cases hg
  exact own_dropsOwn hown

/-- `/s` -/
def slashS : SocketPath := ⟨[47, 115], none⟩

/-- `/t` -/
def slashT : SocketPath := ⟨[47, 116], none⟩

/-- Two listeners that do not share a path. -/
def twoPaths : List WorldEvent := [.bind 0o755 noFaults slashS, .bind 0o755 noFaults slashT]

theorem drops_only_own_twoPaths :
    ∃ s, exec step ⟨.bare, []⟩ twoPaths = some s ∧ s.live.length = 2 ∧ s.DropsOwn := by
  refine ⟨_, rfl, rfl, drops_only_own .bare twoPaths _ ?_ rfl⟩
  have hfirst : Undisturbed ⟨.bare, []⟩ (.bind 0o755 noFaults slashS) := by
    constructor
    · intro g hg
      cases hg
    · intro _ g hg
      cases hg
  have hsecond : ∀ t, step ⟨.bare, []⟩ (.bind 0o755 noFaults slashS) = some t →
      t.Undisturbed (.bind 0o755 noFaults slashT) := by
    rintro t ⟨⟩
    constructor
    · intro g hg loc inode mode hl he
      cases List.mem_singleton.1 hg
      cases hl
      cases he
      rfl
    · intro _ g hg loc hl
      cases List.mem_singleton.1 hg
      cases hl
      decide
  exact ⟨hfirst, fun t ht => ⟨hsecond t ht, fun _ _ => trivial⟩⟩

/-- A binds `/s`, B binds `/s`, and dropping A takes B's socket away. -/
theorem drop_removes_successor :
    ¬ ∀ (fs : FileSystem) (s : World), Reaches step ⟨fs, []⟩ s → s.DropsOwn := by
  intro hclaim
  have hrun : ∃ s, exec step ⟨.bare, []⟩ [.bind 0o755 noFaults slashS, .bind 0o755 noFaults slashS] = some s ∧
      s.live = [⟨slashS.path, 0⟩, ⟨slashS.path, 1⟩] ∧ s.fs.entry [[115]] = some (.Socket 1 0o755) ∧
      (BoundSocketFile.drop s.fs ⟨slashS.path, 0⟩).entry [[115]] = none :=
    ⟨_, rfl, rfl, rfl, rfl⟩
  obtain ⟨s, hexec, hlive, hthere, hgone⟩ := hrun
  obtain ⟨mode, howner⟩ := hclaim .bare s ⟨_, hexec⟩ ⟨slashS.path, 0⟩ (by simp [hlive]) [[115]] (by simp [hthere, hgone])
  rw [hthere] at howner
  cases howner

end World

end TriadRuntime
