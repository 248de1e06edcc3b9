import TriadRuntime.Preparation
import TriadRuntime.Trace
/-!
# The trace listener's file (`trace.rs`)

`TraceSocketListener::bind` and its `Drop` clear the path with a plain
`remove_file`, where the daemon's listeners (`RuntimeSocketFile`) look at the
kind of the file first. Paths are not validated here: a relative path is walked
from the current directory.

Trusted: `std::fs` and the kernel as in `Systems.FileSystem`; a socket bound to
an empty path gets a name of its own and no file.
-/

open Systems

namespace TriadRuntime

/-- The kind under which `std` reports an error. -/
def FsError.kind : FsError → ErrorKind
  | .NotFound => .NotFound
  | _ => .Other

namespace TraceSocketListener

/-- `if let Some(parent) = path.parent()`. -/
def create_parent (faults : Faults) (fs : FileSystem) (path : Path) : Except FsError Unit × FileSystem :=
  match path.parent with
  | none => (.ok (), fs)
  | some parent =>
    fs.createDirAll (fun depth again => faults (.mkdir depth again)) (fun depth again => faults (.metadata depth again))
      parent.components.length parent

/-- `UnixListener::bind`, then `set_nonblocking`. -/
def listen (umask : Nat) (faults : Faults) (fs : FileSystem) (path : Path) : Except TraceError Unit × FileSystem :=
  match faults.call .bind (if path = [] then .ok fs else (fs.bindSocket path umask).map Prod.fst) with
  | .error e => (.error (.Io (FsError.kind e)), fs)
  | .ok fs =>
    if faults .listen then (.error (.Io .Other), fs)
    else if faults .set_nonblocking then (.error (.Io .Other), fs)
    else (.ok (), fs)

def bind (umask : Nat) (faults : Faults) (fs : FileSystem) (path : Path) : Except TraceError Unit × FileSystem :=
  match create_parent faults fs path with
  | (.error e, fs) => (.error (.Io (FsError.kind e)), fs)
  | (.ok (), fs) =>
    match faults.call .remove_file (fs.unlink path) with
    | .ok fs => listen umask faults fs path
    | .error .NotFound => listen umask faults fs path
    | .error e => (.error (.Io (FsError.kind e)), fs)

/-- `Drop`. -/
def drop (faults : Faults) (fs : FileSystem) (path : Path) : FileSystem :=
  match faults.call .remove_file (fs.unlink path) with
  | .ok fs => fs
  | .error _ => fs

end TraceSocketListener

/-- `symlink_metadata` does not fail; the trace listener does not call it. -/
def Faults.seeing (faults : Faults) : Faults
  | .symlink_metadata => false
  | c => faults c

/-! ## The daemon's rule -/

/-- What is no socket stays. -/
def KeepsOthers (fs fs' : FileSystem) : Prop :=
  ∀ loc e, fs.entry loc = some e → (ExistingRuntimePathKind.from_file_type e).is_socket = false → fs'.entry loc = some e

/-- Whatever goes from `fs` to `fs'` also goes to `fs''`. -/
def RemovesOnlyAs (fs fs' fs'' : FileSystem) : Prop :=
  ∀ loc e, fs.entry loc = some e → fs'.entry loc ≠ some e → fs''.entry loc ≠ some e

/-- A bind removes sockets only, and fails if something else is in its way. -/
structure ObeysRule (umask : Nat) (faults : Faults) (fs : FileSystem) (path : Path) : Prop where
  keeps : KeepsOthers fs (TraceSocketListener.bind umask faults fs path).2
  refuses : ∀ e, fs.lstat path = .ok e → (ExistingRuntimePathKind.from_file_type e).is_socket = false →
    (TraceSocketListener.bind umask faults fs path).1 ≠ .ok ()

/-- `remove_file` does not fail by itself, and finds `e`, which is no directory. -/
structure Finds (faults : Faults) (fs : FileSystem) (path : Path) (e : Entry) : Prop where
  called : faults .remove_file = false
  lstats : fs.lstat path = .ok e
  file : e ≠ .Directory

/-- The directories above `path` are there or are made, and `remove_file` finds `e`. -/
structure FindsOnBind (faults : Faults) (fs : FileSystem) (path : Path) (e : Entry) : Prop where
  parents : (TraceSocketListener.create_parent faults fs path).1 = .ok ()
  finds : Finds faults (TraceSocketListener.create_parent faults fs path).2 path e

/-! ## What the calls change -/

namespace TraceSocketListener

theorem create_parent_directory_eq (faults : Faults) (fs : FileSystem) (path : Path) :
    (RuntimeSocketFile.mk path).create_parent_directory faults fs =
      ((create_parent faults fs path).1.mapError .Io, (create_parent faults fs path).2) := by
  unfold RuntimeSocketFile.create_parent_directory create_parent
  cases hparent : path.parent with
  | none => rfl
  | some parent =>
    simp only
    split
    · rename_i hdirs
      rw [hdirs]
      rfl
    · rename_i hdirs
      rw [hdirs]
      rfl

theorem create_parent_makesAncestors (faults : Faults) (fs : FileSystem) (path : Path) :
    RuntimeSocketFile.MakesAncestors path fs (create_parent faults fs path).2 := by
  have h := RuntimeSocketFile.create_parent_directory_makesAncestors faults fs ⟨path⟩
  rw [create_parent_directory_eq] at h
  exact h

/-- A socket is made where nothing was, or nothing is done. -/
theorem listen_changes (umask : Nat) (faults : Faults) (fs : FileSystem) (path : Path) :
    (listen umask faults fs path).2 = fs ∨ ∃ loc, fs.locate false path = .ok loc ∧ fs.entry loc = none ∧
      FileSystem.Changed fs loc (some (.Socket fs.next umask)) (listen umask faults fs path).2 := by
  unfold listen
  split
  · exact .inl rfl
  · rename_i fs' hb
    have hbind := Faults.call_ok hb
    have hmade : fs' = fs ∨ ∃ loc, fs.locate false path = .ok loc ∧ fs.entry loc = none ∧
        FileSystem.Changed fs loc (some (.Socket fs.next umask)) fs' := by
      split at hbind
      · cases hbind
        exact .inl rfl
      · cases hsocket : fs.bindSocket path umask with
        | error e =>
          rw [hsocket] at hbind
          cases hbind
        | ok made =>
          rw [hsocket] at hbind
          cases hbind
          obtain ⟨loc, hl, hn, hc, hnumber, -⟩ := FileSystem.bindSocket_ok hsocket
          exact .inr ⟨loc, hl, hn, hnumber ▸ hc⟩
    split
    · exact hmade
    · split <;> exact hmade

theorem listen_keeps {umask : Nat} {faults : Faults} {fs : FileSystem} {path : Path} {loc : Location} {e : Entry}
    (he : fs.entry loc = some e) : (listen umask faults fs path).2.entry loc = some e := by
  rcases listen_changes umask faults fs path with h | ⟨l, -, hn, hc⟩
  · rw [h]
    exact he
  · rw [hc.other loc (by rintro rfl; rw [hn] at he; cases he)]
    exact he

/-- A new socket does not stand in for what was removed. -/
theorem listen_not_back {umask : Nat} {faults : Faults} {fs : FileSystem} {path : Path} {loc : Location} {e : Entry}
    (hn : fs.entry loc = none) (he : ∀ inode mode, e = .Socket inode mode → inode < fs.next) :
    (listen umask faults fs path).2.entry loc ≠ some e := by
  intro h
  rcases listen_changes umask faults fs path with hsame | ⟨l, -, -, hc⟩
  · rw [hsame, hn] at h
    cases h
  · by_cases hl : loc = l
    · subst hl
      rw [hc.self] at h
      exact absurd (he _ _ (Option.some.inj h).symm) (Nat.lt_irrefl _)
    · rw [hc.other loc hl, hn] at h
      cases h

theorem listen_refuses {umask : Nat} {faults : Faults} {fs : FileSystem} {path : Path} {e : Entry}
    (h : fs.lstat path = .ok e) : (listen umask faults fs path).1 ≠ .ok () := by
  obtain ⟨loc, hl, he⟩ := FileSystem.lstat_ok.1 h
  have hpath : path ≠ [] := by
    rintro rfl
    cases hl
  intro hok
  unfold listen at hok
  split at hok
  · cases hok
  · rename_i fs' hb
    have hbind := Faults.call_ok hb
    rw [if_neg hpath] at hbind
    cases hsocket : fs.bindSocket path umask with
    | error e =>
      rw [hsocket] at hbind
      cases hbind
    | ok made =>
      obtain ⟨loc', hl', hn, -⟩ := FileSystem.bindSocket_ok hsocket
      rw [hl] at hl'
      cases hl'
      rw [he] at hn
      cases hn

/-- What `remove_file` does, by what it finds. -/
theorem remove_file_cases (faults : Faults) (fs : FileSystem) (path : Path) :
    (∃ e fs' loc, faults.call .remove_file (fs.unlink path) = .ok fs' ∧ Finds faults fs path e ∧
      fs.locate false path = .ok loc ∧ fs.entry loc = some e ∧ FileSystem.Changed fs loc none fs' ∧
      fs'.next = fs.next) ∨
    (∃ error, faults.call .remove_file (fs.unlink path) = .error error) ∧ ∀ e, ¬ Finds faults fs path e := by
  cases hcall : faults.call .remove_file (fs.unlink path) with
  | ok fs' =>
    obtain ⟨loc, hl, hd, hc, hnext⟩ := FileSystem.unlink_ok (Faults.call_ok hcall)
    have hthere : fs.entry loc ≠ none := FileSystem.unlink_there (Faults.call_ok hcall) hl
    obtain ⟨e, he⟩ := Option.ne_none_iff_exists'.1 hthere
    refine .inl ⟨e, fs', loc, rfl, ⟨Faults.call_succeeds hcall, FileSystem.lstat_ok.2 ⟨loc, hl, he⟩, ?_⟩, hl, he, hc, hnext⟩
    rintro rfl
    exact hd he
  | error error =>
    refine .inr ⟨⟨error, rfl⟩, fun e h => ?_⟩
    obtain ⟨fs', hu⟩ := FileSystem.unlink_of_lstat h.lstats h.file
    rw [Faults.call, h.called, hu] at hcall
    cases hcall

/-- A bind that finds something removes it; another keeps all there is, and
fails if something is at the path. -/
theorem bind_cases (umask : Nat) (faults : Faults) (fs : FileSystem) (path : Path) :
    (∃ e fs' loc, FindsOnBind faults fs path e ∧ (create_parent faults fs path).2.locate false path = .ok loc ∧
      fs.entry loc = some e ∧ FileSystem.Changed (create_parent faults fs path).2 loc none fs' ∧ fs'.next = fs.next ∧
      (create_parent faults fs path).2.unlink path = .ok fs' ∧
      bind umask faults fs path = listen umask faults fs' path) ∨
    (∀ e, ¬ FindsOnBind faults fs path e) ∧
      (∀ loc e, fs.entry loc = some e → (bind umask faults fs path).2.entry loc = some e) ∧
      ∀ e, fs.lstat path = .ok e → (bind umask faults fs path).1 ≠ .ok () := by
  have hmade := create_parent_makesAncestors faults fs path
  unfold bind
  rcases hparent : create_parent faults fs path with ⟨_ | ⟨⟩, fs₁⟩
  · rename_i error
    rw [hparent] at hmade
    refine .inr ⟨fun e h => ?_, fun loc e he => hmade.keeps he, fun e _ => by simp⟩
    have := h.parents
    rw [hparent] at this
    cases this
  · rw [hparent] at hmade
    simp only
    rcases remove_file_cases faults fs₁ path with ⟨e, fs', loc, hcall, hfinds, hl, he, hc, hnext⟩ | ⟨⟨error, hcall⟩, hnone⟩
    · refine .inl ⟨e, fs', loc, ⟨?_, ?_⟩, hl, hmade.back he hfinds.file, hc, hnext.trans hmade.next,
        Faults.call_ok hcall, ?_⟩
      · rw [hparent]
      · rw [hparent]
        exact hfinds
      · rw [hcall]
    · refine .inr ⟨fun e h => hnone e ?_, ?_, ?_⟩
      · have := h.finds
        rw [hparent] at this
        exact this
      · intro loc e he
        rw [hcall]
        split
        · rename_i hok
          cases hok
        · exact listen_keeps (hmade.keeps he)
        · exact hmade.keeps he
      · intro e hlstat
        obtain ⟨loc, hl, he⟩ := FileSystem.lstat_ok.1 hlstat
        have hlstat₁ : fs₁.lstat path = .ok e :=
          FileSystem.lstat_ok.2 ⟨loc, FileSystem.locate_extends hmade.extends_ hl, hmade.keeps he⟩
        rw [hcall]
        split
        · rename_i hok
          cases hok
        · exact listen_refuses hlstat₁
        · simp

/-- What was found and removed is not there after the bind. -/
theorem bind_removes (umask : Nat) {faults : Faults} {fs : FileSystem} {path : Path} {e : Entry}
    (h : FindsOnBind faults fs path e) : ∃ loc, (create_parent faults fs path).2.locate false path = .ok loc ∧
      fs.entry loc = some e ∧ (bind umask faults fs path).2.entry loc ≠ some e := by
  rcases bind_cases umask faults fs path with ⟨e', fs', loc, h', hl, he, hc, hnext, -, hbind⟩ | ⟨hnone, -⟩
  · have hsame := h.finds.lstats.symm.trans h'.finds.lstats
    cases hsame
    refine ⟨loc, hl, he, ?_⟩
    rw [hbind]
    refine listen_not_back hc.self ?_
    rintro inode mode rfl
    rw [hnext]
    exact fs.fresh loc inode mode he
  · exact absurd h (hnone e)

end TraceSocketListener

/-! ## When the rule holds -/

/-- A bind obeys the daemon's rule just when nothing but a socket or a directory
is found at its path. -/
theorem TraceSocketListener.bind_obeys_iff (umask : Nat) (faults : Faults) (fs : FileSystem) (path : Path) :
    ObeysRule umask faults fs path ↔
      ∀ e, FindsOnBind faults fs path e → (ExistingRuntimePathKind.from_file_type e).is_socket = true := by
  constructor
  · intro h e hfound
    by_contra hs
    obtain ⟨loc, -, he, hgone⟩ := bind_removes umask hfound
    exact hgone (h.keeps loc e he (Bool.eq_false_iff.2 hs))
  · intro hcond
    rcases bind_cases umask faults fs path with ⟨e, fs', loc, h, hl, he, hc, hnext, hu, hbind⟩ | ⟨-, hkeeps, hrefuses⟩
    · have hsocket := hcond e h
      have hmade := create_parent_makesAncestors faults fs path
      constructor
      · intro l e' he' hs
        rw [hbind]
        refine listen_keeps ?_
        rw [hc.other l ?_]
        · exact hmade.keeps he'
        · rintro rfl
          rw [he] at he'
          cases he'
          rw [hsocket] at hs
          cases hs
      · intro e' hlstat hs
        obtain ⟨l, hl', he'⟩ := FileSystem.lstat_ok.1 hlstat
        have := FileSystem.locate_extends hmade.extends_ hl'
        rw [hl] at this
        cases this
        rw [he] at he'
        cases he'
        rw [hsocket] at hs
        cases hs
    · exact ⟨fun loc e he _ => hkeeps loc e he, fun e hlstat _ => hrefuses e hlstat⟩

/-- Directories are made for both alike. -/
theorem create_parent_seeing (faults : Faults) (fs : FileSystem) (path : Path) :
    TraceSocketListener.create_parent faults.seeing fs path = TraceSocketListener.create_parent faults fs path := rfl

/-- What is found is removed by `prepare` too just when it is a socket, and the
path is one a runtime may use. -/
theorem TraceSocketListener.bind_as_prepare_iff (umask : Nat) (faults : Faults) (fs : FileSystem) (path : Path) :
    RemovesOnlyAs fs (bind umask faults fs path).2 ((RuntimeSocketFile.mk path).prepare faults.seeing fs).2 ↔
      ∀ e, FindsOnBind faults fs path e → (ExistingRuntimePathKind.from_file_type e).is_socket = true ∧
        ∃ p, AbsoluteRuntimePath.try_new (.Default "listener socket path") path = .ok p := by
  have hmade := create_parent_makesAncestors faults fs path
  constructor
  · intro h e hfound
    obtain ⟨loc, -, he, hgone⟩ := bind_removes umask hfound
    have hprepare := h loc e he hgone
    constructor
    · by_contra hs
      have hkeeps := RuntimeSocketFile.prepare_prepares faults.seeing fs ⟨path⟩
      exact hprepare (hkeeps.keeps he (Bool.eq_false_iff.2 hs))
    · cases hvalid : AbsoluteRuntimePath.try_new (.Default "listener socket path") path with
      | ok p => exact ⟨p, rfl⟩
      | error error =>
        have hsame : ((RuntimeSocketFile.mk path).prepare faults.seeing fs).2 = fs := by
          simp [RuntimeSocketFile.prepare, hvalid]
        rw [hsame] at hprepare
        exact absurd he hprepare
  · intro hcond loc e he hgone
    rcases bind_cases umask faults fs path with ⟨e', fs', l, h, hl, he', hc, -, hu, hbind⟩ | ⟨-, hkeeps, -⟩
    · have hll : loc = l := by
        by_contra hne
        refine hgone ?_
        rw [hbind]
        refine listen_keeps ?_
        rw [hc.other loc hne]
        exact hmade.keeps he
      subst hll
      obtain ⟨hsocket, hvalid⟩ := hcond e' h
      obtain ⟨inode, mode, rfl⟩ := is_socket_iff.1 hsocket
      have hparent : (RuntimeSocketFile.mk path).create_parent_directory faults.seeing fs =
          (.ok (), (create_parent faults fs path).2) := by
        rw [create_parent_directory_eq, create_parent_seeing, h.parents]
        rfl
      have hunlink := RuntimeSocketFile.prepare_leadsTo (f := ⟨path⟩)
        ⟨hvalid, hparent, hl, hmade.keeps he', rfl, h.finds.called⟩
      rw [hu] at hunlink
      cases hunlink
      rw [hc.self]
      simp
    · exact absurd (hkeeps loc e he) hgone

theorem TraceSocketListener.drop_cases (faults : Faults) (fs : FileSystem) (path : Path) :
    (∃ e loc, Finds faults fs path e ∧ fs.locate false path = .ok loc ∧ fs.entry loc = some e ∧
      FileSystem.Changed fs loc none (drop faults fs path) ∧ fs.unlink path = .ok (drop faults fs path)) ∨
    (∀ e, ¬ Finds faults fs path e) ∧ drop faults fs path = fs := by
  unfold drop
  rcases remove_file_cases faults fs path with ⟨e, fs', loc, hcall, hfinds, hl, he, hc, -⟩ | ⟨⟨error, hcall⟩, hnone⟩
  · rw [hcall]
    exact .inl ⟨e, loc, hfinds, hl, he, hc, Faults.call_ok hcall⟩
  · rw [hcall]
    exact .inr ⟨hnone, rfl⟩

theorem TraceSocketListener.drop_obeys_iff (faults : Faults) (fs : FileSystem) (path : Path) :
    KeepsOthers fs (drop faults fs path) ↔
      ∀ e, Finds faults fs path e → (ExistingRuntimePathKind.from_file_type e).is_socket = true := by
  rcases drop_cases faults fs path with ⟨e, loc, hfinds, hl, he, hc, -⟩ | ⟨hnone, hsame⟩
  · constructor
    · intro h e' hfinds'
      have hsame := hfinds.lstats.symm.trans hfinds'.lstats
      cases hsame
      by_contra hs
      have hkept := h loc e he (Bool.eq_false_iff.2 hs)
      rw [hc.self] at hkept
      cases hkept
    · intro h l e' he' hs
      rw [hc.other l ?_]
      · exact he'
      · rintro rfl
        rw [he] at he'
        cases he'
        rw [h e hfinds] at hs
        cases hs
  · refine iff_of_true ?_ fun e h => absurd h (hnone e)
    intro loc e he _
    rw [hsame]
    exact he

/-- Dropping a listener removes what the daemon's guard would, where that is the rule. -/
theorem TraceSocketListener.drop_as_current_iff (faults : Faults) (fs : FileSystem) (path : Path) :
    RemovesOnlyAs fs (drop faults fs path) ((RuntimeSocketFile.mk path).remove_socket_if_current faults.seeing fs) ↔
      ∀ e, Finds faults fs path e → (ExistingRuntimePathKind.from_file_type e).is_socket = true := by
  rcases drop_cases faults fs path with ⟨e, loc, hfinds, hl, he, hc, hu⟩ | ⟨hnone, hsame⟩
  · constructor
    · intro h e' hfinds'
      have hsame := hfinds.lstats.symm.trans hfinds'.lstats
      cases hsame
      have hgone := h loc e he (by rw [hc.self]; simp)
      have hne : ((RuntimeSocketFile.mk path).remove_socket_if_current faults.seeing fs).entry loc ≠ fs.entry loc := by
        rwa [he]
      obtain ⟨-, inode, mode, hsocket⟩ := RuntimeSocketFile.remove_socket_if_current_changes hne
      rw [he] at hsocket
      cases hsocket
      rfl
    · intro h l e' he' hgone
      have hll : l = loc := by
        by_contra hne
        rw [hc.other l hne] at hgone
        exact hgone he'
      subst hll
      have hsocket := h e hfinds
      have hguard : (RuntimeSocketFile.mk path).remove_socket_if_current faults.seeing fs = drop faults fs path := by
        have hcalled : faults.seeing .remove_file = false := hfinds.called
        simp [RuntimeSocketFile.remove_socket_if_current, Faults.call, Faults.seeing, hfinds.lstats, hsocket,
          hfinds.called, hu]
      rw [hguard, hc.self]
      simp
  · refine iff_of_true ?_ fun e h => absurd h (hnone e)
    intro loc e he hgone
    rw [hsame] at hgone
    exact absurd he hgone

/-- A trace listener follows the daemon's rule for the file at its path just when
nothing but a socket or a directory is found there; that its bind removes only
what `prepare` would takes, when a socket is found, a path a runtime may use
besides. Its drop is judged in whatever state the file system is in by then. -/
theorem trace_file_rule_iff (umask : Nat) (faults : Faults) (fs : FileSystem) (path : Path) :
    (ObeysRule umask faults fs path ↔
      ∀ e, FindsOnBind faults fs path e → (ExistingRuntimePathKind.from_file_type e).is_socket = true) ∧
    (RemovesOnlyAs fs (TraceSocketListener.bind umask faults fs path).2
        ((RuntimeSocketFile.mk path).prepare faults.seeing fs).2 ↔
      ∀ e, FindsOnBind faults fs path e → (ExistingRuntimePathKind.from_file_type e).is_socket = true ∧
        ∃ p, AbsoluteRuntimePath.try_new (.Default "listener socket path") path = .ok p) ∧
    (KeepsOthers fs (TraceSocketListener.drop faults fs path) ↔
      ∀ e, Finds faults fs path e → (ExistingRuntimePathKind.from_file_type e).is_socket = true) ∧
    (RemovesOnlyAs fs (TraceSocketListener.drop faults fs path)
        ((RuntimeSocketFile.mk path).remove_socket_if_current faults.seeing fs) ↔
      ∀ e, Finds faults fs path e → (ExistingRuntimePathKind.from_file_type e).is_socket = true) :=
  ⟨TraceSocketListener.bind_obeys_iff umask faults fs path, TraceSocketListener.bind_as_prepare_iff umask faults fs path,
    TraceSocketListener.drop_obeys_iff faults fs path, TraceSocketListener.drop_as_current_iff faults fs path⟩

/-- A bind at `/f`, where a regular file is, succeeds and leaves its socket in
the file's place; a drop takes such a file away. -/
theorem trace_file_removes_regular_file :
    ¬ ObeysRule 0o755 noFaults RuntimeSocketFile.withFile [47, 102] ∧
      ¬ KeepsOthers RuntimeSocketFile.withFile (TraceSocketListener.drop noFaults RuntimeSocketFile.withFile [47, 102]) := by
  constructor
  · intro h
    have hkept := h.keeps [[102]] (.RegularFile 0) rfl rfl
    have hgone : (TraceSocketListener.bind 0o755 noFaults RuntimeSocketFile.withFile [47, 102]).2.entry [[102]] =
        some (.Socket 0 0o755) := rfl
    rw [hgone] at hkept
    cases hkept
  · intro h
    have hkept := h [[102]] (.RegularFile 0) rfl rfl
    have hgone : (TraceSocketListener.drop noFaults RuntimeSocketFile.withFile [47, 102]).entry [[102]] = none := rfl
    rw [hgone] at hkept
    cases hkept

end TriadRuntime
