import TriadRuntime.Systems.Walks
import TriadRuntime.SocketFile
/-!
# What preparing a path changes (`process.rs`)

`RuntimeSocketFile::prepare` validates its path, makes the directories above it
and removes a socket there; each call may fail after the earlier ones took
effect. In a tree the directories are made only where the path led to nothing,
so a call of `prepare` makes directories or removes the socket, never both.
-/

open Systems

namespace TriadRuntime

/-! ## The steps of `prepare` -/

theorem AbsoluteRuntimePath.try_new_ok {source : SocketPathSource} {path : Path} {p : AbsoluteRuntimePath}
    (h : AbsoluteRuntimePath.try_new source path = .ok p) : path.isAbsolute = true ∧ .ParentDir ∉ path.components := by
  rw [← try_new_ok_iff.1 h]
  exact ⟨p.absolute, p.no_parentDir⟩

namespace RuntimeSocketFile

/-- Directories have been made at places that paths above `p` lead to, and
nothing else has changed. -/
structure MakesAncestors (p : Path) (fs fs' : FileSystem) : Prop where
  extends_ : FileSystem.Extends fs fs'
  next : fs'.next = fs.next
  made : ∀ loc, fs'.entry loc ≠ fs.entry loc →
    fs.entry loc = none ∧ fs'.entry loc = some .Directory ∧ ∃ q, q.Ancestor p ∧ fs'.locate false q = .ok loc

theorem MakesAncestors.refl (p : Path) (fs : FileSystem) : MakesAncestors p fs fs :=
  ⟨.refl fs, rfl, fun _ hne => absurd rfl hne⟩

theorem MakesAncestors.trans {p : Path} {fs fs' fs'' : FileSystem} (h : MakesAncestors p fs fs')
    (h' : MakesAncestors p fs' fs'') : MakesAncestors p fs fs'' := by
  refine ⟨h.extends_.trans h'.extends_, h'.next.trans h.next, fun loc hne => ?_⟩
  by_cases hfirst : fs'.entry loc = fs.entry loc
  · obtain ⟨hn, hd, q, hq, hl⟩ := h'.made loc (by rwa [hfirst])
    exact ⟨hfirst ▸ hn, hd, q, hq, hl⟩
  · obtain ⟨hn, hd, q, hq, hl⟩ := h.made loc hfirst
    exact ⟨hn, h'.extends_.dir loc hd, q, hq, FileSystem.locate_extends h'.extends_ hl⟩

theorem mkdir_makesAncestors {p q : Path} {fs fs' : FileSystem} (hq : q.Ancestor p) (h : fs.mkdir q = .ok fs') :
    MakesAncestors p fs fs' := by
  obtain ⟨loc, hl, hn, hc, hnext⟩ := FileSystem.mkdir_ok h
  refine ⟨(FileSystem.mkdir_grows h).extends_, hnext, fun l hne => ?_⟩
  by_cases hll : l = loc
  · subst hll
    exact ⟨hn, hc.self, q, hq, FileSystem.locate_extends (FileSystem.mkdir_grows h).extends_ hl⟩
  · exact absurd (hc.other l hll) hne

theorem create_parent_directory_makesAncestors (faults : Faults) (fs : FileSystem) (f : RuntimeSocketFile) :
    MakesAncestors f.path fs (f.create_parent_directory faults fs).2 := by
  unfold create_parent_directory
  split
  · exact .refl f.path fs
  · rename_i parent hparent
    have h := FileSystem.createDirAll_induct_on (P := fun q => q.Ancestor f.path) (MakesAncestors.refl f.path)
      MakesAncestors.trans (fun hp hq => .up hp hq) mkdir_makesAncestors (fun depth again => faults (.mkdir depth again))
      (fun depth again => faults (.metadata depth again)) parent.components.length fs (.parent hparent)
    split
    · rename_i fs' hfs
      rw [hfs] at h
      exact h
    · rename_i e fs' hfs
      rw [hfs] at h
      exact h

/-- When the directories are there, the path's parent is one of them. If some
had to be made, the path leads to nothing. -/
theorem create_parent_directory_ok {faults : Faults} {fs fs' : FileSystem} {f : RuntimeSocketFile}
    (htree : fs.IsTree) (habs : f.path.isAbsolute = true) (hno : .ParentDir ∉ f.path.components)
    (h : f.create_parent_directory faults fs = (.ok (), fs')) :
    (fs' = fs ∨ fs'.lstat f.path = .error .NotFound) ∧
      ∀ parent, f.path.parent = some parent → fs'.isDir parent = true := by
  unfold create_parent_directory at h
  split at h
  · rename_i hroot
    cases h
    exact ⟨.inl rfl, fun parent hparent => by rw [hroot] at hparent; cases hparent⟩
  · rename_i parent hparent
    obtain ⟨cs, c, -, -, hqabs, hcomponents, -⟩ := Path.parent_absolute habs hparent
    have hqno : .ParentDir ∉ parent.components := fun hmem => hno (by simp [hcomponents, hmem])
    split at h
    · rename_i fs₁ hdirs
      cases h
      rcases FileSystem.createDirAll_ok htree _ _ hqabs hqno (Nat.le_refl _) hdirs with ⟨rfl, hdir⟩ | ⟨loc, hempty⟩
      · refine ⟨.inl rfl, fun q hq => ?_⟩
        rw [hparent] at hq
        cases hq
        exact hdir
      · refine ⟨.inr (hempty.lstat_child habs hno hparent), fun q hq => ?_⟩
        rw [hparent] at hq
        cases hq
        exact hempty.isDir
    · cases h

/-- What `remove_stale_socket` does, by what it finds. -/
inductive RemovesStale (f : RuntimeSocketFile) (fs : FileSystem) :
    Except RuntimeSocketFileError Unit × FileSystem → Prop where
  | nothing : fs.lstat f.path = .error .NotFound → RemovesStale f fs (.ok (), fs)
  | removed {loc : Location} {inode mode : Nat} {fs' : FileSystem} : fs.locate false f.path = .ok loc →
      fs.entry loc = some (.Socket inode mode) → fs.unlink f.path = .ok fs' → RemovesStale f fs (.ok (), fs')
  | refused {e : Entry} : fs.lstat f.path = .ok e →
      (ExistingRuntimePathKind.from_file_type e).is_socket = false →
      RemovesStale f fs (.error (.NonSocketPath f.path (ExistingRuntimePathKind.from_file_type e)), fs)
  | failed {e : FsError} : RemovesStale f fs (.error (.Io e), fs)

theorem remove_stale_socket_removesStale (faults : Faults) (fs : FileSystem) (f : RuntimeSocketFile) :
    RemovesStale f fs (f.remove_stale_socket faults fs) := by
  unfold remove_stale_socket
  split
  · rename_i metadata hm
    have hlstat := Faults.call_ok hm
    simp only
    by_cases hs : (ExistingRuntimePathKind.from_file_type metadata).is_socket = true
    · rw [if_pos hs]
      split
      · rename_i fs' hu
        obtain ⟨inode, mode, rfl⟩ := is_socket_iff.1 hs
        obtain ⟨loc, hl, he⟩ := FileSystem.lstat_ok.1 hlstat
        exact .removed hl he (Faults.call_ok hu)
      · exact .failed
    · rw [if_neg hs]
      exact .refused hlstat (Bool.eq_false_iff.2 hs)
  · rename_i hm
    refine .nothing ?_
    unfold Faults.call at hm
    split at hm
    · cases hm
    · exact hm
  · exact .failed

/-- A removed socket leaves nothing behind. -/
theorem lstat_unlinked {fs fs' : FileSystem} {p : Path} {loc : Location} {inode mode : Nat}
    (hl : fs.locate false p = .ok loc) (he : fs.entry loc = some (.Socket inode mode)) (h : fs.unlink p = .ok fs') :
    fs'.lstat p = .error .NotFound := by
  obtain ⟨hc, hg, -, -⟩ := FileSystem.unlink_socket hl he h
  have hl' := FileSystem.locate_extends hg.extends_ hl
  simp only [FileSystem.lstat, hl', bind, Except.bind, hc.self]

/-! ## A whole call -/

/-- What `prepare` does. `fs₁` is the file system with the directories. -/
inductive Prepares (f : RuntimeSocketFile) (fs : FileSystem) : Except RuntimeSocketFileError Unit × FileSystem → Prop where
  | invalid {error : RuntimePathError} : Prepares f fs (.error (.RuntimePath error), fs)
  | parents {e : FsError} {fs₁ : FileSystem} : MakesAncestors f.path fs fs₁ → Prepares f fs (.error (.Io e), fs₁)
  | stale {fs₁ : FileSystem} {result : Except RuntimeSocketFileError Unit × FileSystem} :
      MakesAncestors f.path fs fs₁ →
      (fs.IsTree → (fs₁ = fs ∨ fs₁.lstat f.path = .error .NotFound) ∧
        ∀ parent, f.path.parent = some parent → fs₁.isDir parent = true) →
      RemovesStale f fs₁ result → Prepares f fs result

theorem create_parent_directory_error {faults : Faults} {fs fs' : FileSystem} {f : RuntimeSocketFile}
    {error : RuntimeSocketFileError} (h : f.create_parent_directory faults fs = (.error error, fs')) :
    ∃ e, error = .Io e := by
  unfold create_parent_directory at h
  split at h
  · cases h
  · split at h
    · cases h
    · rename_i e fs₁ _
      cases h
      exact ⟨e, rfl⟩

theorem prepare_prepares (faults : Faults) (fs : FileSystem) (f : RuntimeSocketFile) :
    Prepares f fs (f.prepare faults fs) := by
  unfold prepare
  split
  · exact .invalid
  · rename_i p hvalid
    obtain ⟨habs, hno⟩ := AbsoluteRuntimePath.try_new_ok hvalid
    have hmade := create_parent_directory_makesAncestors faults fs f
    split
    · rename_i error fs₁ hdirs
      rw [hdirs] at hmade
      obtain ⟨e, rfl⟩ := create_parent_directory_error hdirs
      exact .parents hmade
    · rename_i fs₁ hdirs
      rw [hdirs] at hmade
      exact .stale hmade (fun htree => create_parent_directory_ok htree habs hno hdirs)
        (remove_stale_socket_removesStale faults fs₁ f)

theorem remove_socket_if_current_changes {faults : Faults} {fs : FileSystem} {f : RuntimeSocketFile} {loc : Location}
    (hne : (f.remove_socket_if_current faults fs).entry loc ≠ fs.entry loc) :
    fs.locate false f.path = .ok loc ∧ ∃ inode mode, fs.entry loc = some (.Socket inode mode) := by
  unfold remove_socket_if_current at hne
  split at hne
  · exact absurd rfl hne
  · rename_i metadata hm
    split at hne
    · rename_i hs
      obtain ⟨inode, mode, rfl⟩ := is_socket_iff.1 hs
      obtain ⟨l, hl, he⟩ := FileSystem.lstat_ok.1 (Faults.call_ok hm)
      split at hne
      · rename_i fs' hu
        obtain ⟨hc, -⟩ := FileSystem.unlink_socket hl he (Faults.call_ok hu)
        by_cases hll : loc = l
        · subst hll
          exact ⟨hl, inode, mode, he⟩
        · exact absurd (hc.other loc hll) hne
      · exact absurd rfl hne
    · exact absurd rfl hne

/-- What a call of `prepare` may change: it makes directories above the path, or
removes the socket the path leads to. -/
theorem Prepares.changes {f : RuntimeSocketFile} {fs : FileSystem}
    {result : Except RuntimeSocketFileError Unit × FileSystem} (h : Prepares f fs result) (htree : fs.IsTree)
    {loc : Location} (hne : result.2.entry loc ≠ fs.entry loc) :
    (fs.entry loc = none ∧ result.2.entry loc = some .Directory ∧
      ∃ q, q.Ancestor f.path ∧ result.2.locate false q = .ok loc) ∨
    ∃ inode mode, fs.entry loc = some (.Socket inode mode) ∧ result.2.entry loc = none ∧
      fs.locate false f.path = .ok loc := by
  cases h with
  | invalid => exact absurd rfl hne
  | parents hmade => exact .inl (hmade.made loc hne)
  | stale hmade hdirs hstale =>
    cases hstale with
    | nothing => exact .inl (hmade.made loc hne)
    | refused => exact .inl (hmade.made loc hne)
    | failed => exact .inl (hmade.made loc hne)
    | removed hl he hu =>
      -- A socket is there, so no directory had to be made for it.
      rcases (hdirs htree).1 with rfl | hnothing
      · obtain ⟨hc, -⟩ := FileSystem.unlink_socket hl he hu
        rename_i l inode mode fs'
        by_cases hll : loc = l
        · subst hll
          exact .inr ⟨inode, mode, he, hc.self, hl⟩
        · exact absurd (hc.other loc hll) hne
      · rw [FileSystem.lstat_ok.2 ⟨_, hl, he⟩] at hnothing
        cases hnothing

theorem MakesAncestors.keeps {p : Path} {fs fs' : FileSystem} (h : MakesAncestors p fs fs') {loc : Location} {e : Entry}
    (he : fs.entry loc = some e) : fs'.entry loc = some e := by
  by_contra hne
  obtain ⟨hn, -⟩ := h.made loc (by rwa [he])
  rw [he] at hn
  cases hn

/-- The directories made are all that is new. -/
theorem MakesAncestors.back {p : Path} {fs fs' : FileSystem} (h : MakesAncestors p fs fs') {loc : Location} {e : Entry}
    (he : fs'.entry loc = some e) (hd : e ≠ .Directory) : fs.entry loc = some e := by
  by_cases hsame : fs'.entry loc = fs.entry loc
  · rw [← hsame]
    exact he
  · obtain ⟨-, hdir, -⟩ := h.made loc hsame
    rw [he] at hdir
    cases hdir
    exact absurd rfl hd

theorem RemovesStale.keeps {f : RuntimeSocketFile} {fs : FileSystem}
    {result : Except RuntimeSocketFileError Unit × FileSystem} (h : RemovesStale f fs result) {loc : Location} {e : Entry}
    (he : fs.entry loc = some e) (hs : (ExistingRuntimePathKind.from_file_type e).is_socket = false) :
    result.2.entry loc = some e := by
  cases h with
  | nothing => exact he
  | refused => exact he
  | failed => exact he
  | removed hl hsocket hu =>
    obtain ⟨hc, -⟩ := FileSystem.unlink_socket hl hsocket hu
    rw [hc.other loc ?_]
    · exact he
    · rintro rfl
      rw [he] at hsocket
      cases hsocket
      cases hs

theorem Prepares.keeps {f : RuntimeSocketFile} {fs : FileSystem}
    {result : Except RuntimeSocketFileError Unit × FileSystem} (h : Prepares f fs result) {loc : Location} {e : Entry}
    (he : fs.entry loc = some e) (hs : (ExistingRuntimePathKind.from_file_type e).is_socket = false) :
    result.2.entry loc = some e := by
  cases h with
  | invalid => exact he
  | parents hmade => exact hmade.keeps he
  | stale hmade _ hstale => exact hstale.keeps (hmade.keeps he) hs

theorem Prepares.refused {f : RuntimeSocketFile} {fs : FileSystem}
    {result : Except RuntimeSocketFileError Unit × FileSystem} (h : Prepares f fs result) (htree : fs.IsTree)
    {path : Path} {kind : ExistingRuntimePathKind} (herror : result.1 = .error (.NonSocketPath path kind)) :
    result.2 = fs ∧ path = f.path ∧ ∃ e, fs.lstat f.path = .ok e ∧ kind = ExistingRuntimePathKind.from_file_type e := by
  cases h with
  | invalid => cases herror
  | parents => cases herror
  | stale hmade hdirs hstale =>
    cases hstale with
    | nothing => cases herror
    | removed => cases herror
    | failed => cases herror
    | refused hlstat _ =>
      cases herror
      rcases (hdirs htree).1 with rfl | hnothing
      · exact ⟨rfl, rfl, _, hlstat, rfl⟩
      · rw [hlstat] at hnothing
        cases hnothing

theorem Prepares.ok {f : RuntimeSocketFile} {fs : FileSystem}
    {result : Except RuntimeSocketFileError Unit × FileSystem} (h : Prepares f fs result) (htree : fs.IsTree)
    (hok : result.1 = .ok ()) :
    result.2.lstat f.path = .error .NotFound ∧
      ∀ parent, f.path.parent = some parent → result.2.isDir parent = true := by
  cases h with
  | invalid => cases hok
  | parents => cases hok
  | stale _ hdirs hstale =>
    obtain ⟨-, hparent⟩ := hdirs htree
    cases hstale with
    | nothing hn => exact ⟨hn, hparent⟩
    | refused => cases hok
    | failed => cases hok
    | removed hl he hu =>
      refine ⟨lstat_unlinked hl he hu, fun parent hq => ?_⟩
      obtain ⟨-, hg, -, -⟩ := FileSystem.unlink_socket hl he hu
      obtain ⟨loc, hlocate, hdir⟩ := FileSystem.isDir_iff.1 (hparent parent hq)
      exact FileSystem.isDir_iff.2 ⟨loc, FileSystem.locate_extends hg.extends_ hlocate, hg.extends_.dir loc hdir⟩

theorem Prepares.same_numbers {f : RuntimeSocketFile} {fs : FileSystem}
    {result : Except RuntimeSocketFileError Unit × FileSystem} (h : Prepares f fs result) :
    result.2.cwd = fs.cwd ∧ result.2.next = fs.next := by
  cases h with
  | invalid => exact ⟨rfl, rfl⟩
  | parents hmade => exact ⟨hmade.extends_.cwd, hmade.next⟩
  | stale hmade _ hstale =>
    cases hstale with
    | nothing => exact ⟨hmade.extends_.cwd, hmade.next⟩
    | refused => exact ⟨hmade.extends_.cwd, hmade.next⟩
    | failed => exact ⟨hmade.extends_.cwd, hmade.next⟩
    | removed hl he hu =>
      obtain ⟨-, hg, -, hnext⟩ := FileSystem.unlink_socket hl he hu
      exact ⟨hg.extends_.cwd.trans hmade.extends_.cwd, hnext.trans hmade.next⟩

/-- Where nothing is left to do, `prepare` does nothing. -/
theorem prepare_again {fs : FileSystem} {f : RuntimeSocketFile} (habs : f.path.isAbsolute = true)
    (hno : .ParentDir ∉ f.path.components) (hnothing : fs.lstat f.path = .error .NotFound)
    (hparent : ∀ parent, f.path.parent = some parent → fs.isDir parent = true) :
    f.prepare noFaults fs = (.ok (), fs) := by
  have hvalid : ∃ p, AbsoluteRuntimePath.try_new (.Default "listener socket path") f.path = .ok p := by
    have hany : f.path.components.any (· = .ParentDir) = false :=
      List.any_eq_false.2 fun c hc => by
        have : c ≠ .ParentDir := fun heq => hno (heq ▸ hc)
        simpa using this
    refine ⟨⟨f.path, habs, hany⟩, ?_⟩
    unfold AbsoluteRuntimePath.try_new
    rw [if_neg (by intro h; rw [h] at habs; cases habs), dif_pos habs, dif_pos hany]
  obtain ⟨p, hp⟩ := hvalid
  have hdirs : f.create_parent_directory noFaults fs = (.ok (), fs) := by
    unfold create_parent_directory
    split
    · rfl
    · rename_i parent hq
      rw [FileSystem.createDirAll_of_isDir (fun depth again => noFaults (.mkdir depth again))
        (fun depth again => noFaults (.metadata depth again)) (fun _ _ => rfl) (hparent parent hq)]
  unfold prepare
  simp only [hp, hdirs, remove_stale_socket, Faults.call, noFaults, Bool.false_eq_true, if_false, hnothing]

theorem prepare_ok_valid {faults : Faults} {fs fs' : FileSystem} {f : RuntimeSocketFile}
    (h : f.prepare faults fs = (.ok (), fs')) : f.path.isAbsolute = true ∧ .ParentDir ∉ f.path.components := by
  unfold prepare at h
  split at h
  · cases h
  · rename_i p hvalid
    exact AbsoluteRuntimePath.try_new_ok hvalid

/-- Whatever calls fail: a path no runtime may use is refused before anything is
done; what is no socket stays as it is; a refusal names what is there and
changes nothing; after `Ok` the path leads to nothing, in a directory. All that
`prepare` may change is directories it makes above the path and the socket at
the path, all that `remove_socket_if_current` may change is the socket at the
path, and a second `prepare` has nothing to do. -/
theorem prepare_changes_only {fs : FileSystem} (htree : fs.IsTree) (faults : Faults) (f : RuntimeSocketFile) :
    let result := f.prepare faults fs
    (f.path = [] ∨ f.path.isAbsolute = false ∨ .ParentDir ∈ f.path.components →
      ∃ kind, result = (.error (.RuntimePath (.new (.Default "listener socket path") f.path kind)), fs)) ∧
    (∀ loc e, fs.entry loc = some e → (ExistingRuntimePathKind.from_file_type e).is_socket = false →
      result.2.entry loc = some e) ∧
    (∀ path kind, result.1 = .error (.NonSocketPath path kind) →
      result.2 = fs ∧ path = f.path ∧
        ∃ e, fs.lstat f.path = .ok e ∧ kind = ExistingRuntimePathKind.from_file_type e) ∧
    (result.1 = .ok () → result.2.lstat f.path = .error .NotFound ∧
      ∀ parent, f.path.parent = some parent → result.2.isDir parent = true) ∧
    (∀ loc, result.2.entry loc ≠ fs.entry loc →
      (fs.entry loc = none ∧ result.2.entry loc = some .Directory ∧
        ∃ q, q.Ancestor f.path ∧ result.2.locate false q = .ok loc) ∨
      ∃ inode mode, fs.entry loc = some (.Socket inode mode) ∧ result.2.entry loc = none ∧
        fs.locate false f.path = .ok loc) ∧
    (result.2.cwd = fs.cwd ∧ result.2.next = fs.next) ∧
    (∀ loc, (f.remove_socket_if_current faults fs).entry loc ≠ fs.entry loc →
      fs.locate false f.path = .ok loc ∧ ∃ inode mode, fs.entry loc = some (.Socket inode mode)) ∧
    (result.1 = .ok () → f.prepare noFaults result.2 = (.ok (), result.2)) := by
  intro result
  have hprepares : Prepares f fs result := prepare_prepares faults fs f
  refine ⟨fun hinvalid => ?_, fun loc e he hs => hprepares.keeps he hs,
    fun path kind herror => hprepares.refused htree herror, hprepares.ok htree,
    fun loc hne => hprepares.changes htree hne, hprepares.same_numbers,
    fun loc hne => remove_socket_if_current_changes hne, fun hok => ?_⟩
  · obtain ⟨kind, hkind⟩ := AbsoluteRuntimePath.invalid_iff.2 hinvalid
    refine ⟨kind, ?_⟩
    show f.prepare faults fs = _
    unfold prepare
    rw [AbsoluteRuntimePath.try_new_error_iff.2 ⟨kind, hkind, rfl⟩]
  · obtain ⟨hnothing, hparent⟩ := hprepares.ok htree hok
    have hresult : f.prepare faults fs = (.ok (), result.2) := Prod.ext hok rfl
    obtain ⟨habs, hno⟩ := prepare_ok_valid hresult
    exact prepare_again habs hno hnothing hparent

/-- A regular file `/f`. -/
def withFile : FileSystem where
  entry loc := if loc = [] then some .Directory else if loc = [[102]] then some (.RegularFile 0) else none
  cwd := []
  next := 0
  root := rfl
  fresh := by
    intro loc inode mode h
    split at h
    · cases h
    · split at h <;> cases h

theorem withFile_isTree : withFile.IsTree := by
  intro dir name h
  by_cases hfile : dir ++ [name] = [[102]]
  · have : dir = [] := by simpa using congrArg List.dropLast hfile
    subst this
    rfl
  · simp [withFile, hfile] at h

/-- `/d/s` is prepared in a directory of its own, and `/f` is left alone. -/
theorem prepare_changes_only_withFile :
    ((RuntimeSocketFile.mk [47, 100, 47, 115]).prepare noFaults withFile).2.isDir [47, 100] = true ∧
      ((RuntimeSocketFile.mk [47, 100, 47, 115]).prepare noFaults withFile).2.entry [[102]] = some (.RegularFile 0) ∧
      ((RuntimeSocketFile.mk [47, 102]).prepare noFaults withFile).2 = withFile := by
  obtain ⟨-, hkept, -, hok, -⟩ := prepare_changes_only withFile_isTree noFaults ⟨[47, 100, 47, 115]⟩
  obtain ⟨-, -, hrefused, -⟩ := prepare_changes_only withFile_isTree noFaults ⟨[47, 102]⟩
  exact ⟨(hok rfl).2 [47, 100] rfl, hkept [[102]] (.RegularFile 0) rfl rfl, (hrefused [47, 102] .RegularFile rfl).1⟩

end RuntimeSocketFile

end TriadRuntime
