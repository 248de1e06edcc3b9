import Mathlib.Data.List.Induction
import TriadRuntime.Systems.FileSystem
/-!
# Walks through a directory

The walk of a path goes through the directory of its parent. In a tree nothing
is below what is no directory, so a directory that has just been made is empty,
and the paths through it lead to nothing.
-/

namespace Systems

open Systems.Path

namespace FileSystem

/-- Whatever is there is in a directory. -/
def IsTree (fs : FileSystem) : Prop :=
  ∀ dir name, fs.entry (dir ++ [name]) ≠ none → fs.entry dir = some .Directory

theorem IsTree.below {fs : FileSystem} (h : fs.IsTree) {loc : Location} (hloc : fs.entry loc ≠ some .Directory)
    (rest : Location) (hrest : rest ≠ []) : fs.entry (loc ++ rest) = none := by
  induction rest using List.reverseRecOn with
  | nil => exact absurd rfl hrest
  | append_singleton rest name ih =>
    by_contra hthere
    have hdir := h (loc ++ rest) name (by rwa [List.append_assoc])
    by_cases hnil : rest = []
    · rw [hnil, List.append_nil] at hdir
      exact hloc hdir
    · rw [ih hnil] at hdir
      cases hdir

/-! ## Walking on from a directory -/

theorem walkFrom_append {fs : FileSystem} {follow : Bool} {dir L : Location} {s t : List Component}
    {again againT : Location → List Component → Except FsError Location} (ht : t ≠ [])
    (hL : fs.entry L = some .Directory) (hhere : ∃ left, fs.walkFrom follow again L t = fs.walk follow left L t)
    (hagain : ∀ dir s, againT dir s = .ok L → ∃ left, again dir (s ++ t) = fs.walk follow left L t)
    (hs : fs.walkFrom true againT dir s = .ok L) :
    ∃ left, fs.walkFrom follow again dir (s ++ t) = fs.walk follow left L t := by
  induction s generalizing dir with
  | nil =>
    cases hs
    exact hhere
  | cons c s ih =>
    cases c with
    | RootDir => exact ih hs
    | CurDir => exact ih hs
    | ParentDir => exact ih hs
    | Normal name =>
      rw [List.cons_append]
      rcases walkFrom_normal hs with ⟨target, htarget, hs⟩ | ⟨-, hdir, hs⟩
      · rw [if_neg (by simp)] at hs
        simp only [walkFrom, htarget]
        rw [if_neg (by simp [ht]), ← List.append_assoc]
        exact hagain _ _ hs
      · have hdir : fs.entry (dir ++ [name]) = some .Directory := by
          rcases hdir with hdir | rfl
          · exact hdir
          · cases hs
            exact hL
        simp only [walkFrom, hdir]
        exact ih hs

/-- What comes after the steps that lead to a directory is walked from there. -/
theorem walk_append {fs : FileSystem} {follow : Bool} {links : Nat} {dir L : Location} {s t : List Component}
    (ht : t ≠ []) (hL : fs.entry L = some .Directory) (hs : fs.walk true links dir s = .ok L) :
    ∃ left, fs.walk follow links dir (s ++ t) = fs.walk follow left L t := by
  induction links generalizing dir s with
  | zero =>
    change ∃ left, fs.walkFrom follow (fun _ _ => .error .Loop) dir (s ++ t) = fs.walk follow left L t
    exact walkFrom_append ht hL ⟨0, rfl⟩ (by rintro dir s ⟨⟩) hs
  | succ links ih =>
    change ∃ left, fs.walkFrom follow (fs.walk follow links) dir (s ++ t) = fs.walk follow left L t
    exact walkFrom_append ht hL ⟨links + 1, rfl⟩ (fun dir s h => ih h) hs

theorem walkFrom_noDots {fs : FileSystem} {L : Location}
    {again : Location → List Component → Except FsError Location} (hL : fs.entry L = some .Directory)
    (hagain : ∀ dir s, again dir s = .ok L ↔ again dir (noDots s) = .ok L) (dir : Location) (s : List Component) :
    fs.walkFrom true again dir s = .ok L ↔ fs.walkFrom true again dir (noDots s) = .ok L := by
  induction s generalizing dir with
  | nil => rfl
  | cons c s ih =>
    cases c with
    | RootDir => exact ih dir
    | CurDir => exact ih dir
    | ParentDir => exact ih dir.dropLast
    | Normal name =>
      change _ ↔ fs.walkFrom true again dir (.Normal name :: noDots s) = .ok L
      -- Neither side ends here at what is no directory.
      have hend : ∀ cs : List Component, fs.entry (dir ++ [name]) ≠ some .Directory →
          ∀ error, (if cs = [] then Except.ok (dir ++ [name]) else Except.error error) ≠ (.ok L : Except FsError _) := by
        intro cs hno error h
        split at h
        · cases h
          exact hno hL
        · cases h
      cases hentry : fs.entry (dir ++ [name]) with
      | none =>
        simp only [walkFrom, hentry]
        exact iff_of_false (hend s (by simp [hentry]) _) (hend _ (by simp [hentry]) _)
      | some e =>
        cases e with
        | Directory =>
          simp only [walkFrom, hentry]
          exact ih _
        | Symlink target =>
          simp only [walkFrom, hentry, Bool.true_eq_false, and_false, if_false]
          rw [hagain, hagain _ (target.steps ++ noDots s), noDots_append, noDots_append, noDots_noDots]
        | Socket inode mode =>
          simp only [walkFrom, hentry]
          exact iff_of_false (hend s (by simp [hentry]) _) (hend _ (by simp [hentry]) _)
        | RegularFile inode =>
          simp only [walkFrom, hentry]
          exact iff_of_false (hend s (by simp [hentry]) _) (hend _ (by simp [hentry]) _)
        | Other inode =>
          simp only [walkFrom, hentry]
          exact iff_of_false (hend s (by simp [hentry]) _) (hend _ (by simp [hentry]) _)

/-- Dots make no difference on the way to a directory. -/
theorem walk_noDots {fs : FileSystem} {L : Location} (hL : fs.entry L = some .Directory) (links : Nat) (dir : Location)
    (s : List Component) : fs.walk true links dir s = .ok L ↔ fs.walk true links dir (noDots s) = .ok L := by
  induction links generalizing dir s with
  | zero => exact walkFrom_noDots hL (by simp) dir s
  | succ links ih => exact walkFrom_noDots hL ih dir s

theorem locate_absolute {fs : FileSystem} {follow : Bool} {p : Path} (h : p.isAbsolute = true) :
    fs.locate follow p = fs.walk follow maxLinks [] p.steps := by
  unfold locate
  rw [if_neg (by rintro rfl; cases h), if_pos h]

theorem isDir_iff {fs : FileSystem} {p : Path} :
    fs.isDir p = true ↔ ∃ loc, fs.locate true p = .ok loc ∧ fs.entry loc = some .Directory := by
  unfold isDir
  cases fs.locate true p with
  | ok loc => simp
  | error e => simp

/-- An absolute path is walked on from the directory of its parent. -/
theorem locate_child {fs : FileSystem} {p q : Path} {L : Location} (h : p.isAbsolute = true) (hq : p.parent = some q)
    (hlocate : fs.locate true q = .ok L) (hL : fs.entry L = some .Directory) :
    ∃ c dots, p.components = q.components ++ [c] ∧ Plain c ∧ noDots dots = [] ∧
      ∀ follow, ∃ left, fs.locate follow p = fs.walk follow left L (c :: dots) := by
  obtain ⟨cs, c, hsteps, hqsteps, hqabs, hcomponents, hplain⟩ := parent_absolute h hq
  obtain ⟨before, dots, heq, hbefore, hdots⟩ := steps_of_noDots_append hsteps
  rw [locate_absolute hqabs, walk_noDots hL, hqsteps, ← hbefore, ← walk_noDots hL] at hlocate
  refine ⟨c, dots, hcomponents, hplain, hdots, fun follow => ?_⟩
  rw [locate_absolute h, heq]
  exact walk_append (List.cons_ne_nil c dots) hL hlocate

/-- A name that is not there. -/
theorem walk_missing {fs : FileSystem} {follow : Bool} {L : Location} {name : Name} {dots : List Component}
    (hn : fs.entry (L ++ [name]) = none) (links : Nat) :
    fs.walk follow links L (.Normal name :: dots) = if dots = [] then .ok (L ++ [name]) else .error .NotFound := by
  cases links <;> simp only [walk, walkFrom, hn]

/-! ## A directory that has just been made -/

/-- `p` leads to a directory with nothing in it. -/
structure Empty (fs : FileSystem) (p : Path) (loc : Location) : Prop where
  located : fs.locate false p = .ok loc
  directory : fs.entry loc = some .Directory
  below : ∀ rest, rest ≠ [] → fs.entry (loc ++ rest) = none

theorem Empty.locate_true {fs : FileSystem} {p : Path} {loc : Location} (h : Empty fs p loc) :
    fs.locate true p = .ok loc :=
  locate_follow h.located (by simp [h.directory])

theorem Empty.isDir {fs : FileSystem} {p : Path} {loc : Location} (h : Empty fs p loc) : fs.isDir p = true :=
  isDir_iff.2 ⟨loc, h.locate_true, h.directory⟩

/-- A path without `..` leads to nothing in it. -/
theorem Empty.child {fs : FileSystem} {p q : Path} {loc : Location} (h : Empty fs q loc) (habs : p.isAbsolute = true)
    (hno : .ParentDir ∉ p.components) (hq : p.parent = some q) :
    ∃ name, (∀ follow, fs.locate follow p = .ok (loc ++ [name])) ∨ (∀ follow, fs.locate follow p = .error .NotFound) := by
  obtain ⟨c, dots, hcomponents, hplain, -, hlocate⟩ := locate_child habs hq h.locate_true h.directory
  obtain ⟨name, rfl⟩ : ∃ name, c = .Normal name := by
    cases c with
    | RootDir =>
      have := hplain.ofSegment_bytes
      simp [Path.Component.bytes, Path.ofSegment] at this
    | CurDir => exact absurd rfl hplain.ne_curDir
    | ParentDir => exact absurd (by simp [hcomponents]) hno
    | Normal name => exact ⟨name, rfl⟩
  have hn : fs.entry (loc ++ [name]) = none := h.below [name] (by simp)
  refine ⟨name, ?_⟩
  by_cases hdots : dots = []
  · refine .inl fun follow => ?_
    obtain ⟨left, hl⟩ := hlocate follow
    rw [hl, walk_missing hn, if_pos hdots]
  · refine .inr fun follow => ?_
    obtain ⟨left, hl⟩ := hlocate follow
    rw [hl, walk_missing hn, if_neg hdots]

theorem Empty.lstat_child {fs : FileSystem} {p q : Path} {loc : Location} (h : Empty fs q loc)
    (habs : p.isAbsolute = true) (hno : .ParentDir ∉ p.components) (hq : p.parent = some q) :
    fs.lstat p = .error .NotFound := by
  obtain ⟨name, hl | hl⟩ := h.child habs hno hq
  · have hn : fs.entry (loc ++ [name]) = none := h.below [name] (by simp)
    simp only [lstat, hl, bind, Except.bind, hn]
  · simp only [lstat, hl, bind, Except.bind]

theorem Empty.not_isDir_child {fs : FileSystem} {p q : Path} {loc : Location} (h : Empty fs q loc)
    (habs : p.isAbsolute = true) (hno : .ParentDir ∉ p.components) (hq : p.parent = some q) : fs.isDir p = false := by
  rw [Bool.eq_false_iff]
  intro hdir
  obtain ⟨l, hlocate, hentry⟩ := isDir_iff.1 hdir
  obtain ⟨name, hl | hl⟩ := h.child habs hno hq
  · rw [hl] at hlocate
    cases hlocate
    have hn : fs.entry (loc ++ [name]) = none := h.below [name] (by simp)
    rw [hn] at hentry
    cases hentry
  · rw [hl] at hlocate
    cases hlocate

/-- Where nothing is, and nothing below, a new directory is empty. -/
theorem mkdir_empty {fs fs' : FileSystem} {p : Path} (h : fs.mkdir p = .ok fs')
    (hbelow : ∀ loc, fs.locate false p = .ok loc → ∀ rest, rest ≠ [] → fs.entry (loc ++ rest) = none) :
    ∃ loc, Empty fs' p loc := by
  obtain ⟨loc, hl, -, hc, -⟩ := mkdir_ok h
  refine ⟨loc, locate_extends (mkdir_grows h).extends_ hl, hc.self, fun rest hrest => ?_⟩
  rw [hc.other (loc ++ rest) (by simpa using hrest)]
  exact hbelow loc hl rest hrest

theorem Empty.mkdir_child {fs fs' : FileSystem} {p q : Path} {loc : Location} (h : Empty fs q loc)
    (habs : p.isAbsolute = true) (hno : .ParentDir ∉ p.components) (hq : p.parent = some q)
    (hmkdir : fs.mkdir p = .ok fs') : ∃ loc', Empty fs' p loc' := by
  refine mkdir_empty hmkdir fun l hl rest hrest => ?_
  obtain ⟨name, hlocate | hlocate⟩ := h.child habs hno hq
  · rw [hlocate] at hl
    cases hl
    rw [List.append_assoc]
    exact h.below _ (by simp)
  · rw [hlocate] at hl
    cases hl

/-- What a directory is in the way of. -/
theorem mkdir_of_isDir {fs : FileSystem} {p : Path} (h : fs.isDir p = true) : fs.mkdir p = .error .AlreadyExists := by
  obtain ⟨loc, hl, he⟩ := isDir_iff.1 h
  obtain ⟨loc', hl', hthere⟩ := locate_unfollow hl
  have hentry : fs.entry loc' ≠ none := by
    rcases hthere with rfl | ⟨target, ht⟩
    · simp [he]
    · simp [ht]
  unfold mkdir
  simp only [hl', bind, Except.bind]
  split
  · rename_i hn
    exact absurd hn hentry
  · rfl

theorem mkdir_absent {fs fs' : FileSystem} {p : Path} {loc : Location} (h : fs.mkdir p = .ok fs')
    (hl : fs.locate false p = .ok loc) : fs.entry loc ≠ some .Directory := by
  obtain ⟨loc', hl', hn, -⟩ := mkdir_ok h
  rw [hl] at hl'
  cases hl'
  simp [hn]

theorem of_try {b : Bool} {result : Except FsError FileSystem} {fs : FileSystem}
    (h : (if b then .error .Fault else result) = .ok fs) : result = .ok fs := by
  split at h
  · cases h
  · exact h

theorem of_try_error {b : Bool} {result : Except FsError FileSystem} {e : FsError}
    (h : (if b then .error .Fault else result) = .error e) (he : e ≠ .Fault) : result = .error e := by
  split at h
  · cases h
    exact absurd rfl he
  · exact h

theorem isDir_of_no_parent {fs : FileSystem} {p : Path} (habs : p.isAbsolute = true) (hroot : p.parent = none) :
    fs.isDir p = true := by
  have hsteps : noDots p.steps = [] := no_steps_of_no_parent habs hroot
  refine isDir_iff.2 ⟨[], ?_, fs.root⟩
  rw [locate_absolute habs, walk_noDots fs.root, hsteps]
  rfl

/-- `create_dir_all` finds the directory there, or has made it. -/
theorem createDirAll_ok {fs fs' : FileSystem} (htree : fs.IsTree) (fails blind : Nat → Bool → Bool) {depth : Nat}
    {p : Path} (habs : p.isAbsolute = true) (hno : .ParentDir ∉ p.components) (hdepth : p.components.length ≤ depth)
    (h : createDirAll fails blind depth fs p = (.ok (), fs')) :
    fs' = fs ∧ fs.isDir p = true ∨ ∃ loc, Empty fs' p loc := by
  induction depth generalizing fs' p with
  | zero =>
    rw [Path.components_absolute habs] at hdepth
    simp at hdepth
  | succ depth ih =>
    unfold createDirAll at h
    split at h
    · -- The root directory.
      rename_i hroot
      cases h
      exact .inl ⟨rfl, isDir_of_no_parent habs hroot⟩
    · rename_i q hq
      obtain ⟨cs, c, -, -, hqabs, hcomponents, -⟩ := Path.parent_absolute habs hq
      have hqno : .ParentDir ∉ q.components := fun hmem => hno (by simp [hcomponents, hmem])
      have hqdepth : q.components.length ≤ depth := by
        rw [hcomponents, List.length_append, List.length_singleton] at hdepth
        omega
      split at h
      · rename_i fs₁ htry
        cases h
        have hmkdir := of_try htry
        obtain ⟨-, -, hn, -⟩ := mkdir_ok hmkdir
        exact .inr (mkdir_empty hmkdir fun loc hl rest hrest => htree.below (mkdir_absent hmkdir hl) rest hrest)
      · -- The parent was missing, or is a directory in which `mkdir` still fails.
        rename_i htry
        have hmissing : fs.mkdir p = .error .NotFound := of_try_error htry (by simp)
        split at h
        · cases h
        · rename_i fs₁ hparent
          rcases ih hqabs hqno hqdepth hparent with ⟨rfl, -⟩ | ⟨loc, hempty⟩
          · split at h
            · rename_i fs₂ hagain
              rw [of_try hagain] at hmissing
              cases hmissing
            · split at h
              · rename_i hdir
                simp only [Bool.and_eq_true] at hdir
                rw [mkdir_of_isDir hdir.2] at hmissing
                cases hmissing
              · cases h
          · split at h
            · rename_i fs₂ hagain
              cases h
              exact .inr (hempty.mkdir_child habs hno hq (of_try hagain))
            · rw [hempty.not_isDir_child habs hno hq, Bool.and_false] at h
              cases h
      · split at h
        · rename_i hdir
          simp only [Bool.and_eq_true] at hdir
          cases h
          exact .inl ⟨rfl, hdir.2⟩
        · cases h

/-- A directory that is there stays as it is. -/
theorem createDirAll_of_isDir {fs : FileSystem} (fails blind : Nat → Bool → Bool) {depth : Nat} {p : Path}
    (hblind : ∀ depth again, blind depth again = false) (h : fs.isDir p = true) :
    createDirAll fails blind depth fs p = (.ok (), fs) := by
  cases depth with
  | zero => rfl
  | succ depth =>
    unfold createDirAll
    split
    · rfl
    · rw [mkdir_of_isDir h]
      split
      · rename_i fs' htry
        split at htry <;> cases htry
      · rename_i htry
        split at htry <;> cases htry
      · rw [hblind, h]
        rfl


end FileSystem

end Systems
