import TriadRuntime.Preparation
/-!
# Restarting at a path (`process.rs`, `daemon.rs`, `async_runtime.rs`)

A daemon that is killed drops nothing: its sockets stay where they are, and
nobody listens to them. Whoever binds the path next clears it first. A path
stays fit for that as long as nothing but sockets gets there.
-/

open Systems

namespace TriadRuntime

open FileSystem (Extends Spot Changed)

/-- Where nothing or a socket was, nothing or a socket is. -/
def KeepsSpots (fs fs' : FileSystem) : Prop := ∀ loc, Spot (fs.entry loc) → Spot (fs'.entry loc)

theorem KeepsSpots.refl (fs : FileSystem) : KeepsSpots fs fs := fun _ h => h

theorem KeepsSpots.trans {fs fs' fs'' : FileSystem} (h : KeepsSpots fs fs') (h' : KeepsSpots fs' fs'') :
    KeepsSpots fs fs'' := fun loc hs => h' loc (h loc hs)

theorem Changed.keepsSpots {fs fs' : FileSystem} {loc : Location} {e : Option Entry} (h : Changed fs loc e fs')
    (hnew : Spot e) : KeepsSpots fs fs' := by
  intro l hs
  by_cases hl : l = loc
  · rw [hl, h.self]
    exact hnew
  · rw [h.other l hl]
    exact hs

theorem unlink_keepsSpots {fs fs' : FileSystem} {p : Path} (h : fs.unlink p = .ok fs') : KeepsSpots fs fs' := by
  obtain ⟨loc, -, -, hc, -⟩ := FileSystem.unlink_ok h
  exact Changed.keepsSpots hc (.inl rfl)

/-! ## One bind -/

namespace RuntimeSocketFile

/-- `prepare` makes directories above its path, and nothing else but room. -/
theorem prepare_keepsSpots (faults : Faults) (fs : FileSystem) (f : RuntimeSocketFile) :
    ∃ fs₁, MakesAncestors f.path fs fs₁ ∧ KeepsSpots fs₁ (f.prepare faults fs).2 ∧
      Extends fs₁ (f.prepare faults fs).2 := by
  have hprepares := prepare_prepares faults fs f
  generalize hdone : f.prepare faults fs = done at hprepares
  cases hprepares with
  | invalid => exact ⟨fs, .refl _ fs, .refl fs, .refl fs⟩
  | @parents e fs₁ hmade => exact ⟨fs₁, hmade, .refl fs₁, .refl fs₁⟩
  | @stale fs₁ result hmade _ hstale =>
    refine ⟨fs₁, hmade, ?_⟩
    cases hstale with
    | nothing hno => exact ⟨.refl fs₁, .refl fs₁⟩
    | removed hl he hu => exact ⟨unlink_keepsSpots hu, (FileSystem.unlink_socket hl he hu).2.1.extends_⟩
    | refused hl hno => exact ⟨.refl fs₁, .refl fs₁⟩
    | failed => exact ⟨.refl fs₁, .refl fs₁⟩

end RuntimeSocketFile

namespace SocketPath

theorem apply_socket_mode_keepsSpots {faults : Faults} {fs fs' : FileSystem} {p : SocketPath}
    (h : p.apply_socket_mode faults fs = .ok fs') : KeepsSpots fs fs' := by
  unfold apply_socket_mode at h
  split at h
  · cases h
    exact .refl fs
  · obtain ⟨-, rfl | ⟨loc, inode, old, -, hc⟩⟩ := FileSystem.chmod_ok (Faults.call_ok h)
    · exact .refl fs'
    · exact Changed.keepsSpots hc (.inr ⟨_, _, rfl⟩)

theorem bind_after_prepared (umask : Nat) (faults : Faults) (fs : FileSystem) (p : SocketPath) :
    KeepsSpots (p.prepared faults fs) (p.bind umask faults fs).fs := by
  unfold bind prepared
  split
  · rename_i e fs₁ hp
    simp only [hp]
    exact .refl fs₁
  · rename_i fs₁ hp
    simp only [hp]
    split
    · exact .refl fs₁
    · rename_i fs₂ inode hb
      obtain ⟨loc, -, -, hc, -⟩ := FileSystem.bindSocket_ok (Faults.call_ok hb)
      have hbound : KeepsSpots fs₁ fs₂ := Changed.keepsSpots hc (.inr ⟨_, _, rfl⟩)
      split
      · exact hbound
      · split
        · exact hbound
        · rename_i fs₃ hmode
          exact hbound.trans (apply_socket_mode_keepsSpots hmode)

/-- A bind puts nothing but sockets where it makes no directory. -/
theorem bind_spot {umask : Nat} {faults : Faults} {fs : FileSystem} {p : SocketPath} {loc : Location}
    (hno : (p.bind umask faults fs).fs.entry loc ≠ some .Directory) (hs : Spot (fs.entry loc)) : Spot ((p.bind umask faults fs).fs.entry loc) := by
  obtain ⟨fs₁, hmade, hkeeps, hextends⟩ := RuntimeSocketFile.prepare_keepsSpots faults fs ⟨p.path⟩
  refine bind_after_prepared umask faults fs p loc (hkeeps loc ?_)
  by_cases hsame : fs₁.entry loc = fs.entry loc
  · rw [hsame]
    exact hs
  · obtain ⟨-, hd, -⟩ := hmade.made loc hsame
    have hlater : Extends fs₁ (p.bind umask faults fs).fs := by
      cases hb : (p.bind umask faults fs).made with
      | none =>
        rw [(bind_none hb).2.1]
        exact hextends
      | some inode =>
        obtain ⟨-, l, hm⟩ := bind_some hb
        exact hextends.trans hm.grows.extends_
    exact absurd (hlater.dir loc hd) hno

/-- A bind that returns `Ok` is served by the socket it made. -/
theorem bind_ok_served {umask : Nat} {faults : Faults} {fs : FileSystem} {p : SocketPath}
    (h : (p.bind umask faults fs).result = .ok ()) : ∃ inode loc, (p.bind umask faults fs).made = some inode ∧
      fs.next ≤ inode ∧ Made p (p.prepared faults fs) (p.bind umask faults fs).fs inode loc ∧
      (p.bind umask faults fs).fs.connect p.path = .ok inode := by
  cases hb : (p.bind umask faults fs).made with
  | none => exact absurd h (bind_none hb).2.2
  | some inode =>
    obtain ⟨-, loc, hm⟩ := bind_some hb
    obtain ⟨mode, hthere⟩ := hm.there
    have hown : AtOwn (p.bind umask faults fs).fs ⟨p.path, inode⟩ :=
      ⟨loc, mode, FileSystem.locate_extends hm.grows.extends_ hm.located, hthere⟩
    have hprepared : fs.Grows (p.prepared faults fs) := RuntimeSocketFile.prepare_grows faults fs _
    exact ⟨inode, loc, rfl, hm.new ▸ hprepared.next, hm, hown.connect⟩

end SocketPath

/-! ## A path that is fit for a bind -/

/-- A path a runtime may use, which leads to `loc` in a directory. -/
structure Ready (p : SocketPath) (loc : Location) (fs : FileSystem) : Prop where
  absolute : p.path.isAbsolute = true
  no_parent : .ParentDir ∉ p.path.components
  located : fs.locate false p.path = .ok loc
  parent : ∀ parent, p.path.parent = some parent → fs.isDir parent = true

namespace Ready

variable {p : SocketPath} {loc : Location} {fs fs' : FileSystem}

theorem of_extends (hr : Ready p loc fs) (h : Extends fs fs') : Ready p loc fs' := by
  refine ⟨hr.absolute, hr.no_parent, FileSystem.locate_extends h hr.located, fun parent hparent => ?_⟩
  obtain ⟨l, hl, hd⟩ := FileSystem.isDir_iff.1 (hr.parent parent hparent)
  exact FileSystem.isDir_iff.2 ⟨l, FileSystem.locate_extends h hl, h.dir l hd⟩

/-- Whoever has bound a path leaves it ready. -/
theorem of_bind (htree : fs.IsTree) {umask : Nat} {faults : Faults} (h : (p.bind umask faults fs).result = .ok ())
    (hl : (p.bind umask faults fs).fs.locate false p.path = .ok loc) :
    Ready p loc (p.bind umask faults fs).fs ∧ Spot ((p.bind umask faults fs).fs.entry loc) := by
  obtain ⟨inode, loc', hmade, -, hm, -⟩ := SocketPath.bind_ok_served h
  have hl' := FileSystem.locate_extends hm.grows.extends_ hm.located
  rw [hl] at hl'
  cases hl'
  obtain ⟨⟨fs₁, made, hprepare, -⟩, -⟩ := SocketPath.bind_some hmade
  obtain ⟨habs, hno⟩ := RuntimeSocketFile.prepare_ok_valid hprepare
  have hprepared : p.prepared faults fs = fs₁ := by rw [SocketPath.prepared, hprepare]
  have hready : Ready p loc fs₁ := by
    refine ⟨habs, hno, hprepared ▸ hm.located, fun parent hparent => ?_⟩
    have hdone := RuntimeSocketFile.prepare_prepares faults fs ⟨p.path⟩
    rw [hprepare] at hdone
    exact (hdone.ok htree rfl).2 parent hparent
  obtain ⟨mode, hthere⟩ := hm.there
  exact ⟨hready.of_extends (hprepared ▸ hm.grows.extends_), .inr ⟨inode, mode, hthere⟩⟩

/-- Nothing is left to make before the stale socket is looked for. -/
theorem prepare_eq (hr : Ready p loc fs) : (RuntimeSocketFile.mk p.path).prepare noFaults fs =
    (RuntimeSocketFile.mk p.path).remove_stale_socket noFaults fs := by
  obtain ⟨q, hvalid⟩ : ∃ q, AbsoluteRuntimePath.try_new (.Default "listener socket path") p.path = .ok q := by
    rcases AbsoluteRuntimePath.try_new_cases (.Default "listener socket path") p.path with ⟨q, hq, -⟩ | ⟨kind, -, hk⟩
    · exact ⟨q, hq⟩
    · rcases AbsoluteRuntimePath.invalid_iff.1 ⟨kind, hk⟩ with hempty | hrel | hmem
      · have habs := hr.absolute
        rw [hempty] at habs
        cases habs
      · rw [hr.absolute] at hrel
        cases hrel
      · exact absurd hmem hr.no_parent
  have hdirs : (RuntimeSocketFile.mk p.path).create_parent_directory noFaults fs = (.ok (), fs) := by
    unfold RuntimeSocketFile.create_parent_directory
    split
    · rfl
    · rename_i parent hparent
      rw [FileSystem.createDirAll_of_isDir (fun depth again => noFaults (.mkdir depth again))
        (fun depth again => noFaults (.metadata depth again)) (fun _ _ => rfl) (hr.parent parent hparent)]
  unfold RuntimeSocketFile.prepare
  simp only [hvalid, hdirs]

/-- With nothing or a socket in the way, the path is cleared. -/
theorem prepares (hr : Ready p loc fs) (hs : Spot (fs.entry loc)) :
    ∃ fs₁, (RuntimeSocketFile.mk p.path).prepare noFaults fs = (.ok (), fs₁) ∧ fs₁.entry loc = none ∧
      fs₁.locate false p.path = .ok loc := by
  rw [hr.prepare_eq]
  unfold RuntimeSocketFile.remove_stale_socket
  simp only [Faults.call, noFaults, Bool.false_eq_true, if_false]
  rcases hs with hnone | ⟨inode, mode, he⟩
  · have hlstat : fs.lstat p.path = .error .NotFound := by
      simp only [FileSystem.lstat, hr.located, Bind.bind, Except.bind, hnone]
    refine ⟨fs, ?_, hnone, hr.located⟩
    simp only [hlstat]
  · have hlstat := FileSystem.lstat_ok.2 ⟨loc, hr.located, he⟩
    obtain ⟨fs₁, hu⟩ := FileSystem.unlink_of_lstat hlstat (by simp)
    obtain ⟨hc, hg, -⟩ := FileSystem.unlink_socket hr.located he hu
    have hsocket : (ExistingRuntimePathKind.from_file_type (.Socket inode mode)).is_socket = true :=
      is_socket_iff.2 ⟨inode, mode, rfl⟩
    refine ⟨fs₁, ?_, hc.self, FileSystem.locate_extends hg.extends_ hr.located⟩
    simp only [hlstat, hsocket, if_true, hu]

theorem bindSocket_of_none (mode : Nat) (hl : fs.locate false p.path = .ok loc) (hn : fs.entry loc = none) :
    ∃ fs', fs.bindSocket p.path mode = .ok (fs', fs.next) := by
  unfold FileSystem.bindSocket
  simp only [hl, Bind.bind, Except.bind]
  split
  · exact ⟨_, rfl⟩
  · rename_i e he
    rw [hn] at he
    cases he

/-- At a ready path a bind that no call fails succeeds, if nothing but a socket is there. -/
theorem bind_ok (hr : Ready p loc fs) (hs : Spot (fs.entry loc)) (umask : Nat) :
    (p.bind umask noFaults fs).result = .ok () := by
  obtain ⟨fs₁, hprepare, hnone, hl⟩ := hr.prepares hs
  obtain ⟨fs₂, hb⟩ := bindSocket_of_none umask hl hnone
  unfold SocketPath.bind
  simp only [hprepare, hb, Faults.call, noFaults, Bool.false_eq_true, if_false]
  cases hmode : p.socket_mode with
  | none => simp only [SocketPath.apply_socket_mode, hmode]
  | some mode =>
    obtain ⟨loc', hl', -, hc, -⟩ := FileSystem.bindSocket_ok hb
    rw [hl] at hl'
    cases hl'
    have hl₂ := FileSystem.locate_extends (FileSystem.bindSocket_grows hb).extends_ hl
    obtain ⟨fs₃, hchmod, -⟩ := FileSystem.chmod_socket mode
      (FileSystem.locate_follow hl₂ (by simp [hc.self])) hc.self
    simp only [SocketPath.apply_socket_mode, hmode, Faults.call, noFaults, Bool.false_eq_true, if_false, hchmod]

/-- Anything else in the way is left there, and the bind fails. -/
theorem bind_fails (hr : Ready p loc fs) (hno : ¬ Spot (fs.entry loc)) (umask : Nat) :
    (p.bind umask noFaults fs).result ≠ .ok () := by
  have hthere : ∃ e, fs.entry loc = some e := Option.ne_none_iff_exists'.1 fun hn => hno (.inl hn)
  obtain ⟨e, he⟩ := hthere
  have hsocket : ¬ (ExistingRuntimePathKind.from_file_type e).is_socket = true := by
    rw [is_socket_iff]
    rintro ⟨inode, mode, rfl⟩
    exact hno (.inr ⟨inode, mode, he⟩)
  have hlstat := FileSystem.lstat_ok.2 ⟨loc, hr.located, he⟩
  have hprepare := hr.prepare_eq
  unfold RuntimeSocketFile.remove_stale_socket at hprepare
  simp only [Faults.call, noFaults, Bool.false_eq_true, if_false, hlstat, if_neg hsocket] at hprepare
  unfold SocketPath.bind
  intro h
  simp only [hprepare] at h
  cases h

end Ready

/-! ## Over a whole run -/

inductive HostEvent where
  | world (event : WorldEvent)
  /-- The daemon of listener `i` is killed: its socket is left behind. -/
  | crash (i : Nat)

namespace World

def host_step (s : World) : HostEvent → Option World
  | .world event => s.step event
  | .crash i =>
    match s.live[i]? with
    | some _ => some { s with live := s.live.eraseIdx i }
    | none => none

/-- Others remove no directory and change no link. -/
def KeepsWays (s : World) : HostEvent → Prop
  | .world (.outside fs) => s.fs.Extends fs
  | _ => True

/-- No bind makes a directory of `loc`, and others put nothing there but sockets. -/
def LeavesSpot (loc : Location) (s : World) : HostEvent → Prop
  | .world (.outside fs) => Spot (s.fs.entry loc) → Spot (fs.entry loc)
  | .world (.bind umask faults socket) => (socket.bind umask faults s.fs).fs.entry loc ≠ some .Directory
  | _ => True

theorem step_fs {s t : World} {event : WorldEvent} (h : s.step event = some t) :
    match event with
    | .bind umask faults socket => t.fs = (socket.bind umask faults s.fs).fs
    | .drop _ => ∃ g : BoundSocketFile, t.fs = g.drop s.fs
    | .outside fs => t.fs = fs := by
  cases event with
  | bind umask faults socket =>
    simp only [step] at h
    split at h <;> cases h <;> rfl
  | drop i =>
    simp only [step] at h
    split at h
    · rename_i g _
      cases h
      exact ⟨g, rfl⟩
    · cases h
  | outside fs =>
    simp only [step, Option.ite_none_right_eq_some, Option.some.injEq] at h
    obtain ⟨-, rfl⟩ := h
    rfl

theorem host_step_fs {s t : World} {event : HostEvent} (hways : s.KeepsWays event) (h : s.host_step event = some t) :
    s.fs.Extends t.fs ∧ ∀ loc, s.LeavesSpot loc event → Spot (s.fs.entry loc) → Spot (t.fs.entry loc) := by
  cases event with
  | crash i =>
    simp only [host_step] at h
    split at h
    · cases h
      exact ⟨.refl s.fs, fun _ _ hs => hs⟩
    · cases h
  | world event =>
    have hfs := step_fs h
    cases event with
    | bind umask faults socket =>
      rw [hfs]
      exact ⟨(SocketPath.bind_grows umask faults s.fs socket).extends_, fun _ hc hs => SocketPath.bind_spot hc hs⟩
    | drop i =>
      obtain ⟨g, hg⟩ := hfs
      rw [hg]
      refine ⟨(g.drop_grows s.fs).1.extends_, fun loc _ hs => ?_⟩
      rcases g.drop_cases s.fs with ⟨hsame, -⟩ | ⟨_, _, _, -, -, hu⟩
      · rw [hsame]
        exact hs
      · exact unlink_keepsSpots hu loc hs
    | outside fs =>
      rw [hfs]
      exact ⟨hways, fun _ hc => hc⟩

/-- A daemon that could bind its path once can be started there again, whatever
daemons bind, drop and lose listeners anywhere meanwhile, however their calls
fail, and whatever others do who keep directories and links: if no call fails
the bind succeeds exactly when nothing but a socket is at the path, and then the
clients of the path get to the new listener. Nothing but a socket is there as
long as no bind makes a directory there, on the way to a path below it, and no
one else puts something there. -/
theorem daemon_restarts {fs : FileSystem} (htree : fs.IsTree) {umask : Nat} {faults : Faults} {p : SocketPath}
    (hbound : (p.bind umask faults fs).result = .ok ()) {loc : Location}
    (hloc : (p.bind umask faults fs).fs.locate false p.path = .ok loc) {live : List BoundSocketFile}
    {events : List HostEvent} {s : World}
    (hways : Along host_step KeepsWays ⟨(p.bind umask faults fs).fs, live⟩ events)
    (h : exec host_step ⟨(p.bind umask faults fs).fs, live⟩ events = some s) (umask' : Nat) :
    ((p.bind umask' noFaults s.fs).result = .ok () ↔ Spot (s.fs.entry loc)) ∧
    ((p.bind umask' noFaults s.fs).result = .ok () → ∃ inode, (p.bind umask' noFaults s.fs).made = some inode ∧
      s.fs.next ≤ inode ∧ (p.bind umask' noFaults s.fs).fs.connect p.path = .ok inode) ∧
    (Along host_step (LeavesSpot loc) ⟨(p.bind umask faults fs).fs, live⟩ events → Spot (s.fs.entry loc)) := by
  obtain ⟨hready₀, hspot₀⟩ := Ready.of_bind htree hbound hloc
  have hextends : (p.bind umask faults fs).fs.Extends s.fs :=
    exec_invariant_along (fun u : World => (p.bind umask faults fs).fs.Extends u.fs)
      (fun _ _ _ hu hguard hstep => hu.trans (host_step_fs hguard hstep).1) hways h (.refl _)
  have hready := hready₀.of_extends hextends
  refine ⟨⟨fun hok => ?_, fun hs => hready.bind_ok hs umask'⟩, fun hok => ?_, fun hleaves => ?_⟩
  · by_contra hno
    exact hready.bind_fails hno umask' hok
  · obtain ⟨inode, -, hmade, hnew, -, hserved⟩ := SocketPath.bind_ok_served hok
    exact ⟨inode, hmade, hnew, hserved⟩
  · have hboth := along_and hways hleaves
    exact exec_invariant_along (fun u : World => Spot (u.fs.entry loc))
      (fun _ _ _ hu hguard hstep => (host_step_fs hguard.1 hstep).2 loc hguard.2 hu) hboth h hspot₀

theorem bare_isTree : FileSystem.bare.IsTree := by
  intro dir name h
  simp [FileSystem.bare] at h

/-- The daemon at `/s` is killed, started again and killed again. -/
def killedTwice : List HostEvent := [.crash 0, .world (.bind 0o755 noFaults slashS), .crash 0]

theorem daemon_restarts_killedTwice : ∃ s,
    exec host_step ⟨(slashS.bind 0o755 noFaults .bare).fs, [⟨slashS.path, 0⟩]⟩ killedTwice = some s ∧
    s.live = [] ∧ Spot (s.fs.entry [[115]]) ∧ (slashS.bind 0o755 noFaults s.fs).result = .ok () ∧
    ∃ inode, s.fs.next ≤ inode ∧ (slashS.bind 0o755 noFaults s.fs).fs.connect slashS.path = .ok inode := by
  have hrun : ∃ s, exec host_step ⟨(slashS.bind 0o755 noFaults .bare).fs, [⟨slashS.path, 0⟩]⟩ killedTwice = some s ∧
      s.live = [] := ⟨_, rfl, rfl⟩
  obtain ⟨s, hs, hlive⟩ := hrun
  have hways : Along host_step KeepsWays ⟨(slashS.bind 0o755 noFaults .bare).fs, [⟨slashS.path, 0⟩]⟩ killedTwice :=
    ⟨trivial, fun _ _ => ⟨trivial, fun _ _ => ⟨trivial, fun _ _ => trivial⟩⟩⟩
  have hleaves : Along host_step (LeavesSpot [[115]]) ⟨(slashS.bind 0o755 noFaults .bare).fs, [⟨slashS.path, 0⟩]⟩
      killedTwice := by
    refine ⟨trivial, fun t ht => ⟨?_, fun _ _ => ⟨trivial, fun _ _ => trivial⟩⟩⟩
    cases ht
    intro hdirectory
    cases hdirectory
  obtain ⟨hiff, hserved, hspot⟩ := daemon_restarts bare_isTree rfl rfl hways hs 0o755
  have hok := hiff.2 (hspot hleaves)
  obtain ⟨inode, -, hnew, hconnect⟩ := hserved hok
  exact ⟨s, hs, hlive, hspot hleaves, hok, inode, hnew, hconnect⟩

end World

end TriadRuntime
