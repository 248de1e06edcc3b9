import TriadRuntime.SocketFile
/-!
# Which sockets a bind unlinks (`process.rs`)

`remove_stale_socket` unlinks whatever socket its path leads to, and the guard of
a listener that is dropped does the same. A socket is stale when no listener is
bound to it; that is known to the listeners, of any daemon, and not to the file
system.
-/

open Systems

namespace TriadRuntime

namespace RuntimeSocketFile

/-- The socket that a path leads to was there before, and is unlinked. -/
theorem unlinked {faults : Faults} {fs fs' : FileSystem} {f : RuntimeSocketFile} {loc : Location} {inode mode : Nat}
    (h : f.LeadsTo faults fs fs' loc inode mode) :
    fs.entry loc = some (.Socket inode mode) ∧ FileSystem.Changed fs' loc none (f.prepare faults fs).2 := by
  have hdirs := create_parent_directory_makesDirs faults fs f
  rw [h.parent] at hdirs
  exact ⟨hdirs.socket h.socket, (FileSystem.unlink_socket h.located h.socket (prepare_leadsTo h)).1⟩

/-- A path that leads to a socket is refused, or leads `prepare` there too. -/
theorem prepare_refuses {faults : Faults} {fs : FileSystem} {f : RuntimeSocketFile} {inode : Nat}
    (hconnect : fs.connect f.path = .ok inode) (hno : ∀ fs' loc mode, ¬ f.LeadsTo faults fs fs' loc inode mode) :
    fs.MakesDirs (f.prepare faults fs).2 ∧ ∃ error, (f.prepare faults fs).1 = .error error := by
  obtain ⟨loc, mode, hl, he⟩ := FileSystem.connect_ok.1 hconnect
  obtain ⟨loc', hl', hplace⟩ := FileSystem.locate_unfollow hl
  have hdirs := create_parent_directory_makesDirs faults fs f
  have hgrows := create_parent_directory_grows faults fs f
  unfold prepare
  cases htry : AbsoluteRuntimePath.try_new (.Default "listener socket path") f.path with
  | error e => exact ⟨.refl fs, _, rfl⟩
  | ok path =>
    cases hfs : f.create_parent_directory faults fs with
    | mk result fs' =>
      rw [hfs] at hdirs hgrows
      cases result with
      | error e => exact ⟨hdirs, _, rfl⟩
      | ok =>
        have hlocated := FileSystem.locate_extends hgrows.extends_ hl'
        simp only [remove_stale_socket]
        rcases hplace with rfl | ⟨target, htarget⟩
        · -- The socket is there; a call must have failed.
          have hsocket := hdirs.keeps he
          have hstat := FileSystem.lstat_ok.2 ⟨_, hlocated, hsocket⟩
          have his : (ExistingRuntimePathKind.from_file_type (.Socket inode mode)).is_socket = true :=
            is_socket_iff.2 ⟨inode, mode, rfl⟩
          cases hlstat : faults .symlink_metadata with
          | true => simpa [Faults.call, hlstat] using hdirs
          | false =>
            cases hremove : faults .remove_file with
            | true => simpa [Faults.call, hlstat, hremove, hstat, his] using hdirs
            | false => exact absurd ⟨⟨path, htry⟩, hfs, hlocated, hsocket, hlstat, hremove⟩ (hno fs' _ mode)
        · have hstat := FileSystem.lstat_ok.2 ⟨_, hlocated, hdirs.keeps htarget⟩
          have hnot : (ExistingRuntimePathKind.from_file_type (.Symlink target)).is_socket = false := rfl
          cases hlstat : faults .symlink_metadata with
          | true => simpa [Faults.call, hlstat] using hdirs
          | false => simpa [Faults.call, hlstat, hstat, hnot] using hdirs

end RuntimeSocketFile

namespace SocketPath

/-- A refused path binds nothing. -/
theorem bind_refused (umask : Nat) {faults : Faults} {fs : FileSystem} {p : SocketPath} {error : RuntimeSocketFileError}
    (h : ((RuntimeSocketFile.mk p.path).prepare faults fs).1 = .error error) :
    (p.bind umask faults fs).result ≠ .ok () ∧ (p.bind umask faults fs).fs = p.prepared faults fs := by
  unfold bind prepared
  cases hp : (RuntimeSocketFile.mk p.path).prepare faults fs with
  | mk result fs' =>
    rw [hp] at h
    cases h
    exact ⟨nofun, rfl⟩

/-- Once it has been unlinked, a socket is not back when `bind` is through. -/
theorem bind_gone {umask : Nat} {faults : Faults} {fs : FileSystem} {p : SocketPath} {loc : Location} {inode : Nat}
    (hnone : (p.prepared faults fs).entry loc = none) (hold : inode < fs.next) (mode : Nat) :
    (p.bind umask faults fs).fs.entry loc ≠ some (.Socket inode mode) := by
  intro he
  cases hmade : (p.bind umask faults fs).made with
  | none =>
    rw [(bind_none hmade).2.1, hnone] at he
    cases he
  | some new =>
    obtain ⟨-, l, hm⟩ := bind_some hmade
    have hgrows : fs.Grows (p.prepared faults fs) := RuntimeSocketFile.prepare_grows faults fs _
    rcases hm.others loc inode mode he with ⟨-, hi⟩ | ⟨-, m, he'⟩
    · rw [hm.new] at hi
      exact absurd (Nat.lt_of_lt_of_le hold hgrows.next) (by omega)
    · rw [hnone] at he'
      cases he'

end SocketPath

namespace World

/-- The path of a bind leads to no socket of a live listener, or the bind stops
before it would unlink one. -/
def Clear (s : World) : WorldEvent → Prop
  | .bind _ faults socket => ∀ g ∈ s.live, ∀ fs' loc mode,
    ¬ (RuntimeSocketFile.mk socket.path).LeadsTo faults s.fs fs' loc g.inode mode
  | _ => True

/-- A bind unlinks no socket of a live listener, and at a path where one is being
served it fails and leaves that listener there. -/
def RespectsLive (s : World) : WorldEvent → Prop
  | .bind umask faults socket =>
    (∀ loc inode mode, s.fs.entry loc = some (.Socket inode mode) →
      (∀ mode', (socket.bind umask faults s.fs).fs.entry loc ≠ some (.Socket inode mode')) →
      ∀ g ∈ s.live, g.inode ≠ inode) ∧
    ∀ g ∈ s.live, s.fs.connect socket.path = .ok g.inode →
      (socket.bind umask faults s.fs).result ≠ .ok () ∧
        (socket.bind umask faults s.fs).fs.connect socket.path = .ok g.inode
  | _ => True

theorem clear_iff_respectsLive (s : World) (event : WorldEvent) : s.Clear event ↔ s.RespectsLive event := by
  cases event with
  | drop i => exact .rfl
  | outside fs => exact .rfl
  | bind umask faults socket =>
    constructor
    · intro hclear
      refine ⟨fun loc inode mode he hgone g hg hi => ?_, fun g hg hconnect => ?_⟩
      · subst hi
        rcases (RuntimeSocketFile.mk socket.path).prepare_cases faults s.fs with hdirs | ⟨fs', l, i, m, hleads⟩
        · obtain ⟨mode', hkept⟩ := SocketPath.bind_keeps umask faults s.fs socket (hdirs.keeps he)
          exact hgone mode' hkept
        · obtain ⟨hold, hc⟩ := RuntimeSocketFile.unlinked hleads
          by_cases hll : loc = l
          · subst hll
            rw [he] at hold
            cases hold
            exact hclear g hg fs' loc _ hleads
          · have hdirs := RuntimeSocketFile.create_parent_directory_makesDirs faults s.fs ⟨socket.path⟩
            rw [hleads.parent] at hdirs
            obtain ⟨mode', hkept⟩ := SocketPath.bind_keeps umask faults s.fs socket
              ((hc.other loc hll).trans (hdirs.keeps he))
            exact hgone mode' hkept
      · obtain ⟨hdirs, error, herror⟩ := RuntimeSocketFile.prepare_refuses hconnect (hclear g hg)
        obtain ⟨hresult, hfs⟩ := SocketPath.bind_refused umask herror
        refine ⟨hresult, ?_⟩
        obtain ⟨loc, mode, hl, he⟩ := FileSystem.connect_ok.1 hconnect
        rw [hfs]
        exact FileSystem.connect_ok.2 ⟨loc, mode, FileSystem.locate_extends
          (RuntimeSocketFile.prepare_grows faults s.fs _).extends_ hl, hdirs.keeps he⟩
    · intro hrespects g hg fs' loc mode hleads
      obtain ⟨he, hc⟩ := RuntimeSocketFile.unlinked hleads
      exact hrespects.1 loc g.inode mode he
        (SocketPath.bind_gone hc.self (s.fs.fresh loc g.inode mode he)) g hg rfl

/-! ## Over a whole run -/

/-- Every live listener has its socket, at its path. -/
structure Serving (s : World) : Prop where
  own : ∀ g ∈ s.live, AtOwn s.fs g
  distinct : s.live.Pairwise fun g g' => g.inode ≠ g'.inode

theorem serving_bind {s t : World} {umask : Nat} {faults : Faults} {socket : SocketPath} (hs : Serving s)
    (hc : s.RespectsLive (.bind umask faults socket)) (h : s.step (.bind umask faults socket) = some t) : Serving t := by
  have hgrows := SocketPath.bind_grows umask faults s.fs socket
  have hkept : ∀ g ∈ s.live, AtOwn (socket.bind umask faults s.fs).fs g := by
    intro g hg
    obtain ⟨loc, mode, hl, he⟩ := hs.own g hg
    by_contra hno
    refine hc.1 loc g.inode mode he (fun mode' he' => hno ?_) g hg rfl
    exact ⟨loc, mode', FileSystem.locate_extends hgrows.extends_ hl, he'⟩
  simp only [step] at h
  split at h
  · rename_i inode hresult hmade
    cases h
    obtain ⟨-, loc, hm⟩ := SocketPath.bind_some hmade
    obtain ⟨mode, hthere⟩ := hm.there
    refine ⟨fun g hg => ?_, List.pairwise_append.2 ⟨hs.distinct, by simp, fun g hg g' hg' => ?_⟩⟩
    · rcases List.mem_append.1 hg with hg | hg
      · exact hkept g hg
      · rw [List.mem_singleton.1 hg]
        exact ⟨loc, mode, FileSystem.locate_extends hm.grows.extends_ hm.located, hthere⟩
    · -- The new number is past those of all sockets before.
      obtain ⟨l, m, -, he⟩ := hs.own g hg
      have hprepared : s.fs.Grows (socket.prepared faults s.fs) := RuntimeSocketFile.prepare_grows faults s.fs _
      rw [List.mem_singleton.1 hg', hm.new]
      exact Nat.ne_of_lt (Nat.lt_of_lt_of_le (s.fs.fresh l g.inode m he) hprepared.next)
  · cases h
    exact ⟨hkept, hs.distinct⟩

/-- A listener that is dropped takes its own socket with it and no other. -/
theorem serving_drop {s t : World} {i : Nat} (hs : Serving s) (h : s.step (.drop i) = some t) : Serving t := by
  simp only [step] at h
  split at h
  · rename_i g hg
    cases h
    refine ⟨fun g' hg' => ?_, hs.distinct.sublist (List.eraseIdx_sublist _ _)⟩
    obtain ⟨j, hji, hj⟩ := List.mem_eraseIdx_iff_getElem?.1 hg'
    obtain ⟨hilt, rfl⟩ := List.getElem?_eq_some_iff.1 hg
    obtain ⟨hjlt, rfl⟩ := List.getElem?_eq_some_iff.1 hj
    have hne : s.live[i].inode ≠ s.live[j].inode := by
      have hpairs := List.pairwise_iff_getElem.1 hs.distinct
      rcases Nat.lt_or_gt_of_ne hji with hlt | hlt
      · exact (hpairs j i hjlt hilt hlt).symm
      · exact hpairs i j hilt hjlt hlt
    obtain ⟨loc, mode, hl, he⟩ := hs.own s.live[j] (List.getElem_mem hjlt)
    refine ⟨loc, mode, FileSystem.locate_extends (s.live[i].drop_grows s.fs).1.extends_ hl, ?_⟩
    refine (s.live[i].drop_sockets s.fs loc _ mode).2 ⟨he, fun hsame => hne ?_⟩
    obtain ⟨loc', mode', hl', he'⟩ := hs.own s.live[i] (List.getElem_mem hilt)
    rw [hsame] at hl'
    cases hl'
    rw [he, Option.some.injEq, Entry.Socket.injEq] at he'
    exact he'.1.symm
  · cases h

/-- Nobody but daemons changes files. -/
def ShellsOnly (events : List WorldEvent) : Prop := ∀ fs, .outside fs ∉ events

/-- In every run, the binds respect the live listeners exactly when none of their
paths leads to the socket of one; and then, if all listeners were being served at
the start, all that are live later are. -/
theorem binds_respect_live_iff (fs : FileSystem) (live : List BoundSocketFile) (events : List WorldEvent) :
    (Along step Clear ⟨fs, live⟩ events ↔ Along step RespectsLive ⟨fs, live⟩ events) ∧
    ∀ s, Serving ⟨fs, live⟩ → ShellsOnly events → Along step Clear ⟨fs, live⟩ events →
      exec step ⟨fs, live⟩ events = some s → ∀ g ∈ s.live, AtOwn s.fs g ∧ s.fs.connect g.path = .ok g.inode := by
  refine ⟨along_congr fun s event => clear_iff_respectsLive s event, fun s hserving honly hclear hrun g hg => ?_⟩
  have hown : Serving s := by
    refine exec_invariant_along Serving ?_ (along_with (Q := fun event => ∀ fs, event ≠ .outside fs) hclear ?_) hrun hserving
    · rintro s event t hs ⟨hc, ho⟩ h
      cases event with
      | bind umask faults socket => exact serving_bind hs ((clear_iff_respectsLive s _).1 hc) h
      | drop i => exact serving_drop hs h
      | outside fs => exact absurd rfl (ho fs)
    · rintro event hm fs rfl
      exact honly fs hm
  exact ⟨hown.own g hg, (hown.own g hg).connect⟩

/-- `/s` is bound and served, and `/t` is bound. -/
theorem binds_respect_live_twoPaths :
    ∃ s, exec step ⟨.bare, []⟩ twoPaths = some s ∧ s.live.length = 2 ∧ s.fs.connect slashS.path = .ok 0 := by
  have hrun : ∃ s, exec step ⟨.bare, []⟩ twoPaths = some s ∧ s.live = [⟨slashS.path, 0⟩, ⟨slashT.path, 1⟩] :=
    ⟨_, rfl, rfl⟩
  obtain ⟨s, hs, hlive⟩ := hrun
  have hfirst : Clear ⟨.bare, []⟩ (.bind 0o755 noFaults slashS) := by
    intro g hg
    cases hg
  have hsecond : ∀ t, step ⟨.bare, []⟩ (.bind 0o755 noFaults slashS) = some t →
      t.Clear (.bind 0o755 noFaults slashT) := by
    rintro t ⟨⟩ g hg fs' loc mode ⟨-, hparent, hlocated, hsocket, -, -⟩
    -- `/t` leads to a place where there is nothing.
    cases hparent
    cases hlocated
    cases hsocket
  have hclear : Along step Clear ⟨.bare, []⟩ twoPaths := ⟨hfirst, fun t ht => ⟨hsecond t ht, fun _ _ => trivial⟩⟩
  refine ⟨s, hs, by simp [hlive], ?_⟩
  exact ((binds_respect_live_iff .bare [] twoPaths).2 s ⟨by simp, by simp⟩ (by simp [ShellsOnly, twoPaths]) hclear hs
    ⟨slashS.path, 0⟩ (by simp [hlive])).2

/-- Binds respect live listeners whatever is bound and served. -/
def AlwaysRespectsLive : Prop :=
  ∀ (fs : FileSystem) (live : List BoundSocketFile) (events : List WorldEvent),
    (∀ g ∈ live, AtOwn fs g) → Along step RespectsLive ⟨fs, live⟩ events

/-- B binds `/s` while A serves it: B's bind returns `Ok` and A's clients get to B. -/
theorem bind_takes_over : ¬ AlwaysRespectsLive := by
  intro hclaim
  have hfirst : ∃ s, step ⟨.bare, []⟩ (.bind 0o755 noFaults slashS) = some s ∧ s.live = [⟨slashS.path, 0⟩] ∧
      s.fs.connect slashS.path = .ok 0 ∧ (slashS.bind 0o755 noFaults s.fs).result = .ok () :=
    ⟨_, rfl, rfl, rfl, rfl⟩
  obtain ⟨s, hs, hlive, hconnect, hresult⟩ := hfirst
  have hboth := hclaim .bare [] [.bind 0o755 noFaults slashS, .bind 0o755 noFaults slashS] (by simp)
  obtain ⟨-, hserved⟩ := (hboth.2 s hs).1
  exact (hserved ⟨slashS.path, 0⟩ (by simp [hlive]) hconnect).1 hresult

end World

end TriadRuntime
