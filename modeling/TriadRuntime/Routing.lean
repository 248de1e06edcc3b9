import TriadRuntime.Cleanup
/-!
# Which listener a client gets to (`daemon.rs`, `async_runtime.rs`, `process.rs`)

The multi shells bind their sockets one after the other, each clearing its path
first. `remove_stale_socket` does not ask whose socket is in the way, so a path
that leads to the place of an earlier listener takes that place from it.

Trusted: a client that connects to a socket is in the queue of the listener
that bound it.
-/

open Systems

namespace TriadRuntime

/-! ## Where the sockets are after a `bind` -/

/-- A client of `p` gets to listener `i`. -/
def GetsTo (fs : FileSystem) (guards : List BoundSocketFile) (p : Path) (i : Nat) : Prop :=
  ∃ g, guards[i]? = some g ∧ fs.connect p = .ok g.inode

/-- The clients of each path get to the listener that has it. -/
def Routed (fs : FileSystem) (guards : List BoundSocketFile) (paths : List Path) : Prop :=
  ∀ (i : Nat) (p : Path), paths[i]? = some p → GetsTo fs guards p i

/-- No two paths lead to one place. -/
def ApartPaths (fs : FileSystem) (paths : List Path) : Prop := paths.Pairwise fun p q => ¬ fs.SamePlace p q

/-- The listeners bound so far, `fs₀` being the file system `bind` began with. -/
structure Placed (fs₀ fs : FileSystem) (guards : List BoundSocketFile) : Prop where
  grows : fs₀.Grows fs
  old : ∀ g ∈ guards, g.inode < fs.next
  distinct : guards.Pairwise fun g g' => g.inode ≠ g'.inode
  placed : ∀ g ∈ guards, ∃ loc, fs.locate false g.path = .ok loc ∧ ∀ target, fs.entry loc ≠ some (.Symlink target)
  own : ApartPaths fs₀ (guards.map (·.path)) → ∀ g ∈ guards, AtOwn fs g

namespace SocketPath

/-- A listener whose path leads elsewhere stays where it is. -/
theorem atOwn_bind {umask : Nat} {faults : Faults} {fs₀ fs : FileSystem} {p : SocketPath} {g : BoundSocketFile}
    (hgrows : fs₀.Grows fs) (hown : AtOwn fs g) (hapart : ¬ fs₀.SamePlace g.path p.path) :
    AtOwn (p.bind umask faults fs).fs g := by
  obtain ⟨l, mode, hl, he⟩ := hown
  have hprepared : fs.Grows (p.prepared faults fs) := RuntimeSocketFile.prepare_grows faults fs _
  have hl' := FileSystem.locate_extends hprepared.extends_ hl
  have hthere : (p.prepared faults fs).entry l = some (.Socket g.inode mode) := by
    refine RuntimeSocketFile.prepare_keeps faults fs _ he fun hsame => hapart ?_
    exact ⟨p.prepared faults fs, l, (hgrows.trans hprepared).extends_, hl', hsame⟩
  obtain ⟨mode', hkept⟩ := bind_keeps umask faults fs p hthere
  exact ⟨l, mode', FileSystem.locate_extends (bind_grows umask faults fs p).extends_ hl, hkept⟩

end SocketPath

namespace UnixShell

theorem placed_turn {umask : Nat} {faults : Faults} {fs₀ fs : FileSystem} {guards : List BoundSocketFile}
    {p : SocketPath} {inode : Nat} (hp : Placed fs₀ fs guards) (hmade : (p.bind umask faults fs).made = some inode) :
    Placed fs₀ (p.bind umask faults fs).fs (guards ++ [⟨p.path, inode⟩]) := by
  obtain ⟨-, loc, hm⟩ := SocketPath.bind_some hmade
  have hprepared : fs.Grows (p.prepared faults fs) := RuntimeSocketFile.prepare_grows faults fs _
  have hgrows := SocketPath.bind_grows umask faults fs p
  obtain ⟨mode, hthere⟩ := hm.there
  have hnew : (p.bind umask faults fs).fs.locate false p.path = .ok loc :=
    FileSystem.locate_extends hm.grows.extends_ hm.located
  refine ⟨hp.grows.trans hgrows, ?_, ?_, ?_, ?_⟩
  · intro g hg
    rcases List.mem_append.1 hg with hg | hg
    · exact Nat.lt_of_lt_of_le (hp.old g hg) hgrows.next
    · rw [List.mem_singleton.1 hg]
      exact (p.bind umask faults fs).fs.fresh loc inode mode hthere
  · refine List.pairwise_append.2 ⟨hp.distinct, by simp, fun g hg g' hg' => ?_⟩
    rw [List.mem_singleton.1 hg', hm.new]
    exact Nat.ne_of_lt (Nat.lt_of_lt_of_le (hp.old g hg) hprepared.next)
  · intro g hg
    rcases List.mem_append.1 hg with hg | hg
    · obtain ⟨l, hl, hno⟩ := hp.placed g hg
      exact ⟨l, FileSystem.locate_extends hgrows.extends_ hl, fun t ht => hno t ((hgrows.extends_.link l t).2 ht)⟩
    · rw [List.mem_singleton.1 hg]
      exact ⟨loc, hnew, by simp [hthere]⟩
  · intro hapart g hg
    rw [ApartPaths, List.map_append, List.pairwise_append] at hapart
    rcases List.mem_append.1 hg with hg | hg
    · exact SocketPath.atOwn_bind hp.grows (hp.own hapart.1 g hg)
        (hapart.2.2 _ (List.mem_map_of_mem hg) _ (by simp))
    · rw [List.mem_singleton.1 hg]
      exact ⟨loc, mode, hnew, hthere⟩

theorem bind_placed {shell : UnixShell} {limit : RequestConcurrencyLimit} {umask : Nat} (turns : List Turn)
    {fs₀ fs fs' : FileSystem} {guards guards' : List BoundSocketFile} (hp : Placed fs₀ fs guards)
    (h : shell.bind_listeners limit umask fs guards turns = .ok (fs', guards')) :
    Placed fs₀ fs' guards' ∧ guards'.map (·.path) = guards.map (·.path) ++ turns.map (·.socket.path) := by
  induction turns generalizing fs guards with
  | nil =>
    cases h
    exact ⟨hp, by simp⟩
  | cons turn rest ih =>
    simp only [bind_listeners] at h
    split at h
    · rename_i hok
      obtain ⟨inode, hmade⟩ := turn_ok_made hok
      simp only [hmade, Option.toList_some, List.map_cons, List.map_nil] at h
      obtain ⟨hp', hpaths⟩ := ih (placed_turn hp hmade) h
      exact ⟨hp', by simp [hpaths]⟩
    · cases h

/-- Clients get to the listener whose path they use just when no two paths lead
to one place. -/
theorem routed_iff {shell : UnixShell} {limit : RequestConcurrencyLimit} {umask : Nat} {fs fs' : FileSystem}
    {turns : List Turn} {guards : List BoundSocketFile} (h : shell.bind limit umask fs turns = .ok (fs', guards)) :
    Routed fs' guards (turns.map (·.socket.path)) ↔ ApartPaths fs (turns.map (·.socket.path)) := by
  obtain ⟨hp, hpaths⟩ := bind_placed turns
    ⟨.refl fs, by simp, by simp, by simp, by simp⟩ h
  rw [List.map_nil, List.nil_append] at hpaths
  rw [← hpaths]
  constructor
  · intro hrouted
    refine List.pairwise_iff_getElem.2 fun i j hi hj hij hsame => ?_
    rw [List.length_map] at hi hj
    rw [List.getElem_map, List.getElem_map] at hsame
    -- Both paths lead to one place here too, and there is one socket there.
    obtain ⟨fs'', loc, hx, hi', hj'⟩ := hsame
    have hsocket : ∀ (k : Nat) (hk : k < guards.length), fs''.locate false guards[k].path = .ok loc →
        ∃ mode, fs'.entry loc = some (.Socket guards[k].inode mode) := by
      intro k hk hl
      obtain ⟨l, hl', hno⟩ := hp.placed guards[k] (List.getElem_mem hk)
      cases FileSystem.locate_agrees (.of_extends hx hp.grows.extends_) hl hl'
      obtain ⟨g, hg, hconnect⟩ := hrouted k guards[k].path (by simp [hk])
      rw [List.getElem?_eq_getElem hk] at hg
      cases hg
      obtain ⟨l, mode, hl, he⟩ := FileSystem.connect_ok.1 hconnect
      rw [FileSystem.locate_follow hl' hno] at hl
      cases hl
      exact ⟨mode, he⟩
    obtain ⟨mode, hei⟩ := hsocket i hi hi'
    obtain ⟨mode', hej⟩ := hsocket j hj hj'
    rw [hei, Option.some.injEq, Entry.Socket.injEq] at hej
    exact List.pairwise_iff_getElem.1 hp.distinct i j hi hj hij hej.1
  · intro hapart i p hi
    rw [List.getElem?_map, Option.map_eq_some_iff] at hi
    obtain ⟨g, hg, rfl⟩ := hi
    exact ⟨g, hg, (hp.own hapart g (List.mem_of_getElem? hg)).connect⟩

end UnixShell

/-! ## Under which identity it is served -/

/-- What a pass hands on it hands on under the identity of the listener. -/
theorem Scan.Right.identity {ι : Type*} {ids : List ι} {scan : Scan ι} (hr : scan.Right ids) {x : Handed ι}
    (hx : x ∈ scan.handed) : ids[x.index]? = some x.listener := by
  by_cases htook : ∃ i stream, scan.reports = blocked i ++ [.accepted stream]
  · obtain ⟨i, stream, hreports⟩ := htook
    obtain ⟨id, hid, hhanded⟩ := hr.handed i stream hreports
    rw [hhanded] at hx
    cases List.mem_singleton.1 hx
    exact hid
  · rw [hr.untouched fun i stream hreports => htook ⟨i, stream, hreports⟩] at hx
    cases hx

/-- What is handed to `handle_stream` came to the listener it is handed under. -/
theorem SyncDaemon.handed_own {ι : Type*} {ids : List ι} {s : SyncDaemon ι} (hi : SyncDaemon.Inv ids s) {x : Handed ι}
    (hx : x ∈ s.handed) :
    ids[x.index]? = some x.listener ∧ ∃ row, s.listeners[x.index]? = some row ∧ x.stream ∈ row.arrived := by
  have hid : ids[x.index]? = some x.listener := by
    rcases List.mem_append.1 hx with hx | hx
    · obtain ⟨scan, hscan, hx⟩ := List.mem_flatMap.1 hx
      exact (hi.passes scan hscan).identity hx
    · have hscan := hi.scan
      unfold ScanAt at hscan
      split at hscan
      · rw [hscan.1] at hx
        cases hx
      · rw [hscan.2] at hx
        cases hx
      · obtain ⟨id, hid, hscan⟩ := hscan
        rw [hscan] at hx
        cases List.mem_singleton.1 hx
        exact hid
      · obtain ⟨id, hid, hscan⟩ := hscan
        rw [hscan] at hx
        cases List.mem_singleton.1 hx
        exact hid
      · rw [hscan] at hx
        cases hx
  have hrow := hid
  rw [← hi.named, List.getElem?_map, Option.map_eq_some_iff] at hrow
  obtain ⟨row, hrow, -⟩ := hrow
  refine ⟨hid, row, hrow, ?_⟩
  have hsent : x.stream ∈ s.sent x.index := List.mem_map.2 ⟨x, List.mem_filter.2 ⟨hx, by simp⟩, rfl⟩
  rw [hi.queues x.index row hrow]
  exact List.mem_append_left _ (List.mem_append_left _ hsent)

namespace SyncRun

variable {ι ε : Type*}

theorem after_daemon (s : SyncRun ι ε) (left : Option ServeResult) : (s.after left).daemon = s.daemon := by
  unfold after
  split <;> rfl

/-- The daemon is bound, takes a step of its own or is left alone. -/
theorem step_daemon {c : SyncConfig ι} {s t : SyncRun ι ε} {event : RunEvent ε} (h : step c s event = some t) :
    t.daemon = .bound c.kind (c.listener_sockets.map (·.1)) ∨ (s.phase ≠ .unbound ∧ ∃ e, s.daemon.step e = some t.daemon) ∨
      t.daemon = s.daemon ∧ (s.phase = .unbound → t.phase = .returned) := by
  cases event with
  | bind =>
    simp only [step] at h
    split at h
    · split at h
      · cases h
        exact .inl rfl
      · split at h
        · cases h
          exact .inr (.inr ⟨rfl, fun _ => rfl⟩)
        · cases h
    · cases h
  | connect j stream =>
    simp only [step] at h
    split at h
    · rename_i hp
      obtain ⟨daemon, hd, rfl⟩ := Option.map_eq_some_iff.1 h
      exact .inr (.inl ⟨by simp [hp], _, hd⟩)
    · rename_i hp
      obtain ⟨daemon, hd, rfl⟩ := Option.map_eq_some_iff.1 h
      exact .inr (.inl ⟨by simp [hp], _, hd⟩)
    · cases h
  | start result =>
    simp only [step] at h
    split at h
    · rename_i hp
      obtain ⟨daemon, hd, rfl⟩ := Option.map_eq_some_iff.1 h
      exact .inr (.inl ⟨by simp [hp], _, hd⟩)
    · cases h
      exact .inr (.inr ⟨rfl, fun _ => rfl⟩)
    · cases h
  | serve event =>
    simp only [step] at h
    split at h
    · rename_i hp
      obtain ⟨daemon, hd, rfl⟩ := Option.map_eq_some_iff.1 h
      refine .inr (.inl ⟨by simp [hp], event, ?_⟩)
      rw [after_daemon]
      exact hd
    · cases h
  | stop result =>
    simp only [step] at h
    split at h
    · cases h
      exact .inr (.inr ⟨rfl, fun _ => rfl⟩)
    · cases h

theorem handed_own {c : SyncConfig ι} {fs : FileSystem} {events : List (RunEvent ε)} {s : SyncRun ι ε}
    (h : exec (step c) (new c fs) events = some s) {x : Handed ι} (hx : x ∈ s.daemon.handed) :
    (c.listener_sockets.map (·.1))[x.index]? = some x.listener ∧
      ∃ row, s.daemon.listeners[x.index]? = some row ∧ x.stream ∈ row.arrived := by
  have hinv : SyncDaemon.Inv (c.listener_sockets.map (·.1)) s.daemon ∨
      (s.phase = .unbound ∨ s.phase = .returned) ∧ SyncDaemon.Inv [] s.daemon := by
    refine exec_invariant (fun s : SyncRun ι ε => SyncDaemon.Inv (c.listener_sockets.map (·.1)) s.daemon ∨
      (s.phase = .unbound ∨ s.phase = .returned) ∧ SyncDaemon.Inv [] s.daemon) ?_ h
      (.inr ⟨.inl rfl, SyncDaemon.inv_bound c.kind []⟩)
    rintro s event t (hi | ⟨hp | hp, hi⟩) hstep
    · rcases step_daemon hstep with hd | ⟨-, e, hd⟩ | ⟨hd, -⟩
      · exact .inl (hd ▸ SyncDaemon.inv_bound c.kind _)
      · exact .inl (SyncDaemon.inv_step hi hd)
      · exact .inl (hd ▸ hi)
    · rcases step_daemon hstep with hd | ⟨hno, -⟩ | ⟨hd, hret⟩
      · exact .inl (hd ▸ SyncDaemon.inv_bound c.kind _)
      · exact absurd hp hno
      · exact .inr ⟨.inr (hret hp), hd ▸ hi⟩
    · rw [step_returned hp] at hstep
      cases hstep
  rcases hinv with hi | ⟨-, hi⟩
  · exact SyncDaemon.handed_own hi hx
  · obtain ⟨hid, -⟩ := SyncDaemon.handed_own hi hx
    cases hid

/-- The guards are there until `run` ends. -/
def Holds (s : SyncRun ι ε) : Prop := s.phase ≠ .unbound ∧ s.phase ≠ .returned ∧ s.phase ≠ .unwound

/-- While it holds its guards, a shell has the files that `bind` left. -/
theorem bind_of_holds {c : SyncConfig ι} {fs : FileSystem} {events : List (RunEvent ε)} {s : SyncRun ι ε}
    (h : exec (step c) (new c fs) events = some s) (hs : s.Holds) : c.bind fs = .ok (s.fs, s.guards) := by
  have hinv : Inv s ∧ (s.phase = .unbound → s.fs = fs) ∧ (s.Holds → c.bind fs = .ok (s.fs, s.guards)) := by
    refine exec_invariant (fun s : SyncRun ι ε => Inv s ∧ (s.phase = .unbound → s.fs = fs) ∧
      (s.Holds → c.bind fs = .ok (s.fs, s.guards))) ?_ h
      ⟨inv_new c fs, fun _ => rfl, fun hs => absurd rfl hs.1⟩
    rintro s event t ⟨hi, hfs, hbind⟩ hstep
    refine ⟨inv_step hi hstep, ?_⟩
    cases step_moves hi hstep with
    | bind fs' guards hp hb =>
      rw [hfs hp] at hb
      exact ⟨by simp, fun _ => hb⟩
    | bind_fails stopped error hp hb herr => exact ⟨by simp, fun hs => absurd rfl hs.2.1⟩
    | connect j stream daemon hp => exact ⟨hfs, hbind⟩
    | start daemon hp hloops => exact ⟨by simp, fun _ => hbind (by simp [Holds, hp])⟩
    | start_fails error hp => exact ⟨by simp [drops], fun hs => absurd rfl hs.2.1⟩
    | serve_on event daemon hp hd hloops => exact ⟨hfs, hbind⟩
    | serve_done daemon hp hd => exact ⟨by simp, fun _ => hbind (by simp [Holds, hp])⟩
    | serve_fails daemon error hp hd => exact ⟨by simp, fun _ => hbind (by simp [Holds, hp])⟩
    | serve_unwinds event daemon hp hd hu => exact ⟨by simp [drops], fun hs => absurd rfl hs.2.2⟩
    | stop accept_result result hp => exact ⟨by simp [drops], fun hs => absurd rfl hs.2.1⟩
  exact hinv.2.2 hs

end SyncRun

namespace AsyncRun

variable {ι ε : Type*}

/-- What is handed to `handle_connection` was accepted by the listener whose
identity it is handed under. -/
theorem handed_own {c : AsyncConfig ι} {fs : FileSystem} {events : List (AsyncEvent ε)} {s : AsyncRun ι ε}
    (h : exec (step c) (new c fs) events = some s) {listener : ι} {stream : Stream}
    (hm : .handle_connection listener stream ∈ s.shell.calls) :
    ∃ j l, s.shell.view j = some l ∧ (c.listener_sockets.map (·.1))[j]? = some listener ∧ stream ∈ l.accepted := by
  have hinv : Inv c s ∧ (s.phase = .running → Shell.Named (c.listener_sockets.map (·.1)) s.shell) ∧
      (s.phase ≠ .running → s.shell.calls = []) := by
    refine exec_invariant (fun s : AsyncRun ι ε => Inv c s ∧
      (s.phase = .running → Shell.Named (c.listener_sockets.map (·.1)) s.shell) ∧
      (s.phase ≠ .running → s.shell.calls = [])) ?_ h ⟨⟨rfl, rfl⟩, by rintro ⟨⟩, fun _ => rfl⟩
    rintro s event t ⟨hi, hn, hcalls⟩ hstep
    refine ⟨(inv_step hi hstep).1, ?_⟩
    by_cases hp : s.phase = .running
    · obtain ⟨hpt, e, he, -⟩ := shell_step hp hstep
      exact ⟨fun _ => Shell.named_step (running_of_inv hi hp).shell (hn hp) he, fun hno => absurd hpt hno⟩
    · rcases (bind_step hp hstep).2 with ⟨hsame, hno, -⟩ | ⟨hpt, -, hbind⟩
      · exact ⟨fun hpt => absurd hpt hno, fun _ => by rw [hsame]; exact hcalls hp⟩
      · exact ⟨fun _ => Shell.named_bind hbind, fun hno => absurd hpt hno⟩
  obtain ⟨-, hn, hcalls⟩ := hinv
  by_cases hp : s.phase = .running
  · obtain ⟨j, l, hv, hid, hacc⟩ := (hn hp).call listener stream hm
    exact ⟨j, l, hv, by rw [← hid]; exact (hn hp).listener j l hv, hacc⟩
  · rw [hcalls hp] at hm
    cases hm

/-- No guard has been dropped. -/
def Holds (s : AsyncRun ι ε) : Prop := s.phase = .running ∧ s.files = s.made.map some

theorem holds_drop_file {s : AsyncRun ι ε} {j : Nat} (h : (s.drop_file j).Holds) :
    (s.drop_file j).fs = s.fs ∧ (s.drop_file j).made = s.made ∧ s.Holds := by
  rcases drop_file_cases s j with ⟨g, hg, heq⟩ | ⟨heq, -⟩
  · have hfiles := h.2
    rw [heq] at hfiles
    obtain ⟨hlt, -⟩ := List.getElem?_eq_some_iff.1 hg
    have hj : (s.files.set j none)[j]? = some none := List.getElem?_set_self hlt
    rw [show s.files.set j none = s.made.map some from hfiles, List.getElem?_map, Option.map_eq_some_iff] at hj
    obtain ⟨g', -, hnone⟩ := hj
    cases hnone
  · rw [heq] at h ⊢
    exact ⟨rfl, rfl, h⟩

theorem holds_drop_files {s : AsyncRun ι ε} (h : s.drop_files.Holds) : s.drop_files.fs = s.fs ∧ s.Holds := by
  have hempty : s.files = [] := by
    refine List.eq_nil_iff_forall_not_mem.2 fun row hrow => ?_
    have hmem : none ∈ s.drop_files.files := List.mem_map.2 ⟨row, hrow, rfl⟩
    rw [h.2] at hmem
    simp at hmem
  obtain ⟨hp, hfiles⟩ := h
  refine ⟨by simp [drop_files, hempty, Stopped.unwind], hp, ?_⟩
  simpa [drop_files, hempty] using hfiles

/-- From `bind` on, a shell that still has all its guards has touched no file. -/
theorem step_holds {c : AsyncConfig ι} {s t : AsyncRun ι ε} {event : AsyncEvent ε} (hp : s.phase = .running)
    (h : step c s event = some t) (ht : t.Holds) : t.fs = s.fs ∧ t.made = s.made ∧ s.Holds := by
  cases step_moves h with
  | bind fs guards shell hu => rw [hp] at hu; cases hu
  | bind_fails fs error hu => rw [hp] at hu; cases hu
  | bind_unwinds fs hu => rw [hp] at hu; cases hu
  | start_fails | stop =>
    obtain ⟨hfs, -, hfiles⟩ := holds_drop_files ht
    exact ⟨hfs, rfl, hp, hfiles⟩
  | task_ends =>
    obtain ⟨hfs, hmade, -, hfiles⟩ := holds_drop_file ht
    exact ⟨hfs, hmade, hp, hfiles⟩
  | _ => exact ⟨rfl, rfl, hp, ht.2⟩

theorem bind_of_holds {c : AsyncConfig ι} {fs : FileSystem} {events : List (AsyncEvent ε)} {s : AsyncRun ι ε}
    (h : exec (step c) (new c fs) events = some s) (hs : s.Holds) : c.bind fs = (s.fs, .ok s.made) := by
  have hinv : (s.phase = .unbound → s.fs = fs) ∧ (s.Holds → c.bind fs = (s.fs, .ok s.made)) := by
    refine exec_invariant (fun s : AsyncRun ι ε => (s.phase = .unbound → s.fs = fs) ∧
      (s.Holds → c.bind fs = (s.fs, .ok s.made))) ?_ h ⟨fun _ => rfl, by rintro ⟨⟨⟩, -⟩⟩
    rintro s event t ⟨hfs, hbind⟩ hstep
    by_cases hp : s.phase = .running
    · obtain ⟨hpt, -⟩ := shell_step hp hstep
      refine ⟨by simp [hpt], fun ht => ?_⟩
      obtain ⟨hfs', hmade, hs⟩ := step_holds hp hstep ht
      rw [hfs', hmade]
      exact hbind hs
    · obtain ⟨hpu, ⟨-, hno, hbound⟩ | ⟨hpt, hb, -⟩⟩ := bind_step hp hstep
      · exact ⟨fun hpt => absurd hpt hbound, fun ht => absurd ht.1 hno⟩
      · rw [hfs hpu] at hb
        exact ⟨by simp [hpt], fun _ => hb⟩
  exact hinv.2 hs

end AsyncRun

/-! ## Clients and identities -/

def socket_paths {ι : Type*} (listener_sockets : List (ι × Turn)) : List Path :=
  listener_sockets.map (·.2.socket.path)

/-- As long as a multi shell has its guards, the clients of each path get to the
listener of that path exactly when no two paths lead to one place; and what came
to a listener is handed to the runtime under the identity of that listener. -/
theorem clients_served_by_own_listener_iff {ι ε : Type*} :
    (∀ (c : SyncConfig ι) (fs : FileSystem) (events : List (RunEvent ε)) (s : SyncRun ι ε),
      exec (SyncRun.step c) (.new c fs) events = some s →
      (s.Holds → (Routed s.fs s.guards (socket_paths c.listener_sockets) ↔ ApartPaths fs (socket_paths c.listener_sockets))) ∧
        ∀ x ∈ s.daemon.handed, (c.listener_sockets.map (·.1))[x.index]? = some x.listener ∧
          ∃ row, s.daemon.listeners[x.index]? = some row ∧ x.stream ∈ row.arrived) ∧
    (∀ (c : AsyncConfig ι) (fs : FileSystem) (events : List (AsyncEvent ε)) (s : AsyncRun ι ε), c.kind = .Multi →
      exec (AsyncRun.step c) (.new c fs) events = some s →
      (s.Holds → (Routed s.fs s.made (socket_paths c.listener_sockets) ↔ ApartPaths fs (socket_paths c.listener_sockets))) ∧
        ∀ listener stream, .handle_connection listener stream ∈ s.shell.calls → ∃ j l, s.shell.view j = some l ∧
          (c.listener_sockets.map (·.1))[j]? = some listener ∧ stream ∈ l.accepted) := by
  have hpaths : ∀ listener_sockets : List (ι × Turn),
      (listener_sockets.map (·.2)).map (·.socket.path) = socket_paths listener_sockets := by
    intro listener_sockets
    simp [socket_paths, Function.comp_def]
  refine ⟨fun c fs events s h => ⟨fun hs => ?_, fun x hx => SyncRun.handed_own h hx⟩,
    fun c fs events s hk h => ⟨fun hs => ?_, fun listener stream hm => AsyncRun.handed_own h hm⟩⟩
  · rw [← hpaths]
    exact UnixShell.routed_iff (SyncRun.bind_of_holds h hs)
  · have hb := AsyncRun.bind_of_holds h hs
    unfold AsyncConfig.bind at hb
    rw [hk] at hb
    simp only [AsyncConfig.bind_unix] at hb
    split at hb
    · rename_i fs' guards hok
      cases hb
      rw [← hpaths]
      exact UnixShell.routed_iff hok
    · simp at hb

/-- The ordinary listener at `/s`, the meta listener at `/t`. -/
def ordinaryAndMeta : SyncConfig Bool :=
  ⟨.Multi, [(false, ⟨World.slashS, noFaults, false⟩), (true, ⟨World.slashT, noFaults, false⟩)], 0o755⟩

/-- `/s` and `/t` stay apart whatever directories are made. -/
theorem slashS_slashT_apart : ¬ FileSystem.bare.SamePlace World.slashS.path World.slashT.path := by
  rintro ⟨fs, loc, hx, hs, ht⟩
  have hs' : fs.locate false World.slashS.path = .ok [[115]] := FileSystem.locate_extends hx (by decide)
  have ht' : fs.locate false World.slashT.path = .ok [[116]] := FileSystem.locate_extends hx (by decide)
  rw [hs] at hs'
  rw [ht] at ht'
  cases hs'
  cases ht'

theorem clients_served_by_own_listener_twoPaths :
    ∃ s : SyncRun Bool Unit, exec (SyncRun.step ordinaryAndMeta) (.new ordinaryAndMeta .bare) [.bind] = some s ∧
      GetsTo s.fs s.guards World.slashS.path 0 ∧ GetsTo s.fs s.guards World.slashT.path 1 := by
  have hrun : ∃ s : SyncRun Bool Unit,
      exec (SyncRun.step ordinaryAndMeta) (.new ordinaryAndMeta .bare) [.bind] = some s ∧ s.Holds :=
    ⟨_, rfl, nofun, nofun, nofun⟩
  obtain ⟨s, hs, hholds⟩ := hrun
  have hrouted := ((clients_served_by_own_listener_iff.1 ordinaryAndMeta .bare [.bind] s hs).1 hholds).2
    (by simp [ApartPaths, socket_paths, ordinaryAndMeta, slashS_slashT_apart])
  exact ⟨s, hs, hrouted 0 _ rfl, hrouted 1 _ rfl⟩

/-- Whatever paths a shell of this kind binds, their clients get to them. -/
def AlwaysRouted (shell : UnixShell) : Prop :=
  ∀ (limit : RequestConcurrencyLimit) (umask : Nat) (fs fs' : FileSystem) (turns : List Turn)
    (guards : List BoundSocketFile), shell.bind limit umask fs turns = .ok (fs', guards) →
    Routed fs' guards (turns.map (·.socket.path))

/-- With `/s` twice, the clients of the first listener get to the second. -/
theorem equal_paths_misrouted : ¬ AlwaysRouted .SyncMulti ∧ ¬ AlwaysRouted .AsyncMulti := by
  have hrun : ∀ shell : UnixShell, ∃ fs guards, shell.bind Gate.one 0o755 .bare
      [⟨World.slashS, noFaults, false⟩, ⟨World.slashS, noFaults, false⟩] = .ok (fs, guards) ∧
      guards[0]? = some ⟨World.slashS.path, 0⟩ ∧ fs.connect World.slashS.path = .ok 1 := by
    intro shell
    cases shell <;> exact ⟨_, _, rfl, rfl, rfl⟩
  have hno : ∀ shell, ¬ AlwaysRouted shell := by
    intro shell hclaim
    obtain ⟨fs, guards, hb, hfirst, hsecond⟩ := hrun shell
    obtain ⟨g, hg, hconnect⟩ := hclaim _ _ _ _ _ _ hb 0 World.slashS.path rfl
    rw [hfirst] at hg
    cases hg
    rw [hsecond] at hconnect
    cases hconnect
  exact ⟨hno _, hno _⟩

end TriadRuntime
