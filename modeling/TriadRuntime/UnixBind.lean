import TriadRuntime.SocketFile
/-!
# Binding the Unix shells (`daemon.rs`, `async_runtime.rs`)

The four Unix shells bind their listeners one after the other. Between the
moment its socket file is there and the moment it gets its guard, a listener
still has its mode set and is made non-blocking (sync multi) or has its gate
started (async). When `bind` stops, the guards built so far are dropped.

Trusted: a panic unwinds; nobody else changes the files between the checks of a
guard and its removal, so that a guard that finds a socket can remove it.
-/

open Systems

namespace TriadRuntime

inductive UnixShell where
  | SyncSingle
  | SyncMulti
  | AsyncSingle
  | AsyncMulti
deriving DecidableEq, Repr

/-- Why `bind` stops without `Ok`. -/
inductive BindStop where
  | Err (error : BindError)
  /-- The constructor of the gate panics. -/
  | panicked
  /-- The future is dropped while it awaits the start of the gate. -/
  | dropped
deriving DecidableEq, Repr

/-- What happens around one turn of the loop: the calls that fail, and whether
the future is dropped in it. -/
structure Turn where
  socket : SocketPath
  faults : Faults
  dropped : Bool

/-- Where `bind` stopped: the file system and the guards before the turn, the
turn, the file system after it and, for the theorems only, every socket made. -/
structure Stopped where
  before : FileSystem
  guards : List BoundSocketFile
  turn : Turn
  after : FileSystem
  made : List Nat
  stop : BindStop

namespace UnixShell

/-- From the bound socket to its guard. -/
def before_guard (shell : UnixShell) (limit : RequestConcurrencyLimit) (turn : Turn) : Except BindStop Unit :=
  match shell with
  | .SyncSingle => .ok ()
  | .SyncMulti => if turn.faults .set_nonblocking then .error (.Err (.Io .Fault)) else .ok ()
  | .AsyncSingle | .AsyncMulti =>
    match Gate.start limit with
    | none => .error .panicked
    | some _ => if turn.dropped then .error .dropped else .ok ()

/-- The result of one turn, after `b`. -/
def turn_result (shell : UnixShell) (limit : RequestConcurrencyLimit) (turn : Turn) (b : SocketBind) :
    Except BindStop Unit :=
  match b.result with
  | .error e => .error (.Err e)
  | .ok () => shell.before_guard limit turn

def bind_listeners (shell : UnixShell) (limit : RequestConcurrencyLimit) (umask : Nat) :
    FileSystem → List BoundSocketFile → List Turn → Except Stopped (FileSystem × List BoundSocketFile)
  | fs, guards, [] => .ok (fs, guards)
  | fs, guards, turn :: rest =>
    let b := turn.socket.bind umask turn.faults fs
    match shell.turn_result limit turn b with
    | .ok () => bind_listeners shell limit umask b.fs (guards ++ b.made.toList.map (⟨turn.socket.path, ·⟩)) rest
    | .error stop => .error ⟨fs, guards, turn, b.fs, guards.map (·.inode) ++ b.made.toList, stop⟩

/-- `bind`; the single shells have one turn. -/
def bind (shell : UnixShell) (limit : RequestConcurrencyLimit) (umask : Nat) (fs : FileSystem) (turns : List Turn) :
    Except Stopped (FileSystem × List BoundSocketFile) :=
  bind_listeners shell limit umask fs [] turns

end UnixShell

namespace Stopped

/-- The file system once the guards have been dropped. -/
def unwind (fs : FileSystem) (guards : List BoundSocketFile) : FileSystem := guards.foldl BoundSocketFile.drop fs

/-- No socket that this `bind` made is on disk any more. -/
def LeavesNothing (s : Stopped) : Prop :=
  ∀ inode ∈ s.made, ∀ loc mode, (unwind s.after s.guards).entry loc ≠ some (.Socket inode mode)

/-- `bind` stopped before the socket file of its last turn appeared, or that
file is where the path of an earlier listener leads too. -/
def InTime (umask : Nat) (s : Stopped) : Prop :=
  ¬ s.turn.socket.Appears umask s.turn.faults s.before ∨
    ∃ g ∈ s.guards, ∃ loc, (s.turn.socket.prepared s.turn.faults s.before).locate false g.path = .ok loc ∧
      (s.turn.socket.prepared s.turn.faults s.before).locate false s.turn.socket.path = .ok loc

/-- The sockets left are those no guard's path leads to. -/
theorem unwind_sockets (guards : List BoundSocketFile) (fs : FileSystem) (loc : Location) (inode mode : Nat) :
    (unwind fs guards).entry loc = some (.Socket inode mode) ↔
      fs.entry loc = some (.Socket inode mode) ∧ ∀ g ∈ guards, fs.locate false g.path ≠ .ok loc := by
  induction guards generalizing fs with
  | nil => simp [unwind]
  | cons g gs ih =>
    obtain ⟨hg, hx⟩ := g.drop_grows fs
    have hlocate : ∀ p : Path, (g.drop fs).locate false p = .ok loc ↔ fs.locate false p = .ok loc := fun p =>
      ⟨FileSystem.locate_extends hx, FileSystem.locate_extends hg.extends_⟩
    have hstep : unwind fs (g :: gs) = unwind (g.drop fs) gs := rfl
    rw [hstep, ih, g.drop_sockets]
    simp only [List.forall_mem_cons, ne_eq, hlocate, and_assoc]

/-- Wherever the socket of one of `made` is on disk, one of `guards` looks. -/
def Looked (fs : FileSystem) (made guards : List BoundSocketFile) : Prop :=
  ∀ m ∈ made, ∀ loc mode, fs.entry loc = some (.Socket m.inode mode) → ∃ g ∈ guards, fs.locate false g.path = .ok loc

/-- A guard that is dropped leaves no socket that only it looked at. -/
theorem looked_drop {fs : FileSystem} {made guards rest : List BoundSocketFile} {g : BoundSocketFile}
    (h : Looked fs made guards) (hrest : ∀ g' ∈ guards, g' = g ∨ g' ∈ rest) : Looked (g.drop fs) made rest := by
  intro m hm loc mode he
  obtain ⟨hthere, hunseen⟩ := (g.drop_sockets fs loc m.inode mode).1 he
  obtain ⟨g', hg', hl⟩ := h m hm loc mode hthere
  rcases hrest g' hg' with rfl | hg'
  · exact absurd hl hunseen
  · exact ⟨g', hg', FileSystem.locate_extends (g.drop_grows fs).1.extends_ hl⟩

theorem looked_unwind {fs : FileSystem} {made guards : List BoundSocketFile} (h : Looked fs made guards) :
    Looked (unwind fs guards) made [] := by
  intro m hm loc mode he
  obtain ⟨hthere, hunseen⟩ := (unwind_sockets guards fs loc m.inode mode).1 he
  obtain ⟨g, hg, hl⟩ := h m hm loc mode hthere
  exact absurd hl (hunseen g hg)

end Stopped

namespace UnixShell

/-- The sockets made so far that are still on disk are where guards look. -/
structure Guarded (fs : FileSystem) (guards : List BoundSocketFile) : Prop where
  old : ∀ g ∈ guards, g.inode < fs.next
  looked : ∀ g ∈ guards, ∀ loc mode, fs.entry loc = some (.Socket g.inode mode) →
    ∃ g' ∈ guards, fs.locate false g'.path = .ok loc

theorem guarded_grows {fs fs' : FileSystem} {guards : List BoundSocketFile} (h : Guarded fs guards)
    (hg : fs.Grows fs') : Guarded fs' guards := by
  refine ⟨fun g hm => Nat.lt_of_lt_of_le (h.old g hm) hg.next, fun g hm loc mode he => ?_⟩
  obtain ⟨mode', he'⟩ := hg.old loc g.inode mode (h.old g hm) he
  obtain ⟨g', hm', hl⟩ := h.looked g hm loc mode' he'
  exact ⟨g', hm', FileSystem.locate_extends hg.extends_ hl⟩

theorem turn_ok_made {shell : UnixShell} {limit : RequestConcurrencyLimit} {umask : Nat} {turn : Turn}
    {fs : FileSystem} (h : shell.turn_result limit turn (turn.socket.bind umask turn.faults fs) = .ok ()) :
    ∃ inode, (turn.socket.bind umask turn.faults fs).made = some inode := by
  cases hm : (turn.socket.bind umask turn.faults fs).made with
  | some inode => exact ⟨inode, rfl⟩
  | none =>
    have hne := (SocketPath.bind_none hm).2.2
    unfold turn_result at h
    split at h
    · cases h
    · rename_i hok
      exact absurd hok hne

theorem guarded_made {fs fs' : FileSystem} {guards : List BoundSocketFile} {p : SocketPath} {inode : Nat}
    {loc : Location} (h : Guarded fs guards) (hm : SocketPath.Made p fs fs' inode loc) :
    Guarded fs' (guards ++ [⟨p.path, inode⟩]) := by
  have hold := guarded_grows h hm.grows
  refine ⟨fun g hg => ?_, fun g hg l mode he => ?_⟩
  · rcases List.mem_append.1 hg with hg | hg
    · exact hold.old g hg
    · rw [List.mem_singleton.1 hg]
      obtain ⟨mode, hthere⟩ := hm.there
      exact fs'.fresh loc inode mode hthere
  · rcases List.mem_append.1 hg with hg | hg
    · obtain ⟨g', hg', hl⟩ := hold.looked g hg l mode he
      exact ⟨g', List.mem_append_left _ hg', hl⟩
    · rw [List.mem_singleton.1 hg] at he
      refine ⟨_, List.mem_append_right _ (List.mem_singleton.2 rfl), ?_⟩
      rcases hm.others l inode mode he with ⟨rfl, -⟩ | ⟨-, m', he'⟩
      · exact FileSystem.locate_extends hm.grows.extends_ hm.located
      -- The number is new, so it was nowhere before.
      · have := fs.fresh l inode m' he'
        rw [hm.new] at this
        exact absurd this (Nat.lt_irrefl _)

/-- What is known where `bind` stops. -/
theorem bind_stopped {shell : UnixShell} {limit : RequestConcurrencyLimit} {umask : Nat} (turns : List Turn)
    {fs : FileSystem} {guards : List BoundSocketFile} {s : Stopped} (hg : Guarded fs guards)
    (h : shell.bind_listeners limit umask fs guards turns = .error s) :
    Guarded s.before s.guards ∧ s.after = (s.turn.socket.bind umask s.turn.faults s.before).fs ∧
      s.made = s.guards.map (·.inode) ++ (s.turn.socket.bind umask s.turn.faults s.before).made.toList := by
  induction turns generalizing fs guards with
  | nil => cases h
  | cons turn rest ih =>
    simp only [bind_listeners] at h
    split at h
    · rename_i hok
      obtain ⟨inode, hmade⟩ := turn_ok_made hok
      obtain ⟨-, loc, hm⟩ := SocketPath.bind_some hmade
      refine ih ?_ h
      simp only [hmade, Option.toList_some, List.map_cons, List.map_nil]
      exact guarded_made (guarded_grows hg (RuntimeSocketFile.prepare_grows turn.faults fs _)) hm
    · cases h
      exact ⟨hg, rfl, rfl⟩

/-- What is known after a `bind` that returns `Ok`. -/
theorem bind_guarded {shell : UnixShell} {limit : RequestConcurrencyLimit} {umask : Nat} (turns : List Turn)
    {fs fs' : FileSystem} {guards guards' : List BoundSocketFile} (hg : Guarded fs guards)
    (h : shell.bind_listeners limit umask fs guards turns = .ok (fs', guards')) :
    Guarded fs' guards' ∧ guards'.length = guards.length + turns.length := by
  induction turns generalizing fs guards with
  | nil => cases h; exact ⟨hg, rfl⟩
  | cons turn rest ih =>
    simp only [bind_listeners] at h
    split at h
    · rename_i hok
      obtain ⟨inode, hmade⟩ := turn_ok_made hok
      obtain ⟨-, loc, hm⟩ := SocketPath.bind_some hmade
      simp only [hmade, Option.toList_some, List.map_cons, List.map_nil] at h
      obtain ⟨hg', hlength⟩ := ih
        (guarded_made (guarded_grows hg (RuntimeSocketFile.prepare_grows turn.faults fs _)) hm) h
      refine ⟨hg', ?_⟩
      rw [hlength, List.length_append, List.length_singleton, List.length_cons]
      omega
    · cases h

/-- A `bind` that stops leaves none of its sockets on disk exactly when it stops
before the socket file of its last turn appears, or when the guard of an earlier
listener happens to look there. -/
theorem stopped_bind_leaves_nothing_iff (shell : UnixShell) (limit : RequestConcurrencyLimit) (umask : Nat)
    (fs : FileSystem) (turns : List Turn) (s : Stopped) (h : shell.bind limit umask fs turns = .error s) :
    s.LeavesNothing ↔ s.InTime umask := by
  obtain ⟨hg, hafter, hmade⟩ := bind_stopped turns ⟨by simp, by simp⟩ h
  have hgrows : s.before.Grows s.after := hafter ▸ SocketPath.bind_grows umask s.turn.faults s.before s.turn.socket
  -- The earlier sockets go in any case: their guards look where they are.
  have hearlier : ∀ inode ∈ s.guards.map (·.inode), ∀ loc mode,
      (Stopped.unwind s.after s.guards).entry loc ≠ some (.Socket inode mode) := by
    intro inode hm loc mode he
    obtain ⟨g, hgm, rfl⟩ := List.mem_map.1 hm
    obtain ⟨hthere, hunseen⟩ := (Stopped.unwind_sockets s.guards s.after loc g.inode mode).1 he
    obtain ⟨g', hg', hl⟩ := (guarded_grows hg hgrows).looked g hgm loc mode hthere
    exact hunseen g' hg' hl
  cases hnew : (s.turn.socket.bind umask s.turn.faults s.before).made with
  | none =>
    refine ⟨fun _ => .inl (SocketPath.bind_none hnew).1, fun _ inode hm => ?_⟩
    rw [hmade, hnew, Option.toList_none, List.append_nil] at hm
    exact hearlier inode hm
  | some inode =>
    obtain ⟨happears, loc, hm⟩ := SocketPath.bind_some hnew
    rw [← hafter] at hm
    obtain ⟨mode, hthere⟩ := hm.there
    constructor
    · intro hleaves
      have hgone := hleaves inode (by rw [hmade, hnew]; simp) loc mode
      rw [ne_eq, Stopped.unwind_sockets, not_and] at hgone
      have hseen := hgone hthere
      simp only [not_forall, ne_eq, not_not] at hseen
      obtain ⟨g, hgm, hl⟩ := hseen
      exact .inr ⟨g, hgm, loc, FileSystem.locate_extends hm.back hl, hm.located⟩
    · rintro (hno | ⟨g, hgm, l, hl, hl'⟩) i hi loc' mode' he
      · exact absurd happears hno
      · rw [hmade, hnew, Option.toList_some] at hi
        rcases List.mem_append.1 hi with hi | hi
        · exact hearlier i hi loc' mode' he
        · rw [List.mem_singleton.1 hi] at he
          obtain ⟨hthere', hunseen⟩ := (Stopped.unwind_sockets s.guards s.after loc' inode mode').1 he
          rw [hm.located] at hl'
          cases hl'
          -- The new socket is at `loc` only, and the guard `g` looks there.
          rcases hm.others loc' inode mode' hthere' with ⟨rfl, -⟩ | ⟨-, m', hold⟩
          · exact hunseen g hgm (FileSystem.locate_extends hm.grows.extends_ hl)
          · have := (s.turn.socket.prepared s.turn.faults s.before).fresh loc' inode m' hold
            rw [hm.new] at this
            exact absurd this (Nat.lt_irrefl _)

/-- `/s` is bound, and the second path is relative. -/
def rejectedSecond : List Turn := [⟨World.slashS, noFaults, false⟩, ⟨⟨[116], none⟩, noFaults, false⟩]

theorem stopped_bind_leaves_nothing_rejectedSecond :
    ∃ s, UnixShell.SyncMulti.bind Gate.one 0o755 .bare rejectedSecond = .error s ∧ s.guards.length = 1 ∧
      s.LeavesNothing := by
  refine ⟨_, rfl, rfl, (stopped_bind_leaves_nothing_iff .SyncMulti Gate.one 0o755 .bare rejectedSecond _ rfl).2 ?_⟩
  refine .inl ?_
  rintro ⟨fs', made, hp, -⟩
  cases hp

/-- A `bind` of this shell that stops always leaves nothing. -/
def AlwaysLeavesNothing (shell : UnixShell) : Prop :=
  ∀ (limit : RequestConcurrencyLimit) (umask : Nat) (fs : FileSystem) (turns : List Turn) (s : Stopped),
    shell.bind limit umask fs turns = .error s → s.LeavesNothing

/-- The mode of `/s` cannot be set. -/
def chmodFails : Turn := ⟨⟨[47, 115], some 0o600⟩, fun call => call = .set_permissions, false⟩

/-- In each shell a mode that cannot be set leaves the socket file behind. -/
theorem failed_chmod_leaves_socket :
    ¬ AlwaysLeavesNothing .SyncSingle ∧ ¬ AlwaysLeavesNothing .SyncMulti ∧ ¬ AlwaysLeavesNothing .AsyncSingle ∧
      ¬ AlwaysLeavesNothing .AsyncMulti := by
  have hrun : ∀ shell : UnixShell, ∃ s, shell.bind Gate.one 0o755 .bare [chmodFails] = .error s ∧ 0 ∈ s.made ∧
      (Stopped.unwind s.after s.guards).entry [[115]] = some (.Socket 0 0o755) := by
    intro shell
    cases shell <;> exact ⟨_, rfl, by decide, rfl⟩
  have hno : ∀ shell, ¬ AlwaysLeavesNothing shell := by
    intro shell hclaim
    obtain ⟨s, hs, hmade, hthere⟩ := hrun shell
    exact hclaim Gate.one 0o755 .bare [chmodFails] s hs 0 hmade [[115]] 0o755 hthere
  exact ⟨hno _, hno _, hno _, hno _⟩

end UnixShell

end TriadRuntime
