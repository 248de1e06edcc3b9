import TriadRuntime.SocketFile
/-!
# The mode of a socket file (`daemon.rs`, `async_runtime.rs`)

`bind_listener` and `AsyncSocketPath::bind` make the socket file with the mode
that the umask leaves and set the configured mode in a later call. The socket
listens from the first call on, so here the calls are steps of their own, and
local processes connect between any two of them.

Trusted: a peer may connect when it may write the socket file, judged once, when
it connects; what it has connected stays in the queue of the listener.
-/

open Systems

namespace TriadRuntime

/-- What a local process is to the socket file. -/
inductive LocalPeer where
  | owner
  | group
  | other
  | root
deriving DecidableEq, Repr

/-- The peer may write a file with this mode. -/
def LocalPeer.admitted (mode : Nat) : LocalPeer → Bool
  | .owner => mode.testBit 7
  | .group => mode.testBit 4
  | .other => mode.testBit 1
  | .root => true

/-- The mode of a new socket file. -/
def umask_mode (umask : Nat) : Nat := 0o777 &&& (0o777 ^^^ umask)

/-- A listener with a mode, and the calls of its `bind` that fail. -/
structure ModeConfig where
  path : Path
  mode : Nat
  umask : Nat
  faults : Faults

def ModeConfig.socket (c : ModeConfig) : SocketPath := ⟨c.path, some c.mode⟩

/-- An established connection; `mode`, for the theorems only, is what the socket
file carried then. -/
structure Connected where
  peer : LocalPeer
  mode : Nat
deriving DecidableEq, Repr

/-- Where the listener stands: in `bind`, or `serving` once that has returned. -/
inductive BindPoint where
  | start
  | prepared
  | bound (inode : Nat)
  | serving (inode : Nat)
  | failed
deriving DecidableEq, Repr

/-- A listener with what waits in its queue and what it has handed to its runtime. -/
structure ModeRun where
  fs : FileSystem
  point : BindPoint
  pending : List Connected
  handed : List Connected

inductive ModeEvent where
  | prepare
  | bind
  | set_permissions
  /-- A local process tries to connect. -/
  | connect (peer : LocalPeer) (path : Path)
  /-- The accept loop takes a connection and hands it on. -/
  | accept
deriving DecidableEq, Repr

namespace ModeRun

def new (fs : FileSystem) : ModeRun := ⟨fs, .start, [], []⟩

/-- The socket that listens. -/
def listening (s : ModeRun) : Option Nat :=
  match s.point with
  | .bound inode | .serving inode => some inode
  | _ => none

/-- What a peer gets at `path`: a connection with the socket `inode`, or nothing. -/
def connection (fs : FileSystem) (inode : Nat) (peer : LocalPeer) (path : Path) : Option Connected :=
  match fs.locate true path with
  | .ok loc =>
    match fs.entry loc with
    | some (.Socket i mode) => if i = inode ∧ peer.admitted mode = true then some ⟨peer, mode⟩ else none
    | _ => none
  | .error _ => none

def step (c : ModeConfig) (s : ModeRun) : ModeEvent → Option ModeRun
  | .prepare =>
    match s.point with
    | .start =>
      match (RuntimeSocketFile.mk c.socket.path).prepare c.faults s.fs with
      | (.error _, fs) => some { s with fs := fs, point := .failed }
      | (.ok (), fs) => some { s with fs := fs, point := .prepared }
    | _ => none
  | .bind =>
    match s.point with
    | .prepared =>
      match c.faults.call .bind (s.fs.bindSocket c.socket.path (umask_mode c.umask)) with
      | .error _ => some { s with point := .failed }
      | .ok (fs, inode) => some { s with fs := fs, point := if c.faults .listen then .failed else .bound inode }
    | _ => none
  | .set_permissions =>
    match s.point with
    | .bound inode =>
      match c.socket.apply_socket_mode c.faults s.fs with
      | .error _ => some { s with point := .failed }
      | .ok fs => some { s with fs := fs, point := .serving inode }
    | _ => none
  | .connect peer path =>
    match s.listening with
    | some inode => some { s with pending := s.pending ++ (connection s.fs inode peer path).toList }
    | none => some s
  | .accept =>
    match s.point, s.pending with
    | .serving _, first :: rest => some { s with pending := rest, handed := s.handed ++ [first] }
    | _, _ => none

/-- With nobody in between, the steps are the `bind` of the socket. -/
theorem bind_steps (c : ModeConfig) (fs : FileSystem) {b : SocketBind}
    (hb : b = c.socket.bind (umask_mode c.umask) c.faults fs) :
    (b.result = .ok () ∧ ∃ inode, b.made = some inode ∧
      exec (step c) (new fs) [.prepare, .bind, .set_permissions] = some ⟨b.fs, .serving inode, [], []⟩) ∨
    (b.result ≠ .ok () ∧ ∃ front back, [.prepare, .bind, .set_permissions] = front ++ back ∧
      exec (step c) (new fs) front = some ⟨b.fs, .failed, [], []⟩) := by
  subst hb
  unfold SocketPath.bind
  cases hprepare : (RuntimeSocketFile.mk c.socket.path).prepare c.faults fs with
  | mk prepared fs₁ =>
    cases prepared with
    | error e => exact .inr ⟨by simp, [.prepare], _, rfl, by simp [exec, step, new, hprepare]⟩
    | ok =>
      simp only
      cases hbind : c.faults.call .bind (fs₁.bindSocket c.socket.path (umask_mode c.umask)) with
      | error e => exact .inr ⟨by simp, [.prepare, .bind], _, rfl, by simp [exec, step, new, hprepare, hbind]⟩
      | ok made =>
        obtain ⟨fs₂, inode⟩ := made
        by_cases hlisten : c.faults .listen = true
        · simp only [hlisten, if_true]
          exact .inr ⟨by simp, [.prepare, .bind], _, rfl, by simp [exec, step, new, hprepare, hbind, hlisten]⟩
        · simp only [hlisten]
          cases hmode : c.socket.apply_socket_mode c.faults fs₂ with
          | error e =>
            exact .inr ⟨by simp, [.prepare, .bind, .set_permissions], [], rfl,
              by simp [exec, step, new, hprepare, hbind, hlisten, hmode]⟩
          | ok fs₃ => exact .inl ⟨rfl, inode, rfl, by simp [exec, step, new, hprepare, hbind, hlisten, hmode]⟩

/-! ## What a connection was established under -/

theorem connection_some {fs : FileSystem} {inode : Nat} {peer : LocalPeer} {path : Path} {conn : Connected} :
    connection fs inode peer path = some conn ↔ ∃ loc mode, fs.locate true path = .ok loc ∧
      fs.entry loc = some (.Socket inode mode) ∧ peer.admitted mode = true ∧ conn = ⟨peer, mode⟩ := by
  unfold connection
  constructor
  · intro h
    split at h
    · rename_i loc hl
      split at h
      · rename_i i mode he
        split at h
        · rename_i hadmitted
          obtain ⟨rfl, hadmitted⟩ := hadmitted
          cases h
          exact ⟨loc, mode, hl, he, hadmitted, rfl⟩
        · cases h
      · cases h
    · cases h
  · rintro ⟨loc, mode, hl, he, hadmitted, rfl⟩
    simp [hl, he, hadmitted]

/-- What holds in every state of the listener. -/
structure Inv (c : ModeConfig) (s : ModeRun) : Prop where
  /-- Until its mode is set the socket has that of the umask, and is in one place. -/
  bound : ∀ inode, s.point = .bound inode → ∃ loc, s.fs.locate false c.path = .ok loc ∧
    s.fs.entry loc = some (.Socket inode (umask_mode c.umask)) ∧
    ∀ l m, s.fs.entry l = some (.Socket inode m) → l = loc
  serving : ∀ inode, s.point = .serving inode → ∀ l m, s.fs.entry l = some (.Socket inode m) → m = c.mode
  idle : s.point = .start ∨ s.point = .prepared → s.pending = []
  unserved : (∀ inode, s.point ≠ .serving inode) → s.handed = []
  admitted : ∀ conn ∈ s.pending ++ s.handed, conn.peer.admitted conn.mode = true

/-- A socket just bound is in one place, with the mode of the umask. -/
theorem bound_socket {c : ModeConfig} {fs fs' : FileSystem} {inode : Nat}
    (h : c.faults.call .bind (fs.bindSocket c.socket.path (umask_mode c.umask)) = .ok (fs', inode)) :
    ∃ loc, fs'.locate false c.path = .ok loc ∧ fs'.entry loc = some (.Socket inode (umask_mode c.umask)) ∧
      ∀ l m, fs'.entry l = some (.Socket inode m) → l = loc := by
  obtain ⟨loc, hl, hn, hc, rfl, -⟩ := FileSystem.bindSocket_ok (Faults.call_ok h)
  have hgrows := FileSystem.bindSocket_grows (Faults.call_ok h)
  refine ⟨loc, FileSystem.locate_extends hgrows.extends_ hl, hc.self, fun l m he => ?_⟩
  by_contra hne
  rw [hc.other l hne] at he
  exact absurd (fs.fresh l _ m he) (Nat.lt_irrefl _)

/-- Setting the mode at the path sets that of the socket. -/
theorem moded_socket {c : ModeConfig} {fs fs' : FileSystem} {inode mode : Nat}
    (hbound : ∃ loc, fs.locate false c.path = .ok loc ∧ fs.entry loc = some (.Socket inode mode) ∧
      ∀ l m, fs.entry l = some (.Socket inode m) → l = loc)
    (h : c.socket.apply_socket_mode c.faults fs = .ok fs') :
    ∀ l m, fs'.entry l = some (.Socket inode m) → m = c.mode := by
  intro l m he
  obtain ⟨loc, hl, hsocket, hone⟩ := hbound
  obtain ⟨fs₁, hchmod, hc⟩ := FileSystem.chmod_socket c.mode (FileSystem.locate_follow hl (by simp [hsocket])) hsocket
  rw [show fs.chmod c.path c.mode = .ok fs' from Faults.call_ok h] at hchmod
  cases hchmod
  by_cases hll : l = loc
  · subst hll
    rw [hc.self] at he
    cases he
    rfl
  · rw [hc.other l hll] at he
    exact absurd (hone l m he) hll

theorem inv_new (c : ModeConfig) (fs : FileSystem) : Inv c (new fs) :=
  ⟨nofun, nofun, fun _ => rfl, fun _ => rfl, by simp [new]⟩

theorem inv_step {c : ModeConfig} {s t : ModeRun} {event : ModeEvent} (hi : Inv c s) (h : step c s event = some t) :
    Inv c t := by
  cases event with
  | prepare =>
    simp only [step] at h
    split at h
    · rename_i hp
      have hpending := hi.idle (.inl hp)
      have hhanded := hi.unserved (by simp [hp])
      split at h
      · cases h
        exact ⟨nofun, nofun, fun _ => hpending, fun _ => hhanded, hi.admitted⟩
      · cases h
        exact ⟨nofun, nofun, fun _ => hpending, fun _ => hhanded, hi.admitted⟩
    · cases h
  | bind =>
    simp only [step] at h
    split at h
    · rename_i hp
      have hpending := hi.idle (.inr hp)
      have hhanded := hi.unserved (by simp [hp])
      split at h
      · cases h
        exact ⟨nofun, nofun, fun _ => hpending, fun _ => hhanded, hi.admitted⟩
      · rename_i fs inode hbind
        cases h
        refine ⟨fun i hpoint => ?_, fun i hpoint => ?_, fun _ => hpending, fun _ => hhanded, hi.admitted⟩
        · simp only at hpoint
          split at hpoint <;> cases hpoint
          exact bound_socket hbind
        · simp only at hpoint
          split at hpoint <;> cases hpoint
    · cases h
  | set_permissions =>
    simp only [step] at h
    split at h
    · rename_i inode hp
      have hhanded := hi.unserved (by simp [hp])
      split at h
      · cases h
        exact ⟨nofun, nofun, by simp, fun _ => hhanded, hi.admitted⟩
      · rename_i fs hmode
        cases h
        refine ⟨nofun, ?_, by simp, fun _ => hhanded, hi.admitted⟩
        rintro i ⟨⟩
        exact moded_socket (hi.bound inode hp) hmode
    · cases h
  | connect peer path =>
    simp only [step] at h
    split at h
    · rename_i inode hlisten
      cases h
      refine ⟨hi.bound, hi.serving, fun hp => ?_, hi.unserved, fun conn hconn => ?_⟩
      · rcases hp with hp | hp <;> simp [listening, show s.point = _ from hp] at hlisten
      · simp only [List.mem_append, Option.mem_toList] at hconn
        rcases hconn with (hconn | hconn) | hconn
        · exact hi.admitted conn (List.mem_append_left _ hconn)
        · obtain ⟨loc, mode, -, -, hadmitted, rfl⟩ := connection_some.1 hconn
          exact hadmitted
        · exact hi.admitted conn (List.mem_append_right _ hconn)
    · cases h
      exact hi
  | accept =>
    simp only [step] at h
    split at h
    · rename_i inode first rest hp hpending
      cases h
      refine ⟨hi.bound, hi.serving, fun hp' => ?_, fun hno => absurd hp (hno inode), fun conn hconn => ?_⟩
      · rcases hp' with hp' | hp' <;> simp [show s.point = _ from hp'] at hp
      · refine hi.admitted conn ?_
        rw [hpending]
        simp only [List.mem_append, List.mem_cons, List.not_mem_nil, or_false] at hconn ⊢
        tauto
    · cases h

/-- No connection is established before the mode has been set, unless the umask
leaves that mode, or the peer is refused or goes elsewhere. -/
def Private (c : ModeConfig) (s : ModeRun) : ModeEvent → Prop
  | .connect peer path => ∀ inode, s.point = .bound inode → s.fs.connect path = .ok inode →
      umask_mode c.umask = c.mode ∨ peer.admitted (umask_mode c.umask) = false
  | _ => True

/-- Everything that waits or has been handed on was established under the mode. -/
def Moded (c : ModeConfig) (s : ModeRun) : Prop := ∀ conn ∈ s.pending ++ s.handed, conn.mode = c.mode

/-- A connection made before the mode is set is made under that of the umask. -/
theorem connected_bound {c : ModeConfig} {s : ModeRun} {inode : Nat} (hi : Inv c s) (hp : s.point = .bound inode)
    {peer : LocalPeer} {path : Path} {conn : Connected} :
    connection s.fs inode peer path = some conn ↔ s.fs.connect path = .ok inode ∧
      peer.admitted (umask_mode c.umask) = true ∧ conn = ⟨peer, umask_mode c.umask⟩ := by
  obtain ⟨loc, -, hsocket, hone⟩ := hi.bound inode hp
  constructor
  · intro h
    obtain ⟨l, mode, hl, he, hadmitted, rfl⟩ := connection_some.1 h
    have hll := hone l mode he
    subst hll
    rw [hsocket] at he
    cases he
    exact ⟨FileSystem.connect_ok.2 ⟨l, _, hl, hsocket⟩, hadmitted, rfl⟩
  · rintro ⟨hconnect, hadmitted, rfl⟩
    obtain ⟨l, mode, hl, he⟩ := FileSystem.connect_ok.1 hconnect
    have hll := hone l mode he
    subst hll
    exact connection_some.2 ⟨l, _, hl, hsocket, hadmitted, rfl⟩

theorem moded_step {c : ModeConfig} {s t : ModeRun} {event : ModeEvent} (hi : Inv c s) (hm : Moded c s)
    (hc : Private c s event) (h : step c s event = some t) : Moded c t := by
  cases event with
  | prepare =>
    simp only [step] at h
    split at h
    · split at h <;> cases h <;> exact hm
    · cases h
  | bind =>
    simp only [step] at h
    split at h
    · split at h <;> cases h <;> exact hm
    · cases h
  | set_permissions =>
    simp only [step] at h
    split at h
    · split at h <;> cases h <;> exact hm
    · cases h
  | connect peer path =>
    simp only [step] at h
    split at h
    · rename_i inode hlisten
      cases h
      intro conn hconn
      simp only [List.mem_append, Option.mem_toList] at hconn
      rcases hconn with (hconn | hconn) | hconn
      · exact hm conn (List.mem_append_left _ hconn)
      · unfold listening at hlisten
        split at hlisten
        · rename_i i hp
          cases hlisten
          obtain ⟨hconnect, hadmitted, rfl⟩ := (connected_bound hi hp).1 hconn
          rcases hc inode hp hconnect with hsame | hrefused
          · exact hsame
          · rw [hadmitted] at hrefused
            cases hrefused
        · rename_i i hp
          cases hlisten
          obtain ⟨loc, mode, -, he, -, rfl⟩ := connection_some.1 hconn
          exact hi.serving inode hp loc mode he
        · cases hlisten
      · exact hm conn (List.mem_append_right _ hconn)
    · cases h
      exact hm
  | accept =>
    simp only [step] at h
    split at h
    · rename_i inode first rest hp hpending
      cases h
      intro conn hconn
      refine hm conn ?_
      rw [hpending]
      simp only [List.mem_append, List.mem_cons, List.not_mem_nil, or_false] at hconn ⊢
      tauto
    · cases h

/-- The accept loop works off its queue. -/
theorem accepts_all {c : ModeConfig} {fs : FileSystem} {inode : Nat} (pending handed : List Connected) :
    exec (step c) ⟨fs, .serving inode, pending, handed⟩ (List.replicate pending.length .accept) =
      some ⟨fs, .serving inode, [], handed ++ pending⟩ := by
  induction pending generalizing handed with
  | nil => simp
  | cons first rest ih =>
    rw [List.length_cons, List.replicate_succ, exec]
    simp only [step, Option.bind_some]
    rw [ih, List.append_assoc, List.singleton_append]

/-- A connection made too early is served, once the mode has been set. -/
theorem early_connection_served {c : ModeConfig} {s t : ModeRun} {event : ModeEvent} (hi : Inv c s)
    (hc : ¬ Private c s event) (h : step c s event = some t) (hmode : c.faults .set_permissions = false) :
    ∃ later u, exec (step c) t later = some u ∧ ∃ conn ∈ u.handed, conn.mode ≠ c.mode := by
  cases event with
  | connect peer path =>
    simp only [Private, not_forall, not_or, Bool.not_eq_false] at hc
    obtain ⟨inode, hp, hconnect, hne, hadmitted⟩ := hc
    have hconn := (connected_bound hi hp).2 ⟨hconnect, hadmitted, rfl⟩
    simp only [step, listening, hp, hconn, Option.toList_some, Option.some.injEq] at h
    subst h
    -- The mode is set, and the queue is worked off.
    obtain ⟨loc, hl, hsocket, -⟩ := hi.bound inode hp
    obtain ⟨fs, hchmod, -⟩ := FileSystem.chmod_socket c.mode (FileSystem.locate_follow hl (by simp [hsocket])) hsocket
    have happly : c.socket.apply_socket_mode c.faults s.fs = .ok fs := by
      simp only [SocketPath.apply_socket_mode, ModeConfig.socket, Faults.call, hmode, Bool.false_eq_true, if_false]
      exact hchmod
    have hset : step c ⟨s.fs, .bound inode, s.pending ++ [⟨peer, umask_mode c.umask⟩], s.handed⟩ .set_permissions =
        some ⟨fs, .serving inode, s.pending ++ [⟨peer, umask_mode c.umask⟩], s.handed⟩ := by
      simp [step, happly]
    exact ⟨_, _, exec_cons.2 ⟨_, hset, accepts_all _ s.handed⟩, ⟨peer, umask_mode c.umask⟩, by simp, hne⟩
  | _ => exact absurd trivial hc

/-- However peers connect between the calls of `bind` and to the accept loop: if
none is let in before the mode has been set, all that is handed on was
established under the mode, by peers that it admits; one that is let in before
can be served. -/
theorem handed_under_mode (c : ModeConfig) (fs : FileSystem) (events : List ModeEvent) (s : ModeRun)
    (h : exec (step c) (new fs) events = some s) :
    (Along (step c) (Private c) (new fs) events →
      ∀ conn ∈ s.handed, conn.mode = c.mode ∧ conn.peer.admitted c.mode = true) ∧
    ∀ event t, step c s event = some t → ¬ Private c s event → c.faults .set_permissions = false →
      ∃ later u, exec (step c) t later = some u ∧ ∃ conn ∈ u.handed, conn.mode ≠ c.mode := by
  have hi : Inv c s := exec_invariant (Inv c) (fun _ _ _ hi hstep => inv_step hi hstep) h (inv_new c fs)
  refine ⟨fun hprivate conn hconn => ?_, fun event t hstep hc hmode => early_connection_served hi hc hstep hmode⟩
  have hm : Inv c s ∧ Moded c s := by
    refine exec_invariant_along (fun s => Inv c s ∧ Moded c s) ?_ hprivate h ⟨inv_new c fs, by simp [Moded, new]⟩
    rintro s event t ⟨hi, hm⟩ hc hstep
    exact ⟨inv_step hi hstep, moded_step hi hm hc hstep⟩
  have hmode := hm.2 conn (List.mem_append_right _ hconn)
  exact ⟨hmode, hmode ▸ hi.admitted conn (List.mem_append_right _ hconn)⟩

/-- The owner only, at `/s`; the umask lets the group in. -/
def ownerOnly : ModeConfig := ⟨World.slashS.path, 0o600, 0o007, noFaults⟩

/-- The owner connects once the mode has been set. -/
def ownerConnects : List ModeEvent :=
  [.prepare, .bind, .connect .other World.slashS.path, .set_permissions, .connect .group World.slashS.path,
    .connect .owner World.slashS.path, .accept]

theorem handed_under_mode_ownerConnects :
    ∃ s, exec (step ownerOnly) (new .bare) ownerConnects = some s ∧ s.handed = [⟨.owner, 0o600⟩] ∧
      ∀ conn ∈ s.handed, conn.mode = 0o600 ∧ conn.peer.admitted 0o600 = true := by
  refine ⟨_, rfl, rfl, (handed_under_mode ownerOnly .bare ownerConnects _ rfl).1 ?_⟩
  refine ⟨trivial, fun t ht => ⟨trivial, fun t' ht' => ⟨fun inode _ _ => .inr rfl, fun u hu => ?_⟩⟩⟩
  cases ht
  cases ht'
  cases hu
  refine ⟨trivial, ?_⟩
  rintro v ⟨⟩
  refine ⟨nofun, ?_⟩
  rintro w ⟨⟩
  exact ⟨nofun, fun _ _ => ⟨trivial, fun _ _ => trivial⟩⟩

/-- A peer of the group connects before the mode is set, and is served. -/
theorem early_peer_served :
    ¬ ∀ (c : ModeConfig) (fs : FileSystem) (events : List ModeEvent) (s : ModeRun),
      exec (step c) (new fs) events = some s → ∀ conn ∈ s.handed, conn.mode = c.mode ∧ conn.peer.admitted c.mode = true := by
  intro hclaim
  have hrun : ∃ s, exec (step ownerOnly) (new .bare)
      [.prepare, .bind, .connect .group World.slashS.path, .set_permissions, .accept] = some s ∧
      s.handed = [⟨.group, 0o770⟩] := ⟨_, rfl, rfl⟩
  obtain ⟨s, hs, hhanded⟩ := hrun
  obtain ⟨hmode, -⟩ := hclaim ownerOnly .bare _ s hs ⟨.group, 0o770⟩ (by simp [hhanded])
  cases hmode

end ModeRun

end TriadRuntime
