import TriadRuntime.AsyncShell
import TriadRuntime.SyncShell
/-!
# Running the async shells (`async_runtime.rs`, `tcp.rs`)

`run` of the three async shells around the machine of `AsyncShell`: it binds,
starts the runtime, serves, stops the gates and the runtime, and returns. The
guards of the socket files are owned by the daemon value, in the multi shell
from `serve_connections` on by the tasks of the listeners.

Trusted: `abort_all` and dropping the `JoinSet` only ask the tasks to end; a
task that ends drops its listener and with it the guard.
-/

open Systems

namespace TriadRuntime

/-- An `AsyncListenerError`, by the part of `run` it comes from. -/
inductive AsyncListenerError where
  | Bind (error : BindError)
  | Serve (error : ServeError)
deriving DecidableEq, Repr

/-- A shell before it is bound. `refused` is the error of `TcpListener::bind`,
if it fails; a TCP shell has no socket file, and its turn is not looked at. -/
structure AsyncConfig (ι : Type*) where
  kind : ShellKind
  listener_sockets : List (ι × Turn)
  limit : RequestConcurrencyLimit
  umask : Nat
  refused : Option FsError
  single : kind ≠ .Multi → listener_sockets.length = 1

namespace AsyncConfig

variable {ι : Type*}

/-- The bind of a Unix shell; the guards built are dropped if it stops. -/
def bind_unix (c : AsyncConfig ι) (shell : UnixShell) (fs : FileSystem) :
    FileSystem × Except BindStop (List BoundSocketFile) :=
  match shell.bind c.limit c.umask fs (c.listener_sockets.map (·.2)) with
  | .ok (fs, guards) => (fs, .ok guards)
  | .error stopped => (Stopped.unwind stopped.after stopped.guards, .error stopped.stop)

def bind (c : AsyncConfig ι) (fs : FileSystem) : FileSystem × Except BindStop (List BoundSocketFile) :=
  match c.kind with
  | .Single => c.bind_unix .AsyncSingle fs
  | .Multi => c.bind_unix .AsyncMulti fs
  | .Tcp =>
    match c.refused, Gate.start c.limit with
    | some error, _ => (fs, .error (.Err (.Io error)))
    | none, none => (fs, .error .panicked)
    | none, some _ => (fs, .ok [])

end AsyncConfig

/-- `running` from the end of `bind` on: the shell says where. `gone` if `bind`
panicked or its future was dropped. -/
inductive AsyncPhase where
  | unbound
  | running
  | failed
  | gone
deriving DecidableEq, Repr

/-- `files` has the guard of each listener until it is dropped, and `made`, for
the theorems only, all that `bind` has built. -/
structure AsyncRun (ι ε : Type*) where
  phase : AsyncPhase
  shell : Shell ι
  fs : FileSystem
  files : List (Option BoundSocketFile)
  made : List BoundSocketFile
  record : Record AsyncListenerError ε

inductive AsyncEvent (ε : Type*) where
  | bind
  /-- `runtime.start()` returns; if it does not, `run` goes no further. -/
  | start (result : Except ε Unit)
  | listener (j : Nat) (event : ListenerEvent)
  | join (j : Nat)
  | join_none
  | tell_gate
  /-- `runtime.stop()` returns, and `run` with it. -/
  | stop (result : Except ε Unit)

/-- The events after which the loop is no more. -/
def ListenerEvent.ends : ListenerEvent → Bool
  | .cancel => true
  | event => event.isFailure

/-- The events with which the runtime is called. -/
def ListenerEvent.calls : ListenerEvent → Bool
  | .handler_begins _ => true
  | _ => false

def LoopPhase.ended : LoopPhase → Bool
  | .failed _ | .cancelled => true
  | _ => false

namespace AsyncRun

variable {ι ε : Type*}

def new (c : AsyncConfig ι) (fs : FileSystem) : AsyncRun ι ε :=
  ⟨.unbound, ⟨c.kind, [], [], [], .bound, [], []⟩, fs, [], [], .fresh⟩

/-- The result of `serve_connections`, by the failure that was joined. -/
def accept_result : Option ServeError → Except AsyncListenerError Unit
  | some error => .error (.Serve error)
  | none => .ok ()

/-- The `match` at the end of `run`. -/
def run_result (serve_result : Except AsyncListenerError Unit) (stop_result : Except ε Unit) :
    LifecycleResult AsyncListenerError ε :=
  match serve_result, stop_result with
  | .error error, _ => .Listener error
  | .ok (), .error error => .Stop error
  | .ok (), .ok () => .Ok

/-- The task of listener `j` has ended, and its guard is dropped. -/
def drop_file (s : AsyncRun ι ε) (j : Nat) : AsyncRun ι ε :=
  match s.files[j]? with
  | some (some g) => { s with fs := g.drop s.fs, files := s.files.set j none }
  | _ => s

/-- The daemon is dropped with all its guards. -/
def drop_files (s : AsyncRun ι ε) : AsyncRun ι ε :=
  { s with fs := Stopped.unwind s.fs (s.files.filterMap id), files := s.files.map fun _ => none }

def step (c : AsyncConfig ι) (s : AsyncRun ι ε) : AsyncEvent ε → Option (AsyncRun ι ε)
  | .bind =>
    match s.phase with
    | .unbound =>
      match c.bind s.fs, Shell.bind c.kind c.limit (c.listener_sockets.map (·.1)) with
      | (fs, .ok guards), some shell =>
        some ⟨.running, shell, fs, guards.map some, guards, s.record.bound (.ok ()) none⟩
      | (fs, .error (.Err error)), _ =>
        some { s with
          phase := .failed
          fs := fs
          record := s.record.bound (.error (.Bind error)) (some (.Listener (.Bind error))) }
      | (fs, _), _ => some { s with phase := .gone, fs := fs }
    | _ => none
  | .start result =>
    match s.phase with
    | .running =>
      (s.shell.step (.start result.isOk)).map fun shell =>
        match result with
        | .ok () => { s with shell := shell, record := s.record.started (.ok ()) none }
        | .error error =>
          { s with shell := shell, record := s.record.started (.error error) (some (.Start error)) }.drop_files
    | _ => none
  | .listener j event =>
    match s.phase with
    | .running =>
      (s.shell.step (.listener j event)).map fun shell =>
        let t := { s with shell := shell, record := if event.calls then s.record.handled else s.record }
        if c.kind = .Multi ∧ event.ends = true then t.drop_file j else t
    | _ => none
  | .join j =>
    match s.phase with
    | .running =>
      (s.shell.step (.join j)).map fun shell =>
        match shell.phase with
        | .stopping failure _ => { s with shell := shell, record := s.record.served (accept_result failure) }
        | _ => s
    | _ => none
  | .join_none =>
    match s.phase with
    | .running =>
      (s.shell.step .join_none).map fun shell =>
        { s with shell := shell, record := s.record.served (accept_result none) }
    | _ => none
  | .tell_gate =>
    match s.phase with
    | .running => (s.shell.step .tell_gate).map fun shell => { s with shell := shell }
    | _ => none
  | .stop result =>
    match s.phase, s.shell.phase with
    | .running, .stopping failure _ =>
      (s.shell.step (.runtime_stop result.isOk)).map fun shell =>
        let t := { s with shell := shell, record := s.record.stopped result (run_result (accept_result failure) result) }
        -- The tasks of the multi shell keep theirs.
        if c.kind = .Multi then t else t.drop_files
    | _, _ => none

end AsyncRun

/-! ## The steps of the shell, one by one -/

namespace Shell

variable {ι : Type*}

theorem start_some {s t : Shell ι} {ok : Bool} (h : s.step (.start ok) = some t) :
    s.phase = .bound ∧ t = { s with calls := s.calls ++ [.start], phase := if ok then .serving else .returned .Start } := by
  simp only [step, Option.ite_none_right_eq_some, Option.some.injEq] at h
  exact ⟨h.1, h.2.symm⟩

theorem join_some {s t : Shell ι} {j : Nat} (h : s.step (.join j) = some t) :
    ∃ l error, s.phase = .serving ∧ s.view j = some l ∧ l.loop = .failed error ∧
      t = { s with phase := .stopping (some error) 0 } := by
  simp only [step] at h
  split at h
  · rename_i l hp hv
    split at h
    · rename_i error hloop
      cases h
      exact ⟨l, error, hp, hv, hloop, rfl⟩
    · cases h
  · cases h

theorem join_none_some {s t : Shell ι} (h : s.step .join_none = some t) :
    s.phase = .serving ∧ s.listeners = [] ∧ t = { s with phase := .stopping none 0 } := by
  simp only [step, Option.ite_none_right_eq_some, Option.some.injEq] at h
  exact ⟨h.1.1, h.1.2, h.2.symm⟩

theorem tell_gate_some {s t : Shell ι} (h : s.step .tell_gate = some t) :
    ∃ failure told l l', s.phase = .stopping failure told ∧ s.view told = some l ∧ l.step .stop_gate = some l' ∧
      t = { s.put told l' with phase := .stopping failure (told + 1) } := by
  simp only [step] at h
  split at h
  · rename_i failure told hp
    split at h
    · rename_i l hv
      obtain ⟨l', hl, rfl⟩ := Option.map_eq_some_iff.1 h
      exact ⟨failure, told, l, l', hp, hv, hl, rfl⟩
    · cases h
  · cases h

theorem runtime_stop_some {s t : Shell ι} {ok : Bool} {failure : Option ServeError} {told : Nat}
    (hp : s.phase = .stopping failure told) (h : s.step (.runtime_stop ok) = some t) :
    t = { s with calls := s.calls ++ [.stop], phase := .returned (result failure ok) } := by
  simp only [step, hp, Option.ite_none_right_eq_some, Option.some.injEq] at h
  exact h.2.symm

theorem put_length (s : Shell ι) (j : Nat) (l : Listener ι) : (s.put j l).listeners.length = s.listeners.length := by
  unfold put
  split
  · rfl
  · exact List.length_set

theorem view_lt {s : Shell ι} {j : Nat} {l : Listener ι} (h : s.view j = some l) : j < s.listeners.length := by
  obtain ⟨a, ha, -⟩ := view_some.1 h
  exact (List.getElem?_eq_some_iff.1 ha).1

end Shell

/-! ## Loops that have ended -/

namespace Listener

variable {ι : Type*}

/-- A loop can only end once. -/
theorem live_of_ends {l l' : Listener ι} {event : ListenerEvent} (he : event.ends = true) (h : l.step event = some l') :
    l.loop.ended = false ∧ l'.loop.ended = true := by
  cases event with
  | accept_fails =>
    simp only [step, Option.ite_none_right_eq_some, Option.some.injEq] at h
    obtain ⟨hloop, rfl⟩ := h
    exact ⟨by rw [hloop]; rfl, rfl⟩
  | context_fails =>
    simp only [step] at h
    split at h
    · rename_i stream hloop
      cases h
      exact ⟨by rw [hloop]; rfl, rfl⟩
    · cases h
  | permit_fails =>
    simp only [step] at h
    split at h
    · rename_i stream hloop
      split at h <;> cases h
      exact ⟨by rw [hloop]; rfl, rfl⟩
    · rename_i stream hloop
      split at h <;> cases h
      exact ⟨by rw [hloop]; rfl, rfl⟩
    · cases h
  | panics =>
    simp only [step, Option.ite_none_right_eq_some, Option.some.injEq] at h
    obtain ⟨hloop, rfl⟩ := h
    exact ⟨by rw [hloop]; rfl, rfl⟩
  | cancel =>
    simp only [step] at h
    split at h
    · cases h
    · cases h
    · rename_i stream hloop
      obtain ⟨gate, -, rfl⟩ := drop_permit_some h
      exact ⟨by rw [hloop]; rfl, rfl⟩
    · rename_i hf hc hloop
      obtain ⟨gate, -, rfl⟩ := gate_step_some h
      refine ⟨?_, rfl⟩
      unfold LoopPhase.ended
      split
      · rename_i error heq
        exact absurd heq (hf error)
      · rename_i heq
        exact absurd heq hc
      · rfl
  | _ => cases he

/-- The other steps do not end one, and leave one that has ended as it is. -/
theorem loop_of_not_ends {l l' : Listener ι} {event : ListenerEvent} (he : event.ends = false) (h : l.step event = some l') :
    l'.loop.ended = l.loop.ended ∧ (l.loop.ended = true → l'.loop = l.loop) := by
  have hlive : ∀ phase : LoopPhase, phase.ended = false → l.loop = phase → ∀ phase' : LoopPhase, phase'.ended = false →
      phase'.ended = l.loop.ended ∧ (l.loop.ended = true → phase' = l.loop) := by
    rintro phase hp rfl phase' hp'
    exact ⟨hp'.trans hp.symm, fun ht => by rw [hp] at ht; cases ht⟩
  cases step_moves h with
  | accept stream rest hloop hpend => exact hlive _ rfl hloop _ rfl
  | fails event error hfail hloop => cases event <;> cases hfail <;> cases he
  | ask stream gate hloop hg => exact hlive _ rfl hloop _ rfl
  | admits i stream r gate hloop hr ha hg => exact hlive _ rfl hloop _ rfl
  | spawn stream hloop => exact hlive _ rfl hloop _ rfl
  | drops => cases he
  | abandons => cases he
  | _ => exact ⟨rfl, fun _ => rfl⟩

/-- A loop that has ended stays as it is. -/
theorem ended_step {l l' : Listener ι} {event : ListenerEvent} (he : l.loop.ended = true) (h : l.step event = some l') :
    l'.loop = l.loop := by
  cases hends : event.ends with
  | true =>
    rw [(live_of_ends hends h).1] at he
    cases he
  | false => exact (loop_of_not_ends hends h).2 he

end Listener

namespace Shell

variable {ι : Type*}

theorem loop_ended_step {s t : Shell ι} {event : ShellEvent} (ha : s.Apart) (h : s.step event = some t) {j : Nat}
    {l : Listener ι} (hv : s.view j = some l) (he : l.loop.ended = true) :
    ∃ l', t.view j = some l' ∧ l'.loop = l.loop := by
  rcases (step_view ha h).2 j with hsame | ⟨e, x, l', -, hx, hstep, ht⟩
  · exact ⟨l, hsame.trans hv, rfl⟩
  · rw [hv] at hx
    cases hx
    exact ⟨l', ht, Listener.ended_step he hstep⟩

theorem step_length {s t : Shell ι} {event : ShellEvent} (h : s.step event = some t) :
    t.listeners.length = s.listeners.length := by
  rcases step_cases h with ⟨ok, -, -, rfl⟩ | ⟨j, e, l, l', -, -, -, -, rfl⟩ | ⟨failure, -, -, rfl⟩ |
    ⟨failure, told, l, l', -, -, -, -, rfl⟩ | ⟨ok, failure, told, -, -, -, rfl⟩
  · rfl
  · exact put_length s j l'
  · rfl
  · exact put_length s told l'
  · rfl

theorem loops_run_false {s : Shell ι} (h : s.loops_run = false) : s.phase = .bound ∨ s.phase = .returned .Start := by
  unfold loops_run at h
  split at h
  · exact .inl ‹_›
  · exact .inr ‹_›
  · cases h

/-- Before the loops run, and where they never do, no listener has begun. -/
def Unbegun (s : Shell ι) : Prop := s.loops_run = false → ∀ j l, s.view j = some l → Idle l

theorem unbegun_step {s t : Shell ι} {event : ShellEvent} (ha : s.Apart) (hu : s.Unbegun) (h : s.step event = some t) :
    t.Unbegun := by
  intro hloops
  have ht := loops_run_false hloops
  rcases step_cases h with ⟨ok, -, hp, rfl⟩ | ⟨j, e, l, l', -, hv, hall, hl, rfl⟩ | ⟨failure, -, -, rfl⟩ |
    ⟨failure, told, l, l', -, -, -, -, rfl⟩ | ⟨ok, failure, told, -, -, -, rfl⟩
  · exact hu (by unfold loops_run; rw [hp])
  · have hphase : s.phase = .bound ∨ s.phase = .returned .Start := by
      rw [← put_phase s j l']
      exact ht
    have hidle := hu (by unfold loops_run; rcases hphase with hp | hp <;> rw [hp])
    exact view_all ha hv hl hidle (fun _ hx => hx) fun hx => (idle_step hx hphase hall hl).1
  · simp at ht
  · simp at ht
  · simp [result_ne_start] at ht

end Shell

namespace AsyncRun

variable {ι ε : Type*}

/-! ## What a step can do -/

/-- The step function once more, as a relation to split a step by. -/
inductive Moves (c : AsyncConfig ι) (s : AsyncRun ι ε) : AsyncEvent ε → AsyncRun ι ε → Prop
  | bind (fs guards shell) : s.phase = .unbound → c.bind s.fs = (fs, .ok guards) →
      Shell.bind c.kind c.limit (c.listener_sockets.map (·.1)) = some shell →
      Moves c s .bind ⟨.running, shell, fs, guards.map some, guards, s.record.bound (.ok ()) none⟩
  | bind_fails (fs error) : s.phase = .unbound →
      Moves c s .bind { s with
        phase := .failed
        fs := fs
        record := s.record.bound (.error (.Bind error)) (some (.Listener (.Bind error))) }
  | bind_unwinds (fs) : s.phase = .unbound → Moves c s .bind { s with phase := .gone, fs := fs }
  | start (shell) : s.phase = .running → s.shell.step (.start true) = some shell →
      Moves c s (.start (.ok ())) { s with shell := shell, record := s.record.started (.ok ()) none }
  | start_fails (error shell) : s.phase = .running → s.shell.step (.start false) = some shell →
      Moves c s (.start (.error error))
        { s with shell := shell, record := s.record.started (.error error) (some (.Start error)) }.drop_files
  | listener (j e shell) : s.phase = .running → s.shell.step (.listener j e) = some shell →
      (c.kind = .Multi → e.ends = false) →
      Moves c s (.listener j e) { s with shell := shell, record := if e.calls then s.record.handled else s.record }
  | task_ends (j e shell) : s.phase = .running → s.shell.step (.listener j e) = some shell → c.kind = .Multi →
      e.ends = true →
      Moves c s (.listener j e)
        ({ s with shell := shell, record := if e.calls then s.record.handled else s.record }.drop_file j)
  | join (j l error shell) : s.phase = .running → s.shell.step (.join j) = some shell → s.shell.phase = .serving →
      s.shell.view j = some l → l.loop = .failed error → shell = { s.shell with phase := .stopping (some error) 0 } →
      Moves c s (.join j) { s with shell := shell, record := s.record.served (accept_result (some error)) }
  | join_none (shell) : s.phase = .running → s.shell.step .join_none = some shell →
      Moves c s .join_none { s with shell := shell, record := s.record.served (accept_result none) }
  | tell_gate (shell) : s.phase = .running → s.shell.step .tell_gate = some shell →
      Moves c s .tell_gate { s with shell := shell }
  | stop_tasks (result failure told shell) : s.phase = .running → s.shell.phase = .stopping failure told →
      s.shell.step (.runtime_stop result.isOk) = some shell → c.kind = .Multi →
      Moves c s (.stop result)
        { s with shell := shell, record := s.record.stopped result (run_result (accept_result failure) result) }
  | stop (result failure told shell) : s.phase = .running → s.shell.phase = .stopping failure told →
      s.shell.step (.runtime_stop result.isOk) = some shell → c.kind ≠ .Multi →
      Moves c s (.stop result)
        { s with shell := shell, record := s.record.stopped result (run_result (accept_result failure) result) }.drop_files

theorem step_moves {c : AsyncConfig ι} {s t : AsyncRun ι ε} {event : AsyncEvent ε} (h : step c s event = some t) :
    Moves c s event t := by
  cases event with
  | bind =>
    simp only [step] at h
    split at h
    · rename_i hp
      split at h
      · rename_i fs guards shell hb hbind
        cases h
        exact .bind fs guards shell hp hb hbind
      · rename_i fs error _
        cases h
        exact .bind_fails fs error hp
      · rename_i fs _ _ _ _
        cases h
        exact .bind_unwinds fs hp
    · cases h
  | start result =>
    simp only [step] at h
    split at h
    · rename_i hp
      obtain ⟨shell, hshell, rfl⟩ := Option.map_eq_some_iff.1 h
      cases result with
      | ok => exact .start shell hp hshell
      | error error => exact .start_fails error shell hp hshell
    · cases h
  | listener j e =>
    simp only [step] at h
    split at h
    · rename_i hp
      obtain ⟨shell, hshell, rfl⟩ := Option.map_eq_some_iff.1 h
      by_cases hm : c.kind = .Multi ∧ e.ends = true
      · rw [if_pos hm]
        exact .task_ends j e shell hp hshell hm.1 hm.2
      · rw [if_neg hm]
        exact .listener j e shell hp hshell fun hk => Bool.eq_false_iff.2 fun hends => hm ⟨hk, hends⟩
    · cases h
  | join j =>
    simp only [step] at h
    split at h
    · rename_i hp
      obtain ⟨shell, hshell, rfl⟩ := Option.map_eq_some_iff.1 h
      obtain ⟨l, error, hserving, hv, hloop, rfl⟩ := Shell.join_some hshell
      exact .join j l error _ hp hshell hserving hv hloop rfl
    · cases h
  | join_none =>
    simp only [step] at h
    split at h
    · rename_i hp
      obtain ⟨shell, hshell, rfl⟩ := Option.map_eq_some_iff.1 h
      exact .join_none shell hp hshell
    · cases h
  | tell_gate =>
    simp only [step] at h
    split at h
    · rename_i hp
      obtain ⟨shell, hshell, rfl⟩ := Option.map_eq_some_iff.1 h
      exact .tell_gate shell hp hshell
    · cases h
  | stop result =>
    simp only [step] at h
    split at h
    · rename_i failure told hp hstop
      obtain ⟨shell, hshell, rfl⟩ := Option.map_eq_some_iff.1 h
      by_cases hk : c.kind = .Multi
      · rw [if_pos hk]
        exact .stop_tasks result failure told shell hp hstop hshell hk
      · rw [if_neg hk]
        exact .stop result failure told shell hp hstop hshell hk
    · cases h

/-! ## What holds along a run -/

/-- The record of a shell that has been bound, by where its `run` stands. -/
def RecordAt (r : Record AsyncListenerError ε) : ShellPhase → Prop
  | .bound =>
    r.bind_result = some (.ok ()) ∧ r.start_result = none ∧ r.accept_result = none ∧ r.stop_result = none
  | .serving => r.start_result = some (.ok ()) ∧ r.accept_result = none ∧ r.stop_result = none
  | .stopping failure _ =>
    r.start_result = some (.ok ()) ∧ r.accept_result = some (accept_result failure) ∧ r.stop_result = none
  | .returned .Start => r.result.isSome = true ∧ r.accept_result = none
  | .returned _ =>
    r.start_result = some (.ok ()) ∧ r.result.isSome = true ∧ ∃ failure, r.accept_result = some (accept_result failure)

/-- The result of the accept loops is the failure of a listener; it is `Ok` only
if there is none. -/
def JoinedAt (s : AsyncRun ι ε) : Prop :=
  ∀ failure, s.record.accept_result = some (accept_result failure) →
    match failure with
    | some error => ∃ j l, s.shell.view j = some l ∧ l.loop = .failed error
    | none => s.shell.listeners = []

structure Running (c : AsyncConfig ι) (s : AsyncRun ι ε) : Prop where
  shell : Shell.Inv c.limit s.shell
  kind : s.shell.kind = c.kind
  length : s.shell.listeners.length = c.listener_sockets.length
  unbegun : s.shell.Unbegun
  record : RecordAt s.record s.shell.phase
  joined : JoinedAt s

def Inv (c : AsyncConfig ι) (s : AsyncRun ι ε) : Prop :=
  match s.phase with
  | .unbound | .gone => s.record = .fresh ∧ s.shell.listeners = []
  | .failed => s.record.accept_result = none ∧ s.shell.listeners = []
  | .running => Running c s

theorem run_result_decides (serve_result : Except AsyncListenerError Unit) (stop_result : Except ε Unit) :
    Record.Decides serve_result stop_result (run_result serve_result stop_result) := by
  cases serve_result with
  | error error => exact .listener error stop_result
  | ok =>
    cases stop_result with
    | error error => exact .stop error
    | ok => exact .ok

theorem accept_result_inj {failure failure' : Option ServeError} (h : accept_result failure = accept_result failure') :
    failure = failure' := by
  cases failure <;> cases failure' <;> simp_all [accept_result]

/-- A step of the shell keeps what holds of it, given what it does to the record. -/
theorem running_step {c : AsyncConfig ι} {s t : AsyncRun ι ε} {event : ShellEvent} (hs : Running c s)
    (h : s.shell.step event = some t.shell) (hrecord : RecordAt t.record t.shell.phase)
    (hjoined : t.record.accept_result = s.record.accept_result ∨ JoinedAt t) : Running c t := by
  refine ⟨Shell.inv_step hs.shell h, (Shell.step_kind h).trans hs.kind, (Shell.step_length h).trans hs.length,
    Shell.unbegun_step hs.shell.apart hs.unbegun h, hrecord, ?_⟩
  rcases hjoined with hsame | hjoined
  · intro failure ha
    rw [hsame] at ha
    have hold := hs.joined failure ha
    cases failure with
    | some error =>
      obtain ⟨j, l, hv, hl⟩ := hold
      obtain ⟨l', hv', hl'⟩ := Shell.loop_ended_step hs.shell.apart h hv (by rw [hl]; rfl)
      exact ⟨j, l', hv', hl'.trans hl⟩
    | none =>
      apply List.eq_nil_of_length_eq_zero
      rw [Shell.step_length h, show s.shell.listeners = [] from hold]
      rfl
  · exact hjoined

/-- Dropping a guard changes the file system only. -/
theorem drop_file_keeps (s : AsyncRun ι ε) (j : Nat) :
    (s.drop_file j).phase = s.phase ∧ (s.drop_file j).shell = s.shell ∧ (s.drop_file j).record = s.record := by
  unfold drop_file
  split
  · exact ⟨rfl, rfl, rfl⟩
  · exact ⟨rfl, rfl, rfl⟩

theorem running_same {c : AsyncConfig ι} {s t : AsyncRun ι ε} (hs : Running c s) (hshell : t.shell = s.shell)
    (hrecord : t.record = s.record) : Running c t := by
  refine ⟨hshell ▸ hs.shell, hshell ▸ hs.kind, hshell ▸ hs.length, hshell ▸ hs.unbegun, ?_, ?_⟩
  · rw [hrecord, hshell]
    exact hs.record
  · unfold JoinedAt
    rw [hrecord, hshell]
    exact hs.joined

theorem inv_of_running {c : AsyncConfig ι} {s : AsyncRun ι ε} (hp : s.phase = .running) (hs : Running c s) : Inv c s := by
  rw [Inv, hp]
  exact hs

/-- What a shell just bound satisfies. -/
theorem running_bound {c : AsyncConfig ι} {s : AsyncRun ι ε} {shell : Shell ι} {fs : FileSystem}
    {files : List (Option BoundSocketFile)} {made : List BoundSocketFile} (hs : s.record = .fresh)
    (h : Shell.bind c.kind c.limit (c.listener_sockets.map (·.1)) = some shell) :
    Running c ⟨.running, shell, fs, files, made, s.record.bound (.ok ()) none⟩ := by
  obtain ⟨hb, hkind⟩ := Shell.bind_binding h
  refine ⟨Shell.inv_bind h, hkind, by rw [hb.length, List.length_map], fun _ j l hv => ?_, ?_, ?_⟩
  · obtain ⟨listener, gate, -, -, rfl⟩ := Shell.bind_view h hv
    exact ⟨rfl, rfl⟩
  · rw [hb.phase, hs]
    exact ⟨rfl, rfl, rfl, rfl⟩
  · intro failure ha
    simp [Record.bound, hs, Record.fresh] at ha

/-- The accept loops run only when the runtime has been started. -/
theorem started_of_loops {c : AsyncConfig ι} {s : AsyncRun ι ε} (hs : Running c s) (hloops : s.shell.loops_run = true) :
    s.record.start_result = some (.ok ()) := by
  have hrecord := hs.record
  unfold RecordAt at hrecord
  split at hrecord
  · rename_i hp
    simp [Shell.loops_run, hp] at hloops
  · exact hrecord.1
  · exact hrecord.1
  · rename_i hp
    simp [Shell.loops_run, hp] at hloops
  · exact hrecord.1

/-- A handler begins only when the loops run. -/
theorem started_of_calls {c : AsyncConfig ι} {s : AsyncRun ι ε} (hs : Running c s) {j : Nat} {l l' : Listener ι}
    {event : ListenerEvent} (hv : s.shell.view j = some l) (ha : s.shell.allows event = true) (h : l.step event = some l')
    (he : event.calls = true) : s.record.start_result = some (.ok ()) := by
  apply started_of_loops hs
  by_contra hno
  rw [Bool.not_eq_true] at hno
  cases event with
  | handler_begins k => exact (Shell.idle_step (hs.unbegun hno j l hv) (Shell.loops_run_false hno) ha h).2 k rfl
  | _ => cases he

theorem recordAt_handled {r : Record AsyncListenerError ε} {phase : ShellPhase} (h : RecordAt r phase) :
    RecordAt r.handled phase := by
  unfold RecordAt at h ⊢
  split at h <;> exact h

theorem running_of_inv {c : AsyncConfig ι} {s : AsyncRun ι ε} (hi : Inv c s) (hp : s.phase = .running) : Running c s := by
  rw [Inv, hp] at hi
  exact hi

/-- A step of a listener, told to the record if it calls the runtime. -/
theorem running_listener {c : AsyncConfig ι} {s : AsyncRun ι ε} {shell : Shell ι} {j : Nat} {e : ListenerEvent}
    (hs : Running c s) (h : s.shell.step (.listener j e) = some shell) :
    Running c { s with shell := shell, record := if e.calls then s.record.handled else s.record } ∧
      ((if e.calls then s.record.handled else s.record) = s.record ∨
        Record.Step s.record (if e.calls then s.record.handled else s.record)) := by
  obtain ⟨l, l', hv, ha, hl, -⟩ := Shell.step_listener.1 h
  have hphase := Shell.listener_phase h
  by_cases he : e.calls = true
  · rw [if_pos he]
    refine ⟨running_step hs h ?_ (.inl rfl), .inr (.handle _ (started_of_calls hs hv ha hl he))⟩
    simp only [hphase]
    exact recordAt_handled hs.record
  · rw [if_neg he]
    refine ⟨running_step hs h ?_ (.inl rfl), .inl rfl⟩
    simp only [hphase]
    exact hs.record

/-- The runtime has been stopped, and `run` has its result. -/
theorem running_stopped {c : AsyncConfig ι} {s : AsyncRun ι ε} {shell : Shell ι} {failure : Option ServeError} {told : Nat}
    {result : Except ε Unit} (hs : Running c s) (hstop : s.shell.phase = .stopping failure told)
    (h : s.shell.step (.runtime_stop result.isOk) = some shell) :
    Running c { s with shell := shell, record := s.record.stopped result (run_result (accept_result failure) result) } ∧
      Record.Step s.record (s.record.stopped result (run_result (accept_result failure) result)) := by
  have hreturned := Shell.runtime_stop_some hstop h
  have hrecord := hs.record
  rw [hstop] at hrecord
  refine ⟨running_step hs h ?_ (.inl rfl),
    .stop _ (accept_result failure) result _ hrecord.2.1 hrecord.2.2 (run_result_decides _ result)⟩
  simp only [hreturned]
  unfold RecordAt
  split
  · rename_i heq; cases heq
  · rename_i heq; cases heq
  · rename_i heq; cases heq
  · rename_i heq
    exact absurd (ShellPhase.returned.inj heq) (Shell.result_ne_start failure result.isOk)
  · exact ⟨hrecord.1, rfl, failure, hrecord.2.1⟩

/-- Each step keeps what is known, and is a step of the lifecycle or none. -/
theorem inv_step {c : AsyncConfig ι} {s t : AsyncRun ι ε} {event : AsyncEvent ε} (hi : Inv c s)
    (h : step c s event = some t) : Inv c t ∧ (t.record = s.record ∨ Record.Step s.record t.record) := by
  have hunbound : s.phase = .unbound → s.record = .fresh ∧ s.shell.listeners = [] := by
    intro hp
    rw [Inv, hp] at hi
    exact hi
  have hfresh : s.phase = .unbound → s.record.bind_result = none := by
    intro hp
    rw [(hunbound hp).1]
    rfl
  cases step_moves h with
  | bind fs guards shell hp hb hbind =>
    exact ⟨inv_of_running rfl (running_bound (hunbound hp).1 hbind), .inr (.bind _ (hfresh hp))⟩
  | bind_fails fs error hp =>
    exact ⟨⟨by rw [(hunbound hp).1]; rfl, (hunbound hp).2⟩, .inr (.bind_fails _ (.Bind error) (hfresh hp))⟩
  | bind_unwinds fs hp => exact ⟨hunbound hp, .inl rfl⟩
  | start shell hp hshell =>
    have hs := running_of_inv hi hp
    obtain ⟨hbound, rfl⟩ := Shell.start_some hshell
    have hrecord := hs.record
    rw [hbound] at hrecord
    exact ⟨inv_of_running hp (running_step hs hshell ⟨rfl, hrecord.2.2⟩ (.inl rfl)),
      .inr (.start _ hrecord.1 hrecord.2.1)⟩
  | start_fails error shell hp hshell =>
    have hs := running_of_inv hi hp
    obtain ⟨hbound, rfl⟩ := Shell.start_some hshell
    have hrecord := hs.record
    rw [hbound] at hrecord
    exact ⟨inv_of_running hp (running_step hs hshell ⟨rfl, hrecord.2.2.1⟩ (.inl rfl)),
      .inr (.start_fails _ error hrecord.1 hrecord.2.1)⟩
  | listener j e shell hp hshell =>
    obtain ⟨hrun, hrec⟩ := running_listener (running_of_inv hi hp) hshell
    exact ⟨inv_of_running hp hrun, hrec⟩
  | task_ends j e shell hp hshell =>
    obtain ⟨hrun, hrec⟩ := running_listener (running_of_inv hi hp) hshell
    obtain ⟨h1, h2, h3⟩ := drop_file_keeps (ε := ε)
      { s with shell := shell, record := if e.calls then s.record.handled else s.record } j
    exact ⟨inv_of_running (h1.trans hp) (running_same hrun h2 h3), h3 ▸ hrec⟩
  | join j l error shell hp hshell hserving hv hloop heq =>
    subst heq
    have hs := running_of_inv hi hp
    have hrecord := hs.record
    rw [hserving] at hrecord
    refine ⟨inv_of_running hp (running_step hs hshell ⟨hrecord.1, rfl, hrecord.2.2⟩ (.inr ?_)), .inr ?_⟩
    · intro failure ha
      cases accept_result_inj (Option.some.inj ha)
      exact ⟨j, l, hv, hloop⟩
    · exact .serve_ends _ (accept_result (some error)) hrecord.1 hrecord.2.1
  | join_none shell hp hshell =>
    have hs := running_of_inv hi hp
    obtain ⟨hserving, hnone, rfl⟩ := Shell.join_none_some hshell
    have hrecord := hs.record
    rw [hserving] at hrecord
    refine ⟨inv_of_running hp (running_step hs hshell ⟨hrecord.1, rfl, hrecord.2.2⟩ (.inr ?_)), .inr ?_⟩
    · intro failure ha
      cases accept_result_inj (Option.some.inj ha)
      exact hnone
    · exact .serve_ends _ (accept_result none) hrecord.1 hrecord.2.1
  | tell_gate shell hp hshell =>
    have hs := running_of_inv hi hp
    obtain ⟨failure, told, l, l', hstop, hv, hl, rfl⟩ := Shell.tell_gate_some hshell
    have hrecord := hs.record
    rw [hstop] at hrecord
    exact ⟨inv_of_running hp (running_step hs hshell hrecord (.inl rfl)), .inl rfl⟩
  | stop_tasks result failure told shell hp hstop hshell hk =>
    obtain ⟨hrun, hrec⟩ := running_stopped (running_of_inv hi hp) hstop hshell
    exact ⟨inv_of_running hp hrun, .inr hrec⟩
  | stop result failure told shell hp hstop hshell hk =>
    obtain ⟨hrun, hrec⟩ := running_stopped (running_of_inv hi hp) hstop hshell
    exact ⟨inv_of_running hp (running_same hrun rfl rfl), .inr hrec⟩

/-! ## The lifecycle of the async shells -/

theorem reaches_inv {c : AsyncConfig ι} {fs : FileSystem} {events : List (AsyncEvent ε)} {s : AsyncRun ι ε}
    (h : exec (step c) (new c fs) events = some s) : Inv c s :=
  exec_invariant (Inv c) (fun _ _ _ hi hstep => (inv_step hi hstep).1) h ⟨rfl, rfl⟩

theorem record_steps {c : AsyncConfig ι} {events : List (AsyncEvent ε)} {s t : AsyncRun ι ε} (hi : Inv c s)
    (h : exec (step c) s events = some t) : Relation.ReflTransGen Record.Step s.record t.record :=
  exec_refines (·.record) (Inv c) (fun _ _ _ hi hstep => (inv_step hi hstep).1)
    (fun _ _ _ hi hstep => (inv_step hi hstep).2) h hi

theorem obeys_lifecycle {c : AsyncConfig ι} {fs : FileSystem} {events : List (AsyncEvent ε)} {s : AsyncRun ι ε}
    (h : exec (step c) (new c fs) events = some s) : s.record.Obeys :=
  Record.steps_obey (record_steps (c := c) (s := new c fs) ⟨rfl, rfl⟩ h)

theorem running_of_view {c : AsyncConfig ι} {s : AsyncRun ι ε} (hi : Inv c s) {j : Nat} {l : Listener ι}
    (hv : s.shell.view j = some l) : Running c s := by
  have hlt := Shell.view_lt hv
  unfold Inv at hi
  split at hi
  · rw [hi.2] at hlt; cases hlt
  · rw [hi.2] at hlt; cases hlt
  · rw [hi.2] at hlt; cases hlt
  · exact hi

/-- A single shell has one listener. -/
theorem single_view {c : AsyncConfig ι} {s : AsyncRun ι ε} (hs : Running c s) (hk : c.kind ≠ .Multi) {i j : Nat}
    {l l' : Listener ι} (hi : s.shell.view i = some l) (hj : s.shell.view j = some l') : l = l' := by
  have h1 := Shell.view_lt hi
  have h2 := Shell.view_lt hj
  rw [hs.length, c.single hk] at h1 h2
  have hij : i = j := by omega
  subst hij
  rw [hi] at hj
  exact Option.some.inj hj

/-- Where the loops of a single shell have come to something, its loop has ended. -/
theorem ended_of_single {c : AsyncConfig ι} {s : AsyncRun ι ε} (hs : Running c s) (hk : c.kind ≠ .Multi)
    {failure : Option ServeError} (ha : s.record.accept_result = some (accept_result failure)) {j : Nat} {l : Listener ι}
    (hv : s.shell.view j = some l) : l.loop.ended = true := by
  have hjoined := hs.joined failure ha
  cases failure with
  | some error =>
    obtain ⟨i, l', hv', hloop⟩ := hjoined
    rw [single_view hs hk hv hv', hloop]
    rfl
  | none =>
    have hlt := Shell.view_lt hv
    rw [show s.shell.listeners = [] from hjoined] at hlt
    cases hlt

/-- When `runtime.stop()` has been called, every loop has ended or has been told
to end. -/
theorem loops_told {c : AsyncConfig ι} {s : AsyncRun ι ε} (hs : Running c s) (ho : s.record.Obeys)
    (hstop : .stop ∈ s.record.calls) {j : Nat} {l : Listener ι} (hv : s.shell.view j = some l) :
    l.loop.ended = true ∨ s.shell.allows .cancel = true := by
  have hrecord := hs.record
  have haccept := ho.stop_after hstop
  have hstopped := ho.stop_called.1 hstop
  unfold RecordAt at hrecord
  split at hrecord
  · rw [hrecord.2.2.2] at hstopped
    cases hstopped
  · rw [hrecord.2.2] at hstopped
    cases hstopped
  · rw [hrecord.2.2] at hstopped
    cases hstopped
  · rw [hrecord.2] at haccept
    cases haccept
  · rename_i result hne hp
    obtain ⟨failure, ha⟩ := hrecord.2.2
    by_cases hk : c.kind = .Multi
    · refine .inr ?_
      have haborted : s.shell.aborted = true := by
        unfold Shell.aborted
        rw [hp]
        cases result <;> first | rfl | exact absurd rfl hne
      simp [Shell.allows, haborted, hs.kind, hk]
    · exact .inl (ended_of_single hs hk ha hv)

/-- Where a handler has been spawned, the runtime has been started. -/
theorem started_of_spawned {c : AsyncConfig ι} {s : AsyncRun ι ε} (hs : Running c s) {j : Nat} {l : Listener ι}
    (hv : s.shell.view j = some l) (hne : l.handlers ≠ []) : s.record.start_result = some (.ok ()) := by
  apply started_of_loops hs
  by_contra hno
  rw [Bool.not_eq_true] at hno
  exact hne (hs.unbegun hno j l hv).1

/-- What the loops came to has the form it is given when they are joined. -/
theorem accept_result_form {c : AsyncConfig ι} {s : AsyncRun ι ε} {r : Except AsyncListenerError Unit} (hi : Inv c s)
    (h : s.record.accept_result = some r) : Running c s ∧ ∃ failure, r = accept_result failure := by
  unfold Inv at hi
  split at hi
  · rw [hi.1] at h; cases h
  · rw [hi.1] at h; cases h
  · rw [hi.1] at h; cases h
  · refine ⟨hi, ?_⟩
    have hrecord := hi.record
    unfold RecordAt at hrecord
    split at hrecord
    · rw [hrecord.2.2.1] at h; cases h
    · rw [hrecord.2.1] at h; cases h
    · rename_i failure told hp
      rw [hrecord.2.1] at h
      exact ⟨failure, (Option.some.inj h).symm⟩
    · rw [hrecord.2] at h; cases h
    · obtain ⟨failure, ha⟩ := hrecord.2.2
      rw [ha] at h
      exact ⟨failure, (Option.some.inj h).symm⟩

/-- The loops came to an error just when some listener has failed. -/
theorem accept_failed_iff {c : AsyncConfig ι} {s : AsyncRun ι ε} {r : Except AsyncListenerError Unit} (hi : Inv c s)
    (h : s.record.accept_result = some r) :
    (∃ error, r = .error error) ↔ ∃ j l error, s.shell.view j = some l ∧ l.loop = .failed error := by
  obtain ⟨hs, failure, rfl⟩ := accept_result_form hi h
  have hjoined := hs.joined failure h
  cases failure with
  | some error =>
    obtain ⟨j, l, hv, hloop⟩ := hjoined
    exact ⟨fun _ => ⟨j, l, error, hv, hloop⟩, fun _ => ⟨_, rfl⟩⟩
  | none =>
    constructor
    · rintro ⟨error, he⟩
      cases he
    · rintro ⟨j, l, error, hv, -⟩
      have hlt := Shell.view_lt hv
      rw [show s.shell.listeners = [] from hjoined] at hlt
      cases hlt

/-- The failure that is joined is the result, whatever ends later. -/
theorem first_joined {c : AsyncConfig ι} {fs : FileSystem} {front back : List (AsyncEvent ε)} {j : Nat} {s : AsyncRun ι ε}
    (h : exec (step c) (new c fs) (front ++ .join j :: back) = some s) :
    ∃ u l error, exec (step c) (new c fs) front = some u ∧ u.shell.view j = some l ∧ l.loop = .failed error ∧
      s.record.accept_result = some (.error (.Serve error)) := by
  obtain ⟨u, hu, hrest⟩ := exec_append.1 h
  obtain ⟨v, hv, hback⟩ := exec_cons.1 hrest
  have hiv := (inv_step (reaches_inv hu) hv).1
  cases step_moves hv with
  | join j l error shell hp hshell hserving hl hloop heq =>
    exact ⟨u, l, error, hu, hl, hloop, Record.accept_result_kept (record_steps hiv hback) rfl⟩

end AsyncRun

/-! ## Five shells, one lifecycle -/

/-- In each shell, however its calls, clients and listeners behave, the calls of
the runtime and the result of `run` obey the protocol of a lifecycle. In the
sync shells the loop fails just when an accept does, and a multi shell whose
`should_continue` stays false accepts no more and ends its loop with `Ok`. In
the async shells nothing is spawned before the start, every loop has ended or
been told to when the runtime is stopped, and the loops come to an error just
when a listener has failed, to that of the listener that is joined first. -/
theorem shells_obey_lifecycle {ι ε : Type*} :
    (∀ (c : SyncConfig ι) (fs : FileSystem) (events : List (RunEvent ε)) (s : SyncRun ι ε),
      exec (SyncRun.step c) (.new c fs) events = some s → s.record.Obeys ∧
        ∀ error, s.record.accept_result = some (.error error) ↔
          ∃ e, error = .Io e ∧ .serve (.accept_fails e) ∈ events) ∧
    (∀ (c : SyncConfig ι) (fs : FileSystem) (front back : List (RunEvent ε)) (s : SyncRun ι ε),
      exec (SyncRun.step c) (.new c fs) (front ++ .serve (.should_continue false) :: back) = some s →
      .serve (.should_continue true) ∉ back → .serve .accept ∉ back ∧ (s.record.accept_result = some (.ok ()) ∨
        ∃ t, SyncRun.step c s (.serve (.should_continue false)) = some t ∧ t.record.accept_result = some (.ok ()))) ∧
    (∀ (c : AsyncConfig ι) (fs : FileSystem) (events : List (AsyncEvent ε)) (s : AsyncRun ι ε),
      exec (AsyncRun.step c) (.new c fs) events = some s → s.record.Obeys ∧
        (∀ j l, s.shell.view j = some l → (l.handlers ≠ [] → s.record.start_result = some (.ok ())) ∧
          (.stop ∈ s.record.calls → l.loop.ended = true ∨ s.shell.allows .cancel = true)) ∧
        (∀ r, s.record.accept_result = some r →
          ((∃ error, r = .error error) ↔ ∃ j l error, s.shell.view j = some l ∧ l.loop = .failed error)) ∧
        ∀ front back j, events = front ++ .join j :: back →
          ∃ u l error, exec (AsyncRun.step c) (.new c fs) front = some u ∧ u.shell.view j = some l ∧
            l.loop = .failed error ∧ s.record.accept_result = some (.error (.Serve error))) := by
  refine ⟨fun c fs events s h => ⟨SyncRun.obeys_lifecycle h, SyncRun.accept_failed_iff h⟩,
    fun c fs front back s h hno => SyncRun.ends_after_false h hno, fun c fs events s h => ?_⟩
  have hi := AsyncRun.reaches_inv h
  have ho := AsyncRun.obeys_lifecycle h
  refine ⟨ho, fun j l hv => ?_, fun r hr => AsyncRun.accept_failed_iff hi hr, ?_⟩
  · have hs := AsyncRun.running_of_view hi hv
    exact ⟨AsyncRun.started_of_spawned hs hv, fun hstop => AsyncRun.loops_told hs ho hstop hv⟩
  · rintro front back j rfl
    exact AsyncRun.first_joined h

/-- A TCP shell; its turn is not looked at. -/
def atTcp : AsyncConfig Unit := ⟨.Tcp, [((), ⟨World.slashS, noFaults, false⟩)], Gate.one, 0o755, none, by simp⟩

/-- The accept fails, and so does the stop. -/
def failedAccept : List (AsyncEvent Unit) :=
  [.bind, .start (.ok ()), .listener 0 .accept_fails, .join 0, .tell_gate, .listener 0 .gate_handles, .stop (.error ())]

/-- A multi shell is told to end after a request, and stops. -/
def toldToEnd : List (RunEvent Unit) :=
  SyncRun.failedRequestMulti true ++ .serve (.should_continue false) :: [.stop (.ok ())]

theorem shells_obey_lifecycle_failedAccept :
    (∃ s, exec (AsyncRun.step atTcp) (.new atTcp .bare) failedAccept = some s ∧
      s.record.result = some (.Listener (.Serve .Io)) ∧ s.record.Obeys) ∧
    ∃ s, exec (SyncRun.step (SyncRun.atSlashS .Multi)) (.new (SyncRun.atSlashS .Multi) .bare) toldToEnd = some s ∧
      s.record.result = some .Ok ∧ s.record.Obeys ∧ s.record.accept_result = some (.ok ()) := by
  obtain ⟨hsync, hends, hasync⟩ := @shells_obey_lifecycle Unit Unit
  refine ⟨⟨_, rfl, rfl, (hasync atTcp .bare failedAccept _ rfl).1⟩, ?_⟩
  have hrun : ∃ s, exec (SyncRun.step (SyncRun.atSlashS .Multi)) (.new (SyncRun.atSlashS .Multi) .bare) toldToEnd =
      some s ∧ s.record.result = some .Ok ∧ SyncRun.step (SyncRun.atSlashS .Multi) s (.serve (.should_continue false)) = none :=
    ⟨_, rfl, rfl, rfl⟩
  obtain ⟨s, hs, hresult, hstopped⟩ := hrun
  refine ⟨s, hs, hresult, (hsync _ _ _ s hs).1, ?_⟩
  obtain ⟨-, hdone | ⟨t, ht, -⟩⟩ := hends _ _ (SyncRun.failedRequestMulti true) [.stop (.ok ())] s hs (by simp)
  · exact hdone
  · rw [hstopped] at ht
    cases ht

end TriadRuntime
