import TriadRuntime.Lifecycle
import TriadRuntime.SyncServe
import TriadRuntime.UnixBind
/-!
# The sync shells (`daemon.rs`)

`SingleListenerDaemon::run` and `MultiListenerDaemon::run` are the same text over
two daemons: bind, start the runtime, serve until the loop ends, stop the
runtime. Whatever way `run` ends, the daemon it owns is dropped, and with it the
listeners and the guards of their socket files.

Trusted: a value is dropped when the function that owns it returns or panics.
-/

open Systems

namespace TriadRuntime

def SyncKind.shell : SyncKind → UnixShell
  | .Single => .SyncSingle
  | .Multi => .SyncMulti

/-- A shell before it is bound; the single shell has one socket, and a runtime
that is not told of it. -/
structure SyncConfig (ι : Type*) where
  kind : SyncKind
  listener_sockets : List (ι × Turn)
  umask : Nat

/-- A sync shell has no gate, and its `bind` does not read the limit. -/
def SyncConfig.bind {ι : Type*} (c : SyncConfig ι) (fs : FileSystem) :
    Except Stopped (FileSystem × List BoundSocketFile) :=
  c.kind.shell.bind (.new 1) c.umask fs (c.listener_sockets.map (·.2))

/-- Where `run` stands; `unwound` if it has panicked. -/
inductive RunPhase where
  | unbound
  | bound
  | serving
  | stopping (accept_result : Except BindError Unit)
  | returned
  | unwound

structure SyncRun (ι ε : Type*) where
  phase : RunPhase
  daemon : SyncDaemon ι
  fs : FileSystem
  guards : List BoundSocketFile
  record : Record BindError ε

inductive RunEvent (ε : Type*) where
  | bind
  /-- A client connects outside the loop. -/
  | connect (j : Nat) (stream : Stream)
  /-- `runtime.start()` returns, and if it can, the loop begins. -/
  | start (result : Except ε Unit)
  /-- A step of `serve_streams`. -/
  | serve (event : SyncEvent)
  /-- `runtime.stop()` returns, and `run` with it. -/
  | stop (result : Except ε Unit)

/-- What a call that has returned came to. -/
def SyncDaemon.left {ι : Type*} (d : SyncDaemon ι) : Option ServeResult :=
  match d.point with
  | .idle => d.finished.getLast?.map (·.result)
  | _ => none

namespace SyncRun

variable {ι ε : Type*}

def new (c : SyncConfig ι) (fs : FileSystem) : SyncRun ι ε :=
  ⟨.unbound, .bound c.kind [], fs, [], .fresh⟩

/-- The `match` at the end of `run`. -/
def run_result (accept_result : Except BindError Unit) (stop_result : Except ε Unit) : LifecycleResult BindError ε :=
  match accept_result, stop_result with
  | .error error, _ => .Listener error
  | .ok (), .error error => .Stop error
  | .ok (), .ok () => .Ok

/-- `run` ends, and the daemon is dropped. -/
def drops (s : SyncRun ι ε) (phase : RunPhase) : SyncRun ι ε :=
  { s with phase := phase, fs := Stopped.unwind s.fs s.guards }

/-- After a step of the loop; `left` is its result, if it has ended. -/
def after (s : SyncRun ι ε) (left : Option ServeResult) : SyncRun ι ε :=
  match left with
  | some .Done => { s with phase := .stopping (.ok ()), record := s.record.served (.ok ()) }
  | some (.Err error) => { s with phase := .stopping (.error (.Io error)), record := s.record.served (.error (.Io error)) }
  | some .unwound => s.drops .unwound
  | _ => s

def step (c : SyncConfig ι) (s : SyncRun ι ε) : RunEvent ε → Option (SyncRun ι ε)
  | .bind =>
    match s.phase with
    | .unbound =>
      match c.bind s.fs with
      | .ok (fs, guards) =>
        some { s with
          phase := .bound
          daemon := .bound c.kind (c.listener_sockets.map (·.1))
          fs := fs
          guards := guards
          record := s.record.bound (.ok ()) none }
      | .error stopped =>
        match stopped.stop with
        | .Err error =>
          some { s with
            phase := .returned
            fs := Stopped.unwind stopped.after stopped.guards
            record := s.record.bound (.error error) (some (.Listener error)) }
        | _ => none
    | _ => none
  | .connect j stream =>
    match s.phase with
    | .bound | .stopping _ => (s.daemon.step (.connect j stream)).map fun daemon => { s with daemon := daemon }
    | _ => none
  | .start result =>
    match s.phase, result with
    | .bound, .ok () =>
      (s.daemon.step (.call .serve_streams)).map fun daemon =>
        { s with phase := .serving, daemon := daemon, record := s.record.started (.ok ()) none }
    | .bound, .error error =>
      some { s.drops .returned with record := s.record.started (.error error) (some (.Start error)) }
    | _, _ => none
  | .serve event =>
    match s.phase with
    | .serving =>
      (s.daemon.step event).map fun daemon =>
        { s with
          daemon := daemon
          record := if event = SyncEvent.handle_stream then s.record.handled else s.record }.after daemon.left
    | _ => none
  | .stop result =>
    match s.phase with
    | .stopping accept_result =>
      some { s.drops .returned with record := s.record.stopped result (run_result accept_result result) }
    | _ => none

end SyncRun

/-! ## How the loop ends -/

namespace SyncDaemon

variable {ι : Type*}

/-- `serve_streams` is under way. -/
def Loops (d : SyncDaemon ι) : Prop := d.point.within = some (.next true) ∨ d.point.within = some (.blocking true)

/-- The events a loop ends with, and its result. -/
inductive Leaves : SyncEvent → ServeResult → Prop
  | done : Leaves (.should_continue false) .Done
  | failed (error) : Leaves (.accept_fails error) (.Err error)
  | unwound (event) : event.unwinds = true → Leaves event .unwound

theorem left_returns (d : SyncDaemon ι) (call : ServeCall) (result : ServeResult) :
    (d.returns call result).left = some result := by
  simp [left, returns]

theorem loops_left {d : SyncDaemon ι} (h : d.Loops) : d.left = none := by
  unfold left
  split
  · rename_i hp
    simp [Loops, hp, ServePoint.within] at h
  · rfl

/-- After a pass that served, or found nothing, the loop goes on. -/
theorem loops_served (d : SyncDaemon ι) {within : Within} (hw : within = .next true ∨ within = .blocking true)
    (served : Bool) : (d.end_scan within (.Served served)).Loops := by
  rcases hw with rfl | rfl
  · cases served with
    | true => exact .inl rfl
    | false => exact .inl rfl
  · exact .inr rfl

theorem loops_scan_at (d : SyncDaemon ι) {within : Within} (hw : within = .next true ∨ within = .blocking true)
    (index : Nat) : (d.scan_at within index).Loops := by
  unfold scan_at
  split
  · rcases hw with rfl | rfl
    · exact .inl rfl
    · exact .inr rfl
  · exact loops_served d hw false

theorem loop_step {d d' : SyncDaemon ι} {event : SyncEvent} (hl : d.Loops) (h : d.step event = some d') :
    d'.Loops ∨ ∃ result, d'.left = some result ∧ Leaves event result := by
  have hin : ∀ {point : ServePoint} {within : Within}, d.point = point → point.within = some within →
      within = .next true ∨ within = .blocking true := by
    intro point within hp hw
    rw [Loops, hp, hw] at hl
    simpa using hl
  cases step_moves h with
  | connect j stream row hrow => exact .inl hl
  | tries hp => simp [Loops, hp, ServePoint.within] at hl
  | calls call point hp hm => simp [Loops, hp, ServePoint.within] at hl
  | streams_on hp => exact .inl (.inl rfl)
  | streams_done hp => exact .inr ⟨.Done, left_returns d _ _, .done⟩
  | next_on outer hp => exact .inl (loops_scan_at d (hin hp rfl) 0)
  | next_back hp => exact .inl (.inl rfl)
  | next_done hp => simpa using hin hp rfl
  | accept within index row stream rest hp hrow hpend => exact .inl (by simpa [Loops, ServePoint.within] using hin hp rfl)
  | would_block within index hp hblock => exact .inl (loops_scan_at _ (hin hp rfl) (index + 1))
  | accept_fails within index error hp =>
    refine .inr ⟨.Err error, ?_, .failed error⟩
    rcases hin hp rfl with rfl | rfl <;> exact left_returns _ _ _
  | handle_stream within index stream row hp hrow => exact .inl (by simpa [Loops, ServePoint.within] using hin hp rfl)
  | handled within index stream hp => exact .inl (loops_served d (hin hp rfl) true)
  | request_error within index stream hp => exact .inl (by simpa [Loops, ServePoint.within] using hin hp rfl)
  | panics within index stream hp =>
    refine .inr ⟨.unwound, ?_, .unwound _ rfl⟩
    rcases hin hp rfl with rfl | rfl <;> exact left_returns _ _ _
  | logged within index stream hp => exact .inl (loops_served d (hin hp rfl) true)
  | unlogged within index stream hp =>
    refine .inr ⟨.unwound, ?_, .unwound _ rfl⟩
    rcases hin hp rfl with rfl | rfl <;> exact left_returns _ _ _
  | wakes outer hp => exact .inl (by simpa [Loops, ServePoint.within] using hin hp rfl)

theorem loops_begin {d d' : SyncDaemon ι} (h : d.step (.call .serve_streams) = some d') : d'.Loops := by
  cases step_moves h with
  | calls call point hp hm =>
    simp only [List.mem_cons, Prod.mk.injEq, reduceCtorEq, false_and, true_and, List.not_mem_nil, or_false,
      false_or] at hm
    rcases hm with rfl | rfl
    · exact .inl rfl
    · exact .inr rfl

end SyncDaemon

namespace SyncRun

variable {ι ε : Type*}

/-- What a phase has behind it. -/
def Inv (s : SyncRun ι ε) : Prop :=
  match s.phase with
  | .unbound => s.record = .fresh
  | .bound =>
    s.record.bind_result = some (.ok ()) ∧ s.record.start_result = none ∧ s.record.accept_result = none ∧
      s.record.stop_result = none
  | .serving =>
    s.record.start_result = some (.ok ()) ∧ s.record.accept_result = none ∧ s.record.stop_result = none ∧ s.daemon.Loops
  | .stopping accept_result =>
    s.record.start_result = some (.ok ()) ∧ s.record.accept_result = some accept_result ∧ s.record.stop_result = none
  | .returned => s.record.result.isSome = true
  | .unwound =>
    s.record.start_result = some (.ok ()) ∧ s.record.accept_result = none ∧ s.record.stop_result = none

/-- What a step can do, in a state where `Inv` holds. -/
inductive Moves (c : SyncConfig ι) (s : SyncRun ι ε) : RunEvent ε → SyncRun ι ε → Prop
  | bind (fs guards) : s.phase = .unbound → c.bind s.fs = .ok (fs, guards) →
      Moves c s .bind { s with
        phase := .bound
        daemon := .bound c.kind (c.listener_sockets.map (·.1))
        fs := fs
        guards := guards
        record := s.record.bound (.ok ()) none }
  | bind_fails (stopped error) : s.phase = .unbound → c.bind s.fs = .error stopped → stopped.stop = .Err error →
      Moves c s .bind { s with
        phase := .returned
        fs := Stopped.unwind stopped.after stopped.guards
        record := s.record.bound (.error error) (some (.Listener error)) }
  | connect (j stream daemon) : s.phase = .bound ∨ (∃ accept_result, s.phase = .stopping accept_result) →
      Moves c s (.connect j stream) { s with daemon := daemon }
  | start (daemon) : s.phase = .bound → daemon.Loops →
      Moves c s (.start (.ok ()))
        { s with phase := .serving, daemon := daemon, record := s.record.started (.ok ()) none }
  | start_fails (error) : s.phase = .bound →
      Moves c s (.start (.error error))
        { s.drops .returned with record := s.record.started (.error error) (some (.Start error)) }
  | serve_on (event daemon) : s.phase = .serving → s.daemon.step event = some daemon → daemon.Loops →
      Moves c s (.serve event) { s with
        daemon := daemon
        record := if event = SyncEvent.handle_stream then s.record.handled else s.record }
  | serve_done (daemon) : s.phase = .serving → s.daemon.step (.should_continue false) = some daemon →
      Moves c s (.serve (.should_continue false)) { s with
        phase := .stopping (.ok ())
        daemon := daemon
        record := s.record.served (.ok ()) }
  | serve_fails (daemon error) : s.phase = .serving → s.daemon.step (.accept_fails error) = some daemon →
      Moves c s (.serve (.accept_fails error)) { s with
        phase := .stopping (.error (.Io error))
        daemon := daemon
        record := s.record.served (.error (.Io error)) }
  | serve_unwinds (event daemon) : s.phase = .serving → s.daemon.step event = some daemon → event.unwinds = true →
      Moves c s (.serve event) ({ s with daemon := daemon }.drops .unwound)
  | stop (accept_result result) : s.phase = .stopping accept_result →
      Moves c s (.stop result)
        { s.drops .returned with record := s.record.stopped result (run_result accept_result result) }

theorem step_moves {c : SyncConfig ι} {s t : SyncRun ι ε} {event : RunEvent ε} (hi : Inv s)
    (h : step c s event = some t) : Moves c s event t := by
  cases event with
  | bind =>
    simp only [step] at h
    split at h
    · rename_i hp
      split at h
      · rename_i fs guards hb
        cases h
        exact .bind fs guards hp hb
      · rename_i stopped hb
        split at h
        · rename_i error herr
          cases h
          exact .bind_fails stopped error hp hb herr
        · cases h
    · cases h
  | connect j stream =>
    simp only [step] at h
    split at h
    · rename_i hp
      obtain ⟨daemon, -, rfl⟩ := Option.map_eq_some_iff.1 h
      exact .connect j stream daemon (.inl hp)
    · rename_i accept_result hp
      obtain ⟨daemon, -, rfl⟩ := Option.map_eq_some_iff.1 h
      exact .connect j stream daemon (.inr ⟨accept_result, hp⟩)
    · cases h
  | start result =>
    simp only [step] at h
    split at h
    · rename_i hp
      obtain ⟨daemon, hd, rfl⟩ := Option.map_eq_some_iff.1 h
      exact .start daemon hp (SyncDaemon.loops_begin hd)
    · rename_i error hp
      cases h
      exact .start_fails error hp
    · cases h
  | serve event =>
    simp only [step] at h
    split at h
    · rename_i hp
      obtain ⟨daemon, hd, rfl⟩ := Option.map_eq_some_iff.1 h
      rw [Inv, hp] at hi
      rcases SyncDaemon.loop_step hi.2.2.2 hd with hloops | ⟨result, hleft, hleaves⟩
      · rw [SyncDaemon.loops_left hloops]
        exact .serve_on event daemon hp hd hloops
      · rw [hleft]
        cases hleaves with
        | done => exact .serve_done daemon hp hd
        | failed error => exact .serve_fails daemon error hp hd
        | unwound _ hu =>
          have hne : event ≠ SyncEvent.handle_stream := by
            rintro rfl
            cases hu
          rw [if_neg hne]
          exact .serve_unwinds event daemon hp hd hu
    · cases h
  | stop result =>
    simp only [step] at h
    split at h
    · rename_i accept_result hp
      cases h
      exact .stop accept_result result hp
    · cases h

theorem inv_new (c : SyncConfig ι) (fs : FileSystem) : Inv (new c fs : SyncRun ι ε) := rfl

theorem inv_step {c : SyncConfig ι} {s t : SyncRun ι ε} {event : RunEvent ε} (hi : Inv s) (h : step c s event = some t) :
    Inv t := by
  cases step_moves hi h with
  | bind fs guards hp hb =>
    rw [Inv, hp] at hi
    simp [Inv, Record.bound, hi, Record.fresh]
  | bind_fails stopped error hp hb herr => rfl
  | connect j stream daemon hp =>
    rcases hp with hp | ⟨accept_result, hp⟩
    · simpa only [Inv, hp] using hi
    · simpa only [Inv, hp] using hi
  | start daemon hp hl =>
    rw [Inv, hp] at hi
    exact ⟨rfl, hi.2.2.1, hi.2.2.2, hl⟩
  | start_fails error hp => rfl
  | serve_on event daemon hp hd hl =>
    rw [Inv, hp] at hi
    simp only [Inv, hp]
    split
    · exact ⟨hi.1, hi.2.1, hi.2.2.1, hl⟩
    · exact ⟨hi.1, hi.2.1, hi.2.2.1, hl⟩
  | serve_done daemon hp hd =>
    rw [Inv, hp] at hi
    exact ⟨hi.1, rfl, hi.2.2.1⟩
  | serve_fails daemon error hp hd =>
    rw [Inv, hp] at hi
    exact ⟨hi.1, rfl, hi.2.2.1⟩
  | serve_unwinds event daemon hp hd hu =>
    rw [Inv, hp] at hi
    exact ⟨hi.1, hi.2.1, hi.2.2.1⟩
  | stop accept_result result hp => rfl

/-! ## The lifecycle of the sync shells -/

theorem run_result_decides (accept_result : Except BindError Unit) (stop_result : Except ε Unit) :
    Record.Decides accept_result stop_result (run_result accept_result stop_result) := by
  cases accept_result with
  | error error => exact .listener error stop_result
  | ok =>
    cases stop_result with
    | error error => exact .stop error
    | ok => exact .ok

/-- Each step of `run` is a step of its lifecycle, or none. -/
theorem step_record {c : SyncConfig ι} {s t : SyncRun ι ε} {event : RunEvent ε} (hi : Inv s)
    (h : step c s event = some t) : t.record = s.record ∨ Record.Step s.record t.record := by
  cases step_moves hi h with
  | bind fs guards hp hb =>
    rw [Inv, hp] at hi
    exact .inr (.bind _ (by rw [hi]; rfl))
  | bind_fails stopped error hp hb herr =>
    rw [Inv, hp] at hi
    exact .inr (.bind_fails _ error (by rw [hi]; rfl))
  | connect j stream daemon hp => exact .inl rfl
  | start daemon hp hl =>
    rw [Inv, hp] at hi
    exact .inr (.start _ hi.1 hi.2.1)
  | start_fails error hp =>
    rw [Inv, hp] at hi
    exact .inr (.start_fails _ error hi.1 hi.2.1)
  | serve_on event daemon hp hd hl =>
    rw [Inv, hp] at hi
    by_cases he : event = SyncEvent.handle_stream
    · rw [if_pos he]
      exact .inr (.handle _ hi.1)
    · rw [if_neg he]
      exact .inl rfl
  | serve_done daemon hp hd =>
    rw [Inv, hp] at hi
    exact .inr (.serve_ends _ (.ok ()) hi.1 hi.2.1)
  | serve_fails daemon error hp hd =>
    rw [Inv, hp] at hi
    exact .inr (.serve_ends _ (.error (.Io error)) hi.1 hi.2.1)
  | serve_unwinds event daemon hp hd hu => exact .inl rfl
  | stop accept_result result hp =>
    rw [Inv, hp] at hi
    exact .inr (.stop _ accept_result result _ hi.2.1 hi.2.2 (run_result_decides accept_result result))

theorem reaches_inv {c : SyncConfig ι} {fs : FileSystem} {events : List (RunEvent ε)} {s : SyncRun ι ε}
    (h : exec (step c) (new c fs) events = some s) : Inv s :=
  exec_invariant Inv (fun _ _ _ hi hstep => inv_step hi hstep) h (inv_new c fs)

theorem record_steps {c : SyncConfig ι} {events : List (RunEvent ε)} {s t : SyncRun ι ε} (hi : Inv s)
    (h : exec (step c) s events = some t) : Relation.ReflTransGen Record.Step s.record t.record :=
  exec_refines (·.record) Inv (fun _ _ _ hi hstep => inv_step hi hstep) (fun _ _ _ hi hstep => step_record hi hstep) h hi

theorem obeys_lifecycle {c : SyncConfig ι} {fs : FileSystem} {events : List (RunEvent ε)} {s : SyncRun ι ε}
    (h : exec (step c) (new c fs) events = some s) : s.record.Obeys :=
  Record.steps_obey (record_steps (inv_new c fs) h)

theorem accept_fails_record {c : SyncConfig ι} {s t : SyncRun ι ε} {error : FsError} (hi : Inv s)
    (h : step c s (.serve (.accept_fails error)) = some t) : t.record.accept_result = some (.error (.Io error)) := by
  cases step_moves hi h with
  | serve_on _ daemon hp hd hl =>
    cases SyncDaemon.step_moves hd with
    | accept_fails within index error hpt =>
      cases within <;> simp [SyncDaemon.Loops, SyncDaemon.end_scan, SyncDaemon.go_on, SyncDaemon.returns,
        SyncDaemon.reported, ServePoint.within] at hl
  | serve_fails daemon error hp hd => rfl
  | serve_unwinds _ daemon hp hd hu => cases hu

/-- An error of the loop is that of an `accept`. -/
theorem failed_accept_mem {c : SyncConfig ι} {events : List (RunEvent ε)} {s t : SyncRun ι ε} {error : BindError}
    (hi : Inv s) (h : exec (step c) s events = some t) (hs : s.record.accept_result ≠ some (.error error))
    (ht : t.record.accept_result = some (.error error)) : ∃ e, error = .Io e ∧ .serve (.accept_fails e) ∈ events := by
  induction events generalizing s with
  | nil => cases h; exact absurd ht hs
  | cons event events ih =>
    obtain ⟨u, hu, hrest⟩ := exec_cons.1 h
    by_cases hsame : u.record.accept_result = some (.error error)
    · cases step_moves hi hu with
      | serve_fails daemon e hp hd =>
        cases hsame
        exact ⟨e, rfl, List.mem_cons_self⟩
      | serve_done daemon hp hd => cases hsame
      | serve_on event daemon hp hd hl =>
        refine absurd ?_ hs
        revert hsame
        split
        · exact id
        · exact id
      | _ => exact absurd hsame hs
    · obtain ⟨e, he, hm⟩ := ih (inv_step hi hu) hrest hsame
      exact ⟨e, he, List.mem_cons_of_mem _ hm⟩

theorem accept_failed_iff {c : SyncConfig ι} {fs : FileSystem} {events : List (RunEvent ε)} {s : SyncRun ι ε}
    (h : exec (step c) (new c fs) events = some s) (error : BindError) :
    s.record.accept_result = some (.error error) ↔ ∃ e, error = .Io e ∧ .serve (.accept_fails e) ∈ events := by
  constructor
  · exact failed_accept_mem (inv_new c fs) h (by simp [new, Record.fresh])
  · rintro ⟨e, rfl, hm⟩
    obtain ⟨front, back, rfl⟩ := List.append_of_mem hm
    obtain ⟨u, hu, hrest⟩ := exec_append.1 h
    obtain ⟨v, hv, hback⟩ := exec_cons.1 hrest
    have hiu := reaches_inv hu
    exact Record.accept_result_kept (record_steps (inv_step hiu hv) hback) (accept_fails_record hiu hv)

/-! ## After `should_continue` was false -/

/-- The loop has ended with `Ok`, or asks `should_continue` once more. -/
def Ending (s : SyncRun ι ε) : Prop :=
  (s.phase = .serving ∧ s.daemon.point = .streams_head) ∨ (s.phase ≠ .serving ∧ s.record.accept_result = some (.ok ()))

theorem ending_first {c : SyncConfig ι} {s t : SyncRun ι ε} (hi : Inv s)
    (h : step c s (.serve (.should_continue false)) = some t) : Ending t := by
  cases step_moves hi h with
  | serve_done daemon hp hd => exact .inr ⟨by simp, rfl⟩
  | serve_on _ daemon hp hd hl =>
    refine .inl ⟨hp, ?_⟩
    cases SyncDaemon.step_moves hd with
    | next_back hpt => rfl
    | streams_done hpt => simp [SyncDaemon.Loops, SyncDaemon.returns, ServePoint.within] at hl
    | next_done hpt => simp [SyncDaemon.Loops, SyncDaemon.returns, ServePoint.within] at hl
  | serve_unwinds _ daemon hp hd hu => cases hu

theorem ending_step {c : SyncConfig ι} {s t : SyncRun ι ε} {event : RunEvent ε} (hi : Inv s) (he : Ending s)
    (hno : event ≠ .serve (.should_continue true)) (h : step c s event = some t) :
    Ending t ∧ event ≠ .serve .accept := by
  have hbefore : s.record.accept_result = none → s.phase = .serving ∧ s.daemon.point = .streams_head := by
    intro hnone
    rcases he with he | ⟨-, ha⟩
    · exact he
    · rw [hnone] at ha
      cases ha
  have hafter : s.phase ≠ .serving → s.record.accept_result = some (.ok ()) := by
    intro hp
    rcases he with ⟨hs, -⟩ | ⟨-, ha⟩
    · exact absurd hs hp
    · exact ha
  cases step_moves hi h with
  | bind fs guards hp hb =>
    rw [Inv, hp] at hi
    simp [hi, Record.fresh, hp] at hbefore
  | bind_fails stopped error hp hb herr =>
    rw [Inv, hp] at hi
    simp [hi, Record.fresh, hp] at hbefore
  | connect j stream daemon hp =>
    have hne : s.phase ≠ .serving := by rcases hp with hp | ⟨accept_result, hp⟩ <;> simp [hp]
    exact ⟨.inr ⟨hne, hafter hne⟩, by simp⟩
  | start daemon hp hl =>
    rw [Inv, hp] at hi
    simp [hi.2.2.1, hp] at hbefore
  | start_fails error hp =>
    rw [Inv, hp] at hi
    simp [hi.2.2.1, hp] at hbefore
  | serve_on event daemon hp hd hl =>
    rw [Inv, hp] at hi
    have hpt := (hbefore hi.2.1).2
    -- Only clients move while the loop is about to ask.
    cases SyncDaemon.step_moves hd with
    | connect j stream row hrow => exact ⟨.inl ⟨hp, hpt⟩, by simp⟩
    | streams_on _ => exact absurd rfl hno
    | streams_done _ => simp [SyncDaemon.Loops, SyncDaemon.returns, ServePoint.within] at hl
    | _ => simp_all
  | serve_done daemon hp hd => exact ⟨.inr ⟨by simp, rfl⟩, by simp⟩
  | serve_fails daemon error hp hd =>
    rw [Inv, hp] at hi
    have hpt := (hbefore hi.2.1).2
    simp [SyncDaemon.step, hpt] at hd
  | serve_unwinds event daemon hp hd hu =>
    rw [Inv, hp] at hi
    have hpt := (hbefore hi.2.1).2
    cases SyncDaemon.step_moves hd <;> simp_all [SyncEvent.unwinds]
  | stop accept_result result hp =>
    refine ⟨.inr ⟨by simp [drops], ?_⟩, by simp⟩
    exact hafter (by simp [hp])

theorem ending_run {c : SyncConfig ι} {s t : SyncRun ι ε} {events : List (RunEvent ε)} (hi : Inv s) (he : Ending s)
    (hno : .serve (.should_continue true) ∉ events) (h : exec (step c) s events = some t) :
    .serve .accept ∉ events ∧ Ending t := by
  induction events generalizing s with
  | nil => cases h; exact ⟨by simp, he⟩
  | cons event events ih =>
    obtain ⟨u, hu, hrest⟩ := exec_cons.1 h
    rw [List.mem_cons, not_or] at hno
    obtain ⟨heu, hacc⟩ := ending_step hi he (Ne.symm hno.1) hu
    obtain ⟨hnone, het⟩ := ih (inv_step hi hu) heu hno.2 hrest
    refine ⟨?_, het⟩
    rw [List.mem_cons, not_or]
    exact ⟨Ne.symm hacc, hnone⟩

/-- Once `should_continue` has been false, and if it stays so, no stream is
accepted, and the loop has ended with `Ok` or does when it asks again. -/
theorem ends_after_false {c : SyncConfig ι} {fs : FileSystem} {front back : List (RunEvent ε)} {s : SyncRun ι ε}
    (h : exec (step c) (new c fs) (front ++ .serve (.should_continue false) :: back) = some s)
    (hno : .serve (.should_continue true) ∉ back) :
    .serve .accept ∉ back ∧ (s.record.accept_result = some (.ok ()) ∨
      ∃ t, step c s (.serve (.should_continue false)) = some t ∧ t.record.accept_result = some (.ok ())) := by
  obtain ⟨u, hu, hrest⟩ := exec_append.1 h
  obtain ⟨v, hv, hback⟩ := exec_cons.1 hrest
  have hiu := reaches_inv hu
  obtain ⟨hnone, he⟩ := ending_run (inv_step hiu hv) (ending_first hiu hv) hno hback
  refine ⟨hnone, ?_⟩
  rcases he with ⟨hp, hpt⟩ | ⟨-, ha⟩
  · refine .inr ⟨_, by simp only [step, hp, SyncDaemon.step, hpt]; rfl, ?_⟩
    simp [after, SyncDaemon.left_returns, Record.served]
  · exact .inl ha

/-! ## Request errors -/

/-- The loop goes on, or ends by a failed accept or by `should_continue`. -/
def GoesOn (c : SyncConfig ι) (s : SyncRun ι ε) (event : RunEvent ε) : Prop :=
  s.phase = .serving → ∀ t, step c s event = some t →
    (t.phase = .serving ∧ t.daemon.Loops) ∨
    (t.phase = .stopping (.ok ()) ∧ event = .serve (.should_continue false)) ∨
    ∃ error, t.phase = .stopping (.error (.Io error)) ∧ event = .serve (.accept_fails error)

/-- A runtime that has been started is being served, is stopped next, or has been. -/
def ReachesStop (c : SyncConfig ι) (s : SyncRun ι ε) : Prop :=
  s.record.start_result = some (.ok ()) →
    s.phase = .serving ∨ (∀ result, (step c s (.stop result)).isSome = true) ∨ s.record.stop_result.isSome = true

theorem goesOn_of_not_unwinds {c : SyncConfig ι} {s : SyncRun ι ε} {event : RunEvent ε} (hi : Inv s)
    (hno : ∀ inner, event = .serve inner → inner.unwinds = false) : GoesOn c s event := by
  intro hs t h
  cases step_moves hi h with
  | serve_on event daemon hp hd hl => exact .inl ⟨hp, hl⟩
  | serve_done daemon hp hd => exact .inr (.inl ⟨rfl, rfl⟩)
  | serve_fails daemon error hp hd => exact .inr (.inr ⟨error, rfl, rfl⟩)
  | serve_unwinds event daemon hp hd hu =>
    rw [hno event rfl] at hu
    cases hu
  | _ => simp_all

/-- A log that cannot be written ends `run` there and then. -/
theorem unlogged_unwinds {c : SyncConfig ι} {s t : SyncRun ι ε} (hi : Inv s) (h : step c s (.serve (.log false)) = some t) :
    s.phase = .serving ∧ t.phase = .unwound := by
  cases step_moves hi h with
  | serve_on _ daemon hp hd hl =>
    cases SyncDaemon.step_moves hd with
    | unlogged within index stream hpt =>
      cases within <;> simp [SyncDaemon.Loops, SyncDaemon.end_scan, SyncDaemon.go_on, SyncDaemon.returns,
        ServePoint.within] at hl
  | serve_unwinds _ daemon hp hd hu => exact ⟨hp, rfl⟩

theorem reachesStop_of_phase {c : SyncConfig ι} {s : SyncRun ι ε} (hi : Inv s) (ho : s.record.Obeys)
    (hno : s.phase ≠ .unwound) : ReachesStop c s := by
  intro hstart
  cases hp : s.phase with
  | unbound =>
    rw [Inv, hp] at hi
    rw [show s.record = .fresh from hi] at hstart
    cases hstart
  | bound =>
    rw [Inv, hp] at hi
    rw [hi.2.1] at hstart
    cases hstart
  | serving => exact .inl rfl
  | stopping accept_result => exact .inr (.inl fun result => by simp [step, hp])
  | returned =>
    rw [Inv, hp] at hi
    refine .inr (.inr (ho.stop_called.1 ?_))
    rw [← List.count_pos_iff, ho.stopped hstart hi]
    exact Nat.one_pos
  | unwound => exact absurd hp hno

/-- Where no handler panics, request errors leave the loop going and `run` on
its way to `runtime.stop()` exactly when every write of the error log succeeds. -/
theorem request_errors_isolated_iff (c : SyncConfig ι) (fs : FileSystem) (events : List (RunEvent ε)) (s : SyncRun ι ε)
    (h : exec (step c) (new c fs) events = some s) (hno : .serve (.handler_returns .panicked) ∉ events) :
    .serve (.log false) ∉ events ↔ Along (step c) (GoesOn c) (new c fs) events ∧ ReachesStop c s := by
  constructor
  · intro hlog
    have hq : ∀ event ∈ events, ∀ inner, event = .serve inner → inner.unwinds = false := by
      rintro event hm inner rfl
      cases hu : inner.unwinds with
      | false => rfl
      | true =>
        unfold SyncEvent.unwinds at hu
        split at hu
        · exact absurd hm hno
        · exact absurd hm hlog
        · cases hu
    refine ⟨along_of_invariant Inv (fun _ _ _ hi hstep => inv_step hi hstep)
      (fun _ _ hi hinner => goesOn_of_not_unwinds hi hinner) hq (inv_new c fs), ?_⟩
    refine reachesStop_of_phase (reaches_inv h) (obeys_lifecycle h) ?_
    have hphase : Inv s ∧ s.phase ≠ .unwound := by
      refine exec_invariant_along (C := fun _ event => ∀ inner, event = .serve inner → inner.unwinds = false)
        (fun s => Inv s ∧ s.phase ≠ .unwound) ?_ (along_of_forall (fun event hm _ => hq event hm) _) h
        ⟨inv_new c fs, by simp [new]⟩
      rintro s event t ⟨hi, hp'⟩ hinner hstep
      refine ⟨inv_step hi hstep, ?_⟩
      cases step_moves hi hstep with
      | serve_unwinds event daemon hp hd hu =>
        rw [hinner event rfl] at hu
        cases hu
      | serve_on event daemon hp hd hl => simp [hp]
      | connect j stream daemon hp => exact hp'
      | _ => simp [drops]
    exact hphase.2
  · rintro ⟨halong, -⟩ hm
    obtain ⟨u, v, ⟨front, hu⟩, hgoes, hv⟩ := along_mem halong h hm
    obtain ⟨hserving, hunwound⟩ := unlogged_unwinds (reaches_inv hu) hv
    rcases hgoes hserving v hv with ⟨hp, -⟩ | ⟨hp, -⟩ | ⟨error, hp, -⟩ <;> simp [hunwound] at hp

/-- A shell of each kind with the socket `/s`. -/
def atSlashS (kind : SyncKind) : SyncConfig Unit := ⟨kind, [((), ⟨World.slashS, noFaults, false⟩)], 0o755⟩

/-- One request of the single shell, which fails. -/
def failedRequest (logged : Bool) : List (RunEvent Unit) :=
  [.bind, .connect 0 5, .start (.ok ()), .serve .accept, .serve .handle_stream, .serve (.handler_returns .Err),
    .serve (.log logged)]

/-- The same in the multi shell. -/
def failedRequestMulti (logged : Bool) : List (RunEvent Unit) :=
  [.bind, .connect 0 5, .start (.ok ()), .serve (.should_continue true), .serve (.should_continue true), .serve .accept,
    .serve .handle_stream, .serve (.handler_returns .Err), .serve (.log logged)]

theorem request_errors_isolated_failedRequest :
    ∃ s, exec (step (atSlashS .Single)) (new (atSlashS .Single) .bare) (failedRequest true) = some s ∧
      s.daemon.handed = [⟨0, (), 5⟩] ∧ ReachesStop (atSlashS .Single) s := by
  refine ⟨_, rfl, rfl, ?_⟩
  have hiff := request_errors_isolated_iff (atSlashS .Single) .bare (failedRequest true) _ rfl
    (by simp [failedRequest])
  exact (hiff.1 (by simp [failedRequest])).2

/-- Request errors never end a shell of this kind. -/
def AlwaysIsolated (kind : SyncKind) : Prop :=
  ∀ (c : SyncConfig Unit) (fs : FileSystem) (events : List (RunEvent Unit)) (s : SyncRun Unit Unit), c.kind = kind →
    exec (step c) (new c fs) events = some s → .serve (.handler_returns .panicked) ∉ events →
    Along (step c) (GoesOn c) (new c fs) events ∧ ReachesStop c s

/-- A request error that cannot be logged ends either shell without `stop`. -/
theorem unlogged_error_ends_run : ¬ AlwaysIsolated .Single ∧ ¬ AlwaysIsolated .Multi := by
  have hend : ∀ (c : SyncConfig Unit) (s : SyncRun Unit Unit), s.record.start_result = some (.ok ()) →
      s.phase = .unwound → s.record.stop_result = none → ¬ ReachesStop c s := by
    intro c s hstart hp hnone hr
    rcases hr hstart with hs | hs | hs
    · rw [hp] at hs
      cases hs
    · simpa [step, hp] using hs (.ok ())
    · rw [hnone] at hs
      cases hs
  constructor
  · intro hclaim
    exact hend _ _ rfl rfl rfl (hclaim (atSlashS .Single) .bare (failedRequest false) _ rfl rfl (by simp [failedRequest])).2
  · intro hclaim
    exact hend _ _ rfl rfl rfl
      (hclaim (atSlashS .Multi) .bare (failedRequestMulti false) _ rfl rfl (by simp [failedRequestMulti])).2

end SyncRun

end TriadRuntime
