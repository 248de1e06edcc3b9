import TriadRuntime.AsyncListener
/-!
# The async shells (`async_runtime.rs`, `tcp.rs`)

`AsyncSingleListenerDaemon`, `AsyncMultiListenerDaemon` and `TcpListenerDaemon`
bind their sockets, start the runtime, serve until a listener fails, then stop
the gates and the runtime. The single shells have one listener and run its loop
in `run` itself; the multi shell runs one task a listener in a `JoinSet` and,
when one fails, aborts the others without waiting for them.

The listeners of a shell share its runtime, its error log and its `JoinSet`.
Sockets and gates are rows of two tables, and a bound listener names its own, so
that whether two listeners share one is a fact about `bind`, not about the model.

Trusted: `JoinSet::join_next` returns the result of a task that has ended, and
`abort_all` stops a task at some later point where it waits.
-/

open Systems

namespace TriadRuntime

inductive ShellKind where
  | Single
  | Multi
  | Tcp
deriving DecidableEq, Repr

/-- What the runtime is called with. -/
inductive RuntimeCall (ι : Type*) where
  | start
  | handle_connection (listener : ι) (stream : Stream)
  | stop
deriving DecidableEq, Repr

/-- What `run` returns: `Ok(())`, or the error of the variant. -/
inductive RunResult where
  | Ok
  | Listener (error : ServeError)
  | Start
  | Stop
deriving DecidableEq, Repr

/-- Where `run` stands. `stopping` has the error of the listener that failed (or
none, with no listener at all) and the number of gates told to stop so far. -/
inductive ShellPhase where
  | bound
  | serving
  | stopping (failure : Option ServeError) (told : Nat)
  | returned (result : RunResult)
deriving DecidableEq, Repr

/-- A listener with its rows of the shell's tables. -/
structure BoundAsyncListener (ι : Type*) where
  listener : ι
  unix_listener : Nat
  request_gate : Nat
  loop : LoopPhase
  handlers : List (Handler ι)
  accepted : List Stream
deriving DecidableEq, Repr

structure Shell (ι : Type*) where
  kind : ShellKind
  sockets : List (List Stream)
  gates : List Gate
  listeners : List (BoundAsyncListener ι)
  phase : ShellPhase
  calls : List (RuntimeCall ι)
  request_error_log : List ι
deriving DecidableEq, Repr

inductive ShellEvent where
  /-- `runtime.start()` returns. -/
  | start (ok : Bool)
  | listener (j : Nat) (event : ListenerEvent)
  /-- `serve_connections` sees that listener `j` has failed. -/
  | join (j : Nat)
  /-- The `JoinSet` is empty. -/
  | join_none
  /-- `stop_gracefully` on the next gate. -/
  | tell_gate
  /-- The gates have shut down, and `runtime.stop()` is called. -/
  | runtime_stop (ok : Bool)
deriving DecidableEq, Repr

namespace Listener

variable {ι : Type*}

/-- The runtime is called when a handler begins. -/
def call (l : Listener ι) : ListenerEvent → List (RuntimeCall ι)
  | .handler_begins k => l.handlers[k]?.toList.map fun h => .handle_connection h.listener h.stream
  | _ => []

/-- A handler that ends with an error is reported. -/
def report (l : Listener ι) : ListenerEvent → List ι
  | .handler_ends k .Err _ => l.handlers[k]?.toList.map (·.listener)
  | _ => []

end Listener

namespace Shell

variable {ι : Type*}

/-! ## Binding -/

/-- One turn of the loop in `bind`: a socket and a gate of the listener's own.
`none` where the gate constructor panics. -/
def bind_listener (limit : RequestConcurrencyLimit) (s : Shell ι) (listener : ι) : Option (Shell ι) :=
  (Gate.start limit).map fun gate =>
    { s with
      sockets := s.sockets ++ [[]]
      gates := s.gates ++ [gate]
      listeners := s.listeners ++ [⟨listener, s.sockets.length, s.gates.length, .accepting, [], []⟩] }

/-- `bind`, past the file system. The single shells have one listener, which
their runtime is not told of; there `ι` is `Unit`. -/
def bind (kind : ShellKind) (limit : RequestConcurrencyLimit) (listeners : List ι) : Option (Shell ι) :=
  listeners.foldlM (bind_listener limit) ⟨kind, [], [], [], .bound, [], []⟩

/-! ## Running -/

/-- Listener `j` with the socket and the gate that it names. -/
def view (s : Shell ι) (j : Nat) : Option (Listener ι) :=
  match s.listeners[j]? with
  | none => none
  | some a =>
    match s.sockets[a.unix_listener]?, s.gates[a.request_gate]? with
    | some pending, some gate => some ⟨a.listener, pending, gate, a.loop, a.handlers, a.accepted⟩
    | _, _ => none

/-- `s` after listener `j` has become `l`. -/
def put (s : Shell ι) (j : Nat) (l : Listener ι) : Shell ι :=
  match s.listeners[j]? with
  | none => s
  | some a =>
    { s with
      sockets := s.sockets.set a.unix_listener l.pending
      gates := s.gates.set a.request_gate l.gate
      listeners := s.listeners.set j { a with loop := l.loop, handlers := l.handlers, accepted := l.accepted } }

/-- The accept loops have been started. -/
def loops_run (s : Shell ι) : Bool :=
  match s.phase with
  | .bound | .returned .Start => false
  | _ => true

/-- `abort_all` has been called. -/
def aborted (s : Shell ι) : Bool :=
  match s.phase with
  | .stopping _ _ => true
  | .returned .Start => false
  | .returned _ => true
  | _ => false

/-- Which steps of a listener its shell has. Its clients, its gate and its
handlers are tasks of their own; only a task can panic or be aborted without
taking `run` with it; the context of a TCP stream is made from its address. A
task that is asked to end may take any number of steps before it does, which is
more than tokio lets it. -/
def allows (s : Shell ι) : ListenerEvent → Bool
  | .accept | .accept_fails | .ask | .permit_fails | .spawn => s.loops_run
  | .context_fails => s.loops_run && s.kind ≠ .Tcp
  | .panics => s.loops_run && s.kind = .Multi
  | .cancel => s.aborted && s.kind = .Multi
  | .stop_gate => false
  | _ => true

/-- The result of `run`: a listener error goes before a stop error. -/
def result (failure : Option ServeError) (ok : Bool) : RunResult :=
  match failure, ok with
  | some error, _ => .Listener error
  | none, false => .Stop
  | none, true => .Ok

def step (s : Shell ι) : ShellEvent → Option (Shell ι)
  | .start ok =>
    if s.phase = .bound then
      some { s with calls := s.calls ++ [.start], phase := if ok then .serving else .returned .Start }
    else none
  | .listener j event =>
    match s.view j with
    | some l =>
      if s.allows event then
        (l.step event).map fun l' =>
          { s.put j l' with
            calls := s.calls ++ l.call event
            request_error_log := s.request_error_log ++ l.report event }
      else none
    | none => none
  | .join j =>
    match s.phase, s.view j with
    | .serving, some l =>
      match l.loop with
      | .failed error => some { s with phase := .stopping (some error) 0 }
      | _ => none
    | _, _ => none
  | .join_none => if s.phase = .serving ∧ s.listeners = [] then some { s with phase := .stopping none 0 } else none
  | .tell_gate =>
    match s.phase with
    | .stopping failure told =>
      match s.view told with
      | some l => (l.step .stop_gate).map fun l' => { s.put told l' with phase := .stopping failure (told + 1) }
      | none => none
    | _ => none
  | .runtime_stop ok =>
    match s.phase with
    | .stopping failure told =>
      if told = s.listeners.length ∧ s.gates.all (!·.running) then
        some { s with calls := s.calls ++ [.stop], phase := .returned (result failure ok) }
      else none
    | _ => none

/-! ## One listener in the tables -/

/-- No two listeners name the same socket or the same gate. -/
def Apart (s : Shell ι) : Prop :=
  ∀ (i j : Nat) (a b : BoundAsyncListener ι), s.listeners[i]? = some a → s.listeners[j]? = some b →
    a.unix_listener = b.unix_listener ∨ a.request_gate = b.request_gate → i = j

theorem view_some {s : Shell ι} {j : Nat} {l : Listener ι} :
    s.view j = some l ↔ ∃ a, s.listeners[j]? = some a ∧ s.sockets[a.unix_listener]? = some l.pending ∧
      s.gates[a.request_gate]? = some l.gate ∧ a.listener = l.listener ∧ a.loop = l.loop ∧
      a.handlers = l.handlers ∧ a.accepted = l.accepted := by
  unfold view
  constructor
  · intro h
    split at h
    · cases h
    · rename_i a ha
      split at h
      · rename_i pending gate hp hg
        cases h
        exact ⟨a, ha, hp, hg, rfl, rfl, rfl, rfl⟩
      · cases h
  · rintro ⟨a, ha, hp, hg, h1, h2, h3, h4⟩
    simp only [ha, hp, hg, h1, h2, h3, h4]

theorem put_eq {s : Shell ι} {j : Nat} {a : BoundAsyncListener ι} (h : s.listeners[j]? = some a) (l : Listener ι) :
    s.put j l = { s with
      sockets := s.sockets.set a.unix_listener l.pending
      gates := s.gates.set a.request_gate l.gate
      listeners := s.listeners.set j { a with loop := l.loop, handlers := l.handlers, accepted := l.accepted } } := by
  unfold put
  rw [h]

theorem view_put_self {s : Shell ι} {j : Nat} {l l' : Listener ι} (h : s.view j = some l)
    (hid : l'.listener = l.listener) : (s.put j l').view j = some l' := by
  obtain ⟨a, ha, hp, hg, h1, -⟩ := view_some.1 h
  rw [put_eq ha]
  obtain ⟨hj, -⟩ := List.getElem?_eq_some_iff.1 ha
  obtain ⟨hp', -⟩ := List.getElem?_eq_some_iff.1 hp
  obtain ⟨hg', -⟩ := List.getElem?_eq_some_iff.1 hg
  refine view_some.2 ⟨_, List.getElem?_set_self hj, List.getElem?_set_self hp', List.getElem?_set_self hg', ?_⟩
  exact ⟨h1.trans hid.symm, rfl, rfl, rfl⟩

/-- Nothing a listener does to its own rows can be seen by another. -/
theorem view_put_other {s : Shell ι} (ha : s.Apart) {j k : Nat} (hjk : k ≠ j) (l : Listener ι) :
    (s.put j l).view k = s.view k := by
  cases hj : s.listeners[j]? with
  | none => unfold put; rw [hj]
  | some a =>
    rw [put_eq hj]
    unfold view
    rw [List.getElem?_set_ne hjk.symm]
    cases hk : s.listeners[k]? with
    | none => rfl
    | some b =>
      have hs : a.unix_listener ≠ b.unix_listener := fun h => hjk (ha k j b a hk hj (.inl h.symm))
      have hg : a.request_gate ≠ b.request_gate := fun h => hjk (ha k j b a hk hj (.inr h.symm))
      simp only [List.getElem?_set_ne hs, List.getElem?_set_ne hg]

/-- A listener keeps its rows. -/
theorem apart_put {s : Shell ι} (ha : s.Apart) (j : Nat) (l : Listener ι) : (s.put j l).Apart := by
  cases hj : s.listeners[j]? with
  | none => unfold put; rw [hj]; exact ha
  | some c =>
    rw [put_eq hj]
    have hold : ∀ (i : Nat) (x : BoundAsyncListener ι),
        (s.listeners.set j { c with loop := l.loop, handlers := l.handlers, accepted := l.accepted })[i]? = some x →
        ∃ a, s.listeners[i]? = some a ∧ a.unix_listener = x.unix_listener ∧ a.request_gate = x.request_gate := by
      intro i x hx
      rcases getElem?_set_row hx with ⟨rfl, rfl⟩ | ⟨-, hx⟩
      · exact ⟨c, hj, rfl, rfl⟩
      · exact ⟨x, hx, rfl, rfl⟩
    intro i k x y hx hy hxy
    obtain ⟨a, hai, ha1, ha2⟩ := hold i x hx
    obtain ⟨b, hbk, hb1, hb2⟩ := hold k y hy
    refine ha i k a b hai hbk ?_
    rw [ha1, ha2, hb1, hb2]
    exact hxy

/-! ## What a step can do -/

theorem step_listener {s t : Shell ι} {j : Nat} {event : ListenerEvent} :
    s.step (.listener j event) = some t ↔ ∃ l l', s.view j = some l ∧ s.allows event = true ∧ l.step event = some l' ∧
      t = { s.put j l' with
        calls := s.calls ++ l.call event
        request_error_log := s.request_error_log ++ l.report event } := by
  simp only [step]
  cases hv : s.view j with
  | none => simp
  | some l =>
    by_cases ha : s.allows event = true
    · simp only [ha, if_true, Option.map_eq_some_iff]
      constructor
      · rintro ⟨l', h, rfl⟩
        exact ⟨l, l', rfl, trivial, h, rfl⟩
      · rintro ⟨l₁, l', h₁, -, h, rfl⟩
        cases h₁
        exact ⟨l', h, rfl⟩
    · simp [ha]

/-- Each step, with its guard. -/
theorem step_cases {s t : Shell ι} {event : ShellEvent} (h : s.step event = some t) :
    (∃ ok, event = .start ok ∧ s.phase = .bound ∧
      t = { s with calls := s.calls ++ [.start], phase := if ok then .serving else .returned .Start }) ∨
    (∃ j e l l', event = .listener j e ∧ s.view j = some l ∧ s.allows e = true ∧ l.step e = some l' ∧
      t = { s.put j l' with
        calls := s.calls ++ l.call e
        request_error_log := s.request_error_log ++ l.report e }) ∨
    (∃ failure, s.phase = .serving ∧ (∀ ok, event ≠ .runtime_stop ok) ∧ t = { s with phase := .stopping failure 0 }) ∨
    (∃ failure told l l', event = .tell_gate ∧ s.phase = .stopping failure told ∧ s.view told = some l ∧
      l.step .stop_gate = some l' ∧ t = { s.put told l' with phase := .stopping failure (told + 1) }) ∨
    (∃ ok failure told, event = .runtime_stop ok ∧ s.phase = .stopping failure told ∧
      (∀ gate ∈ s.gates, gate.running = false) ∧
      t = { s with calls := s.calls ++ [.stop], phase := .returned (result failure ok) }) := by
  cases event with
  | start ok =>
    simp only [step, Option.ite_none_right_eq_some, Option.some.injEq] at h
    exact .inl ⟨ok, rfl, h.1, h.2.symm⟩
  | listener j e =>
    obtain ⟨l, l', hv, ha, hl, rfl⟩ := step_listener.1 h
    exact .inr (.inl ⟨j, e, l, l', rfl, hv, ha, hl, rfl⟩)
  | join j =>
    simp only [step] at h
    split at h
    · rename_i l hp hv
      split at h
      · rename_i error hloop
        cases h
        exact .inr (.inr (.inl ⟨some error, hp, by simp, rfl⟩))
      · cases h
    · cases h
  | join_none =>
    simp only [step, Option.ite_none_right_eq_some, Option.some.injEq] at h
    exact .inr (.inr (.inl ⟨none, h.1.1, by simp, h.2.symm⟩))
  | tell_gate =>
    simp only [step] at h
    split at h
    · rename_i failure told hp
      split at h
      · rename_i l hv
        obtain ⟨l', hl, rfl⟩ := Option.map_eq_some_iff.1 h
        exact .inr (.inr (.inr (.inl ⟨failure, told, l, l', rfl, hp, hv, hl, rfl⟩)))
      · cases h
    · cases h
  | runtime_stop ok =>
    simp only [step] at h
    split at h
    · rename_i failure told hp
      simp only [Option.ite_none_right_eq_some, Option.some.injEq] at h
      obtain ⟨⟨-, hall⟩, rfl⟩ := h
      exact .inr (.inr (.inr (.inr ⟨ok, failure, told, rfl, hp, by simpa using hall, rfl⟩)))
    · cases h

/-- Seen from a listener, a step of the shell is one of its own steps or none. -/
theorem step_view {s t : Shell ι} {event : ShellEvent} (ha : s.Apart) (h : s.step event = some t) :
    t.Apart ∧ ∀ k, t.view k = s.view k ∨ ∃ e l l', (event = .listener k e ∨ e = .stop_gate) ∧ s.view k = some l ∧
      l.step e = some l' ∧ t.view k = some l' := by
  have hput : ∀ (j : Nat) (l l' : Listener ι) (e : ListenerEvent), s.view j = some l → l.step e = some l' →
      (event = .listener j e ∨ e = .stop_gate) → ∀ k, (s.put j l').view k = s.view k ∨
        ∃ e l l'', (event = .listener k e ∨ e = .stop_gate) ∧ s.view k = some l ∧ l.step e = some l'' ∧
          (s.put j l').view k = some l'' := by
    intro j l l' e hv hl he k
    by_cases hkj : k = j
    · subst hkj
      exact .inr ⟨e, l, l', he, hv, hl, view_put_self hv (Listener.step_keeps_listener hl)⟩
    · exact .inl (view_put_other ha hkj l')
  rcases step_cases h with ⟨ok, -, -, rfl⟩ | ⟨j, e, l, l', rfl, hv, -, hl, rfl⟩ | ⟨failure, -, -, rfl⟩ |
    ⟨failure, told, l, l', -, -, hv, hl, rfl⟩ | ⟨ok, failure, told, -, -, -, rfl⟩
  · exact ⟨ha, fun k => .inl rfl⟩
  · exact ⟨apart_put ha j l', hput j l l' e hv hl (.inl rfl)⟩
  · exact ⟨ha, fun k => .inl rfl⟩
  · exact ⟨apart_put ha told l', hput told l l' .stop_gate hv hl (.inr rfl)⟩
  · exact ⟨ha, fun k => .inl rfl⟩

/-! ## Every listener has its own -/

/-- A listener whose loop has not begun. -/
def Idle (l : Listener ι) : Prop := l.handlers = [] ∧ l.loop = .accepting

/-- What `bind` has made of the listeners `done`. -/
structure Binding (limit : RequestConcurrencyLimit) (done : List ι) (s : Shell ι) : Prop where
  phase : s.phase = .bound
  calls : s.calls = []
  apart : s.Apart
  below : ∀ a ∈ s.listeners, a.unix_listener < s.sockets.length ∧ a.request_gate < s.gates.length
  length : s.listeners.length = done.length
  view : ∀ j listener, done[j]? = some listener →
    ∃ gate, Gate.start limit = some gate ∧ s.view j = some ⟨listener, [], gate, .accepting, [], []⟩

theorem binding_snoc {limit : RequestConcurrencyLimit} {done : List ι} {s t : Shell ι} {listener : ι}
    (hb : Binding limit done s) (h : bind_listener limit s listener = some t) :
    Binding limit (done ++ [listener]) t := by
  simp only [bind_listener, Option.map_eq_some_iff] at h
  obtain ⟨gate, hgate, rfl⟩ := h
  refine ⟨hb.phase, hb.calls, ?_, ?_, by simp [hb.length], ?_⟩
  · intro i j a b hi hj hab
    rcases (getElem?_snoc _ _ _ _).1 hi with hi | ⟨rfl, rfl⟩ <;> rcases (getElem?_snoc _ _ _ _).1 hj with hj | ⟨rfl, rfl⟩
    · exact hb.apart i j a b hi hj hab
    -- The new rows are past the end of the tables, where no earlier listener has one.
    · have := hb.below a (List.mem_of_getElem? hi)
      simp only at hab
      omega
    · have := hb.below b (List.mem_of_getElem? hj)
      simp only at hab
      omega
    · rfl
  · intro a ha
    simp only [List.length_append, List.length_singleton]
    rcases List.mem_append.1 ha with ha | ha
    · have := hb.below a ha
      omega
    · rw [List.mem_singleton.1 ha]
      exact ⟨Nat.lt_succ_self _, Nat.lt_succ_self _⟩
  · intro j x hx
    rcases (getElem?_snoc _ _ _ _).1 hx with hx | ⟨rfl, rfl⟩
    · obtain ⟨g, hg, hv⟩ := hb.view j x hx
      obtain ⟨a, ha, hp, hga, hrest⟩ := view_some.1 hv
      exact ⟨g, hg, view_some.2 ⟨a, (getElem?_snoc _ _ _ _).2 (.inl ha), (getElem?_snoc _ _ _ _).2 (.inl hp),
        (getElem?_snoc _ _ _ _).2 (.inl hga), hrest⟩⟩
    · exact ⟨gate, hgate, view_some.2 ⟨_, (getElem?_snoc _ _ _ _).2 (.inr ⟨hb.length.symm, rfl⟩),
        (getElem?_snoc _ _ _ _).2 (.inr ⟨rfl, rfl⟩), (getElem?_snoc _ _ _ _).2 (.inr ⟨rfl, rfl⟩), rfl, rfl, rfl, rfl⟩⟩

theorem binding_fold {limit : RequestConcurrencyLimit} (rest : List ι) {done : List ι} {s t : Shell ι}
    (hb : Binding limit done s) (h : rest.foldlM (bind_listener limit) s = some t) :
    Binding limit (done ++ rest) t ∧ t.kind = s.kind := by
  induction rest generalizing done s with
  | nil =>
    cases h
    exact ⟨by simpa using hb, rfl⟩
  | cons listener rest ih =>
    simp only [List.foldlM_cons, Option.bind_eq_bind, Option.bind_eq_some_iff] at h
    obtain ⟨u, hu, h⟩ := h
    obtain ⟨hb', hkind⟩ := ih (binding_snoc hb hu) h
    simp only [bind_listener, Option.map_eq_some_iff] at hu
    obtain ⟨gate, -, rfl⟩ := hu
    exact ⟨by rwa [List.append_assoc] at hb', hkind⟩

theorem bind_binding {kind : ShellKind} {limit : RequestConcurrencyLimit} {listeners : List ι} {s : Shell ι}
    (h : bind kind limit listeners = some s) : Binding limit listeners s ∧ s.kind = kind := by
  have hnone : Binding limit [] (⟨kind, [], [], [], .bound, [], []⟩ : Shell ι) := by
    refine ⟨rfl, rfl, ?_, by simp, rfl, by simp⟩
    intro i j a b hi
    simp at hi
  exact binding_fold listeners hnone h

/-- The listeners of a shell are apart and each keeps its invariant. -/
structure Inv (limit : RequestConcurrencyLimit) (s : Shell ι) : Prop where
  apart : s.Apart
  listener : ∀ j l, s.view j = some l → Listener.Inv limit l

/-- A shell just bound. -/
theorem bind_view {kind : ShellKind} {limit : RequestConcurrencyLimit} {listeners : List ι} {s : Shell ι}
    (h : bind kind limit listeners = some s) {j : Nat} {l : Listener ι} (hv : s.view j = some l) :
    ∃ listener gate, listeners[j]? = some listener ∧ Gate.start limit = some gate ∧
      l = ⟨listener, [], gate, .accepting, [], []⟩ := by
  obtain ⟨hb, -⟩ := bind_binding h
  obtain ⟨a, ha, -⟩ := view_some.1 hv
  obtain ⟨hj, -⟩ := List.getElem?_eq_some_iff.1 ha
  rw [hb.length] at hj
  obtain ⟨gate, hg, hx⟩ := hb.view j _ (List.getElem?_eq_getElem hj)
  rw [hx] at hv
  cases hv
  exact ⟨_, gate, List.getElem?_eq_getElem hj, hg, rfl⟩

theorem start_held {limit : RequestConcurrencyLimit} {gate : Gate} (h : Gate.start limit = some gate) :
    gate.held = 0 := by
  simp only [Gate.start, Option.map_eq_some_iff] at h
  obtain ⟨_, _, rfl⟩ := h
  rfl

theorem inv_bind {kind : ShellKind} {limit : RequestConcurrencyLimit} {listeners : List ι} {s : Shell ι}
    (h : bind kind limit listeners = some s) : Inv limit s := by
  refine ⟨(bind_binding h).1.apart, fun j l hv => ?_⟩
  obtain ⟨listener, gate, -, hg, rfl⟩ := bind_view h hv
  exact ⟨Gate.inv_start hg, start_held hg, by simp, [], rfl, rfl⟩

theorem inv_step {limit : RequestConcurrencyLimit} {s t : Shell ι} {event : ShellEvent} (hi : Inv limit s)
    (h : s.step event = some t) : Inv limit t := by
  obtain ⟨hapart, hview⟩ := step_view hi.apart h
  refine ⟨hapart, fun k x hk => ?_⟩
  rcases hview k with hsame | ⟨e, l, l', -, hl, he, ht⟩
  · exact hi.listener k x (hsame ▸ hk)
  · rw [ht] at hk
    cases hk
    exact Listener.inv_step (hi.listener k l hl) he

/-! ## At most so many requests at a time -/

/-- No step takes the connection of an unfinished handler apart. -/
def KeepsPermits (s : Shell ι) (event : ShellEvent) : Prop :=
  ∀ j e l, event = .listener j e → s.view j = some l → l.KeepsPermit e

/-- At most `limit` handlers of a listener are unfinished, and at most one
stream it has accepted is not with a handler. -/
def Bounded (limit : RequestConcurrencyLimit) (s : Shell ι) : Prop :=
  ∀ j l, s.view j = some l → l.unfinished ≤ limit.count ∧
    ∃ waiting, l.accepted = l.handlers.map (·.stream) ++ waiting ∧ waiting.length ≤ 1

theorem whole_step {limit : RequestConcurrencyLimit} {s t : Shell ι} {event : ShellEvent} (hi : Inv limit s)
    (hw : ∀ j l, s.view j = some l → l.Whole) (hkeeps : s.KeepsPermits event) (h : s.step event = some t) :
    ∀ j l, t.view j = some l → l.Whole := by
  intro k x hk
  rcases (step_view hi.apart h).2 k with hsame | ⟨e, l, l', he, hl, hstep, ht⟩
  · exact hw k x (hsame ▸ hk)
  · rw [ht] at hk
    cases hk
    refine Listener.whole_step (hw k l hl) ?_ hstep
    rcases he with rfl | rfl
    · exact hkeeps k e l rfl hl
    · rintro i hd ⟨⟩

/-- In a run where no handler gives up its permit before it is through, every
listener stays within its limit. Only the loops of `run` accept here, one stream
at a time: calls of `serve_next_connection` that are open together may each wait
with a stream of their own (`ServeNext`). -/
theorem requests_bounded (kind : ShellKind) (limit : RequestConcurrencyLimit) (listeners : List ι) (s₀ s : Shell ι)
    (events : List ShellEvent) (h₀ : bind kind limit listeners = some s₀)
    (hkeeps : Along step KeepsPermits s₀ events) (hrun : exec step s₀ events = some s) : Bounded limit s := by
  have hinv : Inv limit s ∧ ∀ j l, s.view j = some l → l.Whole := by
    refine exec_invariant_along (fun s => Inv limit s ∧ ∀ j l, s.view j = some l → l.Whole) ?_ hkeeps hrun ?_
    · rintro s event t ⟨hi, hw⟩ hk h
      exact ⟨inv_step hi h, whole_step hi hw hk h⟩
    · refine ⟨inv_bind h₀, fun j l hv => ?_⟩
      obtain ⟨listener, gate, -, -, rfl⟩ := bind_view h₀ hv
      simp [Listener.Whole]
  intro j l hv
  exact ⟨Listener.unfinished_le (hinv.1.listener j l hv) (hinv.2 j l hv),
    Listener.waiting_le (hinv.1.listener j l hv)⟩

/-- Every reachable state of a one-listener shell is bounded. -/
def AlwaysBounded (kind : ShellKind) : Prop :=
  ∀ (limit : RequestConcurrencyLimit) (s₀ s : Shell Unit), bind kind limit [()] = some s₀ → Reaches step s₀ s →
    Bounded limit s

/-- Listener 0 accepts a stream and spawns its handler, the gate answering its
request `i`. -/
def admission (i : Nat) : List ShellEvent :=
  [.accept, .ask, .gate_handles, .gate_polls i, .gate_replies i, .spawn].map (.listener 0)

/-- A handler takes its connection apart and goes on; the next is admitted. -/
def partedRun : List ShellEvent :=
  [.start true, .listener 0 (.connect 7), .listener 0 (.connect 8)] ++ admission 0 ++
    [.listener 0 (.handler_begins 0), .listener 0 (.into_parts 0)] ++ admission 1

/-- Each shell lets two requests run at a limit of one. -/
theorem parted_handlers_unbounded : ¬ AlwaysBounded .Single ∧ ¬ AlwaysBounded .Multi ∧ ¬ AlwaysBounded .Tcp := by
  have hrun : ∀ kind, ∃ s₀ s, bind kind Gate.one [()] = some s₀ ∧ exec step s₀ partedRun = some s ∧
      ∃ l, s.view 0 = some l ∧ l.unfinished = 2 := by
    intro kind
    cases kind <;> exact ⟨_, _, rfl, rfl, _, rfl, rfl⟩
  have hno : ∀ kind, ¬ AlwaysBounded kind := by
    intro kind hclaim
    obtain ⟨s₀, s, h₀, hexec, l, hv, hn⟩ := hrun kind
    obtain ⟨hle, -⟩ := hclaim Gate.one s₀ s h₀ ⟨_, hexec⟩ 0 l hv
    rw [hn] at hle
    exact absurd hle (by decide)
  exact ⟨hno _, hno _, hno _⟩

/-- Two requests, one after the other. -/
def wholeRun : List ShellEvent :=
  [.start true, .listener 0 (.connect 7), .listener 0 (.connect 8)] ++ admission 0 ++
    [.listener 0 (.handler_begins 0), .listener 0 (.handler_ends 0 .Ok false)] ++ admission 1

theorem requests_bounded_wholeRun :
    ∃ s₀ s : Shell Unit, bind .Multi Gate.one [()] = some s₀ ∧ exec step s₀ wholeRun = some s ∧ Bounded Gate.one s := by
  refine ⟨_, _, rfl, rfl, requests_bounded .Multi Gate.one [()] _ _ wholeRun rfl (along_of_forall ?_ _) rfl⟩
  rintro event hm s j e l rfl - k hd rfl
  simp [wholeRun, admission] at hm

/-! ## Start, every handler, stop -/

/-- The calls of the handlers that have begun. -/
def handles (handled : List (ι × Stream)) : List (RuntimeCall ι) := handled.map fun x => .handle_connection x.1 x.2

/-- `runtime.stop()` comes when every spawned handler has finished, and nothing
is handled after it. -/
def StopsLast (s : Shell ι) : Prop :=
  RuntimeCall.stop ∈ s.calls → (∀ j l, s.view j = some l → ∀ h ∈ l.handlers, h.phase.isFinished = true) ∧
    ∃ handled, s.calls = .start :: handles handled ++ [.stop]

/-- No request is under way at the step that calls `runtime.stop()`. -/
def StopsSettled (limit : RequestConcurrencyLimit) (s : Shell ι) (event : ShellEvent) : Prop :=
  ∀ ok, event = .runtime_stop ok → ∀ j l, s.view j = some l → l.Settled limit

/-- The calls so far, by where `run` stands. -/
def Ordered (s : Shell ι) : Prop :=
  match s.phase with
  | .bound => s.calls = [] ∧ ∀ j l, s.view j = some l → Idle l
  | .returned .Start => s.calls = [.start] ∧ ∀ j l, s.view j = some l → Idle l
  | .serving | .stopping _ _ => ∃ handled, s.calls = .start :: handles handled
  | .returned _ => (∀ j l, s.view j = some l → l.Quiet) ∧ ∃ handled, s.calls = .start :: handles handled ++ [.stop]

theorem stop_not_mem_handles (handled : List (ι × Stream)) : RuntimeCall.stop ∉ .start :: handles handled := by
  simp [handles]

theorem ordered_stopsLast {s : Shell ι} (h : Ordered s) : StopsLast s := by
  intro hstop
  unfold Ordered at h
  split at h
  · rw [h.1] at hstop
    cases hstop
  · rw [h.1] at hstop
    simp at hstop
  · obtain ⟨handled, hc⟩ := h
    rw [hc] at hstop
    exact absurd hstop (stop_not_mem_handles handled)
  · obtain ⟨handled, hc⟩ := h
    rw [hc] at hstop
    exact absurd hstop (stop_not_mem_handles handled)
  · exact ⟨fun j l hv => (h.1 j l hv).finished, h.2⟩

theorem call_eq_nil {l : Listener ι} {event : ListenerEvent} (h : ∀ k, event ≠ .handler_begins k) : l.call event = [] := by
  cases event with
  | handler_begins k => exact absurd rfl (h k)
  | _ => rfl

theorem call_handles (l : Listener ι) (event : ListenerEvent) : ∃ handled, l.call event = handles handled := by
  by_cases h : ∃ k, event = .handler_begins k
  · obtain ⟨k, rfl⟩ := h
    exact ⟨l.handlers[k]?.toList.map fun h => (h.listener, h.stream), by simp [Listener.call, handles]⟩
  · exact ⟨[], call_eq_nil fun k hk => h ⟨k, hk⟩⟩

/-- Before the loops run there is nothing but clients and gates. -/
theorem idle_step {s : Shell ι} {l l' : Listener ι} {event : ListenerEvent} (hidle : Idle l)
    (hphase : s.phase = .bound ∨ s.phase = .returned .Start) (ha : s.allows event = true)
    (h : l.step event = some l') : Idle l' ∧ ∀ k, event ≠ .handler_begins k := by
  have hloops : s.loops_run = false := by unfold loops_run; rcases hphase with hp | hp <;> rw [hp]
  have haborted : s.aborted = false := by unfold aborted; rcases hphase with hp | hp <;> rw [hp]
  obtain ⟨hnone, hloop⟩ := hidle
  have hno : ∀ (k : Nat) (x : Handler ι), l.handlers[k]? ≠ some x := by simp [hnone]
  cases Listener.step_moves h with
  | connect stream => exact ⟨⟨hnone, hloop⟩, by simp⟩
  | handles gate hg => exact ⟨⟨hnone, hloop⟩, by simp⟩
  | polls i gate hg => exact ⟨⟨hnone, hloop⟩, by simp⟩
  | unread i r gate hr hn hg => exact ⟨⟨hnone, hloop⟩, by simp⟩
  | begins k hd hk hp => exact absurd hk (hno k hd)
  | parts k hd gate hk => exact absurd hk (hno k hd)
  | ends k hd outcome passed_on gate hk => exact absurd hk (hno k hd)
  | ends_without k hd outcome passed_on hk => exact absurd hk (hno k hd)
  | admits i stream r gate hasks => rw [hloop] at hasks; cases hasks
  -- The rest are steps of a loop, or of its end.
  | fails event error hfail => cases event <;> simp [ListenerEvent.isFailure, allows, hloops] at hfail ha
  | accept => simp [allows, hloops] at ha
  | ask => simp [allows, hloops] at ha
  | spawn => simp [allows, hloops] at ha
  | drops => simp [allows, haborted] at ha
  | abandons => simp [allows, haborted] at ha
  | stops => cases ha
  | stopped => cases ha

/-- What holds of every listener and is kept by a step of one holds afterwards. -/
theorem view_all {P Q : Listener ι → Prop} {s : Shell ι} (ha : s.Apart) {j : Nat} {l l' : Listener ι} {event : ListenerEvent}
    (hv : s.view j = some l) (hl : l.step event = some l') (hp : ∀ k x, s.view k = some x → P x)
    (hq : ∀ x, P x → Q x) (hstep : P l → Q l') : ∀ k x, (s.put j l').view k = some x → Q x := by
  intro k x hk
  by_cases hkj : k = j
  · subst hkj
    rw [view_put_self hv (Listener.step_keeps_listener hl)] at hk
    cases hk
    exact hstep (hp k l hv)
  · rw [view_put_other ha hkj] at hk
    exact hq x (hp k x hk)

theorem put_phase (s : Shell ι) (j : Nat) (l : Listener ι) : (s.put j l).phase = s.phase := by
  unfold put
  split <;> rfl

theorem put_calls (s : Shell ι) (j : Nat) (l : Listener ι) : (s.put j l).calls = s.calls := by
  unfold put
  split <;> rfl

/-- The steps of a listener are none of `run`. -/
theorem listener_phase {s t : Shell ι} {j : Nat} {e : ListenerEvent} (h : s.step (.listener j e) = some t) :
    t.phase = s.phase := by
  obtain ⟨l, l', -, -, -, rfl⟩ := step_listener.1 h
  exact put_phase s j l'

theorem result_ne_start (failure : Option ServeError) (ok : Bool) : result failure ok ≠ .Start := by
  cases failure <;> cases ok <;> simp [result]

/-- More handlers begin after the ones before. -/
theorem handles_append (handled : List (ι × Stream)) {calls : List (RuntimeCall ι)}
    (h : ∃ more, calls = handles more) : ∃ all, .start :: handles handled ++ calls = .start :: handles all := by
  obtain ⟨more, rfl⟩ := h
  exact ⟨handled ++ more, by simp [handles]⟩

theorem ordered_listener {limit : RequestConcurrencyLimit} {s t : Shell ι} {j : Nat} {l l' : Listener ι}
    {event : ListenerEvent} (hi : Inv limit s) (ho : Ordered s) (hv : s.view j = some l) (ha : s.allows event = true)
    (hl : l.step event = some l') (hphase : t.phase = s.phase) (hcalls : t.calls = s.calls ++ l.call event)
    (hview : ∀ k, t.view k = (s.put j l').view k) : Ordered t := by
  have hidle : (s.phase = .bound ∨ s.phase = .returned .Start) → (∀ k x, s.view k = some x → Idle x) →
      t.calls = s.calls ∧ ∀ k x, t.view k = some x → Idle x := by
    intro hp hold
    obtain ⟨hidle', hnot⟩ := idle_step (hold j l hv) hp ha hl
    refine ⟨by rw [hcalls, call_eq_nil hnot, List.append_nil], fun k x hk => ?_⟩
    rw [hview] at hk
    exact view_all hi.apart hv hl hold (fun _ h => h) (fun _ => hidle') k x hk
  unfold Ordered at ho ⊢
  rw [hphase]
  split at ho
  · rename_i hp
    obtain ⟨hc, hall⟩ := hidle (.inl hp) ho.2
    exact ⟨hc.trans ho.1, hall⟩
  · rename_i hp
    obtain ⟨hc, hall⟩ := hidle (.inr hp) ho.2
    exact ⟨hc.trans ho.1, hall⟩
  · obtain ⟨handled, hc⟩ := ho
    rw [hcalls, hc]
    exact handles_append handled (call_handles l event)
  · obtain ⟨handled, hc⟩ := ho
    rw [hcalls, hc]
    exact handles_append handled (call_handles l event)
  · rename_i r hr hp
    obtain ⟨hquiet, handled, hc⟩ := ho
    obtain ⟨hq', hnot⟩ := Listener.quiet_step (hi.listener j l hv).gate.never_closed (hquiet j l hv) hl
    refine ⟨fun k x hk => ?_, handled, by rw [hcalls, call_eq_nil hnot, List.append_nil, hc]⟩
    rw [hview] at hk
    exact view_all hi.apart hv hl hquiet (fun _ h => h) (fun _ => hq') k x hk

theorem ordered_step {limit : RequestConcurrencyLimit} {s t : Shell ι} {event : ShellEvent} (hi : Inv limit s)
    (ho : Ordered s) (hsettled : s.StopsSettled limit event) (h : s.step event = some t) : Ordered t := by
  rcases step_cases h with ⟨ok, -, hp, rfl⟩ | ⟨j, e, l, l', -, hv, ha, hl, rfl⟩ | ⟨failure, hp, -, rfl⟩ |
    ⟨failure, told, l, l', -, hp, hv, hl, rfl⟩ | ⟨ok, failure, told, rfl, hp, hall, rfl⟩
  · simp only [Ordered, hp] at ho
    obtain ⟨hc, hidle⟩ := ho
    cases ok with
    | true => exact ⟨[], by simp [hc, handles]⟩
    | false => exact ⟨by simp [hc], hidle⟩
  · exact ordered_listener hi ho hv ha hl (put_phase s j l') rfl fun k => rfl
  · simpa only [Ordered, hp] using ho
  · simp only [Ordered, hp] at ho
    simpa only [Ordered, put_calls] using ho
  · simp only [Ordered, hp] at ho
    obtain ⟨handled, hc⟩ := ho
    -- The gates have shut down with no request under way, so every listener is quiet.
    have hquiet : ∀ j l, s.view j = some l → l.Quiet := by
      intro j l hv
      obtain ⟨a, -, -, hg, -⟩ := view_some.1 hv
      exact Listener.settled_quiet (hi.listener j l hv) (hsettled ok rfl j l hv) (hall _ (List.mem_of_getElem? hg))
    unfold Ordered
    split
    · rename_i hp'; cases hp'
    · rename_i hp'
      exact absurd (ShellPhase.returned.inj hp') (result_ne_start failure ok)
    · rename_i hp'; cases hp'
    · rename_i hp'; cases hp'
    · exact ⟨hquiet, handled, by simp [hc]⟩

/-- In a run that calls `runtime.stop()` only while no request is under way,
the runtime is started, handles connections and is stopped, in this order, and
every handler has finished when it is stopped. -/
theorem stops_last (kind : ShellKind) (limit : RequestConcurrencyLimit) (listeners : List ι) (s₀ s : Shell ι)
    (events : List ShellEvent) (h₀ : bind kind limit listeners = some s₀)
    (hsettled : Along step (StopsSettled limit) s₀ events) (hrun : exec step s₀ events = some s) : StopsLast s := by
  have hinv : Inv limit s ∧ Ordered s := by
    refine exec_invariant_along (fun s => Inv limit s ∧ Ordered s) ?_ hsettled hrun ?_
    · rintro s event t ⟨hi, ho⟩ hset h
      exact ⟨inv_step hi h, ordered_step hi ho hset h⟩
    · refine ⟨inv_bind h₀, ?_⟩
      obtain ⟨hb, -⟩ := bind_binding h₀
      unfold Ordered
      rw [hb.phase]
      refine ⟨hb.calls, fun j l hv => ?_⟩
      obtain ⟨listener, gate, -, -, rfl⟩ := bind_view h₀ hv
      exact ⟨rfl, rfl⟩
  exact ordered_stopsLast hinv.2

/-- Every reachable state of a one-listener shell stops in order. -/
def AlwaysStopsLast (kind : ShellKind) : Prop :=
  ∀ (limit : RequestConcurrencyLimit) (s₀ s : Shell Unit), bind kind limit [()] = some s₀ → Reaches step s₀ s →
    StopsLast s

/-- A failing accept ends the shell: its gate is told to stop and does. -/
def shutdown : List ShellEvent := [.listener 0 .accept_fails, .join 0, .tell_gate, .listener 0 .gate_handles]

/-- The accept loop fails while the first request is handled. -/
def busyRun : List ShellEvent :=
  [.start true, .listener 0 (.connect 7)] ++ admission 0 ++ [.listener 0 (.handler_begins 0)] ++ shutdown ++
    [.runtime_stop true]

/-- Each shell stops its runtime under a running handler. -/
theorem stop_under_handler : ¬ AlwaysStopsLast .Single ∧ ¬ AlwaysStopsLast .Multi ∧ ¬ AlwaysStopsLast .Tcp := by
  have hrun : ∀ kind, ∃ s₀ s, bind kind Gate.one [()] = some s₀ ∧ exec step s₀ busyRun = some s ∧
      RuntimeCall.stop ∈ s.calls ∧ ∃ l h, s.view 0 = some l ∧ l.handlers[0]? = some h ∧ h.phase = .running := by
    intro kind
    cases kind <;> exact ⟨_, _, rfl, rfl, by decide, _, _, rfl, rfl, rfl⟩
  have hno : ∀ kind, ¬ AlwaysStopsLast kind := by
    intro kind hclaim
    obtain ⟨s₀, s, h₀, hexec, hstop, l, h, hv, hh, hp⟩ := hrun kind
    obtain ⟨hall, -⟩ := hclaim Gate.one s₀ s h₀ ⟨_, hexec⟩ hstop
    have hf := hall 0 l hv h (List.mem_of_getElem? hh)
    rw [hp] at hf
    cases hf
  exact ⟨hno _, hno _, hno _⟩

/-- The same up to the stop, with the request through before the loop fails. -/
def settledRun : List ShellEvent :=
  [.start true, .listener 0 (.connect 7)] ++ admission 0 ++
    [.listener 0 (.handler_begins 0), .listener 0 (.handler_ends 0 .Ok false)] ++ shutdown

theorem stops_last_settledRun :
    ∃ s₀ s : Shell Unit, bind .Single Gate.one [()] = some s₀ ∧
      exec step s₀ (settledRun ++ [.runtime_stop true]) = some s ∧ RuntimeCall.stop ∈ s.calls ∧ StopsLast s := by
  refine ⟨_, _, rfl, rfl, by decide,
    stops_last .Single Gate.one [()] _ _ (settledRun ++ [.runtime_stop true]) rfl ?_ rfl⟩
  refine (along_append rfl).2 ⟨along_of_forall ?_ _, ?_, fun _ _ => trivial⟩
  · rintro event hm s ok rfl
    simp [settledRun, admission, shutdown] at hm
  · intro ok _ j l hv
    rcases j with _ | j
    · cases hv
      exact ⟨by decide, by unfold Gate.Drained; decide, by decide⟩
    · cases hv

/-! ## Each listener on its own -/

end Shell

/-- The events of a run in which no listener has failed yet. -/
def ShellEvent.beforeFailure : ShellEvent → Bool
  | .start _ => true
  | .listener _ event => !event.isFailure
  | _ => false

/-- The event as a shell sees it that has listener `j` as its listener `i`. -/
def ShellEvent.project (j i : Nat) : ShellEvent → Option ShellEvent
  | .start ok => some (.start ok)
  | .listener k event => if k = j then some (.listener i event) else none
  | _ => none

namespace Shell

/-- `one` has listener `j` of `s` as its listener `i`, and serves like `s`. -/
structure Follows (j i : Nat) (s one : Shell ι) : Prop where
  apart : s.Apart
  apart_one : one.Apart
  phase : one.phase = s.phase
  early : s.aborted = false
  view : one.view i = s.view j

/-- Shells in the same phase allow the same steps, but for those only one kind
of shell has. -/
theorem allows_eq {s one : Shell ι} (hphase : one.phase = s.phase) (hearly : s.aborted = false) {event : ListenerEvent}
    (htcp : event = .context_fails → (one.kind = .Tcp ↔ s.kind = .Tcp))
    (hmulti : event = .panics → (one.kind = .Multi ↔ s.kind = .Multi)) : one.allows event = s.allows event := by
  have hloops : one.loops_run = s.loops_run := by unfold loops_run; rw [hphase]
  have habort : one.aborted = s.aborted := by unfold aborted; rw [hphase]
  cases event with
  | context_fails => simp [allows, hloops, htcp rfl]
  | panics => simp [allows, hloops, hmulti rfl]
  | _ => simp [allows, hloops, habort, hearly]

theorem follows_step (j i : Nat) (s : Shell ι) (event : ShellEvent) (t one : Shell ι) (hf : Follows j i s one)
    (hup : event.beforeFailure = true) (h : s.step event = some t) :
    (∀ e, event.project j i = some e → ∃ one', one.step e = some one' ∧ Follows j i t one') ∧
      (event.project j i = none → Follows j i t one) := by
  cases event with
  | start ok =>
    simp only [step, Option.ite_none_right_eq_some, Option.some.injEq] at h
    obtain ⟨hp, rfl⟩ := h
    refine ⟨?_, fun hnone => by cases hnone⟩
    rintro e ⟨⟩
    refine ⟨_, if_pos (hf.phase.trans hp), ?_⟩
    exact ⟨hf.apart, hf.apart_one, rfl, by cases ok <;> rfl, hf.view⟩
  | listener k e =>
    obtain ⟨l, l', hv, ha, hl, rfl⟩ := step_listener.1 h
    have hid := Listener.step_keeps_listener hl
    have hearly : (s.put k l').aborted = false := by
      unfold aborted; rw [put_phase]; exact hf.early
    simp only [ShellEvent.project]
    by_cases hkj : k = j
    · subst hkj
      rw [if_pos rfl]
      refine ⟨?_, fun hnone => by cases hnone⟩
      rintro e' ⟨⟩
      have hv' : one.view i = some l := hf.view.trans hv
      have ha' : one.allows e = true := by
        rw [allows_eq hf.phase hf.early]
        · exact ha
        · rintro rfl; cases hup
        · rintro rfl; cases hup
      refine ⟨_, step_listener.2 ⟨l, l', hv', ha', hl, rfl⟩, ?_⟩
      exact ⟨apart_put hf.apart k l', apart_put hf.apart_one i l',
        (put_phase one i l').trans (hf.phase.trans (put_phase s k l').symm), hearly,
        (view_put_self hv' hid).trans (view_put_self hv hid).symm⟩
    · rw [if_neg hkj]
      refine ⟨by rintro e ⟨⟩, fun _ => ?_⟩
      exact ⟨apart_put hf.apart k l', hf.apart_one, hf.phase.trans (put_phase s k l').symm, hearly,
        hf.view.trans (view_put_other hf.apart (Ne.symm hkj) l').symm⟩
  | join | join_none | tell_gate | runtime_stop => cases hup

theorem follows_exec {j i : Nat} {s₀ s one₀ : Shell ι} {events : List ShellEvent}
    (hup : ∀ event ∈ events, event.beforeFailure = true) (hrun : exec step s₀ events = some s)
    (hf : Follows j i s₀ one₀) :
    ∃ one, exec step one₀ (events.filterMap (·.project j i)) = some one ∧ Follows j i s one :=
  exec_simulates (Follows j i) (fun event => event.beforeFailure = true) (·.project j i) (follows_step j i) hup hrun hf

/-- Whether a listener can take a step shows in its own view. -/
theorem enabled_eq {j i : Nat} {s one : Shell ι} (hf : Follows j i s one) {event : ListenerEvent}
    (hallows : one.allows event = s.allows event) :
    (one.step (.listener i event)).isSome = (s.step (.listener j event)).isSome := by
  simp only [step, hf.view, hallows]
  cases s.view j with
  | none => rfl
  | some l =>
    cases s.allows event with
    | false => rfl
    | true => simp

theorem step_accepted {l l' : Listener ι} {event : ListenerEvent} (h : l.step event = some l') :
    l.accepted ⊆ l'.accepted := by
  cases Listener.step_moves h with
  | accept stream rest hloop hp => exact List.subset_append_left _ _
  | _ => exact fun _ hx => hx

/-- Every handler was begun by the listener that accepted its stream. -/
structure Named (listeners : List ι) (s : Shell ι) : Prop where
  listener : ∀ j l, s.view j = some l → listeners[j]? = some l.listener
  call : ∀ listener stream, RuntimeCall.handle_connection listener stream ∈ s.calls →
    ∃ j l, s.view j = some l ∧ l.listener = listener ∧ stream ∈ l.accepted

theorem named_step {limit : RequestConcurrencyLimit} {listeners : List ι} {s t : Shell ι} {event : ShellEvent}
    (hi : Inv limit s) (hn : Named listeners s) (h : s.step event = some t) : Named listeners t := by
  obtain ⟨-, hview⟩ := step_view hi.apart h
  have hforward : ∀ j l, s.view j = some l → ∃ l', t.view j = some l' ∧ l'.listener = l.listener ∧
      l.accepted ⊆ l'.accepted := by
    intro j l hv
    rcases hview j with hsame | ⟨e, x, l', -, hx, hstep, ht⟩
    · exact ⟨l, hsame.trans hv, rfl, fun _ hm => hm⟩
    · rw [hv] at hx
      cases hx
      exact ⟨l', ht, Listener.step_keeps_listener hstep, step_accepted hstep⟩
  refine ⟨?_, ?_⟩
  · intro j x hk
    rcases hview j with hsame | ⟨e, l, l', -, hl, hstep, ht⟩
    · exact hn.listener j x (hsame ▸ hk)
    · rw [ht] at hk
      cases hk
      rw [Listener.step_keeps_listener hstep]
      exact hn.listener j l hl
  · intro listener stream hm
    have hold : RuntimeCall.handle_connection listener stream ∈ s.calls →
        ∃ j l, t.view j = some l ∧ l.listener = listener ∧ stream ∈ l.accepted := by
      intro hm
      obtain ⟨j, l, hv, hid, hacc⟩ := hn.call listener stream hm
      obtain ⟨l', hv', hid', hsub⟩ := hforward j l hv
      exact ⟨j, l', hv', hid'.trans hid, hsub hacc⟩
    rcases step_cases h with ⟨ok, -, -, rfl⟩ | ⟨j, e, l, l', -, hv, ha, hl, rfl⟩ | ⟨failure, -, -, rfl⟩ |
      ⟨failure, told, l, l', -, -, hv, hl, rfl⟩ | ⟨ok, failure, told, -, -, -, rfl⟩
    · exact hold (by simpa using hm)
    · rcases List.mem_append.1 hm with hm | hm
      · exact hold hm
      · -- The call is that of a handler the listener has spawned.
        cases e with
        | handler_begins k =>
          simp only [Listener.call, List.mem_map, Option.mem_toList] at hm
          obtain ⟨x, hx, hcall⟩ := hm
          cases hcall
          obtain ⟨hid, hacc⟩ := (hi.listener j l hv).identity x (List.mem_of_getElem? hx)
          obtain ⟨l'', hv'', hid'', hsub⟩ := hforward j l hv
          exact ⟨j, l'', hv'', hid''.trans hid.symm, hsub hacc⟩
        | _ => cases hm
    · exact hold hm
    · exact hold (put_calls s told l' ▸ hm)
    · exact hold (by simpa using hm)

theorem step_kind {s t : Shell ι} {event : ShellEvent} (h : s.step event = some t) : t.kind = s.kind := by
  have hput : ∀ (j : Nat) (l : Listener ι), (s.put j l).kind = s.kind := by
    intro j l
    unfold put
    split <;> rfl
  rcases step_cases h with ⟨ok, -, -, rfl⟩ | ⟨j, e, l, l', -, -, -, -, rfl⟩ | ⟨failure, -, -, rfl⟩ |
    ⟨failure, told, l, l', -, -, -, -, rfl⟩ | ⟨ok, failure, told, -, -, -, rfl⟩
  · rfl
  · exact hput j l'
  · rfl
  · exact hput told l'
  · rfl

theorem bind_exec_kind {kind : ShellKind} {limit : RequestConcurrencyLimit} {listeners : List ι} {s₀ s : Shell ι}
    {events : List ShellEvent} (h₀ : bind kind limit listeners = some s₀) (hrun : exec step s₀ events = some s) :
    s.kind = kind :=
  exec_invariant (fun s => s.kind = kind) (fun _ _ _ hk h => (step_kind h).trans hk) hrun (bind_binding h₀).2

theorem named_bind {kind : ShellKind} {limit : RequestConcurrencyLimit} {listeners : List ι} {s : Shell ι}
    (h : bind kind limit listeners = some s) : Named listeners s := by
  refine ⟨fun j l hv => ?_, fun listener stream hm => ?_⟩
  · obtain ⟨listener, gate, hl, -, rfl⟩ := bind_view h hv
    exact hl
  · rw [(bind_binding h).1.calls] at hm
    cases hm

/-- A shell binds when its gates can be made. -/
theorem bind_single (kind' : ShellKind) {kind : ShellKind} {limit : RequestConcurrencyLimit} {listeners : List ι} {s : Shell ι}
    (h : bind kind limit listeners = some s) {j : Nat} {listener : ι} (hj : listeners[j]? = some listener) :
    ∃ one, bind kind' limit [listener] = some one ∧ Follows j 0 s one := by
  obtain ⟨hb, -⟩ := bind_binding h
  obtain ⟨gate, hg, hv⟩ := hb.view j listener hj
  have hone : bind kind' limit [listener] =
      some ⟨kind', [[]], [gate], [⟨listener, 0, 0, .accepting, [], []⟩], .bound, [], []⟩ := by
    simp [bind, bind_listener, hg]
  refine ⟨_, hone, hb.apart, (bind_binding hone).1.apart, hb.phase.symm, ?_, hv.symm⟩
  unfold aborted
  rw [hb.phase]

/-- Up to the first failure, each listener of the multi shell behaves as if it
were alone: its events are a run of a single shell with the same limit, it can
do in the one what it can do in the other, and of two runs with the same events
of its own, whatever the other listeners do in them, both leave it in the same
state with the same steps. The runtime is given each stream with the listener
that accepted it. -/
theorem listeners_independent (limit : RequestConcurrencyLimit) (listeners : List ι) (s₀ s : Shell ι)
    (events : List ShellEvent) (h₀ : bind .Multi limit listeners = some s₀)
    (hup : ∀ event ∈ events, event.beforeFailure = true) (hrun : exec step s₀ events = some s) :
    (∀ (j : Nat) (listener : ι), listeners[j]? = some listener →
      ∃ one₀ one, bind .Single limit [listener] = some one₀ ∧
        exec step one₀ (events.filterMap (·.project j 0)) = some one ∧
        one.view 0 = s.view j ∧
        (∀ event : ListenerEvent, event ≠ .panics →
          (s.step (.listener j event)).isSome = (one.step (.listener 0 event)).isSome) ∧
        ∀ events' s', (∀ event ∈ events', event.beforeFailure = true) → exec step s₀ events' = some s' →
          events'.filterMap (·.project j 0) = events.filterMap (·.project j 0) →
          s'.view j = s.view j ∧
            ∀ event, (s'.step (.listener j event)).isSome = (s.step (.listener j event)).isSome) ∧
    ∀ listener stream, RuntimeCall.handle_connection listener stream ∈ s.calls →
      ∃ j l, listeners[j]? = some listener ∧ s.view j = some l ∧ stream ∈ l.accepted := by
  constructor
  · intro j listener hj
    obtain ⟨one₀, hone, hf₀⟩ := bind_single .Single h₀ hj
    obtain ⟨one, hexec, hf⟩ := follows_exec hup hrun hf₀
    refine ⟨one₀, one, hone, hexec, hf.view, ?_, ?_⟩
    · intro event hne
      refine (enabled_eq hf (allows_eq hf.phase hf.early (fun _ => ?_) fun he => absurd he hne)).symm
      simp [bind_exec_kind hone hexec, bind_exec_kind h₀ hrun]
    · intro events' s' hup' hrun' hsame
      obtain ⟨one', hexec', hf'⟩ := follows_exec hup' hrun' hf₀
      rw [hsame, hexec] at hexec'
      cases hexec'
      have hkind : s'.kind = s.kind := (bind_exec_kind h₀ hrun').trans (bind_exec_kind h₀ hrun).symm
      have hfollows : Follows j j s s' :=
        ⟨hf.apart, hf'.apart, hf'.phase.symm.trans hf.phase, hf.early, hf'.view.symm.trans hf.view⟩
      refine ⟨hfollows.view, fun event => enabled_eq hfollows (allows_eq hfollows.phase hf.early ?_ ?_)⟩
      · intro _; rw [hkind]
      · intro _; rw [hkind]
  · intro listener stream hm
    have hinv : Inv limit s ∧ Named listeners s := by
      refine exec_invariant (fun s => Inv limit s ∧ Named listeners s) ?_ hrun ⟨inv_bind h₀, named_bind h₀⟩
      rintro s event t ⟨hi, hn⟩ h
      exact ⟨inv_step hi h, named_step hi hn h⟩
    obtain ⟨j, l, hv, hid, hacc⟩ := hinv.2.call listener stream hm
    exact ⟨j, l, hid ▸ hinv.2.listener j l hv, hv, hacc⟩

/-- Listener 0 has its only permit out and a stream waiting for it, and
listener 1 serves. -/
def saturatedRun : List ShellEvent :=
  [.start true, .listener 0 (.connect 7), .listener 0 (.connect 8), .listener 1 (.connect 9)] ++ admission 0 ++
    [.accept, .ask, .gate_handles].map (.listener 0) ++
    [.accept, .ask, .gate_handles, .gate_polls 0, .gate_replies 0, .spawn, .handler_begins 0].map (.listener 1)

theorem listeners_independent_saturatedRun :
    ∃ s₀ s : Shell Nat, bind .Multi Gate.one [4, 5] = some s₀ ∧ exec step s₀ saturatedRun = some s ∧
      ∃ one₀ one, bind .Single Gate.one [5] = some one₀ ∧
        exec step one₀ (saturatedRun.filterMap (·.project 1 0)) = some one ∧ one.view 0 = s.view 1 := by
  have hone : ∀ s₀ s : Shell Nat, bind .Multi Gate.one [4, 5] = some s₀ → exec step s₀ saturatedRun = some s →
      ∃ one₀ one, bind .Single Gate.one [5] = some one₀ ∧
        exec step one₀ (saturatedRun.filterMap (·.project 1 0)) = some one ∧ one.view 0 = s.view 1 := by
    intro s₀ s h₀ hrun
    obtain ⟨hview, -⟩ := listeners_independent Gate.one [4, 5] s₀ s saturatedRun h₀ (by decide) hrun
    obtain ⟨one₀, one, hone, hexec, hsame, -⟩ := hview 1 5 rfl
    exact ⟨one₀, one, hone, hexec, hsame⟩
  exact ⟨_, _, rfl, rfl, hone _ _ rfl rfl⟩

end Shell

end TriadRuntime
