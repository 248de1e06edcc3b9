import TriadRuntime.RequestGate
/-!
# One async listener (`async_runtime.rs`, `tcp.rs`)

The accept loop of a listener takes a stream off its socket, asks its gate for
a permit and spawns `handle_connection` as a task of its own, detached with
`tokio::spawn`. The loop is the same text three times
(`BoundAsyncSingleListenerDaemon`, `AsyncListenerTask`,
`BoundTcpListenerDaemon`), so it is one machine here; the steps only one of them
has are allowed by the shell (`AsyncShell`).

Trusted: a socket hands out its pending connections in order; a spawned task
runs at any later time, or never; dropping a task drops what it owns;
`Listener::clone` returns, in the loop and in the spawned task.
-/

open Systems

namespace TriadRuntime

/-- A stream, by the number of its connection. -/
abbrev Stream := Nat

/-- The `AsyncListenerError`s an accept loop can end with. -/
inductive ServeError where
  | Io
  | RequestGate
  | ListenerTask
deriving DecidableEq, Repr

/-- Where the loop in `serve_connections` stands. -/
inductive LoopPhase where
  | accepting
  | accepted (stream : Stream)
  | asking (stream : Stream)
  | admitted (stream : Stream)
  | failed (error : ServeError)
  | cancelled
deriving DecidableEq, Repr

inductive Outcome where
  | Ok
  | Err
  | panicked
deriving DecidableEq, Repr

inductive HandlerPhase where
  | spawned
  | running
  | finished (outcome : Outcome)
deriving DecidableEq, Repr

def HandlerPhase.isFinished : HandlerPhase → Bool
  | .finished _ => true
  | _ => false

/-- A spawned `handle_connection` with the listener and the stream it was given.
`permit` is false once its `AcceptedConnection` is no longer whole: `into_parts`
gives the stream back and drops the permit. -/
structure Handler (ι : Type*) where
  listener : ι
  stream : Stream
  permit : Bool
  phase : HandlerPhase
deriving DecidableEq, Repr

/-- A bound listener: its socket and its gate, its accept loop, the handlers it
has spawned and, for the theorems only, every stream it has accepted. -/
structure Listener (ι : Type*) where
  listener : ι
  pending : List Stream
  gate : Gate
  loop : LoopPhase
  handlers : List (Handler ι)
  accepted : List Stream
deriving DecidableEq, Repr

inductive ListenerEvent where
  /-- A client connects. -/
  | connect (stream : Stream)
  | accept
  | accept_fails
  /-- `ConnectionContext::from_tokio_stream` fails. -/
  | context_fails
  /-- The loop sends `AcquireRequestPermit` to its gate. -/
  | ask
  /-- The gate cannot be asked any more, or answers with an error. -/
  | permit_fails
  | gate_handles
  | gate_polls (i : Nat)
  | gate_replies (i : Nat)
  | spawn
  | handler_begins (k : Nat)
  /-- The connection of handler `k` is taken apart or dropped, by the handler or
  by whoever it passed the connection on to. -/
  | into_parts (k : Nat)
  /-- `passed_on`: the whole connection has gone to some other task. -/
  | handler_ends (k : Nat) (outcome : Outcome) (passed_on : Bool)
  /-- The task of the loop panics where it waits for a stream, and `join_next`
  hands out a `JoinError`. -/
  | panics
  /-- The task of the loop is aborted. -/
  | cancel
  /-- `stop_gracefully` on the gate. -/
  | stop_gate
deriving DecidableEq, Repr

/-- The events an accept loop ends with. -/
def ListenerEvent.isFailure : ListenerEvent → Bool
  | .accept_fails | .context_fails | .permit_fails | .panics => true
  | _ => false

/-- The acquires somebody still waits for. -/
def Gate.asks (g : Gate) : Nat :=
  g.mailbox.countP (fun | .AcquireRequestPermit _ asked => asked | _ => false) +
    g.requests.countP fun r => r.asked && (r.phase = .waiting || r.phase = .granted)

namespace Gate

/-- The permits callers hold after an event. -/
def heldAfter (g : Gate) : GateEvent → Nat
  | .reply i => g.held + if g.requests[i]?.any (·.asked) then 1 else 0
  | .drop => g.held - 1
  | _ => g.held

theorem held_step {g g' : Gate} {event : GateEvent} (hopen : g.gate.pool.semaphore.closed = false)
    (h : g.step event = some g') : g'.held = g.heldAfter event := by
  rcases step_cases h with ⟨m, rfl, -, rfl⟩ | ⟨m, rest, rfl, -, -, rfl⟩ | ⟨i, r, rfl, -, -, hp⟩ |
    ⟨i, r, rfl, hr, -, rfl⟩ | ⟨caller, rfl, rfl⟩ | ⟨rfl, -, rfl⟩
  · rfl
  · cases m <;> rfl
  · obtain ⟨-, rfl⟩ := poll_open hopen hp
    rfl
  · unfold reply
    by_cases ha : r.asked = true
    · simp [heldAfter, hr, ha]
    · simp [heldAfter, hr, ha]
  · rfl
  · rfl

end Gate

namespace Listener

variable {ι : Type*}

def gate_step (l : Listener ι) (event : GateEvent) : Option (Listener ι) :=
  (l.gate.step event).map fun gate => { l with gate := gate }

/-- Dropping a permit of this listener's gate. -/
def drop_permit (l : Listener ι) : Option (Listener ι) := l.gate_step .drop

def set_handler (l : Listener ι) (k : Nat) (h : Handler ι) : Listener ι :=
  { l with handlers := l.handlers.set k h }

/-- `spawn_connection`. -/
def spawn_connection (l : Listener ι) (stream : Stream) : Listener ι :=
  { l with loop := .accepting, handlers := l.handlers ++ [⟨l.listener, stream, true, .spawned⟩] }

def step (l : Listener ι) : ListenerEvent → Option (Listener ι)
  | .connect stream => some { l with pending := l.pending ++ [stream] }
  | .accept =>
    match l.loop, l.pending with
    | .accepting, stream :: rest =>
      some { l with pending := rest, loop := .accepted stream, accepted := l.accepted ++ [stream] }
    | _, _ => none
  | .accept_fails => if l.loop = .accepting then some { l with loop := .failed .Io } else none
  | .context_fails =>
    match l.loop with
    | .accepted _ => some { l with loop := .failed .Io }
    | _ => none
  | .ask =>
    match l.loop with
    | .accepted stream =>
      (l.gate_step (.send (.AcquireRequestPermit 0 true))).map fun l => { l with loop := .asking stream }
    | _ => none
  | .permit_fails =>
    match l.loop with
    | .accepted _ => if l.gate.running then none else some { l with loop := .failed .RequestGate }
    | .asking _ => if l.gate.asks = 0 then some { l with loop := .failed .RequestGate } else none
    | _ => none
  | .gate_handles => l.gate_step .handle
  | .gate_polls i => l.gate_step (.poll i)
  | .gate_replies i =>
    match l.gate.requests[i]?, l.loop with
    | some r, .asking stream =>
      (l.gate_step (.reply i)).map fun l => if r.asked then { l with loop := .admitted stream } else l
    | some r, _ => if r.asked then none else l.gate_step (.reply i)
    | none, _ => none
  | .spawn =>
    match l.loop with
    | .admitted stream => some (l.spawn_connection stream)
    | _ => none
  | .handler_begins k =>
    match l.handlers[k]? with
    | some h => if h.phase = .spawned then some (l.set_handler k { h with phase := .running }) else none
    | none => none
  | .into_parts k =>
    match l.handlers[k]? with
    | some h =>
      if h.permit = true ∧ h.phase ≠ .spawned then (l.set_handler k { h with permit := false }).drop_permit else none
    | none => none
  | .handler_ends k outcome passed_on =>
    match l.handlers[k]? with
    | some h =>
      if h.phase = .running then
        if h.permit && !passed_on then (l.set_handler k { h with permit := false, phase := .finished outcome }).drop_permit
        else some (l.set_handler k { h with phase := .finished outcome })
      else none
    | none => none
  | .panics => if l.loop = .accepting then some { l with loop := .failed .ListenerTask } else none
  | .cancel =>
    match l.loop with
    | .failed _ | .cancelled => none
    -- The reply with the permit may be on its way to the loop; it goes with the task.
    | .admitted _ => { l with loop := .cancelled }.drop_permit
    | _ => { l with loop := .cancelled }.gate_step (.abandon 0)
  | .stop_gate => some { l with gate := (l.gate.step (.send .Stop)).getD l.gate }

/-! ## What a step can do -/

/-- The step function once more, as a relation to split a step by. -/
inductive Moves (l : Listener ι) : ListenerEvent → Listener ι → Prop
  | connect (stream) : Moves l (.connect stream) { l with pending := l.pending ++ [stream] }
  | accept (stream rest) : l.loop = .accepting → l.pending = stream :: rest →
      Moves l .accept { l with pending := rest, loop := .accepted stream, accepted := l.accepted ++ [stream] }
  | fails (event error) : event.isFailure = true → (∀ stream, l.loop ≠ .admitted stream) → Moves l event { l with loop := .failed error }
  | ask (stream gate) : l.loop = .accepted stream → l.gate.step (.send (.AcquireRequestPermit 0 true)) = some gate →
      Moves l .ask { l with gate := gate, loop := .asking stream }
  | handles (gate) : l.gate.step .handle = some gate → Moves l .gate_handles { l with gate := gate }
  | polls (i gate) : l.gate.step (.poll i) = some gate → Moves l (.gate_polls i) { l with gate := gate }
  | admits (i stream r gate) : l.loop = .asking stream → l.gate.requests[i]? = some r → r.asked = true →
      l.gate.step (.reply i) = some gate →
      Moves l (.gate_replies i) { l with gate := gate, loop := .admitted stream }
  | unread (i r gate) : l.gate.requests[i]? = some r → r.asked = false → l.gate.step (.reply i) = some gate →
      Moves l (.gate_replies i) { l with gate := gate }
  | spawn (stream) : l.loop = .admitted stream → Moves l .spawn (l.spawn_connection stream)
  | begins (k h) : l.handlers[k]? = some h → h.phase = .spawned →
      Moves l (.handler_begins k) (l.set_handler k { h with phase := .running })
  | parts (k h gate) : l.handlers[k]? = some h → h.permit = true → h.phase ≠ .spawned → l.gate.step .drop = some gate →
      Moves l (.into_parts k) { l.set_handler k { h with permit := false } with gate := gate }
  | ends (k h outcome passed_on gate) : l.handlers[k]? = some h → h.phase = .running → h.permit = true →
      l.gate.step .drop = some gate →
      Moves l (.handler_ends k outcome passed_on)
        { l.set_handler k { h with permit := false, phase := .finished outcome } with gate := gate }
  | ends_without (k h outcome passed_on) : l.handlers[k]? = some h → h.phase = .running →
      Moves l (.handler_ends k outcome passed_on) (l.set_handler k { h with phase := .finished outcome })
  | drops (stream gate) : l.loop = .admitted stream → l.gate.step .drop = some gate →
      Moves l .cancel { l with gate := gate, loop := .cancelled }
  | abandons (gate) : (∀ stream, l.loop ≠ .admitted stream) → l.gate.step (.abandon 0) = some gate →
      Moves l .cancel { l with gate := gate, loop := .cancelled }
  | stops (gate) : l.gate.step (.send .Stop) = some gate → Moves l .stop_gate { l with gate := gate }
  | stopped : l.gate.step (.send .Stop) = none → Moves l .stop_gate l

theorem gate_step_some {l l' : Listener ι} {event : GateEvent} (h : l.gate_step event = some l') :
    ∃ gate, l.gate.step event = some gate ∧ l' = { l with gate := gate } := by
  simp only [gate_step, Option.map_eq_some_iff] at h
  obtain ⟨gate, hg, rfl⟩ := h
  exact ⟨gate, hg, rfl⟩

theorem drop_permit_some {l l' : Listener ι} (h : l.drop_permit = some l') :
    ∃ gate, l.gate.step .drop = some gate ∧ l' = { l with gate := gate } :=
  gate_step_some h

theorem step_moves {l l' : Listener ι} {event : ListenerEvent} (h : l.step event = some l') : Moves l event l' := by
  cases event with
  | connect stream => cases h; exact .connect stream
  | accept =>
    simp only [step] at h
    split at h
    · rename_i stream rest hloop hp
      cases h
      exact .accept stream rest hloop hp
    · cases h
  | accept_fails =>
    simp only [step, Option.ite_none_right_eq_some, Option.some.injEq] at h
    obtain ⟨hloop, rfl⟩ := h
    exact .fails _ _ rfl (by simp [hloop])
  | context_fails =>
    simp only [step] at h
    split at h
    · rename_i stream hloop
      cases h
      exact .fails _ _ rfl (by simp [hloop])
    · cases h
  | ask =>
    simp only [step] at h
    split at h
    · rename_i stream hloop
      obtain ⟨l₁, h₁, rfl⟩ := Option.map_eq_some_iff.1 h
      obtain ⟨gate, hg, rfl⟩ := gate_step_some h₁
      exact .ask stream gate hloop hg
    · cases h
  | permit_fails =>
    simp only [step] at h
    split at h
    · rename_i stream hloop
      split at h <;> cases h
      exact .fails _ _ rfl (by simp [hloop])
    · rename_i stream hloop
      split at h <;> cases h
      exact .fails _ _ rfl (by simp [hloop])
    · cases h
  | gate_handles =>
    obtain ⟨gate, hg, rfl⟩ := gate_step_some h
    exact .handles gate hg
  | gate_polls i =>
    obtain ⟨gate, hg, rfl⟩ := gate_step_some h
    exact .polls i gate hg
  | gate_replies i =>
    simp only [step] at h
    split at h
    · rename_i r stream hr hloop
      obtain ⟨l₁, h₁, rfl⟩ := Option.map_eq_some_iff.1 h
      obtain ⟨gate, hg, rfl⟩ := gate_step_some h₁
      by_cases ha : r.asked = true
      · rw [if_pos ha]
        exact .admits i stream r gate hloop hr ha hg
      · rw [if_neg ha]
        exact .unread i r gate hr (by simpa using ha) hg
    · rename_i r hr hloop
      by_cases ha : r.asked = true
      · simp [ha] at h
      · rw [if_neg ha] at h
        obtain ⟨gate, hg, rfl⟩ := gate_step_some h
        exact .unread i r gate hr (by simpa using ha) hg
    · cases h
  | spawn =>
    simp only [step] at h
    split at h
    · rename_i stream hloop
      cases h
      exact .spawn stream hloop
    · cases h
  | handler_begins k =>
    simp only [step] at h
    split at h
    · rename_i hd hk
      simp only [Option.ite_none_right_eq_some, Option.some.injEq] at h
      obtain ⟨hp, rfl⟩ := h
      exact .begins k hd hk hp
    · cases h
  | into_parts k =>
    simp only [step] at h
    split at h
    · rename_i hd hk
      simp only [Option.ite_none_right_eq_some] at h
      obtain ⟨⟨hperm, hp⟩, h⟩ := h
      obtain ⟨gate, hg, rfl⟩ := drop_permit_some h
      exact .parts k hd gate hk hperm hp hg
    · cases h
  | handler_ends k outcome passed_on =>
    simp only [step] at h
    split at h
    · rename_i hd hk
      simp only [Option.ite_none_right_eq_some] at h
      obtain ⟨hp, h⟩ := h
      by_cases hd' : (hd.permit && !passed_on) = true
      · rw [if_pos hd'] at h
        obtain ⟨gate, hg, rfl⟩ := drop_permit_some h
        exact .ends k hd outcome passed_on gate hk hp (Bool.and_eq_true_iff.1 hd').1 hg
      · rw [if_neg hd', Option.some.injEq] at h
        subst h
        exact .ends_without k hd outcome passed_on hk hp
    · cases h
  | panics =>
    simp only [step, Option.ite_none_right_eq_some, Option.some.injEq] at h
    obtain ⟨hloop, rfl⟩ := h
    exact .fails _ _ rfl (by simp [hloop])
  | cancel =>
    simp only [step] at h
    split at h
    · cases h
    · cases h
    · rename_i stream hloop
      obtain ⟨gate, hg, rfl⟩ := drop_permit_some h
      exact .drops stream gate hloop hg
    · rename_i _ _ hloop
      obtain ⟨gate, hg, rfl⟩ := gate_step_some h
      exact .abandons gate hloop hg
  | stop_gate =>
    cases h
    cases hg : l.gate.step (.send .Stop) with
    | some gate => exact .stops gate hg
    | none => exact .stopped hg

theorem step_keeps_listener {l l' : Listener ι} {event : ListenerEvent} (h : l.step event = some l') :
    l'.listener = l.listener := by
  cases step_moves h <;> rfl

/-! ## Permits and handlers -/

/-- The permit the loop has been given and not yet passed to a handler. -/
def inHand (l : Listener ι) : Nat :=
  match l.loop with
  | .admitted _ => 1
  | _ => 0

/-- What holds of a listener in every state it reaches. -/
structure Inv (limit : RequestConcurrencyLimit) (l : Listener ι) : Prop where
  gate : Gate.Inv limit l.gate
  held : l.gate.held = l.handlers.countP (·.permit) + l.inHand
  identity : ∀ h ∈ l.handlers, h.listener = l.listener ∧ h.stream ∈ l.accepted
  order : ∃ rest, l.accepted = l.handlers.map (·.stream) ++ rest ∧
    match l.loop with
    | .accepting => rest = []
    | .accepted stream | .asking stream | .admitted stream => rest = [stream]
    | _ => rest.length ≤ 1

/-- A step that touches neither handlers nor loop keeps what is known of them. -/
theorem inv_gate {limit : RequestConcurrencyLimit} {l : Listener ι} {event : GateEvent} {gate : Gate}
    (hi : Inv limit l) (hg : l.gate.step event = some gate) (hh : l.gate.heldAfter event = l.gate.held) :
    Inv limit { l with gate := gate } :=
  { gate := Gate.inv_step hi.gate hg
    held := ((Gate.held_step hi.gate.never_closed hg).trans hh).trans hi.held
    identity := hi.identity
    order := hi.order }

/-- A handler that moves on keeps its listener and its stream. -/
theorem identity_set {l : Listener ι} {k : Nat} {h : Handler ι}
    (hi : ∀ h ∈ l.handlers, h.listener = l.listener ∧ h.stream ∈ l.accepted) (hk : l.handlers[k]? = some h)
    (permit : Bool) (phase : HandlerPhase) :
    ∀ x ∈ l.handlers.set k { h with permit := permit, phase := phase }, x.listener = l.listener ∧ x.stream ∈ l.accepted := by
  intro x hx
  rcases mem_set_row hx with hx | rfl
  · exact hi x hx
  · exact hi h (List.mem_of_getElem? hk)

/-- A handler that gives its permit back. -/
theorem inv_drop {limit : RequestConcurrencyLimit} {l : Listener ι} {k : Nat} {h : Handler ι} {gate : Gate}
    (hi : Inv limit l) (hk : l.handlers[k]? = some h) (hp : h.permit = true) (hg : l.gate.step .drop = some gate)
    (phase : HandlerPhase) :
    Inv limit { l.set_handler k { h with permit := false, phase := phase } with gate := gate } := by
  have hheld := Gate.held_step hi.gate.never_closed hg
  have hcount := countP_set_row (·.permit) hk (b := { h with permit := false, phase := phase })
  have hold := hi.held
  refine ⟨Gate.inv_step hi.gate hg, ?_, identity_set hi.identity hk _ _, ?_⟩
  · simp only [hp, if_true, Bool.false_eq_true, if_false, Gate.heldAfter] at hcount hheld
    simp only [set_handler, hheld]
    change _ = _ + l.inHand
    omega
  · simpa only [set_handler, map_set_same (·.stream) hk (b := { h with permit := false, phase := phase }) rfl] using
      hi.order

/-- A handler that moves on and keeps its permit, if it has one. -/
theorem inv_advance {limit : RequestConcurrencyLimit} {l : Listener ι} {k : Nat} {h : Handler ι}
    (hi : Inv limit l) (hk : l.handlers[k]? = some h) (phase : HandlerPhase) :
    Inv limit (l.set_handler k { h with phase := phase }) := by
  refine ⟨hi.gate, ?_, identity_set hi.identity hk h.permit phase, ?_⟩
  · have hcount := countP_set_same (·.permit) hk (b := { h with phase := phase }) rfl
    exact hi.held.trans (congrArg (· + l.inHand) hcount.symm)
  · simpa only [set_handler, map_set_same (·.stream) hk (b := { h with phase := phase }) rfl] using hi.order

theorem inv_step {limit : RequestConcurrencyLimit} {l l' : Listener ι} {event : ListenerEvent} (hi : Inv limit l)
    (h : l.step event = some l') : Inv limit l' := by
  have hopen := hi.gate.never_closed
  obtain ⟨rest, hacc, hrest⟩ := hi.order
  cases step_moves h with
  | connect stream => exact { hi with }
  | accept stream pending hloop hp =>
    rw [hloop] at hrest
    subst hrest
    refine ⟨hi.gate, ?_, ?_, [stream], by simp [hacc], rfl⟩
    · simpa [inHand, hloop] using hi.held
    · intro hd hm
      exact ⟨(hi.identity hd hm).1, List.mem_append_left _ (hi.identity hd hm).2⟩
  | fails event error hfail hloop =>
    refine ⟨hi.gate, ?_, hi.identity, rest, hacc, ?_⟩
    · simpa [hloop, inHand] using hi.held
    · revert hrest; split <;> simp_all
  | ask stream gate hloop hg =>
    rw [hloop] at hrest
    refine ⟨Gate.inv_step hi.gate hg, ?_, hi.identity, rest, hacc, hrest⟩
    simpa [inHand, hloop, Gate.heldAfter] using (Gate.held_step hopen hg).trans hi.held
  | handles gate hg => exact inv_gate hi hg rfl
  | polls i gate hg => exact inv_gate hi hg rfl
  | admits i stream r gate hloop hr ha hg =>
    rw [hloop] at hrest
    refine ⟨Gate.inv_step hi.gate hg, ?_, hi.identity, rest, hacc, hrest⟩
    simpa [inHand, hloop, Gate.heldAfter, hr, ha, hi.held] using Gate.held_step hopen hg
  | unread i r gate hr ha hg => exact inv_gate hi hg (by simp [Gate.heldAfter, hr, ha])
  | spawn stream hloop =>
    rw [hloop] at hrest
    subst hrest
    refine ⟨hi.gate, ?_, ?_, [], by simp [spawn_connection, hacc], rfl⟩
    · simpa [spawn_connection, inHand, hloop] using hi.held
    · intro hd hm
      rcases List.mem_append.1 hm with hm | hm
      · exact hi.identity hd hm
      · rw [List.mem_singleton.1 hm]
        exact ⟨rfl, by simp [spawn_connection, hacc]⟩
  | begins k hd hk hp => exact inv_advance hi hk .running
  | parts k hd gate hk hperm hp hg => exact inv_drop hi hk hperm hg hd.phase
  | ends k hd outcome passed_on gate hk hp hperm hg => exact inv_drop hi hk hperm hg (.finished outcome)
  | ends_without k hd outcome passed_on hk hp => exact inv_advance hi hk (.finished outcome)
  | drops stream gate hloop hg =>
    rw [hloop] at hrest
    subst hrest
    refine ⟨Gate.inv_step hi.gate hg, ?_, hi.identity, [stream], hacc, by simp⟩
    simpa [inHand, hloop, Gate.heldAfter, hi.held] using Gate.held_step hopen hg
  | abandons gate hloop hg =>
    refine ⟨Gate.inv_step hi.gate hg, ?_, hi.identity, rest, hacc, ?_⟩
    · simpa [hloop, inHand, Gate.heldAfter, hi.held] using Gate.held_step hopen hg
    · revert hrest; split <;> simp_all
  | stops gate hg => exact inv_gate hi hg rfl
  | stopped hg => exact hi

/-! ## How many handlers run -/

/-- The handlers that have been spawned and have not finished. -/
def unfinished (l : Listener ι) : Nat := l.handlers.countP fun h => !h.phase.isFinished

/-- The connection of a handler is not taken apart before the handler finishes. -/
def KeepsPermit (l : Listener ι) (event : ListenerEvent) : Prop :=
  ∀ k h, event = .into_parts k → l.handlers[k]? = some h → h.phase.isFinished = true

/-- Every unfinished handler has its permit. -/
def Whole (l : Listener ι) : Prop := ∀ h ∈ l.handlers, h.phase.isFinished = false → h.permit = true

theorem whole_set {l : Listener ι} (hw : l.Whole) (k : Nat) (h : Handler ι)
    (hk : h.phase.isFinished = false → h.permit = true) : (l.set_handler k h).Whole := by
  intro x hx
  rcases mem_set_row hx with hx | rfl
  · exact hw x hx
  · exact hk

theorem whole_step {l l' : Listener ι} {event : ListenerEvent} (hw : l.Whole) (hkeeps : l.KeepsPermit event)
    (h : l.step event = some l') : l'.Whole := by
  cases step_moves h with
  | spawn stream hloop =>
    intro x hx
    rcases List.mem_append.1 hx with hx | hx
    · exact hw x hx
    · rw [List.mem_singleton.1 hx]
      exact fun _ => rfl
  | begins k hd hk hp =>
    refine whole_set hw k _ fun _ => hw hd (List.mem_of_getElem? hk) ?_
    rw [hp]; rfl
  | parts k hd gate hk hperm hp hg =>
    refine whole_set hw k { hd with permit := false } fun hn => ?_
    rw [hkeeps k hd rfl hk] at hn
    cases hn
  | ends k hd outcome passed_on gate hk hp hperm hg => exact whole_set hw k _ fun hn => by cases hn
  | ends_without k hd outcome passed_on hk hp => exact whole_set hw k _ fun hn => by cases hn
  -- No other step touches a handler.
  | _ => exact hw

/-- Unfinished handlers hold permits, and there are only so many. -/
theorem unfinished_le {limit : RequestConcurrencyLimit} {l : Listener ι} (hi : Inv limit l) (hw : l.Whole) :
    l.unfinished ≤ limit.count := by
  have hle : l.unfinished ≤ l.handlers.countP (·.permit) := by
    apply List.countP_mono_left
    intro h hm hn
    exact hw h hm (by simpa using hn)
  have hheld := hi.held
  have hconserved := hi.gate.conserved
  omega

/-- Accepted streams have gone to handlers, all but the last at most. -/
theorem waiting_le {limit : RequestConcurrencyLimit} {l : Listener ι} (hi : Inv limit l) :
    ∃ rest, l.accepted = l.handlers.map (·.stream) ++ rest ∧ rest.length ≤ 1 := by
  obtain ⟨rest, hacc, hrest⟩ := hi.order
  refine ⟨rest, hacc, ?_⟩
  revert hrest
  split
  · rintro rfl; simp
  · rintro rfl; simp
  · rintro rfl; simp
  · rintro rfl; simp
  · exact id

/-! ## After the gate has stopped -/

/-- Permits in connections that have outlived their handlers. -/
def outlived (l : Listener ι) : Nat := l.handlers.countP fun h => h.permit && h.phase.isFinished

/-- No request is under way: the permits are home (or in connections that have
outlived their handlers), nobody waits for one, and the handlers without a
permit are through. -/
structure Settled (limit : RequestConcurrencyLimit) (l : Listener ι) : Prop where
  home : l.gate.gate.pool.available_permit_count + l.outlived = limit.count
  drained : l.gate.Drained
  parted : ∀ h ∈ l.handlers, h.permit = false → h.phase.isFinished = true

/-- A listener that will never again spawn or begin a handler. -/
structure Quiet (l : Listener ι) : Prop where
  stopped : l.gate.running = false
  drained : l.gate.Drained
  loop : ∀ stream, l.loop ≠ .admitted stream
  finished : ∀ h ∈ l.handlers, h.phase.isFinished = true

theorem outlived_add (handlers : List (Handler ι)) :
    handlers.countP (fun h => h.permit && h.phase.isFinished) +
      handlers.countP (fun h => h.permit && !h.phase.isFinished) = handlers.countP (·.permit) := by
  induction handlers with
  | nil => rfl
  | cons h hs ih =>
    simp only [List.countP_cons]
    cases h.permit <;> cases h.phase.isFinished <;> simp <;> omega

theorem settled_quiet {limit : RequestConcurrencyLimit} {l : Listener ι} (hi : Inv limit l) (hs : Settled limit l)
    (hstop : l.gate.running = false) : Quiet l := by
  have hheld := hi.held
  have hconserved := hi.gate.conserved
  have hhome := hs.home
  have hsplit := outlived_add l.handlers
  simp only [RequestPermitPool.available_permit_count, outlived] at hhome
  have hhand : l.inHand = 0 := by omega
  have hnone : l.handlers.countP (fun h => h.permit && !h.phase.isFinished) = 0 := by omega
  refine ⟨hstop, hs.drained, ?_, ?_⟩
  · intro stream hloop
    rw [inHand, hloop] at hhand
    cases hhand
  · intro h hm
    cases hp : h.permit with
    | false => exact hs.parted h hm hp
    | true => simpa [hp] using List.countP_eq_zero.1 hnone h hm

theorem quiet_gate {l : Listener ι} {event : GateEvent} {gate : Gate}
    (hopen : l.gate.gate.pool.semaphore.closed = false) (hq : Quiet l) (hg : l.gate.step event = some gate) :
    Quiet { l with gate := gate } := by
  have hs := Gate.shut_step hopen ⟨hq.stopped, hq.drained, fun _ ha => ha⟩ hg
  exact { stopped := hs.stopped, drained := hs.drained, loop := hq.loop, finished := hq.finished }

/-- A stopped gate takes no message. -/
theorem quiet_send {l : Listener ι} (hq : Quiet l) (message : Message) : l.gate.step (.send message) = none := by
  simp [Gate.step, hq.stopped]

theorem quiet_handler {l : Listener ι} (hq : Quiet l) {k : Nat} {h : Handler ι} (hk : l.handlers[k]? = some h) :
    h.phase ≠ .spawned ∧ h.phase ≠ .running := by
  have hf := hq.finished h (List.mem_of_getElem? hk)
  constructor
  · intro hp
    rw [hp] at hf
    cases hf
  · intro hp
    rw [hp] at hf
    cases hf

/-- Such a listener stays so, and begins no handler. -/
theorem quiet_step {l l' : Listener ι} {event : ListenerEvent} (hopen : l.gate.gate.pool.semaphore.closed = false)
    (hq : Quiet l) (h : l.step event = some l') : Quiet l' ∧ ∀ k, event ≠ .handler_begins k := by
  cases step_moves h with
  | connect stream => exact ⟨{ hq with }, by simp⟩
  | accept stream pending hloop hp => exact ⟨{ hq with loop := by simp }, by simp⟩
  | fails event error hfail hloop => exact ⟨{ hq with loop := by simp }, by rintro k rfl; cases hfail⟩
  | ask stream gate hloop hg => rw [quiet_send hq] at hg; cases hg
  | handles gate hg => exact ⟨quiet_gate hopen hq hg, by simp⟩
  | polls i gate hg => exact ⟨quiet_gate hopen hq hg, by simp⟩
  | admits i stream r gate hloop hr ha hg =>
    -- The request has been granted to somebody who still asks, so the gate was not drained.
    obtain ⟨_, hne⟩ := hq.drained r (List.mem_of_getElem? hr) ha
    simp [Gate.step, hr, hne] at hg
  | unread i r gate hr ha hg => exact ⟨quiet_gate hopen hq hg, by simp⟩
  | spawn stream hloop => exact absurd hloop (hq.loop stream)
  | begins k hd hk hp => exact absurd hp (quiet_handler hq hk).1
  | parts k hd gate hk hperm hp hg =>
    have hq' := quiet_gate hopen hq hg
    refine ⟨{ hq' with finished := ?_ }, by simp⟩
    intro x hx
    rcases mem_set_row hx with hx | rfl
    · exact hq.finished x hx
    · exact hq.finished hd (List.mem_of_getElem? hk)
  | ends k hd outcome passed_on gate hk hp hperm hg => exact absurd hp (quiet_handler hq hk).2
  | ends_without k hd outcome passed_on hk hp => exact absurd hp (quiet_handler hq hk).2
  | drops stream gate hloop hg => exact absurd hloop (hq.loop stream)
  | abandons gate hloop hg =>
    have hq' := quiet_gate hopen hq hg
    exact ⟨{ hq' with loop := by simp }, by simp⟩
  | stops gate hg => rw [quiet_send hq] at hg; cases hg
  | stopped hg => exact ⟨hq, by simp⟩

end Listener

end TriadRuntime
