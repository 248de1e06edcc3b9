import TriadRuntime.AsyncListener
/-!
# Stepping a bound daemon (`async_runtime.rs`, `tcp.rs`)

`serve_next_connection`, and `serve_next_connection_at` of the multi-listener
daemon, take `&self`: any number of callers may have calls of them under way at
once, and may drop the future of a call at any await. `serve_connections` is
the first in a loop.

Trusted: as in `AsyncListener`; which of the callers that wait for a socket is
given the next connection is left open.
-/

open Systems

namespace TriadRuntime

/-- One call of `serve_next_connection`, with the stream it has taken off the
socket. -/
inductive NextCall where
  | accepting
  | accepted (stream : Stream)
  | asking (stream : Stream)
  | admitted (stream : Stream)
  /-- It returned `Ok`. -/
  | served (stream : Stream)
  | failed (error : ServeError) (stream : Option Stream)
  | dropped (stream : Option Stream)
deriving DecidableEq, Repr

def NextCall.took : NextCall → List Stream
  | .accepting => []
  | .accepted stream | .asking stream | .admitted stream | .served stream => [stream]
  | .failed _ stream | .dropped stream => stream.toList

/-- What it has handed to the runtime. -/
def NextCall.handed : NextCall → List Stream
  | .served stream => [stream]
  | _ => []

/-- A permit has been sent to it that it has not passed on. -/
def NextCall.holds : NextCall → Bool
  | .admitted _ => true
  | _ => false

def NextCall.asks : NextCall → Bool
  | .asking _ => true
  | _ => false

/-- A bound listener that is shared by its callers. -/
structure SharedListener (ι : Type*) where
  listener : ι
  pending : List Stream
  gate : Gate
  calls : List NextCall
  handlers : List (Handler ι)
  accepted : List Stream
deriving DecidableEq, Repr

inductive SharedEvent where
  | connect (stream : Stream)
  /-- Somebody calls `serve_next_connection`. -/
  | call
  | accept (c : Nat)
  | accept_fails (c : Nat)
  | context_fails (c : Nat)
  | ask (c : Nat)
  | permit_fails (c : Nat)
  | gate_handles
  | gate_polls (i : Nat)
  | gate_replies (i : Nat)
  | spawn (c : Nat)
  /-- The future of call `c` is dropped. -/
  | drop_call (c : Nat)
  | handler_begins (k : Nat)
  | into_parts (k : Nat)
  | handler_ends (k : Nat) (outcome : Outcome) (passed_on : Bool)
  | stop_gate
deriving DecidableEq, Repr

/-- Whose client an event connects. -/
def SharedEvent.connects : SharedEvent → List Stream
  | .connect stream => [stream]
  | _ => []

def Message.askedBy (c : Nat) : Message → Bool
  | .AcquireRequestPermit caller asked => asked && caller = c
  | _ => false

def Request.askedBy (c : Nat) (r : Request) : Bool :=
  r.asked && r.caller = c && (r.phase = .waiting || r.phase = .granted)

/-- The acquires caller `c` still waits for. -/
def Gate.asksOf (g : Gate) (c : Nat) : Nat :=
  g.mailbox.countP (Message.askedBy c) + g.requests.countP (Request.askedBy c)

namespace SharedListener

variable {ι : Type*}

def set_call (s : SharedListener ι) (c : Nat) (call : NextCall) : SharedListener ι :=
  { s with calls := s.calls.set c call }

def set_handler (s : SharedListener ι) (k : Nat) (h : Handler ι) : SharedListener ι :=
  { s with handlers := s.handlers.set k h }

def gate_step (s : SharedListener ι) (event : GateEvent) : Option (SharedListener ι) :=
  (s.gate.step event).map fun gate => { s with gate := gate }

/-- `spawn_connection`, after which the call returns. -/
def spawn_connection (s : SharedListener ι) (c : Nat) (stream : Stream) : SharedListener ι :=
  { s.set_call c (.served stream) with handlers := s.handlers ++ [⟨s.listener, stream, true, .spawned⟩] }

def step (s : SharedListener ι) : SharedEvent → Option (SharedListener ι)
  | .connect stream => some { s with pending := s.pending ++ [stream] }
  | .call => some { s with calls := s.calls ++ [.accepting] }
  | .accept c =>
    match s.calls[c]?, s.pending with
    | some .accepting, stream :: rest =>
      some { s.set_call c (.accepted stream) with pending := rest, accepted := s.accepted ++ [stream] }
    | _, _ => none
  | .accept_fails c =>
    match s.calls[c]? with
    | some .accepting => some (s.set_call c (.failed .Io none))
    | _ => none
  | .context_fails c =>
    match s.calls[c]? with
    | some (.accepted stream) => some (s.set_call c (.failed .Io (some stream)))
    | _ => none
  | .ask c =>
    match s.calls[c]? with
    | some (.accepted stream) => (s.set_call c (.asking stream)).gate_step (.send (.AcquireRequestPermit c true))
    | _ => none
  | .permit_fails c =>
    match s.calls[c]? with
    | some (.accepted stream) =>
      if s.gate.running then none else some (s.set_call c (.failed .RequestGate (some stream)))
    | some (.asking stream) =>
      if s.gate.asksOf c = 0 then some (s.set_call c (.failed .RequestGate (some stream))) else none
    | _ => none
  | .gate_handles => s.gate_step .handle
  | .gate_polls i => s.gate_step (.poll i)
  | .gate_replies i =>
    match s.gate.requests[i]? with
    | some r =>
      if r.asked then
        match s.calls[r.caller]? with
        | some (.asking stream) => (s.set_call r.caller (.admitted stream)).gate_step (.reply i)
        | _ => none
      else s.gate_step (.reply i)
    | none => none
  | .spawn c =>
    match s.calls[c]? with
    | some (.admitted stream) => some (s.spawn_connection c stream)
    | _ => none
  | .drop_call c =>
    match s.calls[c]? with
    | some .accepting => some (s.set_call c (.dropped none))
    | some (.accepted stream) => some (s.set_call c (.dropped (some stream)))
    | some (.asking stream) => (s.set_call c (.dropped (some stream))).gate_step (.abandon c)
    -- The reply with the permit goes with the future.
    | some (.admitted stream) => (s.set_call c (.dropped (some stream))).gate_step .drop
    | _ => none
  | .handler_begins k =>
    match s.handlers[k]? with
    | some h => if h.phase = .spawned then some (s.set_handler k { h with phase := .running }) else none
    | none => none
  | .into_parts k =>
    match s.handlers[k]? with
    | some h =>
      if h.permit = true ∧ h.phase ≠ .spawned then (s.set_handler k { h with permit := false }).gate_step .drop
      else none
    | none => none
  | .handler_ends k outcome passed_on =>
    match s.handlers[k]? with
    | some h =>
      if h.phase = .running then
        if h.permit && !passed_on then
          (s.set_handler k { h with permit := false, phase := .finished outcome }).gate_step .drop
        else some (s.set_handler k { h with phase := .finished outcome })
      else none
    | none => none
  | .stop_gate => some { s with gate := (s.gate.step (.send .Stop)).getD s.gate }

/-! ## What a step can do -/

/-- The step function once more, as a relation to split a step by. -/
inductive Moves (s : SharedListener ι) : SharedEvent → SharedListener ι → Prop
  | connect (stream) : Moves s (.connect stream) { s with pending := s.pending ++ [stream] }
  | call : Moves s .call { s with calls := s.calls ++ [.accepting] }
  | accept (c stream rest) : s.calls[c]? = some .accepting → s.pending = stream :: rest →
      Moves s (.accept c)
        { s.set_call c (.accepted stream) with pending := rest, accepted := s.accepted ++ [stream] }
  | gives_up (event c call ended) : event.connects = [] → s.calls[c]? = some call → call.holds = false → call.handed = [] →
      (call.asks = true → s.gate.asksOf c = 0) → ended.took = call.took → ended.handed = [] → ended.holds = false →
      ended.asks = false → Moves s event (s.set_call c ended)
  | ask (c stream gate) : s.calls[c]? = some (.accepted stream) →
      s.gate.step (.send (.AcquireRequestPermit c true)) = some gate →
      Moves s (.ask c) { s.set_call c (.asking stream) with gate := gate }
  | handles (gate) : s.gate.step .handle = some gate → Moves s .gate_handles { s with gate := gate }
  | polls (i gate) : s.gate.step (.poll i) = some gate → Moves s (.gate_polls i) { s with gate := gate }
  | admits (i stream r gate) : s.gate.requests[i]? = some r → r.asked = true →
      s.calls[r.caller]? = some (.asking stream) → s.gate.step (.reply i) = some gate →
      Moves s (.gate_replies i) { s.set_call r.caller (.admitted stream) with gate := gate }
  | unread (i r gate) : s.gate.requests[i]? = some r → r.asked = false → s.gate.step (.reply i) = some gate →
      Moves s (.gate_replies i) { s with gate := gate }
  | spawn (c stream) : s.calls[c]? = some (.admitted stream) → Moves s (.spawn c) (s.spawn_connection c stream)
  | leaves (c stream gate) : s.calls[c]? = some (.asking stream) → s.gate.step (.abandon c) = some gate →
      Moves s (.drop_call c) { s.set_call c (.dropped (some stream)) with gate := gate }
  | gives_back (c stream gate) : s.calls[c]? = some (.admitted stream) → s.gate.step .drop = some gate →
      Moves s (.drop_call c) { s.set_call c (.dropped (some stream)) with gate := gate }
  | begins (k h) : s.handlers[k]? = some h → h.phase = .spawned →
      Moves s (.handler_begins k) (s.set_handler k { h with phase := .running })
  | returns (event k h phase gate) : event.connects = [] → s.handlers[k]? = some h → h.permit = true → s.gate.step .drop = some gate →
      Moves s event { s.set_handler k { h with permit := false, phase := phase } with gate := gate }
  | ends_without (k h outcome passed_on) : s.handlers[k]? = some h → h.phase = .running →
      Moves s (.handler_ends k outcome passed_on) (s.set_handler k { h with phase := .finished outcome })
  | stops (gate) : s.gate.step (.send .Stop) = some gate → Moves s .stop_gate { s with gate := gate }
  | stopped : s.gate.step (.send .Stop) = none → Moves s .stop_gate s

theorem gate_step_some {s s' : SharedListener ι} {event : GateEvent} (h : s.gate_step event = some s') :
    ∃ gate, s.gate.step event = some gate ∧ s' = { s with gate := gate } := by
  obtain ⟨gate, hg, rfl⟩ := Option.map_eq_some_iff.1 h
  exact ⟨gate, hg, rfl⟩

theorem step_moves {s s' : SharedListener ι} {event : SharedEvent} (h : s.step event = some s') :
    Moves s event s' := by
  cases event with
  | connect stream => cases h; exact .connect stream
  | call => cases h; exact .call
  | accept c =>
    simp only [step] at h
    split at h <;> cases h
    rename_i stream rest hc hp
    exact .accept c stream rest hc hp
  | accept_fails c =>
    simp only [step] at h
    split at h <;> cases h
    rename_i hc
    exact .gives_up _ c _ _ rfl hc rfl rfl nofun rfl rfl rfl rfl
  | context_fails c =>
    simp only [step] at h
    split at h <;> cases h
    rename_i stream hc
    exact .gives_up _ c _ _ rfl hc rfl rfl nofun rfl rfl rfl rfl
  | ask c =>
    simp only [step] at h
    split at h
    · rename_i stream hc
      obtain ⟨gate, hg, rfl⟩ := gate_step_some h
      exact .ask c stream gate hc hg
    · cases h
  | permit_fails c =>
    simp only [step] at h
    split at h
    · rename_i stream hc
      split at h <;> cases h
      exact .gives_up _ c _ _ rfl hc rfl rfl nofun rfl rfl rfl rfl
    · rename_i stream hc
      split at h <;> cases h
      rename_i hnone
      exact .gives_up _ c _ _ rfl hc rfl rfl (fun _ => hnone) rfl rfl rfl rfl
    · cases h
  | gate_handles =>
    obtain ⟨gate, hg, rfl⟩ := gate_step_some h
    exact .handles gate hg
  | gate_polls i =>
    obtain ⟨gate, hg, rfl⟩ := gate_step_some h
    exact .polls i gate hg
  | gate_replies i =>
    simp only [step] at h
    split at h
    · rename_i r hr
      split at h
      · rename_i ha
        split at h
        · rename_i stream hc
          obtain ⟨gate, hg, rfl⟩ := gate_step_some h
          exact .admits i stream r gate hr ha hc hg
        · cases h
      · rename_i ha
        obtain ⟨gate, hg, rfl⟩ := gate_step_some h
        exact .unread i r gate hr (by simpa using ha) hg
    · cases h
  | spawn c =>
    simp only [step] at h
    split at h <;> cases h
    rename_i stream hc
    exact .spawn c stream hc
  | drop_call c =>
    simp only [step] at h
    split at h
    · rename_i hc
      cases h
      exact .gives_up _ c _ _ rfl hc rfl rfl nofun rfl rfl rfl rfl
    · rename_i stream hc
      cases h
      exact .gives_up _ c _ _ rfl hc rfl rfl nofun rfl rfl rfl rfl
    · rename_i stream hc
      obtain ⟨gate, hg, rfl⟩ := gate_step_some h
      exact .leaves c stream gate hc hg
    · rename_i stream hc
      obtain ⟨gate, hg, rfl⟩ := gate_step_some h
      exact .gives_back c stream gate hc hg
    · cases h
  | handler_begins k =>
    simp only [step] at h
    split at h
    · rename_i hd hk
      simp only [Option.ite_none_right_eq_some, Option.some.injEq] at h
      obtain ⟨hp, rfl⟩ := h
      exact .begins k hd hk hp
    · cases h
  | into_parts k =>
    simp only [step] at h
    split at h
    · rename_i hd hk
      simp only [Option.ite_none_right_eq_some] at h
      obtain ⟨⟨hperm, hp⟩, h⟩ := h
      obtain ⟨gate, hg, rfl⟩ := gate_step_some h
      exact .returns _ k hd hd.phase gate rfl hk hperm hg
    · cases h
  | handler_ends k outcome passed_on =>
    simp only [step] at h
    split at h
    · rename_i hd hk
      simp only [Option.ite_none_right_eq_some] at h
      obtain ⟨hp, h⟩ := h
      by_cases hd' : (hd.permit && !passed_on) = true
      · rw [if_pos hd'] at h
        obtain ⟨gate, hg, rfl⟩ := gate_step_some h
        exact .returns _ k hd (.finished outcome) gate rfl hk (Bool.and_eq_true_iff.1 hd').1 hg
      · rw [if_neg hd', Option.some.injEq] at h
        subst h
        exact .ends_without k hd outcome passed_on hk hp
    · cases h
  | stop_gate =>
    cases h
    cases hg : s.gate.step (.send .Stop) with
    | some gate => exact .stops gate hg
    | none => exact .stopped hg

end SharedListener

/-! ## Who waits for a permit -/

namespace Gate

/-- What an event does to the acquires that `c` waits for. -/
def asksAfter (g : Gate) (c : Nat) : GateEvent → Nat
  | .send message => g.asksOf c + if message.askedBy c then 1 else 0
  | .reply i => g.asksOf c - if g.requests[i]?.any (Request.askedBy c) then 1 else 0
  | .abandon caller => if caller = c then 0 else g.asksOf c
  | _ => g.asksOf c

theorem askedBy_abandon_self (c : Nat) (message : Message) : (message.abandon c).askedBy c = false := by
  rcases message with ⟨caller, asked⟩ | _ | _
  · by_cases h : caller = c <;> simp [Message.abandon, Message.askedBy, h]
  · rfl
  · rfl

theorem askedBy_abandon_other {c caller : Nat} (h : caller ≠ c) (message : Message) :
    (message.abandon caller).askedBy c = message.askedBy c := by
  rcases message with ⟨asker, asked⟩ | _ | _
  · by_cases ha : asker = c
    · subst ha
      simp [Message.abandon, Message.askedBy, Ne.symm h]
    · simp [Message.abandon, Message.askedBy, ha]
  · rfl
  · rfl

theorem request_abandon_self (c : Nat) (r : Request) : (r.abandon c).askedBy c = false := by
  by_cases h : r.caller = c <;> simp [Request.abandon, Request.askedBy, h]

theorem request_abandon_other {c caller : Nat} (h : caller ≠ c) (r : Request) :
    (r.abandon caller).askedBy c = r.askedBy c := by
  by_cases ha : r.caller = c
  · simp [Request.abandon, Request.askedBy, ha, Ne.symm h]
  · simp [Request.abandon, Request.askedBy, ha]

theorem count_through (c : Nat) {requests : List Request} {i : Nat} {r : Request} (hr : requests[i]? = some r)
    {phase : Phase} (hw : phase ≠ .waiting) (hg : phase ≠ .granted) :
    (requests.set i { r with phase := phase }).countP (Request.askedBy c) + (if r.askedBy c then 1 else 0) =
      requests.countP (Request.askedBy c) := by
  have hnot : Request.askedBy c { r with phase := phase } = false := by simp [Request.askedBy, hw, hg]
  simpa [hnot] using countP_set_row (Request.askedBy c) hr (b := { r with phase := phase })

theorem reply_granted {g g' : Gate} {i : Nat} {r : Request} (h : g.step (.reply i) = some g')
    (hr : g.requests[i]? = some r) : r.phase = .granted := by
  simp only [step, hr, Option.ite_none_right_eq_some] at h
  exact h.1

/-- Nobody is made to wait by anything but an ask of his own. -/
theorem asksOf_step {g g' : Gate} {event : GateEvent} (hopen : g.gate.pool.semaphore.closed = false)
    (h : g.step event = some g') (c : Nat) : g'.asksOf c ≤ g.asksAfter c event := by
  rcases step_cases h with ⟨m, rfl, -, rfl⟩ | ⟨m, rest, rfl, -, hm, rfl⟩ | ⟨i, r, rfl, hr, hw, hp⟩ |
    ⟨i, r, rfl, hr, hgr, rfl⟩ | ⟨caller, rfl, rfl⟩ | ⟨rfl, -, rfl⟩
  · simp only [asksAfter, asksOf, List.countP_append, List.countP_singleton]
    omega
  · simp only [asksAfter, asksOf, hm, List.countP_cons]
    rcases m with ⟨caller, asked⟩ | _ | _
    · -- from the mailbox to the tasks
      simp only [handle, List.countP_append, List.countP_singleton]
      have hsame : Request.askedBy c ⟨caller, asked, .waiting⟩ = Message.askedBy c (.AcquireRequestPermit caller asked) := by
        simp [Message.askedBy, Request.askedBy]
      rw [hsame]
      omega
    · simp only [handle]
      omega
    · simp only [handle, List.countP_nil]
      omega
  · obtain ⟨-, rfl⟩ := poll_open hopen hp
    have hcount := countP_set_same (Request.askedBy c) hr (b := { r with phase := .granted })
      (by simp [Request.askedBy, hw])
    simp only [asksAfter, asksOf, hcount]
    omega
  · have hanswered := count_through c hr (show Phase.answered ≠ .waiting by simp) (by simp)
    have hundelivered := count_through c hr (show Phase.undelivered ≠ .waiting by simp) (by simp)
    simp only [asksAfter, hr, Option.any_some, asksOf]
    unfold reply
    split <;> simp only <;> omega
  · simp only [asksAfter, asksOf, List.countP_map]
    by_cases hc : caller = c
    · subst hc
      have h1 : g.mailbox.countP (Message.askedBy caller ∘ Message.abandon caller) = 0 :=
        List.countP_eq_zero.2 fun m _ => by simp [askedBy_abandon_self]
      have h2 : g.requests.countP (Request.askedBy caller ∘ Request.abandon caller) = 0 :=
        List.countP_eq_zero.2 fun r _ => by simp [request_abandon_self]
      rw [h1, h2, if_pos rfl]
    · rw [if_neg hc]
      have h1 : Message.askedBy c ∘ Message.abandon caller = Message.askedBy c :=
        funext (askedBy_abandon_other hc)
      have h2 : Request.askedBy c ∘ Request.abandon caller = Request.askedBy c :=
        funext (request_abandon_other hc)
      rw [h1, h2]
  · exact Nat.le_refl _

end Gate

/-! ## Streams, permits and asks -/

namespace SharedListener

variable {ι : Type*}

/-- What holds of a shared listener in every state it reaches. -/
structure Inv (limit : RequestConcurrencyLimit) (s : SharedListener ι) : Prop where
  gate : Gate.Inv limit s.gate
  held : s.gate.held = s.handlers.countP (·.permit) + s.calls.countP NextCall.holds
  took : s.accepted.Perm (s.calls.flatMap NextCall.took)
  handed : (s.handlers.map (·.stream)).Perm (s.calls.flatMap NextCall.handed)
  own : ∀ h ∈ s.handlers, h.listener = s.listener
  asks : ∀ c, s.gate.asksOf c ≤ if s.calls[c]?.any NextCall.asks then 1 else 0

theorem no_asks {limit : RequestConcurrencyLimit} {s : SharedListener ι} (hi : Inv limit s) {c : Nat} {call : NextCall}
    (hc : s.calls[c]? = some call) (hnot : call.asks = false) : s.gate.asksOf c = 0 := by
  have h := hi.asks c
  rw [hc, Option.any_some, hnot, if_neg Bool.false_ne_true] at h
  exact Nat.le_zero.1 h

/-- One call moves on: the acquires of the others stay bounded. -/
theorem asks_set {limit : RequestConcurrencyLimit} {s : SharedListener ι} (hi : Inv limit s) {c : Nat}
    {call next : NextCall} {gate : Gate} (hc : s.calls[c]? = some call) (hown : gate.asksOf c ≤ if next.asks then 1 else 0)
    (hothers : ∀ c', c' ≠ c → gate.asksOf c' ≤ s.gate.asksOf c') (c' : Nat) :
    gate.asksOf c' ≤ if (s.calls.set c next)[c']?.any NextCall.asks then 1 else 0 := by
  by_cases hcc : c' = c
  · subst hcc
    obtain ⟨hlt, -⟩ := List.getElem?_eq_some_iff.1 hc
    rwa [List.getElem?_set_self hlt, Option.any_some]
  · rw [List.getElem?_set_ne (Ne.symm hcc)]
    exact Nat.le_trans (hothers c' hcc) (hi.asks c')

/-- A call that moves on with the stream it has, and the gate with it. -/
theorem inv_call {limit : RequestConcurrencyLimit} {s : SharedListener ι} (hi : Inv limit s) {c : Nat}
    {call next : NextCall} {gate : Gate} (hc : s.calls[c]? = some call) (hgate : Gate.Inv limit gate)
    (hheld : gate.held + (if call.holds then 1 else 0) = s.gate.held + if next.holds then 1 else 0)
    (hown : gate.asksOf c ≤ if next.asks then 1 else 0) (hothers : ∀ c', c' ≠ c → gate.asksOf c' ≤ s.gate.asksOf c')
    (htook : next.took = call.took) (hhanded : next.handed = call.handed) :
    Inv limit { s.set_call c next with gate := gate } := by
  have hcount := countP_set_row NextCall.holds hc (b := next)
  have hold := hi.held
  refine ⟨hgate, ?_, ?_, ?_, hi.own, asks_set hi hc hown hothers⟩
  · show gate.held = s.handlers.countP (·.permit) + (s.calls.set c next).countP NextCall.holds
    omega
  · exact (flatMap_set_same NextCall.took hc htook).symm ▸ hi.took
  · exact (flatMap_set_same NextCall.handed hc hhanded).symm ▸ hi.handed

/-- A step of the gate alone. -/
theorem inv_gate {limit : RequestConcurrencyLimit} {s : SharedListener ι} {event : GateEvent} {gate : Gate}
    (hi : Inv limit s) (hg : s.gate.step event = some gate) (hh : s.gate.heldAfter event = s.gate.held)
    (ha : ∀ c, s.gate.asksAfter c event ≤ s.gate.asksOf c) : Inv limit { s with gate := gate } :=
  { hi with
    gate := Gate.inv_step hi.gate hg
    held := ((Gate.held_step hi.gate.never_closed hg).trans hh).trans hi.held
    asks := fun c => Nat.le_trans (Gate.asksOf_step hi.gate.never_closed hg c) (Nat.le_trans (ha c) (hi.asks c)) }

/-- A handler that moves on, with the permits the gate knows of. -/
theorem inv_handler {limit : RequestConcurrencyLimit} {s : SharedListener ι} (hi : Inv limit s) {k : Nat}
    {h next : Handler ι} {gate : Gate} (hk : s.handlers[k]? = some h) (hgate : Gate.Inv limit gate)
    (hheld : gate.held + (if h.permit then 1 else 0) = s.gate.held + if next.permit then 1 else 0)
    (hasks : ∀ c, gate.asksOf c ≤ s.gate.asksOf c) (hstream : next.stream = h.stream)
    (hown : next.listener = h.listener) : Inv limit { s.set_handler k next with gate := gate } := by
  have hcount := countP_set_row (·.permit) hk (b := next)
  have hold := hi.held
  refine ⟨hgate, ?_, hi.took, ?_, fun x hx => ?_, fun c => Nat.le_trans (hasks c) (hi.asks c)⟩
  · show gate.held = (s.handlers.set k next).countP (·.permit) + s.calls.countP NextCall.holds
    omega
  · show ((s.handlers.set k next).map (·.stream)).Perm _
    rw [map_set_same (·.stream) hk hstream]
    exact hi.handed
  · rcases mem_set_row hx with hx | rfl
    · exact hi.own x hx
    · exact hown.trans (hi.own h (List.mem_of_getElem? hk))

section Turns
variable {limit : RequestConcurrencyLimit} {s : SharedListener ι} {c : Nat} {stream : Stream} {gate : Gate}

theorem inv_new_call (hi : Inv limit s) : Inv limit { s with calls := s.calls ++ [.accepting] } := by
  refine { hi with held := ?_, took := ?_, handed := ?_, asks := fun c => ?_ }
  · simpa [NextCall.holds] using hi.held
  · simpa [NextCall.took] using hi.took
  · simpa [NextCall.handed] using hi.handed
  · have hasks := hi.asks c
    by_cases hc : c < s.calls.length
    · rwa [List.getElem?_append_left hc]
    · rw [List.getElem?_eq_none (Nat.le_of_not_lt hc)] at hasks
      exact Nat.le_trans hasks (Nat.zero_le _)

theorem inv_accept (hi : Inv limit s) (hc : s.calls[c]? = some .accepting) (rest : List Stream) :
    Inv limit { s.set_call c (.accepted stream) with pending := rest, accepted := s.accepted ++ [stream] } := by
  have hcount := countP_set_same NextCall.holds hc (b := .accepted stream) rfl
  refine { hi with held := ?_, took := ?_, handed := ?_, asks := ?_ }
  · exact hi.held.trans (congrArg (_ + ·) hcount.symm)
  · have htook := flatMap_set_row NextCall.took hc
      (show (NextCall.took (.accepted stream)).Perm ([stream] ++ NextCall.took .accepting) from .refl _)
    exact (List.perm_append_comm.trans (hi.took.append_left [stream])).trans htook.symm
  · exact (flatMap_set_same NextCall.handed hc (b := .accepted stream) rfl).symm ▸ hi.handed
  · exact asks_set hi hc (Nat.le_of_eq (no_asks hi hc rfl)) fun _ _ => Nat.le_refl _

theorem inv_ask (hi : Inv limit s) (hc : s.calls[c]? = some (.accepted stream))
    (hg : s.gate.step (.send (.AcquireRequestPermit c true)) = some gate) :
    Inv limit { s.set_call c (.asking stream) with gate := gate } := by
  have hopen := hi.gate.never_closed
  have hafter := Gate.asksOf_step hopen hg
  refine inv_call hi hc (Gate.inv_step hi.gate hg) ?_ ?_ (fun c' hcc => ?_) rfl rfl
  · rw [Gate.held_step hopen hg]; rfl
  · have hnone := no_asks hi hc rfl
    have hc' := hafter c
    simp only [Gate.asksAfter, Message.askedBy, decide_true, Bool.and_self, if_true] at hc'
    simp only [NextCall.asks, if_true]
    omega
  · simpa [Gate.asksAfter, Message.askedBy, Ne.symm hcc] using hafter c'

/-- The permit goes from the gate to the call that asked. -/
theorem inv_admits (hi : Inv limit s) {i : Nat} {r : Request} (hr : s.gate.requests[i]? = some r) (ha : r.asked = true)
    (hc : s.calls[r.caller]? = some (.asking stream)) (hg : s.gate.step (.reply i) = some gate) :
    Inv limit { s.set_call r.caller (.admitted stream) with gate := gate } := by
  have hopen := hi.gate.never_closed
  have hafter := Gate.asksOf_step hopen hg
  have hgranted := Gate.reply_granted hg hr
  refine inv_call hi hc (Gate.inv_step hi.gate hg) ?_ ?_ (fun c' hcc => ?_) rfl rfl
  · rw [Gate.held_step hopen hg]
    simp [Gate.heldAfter, hr, ha, NextCall.holds]
  · have hone := hi.asks r.caller
    have hc' := hafter r.caller
    simp only [Gate.asksAfter, hr, Option.any_some, Request.askedBy, ha, hgranted, decide_true, Bool.true_and,
      Bool.or_true, if_true] at hc'
    simp only [hc, Option.any_some, NextCall.asks, if_true] at hone
    simp only [NextCall.asks, Bool.false_eq_true, if_false]
    omega
  · exact Nat.le_trans (hafter c') (Nat.sub_le _ _)

/-- The permit goes from the call to the handler. -/
theorem inv_spawn (hi : Inv limit s) (hc : s.calls[c]? = some (.admitted stream)) :
    Inv limit (s.spawn_connection c stream) := by
  have hcount := countP_set_row NextCall.holds hc (b := .served stream)
  have hold := hi.held
  refine ⟨hi.gate, ?_, ?_, ?_, fun h hm => ?_, ?_⟩
  · simp only [NextCall.holds, if_true, Bool.false_eq_true, if_false] at hcount
    simp only [spawn_connection, set_call, List.countP_append, List.countP_singleton, if_true]
    omega
  · exact (flatMap_set_same NextCall.took hc (b := .served stream) rfl).symm ▸ hi.took
  · have hhanded := flatMap_set_row NextCall.handed hc
      (show (NextCall.handed (.served stream)).Perm ([stream] ++ NextCall.handed (.admitted stream)) from .refl _)
    simp only [spawn_connection, set_call, List.map_append, List.map_cons, List.map_nil]
    exact (List.perm_append_comm.trans (hi.handed.append_left [stream])).trans hhanded.symm
  · rcases List.mem_append.1 hm with hm | hm
    · exact hi.own h hm
    · rw [List.mem_singleton.1 hm]
      rfl
  · exact asks_set hi hc (Nat.le_of_eq (no_asks hi hc rfl)) fun _ _ => Nat.le_refl _

/-- Its reply, dropped with the future, gives the permit back. -/
theorem inv_gives_back (hi : Inv limit s) (hc : s.calls[c]? = some (.admitted stream))
    (hg : s.gate.step .drop = some gate) : Inv limit { s.set_call c (.dropped (some stream)) with gate := gate } := by
  have hopen := hi.gate.never_closed
  have hafter := Gate.asksOf_step hopen hg
  have hnone := no_asks hi hc rfl
  have hpos : 0 < s.calls.countP NextCall.holds := List.countP_pos_iff.2 ⟨_, List.mem_of_getElem? hc, rfl⟩
  refine inv_call hi hc (Gate.inv_step hi.gate hg) ?_ ?_ (fun c' _ => hafter c') rfl rfl
  · have hold := hi.held
    rw [Gate.held_step hopen hg]
    simp only [Gate.heldAfter, NextCall.holds, if_true, Bool.false_eq_true, if_false]
    omega
  · have hc' := hafter c
    simp only [Gate.asksAfter] at hc'
    omega

end Turns

theorem inv_step {limit : RequestConcurrencyLimit} {s s' : SharedListener ι} {event : SharedEvent} (hi : Inv limit s)
    (h : s.step event = some s') : Inv limit s' := by
  have hopen := hi.gate.never_closed
  cases step_moves h with
  | connect stream => exact { hi with }
  | call => exact inv_new_call hi
  | accept c stream rest hc hp => exact inv_accept hi hc rest
  | gives_up event c call ended hconnects hc hholds hhanded hasks htook hnone hnot hover =>
    refine inv_call hi hc hi.gate (by rw [hholds, hnot]) ?_ (fun _ _ => Nat.le_refl _) htook (hnone.trans hhanded.symm)
    cases ha : call.asks with
    | true => rw [hasks ha]; exact Nat.zero_le _
    | false => rw [no_asks hi hc ha]; exact Nat.zero_le _
  | ask c stream gate hc hg => exact inv_ask hi hc hg
  | handles gate hg => exact inv_gate hi hg rfl fun _ => Nat.le_refl _
  | polls i gate hg => exact inv_gate hi hg rfl fun _ => Nat.le_refl _
  | admits i stream r gate hr ha hc hg => exact inv_admits hi hr ha hc hg
  | unread i r gate hr ha hg =>
    exact inv_gate hi hg (by simp [Gate.heldAfter, hr, ha]) fun c => Nat.sub_le _ _
  | spawn c stream hc => exact inv_spawn hi hc
  | leaves c stream gate hc hg =>
    have hafter := Gate.asksOf_step hopen hg
    refine inv_call hi hc (Gate.inv_step hi.gate hg) ?_ ?_ (fun c' hcc => ?_) rfl rfl
    · rw [Gate.held_step hopen hg]; rfl
    · simpa [Gate.asksAfter, NextCall.asks] using hafter c
    · simpa [Gate.asksAfter, Ne.symm hcc] using hafter c'
  | gives_back c stream gate hc hg => exact inv_gives_back hi hc hg
  | begins k hd hk hp => exact inv_handler hi hk hi.gate rfl (fun _ => Nat.le_refl _) rfl rfl
  | returns event k hd phase gate hconnects hk hperm hg =>
    have hpos : 0 < s.handlers.countP (·.permit) := List.countP_pos_iff.2 ⟨hd, List.mem_of_getElem? hk, hperm⟩
    refine inv_handler hi hk (Gate.inv_step hi.gate hg) ?_ (fun c => Gate.asksOf_step hopen hg c) rfl rfl
    have hold := hi.held
    rw [Gate.held_step hopen hg]
    simp only [Gate.heldAfter, hperm, if_true, Bool.false_eq_true, if_false]
    omega
  | ends_without k hd outcome passed_on hk hp =>
    exact inv_handler hi hk hi.gate rfl (fun _ => Nat.le_refl _) rfl rfl
  | stops gate hg => exact inv_gate hi hg rfl fun _ => Nat.le_of_eq rfl
  | stopped hg => exact hi

/-- A permit on its way to somebody finds him waiting for it. -/
theorem reply_awaited {limit : RequestConcurrencyLimit} {s : SharedListener ι} (hi : Inv limit s) {i : Nat}
    {r : Request} (hr : s.gate.requests[i]? = some r) (hp : r.phase = .granted) (ha : r.asked = true) :
    ∃ stream, s.calls[r.caller]? = some (.asking stream) := by
  have hone : 0 < s.gate.asksOf r.caller := by
    refine Nat.lt_of_lt_of_le (List.countP_pos_iff.2 ⟨r, List.mem_of_getElem? hr, ?_⟩) (Nat.le_add_left _ _)
    simp [Request.askedBy, ha, hp]
  have hasks := hi.asks r.caller
  cases hc : s.calls[r.caller]? with
  | none =>
    rw [hc, Option.any_none, if_neg Bool.false_ne_true] at hasks
    omega
  | some call =>
    rw [hc, Option.any_some] at hasks
    cases call with
    | asking stream => exact ⟨stream, rfl⟩
    | _ =>
      simp only [NextCall.asks, Bool.false_eq_true, if_false] at hasks
      omega

theorem arrived_step {s s' : SharedListener ι} {event : SharedEvent} (h : s.step event = some s') :
    s'.accepted ++ s'.pending = s.accepted ++ s.pending ++ event.connects ∧ s'.listener = s.listener := by
  cases step_moves h with
  | connect stream => exact ⟨(List.append_assoc _ _ _).symm, rfl⟩
  | accept c stream rest hc hp => simp [SharedEvent.connects, hp, set_call]
  | gives_up event c call ended hconnects => exact ⟨by rw [hconnects, List.append_nil]; rfl, rfl⟩
  | returns event k hd phase gate hconnects => exact ⟨by rw [hconnects, List.append_nil]; rfl, rfl⟩
  | _ => exact ⟨(List.append_nil _).symm, rfl⟩

end SharedListener

/-- The bound listeners of a daemon, and the calls it turned away. -/
structure SharedDaemon (ι : Type*) where
  listeners : List (SharedListener ι)
  /-- `ListenerIndexOutOfRange { index, listener_count }`. -/
  rejected : List (Nat × Nat)
deriving DecidableEq, Repr

namespace SharedDaemon

variable {ι : Type*}

/-- The loop in `bind`, past the file system. -/
def bind_listeners (limit : RequestConcurrencyLimit) : List ι → Option (List (SharedListener ι))
  | [] => some []
  | listener :: rest =>
    match Gate.start limit with
    | some gate => (bind_listeners limit rest).map (⟨listener, [], gate, [], [], []⟩ :: ·)
    | none => none

def bind (limit : RequestConcurrencyLimit) (listeners : List ι) : Option (SharedDaemon ι) :=
  (bind_listeners limit listeners).map fun listeners => ⟨listeners, []⟩

/-- An event at listener `index`; of the single daemons there is one. -/
def step (d : SharedDaemon ι) : Nat × SharedEvent → Option (SharedDaemon ι)
  | (index, event) =>
    match d.listeners[index]? with
    | some s => (s.step event).map fun s => { d with listeners := d.listeners.set index s }
    | none =>
      if event = .call then some { d with rejected := d.rejected ++ [(index, d.listeners.length)] } else none

/-- What holds of a daemon in every state it reaches. -/
structure Inv (limit : RequestConcurrencyLimit) (ids : List ι) (d : SharedDaemon ι) : Prop where
  named : d.listeners.map (·.listener) = ids
  each : ∀ s ∈ d.listeners, s.Inv limit

theorem inv_bind_listeners {limit : RequestConcurrencyLimit} (ids : List ι) {listeners : List (SharedListener ι)}
    (h : bind_listeners limit ids = some listeners) :
    listeners.map (·.listener) = ids ∧ ∀ s ∈ listeners, s.Inv limit ∧ s.accepted = [] ∧ s.pending = [] := by
  induction ids generalizing listeners with
  | nil =>
    cases h
    exact ⟨rfl, nofun⟩
  | cons id ids ih =>
    simp only [bind_listeners] at h
    split at h
    · rename_i gate hgate
      obtain ⟨rest, hrest, rfl⟩ := Option.map_eq_some_iff.1 h
      obtain ⟨hnamed, heach⟩ := ih hrest
      refine ⟨by rw [List.map_cons, hnamed], fun s hs => ?_⟩
      rcases List.mem_cons.1 hs with rfl | hs
      · have hi := Gate.inv_start hgate
        have hnew : gate.held = 0 ∧ gate.mailbox = [] ∧ gate.requests = [] := by
          obtain ⟨_, -, rfl⟩ := Option.map_eq_some_iff.1 hgate
          exact ⟨rfl, rfl, rfl⟩
        refine ⟨⟨hi, hnew.1, .refl _, .refl _, nofun, fun c => ?_⟩, rfl, rfl⟩
        simp [Gate.asksOf, hnew.2.1, hnew.2.2]
      · exact heach s hs
    · cases h

theorem inv_step {limit : RequestConcurrencyLimit} {ids : List ι} {d d' : SharedDaemon ι} {event : Nat × SharedEvent}
    (hi : d.Inv limit ids) (h : d.step event = some d') : d'.Inv limit ids := by
  obtain ⟨index, event⟩ := event
  simp only [step] at h
  split at h
  · rename_i s hs
    obtain ⟨s', hstep, rfl⟩ := Option.map_eq_some_iff.1 h
    refine ⟨(map_set_same (·.listener) hs (SharedListener.arrived_step hstep).2).trans hi.named, fun x hx => ?_⟩
    rcases mem_set_row hx with hx | rfl
    · exact hi.each x hx
    · exact SharedListener.inv_step (hi.each s (List.mem_of_getElem? hs)) hstep
  · split at h <;> cases h
    exact ⟨hi.named, hi.each⟩

/-- The clients of listener `j`. -/
def connectsAt (j : Nat) (event : Nat × SharedEvent) : List Stream := if event.1 = j then event.2.connects else []

/-- The call an event turns away, with `n` listeners. -/
def turnedAway (n : Nat) (event : Nat × SharedEvent) : List (Nat × Nat) := if n ≤ event.1 then [(event.1, n)] else []

theorem step_listeners {d d' : SharedDaemon ι} {event : Nat × SharedEvent} (h : d.step event = some d') :
    d'.listeners.length = d.listeners.length ∧
      d'.rejected = d.rejected ++ turnedAway d.listeners.length event ∧
      ∀ j s', d'.listeners[j]? = some s' → ∃ s, d.listeners[j]? = some s ∧
        s'.accepted ++ s'.pending = s.accepted ++ s.pending ++ connectsAt j event := by
  obtain ⟨index, event⟩ := event
  simp only [step] at h
  split at h
  · rename_i s hs
    obtain ⟨s₁, hstep, rfl⟩ := Option.map_eq_some_iff.1 h
    obtain ⟨hlt, -⟩ := List.getElem?_eq_some_iff.1 hs
    refine ⟨List.length_set, by rw [turnedAway, if_neg (Nat.not_le_of_lt hlt), List.append_nil], fun j s' hj => ?_⟩
    rcases getElem?_set_row hj with ⟨rfl, rfl⟩ | ⟨hne, hj⟩
    · exact ⟨s, hs, by rw [connectsAt, if_pos rfl]; exact (SharedListener.arrived_step hstep).1⟩
    · exact ⟨s', hj, by rw [connectsAt, if_neg (Ne.symm hne), List.append_nil]⟩
  · rename_i hnone
    split at h <;> cases h
    rename_i hcall
    have hle := List.getElem?_eq_none_iff.1 hnone
    refine ⟨rfl, by rw [turnedAway, if_pos hle], fun j s' hj => ⟨s', hj, ?_⟩⟩
    simp [connectsAt, hcall, SharedEvent.connects]

theorem exec_listeners {d d' : SharedDaemon ι} {events : List (Nat × SharedEvent)}
    (h : exec step d events = some d') :
    d'.rejected = d.rejected ++ events.flatMap (turnedAway d.listeners.length) ∧
      ∀ j s', d'.listeners[j]? = some s' → ∃ s, d.listeners[j]? = some s ∧
        s'.accepted ++ s'.pending = s.accepted ++ s.pending ++ events.flatMap (connectsAt j) := by
  induction events generalizing d with
  | nil =>
    cases h
    exact ⟨(List.append_nil _).symm, fun j s' hj => ⟨s', hj, (List.append_nil _).symm⟩⟩
  | cons event events ih =>
    obtain ⟨d₁, hstep, hrest⟩ := exec_cons.1 h
    obtain ⟨hlen, hrejected, hfirst⟩ := step_listeners hstep
    obtain ⟨hrejected', hmore⟩ := ih hrest
    refine ⟨by rw [hrejected', hrejected, hlen, List.append_assoc, List.flatMap_cons], fun j s' hj => ?_⟩
    obtain ⟨s₁, hj₁, h₁⟩ := hmore j s' hj
    obtain ⟨s, hj₀, h₀⟩ := hfirst j s₁ hj₁
    exact ⟨s, hj₀, by rw [h₁, h₀, List.append_assoc, List.flatMap_cons]⟩

/-- Whoever calls `serve_next_connection`, however many at once, and whichever
of their futures are dropped: the clients of each socket are taken off it in
the order they came; each of them is with the one call that took it, and a call
has at most one; the handlers are those of the calls that returned `Ok`, one
for each, with their own listener; no permit is lost or made; and a permit that
is on its way to a call finds it waiting. A call for a listener that is not
there is turned away with its index and the number of listeners, and changes
nothing. -/
theorem calls_keep_connections (limit : RequestConcurrencyLimit) (ids : List ι) (d₀ d : SharedDaemon ι)
    (events : List (Nat × SharedEvent)) (h₀ : bind limit ids = some d₀) (h : exec step d₀ events = some d) :
    d.listeners.map (·.listener) = ids ∧
    d.rejected = events.flatMap (turnedAway ids.length) ∧
    ∀ j s, d.listeners[j]? = some s →
      s.accepted ++ s.pending = events.flatMap (connectsAt j) ∧
      s.accepted.Perm (s.calls.flatMap NextCall.took) ∧
      (s.handlers.map (·.stream)).Perm (s.calls.flatMap NextCall.handed) ∧
      (∀ handler ∈ s.handlers, ids[j]? = some handler.listener) ∧
      s.gate.gate.pool.available_permit_count + (s.gate.count .granted +
        (s.handlers.countP (·.permit) + s.calls.countP NextCall.holds)) = limit.count ∧
      ∀ r ∈ s.gate.requests, r.phase = .granted → r.asked = true →
        ∃ stream, s.calls[r.caller]? = some (.asking stream) := by
  obtain ⟨listeners, hlisteners, rfl⟩ := Option.map_eq_some_iff.1 h₀
  obtain ⟨hnamed, heach⟩ := inv_bind_listeners ids hlisteners
  have hi : d.Inv limit ids :=
    exec_invariant (Inv limit ids) (fun _ _ _ hi hs => inv_step hi hs) h ⟨hnamed, fun s hs => (heach s hs).1⟩
  obtain ⟨hrejected, harrived⟩ := exec_listeners h
  have hlen : listeners.length = ids.length := by rw [← hnamed, List.length_map]
  refine ⟨hi.named, by rw [hrejected, hlen, List.nil_append], fun j s hj => ?_⟩
  have hs := hi.each s (List.mem_of_getElem? hj)
  obtain ⟨s₀, hj₀, h₁⟩ := harrived j s hj
  obtain ⟨-, hnone, hnone'⟩ := heach s₀ (List.mem_of_getElem? hj₀)
  refine ⟨by rw [h₁, hnone, hnone']; rfl, hs.took, hs.handed, fun handler hm => ?_, ?_, fun r hr hp ha => ?_⟩
  · rw [← hi.named, List.getElem?_map, hj, hs.own handler hm]
    rfl
  · rw [← hs.held]
    exact hs.gate.conserved
  · obtain ⟨i, hr⟩ := List.mem_iff_getElem?.1 hr
    exact SharedListener.reply_awaited hs hr hp ha

/-- Two callers, of whom the first gives up and the second is served, and a
call for a listener that is not there. -/
def twoCallers : List (Nat × SharedEvent) :=
  [(0, .connect 5), (0, .call), (0, .call), (3, .call), (0, .accept 1), (0, .ask 1), (0, .gate_handles),
    (0, .gate_polls 0), (0, .gate_replies 0), (0, .spawn 1), (0, .drop_call 0), (0, .connect 6)]

theorem calls_keep_connections_twoCallers :
    ∃ d : SharedDaemon Nat, exec step ⟨[⟨7, [], Gate.fresh, [], [], []⟩], []⟩ twoCallers = some d ∧
      d.rejected = [(3, 1)] ∧
      ∀ s, d.listeners[0]? = some s → s.accepted ++ s.pending = [5, 6] ∧ [5].Perm (s.calls.flatMap NextCall.took) := by
  obtain ⟨-, hrejected, heach⟩ := calls_keep_connections Gate.one [7] _ _ twoCallers rfl rfl
  refine ⟨_, rfl, hrejected, fun s hs => ?_⟩
  obtain ⟨harrived, htook, -⟩ := heach 0 s hs
  cases hs
  exact ⟨harrived, htook⟩

end SharedDaemon

/-! ## `serve_connections` -/

/-- A gate whose callers are not told apart. -/
def Message.anonymous : Message → Message
  | .AcquireRequestPermit _ asked => .AcquireRequestPermit 0 asked
  | message => message

def Request.anonymous (r : Request) : Request := { r with caller := 0 }

def GateEvent.anonymous : GateEvent → GateEvent
  | .send message => .send message.anonymous
  | event => event

namespace Gate

def anonymous (g : Gate) : Gate :=
  { g with mailbox := g.mailbox.map Message.anonymous, requests := g.requests.map Request.anonymous }

theorem handle_anonymous (g : Gate) (message : Message) :
    (g.handle message).anonymous = g.anonymous.handle message.anonymous := by
  cases message <;> simp [handle, anonymous, Message.anonymous, Request.anonymous]

theorem poll_anonymous (g : Gate) (i : Nat) (r : Request) :
    g.anonymous.poll i r.anonymous = (g.poll i r).map anonymous := by
  have hpool : g.anonymous.gate.pool.acquire = g.gate.pool.acquire := rfl
  unfold poll
  rw [hpool]
  rcases g.gate.pool.acquire with _ | _ | pool
  · rfl
  · simp [anonymous, Request.anonymous]
  · simp [anonymous, Request.anonymous]

theorem reply_anonymous (g : Gate) (i : Nat) (r : Request) :
    g.anonymous.reply i r.anonymous = (g.reply i r).anonymous := by
  have hasked : r.anonymous.asked = r.asked := rfl
  unfold reply
  rw [hasked]
  split <;> simp [anonymous, Request.anonymous]

theorem getElem?_anonymous (g : Gate) (i : Nat) : g.anonymous.requests[i]? = g.requests[i]?.map Request.anonymous :=
  List.getElem?_map

/-- The gate treats all callers alike, as long as nobody gives up. -/
theorem step_anonymous (g : Gate) (event : GateEvent) (hkeep : ∀ caller, event ≠ .abandon caller) :
    g.anonymous.step event.anonymous = (g.step event).map anonymous := by
  cases event with
  | send message =>
    simp only [step, GateEvent.anonymous]
    by_cases hr : g.running = true
    · simp [anonymous, hr]
    · simp [anonymous, hr]
  | handle =>
    obtain ⟨gate, running, mailbox, requests, held, reports, handled, made⟩ := g
    rcases running with _ | _
    · rfl
    rcases mailbox with _ | ⟨message, rest⟩
    · rfl
    exact congrArg some (handle_anonymous ⟨gate, true, rest, requests, held, reports, handled, made⟩ message).symm
  | poll i =>
    simp only [step, GateEvent.anonymous, getElem?_anonymous]
    cases g.requests[i]? with
    | none => rfl
    | some r =>
      by_cases hw : r.phase = .waiting
      · simpa [Request.anonymous, hw] using poll_anonymous g i r
      · simp [Request.anonymous, hw]
  | reply i =>
    simp only [step, GateEvent.anonymous, getElem?_anonymous]
    cases g.requests[i]? with
    | none => rfl
    | some r =>
      by_cases hw : r.phase = .granted
      · simpa [Request.anonymous, hw] using reply_anonymous g i r
      · simp [Request.anonymous, hw]
  | abandon caller => exact absurd rfl (hkeep caller)
  | drop =>
    simp only [step, GateEvent.anonymous]
    by_cases hp : 0 < g.held
    · simp [anonymous, hp]
    · simp [anonymous, hp]

/-- What a gate does whose callers are not told apart, the gate can do. -/
theorem step_of_anonymous {g g' : Gate} {event : GateEvent} (hkeep : ∀ caller, event ≠ .abandon caller)
    (h : g.anonymous.step event.anonymous = some g') : ∃ g₁, g.step event = some g₁ ∧ g₁.anonymous = g' := by
  rw [step_anonymous g event hkeep, Option.map_eq_some_iff] at h
  exact h

/-- Who waits for himself waits. -/
theorem asksOf_le (g : Gate) (c : Nat) : g.asksOf c ≤ g.anonymous.asks := by
  refine Nat.add_le_add ?_ ?_
  · rw [anonymous, List.countP_map]
    refine List.countP_mono_left fun m _ hm => ?_
    cases m <;> simp_all [Message.askedBy, Message.anonymous]
  · rw [anonymous, List.countP_map]
    refine List.countP_mono_left fun r _ hr => ?_
    simp_all [Request.askedBy, Request.anonymous]

end Gate

/-- Where a loop stands that awaits the call. -/
def NextCall.phase : NextCall → Option LoopPhase
  | .accepting => some .accepting
  | .accepted stream => some (.accepted stream)
  | .asking stream => some (.asking stream)
  | .admitted stream => some (.admitted stream)
  | .failed error _ => some (.failed error)
  | .served _ | .dropped _ => none

theorem NextCall.of_accepting {call : NextCall} (h : call.phase = some .accepting) : call = .accepting := by
  cases call <;> simp_all [phase]

theorem NextCall.of_accepted {call : NextCall} {stream : Stream} (h : call.phase = some (.accepted stream)) :
    call = .accepted stream := by
  cases call <;> simp_all [phase]

theorem NextCall.of_asking {call : NextCall} {stream : Stream} (h : call.phase = some (.asking stream)) :
    call = .asking stream := by
  cases call <;> simp_all [phase]

theorem NextCall.of_admitted {call : NextCall} {stream : Stream} (h : call.phase = some (.admitted stream)) :
    call = .admitted stream := by
  cases call <;> simp_all [phase]

/-- An event as a loop sees it, which does not count its calls. -/
def SharedEvent.inLoop : SharedEvent → List ListenerEvent
  | .connect stream => [.connect stream]
  | .call | .drop_call _ => []
  | .accept _ => [.accept]
  | .accept_fails _ => [.accept_fails]
  | .context_fails _ => [.context_fails]
  | .ask _ => [.ask]
  | .permit_fails _ => [.permit_fails]
  | .gate_handles => [.gate_handles]
  | .gate_polls i => [.gate_polls i]
  | .gate_replies i => [.gate_replies i]
  | .spawn _ => [.spawn]
  | .handler_begins k => [.handler_begins k]
  | .into_parts k => [.into_parts k]
  | .handler_ends k outcome passed_on => [.handler_ends k outcome passed_on]
  | .stop_gate => [.stop_gate]

/-- A caller that calls when all its calls have returned `Ok`, and drops none. -/
def SharedListener.OneAtATime {ι : Type*} (s : SharedListener ι) : SharedEvent → Prop
  | .call => ∀ call ∈ s.calls, ∃ stream, call = .served stream
  | .drop_call _ => False
  | _ => True

/-- An accept loop and the calls it makes: one after the other, the next when
the last has returned `Ok`. -/
structure InLoop {ι : Type*} (l : Listener ι) (s : SharedListener ι) : Prop where
  listener : s.listener = l.listener
  pending : s.pending = l.pending
  handlers : s.handlers = l.handlers
  accepted : s.accepted = l.accepted
  gate : s.gate.anonymous = l.gate
  calls : ∃ returned current, s.calls = returned ++ [current] ∧ (∀ call ∈ returned, ∃ stream, call = .served stream) ∧
    current.phase = some l.loop

namespace InLoop

variable {ι : Type*} {limit : RequestConcurrencyLimit} {l l' : Listener ι} {s : SharedListener ι}

theorem set_last (returned : List NextCall) (call next : NextCall) :
    (returned ++ [call]).set returned.length next = returned ++ [next] := by
  rw [List.set_append_right _ _ (Nat.le_refl _), Nat.sub_self]
  rfl

/-- The call under way. -/
theorem current (h : InLoop l s) : ∃ c call, s.calls[c]? = some call ∧ call.phase = some l.loop ∧
    (∀ c' call', s.calls[c']? = some call' → call'.asks = true → c' = c) ∧
    ∀ next : NextCall, ∃ returned, s.calls.set c next = returned ++ [next] ∧
      ∀ call ∈ returned, ∃ stream, call = .served stream := by
  obtain ⟨returned, call, hcalls, hreturned, hphase⟩ := h.calls
  refine ⟨returned.length, call, by rw [hcalls, List.getElem?_concat_length], hphase, fun c' call' hc' hasks => ?_,
    fun next => ⟨returned, by rw [hcalls, set_last], hreturned⟩⟩
  rw [hcalls] at hc'
  by_cases hlt : c' < returned.length
  · rw [List.getElem?_append_left hlt] at hc'
    obtain ⟨stream, rfl⟩ := hreturned call' (List.mem_of_getElem? hc')
    cases hasks
  · have hlt' := (List.getElem?_eq_some_iff.1 hc').1
    rw [List.length_append, List.length_singleton] at hlt'
    omega

/-- The gate does what the loop's gate does. -/
theorem gate_step (h : InLoop l s) (event : GateEvent) {gate : Gate} (hkeep : ∀ caller, event ≠ .abandon caller)
    (hg : l.gate.step event.anonymous = some gate) : ∃ g, s.gate.step event = some g ∧ g.anonymous = gate :=
  Gate.step_of_anonymous hkeep (by rw [h.gate]; exact hg)

theorem request (h : InLoop l s) {i : Nat} {r : Request} (hr : l.gate.requests[i]? = some r) :
    ∃ r₁, s.gate.requests[i]? = some r₁ ∧ r₁.asked = r.asked ∧ r₁.phase = r.phase := by
  rw [← h.gate, Gate.getElem?_anonymous, Option.map_eq_some_iff] at hr
  obtain ⟨r₁, hr₁, rfl⟩ := hr
  exact ⟨r₁, hr₁, rfl, rfl⟩

/-- The call under way moves on as the loop does. -/
theorem advance (h : InLoop l s) {c : Nat} {next : NextCall} (hset : ∃ returned, s.calls.set c next = returned ++ [next] ∧
      ∀ call ∈ returned, ∃ stream, call = .served stream) {loop : LoopPhase} (hphase : next.phase = some loop)
    {g gate : Gate} (hgate : g.anonymous = gate) :
    InLoop { l with gate := gate, loop := loop } { s.set_call c next with gate := g } := by
  obtain ⟨returned, hcalls, hreturned⟩ := hset
  exact { h with gate := hgate, calls := ⟨returned, next, hcalls, hreturned, hphase⟩ }

/-- The handlers go their way in both. -/
theorem set_handler (h : InLoop l s) (k : Nat) (hd : Handler ι) {g gate : Gate} (hgate : g.anonymous = gate) :
    InLoop { l.set_handler k hd with gate := gate } { s.set_handler k hd with gate := g } :=
  { h with
    handlers := by simp only [SharedListener.set_handler, Listener.set_handler, h.handlers]
    gate := hgate }

/-- The caller's matching of `event`, after which it is where the loop is. -/
def Matches (s : SharedListener ι) (event : ListenerEvent) (l' : Listener ι) : Prop :=
  ∃ own s', exec SharedListener.step s own = some s' ∧ Along SharedListener.step SharedListener.OneAtATime s own ∧
    own.flatMap SharedEvent.inLoop = [event] ∧ InLoop l' s'

theorem by_step {s' : SharedListener ι} {event : ListenerEvent} (h' : InLoop l' s') (own : SharedEvent)
    (hs : s.step own = some s') (hone : s.OneAtATime own) (hin : own.inLoop = [event]) : Matches s event l' :=
  ⟨[own], s', exec_cons.2 ⟨s', hs, rfl⟩, ⟨hone, fun _ _ => trivial⟩, by simp [hin], h'⟩

theorem accepts (h : InLoop l s) (hstep : l.step .accept = some l') : Matches s .accept l' := by
  obtain ⟨c, call, hc, hphase, -, hset⟩ := h.current
  simp only [Listener.step] at hstep
  split at hstep <;> cases hstep
  rename_i stream rest hloop hp
  rw [hloop] at hphase
  obtain rfl := NextCall.of_accepting hphase
  obtain ⟨returned, hcalls, hreturned⟩ := hset (.accepted stream)
  have h' : InLoop { l with pending := rest, loop := .accepted stream, accepted := l.accepted ++ [stream] }
      { s.set_call c (.accepted stream) with pending := rest, accepted := s.accepted ++ [stream] } :=
    { h with pending := rfl, accepted := by rw [h.accepted], calls := ⟨returned, _, hcalls, hreturned, rfl⟩ }
  refine h'.by_step (.accept c) ?_ trivial rfl
  simp only [SharedListener.step, hc, h.pending, hp]

theorem accept_fails (h : InLoop l s) (hstep : l.step .accept_fails = some l') : Matches s .accept_fails l' := by
  obtain ⟨c, call, hc, hphase, -, hset⟩ := h.current
  simp only [Listener.step, Option.ite_none_right_eq_some, Option.some.injEq] at hstep
  obtain ⟨hloop, rfl⟩ := hstep
  rw [hloop] at hphase
  obtain rfl := NextCall.of_accepting hphase
  refine (h.advance (hset (.failed .Io none)) rfl h.gate).by_step (.accept_fails c) ?_ trivial rfl
  simp only [SharedListener.step, hc]
  rfl

theorem context_fails (h : InLoop l s) (hstep : l.step .context_fails = some l') : Matches s .context_fails l' := by
  obtain ⟨c, call, hc, hphase, -, hset⟩ := h.current
  simp only [Listener.step] at hstep
  split at hstep <;> cases hstep
  rename_i stream hloop
  rw [hloop] at hphase
  obtain rfl := NextCall.of_accepted hphase
  refine (h.advance (hset (.failed .Io (some stream))) rfl h.gate).by_step (.context_fails c) ?_ trivial rfl
  simp only [SharedListener.step, hc]
  rfl

theorem asks (h : InLoop l s) (hstep : l.step .ask = some l') : Matches s .ask l' := by
  obtain ⟨c, call, hc, hphase, -, hset⟩ := h.current
  simp only [Listener.step] at hstep
  split at hstep
  · rename_i stream hloop
    obtain ⟨l₁, hl₁, rfl⟩ := Option.map_eq_some_iff.1 hstep
    obtain ⟨gate, hg, rfl⟩ := Listener.gate_step_some hl₁
    rw [hloop] at hphase
    obtain rfl := NextCall.of_accepted hphase
    obtain ⟨g, hg', hgate⟩ := h.gate_step (.send (.AcquireRequestPermit c true)) (by simp) hg
    refine (h.advance (hset (.asking stream)) rfl hgate).by_step (.ask c) ?_ trivial rfl
    simp only [SharedListener.step, hc]
    exact congrArg (Option.map _) hg'
  · cases hstep

/-- The gate is down before it is asked, or goes down without an answer. -/
theorem permit_fails (h : InLoop l s) (hstep : l.step .permit_fails = some l') : Matches s .permit_fails l' := by
  obtain ⟨c, call, hc, hphase, -, hset⟩ := h.current
  simp only [Listener.step] at hstep
  split at hstep
  · rename_i stream hloop
    split at hstep <;> cases hstep
    rename_i hrun
    rw [hloop] at hphase
    obtain rfl := NextCall.of_accepted hphase
    have hrun' : ¬ s.gate.running = true := by rw [← h.gate] at hrun; exact hrun
    refine (h.advance (hset (.failed .RequestGate (some stream))) rfl h.gate).by_step (.permit_fails c) ?_ trivial rfl
    simp only [SharedListener.step, hc, if_neg hrun']
    rfl
  · rename_i stream hloop
    split at hstep <;> cases hstep
    rename_i hnone
    rw [hloop] at hphase
    obtain rfl := NextCall.of_asking hphase
    have hnone' : s.gate.asksOf c = 0 := by
      have hle := s.gate.asksOf_le c
      rw [h.gate] at hle
      omega
    refine (h.advance (hset (.failed .RequestGate (some stream))) rfl h.gate).by_step (.permit_fails c) ?_ trivial rfl
    simp only [SharedListener.step, hc, if_pos hnone']
    rfl
  · cases hstep

/-- A step of the gate that no call sees. -/
theorem gate_alone (h : InLoop l s) {gate : Gate} (event : GateEvent) (hkeep : ∀ caller, event ≠ .abandon caller)
    (hg : l.gate.step event.anonymous = some gate) (own : SharedEvent) (hown : s.step own = s.gate_step event)
    (hone : s.OneAtATime own) {seen : ListenerEvent} (hin : own.inLoop = [seen]) :
    Matches s seen { l with gate := gate } := by
  obtain ⟨g, hg', hgate⟩ := h.gate_step event hkeep hg
  have h' : InLoop { l with gate := gate } { s with gate := g } := { h with gate := hgate }
  refine h'.by_step own ?_ hone hin
  rw [hown]
  exact congrArg (Option.map _) hg'

theorem gate_handles (h : InLoop l s) (hstep : l.step .gate_handles = some l') : Matches s .gate_handles l' := by
  obtain ⟨gate, hg, rfl⟩ := Listener.gate_step_some hstep
  exact h.gate_alone .handle (by simp) hg .gate_handles rfl trivial rfl

theorem gate_polls (h : InLoop l s) (i : Nat) (hstep : l.step (.gate_polls i) = some l') :
    Matches s (.gate_polls i) l' := by
  obtain ⟨gate, hg, rfl⟩ := Listener.gate_step_some hstep
  exact h.gate_alone (.poll i) (by simp) hg (.gate_polls i) rfl trivial rfl

/-- A reply that nobody waits for. -/
theorem unread (h : InLoop l s) {i : Nat} {r : Request} {gate : Gate} (hr : s.gate.requests[i]? = some r)
    (hasked : ¬ r.asked = true) (hg : l.gate.step (.reply i) = some gate) :
    Matches s (.gate_replies i) { l with gate := gate } := by
  refine h.gate_alone (.reply i) (by simp) hg (.gate_replies i) ?_ trivial rfl
  simp only [SharedListener.step, hr, if_neg hasked]

theorem gate_replies (h : InLoop l s) (hi : s.Inv limit) (i : Nat) (hstep : l.step (.gate_replies i) = some l') :
    Matches s (.gate_replies i) l' := by
  obtain ⟨c, call, hc, hphase, honly, hset⟩ := h.current
  simp only [Listener.step] at hstep
  split at hstep
  · rename_i r stream hr hloop
    obtain ⟨l₁, hl₁, rfl⟩ := Option.map_eq_some_iff.1 hstep
    obtain ⟨gate, hg, rfl⟩ := Listener.gate_step_some hl₁
    obtain ⟨r₁, hr₁, hasked, -⟩ := h.request hr
    rw [← hasked]
    by_cases ha : r₁.asked = true
    · -- The permit is for the call under way, the only one that asks.
      obtain ⟨g, hg', hgate⟩ := h.gate_step (.reply i) (by simp) hg
      obtain ⟨stream', hcaller⟩ := SharedListener.reply_awaited hi hr₁ (Gate.reply_granted hg' hr₁) ha
      obtain rfl := honly _ _ hcaller rfl
      rw [hloop] at hphase
      obtain rfl := NextCall.of_asking hphase
      rw [if_pos ha]
      refine (h.advance (hset (.admitted stream)) rfl hgate).by_step (.gate_replies i) ?_ trivial rfl
      simp only [SharedListener.step, hr₁, if_pos ha, hc]
      exact congrArg (Option.map _) hg'
    · rw [if_neg ha]
      exact h.unread hr₁ ha hg
  · rename_i r hr hloop
    obtain ⟨r₁, hr₁, hasked, -⟩ := h.request hr
    rw [← hasked] at hstep
    by_cases ha : r₁.asked = true
    · simp [ha] at hstep
    · rw [if_neg ha] at hstep
      obtain ⟨gate, hg, rfl⟩ := Listener.gate_step_some hstep
      exact h.unread hr₁ ha hg
  · cases hstep

/-- The call returns, and the caller makes the next. -/
theorem spawns (h : InLoop l s) (hstep : l.step .spawn = some l') : Matches s .spawn l' := by
  obtain ⟨c, call, hc, hphase, -, hset⟩ := h.current
  simp only [Listener.step] at hstep
  split at hstep <;> cases hstep
  rename_i stream hloop
  rw [hloop] at hphase
  obtain rfl := NextCall.of_admitted hphase
  obtain ⟨returned, hcalls, hreturned⟩ := hset (.served stream)
  have hall : ∀ call ∈ returned ++ [.served stream], ∃ stream, call = .served stream := by
    intro call hm
    rcases List.mem_append.1 hm with hm | hm
    · exact hreturned call hm
    · exact ⟨stream, List.mem_singleton.1 hm⟩
  have hspawn : s.step (.spawn c) = some (s.spawn_connection c stream) := by
    simp only [SharedListener.step, hc]
  have hcalls' : (s.spawn_connection c stream).calls = returned ++ [.served stream] := hcalls
  refine ⟨[.spawn c, .call], { s.spawn_connection c stream with calls := (s.spawn_connection c stream).calls ++ [.accepting] },
    exec_cons.2 ⟨_, hspawn, rfl⟩, ⟨trivial, fun t ht => ⟨?_, fun _ _ => trivial⟩⟩, rfl, { h with
      handlers := ?_, calls := ⟨returned ++ [.served stream], .accepting, by rw [hcalls'], hall, rfl⟩ }⟩
  · rw [hspawn, Option.some.injEq] at ht
    subst ht
    intro call hm
    exact hall call (hcalls' ▸ hm)
  · simp only [SharedListener.spawn_connection, Listener.spawn_connection, h.handlers, h.listener]

theorem handler_begins (h : InLoop l s) (k : Nat) (hstep : l.step (.handler_begins k) = some l') :
    Matches s (.handler_begins k) l' := by
  simp only [Listener.step] at hstep
  split at hstep
  · rename_i hd hk
    simp only [Option.ite_none_right_eq_some, Option.some.injEq] at hstep
    obtain ⟨hp, rfl⟩ := hstep
    refine (h.set_handler k { hd with phase := .running } h.gate).by_step (.handler_begins k) ?_ trivial rfl
    simp only [SharedListener.step, h.handlers, hk, hp, if_true]
    rfl
  · cases hstep

theorem into_parts (h : InLoop l s) (k : Nat) (hstep : l.step (.into_parts k) = some l') :
    Matches s (.into_parts k) l' := by
  simp only [Listener.step] at hstep
  split at hstep
  · rename_i hd hk
    simp only [Option.ite_none_right_eq_some] at hstep
    obtain ⟨hp, hstep⟩ := hstep
    obtain ⟨gate, hg, rfl⟩ := Listener.drop_permit_some hstep
    obtain ⟨g, hg', hgate⟩ := h.gate_step .drop (by simp) hg
    refine (h.set_handler k { hd with permit := false } hgate).by_step (.into_parts k) ?_ trivial rfl
    simp only [SharedListener.step, h.handlers, hk, if_pos hp]
    exact congrArg (Option.map _) hg'
  · cases hstep

theorem handler_ends (h : InLoop l s) (k : Nat) (outcome : Outcome) (passed_on : Bool)
    (hstep : l.step (.handler_ends k outcome passed_on) = some l') :
    Matches s (.handler_ends k outcome passed_on) l' := by
  simp only [Listener.step] at hstep
  split at hstep
  · rename_i hd hk
    simp only [Option.ite_none_right_eq_some] at hstep
    obtain ⟨hp, hstep⟩ := hstep
    by_cases hd' : (hd.permit && !passed_on) = true
    · rw [if_pos hd'] at hstep
      obtain ⟨gate, hg, rfl⟩ := Listener.drop_permit_some hstep
      obtain ⟨g, hg', hgate⟩ := h.gate_step .drop (by simp) hg
      refine (h.set_handler k { hd with permit := false, phase := .finished outcome } hgate).by_step
        (.handler_ends k outcome passed_on) ?_ trivial rfl
      simp only [SharedListener.step, h.handlers, hk, if_pos hp, if_pos hd']
      exact congrArg (Option.map _) hg'
    · rw [if_neg hd', Option.some.injEq] at hstep
      subst hstep
      refine (h.set_handler k { hd with phase := .finished outcome } h.gate).by_step
        (.handler_ends k outcome passed_on) ?_ trivial rfl
      simp only [SharedListener.step, h.handlers, hk, if_pos hp, if_neg hd']
      rfl
  · cases hstep

theorem stop_gate (h : InLoop l s) (hstep : l.step .stop_gate = some l') : Matches s .stop_gate l' := by
  cases hstep
  have hsent : ((s.gate.step (.send .Stop)).getD s.gate).anonymous = (l.gate.step (.send .Stop)).getD l.gate := by
    have hsend := Gate.step_anonymous s.gate (.send .Stop) (by simp)
    rw [h.gate] at hsend
    rw [show l.gate.step (.send .Stop) = _ from hsend]
    cases s.gate.step (.send .Stop) with
    | none => exact h.gate
    | some g => rfl
  have h' : InLoop { l with gate := (l.gate.step (.send .Stop)).getD l.gate }
      { s with gate := (s.gate.step (.send .Stop)).getD s.gate } := { h with gate := hsent }
  exact h'.by_step (.stop_gate) rfl trivial rfl

theorem step (h : InLoop l s) (hi : s.Inv limit) {event : ListenerEvent} (hcancel : event ≠ .cancel)
    (hpanics : event ≠ .panics) (hstep : l.step event = some l') : Matches s event l' := by
  cases event with
  | connect stream =>
    cases hstep
    have h' : InLoop { l with pending := l.pending ++ [stream] } { s with pending := s.pending ++ [stream] } :=
      { h with pending := by rw [h.pending] }
    exact h'.by_step (.connect stream) rfl trivial rfl
  | accept => exact h.accepts hstep
  | accept_fails => exact h.accept_fails hstep
  | context_fails => exact h.context_fails hstep
  | ask => exact h.asks hstep
  | permit_fails => exact h.permit_fails hstep
  | gate_handles => exact h.gate_handles hstep
  | gate_polls i => exact h.gate_polls i hstep
  | gate_replies i => exact h.gate_replies hi i hstep
  | spawn => exact h.spawns hstep
  | handler_begins k => exact h.handler_begins k hstep
  | into_parts k => exact h.into_parts k hstep
  | handler_ends k outcome passed_on => exact h.handler_ends k outcome passed_on hstep
  | panics => exact absurd rfl hpanics
  | cancel => exact absurd rfl hcancel
  | stop_gate => exact h.stop_gate hstep

end InLoop

/-- `serve_connections` is `serve_next_connection`, called again whenever it has
returned `Ok`: every run of an accept loop is one of a daemon with one caller, who
has one call open at a time. The events are the same in both, in the same order;
the socket, the gate, the handlers and the stream in hand are those of the loop,
which ends with the error of the last call. -/
theorem serve_connections_repeats_calls {ι : Type*} (limit : RequestConcurrencyLimit) (listener : ι) (gate : Gate)
    (l : Listener ι) (events : List ListenerEvent) (hgate : Gate.start limit = some gate)
    (hsingle : ∀ event ∈ events, event ≠ .cancel ∧ event ≠ .panics)
    (h : exec Listener.step ⟨listener, [], gate, .accepting, [], []⟩ events = some l) :
    ∃ own s, exec SharedListener.step ⟨listener, [], gate, [.accepting], [], []⟩ own = some s ∧
      Along SharedListener.step SharedListener.OneAtATime ⟨listener, [], gate, [.accepting], [], []⟩ own ∧
      own.flatMap SharedEvent.inLoop = events ∧ InLoop l s := by
  have hi := Gate.inv_start hgate
  have hnew : gate.held = 0 ∧ gate.mailbox = [] ∧ gate.requests = [] ∧ gate.anonymous = gate := by
    obtain ⟨_, -, rfl⟩ := Option.map_eq_some_iff.1 hgate
    exact ⟨rfl, rfl, rfl, rfl⟩
  have hinv : SharedListener.Inv limit ⟨listener, [], gate, [.accepting], [], []⟩ := by
    refine ⟨hi, hnew.1, .refl _, .refl _, nofun, fun c => ?_⟩
    simp [Gate.asksOf, hnew.2.1, hnew.2.2.1]
  have hloop : InLoop (⟨listener, [], gate, .accepting, [], []⟩ : Listener ι)
      ⟨listener, [], gate, [.accepting], [], []⟩ :=
    ⟨rfl, rfl, rfl, rfl, hnew.2.2.2, [], .accepting, rfl, nofun, rfl⟩
  have hstep : ∀ (l : Listener ι) (event : ListenerEvent) (l' : Listener ι) (s : SharedListener ι),
      InLoop l s ∧ s.Inv limit → (event ≠ .cancel ∧ event ≠ .panics) → l.step event = some l' →
      ∃ own s', exec SharedListener.step s own = some s' ∧ Along SharedListener.step SharedListener.OneAtATime s own ∧
        own.flatMap SharedEvent.inLoop = [event] ∧ InLoop l' s' ∧ s'.Inv limit := by
    rintro l event l' s ⟨hl, hs⟩ ⟨hcancel, hpanics⟩ hstep
    obtain ⟨own, s', hown, hone, hin, hl'⟩ := hl.step hs hcancel hpanics hstep
    exact ⟨own, s', hown, hone, hin, hl', exec_invariant (SharedListener.Inv limit)
      (fun _ _ _ hi h => SharedListener.inv_step hi h) hown hs⟩
  obtain ⟨own, s, hown, hone, hin, hl, -⟩ := exec_traces_along (fun event => [event]) SharedEvent.inLoop
    (fun l s => InLoop l s ∧ s.Inv limit) _ _ hstep hsingle h ⟨hloop, hinv⟩
  exact ⟨own, s, hown, hone, hin.trans (List.flatMap_singleton' events), hl⟩

/-- One client is served, and then `accept` fails. -/
def servedThenFailed : List ListenerEvent :=
  [.connect 5, .accept, .ask, .gate_handles, .gate_polls 0, .gate_replies 0, .spawn, .accept_fails]

theorem serve_connections_repeats_calls_servedThenFailed :
    ∃ own, ∃ s : SharedListener Nat, exec SharedListener.step ⟨7, [], Gate.fresh, [.accepting], [], []⟩ own = some s ∧
      own.flatMap SharedEvent.inLoop = servedThenFailed ∧ s.handlers = [⟨7, 5, true, .spawned⟩] := by
  obtain ⟨own, s, hown, -, hin, hloop⟩ := serve_connections_repeats_calls Gate.one 7 Gate.fresh _ servedThenFailed rfl
    (by simp [servedThenFailed]) rfl
  exact ⟨own, s, hown, hin, hloop.handlers⟩

end TriadRuntime
