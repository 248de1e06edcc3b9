import TriadRuntime.Systems.Runs
import TriadRuntime.Systems.Tables
import TriadRuntime.Systems.Words
/-!
# The request gate (`async_runtime.rs`)

`RequestGate` is an actor that hands out the permits of one Tokio semaphore.
Its handler for `AcquireRequestPermit` counts the message and delegates the
wait: a task started with `Context::spawn` waits for the permit and sends the
reply, so the mailbox goes on meanwhile. The machine below interleaves the
mailbox, the delegated tasks, the callers (who may give up their ask) and the
permits they hold.

Trusted: Tokio's semaphore neither makes nor loses permits, and which waiting
task it serves next is left open; kameo handles one message at a time in mailbox
order, puts a graceful stop behind the messages already sent, and does not
cancel delegated tasks when the actor stops; a reply nobody waits for is
dropped, with the permit in it.
-/

open Systems

namespace TriadRuntime

/-! ## Tokio's semaphore -/

structure Semaphore where
  permits : Nat
  closed : Bool
deriving DecidableEq, Repr

/-- `tokio::sync::Semaphore::MAX_PERMITS`, `usize::MAX >> 3`. -/
def Semaphore.MAX_PERMITS : Nat := 2 ^ 61 - 1

/-- `none` where `Semaphore::new` panics. -/
def Semaphore.new (permits : Nat) : Option Semaphore :=
  if permits ≤ Semaphore.MAX_PERMITS then some ⟨permits, false⟩ else none

/-! ## Limits, pools and the gate -/

/-- `new` is the only way to make one, and it clamps zero to one. -/
structure RequestConcurrencyLimit where
  count : Nat
  pos : 0 < count
deriving DecidableEq, Repr

def RequestConcurrencyLimit.new (count : Nat) : RequestConcurrencyLimit :=
  if h : count = 0 then ⟨1, Nat.one_pos⟩ else ⟨count, Nat.pos_of_ne_zero h⟩

/-- The permits a pool has left. Its clones share the semaphore, so one value
stands for all of them. -/
structure RequestPermitPool where
  limit : RequestConcurrencyLimit
  semaphore : Semaphore
deriving DecidableEq, Repr

inductive RequestPermitError where
  | GateClosed
deriving DecidableEq, Repr

structure RequestGateStatus where
  limit : RequestConcurrencyLimit
  available_permit_count : Nat
  accepted_request_count : UInt64
deriving DecidableEq, Repr

namespace RequestPermitPool

def new (limit : RequestConcurrencyLimit) : Option RequestPermitPool :=
  (Semaphore.new limit.count).map fun semaphore => ⟨limit, semaphore⟩

def available_permit_count (pool : RequestPermitPool) : Nat := pool.semaphore.permits

/-- One poll of `acquire`: `none` while it has to wait, else its result (a
permit is one unit of the semaphore, gone from the pool that is left). -/
def acquire (pool : RequestPermitPool) : Option (Except RequestPermitError RequestPermitPool) :=
  if pool.semaphore.closed then some (.error .GateClosed)
  else if pool.semaphore.permits = 0 then none
  else some (.ok { pool with semaphore.permits := pool.semaphore.permits - 1 })

/-- Dropping a `RequestPermit` drops its `OwnedSemaphorePermit`. -/
def drop_permit (pool : RequestPermitPool) : RequestPermitPool :=
  { pool with semaphore.permits := pool.semaphore.permits + 1 }

end RequestPermitPool

structure RequestGate where
  pool : RequestPermitPool
  accepted_request_count : UInt64
deriving DecidableEq, Repr

namespace RequestGate

def new (limit : RequestConcurrencyLimit) : Option RequestGate :=
  (RequestPermitPool.new limit).map fun pool => ⟨pool, 0⟩

def status (gate : RequestGate) : RequestGateStatus :=
  ⟨gate.pool.limit, gate.pool.available_permit_count, gate.accepted_request_count⟩

def accept_request (gate : RequestGate) : RequestGate :=
  { gate with accepted_request_count := UInt64.saturating_add gate.accepted_request_count 1 }

end RequestGate

/-! ## The actor and its surroundings -/

/-- What the mailbox holds. `asked` is false once the caller has given up. -/
inductive Message where
  | AcquireRequestPermit (caller : Nat) (asked : Bool)
  | RequestGateStatusRequest
  | Stop
deriving DecidableEq, Repr

/-- How far a delegated acquire has come: its task waits for a permit, has one
and is about to reply with it, or has replied (`undelivered`: to nobody). -/
inductive Phase where
  | waiting
  | granted
  | answered
  | undelivered
  | refused
deriving DecidableEq, Repr

/-- An acquire that the handler has delegated. -/
structure Request where
  caller : Nat
  asked : Bool
  phase : Phase
deriving DecidableEq, Repr

/-- The gate with everything that outlives one message: the delegated tasks in
the order they were started, the permits callers hold, the status reports sent,
and two counts kept for the theorems only. -/
structure Gate where
  gate : RequestGate
  running : Bool
  mailbox : List Message
  requests : List Request
  held : Nat
  reports : List RequestGateStatus
  acquires_handled : Nat
  grants_made : Nat
deriving DecidableEq, Repr

inductive GateEvent where
  /-- A caller sends a message. -/
  | send (message : Message)
  /-- The actor takes the next message and runs its handler. -/
  | handle
  /-- The delegated task `i` polls the semaphore. -/
  | poll (i : Nat)
  /-- The delegated task `i` sends its permit to the caller. -/
  | reply (i : Nat)
  /-- A caller drops the asks it has out. -/
  | abandon (caller : Nat)
  /-- A caller drops a permit it holds. -/
  | drop
deriving DecidableEq, Repr

/-- The asks of `caller`, given up. -/
def Message.abandon (caller : Nat) : Message → Message
  | .AcquireRequestPermit c asked => .AcquireRequestPermit c (asked && c ≠ caller)
  | message => message

def Request.abandon (caller : Nat) (r : Request) : Request := { r with asked := r.asked && r.caller ≠ caller }

namespace Gate

/-- `RequestGate::new(limit).start()`; `none` where the constructor panics. -/
def start (limit : RequestConcurrencyLimit) : Option Gate :=
  (RequestGate.new limit).map fun gate => ⟨gate, true, [], [], 0, [], 0, 0⟩

/-- The `Message` handlers: neither waits. -/
def handle (g : Gate) : Message → Gate
  | .AcquireRequestPermit caller asked =>
    { g with
      gate := g.gate.accept_request
      requests := g.requests ++ [⟨caller, asked, .waiting⟩]
      acquires_handled := g.acquires_handled + 1 }
  | .RequestGateStatusRequest => { g with reports := g.reports ++ [g.gate.status] }
  | .Stop => { g with running := false, mailbox := [] }

/-- `pool.acquire().await` in the delegated task `i`. -/
def poll (g : Gate) (i : Nat) (r : Request) : Option Gate :=
  match g.gate.pool.acquire with
  | none => none
  | some (.ok pool) =>
    some { g with
      gate.pool := pool
      requests := g.requests.set i { r with phase := .granted }
      grants_made := g.grants_made + 1 }
  | some (.error .GateClosed) => some { g with requests := g.requests.set i { r with phase := .refused } }

/-- The delegated reply: the permit is the caller's, or dropped with the reply. -/
def reply (g : Gate) (i : Nat) (r : Request) : Gate :=
  if r.asked then { g with requests := g.requests.set i { r with phase := .answered }, held := g.held + 1 }
  else
    { g with
      requests := g.requests.set i { r with phase := .undelivered }
      gate.pool := g.gate.pool.drop_permit }

def step (g : Gate) : GateEvent → Option Gate
  | .send message => if g.running then some { g with mailbox := g.mailbox ++ [message] } else none
  | .handle =>
    match g.running, g.mailbox with
    | true, message :: rest => some ({ g with mailbox := rest }.handle message)
    | _, _ => none
  | .poll i =>
    match g.requests[i]? with
    | some r => if r.phase = .waiting then g.poll i r else none
    | none => none
  | .reply i =>
    match g.requests[i]? with
    | some r => if r.phase = .granted then some (g.reply i r) else none
    | none => none
  | .abandon caller =>
    some { g with mailbox := g.mailbox.map (·.abandon caller), requests := g.requests.map (·.abandon caller) }
  | .drop => if 0 < g.held then some { g with held := g.held - 1, gate.pool := g.gate.pool.drop_permit } else none

/-! ## What a step can do -/

/-- Each step, with its guard. -/
theorem step_cases {g g' : Gate} {event : GateEvent} (h : g.step event = some g') :
    (∃ message, event = .send message ∧ g.running = true ∧ g' = { g with mailbox := g.mailbox ++ [message] }) ∨
    (∃ message rest, event = .handle ∧ g.running = true ∧ g.mailbox = message :: rest ∧
      g' = { g with mailbox := rest }.handle message) ∨
    (∃ i r, event = .poll i ∧ g.requests[i]? = some r ∧ r.phase = .waiting ∧ g.poll i r = some g') ∨
    (∃ i r, event = .reply i ∧ g.requests[i]? = some r ∧ r.phase = .granted ∧ g' = g.reply i r) ∨
    (∃ caller, event = .abandon caller ∧ g' = { g with
      mailbox := g.mailbox.map (·.abandon caller), requests := g.requests.map (·.abandon caller) }) ∨
    (event = .drop ∧ 0 < g.held ∧ g' = { g with held := g.held - 1, gate.pool := g.gate.pool.drop_permit }) := by
  cases event with
  | send message =>
    simp only [step, Option.ite_none_right_eq_some, Option.some.injEq] at h
    exact .inl ⟨message, rfl, h.1, h.2.symm⟩
  | handle =>
    simp only [step] at h
    split at h
    · rename_i message rest hr hm
      exact .inr (.inl ⟨message, rest, rfl, hr, hm, (Option.some.inj h).symm⟩)
    · cases h
  | poll i =>
    simp only [step] at h
    split at h
    · rename_i r hr
      simp only [Option.ite_none_right_eq_some] at h
      exact .inr (.inr (.inl ⟨i, r, rfl, hr, h⟩))
    · cases h
  | reply i =>
    simp only [step] at h
    split at h
    · rename_i r hr
      simp only [Option.ite_none_right_eq_some, Option.some.injEq] at h
      exact .inr (.inr (.inr (.inl ⟨i, r, rfl, hr, h.1, h.2.symm⟩)))
    · cases h
  | abandon caller => exact .inr (.inr (.inr (.inr (.inl ⟨caller, rfl, (Option.some.inj h).symm⟩))))
  | drop =>
    simp only [step, Option.ite_none_right_eq_some, Option.some.injEq] at h
    exact .inr (.inr (.inr (.inr (.inr ⟨rfl, h.1, h.2.symm⟩))))

/-- An open semaphore grants a waiting task a permit if it has one. -/
theorem poll_open {g g' : Gate} {i : Nat} {r : Request} (hopen : g.gate.pool.semaphore.closed = false)
    (h : g.poll i r = some g') :
    0 < g.gate.pool.semaphore.permits ∧ g' = { g with
      gate.pool.semaphore.permits := g.gate.pool.semaphore.permits - 1
      requests := g.requests.set i { r with phase := .granted }
      grants_made := g.grants_made + 1 } := by
  unfold poll RequestPermitPool.acquire at h
  rw [hopen] at h
  by_cases h0 : g.gate.pool.semaphore.permits = 0
  · simp [h0] at h
  · simp only [Bool.false_eq_true, if_false, h0] at h
    exact ⟨Nat.pos_of_ne_zero h0, (Option.some.inj h).symm⟩

/-- Nothing closes the semaphore. -/
theorem closed_step {g g' : Gate} {event : GateEvent} (hopen : g.gate.pool.semaphore.closed = false)
    (h : g.step event = some g') : g'.gate.pool.semaphore.closed = false := by
  rcases step_cases h with ⟨m, -, -, rfl⟩ | ⟨m, rest, -, -, -, rfl⟩ | ⟨i, r, -, -, -, hp⟩ |
    ⟨i, r, -, -, -, rfl⟩ | ⟨caller, -, rfl⟩ | ⟨-, -, rfl⟩
  · exact hopen
  · cases m <;> exact hopen
  · obtain ⟨-, rfl⟩ := poll_open hopen hp
    exact hopen
  · unfold reply
    split <;> exact hopen
  · exact hopen
  · exact hopen

/-! ## Conservation -/

/-- The requests in a phase. -/
def count (g : Gate) (phase : Phase) : Nat := g.requests.countP fun r => r.phase = phase

theorem count_set {g : Gate} {i : Nat} {r : Request} (h : g.requests[i]? = some r) (phase p : Phase) :
    (g.requests.set i { r with phase := p }).countP (fun r => r.phase = phase) + (if r.phase = phase then 1 else 0) =
      g.count phase + if p = phase then 1 else 0 := by
  simpa [count] using countP_set_row (fun r : Request => decide (r.phase = phase)) h (b := { r with phase := p })

theorem count_abandon (requests : List Request) (caller : Nat) (phase : Phase) :
    (requests.map (·.abandon caller)).countP (fun r => r.phase = phase) = requests.countP fun r => r.phase = phase := by
  rw [List.countP_map]; rfl

/-- A status report that accounts for every permit handed out. -/
def Sound (limit : RequestConcurrencyLimit) (report : RequestGateStatus) : Prop :=
  report.available_permit_count ≤ limit.count ∧
    limit.count - report.available_permit_count ≤ report.accepted_request_count.toNat

/-- What holds of the gate in every state it reaches. -/
structure Inv (limit : RequestConcurrencyLimit) (g : Gate) : Prop where
  limit_eq : g.gate.pool.limit = limit
  limit_le : limit.count ≤ Semaphore.MAX_PERMITS
  never_closed : g.gate.pool.semaphore.closed = false
  conserved : g.gate.pool.semaphore.permits + (g.count .granted + g.held) = limit.count
  accepted : g.gate.accepted_request_count.toNat = min (2 ^ 64 - 1) g.acquires_handled
  handled : g.requests.length = g.acquires_handled
  granted : g.grants_made = g.count .granted + g.count .answered + g.count .undelivered
  held_le : g.held ≤ g.count .answered
  reports : ∀ report ∈ g.reports, Sound limit report

theorem grants_le {limit : RequestConcurrencyLimit} {g : Gate} (hi : Inv limit g) :
    g.grants_made ≤ g.acquires_handled := by
  have hsub : g.count .granted + g.count .answered + g.count .undelivered ≤ g.requests.length := by
    simp only [count]
    induction g.requests with
    | nil => simp
    | cons r rs ih =>
      simp only [List.countP_cons, List.length_cons]
      rcases r with ⟨_, _, _ | _ | _ | _ | _⟩ <;> simp <;> omega
  rw [hi.granted, ← hi.handled]
  exact hsub

/-- Every permit out was granted to an acquire that was counted, and there are
fewer permits than the counter can hold. -/
theorem status_sound {limit : RequestConcurrencyLimit} {g : Gate} (hi : Inv limit g) : Sound limit g.gate.status := by
  have hc := hi.conserved
  have hg := hi.granted
  have hl := hi.held_le
  have hm := hi.limit_le
  have ha := hi.accepted
  have hn := grants_le hi
  simp only [Sound, RequestGate.status, RequestPermitPool.available_permit_count, Semaphore.MAX_PERMITS] at hm ⊢
  omega

theorem inv_start {limit : RequestConcurrencyLimit} {g : Gate} (h : start limit = some g) : Inv limit g := by
  simp only [start, RequestGate.new, RequestPermitPool.new, Semaphore.new, Option.map_eq_some_iff] at h
  obtain ⟨_, ⟨_, ⟨_, hs, rfl⟩, rfl⟩, rfl⟩ := h
  simp only [Option.ite_none_right_eq_some, Option.some.injEq] at hs
  obtain ⟨hle, rfl⟩ := hs
  exact ⟨rfl, hle, rfl, by simp [count], rfl, rfl, by simp [count], by simp, by simp⟩

theorem inv_handle {limit : RequestConcurrencyLimit} {g : Gate} (hi : Inv limit g) (message : Message) :
    Inv limit (g.handle message) := by
  cases message with
  | AcquireRequestPermit caller asked =>
    refine { hi with conserved := ?_, accepted := ?_, handled := ?_, granted := ?_, held_le := ?_ }
    · simpa [handle, count, RequestGate.accept_request] using hi.conserved
    · exact UInt64.saturating_succ_toNat hi.accepted
    · simp [handle, hi.handled]
    · simpa [handle, count] using hi.granted
    · simpa [handle, count] using hi.held_le
  | RequestGateStatusRequest =>
    refine { hi with reports := ?_ }
    intro report hm
    simp only [handle, List.mem_append, List.mem_singleton] at hm
    rcases hm with hm | rfl
    · exact hi.reports report hm
    · exact status_sound hi
  | Stop => exact { hi with }

theorem inv_poll {limit : RequestConcurrencyLimit} {g g' : Gate} {i : Nat} {r : Request} (hi : Inv limit g)
    (hr : g.requests[i]? = some r) (hw : r.phase = .waiting) (h : g.poll i r = some g') : Inv limit g' := by
  obtain ⟨hpos, rfl⟩ := poll_open hi.never_closed h
  have hg := count_set hr .granted .granted
  have ha := count_set hr .answered .granted
  have hu := count_set hr .undelivered .granted
  simp only [hw, reduceCtorEq, if_false, if_true, Nat.add_zero] at hg ha hu
  have hc := hi.conserved
  have hm := hi.granted
  have hl := hi.held_le
  refine ⟨hi.limit_eq, hi.limit_le, hi.never_closed, ?_, hi.accepted, ?_, ?_, ?_, hi.reports⟩
  · simp only [count] at hg hc ⊢; omega
  · simpa using hi.handled
  · simp only [count] at hg ha hu hm ⊢; omega
  · simp only [count] at ha hl ⊢; omega

theorem inv_reply {limit : RequestConcurrencyLimit} {g : Gate} {i : Nat} {r : Request} (hi : Inv limit g)
    (hr : g.requests[i]? = some r) (hp : r.phase = .granted) : Inv limit (g.reply i r) := by
  have hc := hi.conserved
  have hm := hi.granted
  have hl := hi.held_le
  unfold reply
  split
  · have hg := count_set hr .granted .answered
    have ha := count_set hr .answered .answered
    have hu := count_set hr .undelivered .answered
    simp only [hp, reduceCtorEq, if_false, if_true, Nat.add_zero] at hg ha hu
    refine ⟨hi.limit_eq, hi.limit_le, hi.never_closed, ?_, hi.accepted, ?_, ?_, ?_, hi.reports⟩
    · simp only [count] at hg hc ⊢; omega
    · simpa using hi.handled
    · simp only [count] at hg ha hu hm ⊢; omega
    · simp only [count] at ha hl ⊢; omega
  · have hg := count_set hr .granted .undelivered
    have ha := count_set hr .answered .undelivered
    have hu := count_set hr .undelivered .undelivered
    simp only [hp, reduceCtorEq, if_false, if_true, Nat.add_zero] at hg ha hu
    refine ⟨hi.limit_eq, hi.limit_le, hi.never_closed, ?_, hi.accepted, ?_, ?_, ?_, hi.reports⟩
    · simp only [count, RequestPermitPool.drop_permit] at hg hc ⊢; omega
    · simpa using hi.handled
    · simp only [count] at hg ha hu hm ⊢; omega
    · simp only [count] at ha hl ⊢; omega

theorem inv_step {limit : RequestConcurrencyLimit} {g g' : Gate} {event : GateEvent} (hi : Inv limit g)
    (h : g.step event = some g') : Inv limit g' := by
  rcases step_cases h with ⟨m, -, -, rfl⟩ | ⟨m, rest, -, -, -, rfl⟩ | ⟨i, r, -, hr, hw, hp⟩ |
    ⟨i, r, -, hr, hp, rfl⟩ | ⟨caller, -, rfl⟩ | ⟨-, hpos, rfl⟩
  · exact { hi with }
  · exact inv_handle (g := { g with mailbox := rest }) { hi with } m
  · exact inv_poll hi hr hw hp
  · exact inv_reply hi hr hp
  · have hc := fun phase => count_abandon g.requests caller phase
    refine { hi with conserved := ?_, handled := ?_, granted := ?_, held_le := ?_ }
    · simpa only [count, hc] using hi.conserved
    · simpa using hi.handled
    · simpa only [count, hc] using hi.granted
    · simpa only [count, hc] using hi.held_le
  · have hc := hi.conserved
    have hl := hi.held_le
    refine { hi with conserved := ?_, held_le := ?_ }
    · simp only [count, RequestPermitPool.drop_permit] at hc ⊢; omega
    · simp only [count] at hl ⊢; omega

theorem reaches_inv {limit : RequestConcurrencyLimit} {g₀ g : Gate} (h₀ : start limit = some g₀)
    (hr : Reaches step g₀ g) : Inv limit g :=
  hr.invariant (Inv limit) (fun _ _ _ hi h => inv_step hi h) (inv_start h₀)

/-! ## The mailbox never waits for a permit -/

theorem step_handle {g : Gate} {message : Message} {rest : List Message} (hr : g.running = true)
    (hm : g.mailbox = message :: rest) : g.step .handle = some ({ g with mailbox := rest }.handle message) := by
  simp [step, hr, hm]

/-- The messages in the mailbox are handled one after the other, whatever the
semaphore holds and however many tasks wait for it. -/
theorem handle_through (before : List Message) (g : Gate) (rest : List Message) (hr : g.running = true)
    (hstop : Message.Stop ∉ before) (hm : g.mailbox = before ++ Message.RequestGateStatusRequest :: rest) :
    ∃ g' report, exec step g (List.replicate (before.length + 1) .handle) = some g' ∧
      g'.reports.getLast? = some report := by
  induction before generalizing g with
  | nil =>
    exact ⟨_, g.gate.status, exec_cons.2 ⟨_, step_handle hr hm, rfl⟩, by simp [handle]⟩
  | cons m before ih =>
    rw [List.cons_append] at hm
    simp only [List.mem_cons, not_or] at hstop
    have hnext : ({ g with mailbox := before ++ Message.RequestGateStatusRequest :: rest }.handle m).running = true ∧
        ({ g with mailbox := before ++ Message.RequestGateStatusRequest :: rest }.handle m).mailbox =
          before ++ Message.RequestGateStatusRequest :: rest := by
      cases m with
      | Stop => exact absurd rfl hstop.1
      | _ => exact ⟨hr, rfl⟩
    obtain ⟨g', report, hexec, hlast⟩ := ih _ hnext.1 hstop.2 hnext.2
    exact ⟨g', report, exec_cons.2 ⟨_, step_handle hr hm, hexec⟩, hlast⟩

/-- In every state the gate reaches: no permit is lost or made, the acquire
messages are counted (up to `u64::MAX`) and each grant answers one of them. A
status request in the mailbox of a running gate is reached and answered by
handling messages alone, and every report accounts for the permits. -/
theorem gate_conserves_permits (limit : RequestConcurrencyLimit) (g₀ g : Gate) (h₀ : start limit = some g₀)
    (hr : Reaches step g₀ g) :
    g.gate.pool.available_permit_count + (g.count .granted + g.held) = limit.count ∧
    g.gate.accepted_request_count.toNat = min (2 ^ 64 - 1) g.acquires_handled ∧
    g.grants_made ≤ g.acquires_handled ∧
    (g.running = true → ∀ before rest, Message.Stop ∉ before →
      g.mailbox = before ++ Message.RequestGateStatusRequest :: rest →
      ∃ g' report, exec step g (List.replicate (before.length + 1) .handle) = some g' ∧
        g'.reports.getLast? = some report ∧ Sound limit report) ∧
    ∀ report ∈ g.reports, Sound limit report := by
  have hi := reaches_inv h₀ hr
  refine ⟨hi.conserved, hi.accepted, grants_le hi, ?_, hi.reports⟩
  intro hrun before rest hstop hm
  obtain ⟨g', report, hexec, hlast⟩ := handle_through before g rest hrun hstop hm
  have hi' := reaches_inv h₀ (hr.trans ⟨_, hexec⟩)
  exact ⟨g', report, hexec, hlast, hi'.reports report (List.mem_of_getLast? hlast)⟩

/-- The smallest limit, one permit. -/
def one : RequestConcurrencyLimit := ⟨1, Nat.one_pos⟩

/-- A gate of one permit before its first message. -/
def fresh : Gate := ⟨⟨⟨one, ⟨1, false⟩⟩, 0⟩, true, [], [], 0, [], 0, 0⟩

/-- Caller 0 holds the permit, caller 1 waits, a status request is queued. -/
def oneHeld : Gate :=
  ⟨⟨⟨one, ⟨0, false⟩⟩, 2⟩, true, [.RequestGateStatusRequest], [⟨0, true, .answered⟩, ⟨1, true, .waiting⟩], 1, [],
    2, 1⟩

theorem reaches_oneHeld : Reaches step fresh oneHeld :=
  ⟨[.send (.AcquireRequestPermit 0 true), .handle, .send (.AcquireRequestPermit 1 true), .poll 0, .handle, .reply 0,
    .send .RequestGateStatusRequest], rfl⟩

theorem gate_conserves_permits_oneHeld :
    start one = some fresh ∧ Reaches step fresh oneHeld ∧
      oneHeld.gate.pool.available_permit_count + (oneHeld.count .granted + oneHeld.held) = 1 :=
  ⟨rfl, reaches_oneHeld, (gate_conserves_permits one fresh oneHeld rfl reaches_oneHeld).1⟩

/-! ## After the gate has shut down -/

/-- The acquire `i` has been answered with a permit. -/
def Answered (g : Gate) (i : Nat) : Prop := ∃ r : Request, g.requests[i]? = some r ∧ r.phase = .answered

/-- From here on no acquire is answered with a permit, and each request still
waiting is answered with `GateClosed` when its task is next polled. -/
def ShutsAdmission (g : Gate) : Prop :=
  ∀ g', Reaches step g g' →
    (∀ i, g'.Answered i → g.Answered i) ∧
    (∀ (i : Nat) (r r' : Request), g.requests[i]? = some r → r.asked = true → r.phase = .waiting →
      g'.requests[i]? = some r' → r'.asked = true → r'.phase = .waiting →
      ∃ (g'' : Gate) (r'' : Request), step g' (.poll i) = some g'' ∧ g''.requests[i]? = some r'' ∧ r''.phase = .refused)

/-- No caller still waits for an answer. -/
def Drained (g : Gate) : Prop := ∀ r ∈ g.requests, r.asked = true → r.phase ≠ .waiting ∧ r.phase ≠ .granted

/-- A stopped gate where nobody waits stays so, and answers nobody. -/
structure Shut (g g' : Gate) : Prop where
  stopped : g'.running = false
  drained : g'.Drained
  same : ∀ i, g'.Answered i → g.Answered i

theorem drained_set {g : Gate} (hd : g.Drained) {i : Nat} {r : Request} (hr : g.requests[i]? = some r)
    (hw : r.phase = .waiting ∨ r.phase = .granted) (p : Phase) :
    r.asked = false ∧ ∀ x ∈ g.requests.set i { r with phase := p },
      x.asked = true → x.phase ≠ .waiting ∧ x.phase ≠ .granted := by
  have hn : r.asked = false := by
    by_contra ha
    obtain ⟨h1, h2⟩ := hd r (List.mem_of_getElem? hr) (by simpa using ha)
    rcases hw with hw | hw
    · exact h1 hw
    · exact h2 hw
  refine ⟨hn, fun x hx ha => ?_⟩
  rcases mem_set_row hx with hx | rfl
  · exact hd x hx ha
  · simp [hn] at ha

/-- A row changed to a phase other than `answered` answers nobody new. -/
theorem same_set {g g' : Gate} (hs : Shut g g') {i : Nat} {r : Request} {p : Phase} (hp : p ≠ .answered) :
    ∀ j, (∃ r', (g'.requests.set i { r with phase := p })[j]? = some r' ∧ r'.phase = .answered) → g.Answered j := by
  rintro j ⟨r', hj, ha⟩
  rcases getElem?_set_row hj with ⟨-, rfl⟩ | ⟨-, hj⟩
  · exact absurd ha hp
  · exact hs.same j ⟨r', hj, ha⟩

theorem shut_step {g g' g'' : Gate} {event : GateEvent} (hopen : g'.gate.pool.semaphore.closed = false)
    (hs : Shut g g') (h : g'.step event = some g'') : Shut g g'' := by
  rcases step_cases h with ⟨m, -, hrun, -⟩ | ⟨m, rest, -, hrun, -, -⟩ | ⟨i, r, -, hr, hw, hp⟩ |
    ⟨i, r, -, hr, hp, rfl⟩ | ⟨caller, -, rfl⟩ | ⟨-, hpos, rfl⟩
  · rw [hs.stopped] at hrun; cases hrun
  · rw [hs.stopped] at hrun; cases hrun
  · obtain ⟨-, rfl⟩ := poll_open hopen hp
    exact ⟨hs.stopped, (drained_set hs.drained hr (.inl hw) _).2, same_set hs (by simp)⟩
  · obtain ⟨hn, hd⟩ := drained_set hs.drained hr (.inr hp) .undelivered
    have hreply : g'.reply i r = { g' with
        requests := g'.requests.set i { r with phase := .undelivered }
        gate.pool := g'.gate.pool.drop_permit } := if_neg (by simp [hn])
    rw [hreply]
    exact ⟨hs.stopped, hd, same_set hs (by simp)⟩
  · refine ⟨hs.stopped, ?_, ?_⟩
    · intro x hx ha
      obtain ⟨r, hr, rfl⟩ := List.mem_map.1 hx
      simp only [Request.abandon, Bool.and_eq_true] at ha ⊢
      exact hs.drained r hr ha.1
    · rintro j ⟨r', hj, ha⟩
      simp only [List.getElem?_map, Option.map_eq_some_iff] at hj
      obtain ⟨r, hr, rfl⟩ := hj
      exact hs.same j ⟨r, hr, ha⟩
  · exact ⟨hs.stopped, hs.drained, hs.same⟩

/-- A gate that has shut down keeps its admission shut exactly when no caller
was still waiting for an answer: nothing ever closes the semaphore, so a task
left waiting can only be answered with a permit. -/
theorem shuts_admission_iff (limit : RequestConcurrencyLimit) (g₀ g : Gate) (h₀ : start limit = some g₀)
    (hr : Reaches step g₀ g) (hstop : g.running = false) : g.ShutsAdmission ↔ g.Drained := by
  have hi := reaches_inv h₀ hr
  constructor
  · intro hshut r hmem ha
    obtain ⟨i, hget⟩ := List.getElem?_of_mem hmem
    constructor
    · intro hw
      obtain ⟨-, hrefuse⟩ := hshut g (.refl g)
      obtain ⟨g'', r'', hpoll, hget'', href⟩ := hrefuse i r r hget ha hw hget ha hw
      simp only [step, hget, hw, if_true] at hpoll
      obtain ⟨-, rfl⟩ := poll_open hi.never_closed hpoll
      obtain ⟨hlt, -⟩ := List.getElem?_eq_some_iff.1 hget
      simp only [List.getElem?_set_self hlt, Option.some.injEq] at hget''
      subst hget''
      cases href
    · intro hg
      have hreply : step g (.reply i) = some (g.reply i r) := by simp [step, hget, hg]
      obtain ⟨hnew, -⟩ := hshut _ (.of_step hreply)
      obtain ⟨hlt, -⟩ := List.getElem?_eq_some_iff.1 hget
      obtain ⟨r₁, hr₁, hp₁⟩ := hnew i ⟨{ r with phase := .answered }, by simp [reply, ha, hlt], rfl⟩
      rw [hget] at hr₁
      cases hr₁
      rw [hg] at hp₁
      cases hp₁
  · intro hd g' hg'
    have hs : Shut g g' ∧ g'.gate.pool.semaphore.closed = false := by
      refine hg'.invariant (fun x => Shut g x ∧ x.gate.pool.semaphore.closed = false) ?_ ?_
      · rintro x event y ⟨hs, hopen⟩ h
        exact ⟨shut_step hopen hs h, closed_step hopen h⟩
      · exact ⟨⟨hstop, hd, fun _ ha => ha⟩, hi.never_closed⟩
    refine ⟨hs.1.same, fun i r r' hget ha hw => ?_⟩
    exact absurd hw (hd r (List.mem_of_getElem? hget) ha).1

/-- `oneHeld`, stopped while caller 1 still waits. -/
def stoppedWaiting : Gate :=
  ⟨⟨⟨one, ⟨0, false⟩⟩, 2⟩, false, [], [⟨0, true, .answered⟩, ⟨1, true, .waiting⟩], 1,
    [⟨one, 0, 2⟩], 2, 1⟩

theorem reaches_stoppedWaiting : Reaches step fresh stoppedWaiting :=
  reaches_oneHeld.trans ⟨[.send .Stop, .handle, .handle], rfl⟩

/-- The gate has shut down, caller 0 drops its permit, and caller 1 gets it. -/
theorem admission_after_shutdown :
    ¬ ∀ (limit : RequestConcurrencyLimit) (g₀ g : Gate), start limit = some g₀ → Reaches step g₀ g →
      g.running = false → g.ShutsAdmission := by
  intro hclaim
  obtain ⟨hnew, -⟩ := hclaim one fresh stoppedWaiting rfl reaches_stoppedWaiting rfl
    (⟨⟨⟨one, ⟨0, false⟩⟩, 2⟩, false, [], [⟨0, true, .answered⟩, ⟨1, true, .answered⟩], 1, [⟨one, 0, 2⟩], 2, 2⟩)
    ⟨[.drop, .poll 1, .reply 1], rfl⟩
  obtain ⟨r, hr, ha⟩ := hnew 1 ⟨⟨1, true, .answered⟩, rfl, rfl⟩
  simp only [stoppedWaiting, List.getElem?_cons_succ, List.getElem?_cons_zero, Option.some.injEq] at hr
  subst hr
  cases ha

/-- `oneHeld` once more, with caller 1 gone before the stop. -/
def stoppedAlone : Gate :=
  ⟨⟨⟨one, ⟨0, false⟩⟩, 2⟩, false, [], [⟨0, true, .answered⟩, ⟨1, false, .waiting⟩], 1,
    [⟨one, 0, 2⟩], 2, 1⟩

theorem shuts_admission_stoppedAlone :
    start one = some fresh ∧ Reaches step fresh stoppedAlone ∧ stoppedAlone.ShutsAdmission := by
  have hr : Reaches step fresh stoppedAlone :=
    reaches_oneHeld.trans ⟨[.abandon 1, .send .Stop, .handle, .handle], rfl⟩
  refine ⟨rfl, hr, (shuts_admission_iff one fresh stoppedAlone rfl hr rfl).2 ?_⟩
  intro r hm ha
  simp only [stoppedAlone, List.mem_cons, List.not_mem_nil, or_false] at hm
  rcases hm with rfl | rfl
  · exact ⟨by simp, by simp⟩
  · cases ha

end Gate

end TriadRuntime
