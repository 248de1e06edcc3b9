import TriadRuntime.Isolation
import TriadRuntime.Systems.Progress
/-!
# Everybody is served (`async_runtime.rs`, `tcp.rs`)

The gates and the async listeners never go round in circles: every step of a
gate, of an accept loop or of a handler brings some request nearer to its end,
so a run is no longer than what clients, callers and failures brought into it.
Where such a system comes to rest, nothing is left over: no message unread, no
request without its answer, no client that has connected and not been served.

Trusted: a permit that is held is dropped at some time, and a handler that has
begun ends at some time; both are among the steps a system at rest has not left.
-/

open Systems

namespace TriadRuntime

/-! ## Gates -/

/-- How far a delegated acquire is from its answer. -/
def Phase.toil : Phase → Nat
  | .waiting => 3
  | .granted => 2
  | _ => 0

namespace GateEvent

/-- What an event takes off the gate's toil. -/
def lowers : GateEvent → Nat
  | .handle | .poll _ => 1
  | .reply _ => 2
  | _ => 0

/-- What a message adds to it. -/
def raises : GateEvent → Nat
  | .send _ => 5
  | _ => 0

/-- The steps of the actor and of the tasks it has delegated to. -/
def Serves : GateEvent → Prop
  | .handle | .poll _ | .reply _ => True
  | _ => False

/-- These, and the drop of a permit by who holds it. -/
def Finishes (event : GateEvent) : Prop := event.Serves ∨ event = .drop

/-- What the callers bring into a run. -/
def brings : GateEvent → Nat
  | .send _ => 6
  | .abandon _ => 1
  | _ => 0

end GateEvent

namespace Gate

def toil (g : Gate) : Nat := 5 * g.mailbox.length + (g.requests.map (·.phase.toil)).sum

theorem toil_set {g : Gate} {i : Nat} {r : Request} (h : g.requests[i]? = some r) (p : Phase) :
    ((g.requests.set i { r with phase := p }).map (·.phase.toil)).sum + r.phase.toil =
      (g.requests.map (·.phase.toil)).sum + p.toil :=
  sum_set_row (fun r : Request => r.phase.toil) h

theorem toil_step {g g' : Gate} {event : GateEvent} (hopen : g.gate.pool.semaphore.closed = false)
    (h : g.step event = some g') : g'.toil + event.lowers ≤ g.toil + event.raises := by
  rcases step_cases h with ⟨m, rfl, -, rfl⟩ | ⟨m, rest, rfl, -, hm, rfl⟩ | ⟨i, r, rfl, hr, hp, hpoll⟩ |
    ⟨i, r, rfl, hr, hp, rfl⟩ | ⟨caller, rfl, rfl⟩ | ⟨rfl, -, rfl⟩
  · simp only [toil, List.length_append, List.length_singleton, GateEvent.lowers, GateEvent.raises]
    omega
  · cases m with
    | AcquireRequestPermit caller asked =>
      simp only [toil, handle, sum_snoc, hm, List.length_cons, Phase.toil, GateEvent.lowers, GateEvent.raises]
      omega
    | RequestGateStatusRequest =>
      simp only [toil, handle, hm, List.length_cons, GateEvent.lowers, GateEvent.raises]
      omega
    | Stop =>
      simp only [toil, handle, hm, List.length_cons, List.length_nil, GateEvent.lowers, GateEvent.raises]
      omega
  · obtain ⟨-, rfl⟩ := poll_open hopen hpoll
    have := toil_set hr .granted
    simp only [toil, hp, Phase.toil, GateEvent.lowers, GateEvent.raises] at *
    omega
  · have hanswered := toil_set hr .answered
    have hundelivered := toil_set hr .undelivered
    unfold reply
    split <;> simp only [toil, hp, Phase.toil, GateEvent.lowers, GateEvent.raises] at * <;> omega
  · simp only [toil, List.length_map, List.map_map, GateEvent.lowers, GateEvent.raises]
    exact Nat.le_refl _
  · exact Nat.le_refl _

/-- The gate's toil and the permits that are still to be dropped. -/
def potential (g : Gate) : Nat := g.toil + g.held

theorem potential_step {g g' : Gate} {event : GateEvent} (hopen : g.gate.pool.semaphore.closed = false)
    (h : g.step event = some g') : g'.potential + 1 ≤ g.potential + event.brings := by
  have htoil := toil_step hopen h
  have hheld := held_step hopen h
  unfold potential
  cases event with
  | reply i =>
    have : g'.held ≤ g.held + 1 := by
      rw [hheld]
      simp only [heldAfter]
      split <;> omega
    simp only [GateEvent.lowers, GateEvent.raises, GateEvent.brings] at *
    omega
  | drop =>
    obtain ⟨hpos, -⟩ : 0 < g.held ∧ _ = g' := by
      simpa only [step, Option.ite_none_right_eq_some, Option.some.injEq] using h
    simp only [GateEvent.lowers, GateEvent.raises, GateEvent.brings, heldAfter] at *
    omega
  | _ =>
    simp only [GateEvent.lowers, GateEvent.raises, GateEvent.brings, heldAfter] at *
    omega

/-- A gate that has stopped has no mail, a reply goes astray only where the
caller has given up, and nobody is refused. -/
structure Tidy (g : Gate) : Prop where
  mailbox : g.running = false → g.mailbox = []
  undelivered : ∀ r ∈ g.requests, r.phase = .undelivered → r.asked = false
  refused : ∀ r ∈ g.requests, r.phase ≠ .refused

theorem tidy_set {g : Gate} (ht : g.Tidy) {i : Nat} {r : Request}
    (hu : r.phase = .undelivered → r.asked = false) (hr : r.phase ≠ .refused) :
    ∀ x ∈ g.requests.set i r, (x.phase = .undelivered → x.asked = false) ∧ x.phase ≠ .refused := by
  intro x hx
  rcases mem_set_row hx with hx | rfl
  · exact ⟨ht.undelivered x hx, ht.refused x hx⟩
  · exact ⟨hu, hr⟩

theorem tidy_step {g g' : Gate} {event : GateEvent} (hopen : g.gate.pool.semaphore.closed = false) (ht : g.Tidy)
    (h : g.step event = some g') : g'.Tidy := by
  rcases step_cases h with ⟨m, rfl, hrun, rfl⟩ | ⟨m, rest, rfl, hrun, hm, rfl⟩ | ⟨i, r, rfl, hr, hp, hpoll⟩ |
    ⟨i, r, rfl, hr, hp, rfl⟩ | ⟨caller, rfl, rfl⟩ | ⟨rfl, -, rfl⟩
  · have hruns : g.running ≠ false := by simp [hrun]
    exact ⟨fun hstop => absurd hstop hruns, ht.undelivered, ht.refused⟩
  · have hruns : g.running ≠ false := by simp [hrun]
    cases m with
    | AcquireRequestPermit caller asked =>
      refine ⟨fun hstop => absurd hstop hruns, fun x hx hu => ?_, fun x hx => ?_⟩
      · rcases List.mem_append.1 hx with hx | hx
        · exact ht.undelivered x hx hu
        · rw [List.mem_singleton.1 hx] at hu
          cases hu
      · rcases List.mem_append.1 hx with hx | hx
        · exact ht.refused x hx
        · rw [List.mem_singleton.1 hx]
          simp
    | RequestGateStatusRequest =>
      exact ⟨fun hstop => absurd hstop hruns, ht.undelivered, ht.refused⟩
    | Stop => exact ⟨fun _ => rfl, ht.undelivered, ht.refused⟩
  · obtain ⟨-, rfl⟩ := poll_open hopen hpoll
    have hset := tidy_set ht (i := i) (r := { r with phase := .granted }) (by simp) (by simp)
    exact ⟨ht.mailbox, fun x hx => (hset x hx).1, fun x hx => (hset x hx).2⟩
  · unfold reply
    split
    · have hset := tidy_set ht (i := i) (r := { r with phase := .answered }) (by simp) (by simp)
      exact ⟨ht.mailbox, fun x hx => (hset x hx).1, fun x hx => (hset x hx).2⟩
    · rename_i hasked
      have hset := tidy_set ht (i := i) (r := { r with phase := .undelivered }) (fun _ => by simpa using hasked)
        (by simp)
      exact ⟨ht.mailbox, fun x hx => (hset x hx).1, fun x hx => (hset x hx).2⟩
  · refine ⟨fun hstop => by simp [ht.mailbox hstop], fun x hx hu => ?_, fun x hx => ?_⟩
    · obtain ⟨r, hr, rfl⟩ := List.mem_map.1 hx
      simp [Request.abandon, ht.undelivered r hr hu]
    · obtain ⟨r, hr, rfl⟩ := List.mem_map.1 hx
      exact ht.refused r hr
  · exact ⟨ht.mailbox, ht.undelivered, ht.refused⟩

/-- A gate that has nothing to do has read its mail and sent the permits it has
granted; it has a request waiting only if every permit is out. -/
theorem rest_serves {limit : RequestConcurrencyLimit} {g : Gate} (hi : Inv limit g) (ht : g.Tidy)
    (hrest : AtRest step GateEvent.Serves g) :
    g.mailbox = [] ∧ (∀ r ∈ g.requests, r.phase ≠ .granted) ∧
      ∀ r ∈ g.requests, r.phase = .waiting → g.held = limit.count := by
  have hgranted : ∀ r ∈ g.requests, r.phase ≠ .granted := by
    intro r hm hp
    obtain ⟨i, hr⟩ := List.mem_iff_getElem?.1 hm
    have := hrest (.reply i) trivial
    simp [step, hr, hp] at this
  refine ⟨?_, hgranted, fun r hm hp => ?_⟩
  · cases hrun : g.running with
    | false => exact ht.mailbox hrun
    | true =>
      have := hrest .handle trivial
      cases hm : g.mailbox with
      | nil => rfl
      | cons m rest => simp [step, hrun, hm] at this
  · obtain ⟨i, hr⟩ := List.mem_iff_getElem?.1 hm
    have hpoll := hrest (.poll i) trivial
    have hnone : g.gate.pool.semaphore.permits = 0 := by
      by_contra hpos
      simp [step, hr, hp, poll, RequestPermitPool.acquire, hi.never_closed, hpos] at hpoll
    have hzero : g.count .granted = 0 := by
      rw [count, List.countP_eq_zero]
      intro x hx
      simpa using hgranted x hx
    have := hi.conserved
    omega

/-- In whatever order callers, actor and delegated tasks move, a run is no
longer than the messages and the abandoned asks allow. A gate that has nothing
to do keeps a request waiting only while every permit is held by some caller;
and when the held permits have been dropped too, every acquire it has handled
has been answered with a permit, unless its caller had given up, and every
permit is free. -/
theorem every_acquire_answered (limit : RequestConcurrencyLimit) (g₀ g : Gate) (events : List GateEvent)
    (h₀ : start limit = some g₀) (h : exec step g₀ events = some g) :
    events.length ≤ 6 * events.countP (fun event => event matches .send _) +
      events.countP (fun event => event matches .abandon _) ∧
    (∃ more t, (∀ event ∈ more, event.Finishes) ∧ exec step g more = some t ∧ AtRest step GateEvent.Finishes t) ∧
    (AtRest step GateEvent.Serves g →
      g.mailbox = [] ∧ ∀ r ∈ g.requests, r.phase = .waiting → g.held = limit.count) ∧
    (AtRest step GateEvent.Finishes g →
      g.gate.pool.available_permit_count = limit.count ∧ g.requests.length = g.acquires_handled ∧
      ∀ r ∈ g.requests, r.phase = .answered ∨ (r.phase = .undelivered ∧ r.asked = false)) := by
  have hI : ∀ (g : Gate) event g', Inv limit g ∧ g.Tidy → g.step event = some g' → Inv limit g' ∧ g'.Tidy :=
    fun g event g' hi hstep => ⟨inv_step hi.1 hstep, tidy_step hi.1.never_closed hi.2 hstep⟩
  have hinit : Inv limit g₀ ∧ g₀.Tidy ∧ g₀.potential = 0 := by
    refine ⟨inv_start h₀, ?_⟩
    simp only [start, Option.map_eq_some_iff] at h₀
    obtain ⟨gate, -, rfl⟩ := h₀
    exact ⟨⟨fun _ => rfl, by simp, by simp⟩, rfl⟩
  obtain ⟨hi, ht⟩ := exec_invariant (fun g => Inv limit g ∧ g.Tidy) hI h ⟨hinit.1, hinit.2.1⟩
  refine ⟨?_, ?_, fun hrest => ?_, fun hrest => ?_⟩
  · have hlen := exec_length_le potential GateEvent.brings _ hI
      (fun g event g' hi hstep => potential_step hi.1.never_closed hstep) h ⟨hinit.1, hinit.2.1⟩
    rw [sum_two_kinds (p := fun event => event matches .send _) (q := fun event => event matches .abandon _) (c := 6)
      (d := 1) (fun event => by cases event <;> rfl), hinit.2.2] at hlen
    omega
  · apply comes_to_rest potential GateEvent.Finishes _ hI ?_ ⟨hi, ht⟩
    intro g event g' hi hown hstep
    have := potential_step hi.1.never_closed hstep
    have hzero : event.brings = 0 := by
      rcases hown with hserves | rfl
      · cases event <;> first | rfl | cases hserves
      · rfl
    omega
  · obtain ⟨hmail, -, hwaiting⟩ := rest_serves hi ht hrest
    exact ⟨hmail, hwaiting⟩
  · obtain ⟨-, hgranted, hwaiting⟩ := rest_serves hi ht (hrest.mono fun _ hl => .inl hl)
    have hheld : g.held = 0 := by
      have := hrest .drop (.inr rfl)
      by_contra hpos
      simp [step, Nat.pos_of_ne_zero hpos] at this
    have hzero : g.count .granted = 0 := by
      rw [count, List.countP_eq_zero]
      intro x hx
      simpa using hgranted x hx
    have hcons := hi.conserved
    have hlimit := limit.pos
    refine ⟨by simp only [RequestPermitPool.available_permit_count]; omega, hi.handled, fun r hm => ?_⟩
    cases hp : r.phase with
    | waiting => have := hwaiting r hm hp; omega
    | granted => exact absurd hp (hgranted r hm)
    | answered => exact .inl rfl
    | undelivered => exact .inr ⟨rfl, ht.undelivered r hm hp⟩
    | refused => exact absurd hp (ht.refused r hm)

/-- An acquire is answered, and its permit dropped again. -/
def oneServed : List GateEvent := [.send (.AcquireRequestPermit 0 true), .handle, .poll 0, .reply 0, .drop]

theorem every_acquire_answered_oneServed : ∃ g, exec step fresh oneServed = some g ∧ oneServed.length ≤ 6 ∧
    (AtRest step GateEvent.Finishes g → g.gate.pool.available_permit_count = 1) := by
  obtain ⟨hlen, -, -, hrest⟩ := every_acquire_answered one fresh _ oneServed rfl rfl
  exact ⟨_, rfl, hlen, fun h => (hrest h).1⟩

/-- A gate that has not been told to stop, with `n` acquires before their
answers, whose callers wait for them. -/
structure Asked (n : Nat) (g : Gate) : Prop where
  running : g.running = true
  mail : ∀ m ∈ g.mailbox, m = .AcquireRequestPermit 0 true
  asked : ∀ r ∈ g.requests, r.asked = true
  count : g.mailbox.length + g.requests.countP (fun r => r.phase = .waiting || r.phase = .granted) = n

theorem asked_send {n : Nat} {g g' : Gate} (ha : g.Asked n) (h : g.step (.send (.AcquireRequestPermit 0 true)) = some g') :
    g'.Asked (n + 1) := by
  simp only [step, ha.running, if_true, Option.some.injEq] at h
  subst h
  refine ⟨rfl, fun m hm => ?_, ha.asked, ?_⟩
  · rcases List.mem_append.1 hm with hm | hm
    · exact ha.mail m hm
    · exact List.mem_singleton.1 hm
  · have := ha.count
    simp only [List.length_append, List.length_singleton]
    omega

theorem asked_handle {n : Nat} {g g' : Gate} (ha : g.Asked n) (h : g.step .handle = some g') : g'.Asked n := by
  obtain ⟨m, rest, hm, rfl⟩ : ∃ m rest, g.mailbox = m :: rest ∧ g' = { g with mailbox := rest }.handle m := by
    rcases step_cases h with ⟨m, he, -⟩ | ⟨m, rest, -, -, hm, rfl⟩ | ⟨i, r, he, -⟩ | ⟨i, r, he, -⟩ | ⟨c, he, -⟩ | ⟨he, -⟩
    · cases he
    · exact ⟨m, rest, hm, rfl⟩
    all_goals cases he
  obtain rfl : m = .AcquireRequestPermit 0 true := ha.mail m (by simp [hm])
  refine ⟨ha.running, fun x hx => ha.mail x (by rw [hm]; exact List.mem_cons_of_mem _ hx), fun r hr => ?_, ?_⟩
  · rcases List.mem_append.1 hr with hr | hr
    · exact ha.asked r hr
    · rw [List.mem_singleton.1 hr]
  · have := ha.count
    rw [hm, List.length_cons] at this
    simp only [handle, List.countP_append, List.countP_singleton, decide_true, Bool.true_or, if_true]
    omega

theorem asked_poll {n : Nat} {g g' : Gate} {i : Nat} (hopen : g.gate.pool.semaphore.closed = false) (ha : g.Asked n)
    (h : g.step (.poll i) = some g') : g'.Asked n := by
  simp only [step] at h
  split at h
  · rename_i r hr
    simp only [Option.ite_none_right_eq_some] at h
    obtain ⟨hp, hpoll⟩ := h
    obtain ⟨-, rfl⟩ := poll_open hopen hpoll
    refine ⟨ha.running, ha.mail, fun x hx => ?_, ?_⟩
    · rcases mem_set_row hx with hx | rfl
      · exact ha.asked x hx
      · exact ha.asked r (List.mem_of_getElem? hr)
    · rw [countP_set_same _ hr (by simp [hp])]
      exact ha.count
  · cases h

theorem asked_reply {n : Nat} {g g' : Gate} {i : Nat} (ha : g.Asked (n + 1)) (h : g.step (.reply i) = some g') :
    g'.Asked n := by
  simp only [step] at h
  split at h
  · rename_i r hr
    simp only [Option.ite_none_right_eq_some, Option.some.injEq] at h
    obtain ⟨hp, rfl⟩ := h
    have hasked := ha.asked r (List.mem_of_getElem? hr)
    rw [reply, if_pos hasked]
    refine ⟨ha.running, ha.mail, fun x hx => ?_, ?_⟩
    · rcases mem_set_row hx with hx | rfl
      · exact ha.asked x hx
      · exact hasked
    · have hcount := countP_set_row (fun r : Request => decide (r.phase = .waiting) || decide (r.phase = .granted)) hr
        (b := { r with phase := .answered })
      have := ha.count
      simp only [hp, decide_true, Bool.or_true, if_true, reduceCtorEq, decide_false, Bool.or_self, Bool.false_eq_true,
        if_false] at hcount
      simp only
      omega
  · cases h

theorem asked_drop {n : Nat} {g g' : Gate} (ha : g.Asked n) (h : g.step .drop = some g') : g'.Asked n := by
  simp only [step, Option.ite_none_right_eq_some, Option.some.injEq] at h
  obtain ⟨-, rfl⟩ := h
  exact ⟨ha.running, ha.mail, ha.asked, ha.count⟩

end Gate

/-! ## Listeners -/

/-- How far a loop is from taking the next stream. -/
def LoopPhase.toil : LoopPhase → Nat
  | .accepted _ => 9
  | .admitted _ => 4
  | .asking _ => 3
  | _ => 0

def HandlerPhase.toil : HandlerPhase → Nat
  | .spawned => 2
  | .running => 1
  | .finished _ => 0

/-- How far a handler is from its end, and its permit from its return. -/
def Handler.toil {ι : Type*} (h : Handler ι) : Nat := h.phase.toil + if h.permit then 1 else 0

/-- What clients, failures and the shell bring into a run. -/
def ListenerEvent.brings : ListenerEvent → Nat
  | .connect _ => 11
  | .accept_fails | .context_fails | .permit_fails | .panics | .cancel | .stop_gate => 6
  | _ => 0

namespace Listener

variable {ι : Type*}

def toil (l : Listener ι) : Nat :=
  10 * l.pending.length + l.gate.toil + l.loop.toil + (l.handlers.map Handler.toil).sum

theorem toil_set {l : Listener ι} {k : Nat} {h : Handler ι} (hk : l.handlers[k]? = some h) (h' : Handler ι) :
    ((l.handlers.set k h').map Handler.toil).sum + h.toil = (l.handlers.map Handler.toil).sum + h'.toil :=
  sum_set_row Handler.toil hk

theorem toil_step {l l' : Listener ι} {event : ListenerEvent} (hopen : l.gate.gate.pool.semaphore.closed = false)
    (h : l.step event = some l') : l'.toil + 1 ≤ l.toil + event.brings := by
  have hgate := fun {event : GateEvent} {gate : Gate} (hg : l.gate.step event = some gate) => Gate.toil_step hopen hg
  cases step_moves h with
  | connect stream =>
    simp only [toil, List.length_append, List.length_singleton, ListenerEvent.brings]
    omega
  | accept stream rest hloop hp =>
    simp only [toil, hloop, hp, LoopPhase.toil, List.length_cons, ListenerEvent.brings]
    omega
  | fails event error hfail hloop =>
    have : event.brings = 6 := by cases event <;> first | rfl | cases hfail
    simp only [toil, LoopPhase.toil]
    omega
  | ask stream gate hloop hg =>
    have := hgate hg
    simp only [toil, hloop, LoopPhase.toil, GateEvent.lowers, GateEvent.raises, ListenerEvent.brings] at *
    omega
  | handles gate hg =>
    have := hgate hg
    simp only [toil, GateEvent.lowers, GateEvent.raises, ListenerEvent.brings] at *
    omega
  | polls i gate hg =>
    have := hgate hg
    simp only [toil, GateEvent.lowers, GateEvent.raises, ListenerEvent.brings] at *
    omega
  | admits i stream r gate hloop hr ha hg =>
    have := hgate hg
    simp only [toil, hloop, LoopPhase.toil, GateEvent.lowers, GateEvent.raises, ListenerEvent.brings] at *
    omega
  | unread i r gate hr ha hg =>
    have := hgate hg
    simp only [toil, GateEvent.lowers, GateEvent.raises, ListenerEvent.brings] at *
    omega
  | spawn stream hloop =>
    simp only [toil, spawn_connection, sum_snoc, hloop, LoopPhase.toil, Handler.toil, HandlerPhase.toil, if_true,
      ListenerEvent.brings]
    omega
  | begins k hd hk hp =>
    have := toil_set hk { hd with phase := .running }
    simp only [toil, set_handler, Handler.toil, hp, HandlerPhase.toil, ListenerEvent.brings] at *
    omega
  | parts k hd gate hk hperm hp hg =>
    have := hgate hg
    have := toil_set hk { hd with permit := false }
    simp only [toil, set_handler, Handler.toil, hperm, if_true, Bool.false_eq_true, if_false, GateEvent.lowers,
      GateEvent.raises, ListenerEvent.brings] at *
    omega
  | ends k hd outcome passed_on gate hk hp hperm hg =>
    have := hgate hg
    have := toil_set hk { hd with permit := false, phase := .finished outcome }
    simp only [toil, set_handler, Handler.toil, hp, hperm, HandlerPhase.toil, if_true, Bool.false_eq_true, if_false,
      GateEvent.lowers, GateEvent.raises, ListenerEvent.brings] at *
    omega
  | ends_without k hd outcome passed_on hk hp =>
    have := toil_set hk { hd with phase := .finished outcome }
    simp only [toil, set_handler, Handler.toil, hp, HandlerPhase.toil, ListenerEvent.brings] at *
    omega
  | drops stream gate hloop hg =>
    have := hgate hg
    simp only [toil, hloop, LoopPhase.toil, GateEvent.lowers, GateEvent.raises, ListenerEvent.brings] at *
    omega
  | abandons gate hloop hg =>
    have := hgate hg
    simp only [toil, LoopPhase.toil, GateEvent.lowers, GateEvent.raises, ListenerEvent.brings] at *
    omega
  | stops gate hg =>
    have := hgate hg
    simp only [toil, GateEvent.lowers, GateEvent.raises, ListenerEvent.brings] at *
    omega
  | stopped hg =>
    simp only [ListenerEvent.brings]
    omega

end Listener

/-- The asks a loop has out. -/
def LoopPhase.asks : LoopPhase → Nat
  | .asking _ => 1
  | _ => 0

/-- Whose client an event connects. -/
def ListenerEvent.connects : ListenerEvent → List Stream
  | .connect stream => [stream]
  | _ => []

namespace Listener

variable {ι : Type*}

/-- The loop of a listener goes on, and has its own asks out, no others. -/
structure Serving (l : Listener ι) : Prop where
  asked : l.gate.Asked l.loop.asks
  going : l.loop ≠ .cancelled ∧ ∀ error, l.loop ≠ .failed error

theorem serving_step {limit : RequestConcurrencyLimit} {l l' : Listener ι} {event : ListenerEvent} (hi : Inv limit l)
    (hs : l.Serving) (hcancel : event ≠ .cancel) (hstop : event ≠ .stop_gate) (h : l.step event = some l') :
    l'.Serving ∨ ∃ error, l'.loop = .failed error := by
  obtain ⟨ha, hgoing⟩ := hs
  have hopen := hi.gate.never_closed
  cases step_moves h with
  | connect stream => exact .inl ⟨ha, hgoing⟩
  | accept stream rest hloop hp =>
    rw [hloop] at ha
    exact .inl ⟨ha, by simp⟩
  | fails event error hfail hloop => exact .inr ⟨error, rfl⟩
  | ask stream gate hloop hg =>
    rw [hloop] at ha
    exact .inl ⟨Gate.asked_send ha hg, by simp⟩
  | handles gate hg => exact .inl ⟨Gate.asked_handle ha hg, hgoing⟩
  | polls i gate hg => exact .inl ⟨Gate.asked_poll hopen ha hg, hgoing⟩
  | admits i stream r gate hloop hr hasked hg =>
    rw [hloop] at ha
    exact .inl ⟨Gate.asked_reply ha hg, by simp⟩
  | unread i r gate hr hasked hg =>
    rw [ha.asked r (List.mem_of_getElem? hr)] at hasked
    cases hasked
  | spawn stream hloop =>
    rw [hloop] at ha
    exact .inl ⟨ha, by simp [spawn_connection]⟩
  | begins k hd hk hp => exact .inl ⟨ha, hgoing⟩
  | parts k hd gate hk hperm hp hg => exact .inl ⟨Gate.asked_drop ha hg, hgoing⟩
  | ends k hd outcome passed_on gate hk hp hperm hg => exact .inl ⟨Gate.asked_drop ha hg, hgoing⟩
  | ends_without k hd outcome passed_on hk hp => exact .inl ⟨ha, hgoing⟩
  | drops => exact absurd rfl hcancel
  | abandons => exact absurd rfl hcancel
  | stops => exact absurd rfl hstop
  | stopped => exact absurd rfl hstop

/-- Every client that has connected has been accepted or is in the queue. -/
theorem arrived_step {l l' : Listener ι} {event : ListenerEvent} (h : l.step event = some l') :
    l'.accepted ++ l'.pending = l.accepted ++ l.pending ++ event.connects := by
  cases step_moves h with
  | connect stream => simp [ListenerEvent.connects]
  | accept stream rest hloop hp => simp [ListenerEvent.connects, hp]
  | fails event error hfail hloop =>
    have : event.connects = [] := by cases event <;> first | rfl | cases hfail
    simp [this]
  | _ => simp [ListenerEvent.connects, set_handler, spawn_connection]

/-- What a listener has left when nothing but a client can move it on. -/
structure Idles (limit : RequestConcurrencyLimit) (l : Listener ι) : Prop where
  loop : l.loop = .accepting
  pending : l.pending = []
  handled : l.handlers.map (·.stream) = l.accepted
  finished : ∀ h ∈ l.handlers, h.phase.isFinished = true ∧ h.permit = false
  home : l.gate.gate.pool.available_permit_count = limit.count

/-- At rest the handlers of a listener are through, and have their permits back. -/
theorem rest_handlers {limit : RequestConcurrencyLimit} {l : Listener ι} (hi : Inv limit l)
    (hrest : AtRest step (fun event => event.brings = 0) l) {h : Handler ι} (hm : h ∈ l.handlers) :
    h.phase.isFinished = true ∧ h.permit = false := by
  obtain ⟨k, hk⟩ := List.mem_iff_getElem?.1 hm
  have hdrop : h.permit = true → ∀ h', ((l.set_handler k h').drop_permit).isSome = true := by
    intro hp h'
    have : 0 < l.handlers.countP (·.permit) := List.countP_pos_iff.2 ⟨h, hm, hp⟩
    have hheld : 0 < l.gate.held := by have := hi.held; omega
    simp [drop_permit, gate_step, set_handler, Gate.step, hheld]
  have hfinished : h.phase.isFinished = true := by
    cases hp : h.phase with
    | spawned => have := hrest (.handler_begins k) rfl; simp [step, hk, hp] at this
    | running =>
      have hends := hrest (.handler_ends k .Ok false) rfl
      simp only [step, hk, hp, if_true] at hends
      split at hends
      · rename_i hperm
        have := hdrop (by simpa using hperm) { h with permit := false, phase := .finished .Ok }
        rw [hends] at this
        cases this
      · cases hends
    | finished outcome => rfl
  refine ⟨hfinished, ?_⟩
  by_contra hperm
  have hp : h.phase ≠ .spawned := by rintro hp; rw [hp] at hfinished; cases hfinished
  have hparts := hrest (.into_parts k) rfl
  have hsome := hdrop (by simpa using hperm) { h with permit := false }
  simp only [step, hk, show h.permit = true by simpa using hperm, hp, ne_eq, not_false_eq_true, and_self, if_true] at hparts
  rw [hparts] at hsome
  cases hsome

theorem rest_idles {limit : RequestConcurrencyLimit} {l : Listener ι} (hi : Inv limit l) (hs : l.Serving)
    (hrest : AtRest step (fun event => event.brings = 0) l) : Idles limit l := by
  have hhandlers := fun h hm => rest_handlers hi hrest (h := h) hm
  have hnone : l.handlers.countP (·.permit) = 0 := by
    rw [List.countP_eq_zero]
    intro h hm
    simp [(hhandlers h hm).2]
  have hheld := hi.held
  have hcons := hi.gate.conserved
  have hlimit := limit.pos
  have hloop : l.loop = .accepting := by
    cases hloop : l.loop with
    | accepting => rfl
    | accepted stream =>
      have := hrest .ask rfl
      simp [step, hloop, gate_step, Gate.step, hs.asked.running] at this
    | admitted stream => have := hrest .spawn rfl; simp [step, hloop] at this
    | failed error => exact absurd hloop (hs.going.2 error)
    | cancelled => exact absurd hloop hs.going.1
    | asking stream =>
      -- Its ask is in the mailbox, waits for a permit, or has been granted one.
      have hone := hs.asked.count
      have hhand : l.inHand = 0 := by simp [inHand, hloop]
      rw [hloop] at hone
      change _ = 1 at hone
      have hmail : l.gate.mailbox = [] := by
        cases hm : l.gate.mailbox with
        | nil => rfl
        | cons m rest =>
          have := hrest .gate_handles rfl
          simp [step, gate_step, Gate.step, hs.asked.running, hm] at this
      rw [hmail, List.length_nil, Nat.zero_add] at hone
      obtain ⟨r, hm, hp⟩ := List.countP_pos_iff.1 (Nat.lt_of_lt_of_eq Nat.one_pos hone.symm)
      obtain ⟨i, hr⟩ := List.mem_iff_getElem?.1 hm
      have hgranted : ∀ r ∈ l.gate.requests, r.phase ≠ .granted := by
        intro r hm hp
        obtain ⟨i, hr⟩ := List.mem_iff_getElem?.1 hm
        have := hrest (.gate_replies i) rfl
        simp [step, hr, hloop, gate_step, Gate.step, hp] at this
      have hwaiting : r.phase = .waiting := by
        rw [Bool.or_eq_true, decide_eq_true_eq, decide_eq_true_eq] at hp
        exact hp.resolve_right (hgranted r hm)
      have hzero : l.gate.count .granted = 0 := by
        rw [Gate.count, List.countP_eq_zero]
        intro x hx
        simpa using hgranted x hx
      have hpos : l.gate.gate.pool.semaphore.permits ≠ 0 := by omega
      have := hrest (.gate_polls i) rfl
      simp [step, gate_step, Gate.step, hr, hwaiting, Gate.poll, RequestPermitPool.acquire, hi.gate.never_closed,
        hpos] at this
  have hpending : l.pending = [] := by
    cases hp : l.pending with
    | nil => rfl
    | cons stream rest => have := hrest .accept rfl; simp [step, hloop, hp] at this
  have hhand : l.inHand = 0 := by simp [inHand, hloop]
  refine ⟨hloop, hpending, ?_, hhandlers, ?_⟩
  · obtain ⟨rest, hacc, hrest⟩ := hi.order
    rw [hloop] at hrest
    rw [hacc, hrest, List.append_nil]
  · have hone := hs.asked.count
    rw [hloop] at hone
    change _ = 0 at hone
    have hgranted : l.gate.count .granted = 0 := by
      have : l.gate.count .granted ≤ l.gate.requests.countP (fun r => r.phase = .waiting || r.phase = .granted) := by
        apply List.countP_mono_left
        intro r _ hp
        simp [of_decide_eq_true hp]
      omega
    simp only [RequestPermitPool.available_permit_count]
    omega

end Listener

/-! ## Shells -/

def ShellEvent.brings : ShellEvent → Nat
  | .listener _ event => event.brings
  | _ => 6

/-- The steps that accept loops, gates and handlers take by themselves. -/
def ShellEvent.Own (event : ShellEvent) : Prop := event.brings = 0

/-- The clients that connect to listener `j`. -/
def ShellEvent.connects (j : Nat) : ShellEvent → List Stream
  | .listener i event => if i = j then event.connects else []
  | _ => []

def BoundAsyncListener.toil {ι : Type*} (a : BoundAsyncListener ι) : Nat :=
  a.loop.toil + (a.handlers.map Handler.toil).sum

namespace Shell

variable {ι : Type*}

def toil (s : Shell ι) : Nat :=
  (s.sockets.map fun pending => 10 * pending.length).sum + (s.gates.map Gate.toil).sum +
    (s.listeners.map BoundAsyncListener.toil).sum

theorem toil_put {s : Shell ι} {j : Nat} {l : Listener ι} (hv : s.view j = some l) (l' : Listener ι) :
    (s.put j l').toil + l.toil = s.toil + l'.toil := by
  obtain ⟨a, ha, hp, hg, -, hloop, hhandlers, -⟩ := view_some.1 hv
  rw [put_eq ha]
  have hsocket := sum_set_row (fun pending : List Stream => 10 * pending.length) hp (b := l'.pending)
  have hgate := sum_set_row Gate.toil hg (b := l'.gate)
  have hlistener := sum_set_row BoundAsyncListener.toil ha
    (b := { a with loop := l'.loop, handlers := l'.handlers, accepted := l'.accepted })
  simp only [toil, Listener.toil, BoundAsyncListener.toil, hloop, hhandlers] at *
  omega

theorem toil_step {limit : RequestConcurrencyLimit} {s t : Shell ι} {event : ShellEvent} (hi : Inv limit s)
    (h : s.step event = some t) : t.toil + 1 ≤ s.toil + event.brings := by
  rcases step_cases h with ⟨ok, rfl, -, rfl⟩ | ⟨j, e, l, l', rfl, hv, -, hl, rfl⟩ | ⟨failure, hp, -, rfl⟩ |
    ⟨failure, told, l, l', rfl, hp, hv, hl, rfl⟩ | ⟨ok, failure, told, rfl, -, -, rfl⟩
  · change s.toil + 1 ≤ s.toil + 6
    omega
  · have hput := toil_put hv l'
    have hstep := Listener.toil_step (hi.listener j l hv).gate.never_closed hl
    change (s.put j l').toil + 1 ≤ s.toil + e.brings
    omega
  · -- The loops are joined, which no listener does.
    have hbrings : event.brings = 6 := by
      cases event with
      | listener j e =>
        obtain ⟨l, l', -, -, -, ht⟩ := step_listener.1 h
        have := congrArg Shell.phase ht
        simp [put_phase, hp] at this
      | _ => rfl
    rw [hbrings]
    change s.toil + 1 ≤ s.toil + 6
    omega
  · have hput := toil_put hv l'
    have hstep := Listener.toil_step (hi.listener told l hv).gate.never_closed hl
    change (s.put told l').toil + 1 ≤ s.toil + 6
    change l'.toil + 1 ≤ l.toil + 6 at hstep
    omega
  · change s.toil + 1 ≤ s.toil + 6
    omega

theorem toil_fold {limit : RequestConcurrencyLimit} (rest : List ι) {s t : Shell ι}
    (h : rest.foldlM (bind_listener limit) s = some t) : t.toil = s.toil := by
  induction rest generalizing s with
  | nil => cases h; rfl
  | cons listener rest ih =>
    simp only [List.foldlM_cons, Option.bind_eq_bind, Option.bind_eq_some_iff] at h
    obtain ⟨u, hu, h⟩ := h
    simp only [bind_listener, Gate.start, Option.map_eq_some_iff] at hu
    obtain ⟨gate, ⟨_, -, rfl⟩, rfl⟩ := hu
    rw [ih h]
    simp [toil, Gate.toil, BoundAsyncListener.toil, LoopPhase.toil]

theorem toil_bind {kind : ShellKind} {limit : RequestConcurrencyLimit} {listeners : List ι} {s : Shell ι}
    (h : bind kind limit listeners = some s) : s.toil = 0 :=
  toil_fold listeners h

/-- As long as the loops are not joined, each goes on or has failed. -/
def Going (s : Shell ι) : Prop :=
  s.phase = .bound ∨ s.phase = .serving →
    ∀ j l, s.view j = some l → l.Serving ∨ ∃ error, l.loop = .failed error

theorem going_bind {kind : ShellKind} {limit : RequestConcurrencyLimit} {listeners : List ι} {s : Shell ι}
    (h : bind kind limit listeners = some s) : s.Going := by
  intro _ j l hv
  obtain ⟨listener, gate, -, hg, rfl⟩ := bind_view h hv
  simp only [Gate.start, Option.map_eq_some_iff] at hg
  obtain ⟨_, _, rfl⟩ := hg
  exact .inl ⟨⟨rfl, by simp, by simp, rfl⟩, by simp⟩

/-- A loop that has failed stays as it is. -/
theorem failed_step {l l' : Listener ι} {event : ListenerEvent} {error : ServeError} (hf : l.loop = .failed error)
    (h : l.step event = some l') : ∃ error, l'.loop = .failed error := by
  cases Listener.step_moves h with
  | fails event error' => exact ⟨error', rfl⟩
  | accept stream rest hloop => rw [hf] at hloop; cases hloop
  | ask stream gate hloop => rw [hf] at hloop; cases hloop
  | admits i stream r gate hloop => rw [hf] at hloop; cases hloop
  | spawn stream hloop => rw [hf] at hloop; cases hloop
  | drops stream gate hloop => rw [hf] at hloop; cases hloop
  | abandons gate hloop hg => simp [Listener.step, hf] at h
  | _ => exact ⟨error, hf⟩

theorem going_step {limit : RequestConcurrencyLimit} {s t : Shell ι} {event : ShellEvent} (hi : Inv limit s)
    (hgo : s.Going) (h : s.step event = some t) : t.Going := by
  rcases step_cases h with ⟨ok, rfl, hp, rfl⟩ | ⟨j, e, l, l', rfl, hv, hallows, hl, rfl⟩ | ⟨failure, -, -, rfl⟩ |
    ⟨failure, told, l, l', rfl, -, -, -, rfl⟩ | ⟨ok, failure, told, rfl, -, -, rfl⟩
  · exact fun _ => hgo (.inl hp)
  · intro hphase k x hx
    change (s.put j l').phase = .bound ∨ (s.put j l').phase = .serving at hphase
    rw [put_phase] at hphase
    change (s.put j l').view k = some x at hx
    by_cases hkj : k = j
    · subst hkj
      rw [view_put_self hv (Listener.step_keeps_listener hl)] at hx
      cases hx
      have hcancel : e ≠ .cancel := by
        rintro rfl
        rcases hphase with hp | hp <;> simp [allows, aborted, hp] at hallows
      have hstop : e ≠ .stop_gate := by
        rintro rfl
        cases hallows
      rcases hgo hphase k l hv with hserving | ⟨error, hf⟩
      · exact Listener.serving_step (hi.listener k l hv) hserving hcancel hstop hl
      · exact .inr (failed_step hf hl)
    · rw [view_put_other hi.apart hkj] at hx
      exact hgo hphase k x hx
  · rintro (hp | hp) <;> cases hp
  · rintro (hp | hp) <;> cases hp
  · rintro (hp | hp) <;> cases hp

/-- Who has connected to a listener is with it, and in the order of the run. -/
theorem arrived_step {s t : Shell ι} {event : ShellEvent} (ha : s.Apart) (h : s.step event = some t) {j : Nat}
    {l' : Listener ι} (hv' : t.view j = some l') :
    ∃ l, s.view j = some l ∧ l'.accepted ++ l'.pending = l.accepted ++ l.pending ++ event.connects j := by
  have hput : ∀ (i : Nat) (x x' : Listener ι) (e : ListenerEvent), s.view i = some x → x.step e = some x' →
      (s.put i x').view j = some l' →
      ∃ l, s.view j = some l ∧ l'.accepted ++ l'.pending =
        l.accepted ++ l.pending ++ if i = j then e.connects else [] := by
    intro i x x' e hv hx hl'
    by_cases hji : j = i
    · subst hji
      rw [view_put_self hv (Listener.step_keeps_listener hx)] at hl'
      cases hl'
      exact ⟨x, hv, by simpa using Listener.arrived_step hx⟩
    · rw [view_put_other ha hji] at hl'
      exact ⟨l', hl', by simp [Ne.symm hji]⟩
  rcases step_cases h with ⟨ok, rfl, -, rfl⟩ | ⟨i, e, x, x', rfl, hv, -, hx, rfl⟩ | ⟨failure, hp, -, rfl⟩ |
    ⟨failure, told, x, x', rfl, -, hv, hx, rfl⟩ | ⟨ok, failure, told, rfl, -, -, rfl⟩
  · exact ⟨l', hv', by simp [ShellEvent.connects]⟩
  · exact hput i x x' e hv hx hv'
  · refine ⟨l', hv', ?_⟩
    have hnone : event.connects j = [] := by
      cases event with
      | listener i e =>
        obtain ⟨x, x', -, -, -, ht⟩ := step_listener.1 h
        have := congrArg Shell.phase ht
        simp [put_phase, hp] at this
      | _ => rfl
    simp [hnone]
  · obtain ⟨l, hl, harr⟩ := hput told x x' .stop_gate hv hx hv'
    exact ⟨l, hl, by simpa [ShellEvent.connects, ListenerEvent.connects] using harr⟩
  · exact ⟨l', hv', by simp [ShellEvent.connects]⟩

theorem arrived_run {limit : RequestConcurrencyLimit} {s t : Shell ι} {events : List ShellEvent} (hi : Inv limit s)
    (h : exec step s events = some t) {j : Nat} {l' : Listener ι} (hv' : t.view j = some l') :
    ∃ l, s.view j = some l ∧
      l'.accepted ++ l'.pending = l.accepted ++ l.pending ++ events.flatMap (ShellEvent.connects j) := by
  induction events generalizing s with
  | nil =>
    cases h
    exact ⟨l', hv', by simp⟩
  | cons event events ih =>
    obtain ⟨u, hu, hrest⟩ := exec_cons.1 h
    obtain ⟨x, hx, hmore⟩ := ih (inv_step hi hu) hrest
    obtain ⟨l, hl, hfirst⟩ := arrived_step hi.apart hu hx
    refine ⟨l, hl, ?_⟩
    rw [hmore, hfirst, List.flatMap_cons, List.append_assoc]

/-- A shell at rest leaves its listeners at rest. -/
theorem rest_listener {s : Shell ι} (hp : s.phase = .serving) (hrest : AtRest step ShellEvent.Own s) {j : Nat}
    {l : Listener ι} (hv : s.view j = some l) : AtRest Listener.step (fun event => event.brings = 0) l := by
  intro e hown
  have hallows : s.allows e = true := by
    cases e <;> first | (simp [allows, loops_run, hp]; done) | cases hown
  by_contra hsome
  obtain ⟨l', hl⟩ := Option.ne_none_iff_exists'.1 hsome
  have hnone := hrest (.listener j e) hown
  rw [step_listener.2 ⟨l, l', hv, hallows, hl, rfl⟩] at hnone
  cases hnone

/-- However the loops, gates and handlers of a shell are interleaved, a run is
no longer than the clients that connect and the failures and calls from outside
allow. Left to itself the shell comes to rest, and a shell that still serves is
at rest only when every listener that has not failed has accepted everybody who
connected to it, in the order they came, has handed each to the runtime and had
each handled, and has all its permits back. -/
theorem serves_every_client (kind : ShellKind) (limit : RequestConcurrencyLimit) (listeners : List ι) (s₀ s : Shell ι)
    (events : List ShellEvent) (h₀ : bind kind limit listeners = some s₀) (h : exec step s₀ events = some s) :
    events.length ≤ 11 * events.countP (fun event => event matches .listener _ (.connect _)) +
      6 * events.countP (fun event => event.brings = 6) ∧
    (∃ more t, (∀ event ∈ more, event.Own) ∧ exec step s more = some t ∧ AtRest step ShellEvent.Own t) ∧
    (s.phase = .serving → AtRest step ShellEvent.Own s →
      ∀ j l, s.view j = some l → (∀ error, l.loop ≠ .failed error) →
        Listener.Idles limit l ∧ l.accepted = events.flatMap (ShellEvent.connects j) ∧
          ∀ stream ∈ l.accepted, .handle_connection l.listener stream ∈ s.calls) := by
  have hi := exec_invariant (Inv limit) (fun _ _ _ hi hstep => inv_step hi hstep) h (inv_bind h₀)
  have hgo := (exec_invariant (fun s => Inv limit s ∧ s.Going)
    (fun _ _ _ hi hstep => ⟨inv_step hi.1 hstep, going_step hi.1 hi.2 hstep⟩) h ⟨inv_bind h₀, going_bind h₀⟩).2
  have hcalled := exec_invariant Called (fun _ _ _ hc hstep => called_step hc hstep) h (called_bind h₀)
  refine ⟨?_, ?_, fun hp hrest j l hv hgoing => ?_⟩
  · have hlen := exec_length_le toil ShellEvent.brings (Inv limit) (fun _ _ _ hi hstep => inv_step hi hstep)
      (fun _ _ _ hi hstep => toil_step hi hstep) h (inv_bind h₀)
    have hkinds : ∀ event : ShellEvent, event.brings =
        (if event matches .listener _ (.connect _) then 11 else 0) + if decide (event.brings = 6) then 6 else 0 := by
      intro event
      cases event with
      | listener j e => cases e <;> rfl
      | _ => rfl
    rw [sum_two_kinds hkinds, toil_bind h₀] at hlen
    omega
  · apply comes_to_rest toil ShellEvent.Own (Inv limit) (fun _ _ _ hi hstep => inv_step hi hstep) ?_ hi
    intro s event t hi hown hstep
    have := toil_step hi hstep
    rw [hown] at this
    omega
  · have hserving : l.Serving := by
      rcases hgo (.inr hp) j l hv with hserving | ⟨error, hf⟩
      · exact hserving
      · exact absurd hf (hgoing error)
    have hidles := Listener.rest_idles (hi.listener j l hv) hserving (rest_listener hp hrest hv)
    refine ⟨hidles, ?_, fun stream hm => ?_⟩
    · obtain ⟨l₀, hl₀, harr⟩ := arrived_run (inv_bind h₀) h hv
      obtain ⟨listener, gate, -, -, rfl⟩ := bind_view h₀ hl₀
      simpa [hidles.pending] using harr
    · rw [← hidles.handled] at hm
      obtain ⟨hd, hhd, rfl⟩ := List.mem_map.1 hm
      have hbegun : (l.listener, hd.stream) ∈ s.begun := by
        obtain ⟨a, ha, -, -, -, -, hhandlers, -⟩ := view_some.1 hv
        refine List.mem_flatMap.2 ⟨a, List.mem_of_getElem? ha, List.mem_flatMap.2 ⟨hd, hhandlers ▸ hhd, ?_⟩⟩
        have hns : hd.phase ≠ .spawned := by
          intro hp
          have := (hidles.finished hd hhd).1
          rw [hp] at this
          cases this
        rw [Handler.begun, if_neg hns, ((hi.listener j l hv).identity hd hhd).1]
        exact List.mem_singleton.2 rfl
      obtain ⟨call, hcall, hhandled⟩ := List.mem_filterMap.1 (hcalled.mem_iff.2 hbegun)
      cases call with
      | handle_connection listener stream => cases hhandled; exact hcall
      | start => cases hhandled
      | stop => cases hhandled

/-- A client of the second listener is served. -/
def servedRun : List ShellEvent :=
  [.start true, .listener 1 (.connect 7), .listener 1 .accept, .listener 1 .ask, .listener 1 .gate_handles,
    .listener 1 (.gate_polls 0), .listener 1 (.gate_replies 0), .listener 1 .spawn, .listener 1 (.handler_begins 0),
    .listener 1 (.handler_ends 0 .Ok false)]

theorem serves_every_client_servedRun : ∃ s₀ s, bind .Multi Gate.one [false, true] = some s₀ ∧
    exec step s₀ servedRun = some s ∧ servedRun.length ≤ 17 ∧ s.phase = .serving ∧
    ∃ more t, (∀ event ∈ more, ShellEvent.Own event) ∧ exec step s more = some t ∧ AtRest step ShellEvent.Own t := by
  obtain ⟨hlen, hmore, -⟩ := serves_every_client .Multi Gate.one [false, true] _ _ servedRun rfl rfl
  exact ⟨_, _, rfl, rfl, hlen, rfl, hmore⟩

end Shell

end TriadRuntime
