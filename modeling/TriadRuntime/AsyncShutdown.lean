import TriadRuntime.AsyncProgress
import TriadRuntime.Cleanup
import TriadRuntime.ServeNext
/-!
# The async shells come to an end (`async_runtime.rs`, `tcp.rs`)

Once a listener has failed, `serve_connections` aborts the loops of the others,
every gate is told to stop, and `runtime.stop()` is called when all have shut
down. None of these steps waits for another in a circle: a run ends, and then
nothing is left running, waiting or lent, and no socket file is left behind.

Trusted: an aborted task is dropped where it stands, at any later time.
-/

open Systems

namespace TriadRuntime

/-! ## Gates that are told to stop -/

namespace Gate

/-- The gate has shut down, or will when it has read its mail. -/
def GoesDown (g : Gate) : Prop := g.running = true → .Stop ∈ g.mailbox

theorem goesDown_told (g : Gate) : ((g.step (.send .Stop)).getD g).GoesDown := by
  by_cases hrun : g.running = true
  · intro _
    simp [step, hrun]
  · intro h
    simp [step, hrun] at h

theorem goesDown_step {g g' : Gate} {event : GateEvent} (hopen : g.gate.pool.semaphore.closed = false)
    (hd : g.GoesDown) (h : g.step event = some g') : g'.GoesDown := by
  rcases step_cases h with ⟨m, -, hrun, rfl⟩ | ⟨m, rest, -, hrun, hm, rfl⟩ | ⟨i, r, -, -, -, hp⟩ |
    ⟨i, r, -, -, -, rfl⟩ | ⟨caller, -, rfl⟩ | ⟨-, -, rfl⟩
  · exact fun _ => List.mem_append_left _ (hd hrun)
  · have hmail := hd hrun
    rw [hm] at hmail
    cases m with
    | AcquireRequestPermit caller asked => exact fun _ => (List.mem_cons.1 hmail).resolve_left nofun
    | RequestGateStatusRequest => exact fun _ => (List.mem_cons.1 hmail).resolve_left nofun
    -- The actor takes `Stop`, and has shut down.
    | Stop => exact fun hruns => by cases hruns
  · obtain ⟨-, rfl⟩ := poll_open hopen hp
    exact hd
  · unfold reply
    split <;> exact hd
  · exact fun hrun => List.mem_map.2 ⟨.Stop, hd hrun, rfl⟩
  · exact hd

/-- Every ask is by caller 0. -/
structure OneCaller (g : Gate) : Prop where
  mailbox : ∀ m ∈ g.mailbox, m.anonymous = m
  requests : ∀ r ∈ g.requests, r.caller = 0

theorem anonymous_abandon {m : Message} (h : m.anonymous = m) (caller : Nat) :
    (m.abandon caller).anonymous = m.abandon caller := by
  cases m with
  | AcquireRequestPermit c asked =>
    cases h
    rfl
  | RequestGateStatusRequest => rfl
  | Stop => rfl

theorem oneCaller_step {g g' : Gate} {event : GateEvent} (hopen : g.gate.pool.semaphore.closed = false)
    (ho : g.OneCaller) (hown : event.anonymous = event) (h : g.step event = some g') :
    g'.OneCaller := by
  have hset : ∀ {i : Nat} {r r' : Request}, g.requests[i]? = some r → r'.caller = r.caller →
      ∀ x ∈ g.requests.set i r', x.caller = 0 := by
    intro i r r' hr hcaller x hx
    rcases mem_set_row hx with hx | rfl
    · exact ho.requests x hx
    · exact hcaller.trans (ho.requests r (List.mem_of_getElem? hr))
  rcases step_cases h with ⟨m, rfl, hrun, rfl⟩ | ⟨m, rest, -, hrun, hm, rfl⟩ | ⟨i, r, -, hr, -, hp⟩ |
    ⟨i, r, -, hr, -, rfl⟩ | ⟨caller, -, rfl⟩ | ⟨-, -, rfl⟩
  · refine ⟨fun x hx => ?_, ho.requests⟩
    rcases List.mem_append.1 hx with hx | hx
    · exact ho.mailbox x hx
    · rw [List.mem_singleton.1 hx]
      exact GateEvent.send.inj hown
  · have hmail := ho.mailbox
    rw [hm, List.forall_mem_cons] at hmail
    cases m with
    | AcquireRequestPermit caller asked =>
      refine ⟨hmail.2, fun x hx => ?_⟩
      rcases List.mem_append.1 hx with hx | hx
      · exact ho.requests x hx
      · rw [List.mem_singleton.1 hx]
        have hsame := hmail.1
        simp only [Message.anonymous, Message.AcquireRequestPermit.injEq] at hsame
        exact hsame.1.symm
    | RequestGateStatusRequest => exact ⟨hmail.2, ho.requests⟩
    | Stop => exact ⟨by simp [handle], ho.requests⟩
  · obtain ⟨-, rfl⟩ := poll_open hopen hp
    exact ⟨ho.mailbox, hset hr rfl⟩
  · unfold reply
    split
    · exact ⟨ho.mailbox, hset hr rfl⟩
    · exact ⟨ho.mailbox, hset hr rfl⟩
  · refine ⟨fun x hx => ?_, fun x hx => ?_⟩
    · obtain ⟨m, hm, rfl⟩ := List.mem_map.1 hx
      exact anonymous_abandon (ho.mailbox m hm) caller
    · obtain ⟨r, hr, rfl⟩ := List.mem_map.1 hx
      exact ho.requests r hr
  · exact ⟨ho.mailbox, ho.requests⟩

theorem asksOf_le_asks (g : Gate) (c : Nat) : g.asksOf c ≤ g.asks := by
  refine Nat.add_le_add (List.countP_mono_left fun m _ hm => ?_) (List.countP_mono_left fun r _ hr => ?_)
  · cases m with
    | AcquireRequestPermit caller asked =>
      simp only [Message.askedBy, Bool.and_eq_true] at hm
      exact hm.1
    | RequestGateStatusRequest => cases hm
    | Stop => cases hm
  · simp only [Request.askedBy, Bool.and_eq_true] at hr ⊢
    exact ⟨hr.1.1, hr.2⟩

end Gate

/-! ## Listeners whose loop has ended -/

namespace Listener

variable {ι : Type*}

/-- Only a loop that asks is waited for by an ask. -/
structure Hears (l : Listener ι) : Prop where
  one : l.gate.OneCaller
  asks : l.gate.asksOf 0 ≤ l.loop.asks

/-- A step of the gate that leaves the loop as it is. -/
theorem Hears.gate {l : Listener ι} (hh : l.Hears) (hopen : l.gate.gate.pool.semaphore.closed = false)
    {event : GateEvent} {gate : Gate} (hg : l.gate.step event = some gate) (hown : event.anonymous = event)
    (hafter : l.gate.asksAfter 0 event ≤ l.gate.asksOf 0) :
    gate.OneCaller ∧ gate.asksOf 0 ≤ l.loop.asks :=
  ⟨Gate.oneCaller_step hopen hh.one hown hg, Nat.le_trans (Nat.le_trans (Gate.asksOf_step hopen hg 0) hafter) hh.asks⟩

/-- A loop that has failed has no ask out. -/
theorem failed_asks {l l' : Listener ι} {event : ListenerEvent} (hh : l.Hears) (hfail : event.isFailure = true)
    (h : l.step event = some l') : l.gate.asksOf 0 = 0 := by
  have hasks := hh.asks
  cases event with
  | accept_fails =>
    simp only [step, Option.ite_none_right_eq_some, Option.some.injEq] at h
    rw [h.1] at hasks
    exact Nat.le_zero.1 hasks
  | context_fails =>
    simp only [step] at h
    split at h
    · rename_i stream hloop
      rw [hloop] at hasks
      exact Nat.le_zero.1 hasks
    · cases h
  | permit_fails =>
    simp only [step] at h
    split at h
    · rename_i stream hloop
      rw [hloop] at hasks
      exact Nat.le_zero.1 hasks
    -- The loop fails in the middle of its ask only when the gate has forgotten it.
    · rename_i stream hloop
      simp only [Option.ite_none_right_eq_some, Option.some.injEq] at h
      exact Nat.le_zero.1 (h.1 ▸ Gate.asksOf_le_asks l.gate 0)
    · cases h
  | panics =>
    simp only [step, Option.ite_none_right_eq_some, Option.some.injEq] at h
    rw [h.1] at hasks
    exact Nat.le_zero.1 hasks
  | _ => cases hfail

theorem hears_step {limit : RequestConcurrencyLimit} {l l' : Listener ι} {event : ListenerEvent} (hi : Inv limit l)
    (hh : l.Hears) (h : l.step event = some l') : l'.Hears := by
  have hopen := hi.gate.never_closed
  have hasks := hh.asks
  cases step_moves h with
  | connect stream => exact ⟨hh.one, hasks⟩
  | accept stream rest hloop hp =>
    rw [hloop] at hasks
    exact ⟨hh.one, hasks⟩
  | fails event error hfail hloop =>
    have hnone := failed_asks hh hfail h
    exact ⟨hh.one, Nat.le_of_eq hnone⟩
  | ask stream gate hloop hg =>
    rw [hloop] at hasks
    refine ⟨Gate.oneCaller_step hopen hh.one rfl hg, ?_⟩
    exact Nat.le_trans (Gate.asksOf_step hopen hg 0) (Nat.add_le_add_right hasks 1)
  | handles gate hg =>
    obtain ⟨hone, hle⟩ := hh.gate hopen hg rfl (Nat.le_refl _)
    exact ⟨hone, hle⟩
  | polls i gate hg =>
    obtain ⟨hone, hle⟩ := hh.gate hopen hg rfl (Nat.le_refl _)
    exact ⟨hone, hle⟩
  | admits i stream r gate hloop hr hasked hg =>
    rw [hloop] at hasks
    -- Nobody but the loop asks, so the ask that is answered is its own.
    have hmine : r.askedBy 0 = true := by
      simp [Request.askedBy, hasked, hh.one.requests r (List.mem_of_getElem? hr), Gate.reply_granted hg hr]
    have hafter : l.gate.asksAfter 0 (.reply i) = l.gate.asksOf 0 - 1 := by
      simp only [Gate.asksAfter, hr, Option.any_some, hmine, if_true]
    refine ⟨Gate.oneCaller_step hopen hh.one rfl hg, Nat.le_trans (Gate.asksOf_step hopen hg 0) ?_⟩
    rw [hafter]
    exact Nat.sub_le_of_le_add hasks
  | unread i r gate hr hasked hg =>
    obtain ⟨hone, hle⟩ := hh.gate hopen hg rfl (Nat.sub_le _ _)
    exact ⟨hone, hle⟩
  | spawn stream hloop =>
    rw [hloop] at hasks
    exact ⟨hh.one, hasks⟩
  | begins k hd hk hp => exact ⟨hh.one, hasks⟩
  | parts k hd gate hk hperm hp hg =>
    obtain ⟨hone, hle⟩ := hh.gate hopen hg rfl (Nat.le_refl _)
    exact ⟨hone, hle⟩
  | ends k hd outcome passed_on gate hk hp hperm hg =>
    obtain ⟨hone, hle⟩ := hh.gate hopen hg rfl (Nat.le_refl _)
    exact ⟨hone, hle⟩
  | ends_without k hd outcome passed_on hk hp => exact ⟨hh.one, hasks⟩
  | drops stream gate hloop hg =>
    rw [hloop] at hasks
    exact ⟨Gate.oneCaller_step hopen hh.one rfl hg, Nat.le_trans (Gate.asksOf_step hopen hg 0) hasks⟩
  | abandons gate hloop hg =>
    exact ⟨Gate.oneCaller_step hopen hh.one rfl hg, Gate.asksOf_step hopen hg 0⟩
  | stops gate hg =>
    obtain ⟨hone, hle⟩ := hh.gate hopen hg rfl (Nat.le_refl _)
    exact ⟨hone, hle⟩
  | stopped hg => exact ⟨hh.one, hasks⟩

/-- Seen from its gate, a step of a listener is one of the gate's steps or none. -/
theorem gate_step_cases {l l' : Listener ι} {event : ListenerEvent} (h : l.step event = some l') :
    l'.gate = l.gate ∨ ∃ e, l.gate.step e = some l'.gate := by
  cases step_moves h with
  | ask stream gate hloop hg => exact .inr ⟨_, hg⟩
  | handles gate hg => exact .inr ⟨_, hg⟩
  | polls i gate hg => exact .inr ⟨_, hg⟩
  | admits i stream r gate hloop hr hasked hg => exact .inr ⟨_, hg⟩
  | unread i r gate hr hasked hg => exact .inr ⟨_, hg⟩
  | parts k hd gate hk hperm hp hg => exact .inr ⟨_, hg⟩
  | ends k hd outcome passed_on gate hk hp hperm hg => exact .inr ⟨_, hg⟩
  | drops stream gate hloop hg => exact .inr ⟨_, hg⟩
  | abandons gate hloop hg => exact .inr ⟨_, hg⟩
  | stops gate hg => exact .inr ⟨_, hg⟩
  | _ => exact .inl rfl

/-- What a listener has come to when nothing of it can move. -/
structure Shut (limit : RequestConcurrencyLimit) (l : Listener ι) : Prop where
  loop : l.loop.ended = true
  gate : l.gate.running = false
  handlers : ∀ h ∈ l.handlers, h.phase.isFinished = true ∧ h.permit = false
  requests : ∀ r ∈ l.gate.requests, r.phase ≠ .waiting ∧ r.phase ≠ .granted
  home : l.gate.gate.pool.available_permit_count = limit.count

theorem rest_gate {l : Listener ι} (hdown : l.gate.GoesDown)
    (hrest : AtRest step (fun event => event.brings = 0) l) : l.gate.running = false := by
  by_contra hrun
  rw [Bool.not_eq_false] at hrun
  have hnone := hrest .gate_handles rfl
  cases hm : l.gate.mailbox with
  | nil =>
    have hstop := hdown hrun
    rw [hm] at hstop
    cases hstop
  | cons m rest => simp [step, gate_step, Gate.step, hrun, hm] at hnone

/-- A loop that has not ended can be aborted. -/
theorem cancel_some {limit : RequestConcurrencyLimit} {l : Listener ι} (hi : Inv limit l) (hlive : l.loop.ended = false) :
    ∃ l', l.step .cancel = some l' := by
  have habandons : ∃ l', ({ l with loop := .cancelled } : Listener ι).gate_step (.abandon 0) = some l' := ⟨_, rfl⟩
  cases hloop : l.loop with
  | failed error => rw [hloop] at hlive; cases hlive
  | cancelled => rw [hloop] at hlive; cases hlive
  | admitted stream =>
    have hheld : 0 < l.gate.held := by
      have := hi.held
      have hhand : l.inHand = 1 := by simp [inHand, hloop]
      omega
    simp [step, hloop, drop_permit, gate_step, Gate.step, hheld]
  | accepting => simpa only [step, hloop] using habandons
  | accepted stream => simpa only [step, hloop] using habandons
  | asking stream => simpa only [step, hloop] using habandons

theorem rest_shut {limit : RequestConcurrencyLimit} {l : Listener ι} (hi : Inv limit l) (hh : l.Hears)
    (hended : l.loop.ended = true) (hdown : l.gate.GoesDown)
    (hrest : AtRest step (fun event => event.brings = 0) l) : Shut limit l := by
  have hhandlers := fun h hm => rest_handlers hi hrest (h := h) hm
  have hnone : l.handlers.countP (·.permit) = 0 := by
    rw [List.countP_eq_zero]
    intro h hm
    simp [(hhandlers h hm).2]
  have hheld := hi.held
  have hcons := hi.gate.conserved
  have hlimit := limit.pos
  have hasks := hh.asks
  have hquiet : l.inHand = 0 ∧ l.loop.asks = 0 := by
    cases hloop : l.loop with
    | failed error => simp [inHand, hloop, LoopPhase.asks]
    | cancelled => simp [inHand, hloop, LoopPhase.asks]
    | _ => rw [hloop] at hended; cases hended
  -- Nobody waits for its answer any more, so a permit that is granted comes back.
  have hgranted : ∀ r ∈ l.gate.requests, r.phase ≠ .granted := by
    intro r hm hp
    obtain ⟨i, hr⟩ := List.mem_iff_getElem?.1 hm
    have hzero : l.gate.requests.countP (Request.askedBy 0) = 0 := by
      rw [hquiet.2] at hasks
      exact Nat.le_zero.1 (Nat.le_trans (Nat.le_add_left _ _) hasks)
    have hnot := List.countP_eq_zero.1 hzero r hm
    have hasked : r.asked = false := by simpa [Request.askedBy, hh.one.requests r hm, hp] using hnot
    have := hrest (.gate_replies i) rfl
    cases hloop : l.loop <;> simp [step, hr, hloop, gate_step, Gate.step, hp, hasked] at this
  have hzero : l.gate.count .granted = 0 := by
    rw [Gate.count, List.countP_eq_zero]
    intro x hx
    simpa using hgranted x hx
  refine ⟨hended, rest_gate hdown hrest, hhandlers, fun r hm => ⟨fun hp => ?_, hgranted r hm⟩, ?_⟩
  · obtain ⟨i, hr⟩ := List.mem_iff_getElem?.1 hm
    have hpos : l.gate.gate.pool.semaphore.permits ≠ 0 := by
      have := hquiet.1
      omega
    have := hrest (.gate_polls i) rfl
    simp [step, gate_step, Gate.step, hr, hp, Gate.poll, RequestPermitPool.acquire, hi.gate.never_closed, hpos] at this
  · have := hquiet.1
    simp only [RequestPermitPool.available_permit_count]
    omega

end Listener

/-! ## Shells -/

/-- What `run` and the tasks of a shell do by themselves, where no accept fails
and no task panics. -/
def ShellEvent.Winds : ShellEvent → Prop
  | .listener _ event => event.brings = 0 ∨ event = .cancel
  | .start _ => False
  | _ => True

/-- What a client brings. -/
def ListenerEvent.arrives : ListenerEvent → Nat
  | .connect _ => 11
  | _ => 0

def ShellEvent.arrives : ShellEvent → Nat
  | .listener _ event => event.arrives
  | _ => 0

theorem ShellEvent.winds_arrives {event : ShellEvent} (h : event.Winds) : event.arrives = 0 := by
  cases event with
  | listener j e =>
    rcases h with hbrings | rfl
    · cases e <;> first | rfl | cases hbrings
    · rfl
  | _ => rfl

/-- A loop that ends pays for it itself. -/
theorem Listener.open_toil_step {ι : Type*} {l l' : Listener ι} {event : ListenerEvent}
    (hopen : l.gate.gate.pool.semaphore.closed = false) (hstop : event ≠ .stop_gate) (h : l.step event = some l') :
    l'.toil + 6 * (if l'.loop.ended then 0 else 1) + 1 ≤
      l.toil + 6 * (if l.loop.ended then 0 else 1) + event.arrives := by
  have htoil := toil_step hopen h
  cases hends : event.ends with
  | true =>
    obtain ⟨hbefore, hafter⟩ := live_of_ends hends h
    have hbrings : event.brings = 6 := by cases event <;> first | rfl | cases hends
    simp only [hbefore, hafter, if_true, Bool.false_eq_true, if_false]
    omega
  | false =>
    have hbrings : event.brings = event.arrives := by
      cases event <;> first | rfl | exact absurd rfl hstop | cases hends
    rw [(loop_of_not_ends hends h).1]
    omega

namespace Shell

variable {ι : Type*}

/-- The loops that have not ended. -/
def openLoops (s : Shell ι) : Nat := s.listeners.countP fun a => !a.loop.ended

/-- What `run` has still to do. -/
def runToil (s : Shell ι) : Nat :=
  match s.phase with
  -- 5 for the message that a gate gets, 1 for sending it
  | .bound => 6 * s.listeners.length + 3
  | .serving => 6 * s.listeners.length + 2
  | .stopping _ told => 6 * (s.listeners.length - told) + 1
  | .returned _ => 0

/-- What can still happen, if nobody connects. -/
def ahead (s : Shell ι) : Nat := s.toil + 6 * s.openLoops + s.runToil

theorem openLoops_put {s : Shell ι} {j : Nat} {l : Listener ι} (hv : s.view j = some l) (l' : Listener ι) :
    (s.put j l').openLoops + (if l.loop.ended then 0 else 1) = s.openLoops + if l'.loop.ended then 0 else 1 := by
  obtain ⟨a, ha, -, -, -, hloop, -⟩ := view_some.1 hv
  rw [put_eq ha, openLoops, openLoops, ← hloop]
  have hset := countP_set_row (fun a : BoundAsyncListener ι => !a.loop.ended) ha
    (b := { a with loop := l'.loop, handlers := l'.handlers, accepted := l'.accepted })
  cases hold : a.loop.ended <;> cases hnew : l'.loop.ended <;> simp only [hold, hnew] at hset ⊢ <;> simpa using hset

theorem runToil_put (s : Shell ι) (j : Nat) (l : Listener ι) : (s.put j l).runToil = s.runToil := by
  rw [runToil, runToil, put_phase, put_length]

/-- Every step of a shell leaves less to happen, but for who connects. -/
theorem ahead_step {limit : RequestConcurrencyLimit} {s t : Shell ι} {event : ShellEvent} (hi : Inv limit s)
    (h : s.step event = some t) : t.ahead + 1 ≤ s.ahead + event.arrives := by
  rcases step_cases h with ⟨ok, rfl, hp, rfl⟩ | ⟨j, e, l, l', rfl, hv, hallows, hl, rfl⟩ | ⟨failure, hp, -, rfl⟩ |
    ⟨failure, told, l, l', rfl, hp, hv, hl, rfl⟩ | ⟨ok, failure, told, rfl, hp, -, rfl⟩
  · have hless : ({ s with calls := s.calls ++ [.start], phase := if ok then .serving else .returned .Start } :
        Shell ι).runToil + 1 ≤ s.runToil := by
      cases ok <;> simp [runToil, hp]
    simp only [ahead, toil, openLoops] at hless ⊢
    omega
  · have hstop : e ≠ .stop_gate := by
      rintro rfl
      cases hallows
    have htoil := toil_put hv l'
    have hloops := openLoops_put hv l'
    have hrun := runToil_put s j l'
    have hown := Listener.open_toil_step (hi.listener j l hv).gate.never_closed hstop hl
    change (s.put j l').toil + 6 * (s.put j l').openLoops + (s.put j l').runToil + 1 ≤
      s.toil + 6 * s.openLoops + s.runToil + e.arrives
    omega
  · have hless : ({ s with phase := .stopping failure 0 } : Shell ι).runToil + 1 ≤ s.runToil := by
      simp [runToil, hp]
    simp only [ahead, toil, openLoops] at hless ⊢
    omega
  · -- A gate is told: its loop is not touched, and `run` has one gate less to tell.
    have htoil := toil_put hv l'
    have hloops := openLoops_put hv l'
    have hown := Listener.toil_step (hi.listener told l hv).gate.never_closed hl
    have hsame : l'.loop = l.loop := by
      cases Listener.step_moves hl with
      | stops gate hg => rfl
      | stopped hg => rfl
      | fails event error hfail => cases hfail
    have hlt := view_lt hv
    have hrun : s.runToil = 6 * (s.listeners.length - told) + 1 := by rw [runToil, hp]
    rw [hsame] at hloops
    change (s.put told l').toil + 6 * (s.put told l').openLoops +
      (6 * ((s.put told l').listeners.length - (told + 1)) + 1) + 1 ≤ s.toil + 6 * s.openLoops + s.runToil + 0
    rw [put_length, hrun]
    change l'.toil + 1 ≤ l.toil + 6 at hown
    omega
  · have hless : ({ s with calls := s.calls ++ [.stop], phase := .returned (result failure ok) } : Shell ι).runToil + 1 ≤
        s.runToil := by
      simp [runToil, hp]
    simp only [ahead, toil, openLoops] at hless ⊢
    omega

theorem ahead_bind {kind : ShellKind} {limit : RequestConcurrencyLimit} {listeners : List ι} {s : Shell ι}
    (h : bind kind limit listeners = some s) : s.ahead ≤ 12 * listeners.length + 3 := by
  obtain ⟨hb, -⟩ := bind_binding h
  have hloops : s.openLoops ≤ listeners.length := hb.length ▸ List.countP_le_length
  have hrun : s.runToil = 6 * listeners.length + 3 := by rw [runToil, hb.phase, ← hb.length]
  rw [ahead, toil_bind h, hrun]
  omega

/-- The gates that have been told to stop. -/
def told (s : Shell ι) : Nat :=
  match s.phase with
  | .stopping _ told => told
  | .returned .Start => 0
  | .returned _ => s.listeners.length
  | _ => 0

/-- What brings a shell down: a listener has failed, or there is none. -/
def Fails (s : Shell ι) : Prop := s.listeners = [] ∨ ∃ j l error, s.view j = some l ∧ l.loop = .failed error

/-- Every gate of the table belongs to a listener. -/
def Owned (s : Shell ι) : Prop :=
  ∀ k, k < s.gates.length → ∃ (j : Nat) (a : BoundAsyncListener ι), s.listeners[j]? = some a ∧ a.request_gate = k

/-- What the steps of a shutdown rest on. -/
structure Closing (limit : RequestConcurrencyLimit) (s : Shell ι) : Prop where
  inv : Inv limit s
  viewed : s.Viewed
  hears : ∀ j l, s.view j = some l → l.Hears
  owned : s.Owned
  told_le : s.told ≤ s.listeners.length
  told_down : ∀ j l, j < s.told → s.view j = some l → l.gate.GoesDown
  fails : s.aborted = true → s.Fails

theorem owned_put {s : Shell ι} (ho : s.Owned) (j : Nat) (l : Listener ι) : (s.put j l).Owned := by
  cases ha : s.listeners[j]? with
  | none =>
    unfold put
    rw [ha]
    exact ho
  | some a =>
    rw [put_eq ha]
    intro k hk
    rw [List.length_set] at hk
    obtain ⟨i, b, hb, hbk⟩ := ho k hk
    by_cases hij : i = j
    · subst hij
      rw [ha] at hb
      cases hb
      exact ⟨i, _, List.getElem?_set_self (List.getElem?_eq_some_iff.1 ha).1, hbk⟩
    · exact ⟨i, b, (List.getElem?_set_ne (Ne.symm hij)).trans hb, hbk⟩

theorem owned_step {s t : Shell ι} {event : ShellEvent} (ho : s.Owned) (h : s.step event = some t) : t.Owned := by
  rcases step_cases h with ⟨ok, -, -, rfl⟩ | ⟨j, e, l, l', -, -, -, -, rfl⟩ | ⟨failure, -, -, rfl⟩ |
    ⟨failure, told, l, l', -, -, -, -, rfl⟩ | ⟨ok, failure, told, -, -, -, rfl⟩
  · exact ho
  · exact owned_put ho j l'
  · exact ho
  · exact owned_put ho told l'
  · exact ho

theorem owned_fold {limit : RequestConcurrencyLimit} (rest : List ι) {s t : Shell ι} (ho : s.Owned)
    (h : rest.foldlM (bind_listener limit) s = some t) : t.Owned := by
  induction rest generalizing s with
  | nil => cases h; exact ho
  | cons listener rest ih =>
    simp only [List.foldlM_cons, Option.bind_eq_bind, Option.bind_eq_some_iff] at h
    obtain ⟨u, hu, h⟩ := h
    simp only [bind_listener, Option.map_eq_some_iff] at hu
    obtain ⟨gate, -, rfl⟩ := hu
    refine ih (fun k hk => ?_) h
    rw [List.length_append, List.length_singleton] at hk
    rcases Nat.lt_succ_iff_lt_or_eq.1 hk with hk | rfl
    · obtain ⟨j, a, ha, hak⟩ := ho k hk
      exact ⟨j, a, (getElem?_snoc _ _ _ _).2 (.inl ha), hak⟩
    · exact ⟨s.listeners.length, _, (getElem?_snoc _ _ _ _).2 (.inr ⟨rfl, rfl⟩), rfl⟩

theorem owned_bind {kind : ShellKind} {limit : RequestConcurrencyLimit} {listeners : List ι} {s : Shell ι}
    (h : bind kind limit listeners = some s) : s.Owned := by
  have hnone : (⟨kind, [], [], [], .bound, [], []⟩ : Shell ι).Owned := fun k hk => absurd hk (Nat.not_lt_zero k)
  exact owned_fold listeners hnone h

/-- A loop that has failed stays failed. -/
theorem fails_step {s t : Shell ι} {event : ShellEvent} (ha : s.Apart) (hf : s.Fails) (h : s.step event = some t) :
    t.Fails := by
  rcases hf with hnone | ⟨j, l, error, hv, hloop⟩
  · exact .inl (List.length_eq_zero_iff.1 ((step_length h).trans (List.length_eq_zero_iff.2 hnone)))
  · obtain ⟨l', hv', hsame⟩ := loop_ended_step ha h hv (by rw [hloop]; rfl)
    exact .inr ⟨j, l', error, hv', hsame.trans hloop⟩

/-- A gate that has been told goes down, whatever its listener does. -/
theorem goesDown_view {limit : RequestConcurrencyLimit} {s t : Shell ι} {event : ShellEvent} (hi : Inv limit s)
    (h : s.step event = some t) {j : Nat} {l' : Listener ι}
    (hd : ∀ l, s.view j = some l → l.gate.GoesDown) (hv : t.view j = some l') : l'.gate.GoesDown := by
  rcases (step_view hi.apart h).2 j with hsame | ⟨e, l, x, -, hl, hstep, ht⟩
  · exact hd l' (hsame ▸ hv)
  · rw [ht] at hv
    cases hv
    rcases Listener.gate_step_cases hstep with hgate | ⟨g, hg⟩
    · exact hgate ▸ hd l hl
    · exact Gate.goesDown_step (hi.listener j l hl).gate.never_closed (hd l hl) hg

/-- The loops are joined because one has failed, or there is none. -/
theorem joined_fails {s t : Shell ι} {event : ShellEvent} {failure : Option ServeError} (hp : s.phase = .serving)
    (ht : t.phase = .stopping failure 0) (h : s.step event = some t) : s.Fails := by
  cases event with
  | start ok =>
    rw [(start_some h).1] at hp
    cases hp
  | listener j e =>
    obtain ⟨l, l', -, -, -, rfl⟩ := step_listener.1 h
    have hsame : s.phase = .stopping failure 0 := (put_phase s j l').symm.trans ht
    rw [hp] at hsame
    cases hsame
  | join j =>
    obtain ⟨l, error, -, hv, hloop, -⟩ := join_some h
    exact .inr ⟨j, l, error, hv, hloop⟩
  | join_none => exact .inl (join_none_some h).2.1
  | tell_gate =>
    obtain ⟨failure', told, l, l', hp', -⟩ := tell_gate_some h
    rw [hp] at hp'
    cases hp'
  | runtime_stop ok =>
    simp only [step, hp] at h
    cases h

theorem aborted_fails {s t : Shell ι} {event : ShellEvent} (hs : ¬ s.aborted = true) (ht : t.aborted = true)
    (h : s.step event = some t) : s.Fails := by
  rcases step_cases h with ⟨ok, -, -, rfl⟩ | ⟨j, e, l, l', -, -, -, -, rfl⟩ | ⟨failure, hp, -, rfl⟩ |
    ⟨failure, told, l, l', -, hp, -, -, -⟩ | ⟨ok, failure, told, -, hp, -, -⟩
  · cases ok <;> cases ht
  · have hsame : s.aborted = (s.put j l').aborted := by rw [aborted, aborted, put_phase]
    exact absurd (hsame.trans ht) hs
  · exact joined_fails hp rfl h
  · exact absurd (by rw [aborted, hp]) hs
  · exact absurd (by rw [aborted, hp]) hs

/-- How far `run` has come in telling the gates. -/
theorem told_step {limit : RequestConcurrencyLimit} {s t : Shell ι} {event : ShellEvent} (hc : Closing limit s)
    (h : s.step event = some t) :
    t.told ≤ t.listeners.length ∧ ∀ j l, j < t.told → t.view j = some l → l.gate.GoesDown := by
  have hlen := step_length h
  have hkept : ∀ j l, j < s.told → t.view j = some l → l.gate.GoesDown := fun j l hj hv =>
    goesDown_view hc.inv h (fun x hx => hc.told_down j x hj hx) hv
  rcases step_cases h with ⟨ok, -, -, rfl⟩ | ⟨j, e, l, l', -, hv, -, hl, ht⟩ | ⟨failure, -, -, rfl⟩ |
    ⟨failure, told, l, l', -, hp, hv, hl, ht⟩ | ⟨ok, failure, told, -, -, hall, rfl⟩
  · have hzero : ({ s with calls := s.calls ++ [.start], phase := if ok then .serving else .returned .Start } :
        Shell ι).told = 0 := by
      cases ok <;> rfl
    rw [hzero]
    exact ⟨Nat.zero_le _, fun j l hj => absurd hj (Nat.not_lt_zero j)⟩
  · have hsame : t.told = s.told := by
      rw [told, told, hlen]
      have hphase : t.phase = s.phase := ht ▸ put_phase s j l'
      rw [hphase]
    rw [hsame, hlen]
    exact ⟨hc.told_le, hkept⟩
  · exact ⟨Nat.zero_le _, fun j l hj => absurd hj (Nat.not_lt_zero j)⟩
  · have hnow : s.told = told := by rw [Shell.told, hp]
    have hnext : t.told = told + 1 := by rw [Shell.told, ht]
    rw [hnow] at hkept
    rw [hnext, hlen]
    refine ⟨view_lt hv, fun j x hj hx => ?_⟩
    rcases Nat.lt_succ_iff_lt_or_eq.1 hj with hj | rfl
    · exact hkept j x hj hx
    -- the gate that is told in this step
    · have hself : t.view j = some l' := by
        rw [ht]
        exact view_put_self hv (Listener.step_keeps_listener hl)
      rw [hself] at hx
      cases hx
      cases hl
      exact Gate.goesDown_told l.gate
  · have hdone : ({ s with calls := s.calls ++ [.stop], phase := .returned (result failure ok) } : Shell ι).told =
        s.listeners.length := by
      have hne := result_ne_start failure ok
      unfold Shell.told
      cases hr : result failure ok <;> first | rfl | exact absurd hr hne
    rw [hdone]
    -- `runtime.stop()` waits for all gates, so none of them runs.
    refine ⟨Nat.le_refl _, fun j l _ hv hrun => ?_⟩
    obtain ⟨a, -, -, hg, -⟩ := view_some.1 hv
    rw [hall l.gate (List.mem_of_getElem? hg)] at hrun
    cases hrun

theorem closing_step {limit : RequestConcurrencyLimit} {s t : Shell ι} {event : ShellEvent} (hc : Closing limit s)
    (h : s.step event = some t) : Closing limit t := by
  obtain ⟨htold, hdown⟩ := told_step hc h
  refine ⟨inv_step hc.inv h, viewed_step hc.inv.apart hc.viewed h, fun j x hx => ?_, owned_step hc.owned h, htold, hdown,
    fun haborted => ?_⟩
  · rcases (step_view hc.inv.apart h).2 j with hsame | ⟨e, l, l', -, hl, hstep, ht⟩
    · exact hc.hears j x (hsame ▸ hx)
    · rw [ht] at hx
      cases hx
      exact Listener.hears_step (hc.inv.listener j l hl) (hc.hears j l hl) hstep
  · refine fails_step hc.inv.apart ?_ h
    by_cases hold : s.aborted = true
    · exact hc.fails hold
    · exact aborted_fails hold haborted h

theorem closing_bind {kind : ShellKind} {limit : RequestConcurrencyLimit} {listeners : List ι} {s : Shell ι}
    (h : bind kind limit listeners = some s) : Closing limit s := by
  obtain ⟨hb, -⟩ := bind_binding h
  have hnone : s.told = 0 := by rw [told, hb.phase]
  refine ⟨inv_bind h, viewed_bind h, fun j l hv => ?_, owned_bind h, hnone ▸ Nat.zero_le _, fun j l hj => ?_, fun ha => ?_⟩
  · obtain ⟨listener, gate, -, hg, rfl⟩ := bind_view h hv
    simp only [Gate.start, Option.map_eq_some_iff] at hg
    obtain ⟨_, -, rfl⟩ := hg
    exact ⟨⟨by simp, by simp⟩, Nat.le_refl _⟩
  · rw [hnone] at hj
    exact absurd hj (Nat.not_lt_zero j)
  · rw [aborted, hb.phase] at ha
    cases ha

/-! ## At rest -/

/-- The shell is being shut down, or will be. -/
def GoingDown (s : Shell ι) : Prop := s.aborted = true ∨ (s.phase = .serving ∧ s.Fails)

theorem goingDown_step {s t : Shell ι} {event : ShellEvent} (ha : s.Apart) (hg : s.GoingDown)
    (h : s.step event = some t) : t.GoingDown := by
  rcases step_cases h with ⟨ok, -, hp, -⟩ | ⟨j, e, l, l', -, -, -, -, ht⟩ | ⟨failure, -, -, rfl⟩ |
    ⟨failure, told, l, l', -, -, -, -, rfl⟩ | ⟨ok, failure, told, -, -, -, rfl⟩
  · rcases hg with haborted | ⟨hserving, -⟩
    · rw [aborted, hp] at haborted
      cases haborted
    · rw [hp] at hserving
      cases hserving
  · have hphase : t.phase = s.phase := ht ▸ put_phase s j l'
    rcases hg with haborted | ⟨hserving, hfails⟩
    · refine .inl ?_
      rw [aborted, hphase]
      exact haborted
    · exact .inr ⟨hphase.trans hserving, fails_step ha hfails h⟩
  · exact .inl rfl
  · exact .inl rfl
  · refine .inl ?_
    have hne := result_ne_start failure ok
    unfold aborted
    cases hr : result failure ok <;> first | rfl | exact absurd hr hne

/-- A shell at rest leaves its listeners at rest. -/
theorem winds_view {s : Shell ι} (hloops : s.loops_run = true) (hrest : AtRest step ShellEvent.Winds s) {j : Nat}
    {l : Listener ι} (hv : s.view j = some l) : AtRest Listener.step (fun event => event.brings = 0) l := by
  intro e hown
  have hallows : s.allows e = true := by
    cases e <;> first | (simp [allows, hloops]; done) | cases hown
  by_contra hsome
  obtain ⟨l', hl⟩ := Option.ne_none_iff_exists'.1 hsome
  have hnone := hrest (.listener j e) (.inl hown)
  rw [step_listener.2 ⟨l, l', hv, hallows, hl, rfl⟩] at hnone
  cases hnone

theorem loops_run_of_goingDown {s : Shell ι} (hg : s.GoingDown) : s.loops_run = true := by
  by_contra hno
  rw [Bool.not_eq_true] at hno
  rcases loops_run_false hno with hp | hp
  · rcases hg with haborted | ⟨hserving, -⟩
    · rw [aborted, hp] at haborted
      cases haborted
    · rw [hp] at hserving
      cases hserving
  · rcases hg with haborted | ⟨hserving, -⟩
    · rw [aborted, hp] at haborted
      cases haborted
    · rw [hp] at hserving
      cases hserving

/-- At rest no gate that has been told is running. -/
theorem rest_gates {limit : RequestConcurrencyLimit} {s : Shell ι} (hc : Closing limit s) (hg : s.GoingDown)
    (htold : s.told = s.listeners.length) (hrest : AtRest step ShellEvent.Winds s) :
    ∀ gate ∈ s.gates, gate.running = false := by
  intro gate hm
  obtain ⟨k, hk⟩ := List.mem_iff_getElem?.1 hm
  obtain ⟨j, a, ha, hak⟩ := hc.owned k (List.getElem?_eq_some_iff.1 hk).1
  obtain ⟨l, hv⟩ := hc.viewed j (List.getElem?_eq_some_iff.1 ha).1
  obtain ⟨b, hb, -, hgate, -⟩ := view_some.1 hv
  rw [ha] at hb
  cases hb
  rw [hak, hk] at hgate
  cases hgate
  exact Listener.rest_gate (hc.told_down j l (htold ▸ view_lt hv) hv) (winds_view (loops_run_of_goingDown hg) hrest hv)

theorem rest_returned {limit : RequestConcurrencyLimit} {s : Shell ι} (hc : Closing limit s) (hg : s.GoingDown)
    (hrest : AtRest step ShellEvent.Winds s) : ∃ result, s.phase = .returned result ∧ result ≠ .Start := by
  cases hp : s.phase with
  | bound =>
    have hloops := loops_run_of_goingDown hg
    rw [loops_run, hp] at hloops
    cases hloops
  | serving =>
    have hfails : s.Fails := by
      rcases hg with haborted | ⟨-, hfails⟩
      · exact hc.fails haborted
      · exact hfails
    rcases hfails with hnone | ⟨j, l, error, hv, hloop⟩
    · have := hrest .join_none trivial
      simp [step, hp, hnone] at this
    · have := hrest (.join j) trivial
      simp [step, hp, hv, hloop] at this
  | stopping failure told =>
    have hnow : s.told = told := by rw [Shell.told, hp]
    have hle := hc.told_le
    rw [hnow] at hle
    rcases Nat.lt_or_eq_of_le hle with hlt | heq
    · obtain ⟨l, hv⟩ := hc.viewed told hlt
      have := hrest .tell_gate trivial
      simp [step, hp, hv, Listener.step] at this
    -- All gates have been told and have read their mail: `run` can go on.
    · have hall := rest_gates hc hg (hnow.trans heq) hrest
      have := hrest (.runtime_stop true) trivial
      simp [step, hp, heq] at this
      obtain ⟨gate, hm, hrun⟩ := this
      rw [hall gate hm] at hrun
      cases hrun
  | returned result =>
    refine ⟨result, rfl, ?_⟩
    rintro rfl
    have hloops := loops_run_of_goingDown hg
    rw [loops_run, hp] at hloops
    cases hloops

/-- At rest every loop has failed or been aborted; a single shell has one only. -/
theorem rest_loops {limit : RequestConcurrencyLimit} {s : Shell ι} (hc : Closing limit s)
    (hone : s.kind ≠ .Multi → s.listeners.length = 1) (haborted : s.aborted = true)
    (hrest : AtRest step ShellEvent.Winds s) {j : Nat} {l : Listener ι} (hv : s.view j = some l) :
    l.loop.ended = true := by
  by_cases hk : s.kind = .Multi
  -- The loops of the multi shell are tasks that have been aborted.
  · by_contra hlive
    rw [Bool.not_eq_true] at hlive
    obtain ⟨l', hl⟩ := Listener.cancel_some (hc.inv.listener j l hv) hlive
    have hallows : s.allows .cancel = true := by simp [allows, haborted, hk]
    have hnone := hrest (.listener j .cancel) (.inr rfl)
    rw [step_listener.2 ⟨l, l', hv, hallows, hl, rfl⟩] at hnone
    cases hnone
  -- A single shell is here because its one loop has failed.
  · have hlen := hone hk
    rcases hc.fails haborted with hnone | ⟨k, x, error, hx, hloop⟩
    · rw [hnone] at hlen
      cases hlen
    · have hj := view_lt hv
      have hk := view_lt hx
      obtain rfl : k = j := by omega
      rw [hv] at hx
      cases hx
      rw [hloop]
      rfl

theorem rest_listeners {limit : RequestConcurrencyLimit} {s : Shell ι} (hc : Closing limit s)
    (hone : s.kind ≠ .Multi → s.listeners.length = 1) (hg : s.GoingDown) (hrest : AtRest step ShellEvent.Winds s) :
    ∀ j l, s.view j = some l → l.Shut limit := by
  obtain ⟨result, hp, hne⟩ := rest_returned hc hg hrest
  have haborted : s.aborted = true := by
    unfold aborted
    rw [hp]
    cases result <;> first | rfl | exact absurd rfl hne
  have htold : s.told = s.listeners.length := by
    unfold told
    rw [hp]
    cases result <;> first | rfl | exact absurd rfl hne
  intro j l hv
  exact Listener.rest_shut (hc.inv.listener j l hv) (hc.hears j l hv) (rest_loops hc hone haborted hrest hv)
    (hc.told_down j l (htold ▸ view_lt hv) hv) (winds_view (loops_run_of_goingDown hg) hrest hv)

/-- However clients, loops, gates, handlers and `run` are interleaved and
whatever fails, a run is no longer than its clients and listeners allow. From
where a listener has failed or there is none, and whoever still connects, the
shell comes to rest only when `run` has returned, every loop has ended, every
gate has shut down with nobody waiting at it, every handler is through and every
permit is back. -/
theorem shutdown_completes (kind : ShellKind) (limit : RequestConcurrencyLimit) (listeners : List ι)
    (hone : kind ≠ .Multi → listeners.length = 1) (s₀ s : Shell ι) (events : List ShellEvent)
    (h₀ : bind kind limit listeners = some s₀) (h : exec step s₀ events = some s) :
    events.length ≤
      11 * events.countP (fun event => event matches .listener _ (.connect _)) + 12 * listeners.length + 3 ∧
    (∃ more t, (∀ event ∈ more, event.Winds) ∧ exec step s more = some t ∧ AtRest step ShellEvent.Winds t) ∧
    (s.GoingDown → ∀ more t, exec step s more = some t → AtRest step ShellEvent.Winds t →
      (∃ result, t.phase = .returned result ∧ result ≠ .Start) ∧ ∀ j l, t.view j = some l → l.Shut limit) := by
  have hc := exec_invariant (Closing limit) (fun _ _ _ hc hstep => closing_step hc hstep) h (closing_bind h₀)
  refine ⟨?_, ?_, fun hg more t ht hrest => ?_⟩
  · have hlen := exec_length_le ahead ShellEvent.arrives (Inv limit) (fun _ _ _ hi hstep => inv_step hi hstep)
      (fun _ _ _ hi hstep => ahead_step hi hstep) h (inv_bind h₀)
    have hkinds : ∀ event : ShellEvent, event.arrives =
        (if event matches .listener _ (.connect _) then 11 else 0) + if false then 0 else 0 := by
      intro event
      cases event with
      | listener j e => cases e <;> rfl
      | _ => rfl
    rw [sum_two_kinds hkinds] at hlen
    have hbind := ahead_bind h₀
    omega
  · apply comes_to_rest ahead ShellEvent.Winds (Inv limit) (fun _ _ _ hi hstep => inv_step hi hstep) ?_ hc.inv
    intro s event t hi hown hstep
    have hless := ahead_step hi hstep
    have hnone := ShellEvent.winds_arrives hown
    omega
  · have hdone := exec_invariant (fun t => Closing limit t ∧ t.GoingDown)
      (fun _ _ _ hi hstep => ⟨closing_step hi.1 hstep, goingDown_step hi.1.inv.apart hi.2 hstep⟩) ht ⟨hc, hg⟩
    have hkind : t.kind = kind := by
      refine exec_invariant (fun u : Shell ι => u.kind = kind) (fun _ _ _ hu hstep => (step_kind hstep).trans hu)
        (exec_append.2 ⟨s, h, ht⟩) (bind_binding h₀).2
    have hlen : t.listeners.length = listeners.length := by
      refine exec_invariant (fun u : Shell ι => u.listeners.length = listeners.length)
        (fun _ _ _ hu hstep => (step_length hstep).trans hu) (exec_append.2 ⟨s, h, ht⟩) (bind_binding h₀).1.length
    refine ⟨rest_returned hdone.1 hdone.2 hrest, rest_listeners hdone.1 (fun hk => ?_) hdone.2 hrest⟩
    rw [hlen]
    exact hone (hkind ▸ hk)

/-- The loop of the first listener fails while a client of the second is served. -/
def failedRun : List ShellEvent :=
  [.start true, .listener 1 (.connect 7), .listener 1 .accept, .listener 1 .ask, .listener 0 .accept_fails, .join 0]

theorem shutdown_completes_failedRun : ∃ s₀ s, bind .Multi Gate.one [false, true] = some s₀ ∧
    exec step s₀ failedRun = some s ∧ s.phase = .stopping (some .Io) 0 ∧
    ∃ more t, exec step s more = some t ∧ ∃ result, t.phase = .returned result := by
  obtain ⟨-, ⟨more, t, -, hmore, hrest⟩, hshut⟩ :=
    shutdown_completes .Multi Gate.one [false, true] (fun h => absurd rfl h) _ _ failedRun rfl rfl
  obtain ⟨⟨result, hp, -⟩, -⟩ := hshut (.inl rfl) more t hmore hrest
  exact ⟨_, _, rfl, rfl, rfl, more, t, hmore, result, hp⟩

end Shell

/-! ## Runs -/

/-- What the shell of a run sees of an event. -/
def AsyncEvent.shell {ε : Type*} : AsyncEvent ε → Option ShellEvent
  | .bind => none
  | .start result => some (.start result.isOk)
  | .listener j event => some (.listener j event)
  | .join j => some (.join j)
  | .join_none => some .join_none
  | .tell_gate => some .tell_gate
  | .stop result => some (.runtime_stop result.isOk)

def AsyncEvent.Winds {ε : Type*} (event : AsyncEvent ε) : Prop := ∀ e, event.shell = some e → e.Winds

namespace AsyncRun

variable {ι ε : Type*}

/-- From `bind` on, a run steps just as its shell does. -/
theorem step_shell {c : AsyncConfig ι} {s : AsyncRun ι ε} (hp : s.phase = .running) (event : AsyncEvent ε) :
    (step c s event).map (·.shell) = event.shell.bind s.shell.step := by
  have hsame : ∀ (o : Option (Shell ι)) (f : Shell ι → AsyncRun ι ε), (∀ shell, o = some shell → (f shell).shell = shell) →
      (o.map f).map (·.shell) = o := by
    intro o f hf
    cases o with
    | none => rfl
    | some shell => exact congrArg some (hf shell rfl)
  cases event with
  | bind => simp [step, hp, AsyncEvent.shell]
  | start result =>
    simp only [step, hp, AsyncEvent.shell, Option.bind_some]
    cases result <;> exact hsame _ _ fun shell _ => rfl
  | listener j e =>
    simp only [step, hp, AsyncEvent.shell, Option.bind_some]
    refine hsame _ _ fun shell _ => ?_
    split
    · exact (drop_file_keeps _ j).2.1
    · rfl
  | join j =>
    simp only [step, hp, AsyncEvent.shell, Option.bind_some]
    refine hsame _ _ fun shell hshell => ?_
    obtain ⟨l, error, -, -, -, rfl⟩ := Shell.join_some hshell
    rfl
  | join_none =>
    simp only [step, hp, AsyncEvent.shell, Option.bind_some]
    exact hsame _ _ fun shell _ => rfl
  | tell_gate =>
    simp only [step, hp, AsyncEvent.shell, Option.bind_some]
    exact hsame _ _ fun shell _ => rfl
  | stop result =>
    cases hphase : s.shell.phase with
    | stopping failure told =>
      simp only [step, hp, hphase, AsyncEvent.shell, Option.bind_some]
      refine hsame _ _ fun shell _ => ?_
      split <;> rfl
    | _ => simp [step, hp, hphase, AsyncEvent.shell, Shell.step]

/-- What a run cannot do, its shell cannot. -/
theorem shell_step_none {c : AsyncConfig ι} {s : AsyncRun ι ε} (hp : s.phase = .running) {event : AsyncEvent ε}
    {e : ShellEvent} (he : event.shell = some e) (hnone : step c s event = none) : s.shell.step e = none := by
  have hshell := step_shell (c := c) hp event
  rw [hnone, he] at hshell
  exact hshell.symm

/-- The shell of a run at rest is at rest. -/
theorem rest_shell {c : AsyncConfig ι} {s : AsyncRun ι ε} (hp : s.phase = .running)
    (hrest : AtRest (step c) AsyncEvent.Winds s) : AtRest Shell.step ShellEvent.Winds s.shell := by
  have hnone : ∀ (event : AsyncEvent ε) (e : ShellEvent), event.shell = some e → e.Winds → s.shell.step e = none := by
    intro event e he hwinds
    refine shell_step_none hp he (hrest event fun e' he' => ?_)
    rw [he] at he'
    cases he'
    exact hwinds
  intro e hwinds
  cases e with
  | start ok => exact hwinds.elim
  | listener j e => exact hnone (.listener j e) _ rfl hwinds
  | join j => exact hnone (.join j) _ rfl hwinds
  | join_none => exact hnone .join_none _ rfl hwinds
  | tell_gate => exact hnone .tell_gate _ rfl hwinds
  | runtime_stop ok =>
    -- Whether `runtime.stop()` can be called does not depend on what it returns.
    have hok := hnone (.stop (.ok ())) (.runtime_stop true) rfl trivial
    cases hphase : s.shell.phase with
    | stopping failure told =>
      simp only [Shell.step, hphase, ite_eq_right_iff] at hok ⊢
      intro hcond
      cases hok hcond
    | _ => simp only [Shell.step, hphase]

/-- What holds of a run once it has been bound. -/
structure Closing (c : AsyncConfig ι) (s : AsyncRun ι ε) : Prop where
  inv : Inv c s
  files : s.phase = .running → Files c s
  shell : s.phase = .running → s.shell.Closing c.limit

theorem closing_step {c : AsyncConfig ι} {s t : AsyncRun ι ε} {event : AsyncEvent ε} (hc : Closing c s)
    (h : step c s event = some t) : Closing c t := by
  refine ⟨(inv_step hc.inv h).1, files_step hc.inv hc.files h, fun hp => ?_⟩
  by_cases hps : s.phase = .running
  · obtain ⟨-, e, he, -⟩ := shell_step hps h
    exact Shell.closing_step (hc.shell hps) he
  · rcases (bind_step hps h).2 with ⟨-, hno, -⟩ | ⟨-, -, hbind⟩
    · exact absurd hp hno
    · exact Shell.closing_bind hbind

theorem reaches_closing {c : AsyncConfig ι} {fs : FileSystem} {events : List (AsyncEvent ε)} {s : AsyncRun ι ε}
    (h : exec (step c) (new c fs) events = some s) : Closing c s :=
  exec_invariant (Closing c) (fun _ _ _ hc hstep => closing_step hc hstep) h ⟨⟨rfl, rfl⟩, nofun, nofun⟩

/-- What `run` of a shell that is going down comes to. -/
structure Wound (c : AsyncConfig ι) (s : AsyncRun ι ε) : Prop where
  running : s.phase = .running
  closing : Closing c s
  going_down : s.shell.GoingDown

theorem wound_step {c : AsyncConfig ι} {s t : AsyncRun ι ε} {event : AsyncEvent ε} (hw : Wound c s)
    (h : step c s event = some t) : Wound c t := by
  obtain ⟨hp, e, he, -⟩ := shell_step hw.running h
  exact ⟨hp, closing_step hw.closing h,
    Shell.goingDown_step (running_of_inv hw.closing.inv hw.running).shell.apart hw.going_down he⟩

/-- A run at rest has returned, and its loops are done. -/
theorem rest_done {c : AsyncConfig ι} {s : AsyncRun ι ε} (hw : Wound c s) (hrest : AtRest (step c) AsyncEvent.Winds s) :
    ∃ result, s.shell.phase = .returned result ∧ result ≠ .Start ∧ s.shell.Done := by
  have hrun := running_of_inv hw.closing.inv hw.running
  have hshell := rest_shell hw.running hrest
  obtain ⟨result, hret, hne⟩ := Shell.rest_returned (hw.closing.shell hw.running) hw.going_down hshell
  have hone : s.shell.kind ≠ .Multi → s.shell.listeners.length = 1 := by
    intro hk
    rw [hrun.kind] at hk
    rw [hrun.length]
    exact c.single hk
  have hshut := Shell.rest_listeners (hw.closing.shell hw.running) hone hw.going_down hshell
  exact ⟨result, hret, hne, .inr fun j l hv => (hshut j l hv).loop⟩

/-- Once a listener has failed, a run comes to rest by itself, whatever the
runtime does and whoever still connects; then `run` has returned what its parts
have come to, the runtime has been stopped, every guard has been dropped with no
socket of the daemon at its path, and no connection is accepted any more. -/
theorem failed_run_ends_clean (c : AsyncConfig ι) (fs : FileSystem) (events : List (AsyncEvent ε)) (s : AsyncRun ι ε)
    (h : exec (step c) (new c fs) events = some s) (hp : s.phase = .running) (hg : s.shell.GoingDown) :
    (∃ more t, (∀ event ∈ more, event.Winds) ∧ exec (step c) s more = some t ∧ AtRest (step c) AsyncEvent.Winds t) ∧
    ∀ more t, exec (step c) s more = some t → AtRest (step c) AsyncEvent.Winds t →
      (∃ result, t.record.result = some result ∧ t.record.Explains result) ∧ t.record.calls.count .stop = 1 ∧
      t.kept = [] ∧ t.Clean c := by
  have hw : Wound c s := ⟨hp, reaches_closing h, hg⟩
  refine ⟨?_, fun more t ht hrest => ?_⟩
  · apply comes_to_rest (fun s => s.shell.ahead) AsyncEvent.Winds (Wound c) (fun _ _ _ hw hstep => wound_step hw hstep) ?_ hw
    intro s event t hw hown hstep
    have hshell := step_shell (c := c) hw.running event
    rw [hstep] at hshell
    obtain ⟨e, he, hs⟩ := Option.bind_eq_some_iff.1 hshell.symm
    have hless : t.shell.ahead + 1 ≤ s.shell.ahead + e.arrives := Shell.ahead_step (hw.closing.shell hw.running).inv hs
    rw [ShellEvent.winds_arrives (hown e he)] at hless
    exact hless
  · have hdone := exec_invariant (Wound c) (fun _ _ _ hw hstep => wound_step hw hstep) ht hw
    obtain ⟨result, hret, hne, hd⟩ := rest_done hdone hrest
    have hobeys := obeys_lifecycle (exec_append.2 ⟨s, h, ht⟩)
    obtain ⟨hstart, hsome⟩ : t.record.start_result = some (.ok ()) ∧ t.record.result.isSome = true := by
      have hrecord := (running_of_inv hdone.closing.inv hdone.running).record
      rw [hret] at hrecord
      cases result <;> first | exact absurd rfl hne | exact ⟨hrecord.1, hrecord.2.1⟩
    obtain ⟨returned, hreturned⟩ := Option.isSome_iff_exists.1 hsome
    have hfiles := hdone.closing.files hdone.running
    have hkept := kept_done hfiles hret hd
    refine ⟨⟨returned, hreturned, hobeys.explained returned hreturned⟩, hobeys.stopped hstart hsome, hkept,
      fun g hm loc mode _ hthere => ?_, done_run hdone.closing.inv hdone.running hd⟩
    obtain ⟨g', hg', -⟩ := hfiles.looked g hm loc mode hthere
    rw [hkept] at hg'
    cases hg'

/-- The loop of listener 0 fails, which the shell has not noticed yet. -/
def failsFirst : List (AsyncEvent Unit) := [.bind, .start (.ok ()), .listener 1 (.connect 7), .listener 0 .accept_fails]

theorem failed_run_ends_clean_failsFirst :
    ∃ s, exec (step atTwoPaths) (new atTwoPaths .bare) failsFirst = some s ∧ s.kept.length = 1 ∧
      ∃ more t, exec (step atTwoPaths) s more = some t ∧ t.kept = [] ∧ t.Clean atTwoPaths := by
  have hrun : (exec (step atTwoPaths) (new atTwoPaths .bare) failsFirst).any (fun s =>
      s.phase = .running && s.shell.phase = .serving && s.kept.length = 1 &&
      (s.shell.view 0).any (·.loop = .failed .Io)) = true := by decide +kernel
  obtain ⟨s, hexec, hs⟩ := (Option.any_eq_true _ _).1 hrun
  simp only [Bool.and_eq_true, decide_eq_true_eq] at hs
  obtain ⟨⟨⟨hp, hserving⟩, hkept⟩, hview⟩ := hs
  obtain ⟨l, hv, hloop⟩ := (Option.any_eq_true _ _).1 hview
  have hg : s.shell.GoingDown := .inr ⟨hserving, .inr ⟨0, l, .Io, hv, of_decide_eq_true hloop⟩⟩
  obtain ⟨⟨more, t, -, ht, hrest⟩, hall⟩ := failed_run_ends_clean atTwoPaths .bare failsFirst s hexec hp hg
  obtain ⟨-, -, hnone, hclean⟩ := hall more t ht hrest
  exact ⟨s, hexec, hkept, more, t, ht, hnone, hclean⟩

end AsyncRun

end TriadRuntime
