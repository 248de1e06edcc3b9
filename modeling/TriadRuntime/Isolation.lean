import TriadRuntime.Cleanup
/-!
# Handlers and accept loops (`async_runtime.rs`, `tcp.rs`)

The handlers of the async shells are tasks of their own, and nobody waits for
them. All that their loop sees of them is the permit that comes back with the
connection.

To compare runs in which handlers end differently, a state is `blur`red: every
outcome is taken for `Ok`, and nothing has been logged.

A handler that panics ends with `panicked`; `.panics` is its listener's loop, not
the handler. Trusted: the `listener.clone()` of the spawned task returns, so that
a panic there comes from `handle_connection`.
-/

open Systems

namespace TriadRuntime

/-! ## Runs that differ in how handlers end -/

def HandlerPhase.blur : HandlerPhase → HandlerPhase
  | .finished _ => .finished .Ok
  | phase => phase

def ListenerEvent.blur : ListenerEvent → ListenerEvent
  | .handler_ends k _ passed_on => .handler_ends k .Ok passed_on
  | event => event

def ShellEvent.blur : ShellEvent → ShellEvent
  | .listener j event => .listener j event.blur
  | event => event

namespace Listener

variable {ι : Type*}

def blurHandler (h : Handler ι) : Handler ι := { h with phase := h.phase.blur }

def blur (l : Listener ι) : Listener ι := { l with handlers := l.handlers.map blurHandler }

@[simp] theorem blur_getElem? (l : Listener ι) (k : Nat) :
    l.blur.handlers[k]? = (l.handlers[k]?).map blurHandler := List.getElem?_map

theorem blur_spawned {phase : HandlerPhase} : phase.blur = .spawned ↔ phase = .spawned := by
  cases phase <;> simp [HandlerPhase.blur]

theorem blur_running {phase : HandlerPhase} : phase.blur = .running ↔ phase = .running := by
  cases phase <;> simp [HandlerPhase.blur]

theorem gate_step_blur (l : Listener ι) (event : GateEvent) : l.blur.gate_step event = (l.gate_step event).map blur := by
  simp only [gate_step, blur, Option.map_map]
  rfl

theorem set_handler_blur (l : Listener ι) (k : Nat) (h : Handler ι) :
    (l.set_handler k h).blur = l.blur.set_handler k (blurHandler h) := by
  simp [set_handler, blur, List.map_set]

theorem drop_permit_blur (l : Listener ι) : l.blur.drop_permit = l.drop_permit.map blur := gate_step_blur l _

theorem step_blur (l : Listener ι) (event : ListenerEvent) : l.blur.step event.blur = (l.step event).map blur := by
  cases event with
  | connect stream => rfl
  | accept =>
    simp only [ListenerEvent.blur, step, blur]
    split <;> rfl
  | accept_fails => by_cases hloop : l.loop = .accepting <;> simp [ListenerEvent.blur, step, blur, hloop]
  | context_fails =>
    simp only [ListenerEvent.blur, step, blur]
    split <;> rfl
  | ask =>
    cases hloop : l.loop with
    | accepted stream =>
      simp only [ListenerEvent.blur, step, show l.blur.loop = _ from hloop, hloop, gate_step_blur, Option.map_map]
      rfl
    | _ => simp [ListenerEvent.blur, step, blur, hloop]
  | permit_fails =>
    cases hloop : l.loop with
    | accepted stream => by_cases hg : l.gate.running = true <;> simp [ListenerEvent.blur, step, blur, hloop, hg]
    | asking stream => by_cases hg : l.gate.asks = 0 <;> simp [ListenerEvent.blur, step, blur, hloop, hg]
    | _ => simp [ListenerEvent.blur, step, blur, hloop]
  | gate_handles => exact gate_step_blur l _
  | gate_polls i => exact gate_step_blur l _
  | gate_replies i =>
    have hgate : l.blur.gate = l.gate := rfl
    have hloop' : l.blur.loop = l.loop := rfl
    cases hr : l.gate.requests[i]? with
    | none => simp [ListenerEvent.blur, step, hgate, hr]
    | some r =>
      cases hloop : l.loop with
      | asking stream =>
        simp only [ListenerEvent.blur, step, hgate, hloop', hr, hloop, gate_step_blur, Option.map_map]
        congr 1
        funext l'
        by_cases ha : r.asked = true <;> simp [ha, blur]
      | _ => by_cases ha : r.asked = true <;> simp [ListenerEvent.blur, step, hgate, hloop', hr, hloop, ha, gate_step_blur]
  | spawn =>
    cases hloop : l.loop with
    | admitted stream => simp [ListenerEvent.blur, step, blur, hloop, spawn_connection, blurHandler, HandlerPhase.blur]
    | _ => simp [ListenerEvent.blur, step, blur, hloop]
  | handler_begins k =>
    cases hk : l.handlers[k]? with
    | none => simp [ListenerEvent.blur, step, hk]
    | some h =>
      by_cases hp : h.phase = .spawned
      · simp [ListenerEvent.blur, step, hk, blurHandler, hp, set_handler_blur, HandlerPhase.blur]
      · simp [ListenerEvent.blur, step, hk, blurHandler, blur_spawned, hp]
  | into_parts k =>
    cases hk : l.handlers[k]? with
    | none => simp [ListenerEvent.blur, step, hk]
    | some h =>
      by_cases hp : h.permit = true ∧ h.phase ≠ .spawned
      · simp [ListenerEvent.blur, step, hk, blurHandler, blur_spawned, hp, set_handler_blur, ← drop_permit_blur]
      · simp [ListenerEvent.blur, step, hk, blurHandler, blur_spawned, hp]
  | handler_ends k outcome passed_on =>
    cases hk : l.handlers[k]? with
    | none => simp [ListenerEvent.blur, step, hk]
    | some h =>
      by_cases hp : h.phase = .running
      · by_cases hgives : (h.permit && !passed_on) = true
        · simp [ListenerEvent.blur, step, hk, blurHandler, hp, hgives, set_handler_blur, ← drop_permit_blur,
            HandlerPhase.blur]
        · simp [ListenerEvent.blur, step, hk, blurHandler, hp, hgives, set_handler_blur, HandlerPhase.blur]
      · simp [ListenerEvent.blur, step, hk, blurHandler, blur_running, hp]
  | panics => by_cases hloop : l.loop = .accepting <;> simp [ListenerEvent.blur, step, blur, hloop]
  | cancel =>
    cases hloop : l.loop with
    | failed error => simp [ListenerEvent.blur, step, blur, hloop]
    | cancelled => simp [ListenerEvent.blur, step, blur, hloop]
    | admitted stream =>
      simp only [ListenerEvent.blur, step, show l.blur.loop = _ from hloop, hloop, ← drop_permit_blur]
      rfl
    | _ =>
      simp only [ListenerEvent.blur, step, show l.blur.loop = _ from hloop, hloop, ← gate_step_blur]
      rfl
  | stop_gate => rfl

theorem call_blur (l : Listener ι) (event : ListenerEvent) : l.blur.call event.blur = l.call event := by
  cases event with
  | handler_begins k =>
    cases hk : l.handlers[k]? with
    | none => simp [ListenerEvent.blur, call, hk]
    | some h => simp [ListenerEvent.blur, call, hk, blurHandler]
  | _ => rfl

theorem report_blur (l : Listener ι) (event : ListenerEvent) : l.report event.blur = [] := by
  cases event <;> rfl

end Listener

namespace Shell

variable {ι : Type*}

def blurListener (a : BoundAsyncListener ι) : BoundAsyncListener ι :=
  { a with handlers := a.handlers.map Listener.blurHandler }

def blur (s : Shell ι) : Shell ι := { s with listeners := s.listeners.map blurListener, request_error_log := [] }

theorem view_blur (s : Shell ι) (j : Nat) : s.blur.view j = (s.view j).map Listener.blur := by
  unfold view
  simp only [blur, List.getElem?_map]
  cases s.listeners[j]? with
  | none => rfl
  | some a =>
    simp only [Option.map_some, blurListener]
    cases s.sockets[a.unix_listener]? <;> cases s.gates[a.request_gate]? <;> rfl

theorem put_blur (s : Shell ι) (j : Nat) (l : Listener ι) : s.blur.put j l.blur = (s.put j l).blur := by
  unfold put
  simp only [blur, List.getElem?_map]
  cases s.listeners[j]? with
  | none => rfl
  | some a => simp [List.map_set, blurListener, Listener.blur]

theorem allows_blur (s : Shell ι) (event : ListenerEvent) : s.blur.allows event.blur = s.allows event := by
  cases event <;> rfl

/-- A step does not depend on how handlers have ended. -/
theorem step_blur (s : Shell ι) (event : ShellEvent) : s.blur.step event.blur = (s.step event).map blur := by
  cases event with
  | start ok => by_cases hp : s.phase = .bound <;> simp [ShellEvent.blur, step, blur, hp]
  | listener j e =>
    simp only [ShellEvent.blur, step, view_blur, allows_blur]
    cases hv : s.view j with
    | none => rfl
    | some l =>
      by_cases ha : s.allows e = true
      · simp only [Option.map_some, ha, if_true, Listener.step_blur, Option.map_map]
        congr 1
        funext l'
        simp only [Function.comp_apply, put_blur, Listener.call_blur, Listener.report_blur]
        simp [blur]
      · simp [ha]
  | join j =>
    have hphase : s.blur.phase = s.phase := rfl
    simp only [ShellEvent.blur, step, view_blur, hphase]
    cases s.phase with
    | serving =>
      cases s.view j with
      | none => rfl
      | some l =>
        have hloop : l.blur.loop = l.loop := rfl
        simp only [Option.map_some, hloop]
        cases l.loop <;> rfl
    | _ => cases s.view j <;> rfl
  | join_none => by_cases hp : s.phase = .serving ∧ s.listeners = [] <;> simp [ShellEvent.blur, step, blur, hp]
  | tell_gate =>
    have hphase : s.blur.phase = s.phase := rfl
    simp only [ShellEvent.blur, step, view_blur, hphase]
    cases s.phase with
    | stopping failure told =>
      simp only
      cases s.view told with
      | none => rfl
      | some l =>
        simp only [Option.map_some, show l.blur.step .stop_gate = _ from Listener.step_blur l .stop_gate, Option.map_map]
        congr 1
        funext l'
        simp only [Function.comp_apply, put_blur]
        rfl
    | _ => rfl
  | runtime_stop ok =>
    have hphase : s.blur.phase = s.phase := rfl
    have hlength : s.blur.listeners.length = s.listeners.length := List.length_map _
    have hgates : s.blur.gates = s.gates := rfl
    simp only [ShellEvent.blur, step, hphase, hlength, hgates]
    cases s.phase with
    | stopping failure told =>
      simp only
      by_cases hdown : told = s.listeners.length ∧ s.gates.all (!·.running) = true
      · simp only [hdown, and_self, if_true]
        rfl
      · simp only [hdown, if_false]
        rfl
    | _ => rfl

/-- Two runs with the same events, but for how handlers end, come to the same. -/
theorem exec_blur (s : Shell ι) (events : List ShellEvent) :
    exec step s.blur (events.map ShellEvent.blur) = (exec step s events).map blur := by
  induction events generalizing s with
  | nil => rfl
  | cons event events ih =>
    simp only [List.map_cons, exec, step_blur]
    cases s.step event with
    | none => rfl
    | some t => exact ih t

end Shell

/-! ## What a handler can change -/

/-- The steps of a handler and its connection. -/
def ListenerEvent.ofHandler : ListenerEvent → Bool
  | .handler_begins _ | .into_parts _ | .handler_ends _ _ _ => true
  | _ => false

/-- The failures a loop can end with: reading the credentials is a step of the
Unix shells, and only a task can panic without `run`. -/
def ShellKind.fails (kind : ShellKind) : ListenerEvent → Bool
  | .accept_fails | .permit_fails => true
  | .context_fails => kind ≠ .Tcp
  | .panics => kind = .Multi
  | _ => false

namespace Listener

variable {ι : Type*}

/-- The permits of the handlers' connections. -/
def lent (l : Listener ι) : Nat := l.handlers.countP (·.permit)

def free (l : Listener ι) : Nat := l.gate.gate.pool.available_permit_count

/-- What a loop can see, and how many permits there are besides its own. -/
structure SameLoop (l l' : Listener ι) : Prop where
  loop : l'.loop = l.loop
  pending : l'.pending = l.pending
  accepted : l'.accepted = l.accepted
  running : l'.gate.running = l.gate.running
  asks : l'.gate.asks = l.gate.asks
  permits : l'.free + l'.lent = l.free + l.lent

theorem SameLoop.refl (l : Listener ι) : SameLoop l l := ⟨rfl, rfl, rfl, rfl, rfl, rfl⟩

/-- A handler's permit goes back to the gate of its listener. -/
theorem sameLoop_drop {l : Listener ι} {k : Nat} {h : Handler ι} {gate : Gate} (hk : l.handlers[k]? = some h)
    (hp : h.permit = true) (hg : l.gate.step .drop = some gate) (phase : HandlerPhase) :
    SameLoop l { l.set_handler k { h with permit := false, phase := phase } with gate := gate } := by
  have hcount := countP_set_row (·.permit) hk (b := { h with permit := false, phase := phase })
  simp only [hp, if_true, Bool.false_eq_true, if_false] at hcount
  simp only [Gate.step, Option.ite_none_right_eq_some, Option.some.injEq] at hg
  obtain ⟨-, rfl⟩ := hg
  refine ⟨rfl, rfl, rfl, rfl, rfl, ?_⟩
  simp only [free, lent, set_handler, RequestPermitPool.available_permit_count, RequestPermitPool.drop_permit]
  omega

theorem sameLoop_advance {l : Listener ι} {k : Nat} {h : Handler ι} (hk : l.handlers[k]? = some h) (phase : HandlerPhase) :
    SameLoop l (l.set_handler k { h with phase := phase }) := by
  have hcount := countP_set_same (·.permit) hk (b := { h with phase := phase }) rfl
  exact ⟨rfl, rfl, rfl, rfl, rfl, congrArg (l.free + ·) hcount⟩

theorem sameLoop_step {l l' : Listener ι} {event : ListenerEvent} (he : event.ofHandler = true)
    (h : l.step event = some l') : SameLoop l l' := by
  cases step_moves h with
  | fails event error hfail => cases event <;> cases hfail <;> cases he
  | begins k hd hk hp => exact sameLoop_advance hk .running
  | parts k hd gate hk hperm hp hg => exact sameLoop_drop hk hperm hg hd.phase
  | ends k hd outcome passed_on gate hk hp hperm hg => exact sameLoop_drop hk hperm hg (.finished outcome)
  | ends_without k hd outcome passed_on hk hp => exact sameLoop_advance hk (.finished outcome)
  | _ => cases he

/-- Whether a loop can fail is up to the loop and to those who ask its gate. -/
theorem fails_isSome {l l' : Listener ι} (hs : SameLoop l l') {event : ListenerEvent} (he : event.isFailure = true) :
    (l'.step event).isSome = (l.step event).isSome := by
  cases event with
  | accept_fails => by_cases hloop : l.loop = .accepting <;> simp [step, hs.loop, hloop]
  | context_fails => simp only [step, hs.loop]; cases l.loop <;> rfl
  | permit_fails =>
    simp only [step, hs.loop, hs.running, hs.asks]
    cases l.loop with
    | accepted stream => cases l.gate.running <;> rfl
    | asking stream => by_cases ha : l.gate.asks = 0 <;> simp [ha]
    | _ => rfl
  | panics => by_cases hloop : l.loop = .accepting <;> simp [step, hs.loop, hloop]
  | _ => cases he

end Listener

namespace Shell

variable {ι : Type*}

/-- A handler of listener `j` leaves the other listeners as they are, and its own
loop but for the permit it may give back. -/
theorem handler_step {s t : Shell ι} {j : Nat} {e : ListenerEvent} (ha : s.Apart) (he : e.ofHandler = true)
    (h : s.step (.listener j e) = some t) :
    t.phase = s.phase ∧ (∀ i, i ≠ j → t.view i = s.view i) ∧
      ∃ l l', s.view j = some l ∧ t.view j = some l' ∧ Listener.SameLoop l l' := by
  have hphase := listener_phase h
  obtain ⟨l, l', hv, -, hl, rfl⟩ := step_listener.1 h
  exact ⟨hphase, fun i hi => view_put_other ha hi l',
    l, l', hv, view_put_self hv (Listener.step_keeps_listener hl), Listener.sameLoop_step he hl⟩

end Shell

/-! ## Each connection to one handler -/

def RuntimeCall.handled {ι : Type*} : RuntimeCall ι → Option (ι × Stream)
  | .handle_connection listener stream => some (listener, stream)
  | _ => none

/-- A handler that has begun, by what it was called with. -/
def Handler.begun {ι : Type*} (h : Handler ι) : List (ι × Stream) :=
  if h.phase = .spawned then [] else [(h.listener, h.stream)]

namespace Listener

variable {ι : Type*}

/-- A handler is called when it begins, and only then. -/
theorem begun_step {l l' : Listener ι} {event : ListenerEvent} (h : l.step event = some l') :
    (l'.handlers.flatMap Handler.begun).Perm
      ((l.call event).filterMap RuntimeCall.handled ++ l.handlers.flatMap Handler.begun) := by
  have hset : ∀ (k : Nat) (hd : Handler ι) (permit : Bool) (phase : HandlerPhase), l.handlers[k]? = some hd →
      hd.phase ≠ .spawned → phase ≠ .spawned →
      ((l.handlers.set k { hd with permit := permit, phase := phase }).flatMap Handler.begun).Perm
        (l.handlers.flatMap Handler.begun) := by
    intro k hd permit phase hk hp hp'
    have hrow : (Handler.begun { hd with permit := permit, phase := phase }).Perm ([] ++ hd.begun) := by
      simp [Handler.begun, hp, hp']
    exact flatMap_set_row Handler.begun hk hrow
  cases step_moves h with
  | spawn stream hloop => simp [spawn_connection, call, Handler.begun]
  | begins k hd hk hp =>
    simp only [call, hk, Option.toList_some, List.map_cons, List.map_nil]
    exact flatMap_set_row Handler.begun hk (by simp [Handler.begun, hp, RuntimeCall.handled])
  | parts k hd gate hk hperm hp hg => exact hset k hd false hd.phase hk hp hp
  | ends k hd outcome passed_on gate hk hp hperm hg =>
    exact hset k hd false (.finished outcome) hk (by simp [hp]) (by simp)
  | ends_without k hd outcome passed_on hk hp =>
    exact hset k hd hd.permit (.finished outcome) hk (by simp [hp]) (by simp)
  | fails event error hfail =>
    rw [Shell.call_eq_nil (by rintro k rfl; cases hfail)]
    exact .refl _
  | _ => exact .refl _

/-- A handler that ends lets go of its permit, unless it has passed it on. -/
theorem ends_gives {l l' : Listener ι} {k : Nat} {outcome : Outcome} {passed_on : Bool}
    (h : l.step (.handler_ends k outcome passed_on) = some l') :
    ∃ hd, l.handlers[k]? = some hd ∧ hd.phase = .running ∧
      l'.handlers = l.handlers.set k { hd with permit := hd.permit && passed_on, phase := .finished outcome } := by
  simp only [step] at h
  split at h
  · rename_i hd hk
    simp only [Option.ite_none_right_eq_some] at h
    obtain ⟨hp, h⟩ := h
    refine ⟨hd, hk, hp, ?_⟩
    by_cases hgives : (hd.permit && !passed_on) = true
    · rw [if_pos hgives] at h
      obtain ⟨gate, -, rfl⟩ := drop_permit_some h
      simp only [Bool.and_eq_true, Bool.not_eq_true'] at hgives
      simp [set_handler, hgives]
    · rw [if_neg hgives] at h
      cases h
      cases hperm : hd.permit <;> cases passed_on <;> simp_all [set_handler]
  · cases h

/-- A handler that has ended and whose connection still has its permit. -/
def Keeps (l : Listener ι) (k : Nat) : Prop :=
  ∃ h, l.handlers[k]? = some h ∧ h.phase.isFinished = true ∧ h.permit = true

theorem keeps_set {l : Listener ι} {i k : Nat} {h : Handler ι} (hk : (l.set_handler i h).Keeps k) :
    l.Keeps k ∨ i = k ∧ h.phase.isFinished = true ∧ h.permit = true := by
  obtain ⟨x, hx, hf, hp⟩ := hk
  rcases getElem?_set_row hx with ⟨rfl, rfl⟩ | ⟨-, hx⟩
  · exact .inr ⟨rfl, hf, hp⟩
  · exact .inl ⟨x, hx, hf, hp⟩

theorem keeps_step {l l' : Listener ι} {event : ListenerEvent} (h : l.step event = some l') {k : Nat} (hk : l'.Keeps k) :
    l.Keeps k ∨ ∃ outcome, event = .handler_ends k outcome true := by
  have hset : ∀ (i : Nat) (hd : Handler ι), l'.handlers = (l.set_handler i hd).handlers →
      (i = k → hd.phase.isFinished = true → hd.permit = true → ∃ outcome, event = .handler_ends k outcome true) →
      l.Keeps k ∨ ∃ outcome, event = .handler_ends k outcome true := by
    intro i hd hhandlers hnew
    have hkept : (l.set_handler i hd).Keeps k := by
      unfold Keeps
      rw [← hhandlers]
      exact hk
    rcases keeps_set hkept with hold | ⟨hik, hf, hp⟩
    · exact .inl hold
    · exact .inr (hnew hik hf hp)
  have hends : ∀ (i : Nat) (outcome : Outcome) (passed_on : Bool), event = .handler_ends i outcome passed_on →
      l.Keeps k ∨ ∃ outcome, event = .handler_ends k outcome true := by
    rintro i outcome passed_on rfl
    obtain ⟨hd, hi, -, hhandlers⟩ := ends_gives h
    refine hset i _ hhandlers fun hik _ hp => ⟨outcome, ?_⟩
    simp only [Bool.and_eq_true] at hp
    rw [hik, hp.2]
  cases step_moves h with
  | spawn stream hloop =>
    obtain ⟨x, hx, hf, hp⟩ := hk
    rcases (getElem?_snoc _ _ _ _).1 hx with hx | ⟨-, rfl⟩
    · exact .inl ⟨x, hx, hf, hp⟩
    · cases hf
  | begins i hd hi hp => exact hset i _ rfl fun _ hf => by cases hf
  | parts i hd gate hi hperm hp hg => exact hset i _ rfl fun _ _ hp => by cases hp
  | ends i hd outcome passed_on => exact hends i outcome passed_on rfl
  | ends_without i hd outcome passed_on => exact hends i outcome passed_on rfl
  | _ => exact .inl hk

end Listener

namespace Shell

variable {ι : Type*}

/-- The handlers that have begun, listener by listener. -/
def begun (s : Shell ι) : List (ι × Stream) := s.listeners.flatMap fun a => a.handlers.flatMap Handler.begun

theorem begun_put {s : Shell ι} {j : Nat} {l l' : Listener ι} {added : List (ι × Stream)} (hv : s.view j = some l)
    (h : (l'.handlers.flatMap Handler.begun).Perm (added ++ l.handlers.flatMap Handler.begun)) :
    (s.put j l').begun.Perm (added ++ s.begun) := by
  obtain ⟨a, ha, -, -, -, -, hhandlers, -⟩ := view_some.1 hv
  rw [put_eq ha]
  refine flatMap_set_row (fun a => a.handlers.flatMap Handler.begun) ha ?_
  rw [hhandlers]
  exact h

/-- The runtime has been given each of them once. -/
def Called (s : Shell ι) : Prop := (s.calls.filterMap RuntimeCall.handled).Perm s.begun

theorem called_step {s t : Shell ι} {event : ShellEvent} (hc : s.Called) (h : s.step event = some t) : t.Called := by
  unfold Called at hc ⊢
  have hother : ∀ call : RuntimeCall ι, call.handled = none →
      ((s.calls ++ [call]).filterMap RuntimeCall.handled).Perm s.begun := by
    intro call hnone
    simpa [List.filterMap_append, hnone] using hc
  rcases step_cases h with ⟨ok, -, -, rfl⟩ | ⟨j, e, l, l', -, hv, -, hl, rfl⟩ | ⟨failure, -, -, rfl⟩ |
    ⟨failure, told, l, l', -, -, hv, hl, rfl⟩ | ⟨ok, failure, told, -, -, -, rfl⟩
  · exact hother _ rfl
  · have hbegun := begun_put hv (Listener.begun_step hl)
    rw [List.filterMap_append]
    calc s.calls.filterMap RuntimeCall.handled ++ (l.call e).filterMap RuntimeCall.handled
      _ |>.Perm ((l.call e).filterMap RuntimeCall.handled ++ s.calls.filterMap RuntimeCall.handled) := List.perm_append_comm
      _ |>.Perm ((l.call e).filterMap RuntimeCall.handled ++ s.begun) := hc.append_left _
      _ |>.Perm (s.put j l').begun := hbegun.symm
  · exact hc
  · have hbegun : (s.put told l').begun.Perm ([] ++ s.begun) := begun_put hv (Listener.begun_step hl)
    rw [put_calls]
    exact hc.trans hbegun.symm
  · exact hother _ rfl

theorem called_bind {kind : ShellKind} {limit : RequestConcurrencyLimit} {listeners : List ι} {s : Shell ι}
    (h : bind kind limit listeners = some s) : s.Called := by
  have hnone : ∀ a ∈ s.listeners, a.handlers.flatMap Handler.begun = [] := by
    intro a ha
    obtain ⟨j, hj⟩ := List.mem_iff_getElem?.1 ha
    obtain ⟨hlt, -⟩ := List.getElem?_eq_some_iff.1 hj
    obtain ⟨l, hv⟩ := viewed_bind h j hlt
    obtain ⟨listener, gate, -, -, rfl⟩ := bind_view h hv
    obtain ⟨b, hb, -, -, -, -, hhandlers, -⟩ := view_some.1 hv
    rw [hj] at hb
    cases hb
    rw [hhandlers]
    rfl
  unfold Called begun
  rw [(bind_binding h).1.calls, List.flatMap_eq_nil_iff.2 hnone]
  exact .refl _

/-! ## Why loops end -/

/-- Listener `j` has failed. -/
def FailedAt (s : Shell ι) (j : Nat) : Prop := ∃ l error, s.view j = some l ∧ l.loop = .failed error

theorem failedAt_step {s t : Shell ι} {event : ShellEvent} (ha : s.Apart) (h : s.step event = some t) {j : Nat}
    (hf : s.FailedAt j) : t.FailedAt j := by
  obtain ⟨l, error, hv, hloop⟩ := hf
  obtain ⟨l', hv', hloop'⟩ := loop_ended_step ha h hv (by rw [hloop]; rfl)
  exact ⟨l', error, hv', hloop'.trans hloop⟩

/-- Every loop that has ended, ended on one of the events, and nothing is aborted
before a loop has failed. -/
structure Explained (kind : ShellKind) (events : List ShellEvent) (s : Shell ι) : Prop where
  failed : ∀ j, s.FailedAt j → ∃ e, kind.fails e = true ∧ .listener j e ∈ events
  cancelled : ∀ j l, s.view j = some l → l.loop = .cancelled →
    kind = .Multi ∧ .listener j .cancel ∈ events ∧ ∃ i, i ≠ j ∧ s.FailedAt i
  aborted : s.aborted = true → s.listeners = [] ∨ ∃ j, s.FailedAt j

theorem fails_of_allows {s : Shell ι} {event : ListenerEvent} (ha : s.allows event = true) (he : event.isFailure = true) :
    s.kind.fails event = true := by
  cases event <;> simp_all [ListenerEvent.isFailure, allows, ShellKind.fails]

/-- A loop that ends was live, and its shell allowed the end. -/
theorem ending_step {s t : Shell ι} {event : ShellEvent} (ha : s.Apart) (h : s.step event = some t) {j : Nat}
    {l' : Listener ι} (hv : t.view j = some l') (he : l'.loop.ended = true) :
    (∃ l, s.view j = some l ∧ l.loop = l'.loop) ∨
      ∃ l e, event = .listener j e ∧ s.view j = some l ∧ l.loop.ended = false ∧ s.allows e = true ∧
        ((e.isFailure = true ∧ l'.loop ≠ .cancelled) ∨ (e = .cancel ∧ l'.loop = .cancelled)) := by
  rcases (step_view ha h).2 j with hsame | ⟨e, l, x, hevent, hl, hstep, ht⟩
  · exact .inl ⟨l', hsame ▸ hv, rfl⟩
  · rw [hv] at ht
    cases ht
    cases hends : e.ends with
    | false =>
      obtain ⟨hended, hloop⟩ := Listener.loop_of_not_ends hends hstep
      exact .inl ⟨l, hl, (hloop (hended ▸ he)).symm⟩
    | true =>
      obtain ⟨hlive, -⟩ := Listener.live_of_ends hends hstep
      have hlistener : event = .listener j e := by
        rcases hevent with hevent | rfl
        · exact hevent
        · cases hends
      subst hlistener
      obtain ⟨-, -, -, hallow, -, -⟩ := step_listener.1 h
      refine .inr ⟨l, e, rfl, hl, hlive, hallow, ?_⟩
      cases Listener.step_moves hstep with
      | fails event error hfail hloop => exact .inl ⟨hfail, by simp⟩
      | drops | abandons => exact .inr ⟨rfl, rfl⟩
      | _ => cases hends

/-- Nothing is aborted before a loop has failed. -/
theorem aborted_step {kind : ShellKind} {events : List ShellEvent} {s t : Shell ι} {event : ShellEvent} (ha : s.Apart)
    (hx : Explained kind events s) (h : s.step event = some t) (haborted : t.aborted = true) :
    t.listeners = [] ∨ ∃ j, t.FailedAt j := by
  have hold : s.aborted = true → t.listeners = [] ∨ ∃ j, t.FailedAt j := by
    intro hs
    rcases hx.aborted hs with hnone | hf
    · refine .inl (List.length_eq_zero_iff.1 ?_)
      rw [step_length h, hnone]
      rfl
    · obtain ⟨j, hj⟩ := hf
      exact .inr ⟨j, failedAt_step ha h hj⟩
  cases event with
  | start ok =>
    obtain ⟨-, rfl⟩ := start_some h
    cases ok <;> cases haborted
  | listener j e =>
    unfold Shell.aborted at haborted
    rw [listener_phase h] at haborted
    exact hold haborted
  | join j =>
    obtain ⟨l, error, -, hv, hloop, -⟩ := join_some h
    exact .inr ⟨j, failedAt_step ha h ⟨l, error, hv, hloop⟩⟩
  | join_none =>
    obtain ⟨-, hnone, rfl⟩ := join_none_some h
    exact .inl hnone
  | tell_gate =>
    obtain ⟨failure, told, l, l', hp, -⟩ := tell_gate_some h
    exact hold (by unfold Shell.aborted; rw [hp])
  | runtime_stop ok =>
    rcases step_cases h with ⟨_, he, -⟩ | ⟨_, _, _, _, he, -⟩ | ⟨_, -, hne, -⟩ | ⟨_, _, _, _, he, -⟩ |
      ⟨_, _, _, -, hp, -⟩
    · cases he
    · cases he
    · exact absurd rfl (hne ok)
    · cases he
    · exact hold (by unfold Shell.aborted; rw [hp])

theorem explained_step {kind : ShellKind} {events : List ShellEvent} {s t : Shell ι} {event : ShellEvent} (ha : s.Apart)
    (hkind : s.kind = kind) (hx : Explained kind events s) (hm : event ∈ events) (h : s.step event = some t) :
    Explained kind events t := by
  refine ⟨?_, ?_, ?_⟩
  · rintro j ⟨l', error, hv, hloop⟩
    rcases ending_step ha h hv (by rw [hloop]; rfl) with ⟨l, hl, hsame⟩ | ⟨l, e, rfl, -, -, hallow, hend⟩
    · exact hx.failed j ⟨l, error, hl, hsame.trans hloop⟩
    · rcases hend with ⟨hfail, -⟩ | ⟨-, hcancel⟩
      · exact ⟨e, hkind ▸ fails_of_allows hallow hfail, hm⟩
      · rw [hloop] at hcancel
        cases hcancel
  · intro j l' hv hloop
    rcases ending_step ha h hv (by rw [hloop]; rfl) with ⟨l, hl, hsame⟩ | ⟨l, e, rfl, hl, hlive, hallow, hend⟩
    · obtain ⟨hmulti, hcancel, i, hi, hf⟩ := hx.cancelled j l hl (hsame.trans hloop)
      exact ⟨hmulti, hcancel, i, hi, failedAt_step ha h hf⟩
    · rcases hend with ⟨-, hne⟩ | ⟨rfl, -⟩
      · exact absurd hloop hne
      · simp only [allows, Bool.and_eq_true, decide_eq_true_eq] at hallow
        refine ⟨hkind ▸ hallow.2, hm, ?_⟩
        rcases hx.aborted hallow.1 with hnone | ⟨i, hf⟩
        · have hlt := view_lt hl
          rw [hnone] at hlt
          exact absurd hlt (Nat.not_lt_zero j)
        · -- The loop that has failed is not the one that is live.
          refine ⟨i, ?_, failedAt_step ha h hf⟩
          rintro rfl
          obtain ⟨x, error, hv', hfailed⟩ := hf
          rw [hl] at hv'
          cases hv'
          rw [hfailed] at hlive
          cases hlive
  · exact aborted_step ha hx h

/-! ## Every run -/

/-- What handlers and loops have to do with each other in the state `s` that the
run `events` comes to. -/
structure Isolated (kind : ShellKind) (limit : RequestConcurrencyLimit) (events : List ShellEvent) (s : Shell ι) :
    Prop where
  explained : Explained kind events s
  untouched : ∀ j e t, e.ofHandler = true → s.step (.listener j e) = some t →
    t.phase = s.phase ∧ (∀ i, i ≠ j → t.view i = s.view i) ∧
      (∃ l l', s.view j = some l ∧ t.view j = some l' ∧ Listener.SameLoop l l') ∧
      ∀ i e', e'.isFailure = true → (t.step (.listener i e')).isSome = (s.step (.listener i e')).isSome
  spawned : ∀ j l, s.view j = some l → (∀ h ∈ l.handlers, h.listener = l.listener) ∧
    ∃ waiting, l.accepted = l.handlers.map (·.stream) ++ waiting ∧ waiting.length ≤ 1 ∧ (l.loop = .accepting → waiting = [])
  called : s.Called
  ready : ∀ j l k h, s.view j = some l → l.handlers[k]? = some h → h.phase = .spawned →
    ∃ t, s.step (.listener j (.handler_begins k)) = some t ∧ t.calls = s.calls ++ [.handle_connection h.listener h.stream]
  permits : ∀ j l, s.view j = some l → l.free + l.gate.count .granted + l.inHand + l.lent = limit.count
  given_back : ∀ j l k, s.view j = some l → l.Keeps k → ∃ outcome, .listener j (.handler_ends k outcome true) ∈ events

theorem enabled_of_handler {s t : Shell ι} {j : Nat} {e : ListenerEvent} (ha : s.Apart) (he : e.ofHandler = true)
    (h : s.step (.listener j e) = some t) (i : Nat) {e' : ListenerEvent} (hfail : e'.isFailure = true) :
    (t.step (.listener i e')).isSome = (s.step (.listener i e')).isSome := by
  have hallows : t.allows e' = s.allows e' := by
    obtain ⟨hphase, -, -⟩ := handler_step ha he h
    have hkind := step_kind h
    cases e' <;> simp [allows, loops_run, aborted, hphase, hkind]
  have hsame : ∀ l l', s.view i = some l → t.view i = some l' → Listener.SameLoop l l' →
      (t.step (.listener i e')).isSome = (s.step (.listener i e')).isSome := by
    intro l l' hv hv' hs
    simp only [step, hv, hv', hallows]
    cases s.allows e' with
    | false => rfl
    | true => simpa using Listener.fails_isSome hs hfail
  obtain ⟨-, hothers, l, l', hv, hv', hs⟩ := handler_step ha he h
  by_cases hij : i = j
  · subst hij
    exact hsame l l' hv hv' hs
  · cases hi : s.view i with
    | none => simp only [step, hothers i hij, hi]
    | some x => exact hsame x x hi ((hothers i hij).trans hi) (.refl x)

/-- What every step of the run keeps. -/
structure Known (kind : ShellKind) (limit : RequestConcurrencyLimit) (events : List ShellEvent) (s : Shell ι) : Prop where
  inv : Inv limit s
  kind_eq : s.kind = kind
  explained : Explained kind events s
  called : s.Called
  given_back : ∀ j l k, s.view j = some l → l.Keeps k → ∃ outcome, .listener j (.handler_ends k outcome true) ∈ events

theorem known_step {kind : ShellKind} {limit : RequestConcurrencyLimit} {events : List ShellEvent} {s t : Shell ι}
    {event : ShellEvent} (hk : Known kind limit events s) (hm : event ∈ events) (h : s.step event = some t) :
    Known kind limit events t := by
  refine ⟨inv_step hk.inv h, (step_kind h).trans hk.kind_eq, explained_step hk.inv.apart hk.kind_eq hk.explained hm h,
    called_step hk.called h, fun j x k hx hkeeps => ?_⟩
  rcases (step_view hk.inv.apart h).2 j with hsame | ⟨e, l, l', hevent, hl, hstep, ht⟩
  · exact hk.given_back j x k (hsame ▸ hx) hkeeps
  · rw [ht] at hx
    cases hx
    rcases Listener.keeps_step hstep hkeeps with hold | ⟨outcome, rfl⟩
    · exact hk.given_back j l k hl hold
    · rcases hevent with rfl | hstop
      · exact ⟨outcome, hm⟩
      · cases hstop

theorem known_bind {kind : ShellKind} {limit : RequestConcurrencyLimit} {listeners : List ι} {s : Shell ι}
    (events : List ShellEvent) (h : bind kind limit listeners = some s) : Known kind limit events s := by
  obtain ⟨hb, hkind⟩ := bind_binding h
  have hlive : ∀ j l, s.view j = some l → l.loop = .accepting ∧ l.handlers = [] := by
    intro j l hv
    obtain ⟨listener, gate, -, -, rfl⟩ := bind_view h hv
    exact ⟨rfl, rfl⟩
  refine ⟨inv_bind h, hkind, ⟨?_, ?_, ?_⟩, called_bind h, ?_⟩
  · rintro j ⟨l, error, hv, hloop⟩
    rw [(hlive j l hv).1] at hloop
    cases hloop
  · intro j l hv hloop
    rw [(hlive j l hv).1] at hloop
    cases hloop
  · intro haborted
    unfold Shell.aborted at haborted
    rw [hb.phase] at haborted
    cases haborted
  · rintro j l k hv ⟨x, hx, -⟩
    rw [(hlive j l hv).2] at hx
    cases hx

theorem isolated_of_known {kind : ShellKind} {limit : RequestConcurrencyLimit} {events : List ShellEvent} {s : Shell ι}
    (hk : Known kind limit events s) : Isolated kind limit events s where
  explained := hk.explained
  untouched := by
    intro j e t he h
    obtain ⟨hphase, hothers, hown⟩ := handler_step hk.inv.apart he h
    exact ⟨hphase, hothers, hown, fun i e' hfail => enabled_of_handler hk.inv.apart he h i hfail⟩
  spawned := by
    intro j l hv
    have hi := hk.inv.listener j l hv
    obtain ⟨waiting, hacc, hlength⟩ := Listener.waiting_le hi
    refine ⟨fun h hm => (hi.identity h hm).1, waiting, hacc, hlength, fun hloop => ?_⟩
    obtain ⟨rest, hacc', hrest⟩ := hi.order
    rw [hloop] at hrest
    rw [hacc', hrest] at hacc
    exact (List.append_cancel_left hacc).symm
  called := hk.called
  ready := by
    intro j l k h hv hh hp
    have hstep : l.step (.handler_begins k) = some (l.set_handler k { h with phase := .running }) := by
      simp [Listener.step, hh, hp]
    exact ⟨_, step_listener.2 ⟨l, _, hv, rfl, hstep, rfl⟩, by simp [Listener.call, hh]⟩
  permits := by
    intro j l hv
    have hi := hk.inv.listener j l hv
    have hheld := hi.held
    have hconserved := hi.gate.conserved
    simp only [Listener.free, Listener.lent, RequestPermitPool.available_permit_count]
    omega
  given_back := hk.given_back

/-- In every run of every shell, whatever its handlers do: a loop ends because
it has failed, or is aborted in the multi shell after another has, and no step of
a handler ends one or makes it fail; each stream that gets its permit goes to one
handler, in the order of the accepts, and to the runtime once, when the handler
begins; the permits a gate has given out are with its own loop and handlers, and a
handler that has ended has given its own back unless it passed it on. If handlers
had ended in other ways at the same times, every step would have been possible
and come to the same. -/
theorem handlers_isolated (kind : ShellKind) (limit : RequestConcurrencyLimit) (listeners : List ι) (s₀ s : Shell ι)
    (events : List ShellEvent) (h₀ : bind kind limit listeners = some s₀) (hrun : exec step s₀ events = some s) :
    Isolated kind limit events s ∧
      ∀ events', events'.map ShellEvent.blur = events.map ShellEvent.blur →
        ∃ s', exec step s₀ events' = some s' ∧ s'.blur = s.blur ∧
          ∀ e e' : ShellEvent, e'.blur = e.blur → (s'.step e').isSome = (s.step e).isSome := by
  constructor
  · have hlabels : Along step (fun _ event => event ∈ events) s₀ events := along_of_forall (fun _ hm _ => hm) s₀
    have hknown := exec_invariant_along (Known kind limit events) (fun _ _ _ hk hm h => known_step hk hm h) hlabels hrun
      (known_bind events h₀)
    exact isolated_of_known hknown
  · intro events' hsame
    have hblur := exec_blur s₀ events'
    rw [hsame, exec_blur, hrun] at hblur
    obtain ⟨s', hrun', hs'⟩ := Option.map_eq_some_iff.1 hblur.symm
    refine ⟨s', hrun', hs', fun e e' he => ?_⟩
    have hstep := step_blur s' e'
    rw [hs', he, step_blur] at hstep
    simpa using (congrArg Option.isSome hstep).symm

/-- Two streams to listener 0, whose first handler ends with the outcome. -/
def endedRun (outcome : Outcome) : List ShellEvent :=
  [.start true, .listener 0 (.connect 7), .listener 0 (.connect 8)] ++ admission 0 ++
    [.listener 0 (.handler_begins 0), .listener 0 (.handler_ends 0 outcome false)] ++ admission 1

theorem handlers_isolated_endedRun :
    ∃ s₀ s : Shell Nat, bind .Multi Gate.one [4, 5] = some s₀ ∧ exec step s₀ (endedRun .panicked) = some s ∧
      Isolated .Multi Gate.one (endedRun .panicked) s ∧
      ∃ s', exec step s₀ (endedRun .Err) = some s' ∧ s'.blur = s.blur := by
  have hruns : ∀ s₀ s : Shell Nat, bind .Multi Gate.one [4, 5] = some s₀ → exec step s₀ (endedRun .panicked) = some s →
      Isolated .Multi Gate.one (endedRun .panicked) s ∧
        ∃ s', exec step s₀ (endedRun .Err) = some s' ∧ s'.blur = s.blur := by
    intro s₀ s h₀ hrun
    obtain ⟨hisolated, htwo⟩ := handlers_isolated .Multi Gate.one [4, 5] s₀ s (endedRun .panicked) h₀ hrun
    obtain ⟨s', hrun', hs', -⟩ := htwo (endedRun .Err) rfl
    exact ⟨hisolated, s', hrun', hs'⟩
  exact ⟨_, _, rfl, rfl, hruns _ _ rfl rfl⟩

/-- A loop ends only because it has failed itself. -/
def EndsByFailing (kind : ShellKind) : Prop :=
  ∀ (limit : RequestConcurrencyLimit) (listeners : List Unit) (s₀ s : Shell Unit) (events : List ShellEvent),
    bind kind limit listeners = some s₀ → exec step s₀ events = some s → ∀ j l, s.view j = some l →
      l.loop.ended = true → ∃ e, e.isFailure = true ∧ .listener j e ∈ events

/-- The runtime is given the streams of a listener in the order of the accepts. -/
def CalledInOrder (kind : ShellKind) : Prop :=
  ∀ (limit : RequestConcurrencyLimit) (s₀ s : Shell Unit), bind kind limit [()] = some s₀ → Reaches step s₀ s →
    ∀ l, s.view 0 = some l → (s.calls.filterMap RuntimeCall.handled).map (·.2) <+: l.accepted

/-- Every handler that has ended has given its permit back. -/
def AllGivenBack (kind : ShellKind) : Prop :=
  ∀ (limit : RequestConcurrencyLimit) (s₀ s : Shell Unit), bind kind limit [()] = some s₀ → Reaches step s₀ s →
    ∀ j l k, s.view j = some l → ¬ l.Keeps k

/-- Listener 1 is aborted after listener 0 has failed. -/
def abortedRun : List ShellEvent := [.start true, .listener 0 .accept_fails, .join 0, .listener 1 .cancel]

/-- Of two spawned handlers the second begins first. -/
def overtakingRun : List ShellEvent :=
  [.start true, .listener 0 (.connect 7), .listener 0 (.connect 8)] ++ admission 0 ++ admission 1 ++
    [.listener 0 (.handler_begins 1)]

/-- A handler passes its connection on and ends. -/
def passingRun : List ShellEvent :=
  [.start true, .listener 0 (.connect 7)] ++ admission 0 ++
    [.listener 0 (.handler_begins 0), .listener 0 (.handler_ends 0 .Ok true)]

/-- Loops are aborted, handlers overtake each other, and permits outlive them. -/
theorem handlers_not_alone : ¬ EndsByFailing .Multi ∧ ∀ kind, ¬ CalledInOrder kind ∧ ¬ AllGivenBack kind := by
  refine ⟨fun hclaim => ?_, fun kind => ⟨fun hclaim => ?_, fun hclaim => ?_⟩⟩
  · obtain ⟨e, he, hm⟩ := hclaim Gate.one [(), ()] _ _ abortedRun rfl rfl 1 _ rfl rfl
    simp only [abortedRun, List.mem_cons, ShellEvent.listener.injEq, List.not_mem_nil, or_false] at hm
    rcases hm with hm | ⟨hm, -⟩ | hm | ⟨-, rfl⟩
    · cases hm
    · cases hm
    · cases hm
    · cases he
  · have hrun : ∃ s₀ s, bind kind ⟨2, Nat.two_pos⟩ [()] = some s₀ ∧ exec step s₀ overtakingRun = some s ∧
        ∃ l, s.view 0 = some l ∧ ¬ (s.calls.filterMap RuntimeCall.handled).map (·.2) <+: l.accepted := by
      cases kind <;> exact ⟨_, _, rfl, rfl, _, rfl, by decide⟩
    obtain ⟨s₀, s, h₀, hexec, l, hv, hnot⟩ := hrun
    exact hnot (hclaim _ s₀ s h₀ ⟨_, hexec⟩ l hv)
  · have hrun : ∃ s₀ s, bind kind Gate.one [()] = some s₀ ∧ exec step s₀ passingRun = some s ∧
        ∃ l, s.view 0 = some l ∧ l.Keeps 0 := by
      cases kind <;> exact ⟨_, _, rfl, rfl, _, rfl, _, rfl, rfl, rfl⟩
    obtain ⟨s₀, s, h₀, hexec, l, hv, hkeeps⟩ := hrun
    exact hclaim _ s₀ s h₀ ⟨_, hexec⟩ 0 l 0 hv hkeeps

end Shell

end TriadRuntime
