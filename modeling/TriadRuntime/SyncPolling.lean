import TriadRuntime.SyncCalls
/-!
# Polling one listener and blocking in its `accept` (`daemon.rs`)

The multi shell polls: its listeners do not block, and a pass that finds nothing
is made again after a while. The single shell blocks in the `accept` of its one
listener. With one listener the two serve alike: what a client or a handler can
see of a run of the one, it can see of a run of the other, and the error log has
a line for the same requests (in words of its own).
-/

open Systems

namespace TriadRuntime

/-- What a step shows, but for a poll that finds nothing. -/
def SyncEvent.shown : SyncEvent → List SyncEvent
  | .call _ | .should_continue _ | .wakes | .would_block => []
  | event => [event]

theorem SyncEvent.shown_of_seen (event : SyncEvent) : event.shown = event.seen.flatMap SyncEvent.shown := by
  cases event <;> rfl

/-- A pass that has served a stream or failed. -/
def Scan.told {ι : Type*} (scan : Scan ι) : Bool := scan.result != some (.Served false)

namespace SyncDaemon

variable {ι : Type*}

/-- What is seen of some run of a shell with one listener: the steps that show,
the passes that have come to something, and the listener. -/
def Shows (kind : SyncKind) (id : ι) (trace : List SyncEvent) (scans : List (Scan ι))
    (rows : List (BoundListener ι)) : Prop :=
  ∃ events s, exec step (bound kind [id]) events = some s ∧ events.flatMap SyncEvent.shown = trace ∧
    s.passes.filter Scan.told = scans ∧ s.listeners = rows

/-- Where the two are in their passes, and `scan`, the pass of both. -/
inductive SameTurn (scan : Scan ι) : ServePoint → ServePoint → Prop
  | idle : scan = noScan → SameTurn scan .idle .idle
  | accepting : scan = noScan → SameTurn scan (.accepting (.blocking false) 0) (.accepting .direct 0)
  | accepted (i stream) : SameTurn scan (.accepted (.blocking false) i stream) (.accepted .direct i stream)
  | handling (i stream) : SameTurn scan (.handling (.blocking false) i stream) (.handling .direct i stream)
  | logging (i stream) : SameTurn scan (.logging (.blocking false) i stream) (.logging .direct i stream)

/-- A single shell `w` and a multi shell `m` with one listener, but for where they are. -/
structure SameQueue (w m : SyncDaemon ι) : Prop where
  single : w.kind = .Single
  multi : m.kind = .Multi
  one : m.listeners.length = 1
  listeners : w.listeners = m.listeners
  passes : w.passes.filter Scan.told = m.passes.filter Scan.told
  scan : w.scan = m.scan

/-- The two go in step. -/
structure Alongside (w m : SyncDaemon ι) : Prop extends SameQueue w m where
  turn : SameTurn w.scan w.point m.point

section Steps
variable {w m t : SyncDaemon ι}

theorem call_of_once {call : ServeCall} (h : once_step w (.call call) = some t) :
    call = w.kind.once ∧ w.step (.call call) = some t := by
  simp only [once_step] at h
  split at h
  · rename_i hcall
    exact ⟨hcall, h⟩
  · cases h

/-- Calls of one kind only are calls. -/
theorem step_of_once {event : SyncEvent} (h : once_step w event = some t) : w.step event = some t := by
  cases event with
  | call call => exact (call_of_once h).2
  | _ => exact h

theorem SameQueue.with_rows (h : SameQueue w m) (rows : List (BoundListener ι)) (hone : rows.length = 1) :
    SameQueue { w with listeners := rows } { m with listeners := rows } :=
  ⟨h.single, h.multi, hone, rfl, h.passes, h.scan⟩

theorem SameQueue.reported (h : SameQueue w m) (report : Report) :
    SameQueue (w.reported report) (m.reported report) :=
  ⟨h.single, h.multi, h.one, h.listeners, h.passes,
    congrArg (fun scan : Scan ι => { scan with reports := scan.reports ++ [report] }) h.scan⟩

theorem SameQueue.end_scan (h : SameQueue w m) (result : ServeResult) :
    Alongside (w.end_scan (.blocking false) result) (m.end_scan .direct result) := by
  have hpasses : (w.end_scan (.blocking false) result).passes.filter Scan.told =
      (m.end_scan .direct result).passes.filter Scan.told := by
    rw [end_scan_passes, end_scan_passes, List.filter_append, List.filter_append, h.passes, h.scan]
  have hrows : (w.end_scan (.blocking false) result).listeners = (m.end_scan .direct result).listeners := by
    rw [end_scan_listeners, end_scan_listeners, h.listeners]
  have hone : (m.end_scan .direct result).listeners.length = 1 := by
    rw [end_scan_listeners, h.one]
  have hsingle : (w.end_scan (.blocking false) result).kind = .Single := (go_on_kind _ _ result).trans h.single
  have hmulti : (m.end_scan .direct result).kind = .Multi := (go_on_kind _ _ result).trans h.multi
  cases result with
  | Served served => exact ⟨⟨hsingle, hmulti, hone, hrows, hpasses, rfl⟩, .idle rfl⟩
  | Done => exact ⟨⟨hsingle, hmulti, hone, hrows, hpasses, rfl⟩, .idle rfl⟩
  | Err error => exact ⟨⟨hsingle, hmulti, hone, hrows, hpasses, rfl⟩, .idle rfl⟩
  | unwound => exact ⟨⟨hsingle, hmulti, hone, hrows, hpasses, rfl⟩, .idle rfl⟩

/-- A step that shows can be taken by both or by neither. -/
theorem Alongside.in_step (h : Alongside w m) {event : SyncEvent} (hshown : event.shown = [event]) :
    Option.Rel Alongside (w.step event) (m.step event) := by
  have hturn := h.turn
  generalize hw : w.point = p at hturn
  generalize hm : m.point = q at hturn
  cases event with
  | call call => cases hshown
  | should_continue continues => cases hshown
  | wakes => cases hshown
  | would_block => cases hshown
  | connect j stream =>
    simp only [SyncDaemon.step, h.listeners]
    cases m.listeners[j]? with
    | none => exact .none
    | some row => exact .some ⟨h.with_rows _ ((List.length_set ..).trans h.one), h.turn⟩
  | accept =>
    cases hturn with
    | accepting hnone =>
      simp only [SyncDaemon.step, hw, hm, h.listeners]
      cases m.listeners[0]? with
      | none => exact .none
      | some row =>
        obtain ⟨listener, pending, arrived⟩ := row
        cases pending with
        | nil => exact .none
        | cons stream rest =>
          refine .some ⟨?_, .accepted 0 stream⟩
          have hq := (h.reported (.accepted stream)).with_rows (m.listeners.set 0 ⟨listener, rest, arrived⟩)
            ((List.length_set ..).trans h.one)
          exact ⟨hq.single, hq.multi, hq.one, hq.listeners, hq.passes, hq.scan⟩
    | _ => simp only [SyncDaemon.step, hw, hm]; exact .none
  | accept_fails error =>
    cases hturn with
    | accepting hnone =>
      simp only [SyncDaemon.step, hw, hm]
      exact .some ((h.reported (.failed error)).end_scan (.Err error))
    | _ => simp only [SyncDaemon.step, hw, hm]; exact .none
  | handle_stream =>
    cases hturn with
    | accepted i stream =>
      simp only [SyncDaemon.step, hw, hm, h.listeners]
      cases m.listeners[i]? with
      | none => exact .none
      | some row =>
        refine .some ⟨⟨h.single, h.multi, h.one, rfl, h.passes, ?_⟩, .handling i stream⟩
        exact congrArg (fun scan => Scan.mk scan.reports (scan.handed ++ [⟨i, row.listener, stream⟩]) scan.result) h.scan
    | _ => simp only [SyncDaemon.step, hw, hm]; exact .none
  | handler_returns outcome =>
    cases hturn with
    | handling i stream =>
      simp only [SyncDaemon.step, hw, hm]
      cases outcome with
      | Ok => exact .some (h.end_scan (.Served true))
      | Err => exact .some ⟨⟨h.single, h.multi, h.one, h.listeners, h.passes, h.scan⟩, .logging i stream⟩
      | panicked => exact .some (h.end_scan .unwound)
    | _ => simp only [SyncDaemon.step, hw, hm]; exact .none
  | log ok =>
    cases hturn with
    | logging i stream =>
      simp only [SyncDaemon.step, hw, hm]
      exact .some (h.end_scan _)
    | _ => simp only [SyncDaemon.step, hw, hm]; exact .none

/-- What one of the two can show, the other can too, and they still go in step. -/
theorem Alongside.both (h : Alongside w m) {event : SyncEvent} (hshown : event.shown = [event]) :
    (∀ t, w.step event = some t → ∃ u, m.step event = some u ∧ Alongside t u) ∧
      ∀ u, m.step event = some u → ∃ t, w.step event = some t ∧ Alongside t u := by
  have hrel := h.in_step hshown
  constructor
  · intro t ht
    rw [ht] at hrel
    generalize m.step event = o at hrel ⊢
    cases hrel with
    | some hu => exact ⟨_, rfl, hu⟩
  · intro u hu
    rw [hu] at hrel
    generalize w.step event = o at hrel ⊢
    cases hrel with
    | some ht => exact ⟨_, rfl, ht⟩

theorem scan_first (hone : m.listeners.length = 1) : m.scan_at .direct 0 = { m with point := .accepting .direct 0 } := by
  rw [scan_at, if_pos (by rw [hone]; exact Nat.one_pos)]

/-- The multi shell makes its pass where the single shell accepts. -/
theorem SameQueue.begins (h : SameQueue w m) (hnone : w.scan = noScan) :
    Alongside { w with point := .accepting (.blocking false) 0 } { m with point := .accepting .direct 0 } :=
  ⟨⟨h.single, h.multi, h.one, h.listeners, h.passes, h.scan⟩, .accepting hnone⟩

/-- The single shell does what the multi shell can show. -/
theorem Alongside.polled (h : Alongside w m) {event : SyncEvent} (hs : once_step w event = some t) :
    ∃ events u, exec step m events = some u ∧ events.flatMap SyncEvent.shown = event.shown ∧ Alongside t u := by
  have hshow : event.shown = [event] → ∃ events u, exec step m events = some u ∧
      events.flatMap SyncEvent.shown = event.shown ∧ Alongside t u := by
    intro hshown
    obtain ⟨u, hu, ht⟩ := (h.both hshown).1 t (step_of_once hs)
    exact ⟨[event], u, exec_cons.2 ⟨u, hu, rfl⟩, List.append_nil _, ht⟩
  have hturn := h.turn
  generalize hw : w.point = p at hturn
  generalize hm : m.point = q at hturn
  cases event with
  | call call =>
    obtain ⟨rfl, hs⟩ := call_of_once hs
    rw [h.single] at hs
    cases hturn with
    | idle hnone =>
      rw [SyncKind.once, step_of_once (once_again h.single hw)] at hs
      cases hs
      refine ⟨[.call .try_serve_next_stream], _, exec_cons.2 ⟨_, step_of_once (once_step_try h.multi hm), rfl⟩, rfl, ?_⟩
      rw [scan_first h.one]
      exact h.begins hnone
    | _ => simp only [step, hw] at hs; cases hs
  | should_continue continues => cases hturn <;> simp only [once_step, SyncDaemon.step, hw] at hs <;> cases hs
  | wakes => cases hturn <;> simp only [once_step, SyncDaemon.step, hw] at hs <;> cases hs
  | would_block => cases hturn <;> simp only [once_step, SyncDaemon.step, hw] at hs <;> cases hs
  | _ => exact hshow rfl

/-- The two go in step, or the multi shell has polled in vain and the single shell
still waits in its `accept`. -/
def Lags (m w : SyncDaemon ι) : Prop :=
  Alongside w m ∨ (m.point = .idle ∧ Alongside w { m with point := .accepting .direct 0 })

/-- A poll that finds nothing. -/
theorem SameQueue.blocked_end (h : SameQueue w m) (hnone : w.scan = noScan) :
    ((m.reported .would_block).end_scan .direct (.Served false)).point = .idle ∧
      SameQueue w ((m.reported .would_block).end_scan .direct (.Served false)) := by
  refine ⟨rfl, h.single, ?_, ?_, ?_, ?_, hnone⟩
  · exact (go_on_kind _ _ _).trans h.multi
  · rw [end_scan_listeners]
    exact h.one
  · rw [end_scan_listeners]
    exact h.listeners
  · rw [end_scan_passes, List.filter_append, h.passes]
    exact (List.append_nil _).symm

/-- What the multi shell shows before a poll has found nothing, the single shell can. -/
theorem Alongside.blocked (h : Alongside w m) {event : SyncEvent} (hs : once_step m event = some t) :
    ∃ events u, exec step w events = some u ∧ events.flatMap SyncEvent.shown = event.shown ∧ Lags t u := by
  have hshow : event.shown = [event] → ∃ events u, exec step w events = some u ∧
      events.flatMap SyncEvent.shown = event.shown ∧ Lags t u := by
    intro hshown
    obtain ⟨u, hu, ht⟩ := (h.both hshown).2 t (step_of_once hs)
    exact ⟨[event], u, exec_cons.2 ⟨u, hu, rfl⟩, List.append_nil _, .inl ht⟩
  have hturn := h.turn
  generalize hw : w.point = p at hturn
  generalize hm : m.point = q at hturn
  cases event with
  | call call =>
    obtain ⟨rfl, hs⟩ := call_of_once hs
    rw [h.multi] at hs
    cases hturn with
    | idle hnone =>
      rw [SyncKind.once, step_of_once (once_step_try h.multi hm), scan_first h.one] at hs
      cases hs
      exact ⟨[.call .serve_next_stream], _, exec_cons.2 ⟨_, step_of_once (once_again h.single hw), rfl⟩, rfl,
        .inl (h.begins hnone)⟩
    | _ => simp only [step, hm] at hs; cases hs
  | should_continue continues => cases hturn <;> simp only [once_step, step, hm] at hs <;> cases hs
  | wakes => cases hturn <;> simp only [once_step, step, hm] at hs <;> cases hs
  | would_block =>
    cases hturn with
    | accepting hnone =>
      have hend : (m.reported .would_block).scan_at .direct 1 =
          (m.reported .would_block).end_scan .direct (.Served false) :=
        if_neg (show ¬ 1 < m.listeners.length by rw [h.one]; exact Nat.lt_irrefl 1)
      simp only [once_step, step, hm, hend] at hs
      cases hs
      obtain ⟨hidle, hq⟩ := h.blocked_end hnone
      -- The single shell stays in its `accept`.
      refine ⟨[], w, rfl, rfl, .inr ⟨hidle, ⟨hq.single, hq.multi, hq.one, hq.listeners, hq.passes, hq.scan⟩, ?_⟩⟩
      rw [hw]
      exact .accepting hnone
    | _ => simp only [once_step, step, hm] at hs; cases hs
  | _ => exact hshow rfl

/-- The multi shell does what the single shell can show. -/
theorem Lags.blocked (h : Lags m w) {event : SyncEvent} (hs : once_step m event = some t) :
    ∃ events u, exec step w events = some u ∧ events.flatMap SyncEvent.shown = event.shown ∧ Lags t u := by
  rcases h with h | ⟨hidle, h⟩
  · exact h.blocked hs
  · cases event with
    -- The next poll begins where the single shell has been waiting.
    | call call =>
      obtain ⟨rfl, hs⟩ := call_of_once hs
      have hmulti : m.kind = .Multi := h.multi
      have hone : m.listeners.length = 1 := h.one
      rw [hmulti, SyncKind.once, step_of_once (once_step_try hmulti hidle), scan_first hone] at hs
      cases hs
      exact ⟨[], w, rfl, rfl, .inl h⟩
    | connect j stream =>
      obtain ⟨row, hrow, rfl⟩ := Option.map_eq_some_iff.1 (step_of_once hs)
      have hwaits : { m with point := .accepting .direct 0 }.step (.connect j stream) = some { m with
          point := .accepting .direct 0
          listeners := m.listeners.set j
            { row with pending := row.pending ++ [stream], arrived := row.arrived ++ [stream] } } := by
        simp only [step, hrow, Option.map_some]
      obtain ⟨u, hu, ht⟩ := (h.both rfl).2 _ hwaits
      exact ⟨[.connect j stream], u, exec_cons.2 ⟨u, hu, rfl⟩, rfl, .inr ⟨hidle, ht⟩⟩
    | _ => simp only [once_step, step, hidle] at hs; cases hs

end Steps

theorem alongside_bound (id : ι) : Alongside (bound .Single [id]) (bound .Multi [id]) :=
  ⟨⟨rfl, rfl, rfl, rfl, rfl, rfl⟩, .idle rfl⟩

theorem shown_eq_of_seen_eq {events calls : List SyncEvent}
    (h : calls.flatMap SyncEvent.seen = events.flatMap SyncEvent.seen) :
    calls.flatMap SyncEvent.shown = events.flatMap SyncEvent.shown := by
  have hsplit : ∀ l : List SyncEvent, l.flatMap SyncEvent.shown = (l.flatMap SyncEvent.seen).flatMap SyncEvent.shown := by
    intro l
    rw [List.flatMap_assoc]
    exact congrArg (l.flatMap ·) (funext SyncEvent.shown_of_seen)
  rw [hsplit calls, h, ← hsplit events]

theorem Lags.same (h : Lags m w) :
    w.passes.filter Scan.told = m.passes.filter Scan.told ∧ w.listeners = m.listeners := by
  rcases h with h | ⟨-, h⟩
  · exact ⟨h.passes, h.listeners⟩
  · exact ⟨h.passes, h.listeners⟩

/-- Any run of a shell shows what a run of its calls that serve once shows. -/
theorem Shows.once {kind : SyncKind} {id : ι} {trace : List SyncEvent} {scans : List (Scan ι)}
    {rows : List (BoundListener ι)} (h : Shows kind id trace scans rows) :
    ∃ calls u, exec once_step (bound kind [id]) calls = some u ∧ calls.flatMap SyncEvent.shown = trace ∧
      u.passes.filter Scan.told = scans ∧ u.listeners = rows := by
  obtain ⟨events, s, hrun, rfl, rfl, rfl⟩ := h
  obtain ⟨calls, u, hcalls, hseen, hu⟩ := exec_traces SyncEvent.seen SyncEvent.seen Repeats
    (fun _ _ _ _ hr hs => hr.step hs) hrun (repeats_bound kind [id])
  exact ⟨calls, u, hcalls, shown_eq_of_seen_eq hseen, by rw [hu.passes_eq], hu.listeners⟩

/-- With one listener, a client and a handler cannot tell the polling shell from
the blocking one, and the error log has a line for the same requests. -/
theorem polling_serves_as_blocking (id : ι) (trace : List SyncEvent) (scans : List (Scan ι))
    (rows : List (BoundListener ι)) : Shows .Single id trace scans rows ↔ Shows .Multi id trace scans rows := by
  constructor
  · intro h
    obtain ⟨calls, w, hcalls, rfl, rfl, rfl⟩ := h.once
    obtain ⟨polls, m, hpolls, hshown, hm⟩ := exec_traces SyncEvent.shown SyncEvent.shown Alongside
      (fun _ _ _ _ hr hs => hr.polled hs) hcalls (alongside_bound id)
    exact ⟨polls, m, hpolls, hshown, hm.passes.symm, hm.listeners.symm⟩
  · intro h
    obtain ⟨calls, m, hcalls, rfl, rfl, rfl⟩ := h.once
    obtain ⟨blocks, w, hblocks, hshown, hw⟩ := exec_traces SyncEvent.shown SyncEvent.shown Lags
      (fun _ _ _ _ hr hs => hr.blocked hs) hcalls (.inl (alongside_bound id))
    exact ⟨blocks, w, hblocks, hshown, hw.same.1, hw.same.2⟩

end SyncDaemon

end TriadRuntime
