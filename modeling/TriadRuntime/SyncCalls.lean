import TriadRuntime.SyncProgress
/-!
# The serving loops as repeated calls (`daemon.rs`)

`serve_next_stream` and `serve_streams` of the multi shell are loops around
`try_serve_next_stream`, and `serve_streams` of the single shell does what
`serve_next_stream` does, again and again. So a daemon could do without them:
what it serves in any run, a caller gets by repeating the call that serves once.
-/

open Systems

namespace TriadRuntime

/-- The call that goes over the listeners once. -/
def SyncKind.once : SyncKind → ServeCall
  | .Multi => .try_serve_next_stream
  | .Single => .serve_next_stream

/-- That call, once it has made `scan`. -/
def SyncKind.once_call {ι : Type*} (kind : SyncKind) (scan : Scan ι) : Finished ι :=
  ⟨kind.once, [scan],
    match kind, scan.result with
    | .Multi, some result => result
    | .Single, some (.Err error) => .Err error
    | .Single, some .unwound => .unwound
    | _, _ => .Done⟩

/-- The same pass, made by that call. -/
def Within.once : Within → Within
  | .direct | .next _ => .direct
  | .blocking _ => .blocking false

/-- The shell that makes such passes. -/
def Within.kind : Within → SyncKind
  | .direct | .next _ => .Multi
  | .blocking _ => .Single

/-- The same point, where no loop is around the call. -/
def ServePoint.once : ServePoint → ServePoint
  | .idle | .streams_head | .next_head _ | .sleeping _ => .idle
  | .accepting within i => .accepting within.once i
  | .accepted within i stream => .accepted within.once i stream
  | .handling within i stream => .handling within.once i stream
  | .logging within i stream => .logging within.once i stream

/-- What a step shows to clients, handlers and the error log. -/
def SyncEvent.seen : SyncEvent → List SyncEvent
  | .call _ | .should_continue _ | .wakes => []
  | event => [event]

namespace SyncDaemon

variable {ι : Type*}

/-- A daemon of which nothing but that call is made. -/
def once_step (s : SyncDaemon ι) (event : SyncEvent) : Option (SyncDaemon ι) :=
  match event with
  | .call call => if call = s.kind.once then s.step (.call call) else none
  | event => s.step event

/-- Both have the same queues, a call has been made for each pass, and the pass
under way has shown the same. -/
structure Alike (s u : SyncDaemon ι) : Prop where
  kind : u.kind = s.kind
  listeners : u.listeners = s.listeners
  finished : u.finished = s.passes.map s.kind.once_call
  scans : u.scans = []
  scan : u.scan = s.scan

/-- `u` is where `s` is, but for the loops around the pass. -/
structure Repeats (s u : SyncDaemon ι) : Prop extends Alike s u where
  point : u.point = s.point.once
  fits : ∀ within, s.point.within = some within → within.kind = s.kind

/-- The caller has at most to call again for `u` to be where `t` is. -/
def Catches (t u : SyncDaemon ι) : Prop :=
  ∃ calls v, exec once_step u calls = some v ∧ calls.flatMap SyncEvent.seen = [] ∧ Repeats t v

section Steps
variable {s t u : SyncDaemon ι}

theorem Repeats.catches (h : Repeats s u) : Catches s u := ⟨[], u, rfl, rfl, h⟩

theorem Alike.moves (h : Alike s u) (point : ServePoint)
    (hfits : ∀ within, point.within = some within → within.kind = s.kind) :
    Repeats { s with point := point } { u with point := point.once } :=
  ⟨⟨h.kind, h.listeners, h.finished, h.scans, h.scan⟩, rfl, hfits⟩

theorem Alike.reported (h : Alike s u) (report : Report) : Alike (s.reported report) (u.reported report) :=
  ⟨h.kind, h.listeners, h.finished, h.scans,
    congrArg (fun scan : Scan ι => { scan with reports := scan.reports ++ [report] }) h.scan⟩

theorem Alike.hands (h : Alike s u) (handed : Handed ι) :
    Alike { s with scan := { s.scan with handed := s.scan.handed ++ [handed] } }
      { u with scan := { u.scan with handed := u.scan.handed ++ [handed] } } :=
  ⟨h.kind, h.listeners, h.finished, h.scans,
    congrArg (fun scan : Scan ι => { scan with handed := scan.handed ++ [handed] }) h.scan⟩

/-- The loop around the call goes on between two passes. -/
theorem Repeats.between (h : Repeats s u) (hidle : s.point.once = .idle) (point : ServePoint)
    (hpoint : point.once = .idle) (hfits : ∀ within, point.within = some within → within.kind = s.kind) :
    Repeats { s with point := point } u :=
  ⟨⟨h.kind, h.listeners, h.finished, h.scans, h.scan⟩, by rw [h.point, hidle, hpoint], hfits⟩

theorem Repeats.returns (h : Repeats s u) (hidle : s.point.once = .idle) (call : ServeCall) (result : ServeResult) :
    Repeats (s.returns call result) u :=
  ⟨⟨h.kind, h.listeners, h.finished.trans (by rw [returns_passes]; rfl), h.scans, h.scan⟩, h.point.trans hidle, nofun⟩

/-- Where a pass leads, but for the loop of the single shell. -/
theorem end_scan_shape (s : SyncDaemon ι) (within : Within) (result : ServeResult)
    (hloop : within = .blocking true → ∀ served, result ≠ .Served served) :
    (s.end_scan within result).scan = noScan ∧ (s.end_scan within result).point.once = .idle ∧
      ∀ w, (s.end_scan within result).point.within = some w → w.kind = within.kind := by
  unfold SyncDaemon.end_scan
  cases result with
  | Done => exact ⟨rfl, rfl, nofun⟩
  | Err error => exact ⟨rfl, rfl, nofun⟩
  | unwound => exact ⟨rfl, rfl, nofun⟩
  | Served served =>
    cases within with
    | direct => exact ⟨rfl, rfl, nofun⟩
    | next outer =>
      cases served with
      | true =>
        cases outer with
        | true => exact ⟨rfl, rfl, fun w hw => by cases hw; rfl⟩
        | false => exact ⟨rfl, rfl, nofun⟩
      | false => exact ⟨rfl, rfl, fun w hw => by cases hw; rfl⟩
    | blocking incoming =>
      cases incoming with
      | true => exact absurd rfl (hloop rfl served)
      | false => exact ⟨rfl, rfl, nofun⟩

/-- The call that serves once is at its end. -/
theorem end_scan_once {within : Within} (hfits : within.kind = u.kind) (hnone : u.scans = []) (result : ServeResult) :
    (u.end_scan within.once result).point = .idle ∧ (u.end_scan within.once result).scans = [] ∧
      (u.end_scan within.once result).finished =
        u.finished ++ [u.kind.once_call { u.scan with result := some result }] := by
  rw [← hfits]
  have hscans : u.scans ++ [{ u.scan with result := some result }] = [{ u.scan with result := some result }] := by
    rw [hnone, List.nil_append]
  unfold SyncDaemon.end_scan
  rw [hscans]
  cases within with
  | direct => cases result <;> exact ⟨rfl, rfl, rfl⟩
  | next outer => cases result <;> exact ⟨rfl, rfl, rfl⟩
  | blocking incoming => cases result <;> exact ⟨rfl, rfl, rfl⟩

/-- The single shell accepts again in `serve_streams`: the caller calls again. -/
theorem once_again (hsingle : s.kind = .Single) (hidle : s.point = .idle) :
    once_step s (.call .serve_next_stream) = some { s with point := .accepting (.blocking false) 0 } := by
  simp only [once_step, hsingle, SyncKind.once, if_true, step, hidle]

/-- A pass ends, and the loop around it does what it does. -/
theorem Alike.end_scan (h : Alike s u) {within : Within} (hfits : within.kind = s.kind) (result : ServeResult) :
    Catches (s.end_scan within result) (u.end_scan within.once result) := by
  have honce : within.once = .blocking true → ∀ served, result ≠ .Served served := by
    cases within <;> simp [Within.once]
  obtain ⟨huscan, -, -⟩ := end_scan_shape u within.once result honce
  have hkind : (s.end_scan within result).kind = s.kind := go_on_kind _ within result
  have hukind : (u.end_scan within.once result).kind = u.kind := go_on_kind _ within.once result
  obtain ⟨hidle, hscans, hfinished⟩ := end_scan_once (hfits.trans h.kind.symm) h.scans result
  have hcalls : (u.end_scan within.once result).finished =
      (s.end_scan within result).passes.map s.kind.once_call := by
    rw [hfinished, end_scan_passes, h.finished, h.kind, h.scan, List.map_append, List.map_singleton]
  have hrows : (u.end_scan within.once result).listeners = (s.end_scan within result).listeners := by
    rw [end_scan_listeners, end_scan_listeners, h.listeners]
  by_cases hloop : within = .blocking true → ∀ served, result ≠ .Served served
  -- The loops of the multi shell go on without an `accept` of their own.
  · obtain ⟨hscan, hpoint, hwithin⟩ := end_scan_shape s within result hloop
    refine Repeats.catches ⟨⟨?_, hrows, ?_, hscans, huscan.trans hscan.symm⟩, hidle.trans hpoint.symm, ?_⟩
    · rw [hukind, hkind, h.kind]
    · rw [hcalls, hkind]
    · intro w hw
      rw [hwithin w hw, hkind, hfits]
  -- `incoming` accepts at once, so the caller has to call again.
  · push Not at hloop
    obtain ⟨rfl, served, rfl⟩ := hloop
    have hsingle := hukind.trans (h.kind.trans hfits.symm)
    refine ⟨[.call .serve_next_stream], _, exec_cons.2 ⟨_, once_again hsingle hidle, rfl⟩, rfl,
      ⟨⟨hukind.trans h.kind, hrows, hcalls, hscans, huscan⟩, rfl, ?_⟩⟩
    intro w hw
    cases hw
    exact hfits

/-- The loop over the listeners goes on, in both. -/
theorem Alike.scan_at (h : Alike s u) {within : Within} (hfits : within.kind = s.kind) (index : Nat) :
    Catches (s.scan_at within index) (u.scan_at within.once index) := by
  have hlen : u.listeners.length = s.listeners.length := by rw [h.listeners]
  by_cases hlt : index < s.listeners.length
  · rw [SyncDaemon.scan_at, SyncDaemon.scan_at, if_pos hlt, if_pos (hlen ▸ hlt)]
    exact (h.moves (.accepting within index) fun w hw => by cases hw; exact hfits).catches
  · rw [SyncDaemon.scan_at, SyncDaemon.scan_at, if_neg hlt, if_neg (hlen ▸ hlt)]
    exact h.end_scan hfits (.Served false)

/-- The caller matches `event` in `u`, which then is where `t` is. -/
def Matches (event : SyncEvent) (t u : SyncDaemon ι) : Prop :=
  ∃ events v, exec once_step u events = some v ∧ events.flatMap SyncEvent.seen = event.seen ∧ Repeats t v

theorem Repeats.unseen (h : Repeats t u) {event : SyncEvent} (hseen : event.seen = []) : Matches event t u :=
  ⟨[], u, rfl, hseen.symm, h⟩

/-- The same step, after which the caller may have to call again. -/
theorem Catches.after {u' : SyncDaemon ι} {event own : SyncEvent} (hc : Catches t u') (hown : once_step u own = some u')
    (hseen : own.seen = event.seen) : Matches event t u := by
  obtain ⟨calls, v, hcalls, hnone, hv⟩ := hc
  refine ⟨own :: calls, v, exec_cons.2 ⟨u', hown, hcalls⟩, ?_, hv⟩
  rw [List.flatMap_cons, hnone, List.append_nil, hseen]

theorem once_step_try (hkind : s.kind = .Multi) (hidle : s.point = .idle) :
    once_step s (.call .try_serve_next_stream) = some (s.scan_at .direct 0) := by
  simp only [once_step, hkind, SyncKind.once, if_true, step, hidle]

/-- A call of the caller's is begun: a loop, or the call that serves once. -/
theorem Repeats.call (h : Repeats s u) {call : ServeCall} (hs : s.step (.call call) = some t) :
    Matches (.call call) t u := by
  have hpoint := h.point
  simp only [step] at hs
  split at hs
  · rename_i hp hk
    cases hs
    rw [hp] at hpoint
    have hc : Catches (s.scan_at .direct 0) (u.scan_at .direct 0) :=
      h.toAlike.scan_at (show Within.direct.kind = s.kind from hk.symm) 0
    exact hc.after (once_step_try (h.kind.trans hk) hpoint) rfl
  · rename_i hp hk
    cases hs
    exact (h.between (by rw [hp]; rfl) (.next_head false) rfl fun w hw => by cases hw; exact hk.symm).unseen rfl
  · rename_i hp hk
    cases hs
    exact (h.between (by rw [hp]; rfl) .streams_head rfl fun w hw => by cases hw; exact hk.symm).unseen rfl
  · rename_i hp hk
    cases hs
    rw [hp] at hpoint
    exact (h.toAlike.moves _ fun w hw => by cases hw; exact hk.symm).catches.after
      (once_again (h.kind.trans hk) hpoint) rfl
  · rename_i hp hk
    cases hs
    rw [hp] at hpoint
    exact (h.toAlike.moves (.accepting (.blocking true) 0) fun w hw => by cases hw; exact hk.symm).catches.after
      (once_again (h.kind.trans hk) hpoint) rfl
  · cases hs

/-- Every step of the loops is matched by the call that serves once. -/
theorem Repeats.step (h : Repeats s u) {event : SyncEvent} (hs : s.step event = some t) : Matches event t u := by
  have hrows := h.listeners
  have hpoint := h.point
  have hfits := h.fits
  cases step_moves hs with
  -- what only the loops do: at most a call by the caller
  | tries hp => exact h.call hs
  | calls call point hp hm => exact h.call hs
  | streams_on hp =>
    rw [hp] at hfits
    exact (h.between (by rw [hp]; rfl) (.next_head true) rfl fun w hw => by cases hw; exact hfits _ rfl).unseen rfl
  | streams_done hp => exact (h.returns (by rw [hp]; rfl) _ _).unseen rfl
  | next_on outer hp =>
    rw [hp] at hpoint hfits
    have hc : Catches (s.scan_at (.next outer) 0) (u.scan_at .direct 0) := h.toAlike.scan_at (hfits _ rfl) 0
    exact hc.after (once_step_try (h.kind.trans (hfits _ rfl).symm) hpoint) rfl
  | next_back hp =>
    rw [hp] at hfits
    exact (h.between (by rw [hp]; rfl) .streams_head rfl fun w hw => by cases hw; exact hfits _ rfl).unseen rfl
  | next_done hp => exact (h.returns (by rw [hp]; rfl) _ _).unseen rfl
  | wakes outer hp =>
    rw [hp] at hfits
    exact (h.between (by rw [hp]; rfl) (.next_head outer) rfl fun w hw => by cases hw; exact hfits _ rfl).unseen rfl
  -- what is seen: the same step
  | connect j stream row hrow =>
    have hown : once_step u (.connect j stream) = some { u with
        listeners := u.listeners.set j
          { row with pending := row.pending ++ [stream], arrived := row.arrived ++ [stream] } } := by
      simp only [once_step, SyncDaemon.step, hrows, hrow, Option.map_some]
    refine Catches.after (Repeats.catches ?_) hown rfl
    exact ⟨⟨h.kind, congrArg (fun rows => List.set rows j _) hrows, h.finished, h.scans, h.scan⟩, hpoint, hfits⟩
  | accept within index row stream rest hp hrow hpend =>
    rw [hp] at hpoint hfits
    have hown : once_step u .accept = some { u.reported (.accepted stream) with
        listeners := u.listeners.set index { row with pending := rest }
        point := .accepted within.once index stream } := by
      simp only [once_step, SyncDaemon.step, hpoint, ServePoint.once, hrows, hrow, hpend]
    refine Catches.after (Repeats.catches ?_) hown rfl
    exact ⟨⟨h.kind, congrArg (fun rows => List.set rows index _) hrows, h.finished, h.scans,
      (h.toAlike.reported _).scan⟩, rfl, hfits⟩
  | would_block within index hp hblock =>
    rw [hp] at hpoint hfits
    refine ((h.toAlike.reported .would_block).scan_at (hfits _ rfl) (index + 1)).after
      (?_ : once_step u .would_block = _) rfl
    cases within with
    | direct => simp only [once_step, SyncDaemon.step, hpoint, ServePoint.once, Within.once]
    | next outer => simp only [once_step, SyncDaemon.step, hpoint, ServePoint.once, Within.once]
    | blocking incoming => exact absurd rfl (hblock incoming)
  | accept_fails within index error hp =>
    rw [hp] at hpoint hfits
    refine ((h.toAlike.reported _).end_scan (hfits _ rfl) (.Err error)).after
      (?_ : once_step u (.accept_fails error) = _) rfl
    simp only [once_step, SyncDaemon.step, hpoint, ServePoint.once]
  | handle_stream within index stream row hp hrow =>
    rw [hp] at hpoint hfits
    have hown : once_step u .handle_stream = some { u with
        point := .handling within.once index stream
        scan := { u.scan with handed := u.scan.handed ++ [⟨index, row.listener, stream⟩] } } := by
      simp only [once_step, SyncDaemon.step, hpoint, ServePoint.once, hrows, hrow, Option.map_some]
    refine Catches.after (Repeats.catches ?_) hown rfl
    exact ⟨⟨h.kind, hrows, h.finished, h.scans, (h.toAlike.hands _).scan⟩, rfl, hfits⟩
  | handled within index stream hp =>
    rw [hp] at hpoint hfits
    refine (h.toAlike.end_scan (hfits _ rfl) (.Served true)).after (?_ : once_step u (.handler_returns .Ok) = _) rfl
    simp only [once_step, SyncDaemon.step, hpoint, ServePoint.once]
  | request_error within index stream hp =>
    rw [hp] at hpoint hfits
    refine (h.toAlike.moves (.logging within index stream) hfits).catches.after
      (?_ : once_step u (.handler_returns .Err) = _) rfl
    simp only [once_step, SyncDaemon.step, hpoint, ServePoint.once]
  | panics within index stream hp =>
    rw [hp] at hpoint hfits
    refine (h.toAlike.end_scan (hfits _ rfl) .unwound).after (?_ : once_step u (.handler_returns .panicked) = _) rfl
    simp only [once_step, SyncDaemon.step, hpoint, ServePoint.once]
  | logged within index stream hp =>
    rw [hp] at hpoint hfits
    refine (h.toAlike.end_scan (hfits _ rfl) (.Served true)).after (?_ : once_step u (.log true) = _) rfl
    simp only [once_step, SyncDaemon.step, hpoint, ServePoint.once, if_true]
  | unlogged within index stream hp =>
    rw [hp] at hpoint hfits
    refine (h.toAlike.end_scan (hfits _ rfl) .unwound).after (?_ : once_step u (.log false) = _) rfl
    simp only [once_step, SyncDaemon.step, hpoint, ServePoint.once, Bool.false_eq_true, if_false]

theorem Repeats.passes_eq (h : Repeats s u) : u.passes = s.passes := by
  unfold SyncDaemon.passes
  rw [h.finished, h.scans, List.append_nil, List.flatMap_map]
  exact List.flatMap_singleton' s.passes

theorem repeats_bound (kind : SyncKind) (ids : List ι) : Repeats (bound kind ids) (bound kind ids) :=
  ⟨⟨rfl, rfl, rfl, rfl, rfl⟩, rfl, nofun⟩

end Steps

/-- Whatever is called in a run and however its loops go: a caller of nothing but
the call that serves once can show clients, handlers and the error log the same,
in the same order. It calls once for each pass, which has the same reports, hands
on the same stream and ends the same; and at the end the same connections are
pending and the pass under way is the same. -/
theorem serving_loops_repeat_calls (kind : SyncKind) (ids : List ι) (events : List SyncEvent) (s : SyncDaemon ι)
    (h : exec step (bound kind ids) events = some s) :
    ∃ calls u, exec once_step (bound kind ids) calls = some u ∧
      calls.flatMap SyncEvent.seen = events.flatMap SyncEvent.seen ∧ u.finished = s.passes.map kind.once_call ∧
      u.handed = s.handed ∧ u.listeners = s.listeners ∧ u.scan = s.scan ∧ u.point = s.point.once := by
  have hkind : s.kind = kind :=
    exec_invariant (fun t : SyncDaemon ι => t.kind = kind) (fun _ _ _ ht hs => (step_kind hs).trans ht) h rfl
  obtain ⟨calls, u, hcalls, hseen, hu⟩ := exec_traces SyncEvent.seen SyncEvent.seen Repeats
    (fun _ _ _ _ hr hs => hr.step hs) h (repeats_bound kind ids)
  refine ⟨calls, u, hcalls, hseen, hkind ▸ hu.finished, ?_, hu.listeners, hu.scan, hu.point⟩
  rw [SyncDaemon.handed, SyncDaemon.handed, hu.passes_eq, hu.scan]

theorem serving_loops_repeat_calls_twoListeners :
    ∃ calls u, exec once_step (bound .Multi [true, false]) calls = some u ∧
      u.handed = [⟨1, false, 7⟩, ⟨0, true, 8⟩] ∧ u.finished.length = 2 := by
  obtain ⟨calls, u, hcalls, -, hfinished, hhanded, -, -, -⟩ :=
    serving_loops_repeat_calls .Multi [true, false] twoListeners _ rfl
  exact ⟨calls, u, hcalls, hhanded.trans rfl, by rw [hfinished]; rfl⟩

end SyncDaemon

end TriadRuntime
