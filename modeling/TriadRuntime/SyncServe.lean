import TriadRuntime.AsyncListener
import TriadRuntime.Systems.FileSystem
/-!
# Serving streams (`daemon.rs`)

`try_serve_next_stream` goes over the listeners once, in order, and serves the
first stream that an `accept` gives it. `serve_next_stream` repeats that until a
stream has been served, and `serve_streams` repeats `serve_next_stream`, both as
long as `should_continue` says so. The single shell has one listener and blocks
in its `accept` instead.

Clients connect at any time, between any two steps. What an `accept` reports,
how a handler ends and whether the error log can be written are free.

Trusted: `accept` takes the connection that has waited longest; a panic unwinds
out of the call, and `eprintln!` panics when standard error cannot be written.
-/

open Systems

namespace TriadRuntime

inductive SyncKind where
  | Single
  | Multi
deriving DecidableEq, Repr

/-- A bound listener with the connections that wait at its socket and, for the
theorems only, all that have come. -/
structure BoundListener (ι : Type*) where
  listener : ι
  pending : List Stream
  arrived : List Stream
deriving DecidableEq, Repr

inductive ServeCall where
  | try_serve_next_stream
  | serve_next_stream
  | serve_streams
deriving DecidableEq, Repr

inductive ServeResult where
  /-- `Ok(served)` of `try_serve_next_stream`. -/
  | Served (served : Bool)
  /-- `Ok(())` -/
  | Done
  | Err (error : FsError)
  /-- The call panicked. -/
  | unwound
deriving DecidableEq, Repr

/-- What an `accept` reports. -/
inductive Report where
  | accepted (stream : Stream)
  | would_block
  | failed (error : FsError)
deriving DecidableEq, Repr

/-- A call of `handle_stream`: its arguments, and the listener by its index. -/
structure Handed (ι : Type*) where
  index : Nat
  listener : ι
  stream : Stream
deriving DecidableEq, Repr

/-- One pass over the listeners: what the `accept`s reported, in order, the calls
of `handle_stream`, and how it ended. -/
structure Scan (ι : Type*) where
  reports : List Report
  handed : List (Handed ι)
  result : Option ServeResult
deriving DecidableEq, Repr

/-- A call that has returned, with its passes. -/
structure Finished (ι : Type*) where
  call : ServeCall
  scans : List (Scan ι)
  result : ServeResult
deriving DecidableEq, Repr

/-- Who goes over the listeners. -/
inductive Within where
  /-- `try_serve_next_stream`, called by itself. -/
  | direct
  /-- `serve_next_stream`, called by `serve_streams` if `outer`. -/
  | next (outer : Bool)
  /-- The blocking `accept` of the single shell: `serve_streams` if `incoming`,
  else `serve_next_stream`. -/
  | blocking (incoming : Bool)
deriving DecidableEq, Repr

/-- The call that is under way. -/
def Within.call : Within → ServeCall
  | .direct => .try_serve_next_stream
  | .next outer => if outer then .serve_streams else .serve_next_stream
  | .blocking incoming => if incoming then .serve_streams else .serve_next_stream

inductive ServePoint where
  | idle
  /-- Before `should_continue` in `serve_streams`. -/
  | streams_head
  /-- Before `should_continue` in `serve_next_stream`. -/
  | next_head (outer : Bool)
  | accepting (within : Within) (index : Nat)
  | accepted (within : Within) (index : Nat) (stream : Stream)
  /-- In `handle_stream`. -/
  | handling (within : Within) (index : Nat) (stream : Stream)
  /-- In `report_for_listener`. -/
  | logging (within : Within) (index : Nat) (stream : Stream)
  | sleeping (outer : Bool)
deriving DecidableEq, Repr

/-- `BoundMultiListenerDaemon`, and `BoundSingleListenerDaemon` with one
listener. `scan` is the pass under way, `scans` those that the call under way
has made before. -/
structure SyncDaemon (ι : Type*) where
  kind : SyncKind
  listeners : List (BoundListener ι)
  point : ServePoint
  scan : Scan ι
  scans : List (Scan ι)
  finished : List (Finished ι)
deriving DecidableEq, Repr

inductive SyncEvent where
  /-- A client connects to listener `j`. -/
  | connect (j : Nat) (stream : Stream)
  | call (call : ServeCall)
  | should_continue (continues : Bool)
  | accept
  | would_block
  | accept_fails (error : FsError)
  | handle_stream
  | handler_returns (outcome : Outcome)
  /-- The error is written to standard error, or cannot be. -/
  | log (ok : Bool)
  | wakes
deriving DecidableEq, Repr

/-- The events with which a call panics. -/
def SyncEvent.unwinds : SyncEvent → Bool
  | .handler_returns .panicked | .log false => true
  | _ => false

namespace SyncDaemon

variable {ι : Type*}

def noScan : Scan ι := ⟨[], [], none⟩

def bound (kind : SyncKind) (ids : List ι) : SyncDaemon ι :=
  ⟨kind, ids.map (⟨·, [], []⟩), .idle, noScan, [], []⟩

/-- `s` once an `accept` has reported. -/
def reported (s : SyncDaemon ι) (report : Report) : SyncDaemon ι :=
  { s with scan := { s.scan with reports := s.scan.reports ++ [report] } }

def returns (s : SyncDaemon ι) (call : ServeCall) (result : ServeResult) : SyncDaemon ι :=
  { s with point := .idle, scans := [], finished := s.finished ++ [⟨call, s.scans, result⟩] }

/-- Where the caller of a pass goes on. -/
def go_on (s : SyncDaemon ι) (within : Within) : ServeResult → SyncDaemon ι
  | .Served served =>
    match within with
    | .direct => s.returns within.call (.Served served)
    | .next outer =>
      if served then
        if outer then { s with point := .streams_head } else s.returns .serve_next_stream .Done
      else { s with point := .sleeping outer }
    | .blocking incoming =>
      if incoming then { s with point := .accepting within 0 } else s.returns .serve_next_stream .Done
  | result => s.returns within.call result

def end_scan (s : SyncDaemon ι) (within : Within) (result : ServeResult) : SyncDaemon ι :=
  { s with scan := noScan, scans := s.scans ++ [{ s.scan with result := some result }] }.go_on within result

/-- The loop over the listeners, before its turn `index`. -/
def scan_at (s : SyncDaemon ι) (within : Within) (index : Nat) : SyncDaemon ι :=
  if index < s.listeners.length then { s with point := .accepting within index }
  else s.end_scan within (.Served false)

def step (s : SyncDaemon ι) : SyncEvent → Option (SyncDaemon ι)
  | .connect j stream =>
    s.listeners[j]?.map fun row =>
      { s with
        listeners := s.listeners.set j { row with pending := row.pending ++ [stream], arrived := row.arrived ++ [stream] } }
  | .call call =>
    match s.point, s.kind, call with
    | .idle, .Multi, .try_serve_next_stream => some (s.scan_at .direct 0)
    | .idle, .Multi, .serve_next_stream => some { s with point := .next_head false }
    | .idle, .Multi, .serve_streams => some { s with point := .streams_head }
    | .idle, .Single, .serve_next_stream => some { s with point := .accepting (.blocking false) 0 }
    | .idle, .Single, .serve_streams => some { s with point := .accepting (.blocking true) 0 }
    | _, _, _ => none
  | .should_continue continues =>
    match s.point with
    | .streams_head =>
      some (if continues then { s with point := .next_head true } else s.returns .serve_streams .Done)
    | .next_head outer =>
      some (if continues then s.scan_at (.next outer) 0
        else if outer then { s with point := .streams_head } else s.returns .serve_next_stream .Done)
    | _ => none
  | .accept =>
    match s.point with
    | .accepting within index =>
      match s.listeners[index]? with
      | some row =>
        match row.pending with
        | stream :: rest =>
          some { s.reported (.accepted stream) with
            listeners := s.listeners.set index { row with pending := rest }
            point := .accepted within index stream }
        | [] => none
      | none => none
    | _ => none
  | .would_block =>
    match s.point with
    | .accepting (.blocking _) _ => none
    | .accepting within index =>
      some ((s.reported .would_block).scan_at within (index + 1))
    | _ => none
  | .accept_fails error =>
    match s.point with
    | .accepting within _ =>
      some ((s.reported (.failed error)).end_scan within (.Err error))
    | _ => none
  | .handle_stream =>
    match s.point with
    | .accepted within index stream =>
      s.listeners[index]?.map fun row =>
        { s with
          point := .handling within index stream
          scan := { s.scan with handed := s.scan.handed ++ [⟨index, row.listener, stream⟩] } }
    | _ => none
  | .handler_returns outcome =>
    match s.point with
    | .handling within index stream =>
      match outcome with
      | .Ok => some (s.end_scan within (.Served true))
      | .Err => some { s with point := .logging within index stream }
      | .panicked => some (s.end_scan within .unwound)
    | _ => none
  | .log ok =>
    match s.point with
    | .logging within _ _ => some (s.end_scan within (if ok then .Served true else .unwound))
    | _ => none
  | .wakes =>
    match s.point with
    | .sleeping outer => some { s with point := .next_head outer }
    | _ => none

/-! ## What a step can do -/

/-- The step function once more, as a relation to split a step by. -/
inductive Moves (s : SyncDaemon ι) : SyncEvent → SyncDaemon ι → Prop
  | connect (j stream row) : s.listeners[j]? = some row →
      Moves s (.connect j stream) { s with
        listeners := s.listeners.set j { row with pending := row.pending ++ [stream], arrived := row.arrived ++ [stream] } }
  | tries : s.point = .idle → Moves s (.call .try_serve_next_stream) (s.scan_at .direct 0)
  | calls (call point) : s.point = .idle →
      (call, point) ∈ [(.serve_next_stream, .next_head false), (.serve_streams, .streams_head),
        (.serve_next_stream, .accepting (.blocking false) 0), (.serve_streams, .accepting (.blocking true) 0)] →
      Moves s (.call call) { s with point := point }
  | streams_on : s.point = .streams_head → Moves s (.should_continue true) { s with point := .next_head true }
  | streams_done : s.point = .streams_head → Moves s (.should_continue false) (s.returns .serve_streams .Done)
  | next_on (outer) : s.point = .next_head outer → Moves s (.should_continue true) (s.scan_at (.next outer) 0)
  | next_back : s.point = .next_head true → Moves s (.should_continue false) { s with point := .streams_head }
  | next_done : s.point = .next_head false →
      Moves s (.should_continue false) (s.returns .serve_next_stream .Done)
  | accept (within index row stream rest) : s.point = .accepting within index → s.listeners[index]? = some row →
      row.pending = stream :: rest →
      Moves s .accept { s.reported (.accepted stream) with
        listeners := s.listeners.set index { row with pending := rest }
        point := .accepted within index stream }
  | would_block (within index) : s.point = .accepting within index → (∀ incoming, within ≠ .blocking incoming) →
      Moves s .would_block ((s.reported .would_block).scan_at within (index + 1))
  | accept_fails (within index error) : s.point = .accepting within index →
      Moves s (.accept_fails error) ((s.reported (.failed error)).end_scan within (.Err error))
  | handle_stream (within index stream row) : s.point = .accepted within index stream →
      s.listeners[index]? = some row →
      Moves s .handle_stream { s with
        point := .handling within index stream
        scan := { s.scan with handed := s.scan.handed ++ [⟨index, row.listener, stream⟩] } }
  | handled (within index stream) : s.point = .handling within index stream →
      Moves s (.handler_returns .Ok) (s.end_scan within (.Served true))
  | request_error (within index stream) : s.point = .handling within index stream →
      Moves s (.handler_returns .Err) { s with point := .logging within index stream }
  | panics (within index stream) : s.point = .handling within index stream →
      Moves s (.handler_returns .panicked) (s.end_scan within .unwound)
  | logged (within index stream) : s.point = .logging within index stream →
      Moves s (.log true) (s.end_scan within (.Served true))
  | unlogged (within index stream) : s.point = .logging within index stream →
      Moves s (.log false) (s.end_scan within .unwound)
  | wakes (outer) : s.point = .sleeping outer → Moves s .wakes { s with point := .next_head outer }

theorem step_moves {s t : SyncDaemon ι} {event : SyncEvent} (h : s.step event = some t) : Moves s event t := by
  cases event with
  | connect j stream =>
    obtain ⟨row, hrow, rfl⟩ := Option.map_eq_some_iff.1 h
    exact .connect j stream row hrow
  | call call =>
    simp only [step] at h
    split at h
    · rename_i hp _
      cases h
      exact .tries hp
    · rename_i hp _
      cases h
      exact .calls _ _ hp (by simp)
    · rename_i hp _
      cases h
      exact .calls _ _ hp (by simp)
    · rename_i hp _
      cases h
      exact .calls _ _ hp (by simp)
    · rename_i hp _
      cases h
      exact .calls _ _ hp (by simp)
    · cases h
  | should_continue continues =>
    simp only [step] at h
    split at h
    · rename_i hp
      cases h
      cases continues with
      | true => exact .streams_on hp
      | false => exact .streams_done hp
    · rename_i outer hp
      cases h
      cases continues with
      | true => exact .next_on outer hp
      | false =>
        cases outer with
        | true => exact .next_back hp
        | false => exact .next_done hp
    · cases h
  | accept =>
    simp only [step] at h
    split at h
    · rename_i within index hp
      split at h
      · rename_i row hrow
        split at h
        · rename_i stream rest hpend
          cases h
          exact .accept within index row stream rest hp hrow hpend
        · cases h
      · cases h
    · cases h
  | would_block =>
    simp only [step] at h
    split at h
    · cases h
    · rename_i within index hno hp
      cases h
      exact .would_block within index hp hno
    · cases h
  | accept_fails error =>
    simp only [step] at h
    split at h
    · rename_i within index hp
      cases h
      exact .accept_fails within index error hp
    · cases h
  | handle_stream =>
    simp only [step] at h
    split at h
    · rename_i within index stream hp
      obtain ⟨row, hrow, rfl⟩ := Option.map_eq_some_iff.1 h
      exact .handle_stream within index stream row hp hrow
    · cases h
  | handler_returns outcome =>
    simp only [step] at h
    split at h
    · rename_i within index stream hp
      cases outcome with
      | Ok => cases h; exact .handled within index stream hp
      | Err => cases h; exact .request_error within index stream hp
      | panicked => cases h; exact .panics within index stream hp
    · cases h
  | log ok =>
    simp only [step] at h
    split at h
    · rename_i within index stream hp
      cases h
      cases ok with
      | true => exact .logged within index stream hp
      | false => exact .unlogged within index stream hp
    · cases h
  | wakes =>
    simp only [step] at h
    split at h
    · rename_i outer hp
      cases h
      exact .wakes outer hp
    · cases h

/-! ## What passes and calls come to -/

end SyncDaemon

/-- The reports of `n` listeners that have nothing pending. -/
def blocked (n : Nat) : List Report := List.replicate n .would_block

/-- A pass takes from the first listener whose `accept` does not block, hands
what it takes to `handle_stream` once, under that listener's identity, and says
what it has done. -/
structure Scan.Right {ι : Type*} (ids : List ι) (scan : Scan ι) : Prop where
  nothing : scan.result = some (.Served false) ↔ scan.reports = blocked ids.length
  failed : ∀ error, scan.result = some (.Err error) ↔ ∃ i, scan.reports = blocked i ++ [.failed error]
  took : scan.result = some (.Served true) ∨ scan.result = some .unwound ↔
    ∃ i stream, scan.reports = blocked i ++ [.accepted stream]
  handed : ∀ i stream, scan.reports = blocked i ++ [.accepted stream] →
    ∃ id, ids[i]? = some id ∧ scan.handed = [⟨i, id, stream⟩]
  untouched : (∀ i stream, scan.reports ≠ blocked i ++ [.accepted stream]) → scan.handed = []

/-- A call returns what its last pass says. -/
inductive Finished.Right {ι : Type*} : Finished ι → Prop
  | tried (scan result) : scan.result = some result → Right ⟨.try_serve_next_stream, [scan], result⟩
  | next_served (front last) : (∀ scan ∈ front, scan.result = some (.Served false)) →
      last.result = some (.Served true) → Right ⟨.serve_next_stream, front ++ [last], .Done⟩
  /-- `should_continue` was false. -/
  | next_ended (scans) : (∀ scan ∈ scans, scan.result = some (.Served false)) → Right ⟨.serve_next_stream, scans, .Done⟩
  | next_failed (front last result) : (∀ scan ∈ front, scan.result = some (.Served false)) →
      last.result = some result → (∀ served, result ≠ .Served served) → Right ⟨.serve_next_stream, front ++ [last], result⟩
  | streams_ended (scans) : (∀ scan ∈ scans, ∃ served, scan.result = some (.Served served)) →
      Right ⟨.serve_streams, scans, .Done⟩
  | streams_failed (front last result) : (∀ scan ∈ front, ∃ served, scan.result = some (.Served served)) →
      last.result = some result → (∀ served, result ≠ .Served served) → Right ⟨.serve_streams, front ++ [last], result⟩

theorem blocked_snoc_ne (n i : Nat) {report : Report} (h : report ≠ .would_block) : blocked i ++ [report] ≠ blocked n := by
  intro heq
  have hm : report ∈ blocked n := heq ▸ List.mem_append_right _ (List.mem_singleton.2 rfl)
  exact h (List.eq_of_mem_replicate hm)

theorem blocked_snoc_inj {i j : Nat} {report report' : Report} (h : blocked i ++ [report] = blocked j ++ [report']) :
    i = j ∧ report = report' := by
  obtain ⟨hb, hr⟩ := List.append_inj' h rfl
  refine ⟨?_, List.singleton_inj.1 hr⟩
  simpa [blocked] using congrArg List.length hb

namespace Scan

variable {ι : Type*}

theorem right_nothing (ids : List ι) : Right ids ⟨blocked ids.length, [], some (.Served false)⟩ := by
  have hne : ∀ (i : Nat) (report : Report), report ≠ .would_block → blocked ids.length ≠ blocked i ++ [report] :=
    fun i _ h heq => blocked_snoc_ne _ i h heq.symm
  refine ⟨by simp, fun error => ?_, ?_, fun i stream h => absurd h (hne i _ (by simp)), fun _ => rfl⟩
  · simp [hne _ (.failed error) (by simp)]
  · simp only [Option.some.injEq, ServeResult.Served.injEq, reduceCtorEq, or_self, Bool.false_eq_true, false_iff]
    rintro ⟨i, stream, h⟩
    exact hne i _ (by simp) h

theorem right_failed (ids : List ι) (i : Nat) (error : FsError) :
    Right ids ⟨blocked i ++ [.failed error], [], some (.Err error)⟩ := by
  refine ⟨?_, fun error' => ?_, ?_, fun j stream h => ?_, fun _ => rfl⟩
  · simpa using blocked_snoc_ne ids.length i (by simp)
  · constructor
    · rintro ⟨⟩
      exact ⟨i, rfl⟩
    · rintro ⟨j, h⟩
      cases (blocked_snoc_inj h).2
      rfl
  · simp only [Option.some.injEq, reduceCtorEq, or_self, false_iff]
    rintro ⟨j, stream, h⟩
    cases (blocked_snoc_inj h).2
  · cases (blocked_snoc_inj h).2

theorem right_took {ids : List ι} {i : Nat} {id : ι} (hid : ids[i]? = some id) (stream : Stream) {result : ServeResult}
    (hr : result = .Served true ∨ result = .unwound) :
    Right ids ⟨blocked i ++ [.accepted stream], [⟨i, id, stream⟩], some result⟩ := by
  refine ⟨?_, fun error => ?_, ?_, fun j stream' h => ?_, fun h => absurd rfl (h i stream)⟩
  · rcases hr with rfl | rfl <;> simpa using blocked_snoc_ne ids.length i (by simp)
  · constructor
    · rcases hr with rfl | rfl <;> rintro ⟨⟩
    · rintro ⟨j, h⟩
      cases (blocked_snoc_inj h).2
  · constructor
    · rintro -
      exact ⟨i, stream, rfl⟩
    · rintro -
      simpa using hr
  · obtain ⟨rfl, hs⟩ := blocked_snoc_inj h
    cases hs
    exact ⟨id, hid, rfl⟩

end Scan

/-- What a caller has seen of a pass after which it makes another. -/
def Within.Continues {ι : Type*} : Within → Scan ι → Prop
  | .direct, _ => False
  | .next outer, scan => if outer then ∃ served, scan.result = some (.Served served) else scan.result = some (.Served false)
  | .blocking incoming, scan => incoming = true ∧ ∃ served, scan.result = some (.Served served)

/-- The call under way; `none` at `idle`. -/
def ServePoint.within : ServePoint → Option Within
  | .idle => none
  | .streams_head => some (.next true)
  | .next_head outer | .sleeping outer => some (.next outer)
  | .accepting within _ | .accepted within _ _ | .handling within _ _ | .logging within _ _ => some within

namespace SyncDaemon

variable {ι : Type*}

/-- The passes that have ended, in order. -/
def passes (s : SyncDaemon ι) : List (Scan ι) := s.finished.flatMap (·.scans) ++ s.scans

/-- Every call of `handle_stream` so far, in order. -/
def handed (s : SyncDaemon ι) : List (Handed ι) := s.passes.flatMap (·.handed) ++ s.scan.handed

/-- The streams of listener `j` that have been handed on. -/
def sent (s : SyncDaemon ι) (j : Nat) : List Stream := (s.handed.filter (·.index = j)).map (·.stream)

/-- The stream of listener `j` that has been accepted and not yet handed on. -/
def inFlight (s : SyncDaemon ι) (j : Nat) : List Stream :=
  match s.point with
  | .accepted _ index stream => if index = j then [stream] else []
  | _ => []

/-- The pass under way, by the point it has reached. -/
def ScanAt (ids : List ι) (scan : Scan ι) : ServePoint → Prop
  | .accepting within i => scan = ⟨blocked i, [], none⟩ ∧ ((∀ incoming, within ≠ .blocking incoming) → i < ids.length)
  | .accepted _ i stream => i < ids.length ∧ scan = ⟨blocked i ++ [.accepted stream], [], none⟩
  | .handling _ i stream | .logging _ i stream =>
    ∃ id, ids[i]? = some id ∧ scan = ⟨blocked i ++ [.accepted stream], [⟨i, id, stream⟩], none⟩
  | _ => scan = noScan

/-- The passes that the call under way has made before. -/
def ScansAt (scans : List (Scan ι)) (point : ServePoint) : Prop :=
  match point.within with
  | none => scans = []
  | some within => ∀ scan ∈ scans, within.Continues scan

/-- What holds whatever pass is under way. -/
structure Past (ids : List ι) (s : SyncDaemon ι) : Prop where
  named : s.listeners.map (·.listener) = ids
  passes : ∀ scan ∈ s.passes, scan.Right ids
  finished : ∀ f ∈ s.finished, f.Right

structure Inv (ids : List ι) (s : SyncDaemon ι) : Prop extends Past ids s where
  scan : ScanAt ids s.scan s.point
  scans : ScansAt s.scans s.point
  queues : ∀ (j : Nat) (row : BoundListener ι), s.listeners[j]? = some row →
    row.arrived = s.sent j ++ s.inFlight j ++ row.pending

theorem inv_bound (kind : SyncKind) (ids : List ι) : Inv ids (bound kind ids) := by
  refine ⟨⟨by simp [bound, Function.comp_def], by simp [bound, passes], by simp [bound]⟩, rfl, rfl, fun j row hrow => ?_⟩
  rw [bound, List.getElem?_map, Option.map_eq_some_iff] at hrow
  obtain ⟨id, -, rfl⟩ := hrow
  simp [sent, handed, passes, bound, noScan, inFlight]

/-! ## The end of a pass -/

@[simp] theorem returns_passes (s : SyncDaemon ι) (call : ServeCall) (result : ServeResult) :
    (s.returns call result).passes = s.passes := by
  simp [returns, passes]

@[simp] theorem go_on_listeners (s : SyncDaemon ι) (within : Within) (result : ServeResult) :
    (s.go_on within result).listeners = s.listeners := by
  unfold go_on
  repeat' split
  all_goals rfl

@[simp] theorem go_on_passes (s : SyncDaemon ι) (within : Within) (result : ServeResult) :
    (s.go_on within result).passes = s.passes := by
  unfold go_on
  repeat' split
  all_goals first | rfl | exact returns_passes s _ _

/-- The call under way returns `result`. -/
theorem inv_returns {ids : List ι} {s : SyncDaemon ι} {call : ServeCall} {result : ServeResult} (hp : Past ids s)
    (hscan : s.scan = noScan) (hf : Finished.Right ⟨call, s.scans, result⟩)
    (hq : ∀ (j : Nat) (row : BoundListener ι), s.listeners[j]? = some row → row.arrived = s.sent j ++ row.pending) :
    Inv ids (s.returns call result) := by
  have hpasses : (s.returns call result).passes = s.passes := returns_passes s call result
  refine ⟨⟨hp.named, hpasses ▸ hp.passes, fun f hm => ?_⟩, hscan, rfl, fun j row hrow => ?_⟩
  · rcases List.mem_append.1 hm with hm | hm
    · exact hp.finished f hm
    · rw [List.mem_singleton.1 hm]
      exact hf
  · have hsent : (s.returns call result).sent j = s.sent j := by
      unfold sent handed
      rw [hpasses]
      rfl
    rw [hsent]
    simpa [inFlight, returns] using hq j row hrow

/-- The call under way goes on at a point where no pass has been made yet. -/
theorem inv_goes {ids : List ι} {s : SyncDaemon ι} {point : ServePoint} {within : Within} (hp : Past ids s)
    (hw : point.within = some within) (hc : ∀ scan ∈ s.scans, within.Continues scan)
    (hpoint : ScanAt ids s.scan point) (hno : ∀ w i stream, point ≠ .accepted w i stream)
    (hq : ∀ (j : Nat) (row : BoundListener ι), s.listeners[j]? = some row → row.arrived = s.sent j ++ row.pending) :
    Inv ids { s with point := point } := by
  refine ⟨⟨hp.named, hp.passes, hp.finished⟩, hpoint, ?_, fun j row hrow => ?_⟩
  · rw [ScansAt, hw]
    exact hc
  · have hflight : ({ s with point := point } : SyncDaemon ι).inFlight j = [] := by
      unfold inFlight
      split
      · rename_i w i stream hpt
        exact absurd hpt (hno w i stream)
      · rfl
    rw [hflight, List.append_nil]
    exact hq j row hrow

/-- A pass that has served nothing and failed is the last of its call. -/
theorem right_last {within : Within} {front : List (Scan ι)} {last : Scan ι} {result : ServeResult}
    (hfront : ∀ scan ∈ front, within.Continues scan) (hlast : last.result = some result)
    (hfails : ∀ served, result ≠ .Served served) : Finished.Right ⟨within.call, front ++ [last], result⟩ := by
  cases within with
  | direct =>
    have hnone : front = [] := List.eq_nil_iff_forall_not_mem.2 hfront
    subst hnone
    exact .tried last result hlast
  | next outer =>
    cases outer with
    | true => exact .streams_failed front last result hfront hlast hfails
    | false => exact .next_failed front last result hfront hlast hfails
  | blocking incoming =>
    cases incoming with
    | true => exact .streams_failed front last result (fun scan hm => (hfront scan hm).2) hlast hfails
    | false =>
      exact .next_failed front last result (fun scan hm => absurd (hfront scan hm).1 Bool.false_ne_true) hlast hfails

/-- A pass has ended with `result`, and its caller goes on. -/
theorem inv_go_on {ids : List ι} {s : SyncDaemon ι} {within : Within} {front : List (Scan ι)} {last : Scan ι}
    {result : ServeResult} (hp : Past ids s) (hscan : s.scan = noScan) (hscans : s.scans = front ++ [last])
    (hfront : ∀ scan ∈ front, within.Continues scan) (hlast : last.result = some result) (hdone : result ≠ .Done)
    (hblock : ∀ incoming, within = .blocking incoming → result ≠ .Served false)
    (hq : ∀ (j : Nat) (row : BoundListener ι), s.listeners[j]? = some row → row.arrived = s.sent j ++ row.pending) :
    Inv ids (s.go_on within result) := by
  have hall : within.Continues last → ∀ scan ∈ s.scans, within.Continues scan := by
    intro hl scan hm
    rw [hscans] at hm
    rcases List.mem_append.1 hm with hm | hm
    · exact hfront scan hm
    · rw [List.mem_singleton.1 hm]
      exact hl
  -- Where the call ends with its first pass, no pass has been made before.
  have hfirst : (∀ scan : Scan ι, ¬ within.Continues scan) → s.scans = [last] := by
    intro hno
    rw [hscans, List.eq_nil_iff_forall_not_mem.2 fun scan hm => hno scan (hfront scan hm), List.nil_append]
  have hlastly : (∀ served, result ≠ .Served served) → Inv ids (s.returns within.call result) := by
    intro hfails
    refine inv_returns hp hscan ?_ hq
    rw [hscans]
    exact right_last hfront hlast hfails
  cases result with
  | Done => exact absurd rfl hdone
  | Err error => exact hlastly (by simp)
  | unwound => exact hlastly (by simp)
  | Served served =>
    cases within with
    | direct =>
      refine inv_returns hp hscan ?_ hq
      rw [hfirst fun _ => id]
      exact .tried last _ hlast
    | next outer =>
      cases served with
      | true =>
        cases outer with
        | true => exact inv_goes hp rfl (hall ⟨true, hlast⟩) hscan (by simp) hq
        | false =>
          refine inv_returns hp hscan ?_ hq
          rw [hscans]
          exact .next_served front last hfront hlast
      | false =>
        refine inv_goes hp rfl (hall ?_) hscan (by simp) hq
        cases outer with
        | true => exact ⟨false, hlast⟩
        | false => exact hlast
    | blocking incoming =>
      cases incoming with
      | true => exact inv_goes hp rfl (hall ⟨rfl, served, hlast⟩) ⟨hscan, fun h => absurd rfl (h true)⟩ (by simp) hq
      | false =>
        cases served with
        | true =>
          refine inv_returns hp hscan ?_ hq
          rw [hfirst fun _ h => Bool.false_ne_true h.1]
          exact .next_served [] last (by simp) hlast
        | false => exact absurd rfl (hblock false rfl)

/-- A pass that is right ends. -/
theorem inv_end_scan {ids : List ι} {s : SyncDaemon ι} {within : Within} {result : ServeResult} (hp : Past ids s)
    (hright : Scan.Right ids { s.scan with result := some result }) (hc : ∀ scan ∈ s.scans, within.Continues scan)
    (hdone : result ≠ .Done) (hblock : ∀ incoming, within = .blocking incoming → result ≠ .Served false)
    (hq : ∀ (j : Nat) (row : BoundListener ι), s.listeners[j]? = some row → row.arrived = s.sent j ++ row.pending) :
    Inv ids (s.end_scan within result) := by
  have hpasses : ({ s with scan := noScan, scans := s.scans ++ [{ s.scan with result := some result }] } :
      SyncDaemon ι).passes = s.passes ++ [{ s.scan with result := some result }] := by
    simp [passes]
  refine inv_go_on ⟨hp.named, fun scan hm => ?_, hp.finished⟩ rfl rfl hc rfl hdone hblock fun j row hrow => ?_
  · rw [hpasses] at hm
    rcases List.mem_append.1 hm with hm | hm
    · exact hp.passes scan hm
    · rw [List.mem_singleton.1 hm]
      exact hright
  · refine (hq j row hrow).trans ?_
    unfold sent handed
    rw [hpasses]
    simp [noScan]

/-- The loop over the listeners goes on, or is through. -/
theorem inv_scan_at {ids : List ι} {s : SyncDaemon ι} {within : Within} {index : Nat} (hp : Past ids s)
    (hscan : s.scan = ⟨blocked index, [], none⟩) (hle : index ≤ s.listeners.length)
    (hc : ∀ scan ∈ s.scans, within.Continues scan) (hblock : ∀ incoming, within ≠ .blocking incoming)
    (hq : ∀ (j : Nat) (row : BoundListener ι), s.listeners[j]? = some row → row.arrived = s.sent j ++ row.pending) :
    Inv ids (s.scan_at within index) := by
  unfold scan_at
  have hlength : s.listeners.length = ids.length := by rw [← hp.named, List.length_map]
  by_cases hlt : index < s.listeners.length
  · rw [if_pos hlt]
    exact inv_goes hp rfl hc ⟨hscan, fun _ => hlength ▸ hlt⟩ (by simp) hq
  · rw [if_neg hlt]
    have hlen : index = ids.length := by omega
    refine inv_end_scan hp ?_ hc (by simp) (fun incoming hw => absurd hw (hblock incoming)) hq
    rw [hscan, hlen]
    exact Scan.right_nothing ids

/-! ## Every step keeps it -/

theorem id_of_row {ids : List ι} {s : SyncDaemon ι} (hp : Past ids s) {j : Nat} {row : BoundListener ι}
    (hrow : s.listeners[j]? = some row) : ids[j]? = some row.listener := by
  rw [← hp.named, List.getElem?_map, hrow]
  rfl

theorem past_set {ids : List ι} {s : SyncDaemon ι} (hp : Past ids s) {j : Nat} {row : BoundListener ι}
    (hrow : s.listeners[j]? = some row) (pending arrived : List Stream) :
    (s.listeners.set j { row with pending := pending, arrived := arrived }).map (·.listener) = ids :=
  (map_set_same (·.listener) hrow (b := { row with pending := pending, arrived := arrived }) rfl).trans hp.named

/-- Where nothing is in flight, what has come is handed on or pending. -/
theorem arrived_eq {ids : List ι} {s : SyncDaemon ι} (hi : Inv ids s)
    (hno : ∀ within index stream, s.point ≠ .accepted within index stream) (j : Nat) (row : BoundListener ι)
    (hrow : s.listeners[j]? = some row) : row.arrived = s.sent j ++ row.pending := by
  have hflight : s.inFlight j = [] := by
    unfold inFlight
    split
    · rename_i within index stream hpt
      exact absurd hpt (hno within index stream)
    · rfl
  simpa [hflight] using hi.queues j row hrow

/-- A client connects to listener `j`. -/
theorem inv_connect {ids : List ι} {s : SyncDaemon ι} {j : Nat} {row : BoundListener ι} (hi : Inv ids s)
    (hrow : s.listeners[j]? = some row) (stream : Stream) :
    Inv ids { s with
      listeners := s.listeners.set j { row with pending := row.pending ++ [stream], arrived := row.arrived ++ [stream] } } := by
  refine ⟨⟨past_set hi.toPast hrow _ _, hi.passes, hi.finished⟩, hi.scan, hi.scans, fun k row' hk => ?_⟩
  rcases getElem?_set_row hk with ⟨rfl, rfl⟩ | ⟨-, hk⟩
  · have hold := hi.queues k row hrow
    change row.arrived ++ [stream] = s.sent k ++ s.inFlight k ++ (row.pending ++ [stream])
    rw [hold, List.append_assoc]
  · exact hi.queues k row' hk

/-- The listener of the turn has a stream, and it is taken. -/
theorem inv_accept {ids : List ι} {s : SyncDaemon ι} {within : Within} {index : Nat} {row : BoundListener ι}
    {stream : Stream} {rest : List Stream} (hi : Inv ids s) (hpt : s.point = .accepting within index)
    (hrow : s.listeners[index]? = some row) (hpend : row.pending = stream :: rest) :
    Inv ids { s.reported (.accepted stream) with
      listeners := s.listeners.set index { row with pending := rest }
      point := .accepted within index stream } := by
  have hscan := hi.scan
  have hscans := hi.scans
  have hold := arrived_eq hi (by simp [hpt])
  rw [hpt] at hscan hscans
  obtain ⟨hlt, -⟩ := List.getElem?_eq_some_iff.1 hrow
  have hindex : index < ids.length := by
    rw [← hi.named, List.length_map]
    exact hlt
  refine ⟨⟨past_set hi.toPast hrow _ _, hi.passes, hi.finished⟩, ⟨hindex, ?_⟩, hscans, fun k row' hk => ?_⟩
  · change Scan.mk _ _ _ = _
    rw [hscan.1]
  · rcases getElem?_set_row hk with ⟨rfl, rfl⟩ | ⟨hki, hk⟩
    · change row.arrived = s.sent k ++ _ ++ rest
      simp [hold k row hrow, hpend, inFlight]
    · change row'.arrived = s.sent k ++ _ ++ row'.pending
      simp [hold k row' hk, inFlight, Ne.symm hki]

/-- The stream of the pass has been handled, and the pass ends. -/
theorem inv_took {ids : List ι} {s : SyncDaemon ι} {within : Within} {index : Nat} {stream : Stream}
    {result : ServeResult} (hi : Inv ids s)
    (hpt : s.point = .handling within index stream ∨ s.point = .logging within index stream)
    (hr : result = .Served true ∨ result = .unwound) : Inv ids (s.end_scan within result) := by
  have hscan := hi.scan
  have hscans := hi.scans
  have hno : ∀ w i x, s.point ≠ .accepted w i x := by
    rcases hpt with hpt | hpt <;> simp [hpt]
  have hat : (∃ id, ids[index]? = some id ∧ s.scan = ⟨blocked index ++ [.accepted stream], [⟨index, id, stream⟩], none⟩) ∧
      ∀ scan ∈ s.scans, within.Continues scan := by
    rcases hpt with hpt | hpt
    · rw [hpt] at hscan hscans
      exact ⟨hscan, hscans⟩
    · rw [hpt] at hscan hscans
      exact ⟨hscan, hscans⟩
  obtain ⟨⟨id, hid, hscan⟩, hscans⟩ := hat
  refine inv_end_scan hi.toPast ?_ hscans ?_ ?_ (arrived_eq hi hno)
  · rw [hscan]
    exact Scan.right_took hid stream hr
  · rcases hr with rfl | rfl <;> simp
  · rcases hr with rfl | rfl <;> simp

theorem inv_step {ids : List ι} {s t : SyncDaemon ι} {event : SyncEvent} (hi : Inv ids s) (h : s.step event = some t) :
    Inv ids t := by
  have hp := hi.toPast
  have hscan := hi.scan
  have hscans := hi.scans
  have hq := arrived_eq hi
  cases step_moves h with
  | connect j stream row hrow => exact inv_connect hi hrow stream
  | tries hpt =>
    rw [hpt] at hscan hscans
    exact inv_scan_at hp hscan (Nat.zero_le _) (by simp [show s.scans = [] from hscans]) (by simp) (hq (by simp [hpt]))
  | calls call point hpt hm =>
    rw [hpt] at hscan hscans
    have hnone : ∀ (within : Within), ∀ scan ∈ s.scans, within.Continues scan := by
      simp [show s.scans = [] from hscans]
    simp only [List.mem_cons, Prod.mk.injEq, List.not_mem_nil, or_false] at hm
    rcases hm with ⟨-, rfl⟩ | ⟨-, rfl⟩ | ⟨-, rfl⟩ | ⟨-, rfl⟩
    · exact inv_goes hp rfl (hnone _) hscan (by simp) (hq (by simp [hpt]))
    · exact inv_goes hp rfl (hnone _) hscan (by simp) (hq (by simp [hpt]))
    · exact inv_goes hp rfl (hnone _) ⟨hscan, fun h => absurd rfl (h false)⟩ (by simp) (hq (by simp [hpt]))
    · exact inv_goes hp rfl (hnone _) ⟨hscan, fun h => absurd rfl (h true)⟩ (by simp) (hq (by simp [hpt]))
  | streams_on hpt =>
    rw [hpt] at hscan hscans
    exact inv_goes hp rfl hscans hscan (by simp) (hq (by simp [hpt]))
  | streams_done hpt =>
    rw [hpt] at hscan hscans
    exact inv_returns hp hscan (.streams_ended s.scans hscans) (hq (by simp [hpt]))
  | next_on outer hpt =>
    rw [hpt] at hscan hscans
    exact inv_scan_at hp hscan (Nat.zero_le _) hscans (by simp) (hq (by simp [hpt]))
  | next_back hpt =>
    rw [hpt] at hscan hscans
    exact inv_goes hp rfl hscans hscan (by simp) (hq (by simp [hpt]))
  | next_done hpt =>
    rw [hpt] at hscan hscans
    exact inv_returns hp hscan (.next_ended s.scans hscans) (hq (by simp [hpt]))
  | accept within index row stream rest hpt hrow hpend => exact inv_accept hi hpt hrow hpend
  | would_block within index hpt hblock =>
    rw [hpt] at hscan hscans
    have hlt := hscan.2 hblock
    rw [← hp.named, List.length_map] at hlt
    refine inv_scan_at ⟨hp.named, hp.passes, hp.finished⟩ ?_ hlt hscans hblock (hq (by simp [hpt]))
    change Scan.mk _ _ _ = _
    rw [hscan.1, blocked, blocked, List.replicate_succ']
  | accept_fails within index error hpt =>
    rw [hpt] at hscan hscans
    refine inv_end_scan ⟨hp.named, hp.passes, hp.finished⟩ ?_ hscans (by simp) (by simp) (hq (by simp [hpt]))
    change Scan.Right ids ⟨s.scan.reports ++ [.failed error], s.scan.handed, some (.Err error)⟩
    rw [hscan.1]
    exact Scan.right_failed ids index error
  | handle_stream within index stream row hpt hrow =>
    rw [hpt] at hscan hscans
    refine ⟨⟨hp.named, hp.passes, hp.finished⟩, ⟨row.listener, id_of_row hp hrow, ?_⟩, hscans, fun k row' hk => ?_⟩
    · change Scan.mk _ _ _ = _
      rw [hscan.2]
      rfl
    · have hold := hi.queues k row' hk
      rw [inFlight, hpt] at hold
      rw [hold]
      by_cases hik : index = k
      · simp [sent, handed, passes, inFlight, hik]
      · simp [sent, handed, passes, inFlight, hik]
  | handled within index stream hpt => exact inv_took hi (.inl hpt) (.inl rfl)
  | request_error within index stream hpt =>
    rw [hpt] at hscan hscans
    exact inv_goes hp rfl hscans hscan (by simp) (hq (by simp [hpt]))
  | panics within index stream hpt => exact inv_took hi (.inl hpt) (.inr rfl)
  | logged within index stream hpt => exact inv_took hi (.inr hpt) (.inl rfl)
  | unlogged within index stream hpt => exact inv_took hi (.inr hpt) (.inr rfl)
  | wakes outer hpt =>
    rw [hpt] at hscan hscans
    exact inv_goes hp rfl hscans hscan (by simp) (hq (by simp [hpt]))

/-! ## Which stream is served -/

theorem end_scan_passes (s : SyncDaemon ι) (within : Within) (result : ServeResult) :
    (s.end_scan within result).passes = s.passes ++ [{ s.scan with result := some result }] := by
  rw [end_scan, go_on_passes]
  simp [passes]

@[simp] theorem end_scan_listeners (s : SyncDaemon ι) (within : Within) (result : ServeResult) :
    (s.end_scan within result).listeners = s.listeners := go_on_listeners _ _ _

@[simp] theorem scan_at_listeners (s : SyncDaemon ι) (within : Within) (index : Nat) :
    (s.scan_at within index).listeners = s.listeners := by
  unfold scan_at
  split
  · rfl
  · exact end_scan_listeners s within _

/-- An `accept` takes the oldest connection of a listener, after all listeners
before it have reported that they would block. -/
theorem accept_takes {ids : List ι} {s t : SyncDaemon ι} (hi : Inv ids s) (h : s.step .accept = some t) :
    ∃ within i row stream rest, s.point = .accepting within i ∧ s.scan.reports = blocked i ∧
      s.listeners[i]? = some row ∧ row.pending = stream :: rest ∧ t.point = .accepted within i stream ∧
      t.listeners = s.listeners.set i { row with pending := rest } := by
  have hscan := hi.scan
  cases step_moves h with
  | accept within i row stream rest hpt hrow hpend =>
    rw [hpt] at hscan
    exact ⟨within, i, row, stream, rest, hpt, by rw [hscan.1], hrow, hpend, rfl, rfl⟩

/-- No other step of the daemon touches a queue. -/
theorem step_listeners {s t : SyncDaemon ι} {event : SyncEvent} (h : s.step event = some t) (ha : event ≠ .accept)
    (hc : ∀ j stream, event ≠ .connect j stream) : t.listeners = s.listeners := by
  cases step_moves h with
  | connect j stream row hrow => exact absurd rfl (hc j stream)
  | accept within i row stream rest hpt hrow hpend => exact absurd rfl ha
  | tries hpt => exact scan_at_listeners s _ _
  | next_on outer hpt => exact scan_at_listeners s _ _
  | would_block within i hpt hblock => exact scan_at_listeners _ _ _
  | accept_fails within i error hpt => exact end_scan_listeners _ _ _
  | handled within i stream hpt => exact end_scan_listeners s _ _
  | panics within i stream hpt => exact end_scan_listeners s _ _
  | logged within i stream hpt => exact end_scan_listeners s _ _
  | unlogged within i stream hpt => exact end_scan_listeners s _ _
  | _ => rfl

/-- A stream that has been accepted is handed on next. -/
theorem accepted_next {ids : List ι} {s : SyncDaemon ι} {within : Within} {i : Nat} {stream : Stream} (hi : Inv ids s)
    (hpt : s.point = .accepted within i stream) :
    (s.step .handle_stream).isSome = true ∧
      ∀ event t, s.step event = some t → event = .handle_stream ∨ ∃ j stream, event = .connect j stream := by
  constructor
  · have hscan := hi.scan
    rw [hpt] at hscan
    have hlt := hscan.1
    rw [← hi.named, List.length_map] at hlt
    simp [step, hpt, List.getElem?_eq_getElem hlt]
  · intro event t h
    cases step_moves h <;> simp_all

theorem step_passes {s t : SyncDaemon ι} {event : SyncEvent} (h : s.step event = some t) :
    t.passes = s.passes ∨ ∃ scan, t.passes = s.passes ++ [scan] ∧ (scan.result = some .unwound → event.unwinds = true) := by
  have hend : ∀ (s' : SyncDaemon ι) (within : Within) (result : ServeResult), s'.passes = s.passes →
      (result = .unwound → event.unwinds = true) → (s'.end_scan within result).passes = s.passes ∨
        ∃ scan, (s'.end_scan within result).passes = s.passes ++ [scan] ∧
          (scan.result = some .unwound → event.unwinds = true) := by
    intro s' within result hs hr
    refine .inr ⟨_, by rw [end_scan_passes, hs], fun h => hr ?_⟩
    cases h
    rfl
  have hscan : ∀ (s' : SyncDaemon ι) (within : Within) (index : Nat), s'.passes = s.passes →
      (s'.scan_at within index).passes = s.passes ∨ ∃ scan, (s'.scan_at within index).passes = s.passes ++ [scan] ∧
        (scan.result = some .unwound → event.unwinds = true) := by
    intro s' within index hs
    unfold scan_at
    split
    · exact .inl hs
    · exact hend s' within _ hs (by simp)
  cases step_moves h with
  | tries hpt => exact hscan s _ _ rfl
  | next_on outer hpt => exact hscan s _ _ rfl
  | would_block within i hpt hblock => exact hscan _ _ _ rfl
  | streams_done hpt => exact .inl (returns_passes s _ _)
  | next_done hpt => exact .inl (returns_passes s _ _)
  | accept_fails within i error hpt => exact hend _ _ _ rfl (by simp)
  | handled within i stream hpt => exact hend s _ _ rfl (by simp)
  | panics within i stream hpt => exact hend s _ _ rfl fun _ => rfl
  | logged within i stream hpt => exact hend s _ _ rfl (by simp)
  | unlogged within i stream hpt => exact hend s _ _ rfl fun _ => rfl
  | _ => exact .inl rfl

/-- Where no handler panics and standard error can be written, no pass does. -/
theorem passes_return {kind : SyncKind} {ids : List ι} {events : List SyncEvent} {s : SyncDaemon ι}
    (h : exec step (bound kind ids) events = some s) (hno : ∀ event ∈ events, event.unwinds = false) :
    ∀ scan ∈ s.passes, scan.result ≠ some .unwound := by
  refine exec_invariant_along (C := fun _ event => event.unwinds = false)
    (fun s : SyncDaemon ι => ∀ scan ∈ s.passes, scan.result ≠ some .unwound) ?_
    (along_of_forall (fun event hm _ => hno event hm) _) h
    (by simp [bound, passes])
  intro s event t hi hc hstep scan hm
  rcases step_passes hstep with hsame | ⟨last, hsnoc, hlast⟩
  · exact hi scan (hsame ▸ hm)
  · rw [hsnoc] at hm
    rcases List.mem_append.1 hm with hm | hm
    · exact hi scan hm
    · rw [List.mem_singleton.1 hm]
      intro hr
      rw [hlast hr] at hc
      cases hc

/-- However clients connect, accepts block or fail and handlers end: each pass
takes the oldest connection of the first listener that does not block, hands it
to `handle_stream` once under that listener's identity and returns what it has
done, each call returns what its last pass says, no other queue is touched, and
all that has come to a listener is, in order, handed on, about to be, or pending. -/
theorem serves_first_ready (kind : SyncKind) (ids : List ι) (events : List SyncEvent) (s : SyncDaemon ι)
    (h : exec step (bound kind ids) events = some s) :
    (∀ scan ∈ s.passes, scan.Right ids) ∧ (∀ f ∈ s.finished, f.Right) ∧
    ((∀ event ∈ events, event.unwinds = false) → ∀ scan ∈ s.passes, scan.result ≠ some .unwound) ∧
    (∀ t, s.step .accept = some t → ∃ within i row stream rest, s.point = .accepting within i ∧
      s.scan.reports = blocked i ∧ s.listeners[i]? = some row ∧ row.pending = stream :: rest ∧
      t.point = .accepted within i stream ∧ t.listeners = s.listeners.set i { row with pending := rest }) ∧
    (∀ event t, s.step event = some t → event ≠ .accept → (∀ j stream, event ≠ .connect j stream) →
      t.listeners = s.listeners) ∧
    (∀ within i stream, s.point = .accepted within i stream → (s.step .handle_stream).isSome = true ∧
      ∀ event t, s.step event = some t → event = .handle_stream ∨ ∃ j stream, event = .connect j stream) ∧
    (∀ (j : Nat) (row : BoundListener ι), s.listeners[j]? = some row →
      ids[j]? = some row.listener ∧ row.arrived = s.sent j ++ s.inFlight j ++ row.pending) := by
  have hi : Inv ids s := exec_invariant (Inv ids) (fun _ _ _ hi hstep => inv_step hi hstep) h (inv_bound kind ids)
  refine ⟨hi.passes, hi.finished, passes_return h, fun t ht => accept_takes hi ht, fun event t ht ha hc =>
    step_listeners ht ha hc, fun within i stream hpt => accepted_next hi hpt, fun j row hrow => ?_⟩
  exact ⟨id_of_row hi.toPast hrow, hi.queues j row hrow⟩

/-- Two listeners: the first blocks, the stream of the second is served and its
error logged; then a stream of the first is, before another of the second. -/
def twoListeners : List SyncEvent :=
  [.call .serve_streams, .connect 1 7, .should_continue true, .should_continue true, .would_block, .accept,
    .connect 0 8, .handle_stream, .connect 1 9, .handler_returns .Err, .log true, .should_continue true,
    .should_continue true, .accept, .handle_stream, .handler_returns .Ok]

theorem serves_first_ready_twoListeners :
    ∃ s, exec step (bound .Multi [true, false]) twoListeners = some s ∧
      s.handed = [⟨1, false, 7⟩, ⟨0, true, 8⟩] ∧ ∀ scan ∈ s.passes, scan.Right [true, false] := by
  refine ⟨_, rfl, rfl, (serves_first_ready .Multi [true, false] twoListeners _ rfl).1⟩

end SyncDaemon

end TriadRuntime
