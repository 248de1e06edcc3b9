import TriadRuntime.Systems.Faults
import TriadRuntime.TraceCollect
/-!
# Trace clients (`trace.rs`)

A `TraceClient` collects from its listener for a while, for each `events` or
`print_events` call, or has no listener and collects nothing. The logs go on
meanwhile, and between the calls. A panic of `collect_for` goes through the call.

Trusted: `writeln!` writes the pieces of the event's `Display`, then the newline,
each by `write_all`, and stops at the first that fails; a `Display` passes on the
failures of its formatter and has none of its own.
-/

open Systems

namespace TriadRuntime

variable {ε : Type} (E : TraceEventFrame ε)

/-- The pieces that an event's `Display` writes. -/
structure EventDisplay (ε : Type) where
  pieces : ε → List (List UInt8)

namespace EventDisplay

/-- Write the pieces one after the other. -/
def write_fmt : List (List UInt8) → Sink UInt8 ErrorKind → Except ErrorKind Unit × Sink UInt8 ErrorKind
  | [], writer => (.ok (), writer)
  | piece :: pieces, writer =>
    match writer.writeAll .Other piece with
    | (.error kind, writer) => (.error kind, writer)
    | (.ok (), writer) => write_fmt pieces writer

def NEWLINE : List UInt8 := [10]

/-- The loop of `print_events`. -/
def print_all (display : EventDisplay ε) :
    List ε → Sink UInt8 ErrorKind → Except ErrorKind Unit × Sink UInt8 ErrorKind
  | [], writer => (.ok (), writer)
  | event :: events, writer =>
    match write_fmt (display.pieces event ++ [NEWLINE]) writer with
    | (.error kind, writer) => (.error kind, writer)
    | (.ok (), writer) => display.print_all events writer

/-- One line an event. -/
def lines (display : EventDisplay ε) (events : List ε) : List UInt8 :=
  events.flatMap fun event => (display.pieces event ++ [NEWLINE]).flatten

/-- Of `bytes` the first `k` went out, all of them exactly on success. -/
def WritesPart (bytes : List UInt8) (writer : Sink UInt8 ErrorKind)
    (done : Except ErrorKind Unit × Sink UInt8 ErrorKind) : Prop :=
  ∃ k, k ≤ bytes.length ∧ done.2.taken = writer.taken ++ bytes.take k ∧ (done.1 = .ok () ↔ k = bytes.length)

/-- What a write wrote, and then another if the first went well. -/
theorem writesPart_append {xs ys : List UInt8} {writer : Sink UInt8 ErrorKind}
    {first second : Except ErrorKind Unit × Sink UInt8 ErrorKind} (hfirst : WritesPart xs writer first)
    (hsecond : first.1 = .ok () → WritesPart ys first.2 second) (hfailed : first.1 ≠ .ok () → second = first) :
    WritesPart (xs ++ ys) writer second := by
  obtain ⟨k, hk, htaken, hok⟩ := hfirst
  by_cases h : first.1 = .ok ()
  · obtain ⟨m, hm, htaken', hok'⟩ := hsecond h
    refine ⟨xs.length + m, ?_, ?_, ?_⟩
    · rw [List.length_append]
      omega
    · rw [htaken', htaken, hok.1 h, List.take_length, List.append_assoc, List.take_length_add_append]
    · rw [hok', List.length_append]
      omega
  · have hlt : k ≠ xs.length := fun heq => h (hok.2 heq)
    rw [hfailed h]
    refine ⟨k, ?_, ?_, ?_⟩
    · rw [List.length_append]
      omega
    · rw [htaken, List.take_append_of_le_length hk]
    · rw [hok, List.length_append]
      omega

theorem write_fmt_part (pieces : List (List UInt8)) (writer : Sink UInt8 ErrorKind) :
    WritesPart pieces.flatten writer (write_fmt pieces writer) := by
  induction pieces generalizing writer with
  | nil => exact ⟨0, Nat.le_refl _, by simp [write_fmt], by simp [write_fmt]⟩
  | cons piece pieces ih =>
    rw [List.flatten_cons]
    refine writesPart_append (writer.writeAll_part .Other piece) (fun h => ?_) (fun h => ?_)
    · rcases hwrite : writer.writeAll .Other piece with ⟨kind | ⟨⟩, writer'⟩
      · rw [hwrite] at h
        cases h
      · rw [write_fmt, hwrite]
        exact ih writer'
    · rcases hwrite : writer.writeAll .Other piece with ⟨kind | ⟨⟩, writer'⟩
      · rw [write_fmt, hwrite]
      · exact absurd (by rw [hwrite]) h

theorem print_all_part (display : EventDisplay ε) (events : List ε) (writer : Sink UInt8 ErrorKind) :
    WritesPart (display.lines events) writer (display.print_all events writer) := by
  induction events generalizing writer with
  | nil => exact ⟨0, Nat.zero_le _, by simp [print_all], by simp [print_all, lines]⟩
  | cons event events ih =>
    rw [lines, List.flatMap_cons]
    refine writesPart_append (write_fmt_part (display.pieces event ++ [NEWLINE]) writer) (fun h => ?_) (fun h => ?_)
    · rcases hwrite : write_fmt (display.pieces event ++ [NEWLINE]) writer with ⟨kind | ⟨⟩, writer'⟩
      · rw [hwrite] at h
        cases h
      · rw [print_all, hwrite]
        exact ih writer'
    · rcases hwrite : write_fmt (display.pieces event ++ [NEWLINE]) writer with ⟨kind | ⟨⟩, writer'⟩
      · rw [print_all, hwrite]
      · exact absurd (by rw [hwrite]) h

end EventDisplay

/-! ## The client -/

inductive ClientCall where
  | events
  | print_events
deriving DecidableEq, Repr

inductive ClientResult (ε : Type) where
  | events (result : Except TraceError (List ε))
  | print_events (result : Except TraceError Unit)
  | panicked
deriving Repr

/-- A client with the call it is in, its writer, and what its calls returned. -/
structure TraceClient (ε : Type) where
  listener : Option (TraceSocketListener ε)
  collect_duration : Nat
  call : Option ClientCall
  writer : Sink UInt8 ErrorKind
  results : List (ClientResult ε)

inductive ClientAct (ε : Type) where
  | call (kind : ClientCall)
  /-- A step of the listener, of the peers or of the clock. -/
  | listener (act : TraceAct ε)
  /-- The call returns, having printed what it prints. -/
  | finish

/-- The client alone makes collect calls. -/
def TraceAct.begins_call : TraceAct ε → Bool
  | .collect _ _ => true
  | _ => false

namespace TraceClient

/-- `listen`, once its listener is bound. -/
def listen (collect_duration : Nat) (writer : Sink UInt8 ErrorKind) : TraceClient ε :=
  ⟨some .bound, collect_duration, none, writer, []⟩

/-- `events`, for the call under way, once `collect_for` has returned. -/
def events (s : TraceClient ε) : Option (Except TraceError (List ε)) :=
  match s.listener with
  | none => some (.ok [])
  | some listener =>
    match listener.collector with
    | .idle => listener.returned.getLast?
    | _ => none

/-- `print_events`, given what `events` returned. -/
def print_events (display : EventDisplay ε) (events : Except TraceError (List ε)) (writer : Sink UInt8 ErrorKind) :
    Except TraceError Unit × Sink UInt8 ErrorKind :=
  match events with
  | .error error => (.error error, writer)
  | .ok events =>
    match display.print_all events writer with
    | (.error kind, writer) => (.error (.Io kind), writer)
    | (.ok (), writer) => (.ok (), writer)

def step (display : EventDisplay ε) (s : TraceClient ε) : ClientAct ε → Option (TraceClient ε)
  | .call kind =>
    match s.call, s.listener with
    | none, none => some { s with call := some kind }
    | none, some listener =>
      (listener.step E (.collect none s.collect_duration)).map fun listener =>
        match listener.collector with
        -- no collection: `collect_for` has panicked
        | .idle => { s with listener := some listener, results := s.results ++ [.panicked] }
        | _ => { s with listener := some listener, call := some kind }
    | some _, _ => none
  | .listener act =>
    match s.listener with
    | some listener =>
      if act.begins_call then none
      else (listener.step E act).map fun listener => { s with listener := some listener }
    | none => none
  | .finish =>
    match s.call, s.events with
    | some .events, some result => some { s with call := none, results := s.results ++ [.events result] }
    | some .print_events, some result =>
      let printed := print_events display result s.writer
      some { s with call := none, writer := printed.2, results := s.results ++ [.print_events printed.1] }
    | _, _ => none

/-! ## What a step can do -/

variable {E} {display : EventDisplay ε} {s t : TraceClient ε}

inductive Moves (E : TraceEventFrame ε) (display : EventDisplay ε) (s : TraceClient ε) :
    ClientAct ε → TraceClient ε → Prop
  | calls_disabled (kind) : s.call = none → s.listener = none →
      Moves E display s (.call kind) { s with call := some kind }
  | calls (kind listener listener') : s.call = none → s.listener = some listener →
      listener.step E (.collect none s.collect_duration) = some listener' → listener'.collector ≠ .idle →
      listener'.returned = listener.returned → listener.now + s.collect_duration ≤ Instant.MAX →
      Moves E display s (.call kind) { s with listener := some listener', call := some kind }
  | panics (kind listener listener') : s.call = none → s.listener = some listener →
      listener.step E (.collect none s.collect_duration) = some listener' → listener'.collector = .idle →
      listener'.returned = listener.returned → ¬ listener.now + s.collect_duration ≤ Instant.MAX →
      Moves E display s (.call kind) { s with listener := some listener', results := s.results ++ [.panicked] }
  | listens (act listener listener') : s.listener = some listener → act.begins_call = false →
      listener.step E act = some listener' → Moves E display s (.listener act) { s with listener := some listener' }
  | returns_events (result) : s.call = some .events → s.events = some result →
      Moves E display s .finish { s with call := none, results := s.results ++ [.events result] }
  | returns_printed (result) : s.call = some .print_events → s.events = some result →
      Moves E display s .finish { s with
        call := none
        writer := (print_events display result s.writer).2
        results := s.results ++ [.print_events (print_events display result s.writer).1] }

theorem step_moves {act : ClientAct ε} (h : s.step E display act = some t) : Moves E display s act t := by
  cases act with
  | call kind =>
    simp only [step] at h
    split at h
    · rename_i hcall hlistener
      cases h
      exact .calls_disabled kind hcall hlistener
    · rename_i listener hcall hlistener
      obtain ⟨listener', hstep, rfl⟩ := Option.map_eq_some_iff.1 h
      cases TraceSocketListener.step_moves E hstep with
      | collect _ _ hidle hfits => exact .calls kind listener _ hcall hlistener hstep nofun rfl hfits
      | panics _ _ hidle hover =>
        have hpanics : Moves E display s (.call kind) { s with
            listener := some { listener with panicked := listener.panicked + 1 }, results := s.results ++ [.panicked] } :=
          .panics kind listener _ hcall hlistener hstep hidle rfl hover
        simpa only [hidle] using hpanics
    · cases h
  | listener act =>
    simp only [step] at h
    split at h
    · rename_i listener hlistener
      simp only [Option.ite_none_left_eq_some, Option.map_eq_some_iff] at h
      obtain ⟨hno, listener', hstep, rfl⟩ := h
      exact .listens act listener listener' hlistener (by simpa using hno) hstep
    · cases h
  | finish =>
    simp only [step] at h
    split at h
    · rename_i result hcall hevents
      cases h
      exact .returns_events result hcall hevents
    · rename_i result hcall hevents
      cases h
      exact .returns_printed result hcall hevents
    · cases h

/-- The listener's thread returns from the call it is in, or from none. -/
theorem step_returned {listener listener' : TraceSocketListener ε} {act : TraceAct ε} (hact : act.begins_call = false)
    (h : listener.step E act = some listener') :
    (listener'.returned = listener.returned ∧ (listener'.collector = .idle ↔ listener.collector = .idle)) ∨
      (listener.collector ≠ .idle ∧ listener'.collector = .idle ∧
        ∃ result, listener'.returned = listener.returned ++ [result]) := by
  cases TraceSocketListener.step_moves E h with
  | connect event => exact .inl ⟨rfl, .rfl⟩
  | foreign_connect => exact .inl ⟨rfl, .rfl⟩
  | peer hk hstep => exact .inl ⟨rfl, .rfl⟩
  | tick d => exact .inl ⟨rfl, .rfl⟩
  | collect _ _ hidle => cases hact
  | panics => cases hact
  | goes_on hcall hgo => exact .inl ⟨rfl, by simp [hcall]⟩
  | returns hcall hstop => exact .inr ⟨by simp [hcall], rfl, _, rfl⟩
  | accepts hcall hlt => exact .inl ⟨rfl, by simp [hcall]⟩
  | would_block hcall hge => exact .inl ⟨rfl, by simp [hcall]⟩
  | accept_fails kind hcall => exact .inr ⟨by simp [hcall], rfl, _, rfl⟩
  | reads hcall hc hready hread => exact .inl ⟨rfl, by simp [hcall]⟩
  | fails hcall hc hready hread => exact .inr ⟨by simp [hcall], rfl, _, rfl⟩

/-! ## What the calls did -/

/-- One call of the client: what its collection gave, if it did not panic, what the
call returned and what it wrote. -/
structure Done (ε : Type) where
  gathered : Option (Except TraceError (List ε))
  result : ClientResult ε
  wrote : List UInt8

/-- `events` passes on what was collected. `print_events` writes a line for each
event, or as much as the writer took before it failed; without events, nothing. A
call panics with its collection. -/
def Done.Right (display : EventDisplay ε) (done : Done ε) : Prop :=
  match done.gathered, done.result with
  | none, result => result = .panicked ∧ done.wrote = []
  | some _, .panicked => False
  | some gathered, .events result => result = gathered ∧ done.wrote = []
  | some (.error error), .print_events result => result = .error error ∧ done.wrote = []
  | some (.ok events), .print_events result =>
    (result = .ok () ∧ done.wrote = display.lines events) ∨
      ((∃ kind, result = .error (.Io kind)) ∧ done.wrote <+: display.lines events ∧
        done.wrote.length < (display.lines events).length)

theorem print_events_right (display : EventDisplay ε) (gathered : Except TraceError (List ε))
    (writer : Sink UInt8 ErrorKind) : ∃ wrote,
      (print_events display gathered writer).2.taken = writer.taken ++ wrote ∧
      Done.Right display ⟨some gathered, .print_events (print_events display gathered writer).1, wrote⟩ := by
  cases gathered with
  | error error => exact ⟨[], (List.append_nil _).symm, rfl, rfl⟩
  | ok events =>
    obtain ⟨k, hk, htaken, hok⟩ := display.print_all_part events writer
    refine ⟨(display.lines events).take k, ?_, ?_⟩
    · unfold print_events
      rcases hprint : display.print_all events writer with ⟨kind | ⟨⟩, writer'⟩
      · rw [hprint] at htaken
        simpa only [hprint] using htaken
      · rw [hprint] at htaken
        simpa only [hprint] using htaken
    · unfold print_events Done.Right
      rcases hprint : display.print_all events writer with ⟨kind | ⟨⟩, writer'⟩
      · rw [hprint] at hok
        have hlt : k ≠ (display.lines events).length := fun h => by cases hok.2 h
        refine .inr ⟨⟨kind, by simp only [hprint]⟩, List.take_prefix _ _, ?_⟩
        rw [List.length_take]
        omega
      · rw [hprint] at hok
        refine .inl ⟨by simp only [hprint], ?_⟩
        rw [hok.1 rfl, List.take_length]

/-- Each call has its own collection, in turn; the one under way is at most one ahead. -/
def Gathered (s : TraceClient ε) (done : List (Done ε)) : Prop :=
  match s.listener, s.call with
  | none, _ => ∀ d ∈ done, d.gathered = some (.ok [])
  | some listener, none => listener.collector = .idle ∧ listener.returned = done.filterMap Done.gathered
  | some listener, some _ =>
    (listener.collector ≠ .idle ∧ listener.returned = done.filterMap Done.gathered) ∨
      (listener.collector = .idle ∧ ∃ result, listener.returned = done.filterMap Done.gathered ++ [result])

/-- What the client has done since its writer had taken `before`. -/
structure Inv (display : EventDisplay ε) (before : List UInt8) (s : TraceClient ε) (done : List (Done ε)) : Prop where
  results : done.map Done.result = s.results
  right : ∀ d ∈ done, d.Right display
  written : s.writer.taken = before ++ done.flatMap Done.wrote
  gathered : s.Gathered done

section Steps
variable {before : List UInt8} {done : List (Done ε)}

/-- What `events` returns is the collection of this call. -/
theorem events_gathered {kind : ClientCall} {result : Except TraceError (List ε)} (hg : s.Gathered done)
    (hcall : s.call = some kind) (hevents : s.events = some result) :
    match s.listener with
    | none => result = .ok []
    | some listener => listener.collector = .idle ∧ listener.returned = done.filterMap Done.gathered ++ [result] := by
  unfold Gathered at hg
  unfold events at hevents
  rw [hcall] at hg
  cases hlistener : s.listener with
  | none =>
    rw [hlistener] at hevents
    cases hevents
    rfl
  | some listener =>
    simp only [hlistener] at hg hevents ⊢
    rcases hg with ⟨hbusy, -⟩ | ⟨hidle, last, hreturned⟩
    · split at hevents
      · rename_i hidle
        exact absurd hidle hbusy
      · cases hevents
    · rw [hidle] at hevents
      simp only [hreturned, List.getLast?_append, List.getLast?_singleton, Option.some_or, Option.some.injEq] at hevents
      exact ⟨hidle, by rw [hreturned, hevents]⟩

/-- A call that returns has done one thing more. -/
theorem Inv.returns {kind : ClientCall} {gathered : Except TraceError (List ε)} (hi : Inv display before s done)
    (hcall : s.call = some kind) (hevents : s.events = some gathered) {result : ClientResult ε} {wrote : List UInt8}
    {writer : Sink UInt8 ErrorKind} (hright : Done.Right display ⟨some gathered, result, wrote⟩)
    (hwriter : writer.taken = s.writer.taken ++ wrote) :
    Inv display before { s with call := none, writer := writer, results := s.results ++ [result] }
      (done ++ [⟨some gathered, result, wrote⟩]) := by
  have hgathered := events_gathered hi.gathered hcall hevents
  refine ⟨?_, ?_, ?_, ?_⟩
  · rw [List.map_append, hi.results]
    rfl
  · intro d hd
    rcases List.mem_append.1 hd with hd | hd
    · exact hi.right d hd
    · rw [List.mem_singleton.1 hd]
      exact hright
  · rw [hwriter, hi.written, List.flatMap_append, List.append_assoc]
    simp
  · have hbefore := hi.gathered
    unfold Gathered at hbefore ⊢
    cases hlistener : s.listener with
    | none =>
      simp only [hlistener] at hgathered hbefore ⊢
      intro d hd
      rcases List.mem_append.1 hd with hd | hd
      · exact hbefore d hd
      · rw [List.mem_singleton.1 hd]
        exact congrArg some hgathered
    | some listener =>
      simp only [hlistener] at hgathered ⊢
      exact ⟨hgathered.1, by rw [hgathered.2, List.filterMap_append]; rfl⟩

/-- A call that panics has read and written nothing. -/
theorem Inv.panics {listener listener' : TraceSocketListener ε} (hi : Inv display before s done) (hcall : s.call = none)
    (hlistener : s.listener = some listener) (hidle : listener'.collector = .idle)
    (hreturned : listener'.returned = listener.returned) :
    Inv display before { s with listener := some listener', results := s.results ++ [.panicked] }
      (done ++ [⟨none, .panicked, []⟩]) := by
  refine ⟨?_, ?_, ?_, ?_⟩
  · rw [List.map_append, hi.results]
    rfl
  · intro d hd
    rcases List.mem_append.1 hd with hd | hd
    · exact hi.right d hd
    · rw [List.mem_singleton.1 hd]
      exact ⟨rfl, rfl⟩
  · rw [List.flatMap_append, ← List.append_assoc, ← hi.written]
    exact (List.append_nil _).symm
  · have hbefore := hi.gathered
    unfold Gathered at hbefore ⊢
    simp only [hlistener, hcall] at hbefore ⊢
    refine ⟨hidle, ?_⟩
    rw [hreturned, hbefore.2, List.filterMap_append]
    exact (List.append_nil _).symm

/-- Nothing more is done until a call returns. -/
theorem Inv.goes_on (hi : Inv display before s done) (hresults : t.results = s.results)
    (hwriter : t.writer = s.writer) (hg : t.Gathered done) : ∃ more, Inv display before t (done ++ more) := by
  refine ⟨[], ?_⟩
  rw [List.append_nil]
  exact ⟨hi.results.trans hresults.symm, hi.right, by rw [hwriter]; exact hi.written, hg⟩

theorem inv_step {act : ClientAct ε} (hi : Inv display before s done) (h : s.step E display act = some t) :
    ∃ more, Inv display before t (done ++ more) := by
  have hg := hi.gathered
  unfold Gathered at hg
  cases step_moves h with
  | calls_disabled kind hcall hlistener =>
    refine hi.goes_on rfl rfl ?_
    rw [hlistener] at hg
    simpa only [Gathered, hlistener] using hg
  | calls kind listener listener' hcall hlistener hstep hbusy hreturned hfits =>
    refine hi.goes_on rfl rfl ?_
    simp only [hlistener, hcall] at hg
    exact .inl ⟨hbusy, hreturned.trans hg.2⟩
  | panics kind listener listener' hcall hlistener hstep hidle hreturned hover =>
    exact ⟨_, hi.panics hcall hlistener hidle hreturned⟩
  | listens act listener listener' hlistener hact hstep =>
    refine hi.goes_on rfl rfl ?_
    cases hcall : s.call with
    | none =>
      simp only [hlistener, hcall] at hg
      simp only [Gathered]
      rcases step_returned hact hstep with ⟨hreturned, hidle⟩ | ⟨hbusy, -⟩
      · exact ⟨hidle.2 hg.1, hreturned.trans hg.2⟩
      · exact absurd hg.1 hbusy
    | some kind =>
      simp only [hlistener, hcall] at hg
      simp only [Gathered]
      rcases step_returned hact hstep with ⟨hreturned, hidle⟩ | ⟨hbusy, hidle, result, hreturned⟩
      · rwa [hreturned, ne_eq, hidle]
      · rcases hg with ⟨-, hsame⟩ | ⟨hidle', -⟩
        · exact .inr ⟨hidle, result, by rw [hreturned, hsame]⟩
        · exact absurd hidle' hbusy
  | returns_events result hcall hevents =>
    have hright : Done.Right display ⟨some result, .events result, []⟩ := by
      cases result <;> exact ⟨rfl, rfl⟩
    exact ⟨_, hi.returns hcall hevents hright (List.append_nil _).symm⟩
  | returns_printed result hcall hevents =>
    obtain ⟨wrote, hwriter, hright⟩ := print_events_right display result s.writer
    exact ⟨_, hi.returns hcall hevents hright hwriter⟩

/-- The calls have the results of the listener's collect calls. -/
theorem Inv.events {listener : TraceSocketListener ε} (hi : Inv display before s done)
    (hlistener : s.listener = some listener) :
    done.filterMap Done.gathered <+: listener.returned ∧
      (s.call = none → listener.returned = done.filterMap Done.gathered ∧ listener.collector = .idle) := by
  have hg := hi.gathered
  unfold Gathered at hg
  cases hcall : s.call with
  | none =>
    simp only [hlistener, hcall] at hg
    exact ⟨hg.2 ▸ List.prefix_refl _, fun _ => ⟨hg.2, hg.1⟩⟩
  | some kind =>
    simp only [hlistener, hcall] at hg
    refine ⟨?_, nofun⟩
    rcases hg with ⟨-, hreturned⟩ | ⟨-, result, hreturned⟩
    · simp only [hreturned, List.prefix_refl]
    · simp only [hreturned, List.prefix_append]

end Steps

/-! ## From the logs to the writer -/

/-- The connections to the listener carry the frames of `carried`, in this order. -/
def Carrying (E : TraceEventFrame ε) (carried : List ε) (s : TraceClient ε) : ClientAct ε → Prop
  | .listener act => ∀ listener, s.listener = some listener → TraceSocketListener.Carrying E carried listener act
  | _ => True

/-- A collection that is called for has an `Instant` to end at. -/
def Timely (s : TraceClient ε) : ClientAct ε → Prop
  | .call _ => ∀ listener, s.listener = some listener → listener.now + s.collect_duration ≤ Instant.MAX
  | _ => True

/-- The events of the calls so far. -/
def collectedBy (done : List (Done ε)) : List ε := ((done.filterMap Done.gathered).filterMap Except.toOption).flatten

section Runs
variable {carried : List ε}

def InOrder (E : TraceEventFrame ε) (carried : List ε) (s : TraceClient ε) : Prop :=
  ∀ listener, s.listener = some listener → TraceSocketListener.InOrder E carried listener

theorem inOrder_step (hE : E.Undoes) {act : ClientAct ε} (hi : InOrder E carried s) (hguard : Carrying E carried s act)
    (h : s.step E display act = some t) : InOrder E carried t := by
  have hcollect : ∀ listener listener' : TraceSocketListener ε, s.listener = some listener →
      listener.step E (.collect none s.collect_duration) = some listener' →
      TraceSocketListener.InOrder E carried listener' := by
    intro listener listener' hlistener hstep
    have hfree : TraceSocketListener.Carrying E carried listener (.collect none s.collect_duration) := trivial
    exact TraceSocketListener.inOrder_step E hE (hi listener hlistener) hfree hstep
  cases step_moves h with
  | calls_disabled kind hcall hlistener => exact hi
  | calls kind listener listener' hcall hlistener hstep =>
    rintro _ ⟨⟩
    exact hcollect listener listener' hlistener hstep
  | panics kind listener listener' hcall hlistener hstep =>
    rintro _ ⟨⟩
    exact hcollect listener listener' hlistener hstep
  | listens act listener listener' hlistener hact hstep =>
    rintro _ ⟨⟩
    exact TraceSocketListener.inOrder_step E hE (hi listener hlistener) (hguard listener hlistener) hstep
  | returns_events result hcall hevents => exact hi
  | returns_printed result hcall hevents => exact hi

/-- The calls got what the listener handed out, all of it once none is under way. -/
theorem Inv.collected {before : List UInt8} {done : List (Done ε)} {listener : TraceSocketListener ε}
    (hi : Inv display before s done) (hlistener : s.listener = some listener) :
    collectedBy done <+: listener.collected ∧ (s.call = none → collectedBy done = listener.collected) := by
  obtain ⟨⟨rest, hrest⟩, hidle⟩ := hi.events hlistener
  constructor
  · rw [collectedBy, TraceSocketListener.collected, ← hrest, List.filterMap_append, List.flatten_append, List.append_assoc]
    exact List.prefix_append _ _
  · intro hcall
    obtain ⟨hreturned, hcollector⟩ := hidle hcall
    rw [collectedBy, TraceSocketListener.collected, hcollector, Collector.events, List.append_nil, hreturned]

end Runs

end TraceClient

end TriadRuntime
