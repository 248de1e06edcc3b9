import TriadRuntime.Systems.Runs
import TriadRuntime.Systems.Tables
import TriadRuntime.Frame
/-!
# Traces (`trace.rs`)

Any number of socket `TraceLog`s write to one `TraceSocketListener`: each
`record_result` opens a connection of its own and puts one frame on it. One
thread makes the collect calls, one after the other.

Trusted: the kernel queues connections in the order they were made, delivers
the bytes of each in order, in pieces of its own choosing, and shows the end of
a stream once its peer has closed. An accepted stream blocks its reader (the
listener is non-blocking, its streams are not), so a read is one step, taken
when the bytes that arrived decide its result. Durations and readings of the
clock are in nanoseconds.
-/

open Systems

namespace TriadRuntime

inductive TraceError where
  | Io (kind : ErrorKind)
  | ArchiveEncode
  | ArchiveDecode
  | Frame (error : FrameError)
deriving DecidableEq, Repr

/-- The trait's two functions, which each component writes for its own events. -/
structure TraceEventFrame (ε : Type) where
  to_trace_archive : ε → Except TraceError (List UInt8)
  from_trace_archive : List UInt8 → Except TraceError ε

/-- `from_trace_archive` undoes `to_trace_archive`. -/
def TraceEventFrame.Undoes {ε : Type} (E : TraceEventFrame ε) : Prop :=
  ∀ event archive, E.to_trace_archive event = .ok archive → E.from_trace_archive archive = .ok event

structure TraceFrame (ε : Type) where
  event : ε
deriving DecidableEq, Repr

variable {ε : Type} (E : TraceEventFrame ε)

namespace TraceFrame

def to_bytes (frame : TraceFrame ε) : Except TraceError (List UInt8) :=
  match E.to_trace_archive frame.event with
  | .error error => .error error
  | .ok archive =>
    match LengthPrefixedCodec.default.encode_body ⟨archive⟩ with
    | .error error => .error (.Frame error)
    | .ok bytes => .ok bytes

def write_to (frame : TraceFrame ε) (stream : List UInt8) : Except TraceError Unit × List UInt8 :=
  match E.to_trace_archive frame.event with
  | .error error => (.error error, stream)
  | .ok archive =>
    match LengthPrefixedCodec.default.write_body stream ⟨archive⟩ with
    | (.error error, stream) => (.error (.Frame error), stream)
    | (.ok (), stream) => (.ok (), stream)

def read_from (stream : Reader UInt8) : Except TraceError (TraceFrame ε) × Reader UInt8 :=
  match LengthPrefixedCodec.default.read_body stream with
  | (.error error, stream) => (.error (.Frame error), stream)
  | (.ok body, stream) =>
    match E.from_trace_archive body.bytes with
    | .error error => (.error error, stream)
    | .ok event => (.ok ⟨event⟩, stream)

end TraceFrame

/-! ## Frames of events -/

/-- One frame, of an archive that decodes to `event`. -/
def WholeFrame (event : ε) (bytes : List UInt8) : Prop :=
  ∃ archive, E.from_trace_archive archive = .ok event ∧ fits U32_MAX ⟨archive⟩ = true ∧ bytes = frame ⟨archive⟩

section Frames
variable {E}

/-- An event encodes when its archive exists and fits the frame limit. -/
theorem to_bytes_ok {frame : TraceFrame ε} {bytes : List UInt8} (h : frame.to_bytes E = .ok bytes) :
    ∃ archive, E.to_trace_archive frame.event = .ok archive ∧ fits U32_MAX ⟨archive⟩ = true ∧
      bytes = TriadRuntime.frame ⟨archive⟩ := by
  unfold TraceFrame.to_bytes at h
  cases ha : E.to_trace_archive frame.event with
  | error error => simp [ha] at h
  | ok archive =>
    have hspec := encode_body_spec U32_MAX ⟨archive⟩
    change LengthPrefixedCodec.default.encode_body ⟨archive⟩ = _ at hspec
    by_cases hf : fits U32_MAX ⟨archive⟩ = true
    · rw [if_pos hf] at hspec
      simp only [ha, hspec, Except.ok.injEq] at h
      exact ⟨archive, rfl, hf, h.symm⟩
    · rw [if_neg hf] at hspec
      simp [ha, hspec] at h

/-- `write_to` repeats `to_bytes` before it writes. -/
theorem write_to_eq (frame : TraceFrame ε) (stream : List UInt8) :
    frame.write_to E stream = match frame.to_bytes E with
      | .error error => (.error error, stream)
      | .ok bytes => (.ok (), stream ++ bytes) := by
  unfold TraceFrame.write_to TraceFrame.to_bytes
  cases ha : E.to_trace_archive frame.event with
  | error error => rfl
  | ok archive =>
    have hw := write_body_with_spec std_write_all (fun _ _ => rfl) U32_MAX stream ⟨archive⟩
    change LengthPrefixedCodec.default.write_body stream ⟨archive⟩ = _ at hw
    have he := encode_body_spec U32_MAX ⟨archive⟩
    change LengthPrefixedCodec.default.encode_body ⟨archive⟩ = _ at he
    by_cases hf : fits U32_MAX ⟨archive⟩ = true <;> simp [hw, he, hf]

/-- What an event encodes to, decodes to it. -/
theorem wholeFrame_of_to_bytes (hE : E.Undoes) {event : ε} {bytes : List UInt8}
    (h : TraceFrame.to_bytes E ⟨event⟩ = .ok bytes) : WholeFrame E event bytes := by
  obtain ⟨archive, ha, hf, hb⟩ := to_bytes_ok h
  exact ⟨archive, hE event archive ha, hf, hb⟩

/-- A whole frame is read as its body, however it is cut. -/
theorem read_body_whole {body : FrameBody} {stream : Reader UInt8} (hf : fits U32_MAX body = true)
    (h : stream.bytes = frame body) : ∃ stream', LengthPrefixedCodec.default.read_body stream = (.ok body, stream') := by
  obtain ⟨stream', hr, -⟩ := read_body_with_frame std_read_exact_enough U32_MAX stream body [] hf
    (by rw [h, List.append_nil])
  exact ⟨stream', hr⟩

theorem WholeFrame.read_from {event : ε} {stream : Reader UInt8} (h : WholeFrame E event stream.bytes) :
    (TraceFrame.read_from E stream).1 = .ok ⟨event⟩ := by
  obtain ⟨archive, ha, hf, hb⟩ := h
  obtain ⟨stream', hr⟩ := read_body_whole hf hb
  unfold TraceFrame.read_from
  simp only [hr, ha]

/-- A frame of which something is missing leaves its reader waiting. -/
theorem read_body_part {body : FrameBody} {stream : Reader UInt8} {rest : List UInt8}
    (hf : fits U32_MAX body = true) (h : frame body = stream.bytes ++ rest) (hrest : rest ≠ []) :
    (LengthPrefixedCodec.default.read_body stream).1 = .error (.Io .UnexpectedEof) := by
  have hpos : 0 < rest.length := List.length_pos_iff.2 hrest
  have hlen : (to_be_bytes (UInt32.ofNat body.len)).length = LENGTH_PREFIX_BYTE_COUNT := toBigEndian_length _ _
  have htotal := congrArg List.length h
  rw [frame, List.length_append, List.length_append, hlen] at htotal
  unfold LengthPrefixedCodec.read_body LengthPrefixedCodec.read_body_with
  by_cases hshort : stream.bytes.length < LENGTH_PREFIX_BYTE_COUNT
  · rw [std_read_exact_short _ _ hshort]
  · -- the prefix is there and says how much more is to come
    obtain ⟨stream₁, h1, h2⟩ := std_read_exact_enough LENGTH_PREFIX_BYTE_COUNT stream (by omega)
    have hhead : stream.bytes.take LENGTH_PREFIX_BYTE_COUNT = to_be_bytes (UInt32.ofNat body.len) := by
      have := congrArg (List.take LENGTH_PREFIX_BYTE_COUNT) h
      rw [frame, List.take_left' hlen, List.take_append_of_le_length (by omega)] at this
      exact this.symm
    have hn : (from_be_bytes (to_be_bytes (UInt32.ofNat body.len))).toNat = body.len := by
      simp only [fits, decide_eq_true_eq, Nat.le_min, U32_MAX] at hf
      rw [from_be_bytes_to_be_bytes, UInt32.toNat_ofNat', Nat.mod_eq_of_lt (by omega)]
    have hshort₁ : stream₁.bytes.length < body.len := by
      rw [h2, List.length_drop]
      have : body.bytes.length = body.len := rfl
      omega
    rw [h1]
    simp only [hhead, hn, std_read_exact_short _ _ hshort₁]
    split <;> rename_i hv
    · simp only [fits, decide_eq_true_eq, Nat.le_min] at hf
      simp [LengthPrefixedCodec.validate_length, LengthPrefixedCodec.default, MaximumFrameLength.accepts,
        MaximumFrameLength.maximum_for_u32_prefix, hf.1] at hv
    · rfl

end Frames

/-! ## Connections -/

/-- Where one `write_event` stands, from the moment its stream is connected. -/
inductive WriteEvent where
  | connected
  | writing (rest : List UInt8)
  | returned (result : Except TraceError Unit)
deriving DecidableEq, Repr

/-- Who opened a connection: a log, with the event it records, or anyone else. -/
inductive Peer (ε : Type) where
  | log (event : ε) (call : WriteEvent)
  | foreign
deriving DecidableEq, Repr

structure Connection (ε : Type) where
  peer : Peer ε
  arrived : Reader UInt8
  closed : Bool
deriving Repr

/-- What a peer does with its connection. -/
inductive PeerAct where
  | encode
  | write (n : Nat)
  | finish
  | send (chunk : Chunk UInt8)
  | close
deriving Repr

namespace Connection

/-- One step of a peer: `dropped` when the collector has dropped its end. -/
def step (dropped : Bool) (c : Connection ε) : PeerAct → Option (Connection ε)
  | .encode =>
    match c.peer with
    | .log event .connected =>
      match TraceFrame.to_bytes E ⟨event⟩ with
      -- the stream is open already: it goes with the failed call, empty
      | .error error => some { c with peer := .log event (.returned (.error error)), closed := true }
      | .ok bytes => some { c with peer := .log event (.writing bytes) }
    | _ => none
  | .write n =>
    match c.peer with
    | .log event (.writing rest) =>
      if h : rest.take n = [] then none
      else if dropped then
        some { c with peer := .log event (.returned (.error (.Frame (.Io .Other)))), closed := true }
      else
        some { c with peer := .log event (.writing (rest.drop n)), arrived := c.arrived ++ [⟨rest.take n, h⟩] }
    | _ => none
  | .finish =>
    match c.peer with
    | .log event (.writing []) => some { c with peer := .log event (.returned (.ok ())), closed := true }
    | _ => none
  | .send chunk =>
    match c.peer with
    | .foreign => if c.closed || dropped then none else some { c with arrived := c.arrived ++ [chunk] }
    | _ => none
  | .close =>
    match c.peer with
    | .foreign => some { c with closed := true }
    | _ => none

/-- `read_from` on this stream, once it returns. -/
def reading (c : Connection ε) : Except TraceError ε := (TraceFrame.read_from E c.arrived).1.map (·.event)

/-- Nothing still to come can change what `read_body` returns. -/
def ready (c : Connection ε) : Bool :=
  c.closed || decide ((LengthPrefixedCodec.default.read_body c.arrived).1 ≠ .error (.Io .UnexpectedEof))

/-- The event of a log, whatever became of it. -/
def event? (c : Connection ε) : Option ε :=
  match c.peer with
  | .log event _ => some event
  | .foreign => none

/-- A log is done with its stream once `record_result` has returned. -/
def finished (c : Connection ε) : Bool :=
  match c.peer with
  | .log _ (.returned _) => true
  | .log _ _ => false
  | .foreign => c.closed

/-- What a finished connection adds to the trace: the event of a log whose
`record_result` returned `Ok`, or whatever else was put there readably. -/
def recorded (c : Connection ε) : Option ε :=
  match c.peer with
  | .log event (.returned (.ok ())) => some event
  | .log _ _ => none
  | .foreign => (c.reading E).toOption

end Connection

/-! ## What a connection carries -/

namespace Connection

/-- The bytes on a log's stream are as much of its frame as it has written. -/
def Valid (c : Connection ε) : Prop :=
  match c.peer with
  | .log _ .connected => c.arrived = [] ∧ c.closed = false
  | .log event (.writing rest) => c.closed = false ∧ TraceFrame.to_bytes E ⟨event⟩ = .ok (c.arrived.bytes ++ rest)
  | .log event (.returned result) =>
      c.closed = true ∧ TraceFrame.write_to E ⟨event⟩ [] = (result, c.arrived.bytes)
  | .foreign => True

/-- Whatever a log has done so far, once its stream is ready to be read it has
nothing left to write. -/
theorem rest_nil {c : Connection ε} {event : ε} {rest : List UInt8} (hv : c.Valid E) (hready : c.ready = true)
    (hp : c.peer = .log event (.writing rest)) : rest = [] := by
  simp only [Valid, hp] at hv
  obtain ⟨hopen, hbytes⟩ := hv
  by_contra hrest
  obtain ⟨archive, -, hf, hb⟩ := to_bytes_ok hbytes
  have hwait := read_body_part hf hb.symm hrest
  simp [ready, hopen, hwait] at hready

theorem connected_not_ready {c : Connection ε} {event : ε} (hv : c.Valid E)
    (hp : c.peer = .log event .connected) : c.ready = false := by
  simp only [Valid, hp] at hv
  have hshort := std_read_exact_short LENGTH_PREFIX_BYTE_COUNT [] (by simp [LENGTH_PREFIX_BYTE_COUNT])
  have hwait : (LengthPrefixedCodec.default.read_body []).1 = .error (.Io .UnexpectedEof) := by
    simp [LengthPrefixedCodec.read_body, LengthPrefixedCodec.read_body_with, hshort]
  simp [ready, hv.1, hv.2, hwait]

/-- The stream of an event that encodes reads back as that event. -/
theorem reads_event (hE : E.Undoes) {c : Connection ε} {event : ε} {bytes : List UInt8} (hv : c.Valid E)
    (hready : c.ready = true) (he : c.event? = some event) (hb : TraceFrame.to_bytes E ⟨event⟩ = .ok bytes) :
    c.reading E = .ok event := by
  have hframe : TraceFrame.to_bytes E ⟨event⟩ = .ok c.arrived.bytes := by
    unfold event? at he
    split at he <;> cases he
    rename_i call hp
    cases call with
    | connected => rw [connected_not_ready E hv hp] at hready; cases hready
    | writing rest =>
      have hrest := rest_nil E hv hready hp
      simp only [Valid, hp, hrest, List.append_nil] at hv
      exact hv.2
    | returned result =>
      simp only [Valid, hp, write_to_eq, hb, Prod.mk.injEq] at hv
      rw [hb, ← hv.2.2, List.nil_append]
  simp [reading, (wholeFrame_of_to_bytes hE hframe).read_from, Except.map]

/-- What could be read as an event is the stream of a log whose event encodes:
a record that failed has left nothing to read. -/
theorem encodes_of_reading {c : Connection ε} {event event' : ε} (hv : c.Valid E) (hready : c.ready = true)
    (he : c.event? = some event) (hread : c.reading E = .ok event') :
    ∃ bytes, TraceFrame.to_bytes E ⟨event⟩ = .ok bytes := by
  unfold event? at he
  split at he <;> cases he
  rename_i call hp
  cases call with
  | connected => rw [connected_not_ready E hv hp] at hready; cases hready
  | writing rest =>
    simp only [Valid, hp] at hv
    exact ⟨_, hv.2⟩
  | returned result =>
    simp only [Valid, hp, write_to_eq] at hv
    cases hb : TraceFrame.to_bytes E ⟨event⟩ with
    | ok bytes => exact ⟨bytes, rfl⟩
    | error error =>
      simp only [hb, Prod.mk.injEq] at hv
      have hend : (LengthPrefixedCodec.default.read_body c.arrived).1 = .error (.Io .UnexpectedEof) :=
        read_by_end U32_MAX .sync c.arrived hv.2.2.symm
      unfold reading TraceFrame.read_from at hread
      split at hread
      · cases hread
      · rename_i hbody
        rw [hbody] at hend; cases hend

/-- A record that returned `Ok` has left its event to be read. -/
theorem reads_recorded (hE : E.Undoes) {c : Connection ε} {event : ε} (hv : c.Valid E)
    (hp : c.peer = .log event (.returned (.ok ()))) :
    c.ready = true ∧ c.reading E = .ok event ∧ c.recorded E = some event := by
  have he : c.event? = some event := by simp [event?, hp]
  have hvalid := hv
  simp only [Valid, hp, write_to_eq] at hvalid
  have hready : c.ready = true := by simp [ready, hvalid.1]
  refine ⟨hready, ?_, by simp [recorded, hp]⟩
  cases hb : TraceFrame.to_bytes E ⟨event⟩ with
  | ok bytes => exact c.reads_event E hE hv hready he hb
  | error error => simp [hb] at hvalid

/-- What a peer's step keeps: how far its log has come agrees with what is on
the stream, the event stays the same, and nothing more arrives on a stream
that was read already. -/
structure Keeps (dropped : Bool) (c c' : Connection ε) : Prop where
  valid : c'.Valid E
  event : c'.event? = c.event?
  ready : dropped = true → c'.ready = true
  reading : dropped = true → c'.reading E = c.reading E

variable {dropped : Bool} {c c' : Connection ε}

theorem encode_keeps (h : c.step E dropped .encode = some c') (hv : c.Valid E)
    (hdropped : dropped = true → c.ready = true) : c.Keeps E dropped c' := by
  simp only [step] at h
  split at h
  · rename_i event hp
    have hopen : dropped = true → False := by
      intro hd
      rw [connected_not_ready E hv hp] at hdropped
      cases hdropped hd
    simp only [Valid, hp] at hv
    cases hb : TraceFrame.to_bytes E ⟨event⟩ with
    | error error =>
      simp only [hb, Option.some.injEq] at h
      subst h
      refine ⟨?_, by simp [event?, hp], fun hd => (hopen hd).elim, fun hd => (hopen hd).elim⟩
      simp [Valid, write_to_eq, hb, hv.1]
    | ok bytes =>
      simp only [hb, Option.some.injEq] at h
      subst h
      refine ⟨?_, by simp [event?, hp], fun hd => (hopen hd).elim, fun hd => (hopen hd).elim⟩
      simp [Valid, hb, hv.1, hv.2]
  · cases h

theorem write_keeps {n : Nat} (h : c.step E dropped (.write n) = some c') (hv : c.Valid E)
    (hdropped : dropped = true → c.ready = true) : c.Keeps E dropped c' := by
  simp only [step] at h
  split at h
  · rename_i event rest hp
    split at h
    · cases h
    rename_i hn
    have hopen : dropped = true → False := by
      intro hd
      have hrest := rest_nil E hv (hdropped hd) hp
      exact hn (by rw [hrest, List.take_nil])
    split at h
    · -- a broken pipe: the collector leaves no stream with bytes to come
      rename_i hd
      exact (hopen hd).elim
    · simp only [Option.some.injEq] at h
      subst h
      simp only [Valid, hp] at hv
      refine ⟨?_, by simp [event?, hp], fun hd => (hopen hd).elim, fun hd => (hopen hd).elim⟩
      simpa [Valid, Reader.bytes] using hv
  · cases h

theorem finish_keeps (h : c.step E dropped .finish = some c') (hv : c.Valid E) : c.Keeps E dropped c' := by
  simp only [step] at h
  split at h
  · rename_i event hp
    simp only [Option.some.injEq] at h
    subst h
    simp only [Valid, hp] at hv
    refine ⟨?_, by simp [event?, hp], fun _ => by simp [ready], fun _ => rfl⟩
    simp [Valid, write_to_eq, hv.2]
  · cases h

theorem send_keeps {chunk : Chunk UInt8} (h : c.step E dropped (.send chunk) = some c') : c.Keeps E dropped c' := by
  simp only [step] at h
  split at h
  · rename_i hp
    split at h
    · cases h
    rename_i hopen
    simp only [Bool.or_eq_true, not_or] at hopen
    simp only [Option.some.injEq] at h
    subst h
    exact ⟨by simp [Valid, hp], by simp [event?, hp], fun hd => (hopen.2 hd).elim, fun hd => (hopen.2 hd).elim⟩
  · cases h

theorem close_keeps (h : c.step E dropped .close = some c') : c.Keeps E dropped c' := by
  simp only [step] at h
  split at h
  · rename_i hp
    simp only [Option.some.injEq] at h
    subst h
    exact ⟨by simp [Valid, hp], by simp [event?, hp], fun _ => by simp [ready], fun _ => rfl⟩
  · cases h

theorem step_keeps {act : PeerAct} (h : c.step E dropped act = some c') (hv : c.Valid E)
    (hdropped : dropped = true → c.ready = true) : c.Keeps E dropped c' := by
  cases act with
  | encode => exact encode_keeps E h hv hdropped
  | write n => exact write_keeps E h hv hdropped
  | finish => exact finish_keeps E h hv
  | send chunk => exact send_keeps E h
  | close => exact close_keeps E h

end Connection

/-! ## The collector -/

/-- The last `Instant`: a `Timespec` has an `i64` of seconds and the nanoseconds of
one more. -/
def Instant.MAX : Nat := 2 ^ 63 * 10 ^ 9 - 1

/-- `Instant + Duration`; `none` where it panics. -/
def Instant.add (instant duration : Nat) : Option Nat :=
  if instant + duration ≤ Instant.MAX then some (instant + duration) else none

theorem Instant.add_some {instant duration deadline : Nat} :
    Instant.add instant duration = some deadline ↔ instant + duration ≤ Instant.MAX ∧ instant + duration = deadline := by
  simp only [Instant.add, Option.ite_none_right_eq_some, Option.some.injEq]

theorem Instant.add_none {instant duration : Nat} :
    Instant.add instant duration = none ↔ ¬ instant + duration ≤ Instant.MAX := by
  simp only [Instant.add, ite_eq_right_iff, reduceCtorEq, imp_false]

/-- One collect call: `collect_for` has no expected count. -/
structure Collect (ε : Type) where
  expected_count : Option Nat
  deadline : Nat
  events : List ε
deriving Repr

/-- Where the collecting thread stands: between calls, at the head of the loop,
before `accept`, or in `read_from` on the stream it accepted. -/
inductive Collector (ε : Type) where
  | idle
  | checking (call : Collect ε)
  | accepting (call : Collect ε)
  | reading (call : Collect ε)
deriving Repr

/-- The listener, its queue and the collecting thread. Of `connections`, in the
order in which they were made, the first `taken` have been read and dropped. Of
the collect calls, some have `returned` and some have `panicked`. -/
structure TraceSocketListener (ε : Type) where
  connections : List (Connection ε)
  taken : Nat
  collector : Collector ε
  now : Nat
  returned : List (Except TraceError (List ε))
  panicked : Nat
deriving Repr

inductive TraceAct (ε : Type) where
  /-- `UnixStream::connect` in a log's `write_event`. -/
  | connect (event : ε)
  | foreign_connect
  | peer (k : Nat) (act : PeerAct)
  | tick (d : Nat)
  /-- `collect_until_count`, or `collect_for` when there is no count. -/
  | collect (expected_count : Option Nat) (duration : Nat)
  | check
  | accept
  /-- An `accept` that fails otherwise than by `WouldBlock`. -/
  | accept_fails (kind : ErrorKind)
  | read
deriving Repr

/-- The condition of the two `while` loops. -/
def Collect.continues (call : Collect ε) (now : Nat) : Bool :=
  (match call.expected_count with
    | some n => call.events.length < n
    | none => true) && now < call.deadline

/-- The vector of the call under way. -/
def Collector.events : Collector ε → List ε
  | .idle => []
  | .checking call => call.events
  | .accepting call => call.events
  | .reading call => call.events

namespace TraceSocketListener

/-- A listener that was just bound. -/
def bound : TraceSocketListener ε := ⟨[], 0, .idle, 0, [], 0⟩

def step (s : TraceSocketListener ε) : TraceAct ε → Option (TraceSocketListener ε)
  | .connect event => some { s with connections := s.connections ++ [⟨.log event .connected, [], false⟩] }
  | .foreign_connect => some { s with connections := s.connections ++ [⟨.foreign, [], false⟩] }
  | .peer k act =>
    match s.connections[k]? with
    | some c => (c.step E (k < s.taken) act).map fun c' => { s with connections := s.connections.set k c' }
    | none => none
  | .tick d => (Instant.add s.now d).map fun now => { s with now := now }
  | .collect expected_count duration =>
    match s.collector, Instant.add s.now duration with
    | .idle, some deadline => some { s with collector := .checking ⟨expected_count, deadline, []⟩ }
    -- `Instant::now() + duration` panics before anything is read
    | .idle, none => some { s with panicked := s.panicked + 1 }
    | _, _ => none
  | .check =>
    match s.collector with
    | .checking call =>
      if call.continues s.now then some { s with collector := .accepting call }
      else some { s with collector := .idle, returned := s.returned ++ [.ok call.events] }
    | _ => none
  | .accept =>
    match s.collector with
    | .accepting call =>
      if s.taken < s.connections.length then some { s with collector := .reading call }
      -- `WouldBlock`: sleep, then look at the clock again
      else some { s with collector := .checking call }
    | _ => none
  | .accept_fails kind =>
    match s.collector with
    | .accepting _ =>
      if kind = .WouldBlock then none
      else some { s with collector := .idle, returned := s.returned ++ [.error (.Io kind)] }
    | _ => none
  | .read =>
    match s.collector, s.connections[s.taken]? with
    | .reading call, some c =>
      if c.ready then
        match c.reading E with
        | .ok event =>
          some { s with taken := s.taken + 1, collector := .checking { call with events := call.events ++ [event] } }
        -- `?` leaves with the error; the events of this call go with its vector
        | .error error =>
          some { s with taken := s.taken + 1, collector := .idle, returned := s.returned ++ [.error error] }
      else none
    | _, _ => none

/-- What the collect calls have handed out, or hold in their hands: the vectors
they returned, and the vector of the call under way. -/
def collected (s : TraceSocketListener ε) : List ε :=
  (s.returned.filterMap Except.toOption).flatten ++ s.collector.events

/-- What the reads so far returned, in connection order. -/
def readings (s : TraceSocketListener ε) : List (Except TraceError ε) :=
  (s.connections.take s.taken).map (Connection.reading E)

/-- What one act does, by cases on where the collecting thread stands. -/
inductive Moves (s : TraceSocketListener ε) : TraceAct ε → TraceSocketListener ε → Prop where
  | connect (event : ε) :
      Moves s (.connect event) { s with connections := s.connections ++ [⟨.log event .connected, [], false⟩] }
  | foreign_connect : Moves s .foreign_connect { s with connections := s.connections ++ [⟨.foreign, [], false⟩] }
  | peer {k : Nat} {act : PeerAct} {c c' : Connection ε} (hk : s.connections[k]? = some c)
      (hstep : c.step E (k < s.taken) act = some c') :
      Moves s (.peer k act) { s with connections := s.connections.set k c' }
  | tick (d : Nat) (hfits : s.now + d ≤ Instant.MAX) : Moves s (.tick d) { s with now := s.now + d }
  | collect (expected_count : Option Nat) (duration : Nat) (hidle : s.collector = .idle)
      (hfits : s.now + duration ≤ Instant.MAX) :
      Moves s (.collect expected_count duration)
        { s with collector := .checking ⟨expected_count, s.now + duration, []⟩ }
  | panics (expected_count : Option Nat) (duration : Nat) (hidle : s.collector = .idle)
      (hover : ¬ s.now + duration ≤ Instant.MAX) :
      Moves s (.collect expected_count duration) { s with panicked := s.panicked + 1 }
  | goes_on {call : Collect ε} (hcall : s.collector = .checking call) (hgo : call.continues s.now = true) :
      Moves s .check { s with collector := .accepting call }
  | returns {call : Collect ε} (hcall : s.collector = .checking call) (hstop : call.continues s.now = false) :
      Moves s .check { s with collector := .idle, returned := s.returned ++ [.ok call.events] }
  | accepts {call : Collect ε} (hcall : s.collector = .accepting call) (hlt : s.taken < s.connections.length) :
      Moves s .accept { s with collector := .reading call }
  | would_block {call : Collect ε} (hcall : s.collector = .accepting call)
      (hge : s.connections.length ≤ s.taken) : Moves s .accept { s with collector := .checking call }
  | accept_fails {call : Collect ε} (kind : ErrorKind) (hcall : s.collector = .accepting call) :
      Moves s (.accept_fails kind) { s with collector := .idle, returned := s.returned ++ [.error (.Io kind)] }
  | reads {call : Collect ε} {c : Connection ε} {event : ε} (hcall : s.collector = .reading call)
      (hc : s.connections[s.taken]? = some c) (hready : c.ready = true) (hread : c.reading E = .ok event) :
      Moves s .read
        { s with taken := s.taken + 1, collector := .checking { call with events := call.events ++ [event] } }
  | fails {call : Collect ε} {c : Connection ε} {error : TraceError} (hcall : s.collector = .reading call)
      (hc : s.connections[s.taken]? = some c) (hready : c.ready = true) (hread : c.reading E = .error error) :
      Moves s .read
        { s with taken := s.taken + 1, collector := .idle, returned := s.returned ++ [.error error] }

theorem step_moves {s t : TraceSocketListener ε} {act : TraceAct ε} (h : s.step E act = some t) :
    Moves E s act t := by
  cases act with
  | connect event => cases h; exact .connect event
  | foreign_connect => cases h; exact .foreign_connect
  | peer k act =>
    simp only [step] at h
    split at h
    · rename_i c hk
      obtain ⟨c', hc', rfl⟩ := Option.map_eq_some_iff.1 h
      exact .peer hk hc'
    · cases h
  | tick d =>
    obtain ⟨now, hnow, rfl⟩ := Option.map_eq_some_iff.1 h
    obtain ⟨hfits, rfl⟩ := Instant.add_some.1 hnow
    exact .tick d hfits
  | collect expected_count duration =>
    simp only [step] at h
    split at h
    · rename_i deadline hidle hadd
      obtain ⟨hfits, rfl⟩ := Instant.add_some.1 hadd
      cases h; exact .collect expected_count duration hidle hfits
    · rename_i hidle hadd
      cases h; exact .panics expected_count duration hidle (Instant.add_none.1 hadd)
    · cases h
  | check =>
    simp only [step] at h
    split at h
    · rename_i call hcall
      split at h <;> cases h
      · rename_i hgo
        exact .goes_on hcall hgo
      · rename_i hstop
        exact .returns hcall (by simpa using hstop)
    · cases h
  | accept =>
    simp only [step] at h
    split at h
    · rename_i call hcall
      split at h <;> cases h
      · rename_i hlt
        exact .accepts hcall hlt
      · rename_i hge
        exact .would_block hcall (by omega)
    · cases h
  | accept_fails kind =>
    simp only [step] at h
    split at h
    · rename_i call hcall
      split at h <;> cases h
      exact .accept_fails kind hcall
    · cases h
  | read =>
    simp only [step] at h
    split at h
    · rename_i call c hcall hc
      split at h
      · rename_i hready
        split at h <;> cases h
        · rename_i hread
          exact .reads hcall hc hready hread
        · rename_i hread
          exact .fails hcall hc hready hread
      · cases h
    · cases h

/-! ## What the collect calls return -/

/-- The error of a call that failed. -/
def failure? {α : Type} : Except TraceError α → Option TraceError
  | .ok _ => none
  | .error error => some error

/-- The deadline of a call that is made is an `Instant`. -/
def Timely (s : TraceSocketListener ε) : TraceAct ε → Prop
  | .collect _ duration => s.now + duration ≤ Instant.MAX
  | _ => True

/-- A step that spoils nothing: the log whose stream is read had an event that
encodes, a stream that some other peer spoilt is met by a call that has read
nothing yet, `accept` itself works, and so does adding up a deadline. -/
def Clear (s : TraceSocketListener ε) : TraceAct ε → Prop
  | .read => ∀ c, s.connections[s.taken]? = some c →
      match c.peer with
      | .log event _ => ∃ bytes, TraceFrame.to_bytes E ⟨event⟩ = .ok bytes
      | .foreign => (∃ event, c.reading E = .ok event) ∨ s.collector.events = []
  | .accept_fails _ => False
  | .collect expected_count duration => Timely s (.collect expected_count duration)
  | _ => True

structure Inv (s : TraceSocketListener ε) : Prop where
  taken_le : s.taken ≤ s.connections.length
  valid : ∀ c ∈ s.connections, c.Valid E
  ready : ∀ c ∈ s.connections.take s.taken, c.ready = true
  encodes : ∀ c ∈ s.connections.take s.taken, ∀ event, c.event? = some event →
    ∃ bytes, TraceFrame.to_bytes E ⟨event⟩ = .ok bytes
  collected : s.collected = (s.readings E).filterMap Except.toOption
  failures : s.returned.filterMap failure? = (s.readings E).filterMap failure?
  none_panicked : s.panicked = 0

variable {s t : TraceSocketListener ε}

theorem inv_bound : Inv E (bound : TraceSocketListener ε) := by
  constructor <;> simp [bound, TraceSocketListener.collected, readings, Collector.events]

/-- A connection that is still to be read may be added. -/
theorem inv_connect {c : Connection ε} (hi : Inv E s) (hv : c.Valid E) :
    Inv E { s with connections := s.connections ++ [c] } := by
  have htake : (s.connections ++ [c]).take s.taken = s.connections.take s.taken :=
    List.take_append_of_le_length hi.taken_le
  have hreadings : readings E { s with connections := s.connections ++ [c] } = s.readings E := by
    simp only [readings, htake]
  refine ⟨?_, ?_, ?_, ?_, ?_, ?_, hi.none_panicked⟩
  · simp only [List.length_append]
    exact Nat.le_add_right_of_le hi.taken_le
  · intro d hd
    rcases List.mem_append.1 hd with hd | hd
    · exact hi.valid d hd
    · rw [List.mem_singleton.1 hd]; exact hv
  · rw [htake]; exact hi.ready
  · rw [htake]; exact hi.encodes
  · rw [hreadings]; exact hi.collected
  · rw [hreadings]; exact hi.failures

theorem inv_peer {k : Nat} {c c' : Connection ε} (hi : Inv E s) (hk : s.connections[k]? = some c)
    (hkeeps : c.Keeps E (k < s.taken) c') : Inv E { s with connections := s.connections.set k c' } := by
  have hreadings : readings E { s with connections := s.connections.set k c' } = s.readings E :=
    map_take_set _ hk fun hlt => hkeeps.reading (by simpa using hlt)
  -- a property of the streams that were read survives the peer's step
  have htaken : ∀ p : Connection ε → Prop, (∀ d ∈ s.connections.take s.taken, p d) → (k < s.taken → p c → p c') →
      ∀ d ∈ (s.connections.set k c').take s.taken, p d := by
    intro p hall hp d hd
    by_cases hlt : k < s.taken
    · rw [List.take_set] at hd
      rcases mem_set_row hd with hd | rfl
      · exact hall d hd
      · exact hp hlt (hall c (List.mem_of_getElem? (by rw [List.getElem?_take_of_lt hlt, hk])))
    · rw [List.take_set_of_le (Nat.le_of_not_lt hlt)] at hd
      exact hall d hd
  refine ⟨?_, ?_, ?_, ?_, ?_, ?_, hi.none_panicked⟩
  · simp only [List.length_set]; exact hi.taken_le
  · intro d hd
    rcases mem_set_row hd with hd | rfl
    · exact hi.valid d hd
    · exact hkeeps.valid
  · exact htaken _ hi.ready fun hlt _ => hkeeps.ready (by simpa using hlt)
  · apply htaken _ hi.encodes
    intro _ hc event he
    exact hc event (by rw [← hkeeps.event, he])
  · rw [hreadings]; exact hi.collected
  · rw [hreadings]; exact hi.failures

/-- Steps of the clock and of the collecting thread between its reads touch no
connection. -/
theorem Inv.thread (hi : Inv E s) (hconn : t.connections = s.connections) (htaken : t.taken = s.taken)
    (hcol : t.collected = s.collected) (hfail : t.returned.filterMap failure? = s.returned.filterMap failure?)
    (hpanicked : t.panicked = s.panicked) : Inv E t := by
  have hreadings : t.readings E = s.readings E := by simp only [readings, hconn, htaken]
  exact ⟨by rw [htaken, hconn]; exact hi.taken_le, by rw [hconn]; exact hi.valid,
    by rw [htaken, hconn]; exact hi.ready, by rw [htaken, hconn]; exact hi.encodes,
    by rw [hreadings, hcol]; exact hi.collected, by rw [hreadings, hfail]; exact hi.failures,
    hpanicked.trans hi.none_panicked⟩

theorem Inv.moves_on (hi : Inv E s) {collector : Collector ε} (h : collector.events = s.collector.events) :
    Inv E { s with collector := collector } := by
  have hcol : TraceSocketListener.collected { s with collector := collector } = s.collected := congrArg (_ ++ ·) h
  exact hi.thread E rfl rfl hcol rfl rfl

theorem readings_take {c : Connection ε} (hc : s.connections[s.taken]? = some c) :
    (s.connections.take (s.taken + 1)).map (Connection.reading E) = s.readings E ++ [c.reading E] := by
  rw [List.take_add_one, hc, List.map_append]
  rfl

/-- A read moves one connection from the queue to the readings. -/
theorem inv_read {c : Connection ε} (hi : Inv E s) (hc : s.connections[s.taken]? = some c)
    (hready : c.ready = true)
    (hencodes : ∀ event, c.event? = some event → ∃ bytes, TraceFrame.to_bytes E ⟨event⟩ = .ok bytes)
    (hconn : t.connections = s.connections) (htaken : t.taken = s.taken + 1)
    (hcol : t.collected = s.collected ++ [c.reading E].filterMap Except.toOption)
    (hfail : t.returned.filterMap failure? = s.returned.filterMap failure? ++ [c.reading E].filterMap failure?)
    (hpanicked : t.panicked = s.panicked) : Inv E t := by
  have hreadings : t.readings E = s.readings E ++ [c.reading E] := by
    simp only [readings, hconn, htaken]
    exact readings_take E hc
  have hlt : s.taken < s.connections.length := (List.getElem?_eq_some_iff.1 hc).1
  refine ⟨?_, ?_, ?_, ?_, ?_, ?_, hpanicked.trans hi.none_panicked⟩
  · rw [htaken, hconn]; exact hlt
  · rw [hconn]; exact hi.valid
  · intro d hd
    rw [hconn, htaken, List.take_add_one, hc] at hd
    rcases List.mem_append.1 hd with hd | hd
    · exact hi.ready d hd
    · rw [List.mem_singleton.1 hd]; exact hready
  · intro d hd
    rw [hconn, htaken, List.take_add_one, hc] at hd
    rcases List.mem_append.1 hd with hd | hd
    · exact hi.encodes d hd
    · rw [List.mem_singleton.1 hd]; exact hencodes
  · rw [hreadings, List.filterMap_append, hcol, hi.collected]
  · rw [hreadings, List.filterMap_append, hfail, hi.failures]

theorem Clear.encodes {c : Connection ε} (hclear : s.Clear E .read) (hc : s.connections[s.taken]? = some c) :
    ∀ event, c.event? = some event → ∃ bytes, TraceFrame.to_bytes E ⟨event⟩ = .ok bytes := by
  intro event he
  have := hclear c hc
  unfold Connection.event? at he
  split at he <;> cases he
  rename_i hp
  rwa [hp] at this

theorem Clear.foreign {c : Connection ε} {error : TraceError} (hclear : s.Clear E .read)
    (hc : s.connections[s.taken]? = some c) (he : c.event? = none) (hread : c.reading E = .error error) :
    s.collector.events = [] := by
  have := hclear c hc
  unfold Connection.event? at he
  split at he <;> cases he
  rename_i hp
  rw [hp, hread] at this
  simpa using this

theorem inv_step (hE : E.Undoes) {act : TraceAct ε} (hi : Inv E s) (hclear : s.Clear E act)
    (h : s.step E act = some t) : Inv E t := by
  cases step_moves E h with
  | connect event => exact inv_connect E hi (And.intro rfl rfl)
  | foreign_connect => exact inv_connect E hi True.intro
  | @peer k act c c' hk hstep =>
    have hc := List.mem_of_getElem? hk
    apply inv_peer E hi hk
    apply c.step_keeps E hstep (hi.valid c hc)
    intro hlt
    apply hi.ready c
    exact List.mem_of_getElem? (by rw [List.getElem?_take_of_lt (by simpa using hlt), hk])
  | tick d hfits => exact hi.thread E rfl rfl rfl rfl rfl
  | collect expected_count duration hidle hfits => exact hi.moves_on E (by rw [hidle]; rfl)
  | panics expected_count duration hidle hover => exact absurd hclear hover
  | goes_on hcall => exact hi.moves_on E (by rw [hcall]; rfl)
  | returns hcall =>
    -- the vector moves from the call to what was returned
    refine hi.thread E rfl rfl ?_ ?_ rfl
    · simp [collected, hcall, Collector.events, Except.toOption]
    · simp [failure?]
  | accepts hcall => exact hi.moves_on E (by rw [hcall]; rfl)
  | would_block hcall => exact hi.moves_on E (by rw [hcall]; rfl)
  | accept_fails => exact hclear.elim
  | reads hcall hc hready hread =>
    refine inv_read E hi hc hready (Clear.encodes E hclear hc) rfl rfl ?_ ?_ rfl
    · simp [collected, hcall, hread, Collector.events, Except.toOption]
    · simp [hread, failure?]
  | @fails call c error hcall hc hready hread =>
    -- the vector that goes with the failed call is empty
    have hempty : call.events = [] := by
      cases he : c.event? with
      | some event =>
        obtain ⟨bytes, hb⟩ := Clear.encodes E hclear hc event he
        rw [c.reads_event E hE (hi.valid c (List.mem_of_getElem? hc)) hready he hb] at hread
        cases hread
      | none =>
        have := Clear.foreign E hclear hc he hread
        rwa [hcall] at this
    refine inv_read E hi hc hready (Clear.encodes E hclear hc) rfl rfl ?_ ?_ rfl
    · simp [collected, hcall, hread, hempty, Collector.events, Except.toOption, List.filterMap_cons]
    · simp [hread, failure?]

theorem reaches_inv (hE : E.Undoes) {acts : List (TraceAct ε)}
    (hc : Along (step E) (Clear E) bound acts) (h : exec (step E) bound acts = some s) : Inv E s :=
  exec_invariant_along (Inv E) (fun _ _ _ hi hclear hstep => inv_step E hE hi hclear hstep) hc h (inv_bound E)

/-! ## Whole collections -/

/-- One turn of the loop that meets a connection. -/
def turn : List (TraceAct ε) := [.check, .accept, .read]

/-- A collect call with time for `n` connections, then none. -/
def collect_all (expected_count : Option Nat) (duration n : Nat) : List (TraceAct ε) :=
  .collect expected_count duration :: ((List.replicate n turn).flatten ++ [.tick duration, .check])

theorem turn_reads {call : Collect ε} {c : Connection ε} {event : ε} (hcall : s.collector = .checking call)
    (hgo : call.continues s.now = true) (hc : s.connections[s.taken]? = some c) (hready : c.ready = true)
    (hread : c.reading E = .ok event) :
    exec (step E) s turn = some { s with
      taken := s.taken + 1, collector := .checking { call with events := call.events ++ [event] } } := by
  have hlt : s.taken < s.connections.length := (List.getElem?_eq_some_iff.1 hc).1
  have hcheck : s.step E .check = some { s with collector := .accepting call } := by simp [step, hcall, hgo]
  have haccept : step E { s with collector := .accepting call } .accept =
      some { s with collector := .reading call } := by simp [step, hlt]
  apply exec_cons.2 ⟨_, hcheck, exec_cons.2 ⟨_, haccept, exec_cons.2 ⟨_, ?_, rfl⟩⟩⟩
  simp only [step, hc, hready, hread, if_true]

/-- Turn after turn, a call reads what is queued, while its count and its clock allow. -/
theorem turns_read (rest : List (Connection ε)) {s : TraceSocketListener ε} {call : Collect ε}
    (hrest : s.connections.drop s.taken = rest) (hcall : s.collector = .checking call) (hnow : s.now < call.deadline)
    (hcount : ∀ n, call.expected_count = some n → call.events.length + rest.length ≤ n)
    (hreads : ∀ c ∈ rest, c.ready = true ∧ ∃ event, c.reading E = .ok event) :
    exec (step E) s (List.replicate rest.length turn).flatten = some { s with
      taken := s.taken + rest.length
      collector := .checking { call with events := call.events ++ rest.filterMap fun c => (c.reading E).toOption } } := by
  induction rest generalizing s call with
  | nil =>
    obtain ⟨_, _, _, _, _, _⟩ := s
    simp only at hcall
    simp [hcall]
  | cons c rest ih =>
    have hc : s.connections[s.taken]? = some c := by
      have := congrArg (·[0]?) hrest
      simpa using this
    obtain ⟨hready, event, hread⟩ := hreads c List.mem_cons_self
    have hgo : call.continues s.now = true := by
      unfold Collect.continues
      cases hn : call.expected_count with
      | none => simp [hnow]
      | some n =>
        have := hcount n hn
        simp only [List.length_cons] at this
        simp only [hnow, Bool.and_eq_true, decide_eq_true_eq, and_true]
        omega
    have hrest' : s.connections.drop (s.taken + 1) = rest := by
      rw [← List.drop_drop, hrest]; rfl
    have hmore := ih (s := { s with
      taken := s.taken + 1, collector := .checking { call with events := call.events ++ [event] } }) hrest' rfl hnow
      (fun n hn => by
        have := hcount n hn
        simp only [List.length_cons, List.length_append, List.length_nil] at this ⊢
        omega)
      (fun d hd => hreads d (List.mem_cons_of_mem c hd))
    rw [List.length_cons, List.replicate_succ, List.flatten_cons]
    apply exec_append.2
    refine ⟨_, turn_reads E hcall hgo hc hready hread, ?_⟩
    rw [hmore]
    simp [hread, Except.toOption, Nat.add_assoc, Nat.add_comm 1]

theorem collect_all_reads {s : TraceSocketListener ε} (hidle : s.collector = .idle) {expected_count : Option Nat}
    {duration : Nat} (hpos : 0 < duration) (hfits : s.now + duration ≤ Instant.MAX)
    (hcount : ∀ n, expected_count = some n → s.connections.length - s.taken ≤ n) (hle : s.taken ≤ s.connections.length)
    (hreads : ∀ c ∈ s.connections.drop s.taken, c.ready = true ∧ ∃ event, c.reading E = .ok event) :
    exec (step E) s (collect_all expected_count duration (s.connections.length - s.taken)) = some { s with
      taken := s.connections.length
      now := s.now + duration
      returned := s.returned ++ [.ok ((s.connections.drop s.taken).filterMap fun c => (c.reading E).toOption)] } := by
  have hlen : (s.connections.drop s.taken).length = s.connections.length - s.taken := List.length_drop
  have hcollect : s.step E (.collect expected_count duration) =
      some { s with collector := .checking ⟨expected_count, s.now + duration, []⟩ } := by
    simp [step, hidle, Instant.add, hfits]
  have hturns := turns_read E (s.connections.drop s.taken)
    (s := { s with collector := .checking ⟨expected_count, s.now + duration, []⟩ }) rfl rfl
    (Nat.lt_add_of_pos_right hpos) (by simpa [hlen] using hcount) hreads
  rw [hlen] at hturns
  have htaken : s.taken + (s.connections.length - s.taken) = s.connections.length := Nat.add_sub_cancel' hle
  refine exec_cons.2 ⟨_, hcollect, exec_append.2 ⟨_, hturns, ?_⟩⟩
  obtain ⟨_, _, _, _, _, _⟩ := s
  simp only at hidle htaken hfits
  simp [exec, step, Collect.continues, Instant.add, hfits, htaken, hidle]

/-- What holds of a trace that nothing disturbs. No log whose stream was read
fails, and its stream reads as its event; no call panics, and one fails on
nothing but a stream some other peer spoilt; nothing that was read is lost; and
once every connection is finished and read, the calls have handed out what was
recorded, in connection order. -/
structure Sound (s : TraceSocketListener ε) : Prop where
  logs_succeed : ∀ c ∈ s.connections.take s.taken, ∀ event result,
    c.peer = .log event (.returned result) → result = .ok ()
  logs_read : ∀ c ∈ s.connections.take s.taken, ∀ event, c.event? = some event → c.reading E = .ok event
  none_panicked : s.panicked = 0
  calls_succeed : (∀ c ∈ s.connections, c.event? ≠ none) → ∀ result ∈ s.returned, ∃ events, result = .ok events
  failures : s.returned.filterMap failure? = (s.readings E).filterMap failure?
  nothing_lost : s.collected = (s.readings E).filterMap Except.toOption
  all_recorded : s.taken = s.connections.length → (∀ c ∈ s.connections, c.finished = true) →
    s.collected = s.connections.filterMap (Connection.recorded E)

/-- A log's stream that was read, reads as its event. -/
theorem Inv.reads (hE : E.Undoes) (hi : Inv E s) {c : Connection ε} {event : ε}
    (hc : c ∈ s.connections.take s.taken) (he : c.event? = some event) : c.reading E = .ok event := by
  obtain ⟨bytes, hb⟩ := hi.encodes c hc event he
  exact c.reads_event E hE (hi.valid c (List.mem_of_mem_take hc)) (hi.ready c hc) he hb

theorem Inv.succeeds (hi : Inv E s) {c : Connection ε} {event : ε} {result : Except TraceError Unit}
    (hc : c ∈ s.connections.take s.taken) (hp : c.peer = .log event (.returned result)) : result = .ok () := by
  obtain ⟨bytes, hb⟩ := hi.encodes c hc event (by simp [Connection.event?, hp])
  have hv := hi.valid c (List.mem_of_mem_take hc)
  simp only [Connection.Valid, hp, write_to_eq, hb, Prod.mk.injEq] at hv
  exact hv.2.1.symm

/-- A finished connection that was read adds what was read. -/
theorem Inv.recorded (hE : E.Undoes) (hi : Inv E s) {c : Connection ε} (hc : c ∈ s.connections.take s.taken)
    (hfin : c.finished = true) : c.recorded E = (c.reading E).toOption := by
  unfold Connection.finished at hfin
  split at hfin
  · rename_i event result hp
    have hok := hi.succeeds E hc hp
    have he : c.event? = some event := by simp [Connection.event?, hp]
    have hread := hi.reads E hE hc he
    subst hok
    simp [Connection.recorded, hp, hread, Except.toOption]
  · cases hfin
  · rename_i hp
    simp [Connection.recorded, hp]

theorem ok_of_no_failure {results : List (Except TraceError (List ε))} (h : results.filterMap failure? = []) :
    ∀ result ∈ results, ∃ events, result = .ok events := by
  intro result hr
  cases result with
  | ok events => exact ⟨events, rfl⟩
  | error error =>
    have : error ∈ results.filterMap failure? := List.mem_filterMap.2 ⟨_, hr, rfl⟩
    rw [h] at this; cases this

theorem Inv.sound (hE : E.Undoes) (hi : Inv E s) : Sound E s := by
  refine ⟨fun c hc event result hp => hi.succeeds E hc hp, fun c hc event he => hi.reads E hE hc he,
    hi.none_panicked, ?_, hi.failures, hi.collected, ?_⟩
  · intro hall
    apply ok_of_no_failure
    rw [hi.failures, List.filterMap_eq_nil_iff]
    intro reading hr
    obtain ⟨c, hc, rfl⟩ := List.mem_map.1 hr
    obtain ⟨event, he⟩ := Option.ne_none_iff_exists'.1 (hall c (List.mem_of_mem_take hc))
    rw [hi.reads E hE hc he, failure?]
  · intro htaken hfin
    rw [hi.collected, readings, List.filterMap_map, htaken, List.take_length]
    apply List.filterMap_congr
    intro c hc
    exact (hi.recorded E hE (by rwa [htaken, List.take_length]) (hfin c hc)).symm

/-- A step that is not clear leaves a trace that is not sound. -/
theorem clear_of_sound (hi : Inv E s) {act : TraceAct ε} (h : s.step E act = some t) (hsound : Sound E t) :
    s.Clear E act := by
  cases step_moves E h with
  | collect expected_count duration hidle hfits => exact hfits
  | panics expected_count duration hidle hover => exact nomatch hsound.none_panicked
  | accept_fails kind hcall =>
    -- the error is none of a reading
    have hextra : s.returned.filterMap failure? ++ [.Io kind] = s.returned.filterMap failure? := by
      have := hsound.failures
      simp only [List.filterMap_append] at this
      exact this.trans hi.failures.symm
    simp at hextra
  | @reads call c event hcall hc hready hread =>
    intro d hd
    rw [hc, Option.some.injEq] at hd
    subst hd
    have hv := hi.valid c (List.mem_of_getElem? hc)
    split
    · rename_i hp
      exact c.encodes_of_reading E hv hready (by simp [Connection.event?, hp]) hread
    · exact .inl ⟨event, hread⟩
  | @fails call c error hcall hc hready hread =>
    intro d hd
    rw [hc, Option.some.injEq] at hd
    subst hd
    split
    · -- the stream of a log that was read reads as its event
      rename_i event _ hp
      have hmem : c ∈ s.connections.take (s.taken + 1) := by
        rw [List.take_add_one, hc]
        exact List.mem_append_right _ List.mem_cons_self
      have := hsound.logs_read c hmem event (by simp [Connection.event?, hp])
      rw [hread] at this; cases this
    · -- what the call had read is in no vector any more
      right
      have hlost : (s.returned.filterMap Except.toOption).flatten = s.collected := by
        have hkept := hsound.nothing_lost
        simp only [readings, readings_take E hc, hread, List.filterMap_append] at hkept
        rw [hi.collected]
        simpa [collected, readings, Collector.events, Except.toOption, List.filterMap_cons] using hkept
      exact List.append_right_eq_self.1 hlost.symm
  | _ => trivial

/-- Logs, other peers, the kernel and the collecting thread interleave as they
like. The trace is sound throughout exactly when every step is clear; and then
a collect call with enough time, made when logs that succeeded are all that is
queued, returns their events. -/
theorem collects_what_logs_recorded (hE : E.Undoes) {acts : List (TraceAct ε)} {s : TraceSocketListener ε}
    (h : exec (step E) bound acts = some s) :
    (Along (step E) (Clear E) bound acts ↔
      ∀ front back t, acts = front ++ back → exec (step E) bound front = some t → Sound E t) ∧
    (Along (step E) (Clear E) bound acts → s.collector = .idle →
      (∀ c ∈ s.connections.drop s.taken, ∃ event, c.peer = .log event (.returned (.ok ()))) →
      ∀ expected_count duration, 0 < duration → s.now + duration ≤ Instant.MAX →
        (∀ n, expected_count = some n → s.connections.length - s.taken ≤ n) →
        exec (step E) s (collect_all expected_count duration (s.connections.length - s.taken)) = some { s with
          taken := s.connections.length
          now := s.now + duration
          returned := s.returned ++ [.ok ((s.connections.drop s.taken).filterMap (Connection.recorded E))] }) := by
  refine ⟨?_, ?_⟩
  · exact along_iff_throughout (Inv E) (fun _ _ _ hi hclear hstep => inv_step E hE hi hclear hstep)
      (fun _ hi => hi.sound E hE) (fun _ _ _ hi hstep hsound => clear_of_sound E hi hstep hsound) h (inv_bound E)
  · intro hclear hidle hlogs expected_count duration hpos hfits hcount
    have hi := reaches_inv E hE hclear h
    have hreads : ∀ c ∈ s.connections.drop s.taken, ∃ event,
        c.ready = true ∧ c.reading E = .ok event ∧ c.recorded E = some event := by
      intro c hc
      obtain ⟨event, hp⟩ := hlogs c hc
      exact ⟨event, c.reads_recorded E hE (hi.valid c (List.mem_of_mem_drop hc)) hp⟩
    have hadds : (s.connections.drop s.taken).filterMap (Connection.recorded E) =
        (s.connections.drop s.taken).filterMap fun c => (c.reading E).toOption := by
      apply List.filterMap_congr
      intro c hc
      obtain ⟨event, -, hread, hrec⟩ := hreads c hc
      rw [hread, hrec, Except.toOption]
    rw [hadds]
    apply collect_all_reads E hidle hpos hfits hcount hi.taken_le
    intro c hc
    obtain ⟨event, hready, hread, -⟩ := hreads c hc
    exact ⟨hready, event, hread⟩

/-- Events of which one half does not encode. -/
def halfEncodable : TraceEventFrame Bool where
  to_trace_archive event := if event then .ok [] else .error .ArchiveEncode
  from_trace_archive _ := .ok true

theorem halfEncodable_undoes : halfEncodable.Undoes := by
  intro event archive h
  cases event
  · cases h
  · rfl

/-- One log's `record_result`, from its connection to its return. -/
def recordRun (k : Nat) (event : Bool) : List (TraceAct Bool) :=
  if event then [.connect event, .peer k .encode, .peer k (.write 4), .peer k .finish]
  else [.connect event, .peer k .encode]

/-- A peer that connects and leaves fails one call; the event behind it is
returned by the next. -/
theorem collects_what_logs_recorded_spoiltFirst : ∃ s,
    exec (step halfEncodable) bound ([.foreign_connect, .peer 0 .close] ++ recordRun 1 true ++
      [.collect none 5, .check, .accept, .read]) = some s ∧
    s.returned = [.error (.Frame (.Io .UnexpectedEof))] ∧ Sound halfEncodable s ∧
    (exec (step halfEncodable) s (collect_all (some 1) 5 1)).map (·.returned) =
      some [.error (.Frame (.Io .UnexpectedEof)), .ok [true]] := by
  have hfront : ∀ act ∈ [.foreign_connect, .peer 0 .close] ++ recordRun 1 true, ∀ s, Clear halfEncodable s act := by
    intro act hact s
    simp only [recordRun, if_true, List.cons_append, List.nil_append, List.mem_cons, List.not_mem_nil, or_false] at hact
    rcases hact with rfl | rfl | rfl | rfl | rfl | rfl <;> trivial
  have hturn : ∀ act ∈ [TraceAct.check, .accept], ∀ s, Clear halfEncodable s act := by
    intro act hact s
    simp only [List.mem_cons, List.not_mem_nil, or_false] at hact
    rcases hact with rfl | rfl <;> trivial
  have hfits : 0 + 5 ≤ Instant.MAX := by decide
  -- the one read finds the vector of its call empty
  have hclear : Along (step halfEncodable) (Clear halfEncodable) bound
      (([.foreign_connect, .peer 0 .close] ++ recordRun 1 true ++ [.collect none 5, .check, .accept]) ++ [.read]) := by
    have hrecorded : exec (step halfEncodable) bound ([.foreign_connect, .peer 0 .close] ++ recordRun 1 true) = some _ := rfl
    refine (along_append rfl).2 ⟨(along_append hrecorded).2 ⟨along_of_forall hfront bound, hfits,
      fun t _ => along_of_forall hturn t⟩, fun c hc => ?_, fun _ _ => trivial⟩
    cases hc
    exact .inr rfl
  have hrun : exec (step halfEncodable) bound
      (([.foreign_connect, .peer 0 .close] ++ recordRun 1 true ++ [.collect none 5, .check, .accept]) ++ [.read]) =
      some _ := rfl
  obtain ⟨hsound, hcollect⟩ := collects_what_logs_recorded halfEncodable halfEncodable_undoes hrun
  refine ⟨_, rfl, rfl, hsound.1 hclear _ [] _ (List.append_nil _).symm rfl, ?_⟩
  refine congrArg _ (hcollect hclear rfl ?_ (some 1) 5 (by decide) hfits (by decide))
  intro c hc
  cases hc with
  | head => exact ⟨true, rfl⟩
  | tail _ hc => cases hc

/-- A record that fails to encode leaves its connection behind, empty: the call
that meets it fails, and the event it had read from the log before is gone. -/
theorem failed_record_loses_event : ∃ s,
    exec (step halfEncodable) bound (recordRun 0 true ++ recordRun 1 false ++
      [.collect none 5, .check, .accept, .read, .check, .accept, .read]) = some s ∧
    halfEncodable.Undoes ∧ (∀ c ∈ s.connections, c.finished = true ∧ c.event? ≠ none) ∧
    s.taken = s.connections.length ∧ s.collector.events = [] ∧
    s.connections.filterMap (Connection.recorded halfEncodable) = [true] ∧
    s.returned = [.error (.Frame (.Io .UnexpectedEof))] := by
  refine ⟨_, rfl, halfEncodable_undoes, by decide, rfl, rfl, rfl, rfl⟩

end TraceSocketListener

end TriadRuntime
