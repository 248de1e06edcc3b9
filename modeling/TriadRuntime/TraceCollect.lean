import TriadRuntime.Trace
/-!
# Successive collect calls (`trace.rs`)

The collect calls of one listener share the kernel's queue. Here every
connection carries one whole frame, from a log or from any other peer, and the
calls, the peers and the clock interleave as they like. A call whose deadline is
beyond what an `Instant` can hold panics.

Trusted: what `Trace` trusts; `accept` fails by `WouldBlock` only.
-/

open Systems

namespace TriadRuntime

variable {ε : Type} (E : TraceEventFrame ε)

/-- The call under way. -/
def Collector.call? : Collector ε → Option (Collect ε)
  | .idle => none
  | .checking call => some call
  | .accepting call => some call
  | .reading call => some call

namespace Connection

/-- A log's event encodes. What is on the stream of another peer is a frame of
`event`, as far as it goes, and the stream does not end before the frame does. -/
def Carries (event : ε) (c : Connection ε) : Prop :=
  match c.peer with
  | .log recorded _ => recorded = event ∧ ∃ bytes, TraceFrame.to_bytes E ⟨event⟩ = .ok bytes
  | .foreign => ∃ rest, WholeFrame E event (c.arrived.bytes ++ rest) ∧ (c.closed = true → rest = [])

theorem Carries.reading (hE : E.Undoes) {event : ε} {c : Connection ε} (hv : c.Valid E) (h : c.Carries E event)
    (hready : c.ready = true) : c.reading E = .ok event := by
  cases hp : c.peer with
  | log recorded call =>
    simp only [Carries, hp] at h
    obtain ⟨rfl, bytes, hb⟩ := h
    exact c.reads_event E hE hv hready (by simp [event?, hp]) hb
  | foreign =>
    simp only [Carries, hp] at h
    obtain ⟨rest, hrest, hclosed⟩ := h
    have hwhole : rest = [] := by
      by_contra hne
      obtain ⟨archive, -, hf, hframe⟩ := hrest
      have hwait := read_body_part hf hframe.symm hne
      have hopen : c.closed = false := Bool.eq_false_iff.2 fun hc => hne (hclosed hc)
      simp [ready, hopen, hwait] at hready
    rw [hwhole, List.append_nil] at hrest
    simp [Connection.reading, hrest.read_from, Except.map]

end Connection

namespace TraceSocketListener

/-- The connections carry frames of the events `carried`, in this order. -/
def Carrying (carried : List ε) (s : TraceSocketListener ε) : TraceAct ε → Prop
  | .connect event => carried[s.connections.length]? = some event ∧ ∃ bytes, TraceFrame.to_bytes E ⟨event⟩ = .ok bytes
  | .foreign_connect => ∃ event, carried[s.connections.length]? = some event ∧ ∃ bytes, WholeFrame E event bytes
  | .peer k (.send chunk) => ∀ c event, s.connections[k]? = some c → carried[k]? = some event →
      ∃ rest, WholeFrame E event (c.arrived.bytes ++ chunk.1 ++ rest)
  | .peer k .close => ∀ c event, s.connections[k]? = some c → carried[k]? = some event →
      WholeFrame E event c.arrived.bytes
  | .accept_fails _ => False
  | _ => True

/-- The clock shows an `Instant`, and so does the deadline of a call under way. -/
def Timed (s : TraceSocketListener ε) : Prop :=
  s.now ≤ Instant.MAX ∧ ∀ call, s.collector.call? = some call → call.deadline ≤ Instant.MAX

/-- What the calls have taken so far is the first `taken` events, each call that
has returned has returned `Ok`, and one that counts has not taken too many. -/
structure InOrder (carried : List ε) (s : TraceSocketListener ε) : Prop where
  planned : s.connections.length ≤ carried.length
  taken_le : s.taken ≤ s.connections.length
  whole : ∀ k c event, s.taken ≤ k → s.connections[k]? = some c → carried[k]? = some event →
    c.Valid E ∧ c.Carries E event
  returned : ∀ result ∈ s.returned, ∃ events, result = .ok events
  collected : s.collected = carried.take s.taken
  counted : ∀ call, s.collector.call? = some call → ∀ n, call.expected_count = some n →
    call.events.length ≤ n ∧ (s.collector ≠ .checking call → call.events.length < n)
  timed : s.Timed

section Steps
variable {carried : List ε} {s t : TraceSocketListener ε}

theorem timed_step {act : TraceAct ε} (hi : s.Timed) (h : s.step E act = some t) : t.Timed := by
  obtain ⟨hnow, hcall⟩ := hi
  -- A call keeps its deadline.
  have hsame : ∀ call call' : Collect ε, s.collector.call? = some call → call'.deadline = call.deadline →
      ∀ call'' : Collect ε, some call' = some call'' → call''.deadline ≤ Instant.MAX := by
    rintro call call' hbefore hdeadline _ ⟨⟩
    rw [hdeadline]
    exact hcall call hbefore
  cases step_moves E h with
  | connect event => exact ⟨hnow, hcall⟩
  | foreign_connect => exact ⟨hnow, hcall⟩
  | peer hk hstep => exact ⟨hnow, hcall⟩
  | tick d hfits => exact ⟨hfits, hcall⟩
  | collect _ _ _ hfits =>
    refine ⟨hnow, ?_⟩
    rintro call ⟨⟩
    exact hfits
  | panics => exact ⟨hnow, hcall⟩
  | goes_on hbefore => exact ⟨hnow, hsame _ _ (by rw [hbefore]; rfl) rfl⟩
  | returns => exact ⟨hnow, nofun⟩
  | accepts hbefore => exact ⟨hnow, hsame _ _ (by rw [hbefore]; rfl) rfl⟩
  | would_block hbefore => exact ⟨hnow, hsame _ _ (by rw [hbefore]; rfl) rfl⟩
  | accept_fails => exact ⟨hnow, nofun⟩
  | @reads call c event hbefore => exact ⟨hnow, hsame call _ (by rw [hbefore]; rfl) rfl⟩
  | fails => exact ⟨hnow, nofun⟩

/-- A new connection is the next one planned. -/
theorem inOrder_connect {c : Connection ε} (hi : InOrder E carried s) (hlt : s.connections.length < carried.length)
    (hc : ∀ event, carried[s.connections.length]? = some event → c.Valid E ∧ c.Carries E event) :
    InOrder E carried { s with connections := s.connections ++ [c] } := by
  refine ⟨?_, ?_, ?_, hi.returned, hi.collected, hi.counted, hi.timed⟩
  · simp only [List.length_append, List.length_singleton]
    exact hlt
  · simp only [List.length_append]
    exact Nat.le_add_right_of_le hi.taken_le
  · intro k d event hk hd he
    rcases (getElem?_snoc _ _ _ _).1 hd with hold | ⟨rfl, rfl⟩
    · exact hi.whole k d event hk hold he
    · exact hc event he

/-- What a peer does on a stream that has not been read keeps to its frame. -/
theorem carries_step {c c' : Connection ε} {act : PeerAct} {event : ε} (h : c.step E false act = some c')
    (hv : c.Valid E) (hcarries : c.Carries E event)
    (hsend : ∀ chunk, act = .send chunk → ∃ rest, WholeFrame E event (c.arrived.bytes ++ chunk.1 ++ rest))
    (hclose : act = .close → WholeFrame E event c.arrived.bytes) :
    c'.Valid E ∧ c'.Carries E event := by
  have hkeeps := c.step_keeps E h hv (by simp)
  refine ⟨hkeeps.valid, ?_⟩
  cases hp : c.peer with
  | log recorded call =>
    simp only [Connection.Carries, hp] at hcarries
    have he : c'.event? = some event := by
      rw [hkeeps.event]
      simp [Connection.event?, hp, hcarries.1]
    unfold Connection.event? at he
    split at he
    · rename_i hp'
      simp only [Connection.Carries, hp']
      exact ⟨Option.some.inj he, hcarries.2⟩
    · cases he
  | foreign =>
    simp only [Connection.Carries, hp] at hcarries
    cases act with
    | encode => simp [Connection.step, hp] at h
    | write n => simp [Connection.step, hp] at h
    | finish => simp [Connection.step, hp] at h
    | send chunk =>
      simp only [Connection.step, hp, Bool.or_false] at h
      split at h
      · cases h
      · rename_i hopen
        cases h
        obtain ⟨rest, hrest⟩ := hsend chunk rfl
        simp only [Connection.Carries]
        refine ⟨rest, ?_, fun hc => absurd hc hopen⟩
        simpa [Reader.bytes] using hrest
    | close =>
      simp only [Connection.step, hp] at h
      cases h
      simp only [Connection.Carries]
      exact ⟨[], by rw [List.append_nil]; exact hclose rfl, fun _ => rfl⟩

theorem InOrder.thread (hi : InOrder E carried s) (htimed : t.Timed) (hconn : t.connections = s.connections)
    (htaken : t.taken = s.taken) (hreturned : ∀ result ∈ t.returned, ∃ events, result = .ok events) (hcollected : t.collected = s.collected)
    (hcounted : ∀ call, t.collector.call? = some call → ∀ n, call.expected_count = some n →
      call.events.length ≤ n ∧ (t.collector ≠ .checking call → call.events.length < n)) : InOrder E carried t := by
  refine ⟨by rw [hconn]; exact hi.planned, by rw [hconn, htaken]; exact hi.taken_le, ?_, hreturned, ?_, hcounted, htimed⟩
  · rw [hconn, htaken]
    exact hi.whole
  · rw [hcollected, htaken]
    exact hi.collected

/-- The connection that is read next reads as its event. -/
theorem InOrder.reads (hE : E.Undoes) (hi : InOrder E carried s) {c : Connection ε}
    (hc : s.connections[s.taken]? = some c) (hready : c.ready = true) :
    ∃ event, carried[s.taken]? = some event ∧ c.reading E = .ok event := by
  have hlt : s.taken < carried.length :=
    Nat.lt_of_lt_of_le (List.getElem?_eq_some_iff.1 hc).1 hi.planned
  obtain ⟨hv, hcarries⟩ := hi.whole s.taken c _ (Nat.le_refl _) hc (List.getElem?_eq_getElem hlt)
  exact ⟨_, List.getElem?_eq_getElem hlt, hcarries.reading E hE hv hready⟩

theorem inOrder_step (hE : E.Undoes) {act : TraceAct ε} (hi : InOrder E carried s) (hc : Carrying E carried s act)
    (h : s.step E act = some t) : InOrder E carried t := by
  have htimed := timed_step E hi.timed h
  cases step_moves E h with
  | connect event =>
    obtain ⟨hplanned, hencodes⟩ := hc
    have hlt : s.connections.length < carried.length := (List.getElem?_eq_some_iff.1 hplanned).1
    refine inOrder_connect E hi hlt fun e he => ⟨And.intro rfl rfl, ?_⟩
    rw [hplanned] at he
    cases he
    exact ⟨rfl, hencodes⟩
  | foreign_connect =>
    obtain ⟨event, hplanned, bytes, hb⟩ := hc
    refine inOrder_connect E hi (List.getElem?_eq_some_iff.1 hplanned).1 fun e he => ⟨True.intro, ?_⟩
    rw [hplanned] at he
    cases he
    exact ⟨bytes, hb, by simp⟩
  | @peer k act c c' hk hstep =>
    refine ⟨by simpa using hi.planned, by simpa using hi.taken_le, ?_, hi.returned, hi.collected, hi.counted, htimed⟩
    intro j d event hj hd he
    rcases getElem?_set_row hd with ⟨rfl, rfl⟩ | ⟨-, hd⟩
    · obtain ⟨hv, hcarries⟩ := hi.whole j c event hj hk he
      have hopen : decide (j < s.taken) = false := by simpa using hj
      rw [hopen] at hstep
      refine carries_step E hstep hv hcarries ?_ ?_
      · rintro chunk rfl
        exact hc c event hk he
      · rintro rfl
        exact hc c event hk he
    · exact hi.whole j d event hj hd he
  | tick d hfits => exact hi.thread E htimed rfl rfl hi.returned rfl hi.counted
  | panics expected_count duration hidle hover => exact hi.thread E htimed rfl rfl hi.returned rfl hi.counted
  | collect expected_count duration hidle hfits =>
    refine hi.thread E htimed rfl rfl hi.returned ?_ ?_
    · simp [collected, hidle, Collector.events]
    · rintro call ⟨⟩ n -
      exact ⟨Nat.zero_le n, fun hne => absurd rfl hne⟩
  | @goes_on call hcall hgo =>
    refine hi.thread E htimed rfl rfl hi.returned ?_ ?_
    · simp [collected, hcall, Collector.events]
    · rintro call' ⟨⟩ n hn
      simp only [Collect.continues, hn, Bool.and_eq_true, decide_eq_true_eq] at hgo
      exact ⟨Nat.le_of_lt hgo.1, fun _ => hgo.1⟩
  | @returns call hcall hstop =>
    refine hi.thread E htimed rfl rfl ?_ ?_ (by rintro call ⟨⟩)
    · intro result hr
      rcases List.mem_append.1 hr with hr | hr
      · exact hi.returned result hr
      · exact ⟨call.events, List.mem_singleton.1 hr⟩
    · simp [collected, hcall, Collector.events, Except.toOption]
  | @accepts call hcall hlt =>
    refine hi.thread E htimed rfl rfl hi.returned ?_ ?_
    · simp [collected, hcall, Collector.events]
    · rintro call' ⟨⟩ n hn
      obtain ⟨hle, hbelow⟩ := hi.counted call (by simp [hcall, Collector.call?]) n hn
      exact ⟨hle, fun _ => hbelow (by simp [hcall])⟩
  | @would_block call hcall hge =>
    refine hi.thread E htimed rfl rfl hi.returned ?_ ?_
    · simp [collected, hcall, Collector.events]
    · rintro call' ⟨⟩ n hn
      obtain ⟨hle, -⟩ := hi.counted call (by simp [hcall, Collector.call?]) n hn
      exact ⟨hle, fun hne => absurd rfl hne⟩
  | accept_fails => exact hc.elim
  | @reads call c event hcall hconn hready hread =>
    obtain ⟨e, hplanned, he⟩ := hi.reads E hE hconn hready
    have hsame : event = e := Except.ok.inj (hread.symm.trans he)
    subst hsame
    have hlt : s.taken < s.connections.length := (List.getElem?_eq_some_iff.1 hconn).1
    refine ⟨hi.planned, hlt, ?_, hi.returned, ?_, ?_, htimed⟩
    · intro k d e hk
      exact hi.whole k d e (Nat.le_of_succ_le hk)
    · have hold := hi.collected
      rw [List.take_add_one, hplanned, ← hold]
      simp [collected, hcall, Collector.events]
    · rintro call' ⟨⟩ n hn
      obtain ⟨-, hbelow⟩ := hi.counted call (by simp [hcall, Collector.call?]) n hn
      refine ⟨?_, fun hne => absurd rfl hne⟩
      simp only [List.length_append, List.length_singleton]
      exact hbelow (by simp [hcall])
  | @fails call c error hcall hconn hready hread =>
    obtain ⟨e, -, he⟩ := hi.reads E hE hconn hready
    rw [hread] at he
    cases he

/-- Since `s₁` no call has returned and the one made there is under way, or some
call has returned. -/
def UnderWay (s₁ : TraceSocketListener ε) (expected_count : Option Nat) (duration : Nat)
    (s : TraceSocketListener ε) : Prop :=
  (s.returned = s₁.returned ∧ ∃ call, s.collector.call? = some call ∧ call.expected_count = expected_count ∧
    call.deadline = s₁.now + duration) ∨ s₁.returned.length < s.returned.length

/-- The events of a call are those of the connections it took. -/
theorem InOrder.call_events {s₁ : TraceSocketListener ε} (h₁ : InOrder E carried s₁) (hi : InOrder E carried s)
    (hidle : s₁.collector = .idle) (hreturned : s.returned = s₁.returned) {call : Collect ε}
    (hcall : s.collector.call? = some call) : call.events = (carried.take s.taken).drop s₁.taken := by
  have hevents : s.collector.events = call.events := by
    cases hcollector : s.collector <;> rw [hcollector] at hcall <;> cases hcall <;> rfl
  have hbefore := h₁.collected
  have hnow := hi.collected
  rw [TraceSocketListener.collected, hidle, Collector.events, List.append_nil] at hbefore
  rw [TraceSocketListener.collected, hreturned, hbefore, hevents] at hnow
  rw [← hnow, List.drop_left']
  rw [List.length_take, Nat.min_eq_left (Nat.le_trans h₁.taken_le h₁.planned)]

/-! ## Every call can return -/

/-- The call under way may still return `Ok`, the connections carrying what they carry. -/
def CanReturn (carried : List ε) (s : TraceSocketListener ε) : Prop :=
  ∃ more t, Along (step E) (Carrying E carried) s more ∧ exec (step E) s more = some t ∧ t.collector = .idle ∧
    ∃ events, t.returned = s.returned ++ [.ok events]

theorem CanReturn.of_step (act : TraceAct ε) (hguard : Carrying E carried s act) (h : s.step E act = some t)
    (hreturned : t.returned = s.returned) (hcan : CanReturn E carried t) : CanReturn E carried s := by
  obtain ⟨more, u, halong, hrun, hidle, events, hu⟩ := hcan
  refine ⟨act :: more, u, ⟨hguard, fun v hv => ?_⟩, exec_cons.2 ⟨t, h, hrun⟩, hidle, events, hreturned ▸ hu⟩
  rw [h] at hv
  cases hv
  exact halong

/-- At the head of the loop, once the clock has moved on. -/
theorem canReturn_checking (htimed : s.Timed) {call : Collect ε} (hcall : s.collector = .checking call) :
    CanReturn E carried s := by
  obtain ⟨hnow, hdeadline⟩ := htimed
  have hlate := hdeadline call (by rw [hcall]; rfl)
  have hfits : s.now + (call.deadline - s.now) ≤ Instant.MAX := by omega
  have htick : s.step E (.tick (call.deadline - s.now)) = some { s with now := s.now + (call.deadline - s.now) } := by
    simp [step, Instant.add, hfits]
  have hstop : call.continues (s.now + (call.deadline - s.now)) = false := by
    have hreached : call.deadline ≤ s.now + (call.deadline - s.now) := by omega
    simp [Collect.continues, hreached]
  refine CanReturn.of_step E (.tick (call.deadline - s.now)) trivial htick rfl ?_
  refine ⟨[.check], { s with
    now := s.now + (call.deadline - s.now), collector := .idle, returned := s.returned ++ [.ok call.events] },
    ⟨trivial, fun _ _ => trivial⟩, exec_cons.2 ⟨_, ?_, rfl⟩, rfl, call.events, rfl⟩
  simp [step, hcall, hstop]

theorem canReturn_ready (hE : E.Undoes) (hi : InOrder E carried s) {call : Collect ε} {c : Connection ε}
    (hcall : s.collector = .reading call) (hc : s.connections[s.taken]? = some c) (hready : c.ready = true) :
    CanReturn E carried s := by
  obtain ⟨event, -, hread⟩ := hi.reads E hE hc hready
  have hstep : s.step E .read = some { s with
      taken := s.taken + 1, collector := .checking { call with events := call.events ++ [event] } } := by
    simp only [step, hcall, hc, hready, hread, if_true]
  exact CanReturn.of_step E .read trivial hstep rfl (canReturn_checking E (timed_step E hi.timed hstep) rfl)

/-- A whole frame is all a reader waits for. -/
theorem ready_of_frame {c : Connection ε} {body : FrameBody} (hf : fits U32_MAX body = true)
    (h : c.arrived.bytes = frame body) : c.ready = true := by
  obtain ⟨stream', hr⟩ := read_body_whole hf h
  simp [Connection.ready, hr]

theorem ready_of_to_bytes {c : Connection ε} {event : ε} (h : TraceFrame.to_bytes E ⟨event⟩ = .ok c.arrived.bytes) :
    c.ready = true := by
  obtain ⟨archive, -, hf, hframe⟩ := to_bytes_ok h
  exact ready_of_frame hf hframe

theorem ready_of_whole {c : Connection ε} {event : ε} (h : WholeFrame E event c.arrived.bytes) : c.ready = true := by
  obtain ⟨archive, -, hf, hframe⟩ := h
  exact ready_of_frame hf hframe

/-- What is missing of a frame. -/
theorem carries_rest {c : Connection ε} {event : ε} (hv : c.Valid E) (hcarries : c.Carries E event) :
    c.ready = true ∨
    (c.peer = .log event .connected ∧ ∃ bytes, TraceFrame.to_bytes E ⟨event⟩ = .ok bytes) ∨
    (∃ rest, rest ≠ [] ∧ c.peer = .log event (.writing rest) ∧
      TraceFrame.to_bytes E ⟨event⟩ = .ok (c.arrived.bytes ++ rest)) ∨
    (c.peer = .foreign ∧ c.closed = false ∧ ∃ rest, rest ≠ [] ∧ WholeFrame E event (c.arrived.bytes ++ rest)) := by
  cases hp : c.peer with
  | log recorded call =>
    simp only [Connection.Carries, hp] at hcarries
    obtain ⟨rfl, hencodes⟩ := hcarries
    cases call with
    | connected => exact .inr (.inl ⟨rfl, hencodes⟩)
    | writing rest =>
      simp only [Connection.Valid, hp] at hv
      by_cases hrest : rest = []
      · rw [hrest, List.append_nil] at hv
        exact .inl (ready_of_to_bytes E hv.2)
      · exact .inr (.inr (.inl ⟨rest, hrest, rfl, hv.2⟩))
    | returned result =>
      simp only [Connection.Valid, hp] at hv
      exact .inl (by simp [Connection.ready, hv.1])
  | foreign =>
    simp only [Connection.Carries, hp] at hcarries
    obtain ⟨rest, hrest, hclosed⟩ := hcarries
    by_cases hnil : rest = []
    · rw [hnil, List.append_nil] at hrest
      exact .inl (ready_of_whole E hrest)
    · exact .inr (.inr (.inr ⟨rfl, Bool.eq_false_iff.2 fun hc => hnil (hclosed hc), rest, hnil, hrest⟩))

theorem step_peer {c c' : Connection ε} {act : PeerAct} (hc : s.connections[s.taken]? = some c)
    (h : c.step E false act = some c') :
    s.step E (.peer s.taken act) = some { s with connections := s.connections.set s.taken c' } := by
  simp [step, hc, h]

/-- A step of the peer that is read leaves the stream to be read. -/
theorem canReturn_after (hi : InOrder E carried s) {c c' : Connection ε} {act : PeerAct}
    (hc : s.connections[s.taken]? = some c) (h : c.step E false act = some c')
    (hguard : Carrying E carried s (.peer s.taken act))
    (hcan : ∀ u : TraceSocketListener ε, u.collector = s.collector → u.taken = s.taken → u.returned = s.returned →
      InOrder E carried u → u.connections[u.taken]? = some c' → CanReturn E carried u)
    (hE : E.Undoes) : CanReturn E carried s := by
  have hstep := step_peer E hc h
  refine CanReturn.of_step E _ hguard hstep rfl (hcan _ rfl rfl rfl (inOrder_step E hE hi hguard hstep) ?_)
  exact List.getElem?_set_self (List.getElem?_eq_some_iff.1 hc).1

theorem canReturn_writing (hE : E.Undoes) (hi : InOrder E carried s) {call : Collect ε} {c : Connection ε} {event : ε}
    {rest : List UInt8} (hcall : s.collector = .reading call)
    (hc : s.connections[s.taken]? = some c) (hp : c.peer = .log event (.writing rest)) (hrest : rest ≠ [])
    (hb : TraceFrame.to_bytes E ⟨event⟩ = .ok (c.arrived.bytes ++ rest)) : CanReturn E carried s := by
  have hstep : c.step E false (.write rest.length) = some { c with
      peer := .log event (.writing []), arrived := c.arrived ++ [⟨rest, hrest⟩] } := by
    simp [Connection.step, hp, hrest]
  refine canReturn_after E hi hc hstep trivial ?_ hE
  intro u hcollector htaken _ hu hcu
  have hsent : TraceFrame.to_bytes E ⟨event⟩ = .ok (c.arrived ++ [⟨rest, hrest⟩] : Reader UInt8).bytes := by
    simpa [Reader.bytes] using hb
  exact canReturn_ready E hE hu (hcollector.trans hcall) hcu (ready_of_to_bytes E hsent)

theorem canReturn_reading (hE : E.Undoes) (hi : InOrder E carried s) {call : Collect ε} {c : Connection ε}
    (hcall : s.collector = .reading call) (hc : s.connections[s.taken]? = some c) : CanReturn E carried s := by
  have hlt : s.taken < carried.length := Nat.lt_of_lt_of_le (List.getElem?_eq_some_iff.1 hc).1 hi.planned
  have hplanned := List.getElem?_eq_getElem hlt
  obtain ⟨hv, hcarries⟩ := hi.whole s.taken c _ (Nat.le_refl _) hc hplanned
  rcases carries_rest E hv hcarries with hready | ⟨hp, bytes, hb⟩ | ⟨rest, hrest, hp, hwhole⟩ |
    ⟨hp, hopen, rest, hrest, hwhole⟩
  · exact canReturn_ready E hE hi hcall hc hready
  · -- The log encodes its event, and then writes it.
    have hstep : c.step E false .encode = some { c with peer := .log carried[s.taken] (.writing bytes) } := by
      simp [Connection.step, hp, hb]
    refine canReturn_after E hi hc hstep trivial ?_ hE
    intro u hcollector htaken _ hu hcu
    have harrived : c.arrived = [] := by
      simp only [Connection.Valid, hp] at hv
      exact hv.1
    have hne : bytes ≠ [] := by
      obtain ⟨archive, -, -, hframe⟩ := to_bytes_ok hb
      intro hnil
      have := congrArg List.length (hnil ▸ hframe)
      simp [frame, LENGTH_PREFIX_BYTE_COUNT] at this
      omega
    exact canReturn_writing E hE hu (hcollector.trans hcall) hcu rfl hne (by simpa [harrived] using hb)
  · exact canReturn_writing E hE hi hcall hc hp hrest hwhole
  · have hstep : c.step E false (.send ⟨rest, hrest⟩) = some { c with arrived := c.arrived ++ [⟨rest, hrest⟩] } := by
      simp [Connection.step, hp, hopen]
    have hguard : Carrying E carried s (.peer s.taken (.send ⟨rest, hrest⟩)) := by
      intro d event hd he
      rw [hc] at hd
      cases hd
      rw [hplanned] at he
      cases he
      exact ⟨[], by rw [List.append_nil]; exact hwhole⟩
    refine canReturn_after E hi hc hstep hguard ?_ hE
    intro u hcollector htaken _ hu hcu
    have hsent : WholeFrame E carried[s.taken] (c.arrived ++ [⟨rest, hrest⟩] : Reader UInt8).bytes := by
      simpa [Reader.bytes] using hwhole
    exact canReturn_ready E hE hu (hcollector.trans hcall) hcu (ready_of_whole E hsent)

/-- A stream that is read has been accepted. -/
def Accepted (s : TraceSocketListener ε) : Prop :=
  ∀ call, s.collector = .reading call → s.taken < s.connections.length

theorem accepted_step {act : TraceAct ε} (hi : s.Accepted) (h : s.step E act = some t) : t.Accepted := by
  intro call hreading
  cases step_moves E h with
  | connect event =>
    rw [List.length_append]
    exact Nat.lt_add_right _ (hi call hreading)
  | foreign_connect =>
    rw [List.length_append]
    exact Nat.lt_add_right _ (hi call hreading)
  | peer hk hstep =>
    rw [List.length_set]
    exact hi call hreading
  | tick d => exact hi call hreading
  | collect => cases hreading
  | panics => exact hi call hreading
  | goes_on => cases hreading
  | returns => cases hreading
  | accepts hcall hlt => exact hlt
  | would_block => cases hreading
  | accept_fails => cases hreading
  | reads => cases hreading
  | fails => cases hreading

theorem reaches_accepted {acts : List (TraceAct ε)} (h : exec (step E) bound acts = some s) : s.Accepted :=
  exec_invariant Accepted (fun _ _ _ hi hstep => accepted_step E hi hstep) h (by rintro call ⟨⟩)

/-- Wherever a call stands, it can return `Ok`. -/
theorem InOrder.canReturn (hE : E.Undoes) (hi : InOrder E carried s) (hreading : s.Accepted) {call : Collect ε} (hcall : s.collector.call? = some call) : CanReturn E carried s := by
  cases hcollector : s.collector with
  | idle =>
    rw [hcollector] at hcall
    cases hcall
  | checking call => exact canReturn_checking E hi.timed hcollector
  | reading call =>
    exact canReturn_reading E hE hi hcollector (List.getElem?_eq_getElem (hreading call hcollector))
  | accepting call =>
    have haccept : Carrying E carried s .accept := trivial
    by_cases hlt : s.taken < s.connections.length
    · have hstep : s.step E .accept = some { s with collector := .reading call } := by simp [step, hcollector, hlt]
      exact CanReturn.of_step E .accept trivial hstep rfl
        (canReturn_reading E hE (inOrder_step E hE hi haccept hstep) rfl (List.getElem?_eq_getElem hlt))
    · have hstep : s.step E .accept = some { s with collector := .checking call } := by simp [step, hcollector, hlt]
      exact CanReturn.of_step E .accept trivial hstep rfl (canReturn_checking E (timed_step E hi.timed hstep) rfl)

/-- What a call that is under way in `s`, made in `s₁`, can still do: it holds the
events of the connections it took, it accepts no more than it was asked for, it
returns when it has its count or the clock has reached its deadline, and it can
return. -/
structure CallInOrder (carried : List ε) (expected_count : Option Nat) (duration : Nat)
    (s₁ s : TraceSocketListener ε) (call : Collect ε) : Prop where
  events : call.events = (carried.take s.taken).drop s₁.taken
  at_most : ∀ n, expected_count = some n → call.events.length ≤ n
  accepts : ∀ n, expected_count = some n → (s.step E .accept).isSome = true → call.events.length < n
  returns : ∀ t, s.step E .check = some t → t.collector = .idle → t.returned = s.returned ++ [.ok call.events] ∧
    (s₁.now + duration ≤ s.now ∨ expected_count = some call.events.length)
  can_return : CanReturn E carried s

theorem InOrder.call (hE : E.Undoes) {expected_count : Option Nat} {duration : Nat} {s₁ : TraceSocketListener ε} (h₁ : InOrder E carried s₁)
    (hidle : s₁.collector = .idle) (hi : InOrder E carried s) (haccepted : s.Accepted)
    (hunder : UnderWay s₁ expected_count duration s) (hreturned : s.returned = s₁.returned) :
    ∃ call, s.collector.call? = some call ∧ CallInOrder E carried expected_count duration s₁ s call := by
  rcases hunder with ⟨-, call, hcall, rfl, hdeadline⟩ | hlt
  · refine ⟨call, hcall, h₁.call_events E hi hidle hreturned hcall, fun n hn => (hi.counted call hcall n hn).1, ?_, ?_,
      hi.canReturn E hE haccepted hcall⟩
    · intro n hn haccept
      obtain ⟨t, ht⟩ := Option.isSome_iff_exists.1 haccept
      have hne : s.collector ≠ .checking call := by
        intro hchecking
        simp [step, hchecking] at ht
      exact (hi.counted call hcall n hn).2 hne
    · intro t ht htidle
      cases step_moves E ht with
      | goes_on => cases htidle
      | @returns call' hchecking hstop =>
        rw [hchecking] at hcall
        cases hcall
        refine ⟨rfl, ?_⟩
        rw [← hdeadline]
        cases hcount : call.expected_count with
        | none =>
          simp only [Collect.continues, hcount, Bool.true_and, decide_eq_false_iff_not] at hstop
          exact .inl (Nat.le_of_not_lt hstop)
        | some n =>
          by_cases hnow : call.deadline ≤ s.now
          · exact .inl hnow
          · have hle := (hi.counted call (by rw [hchecking]; rfl) n hcount).1
            simp only [Collect.continues, hcount, Bool.and_eq_false_iff, decide_eq_false_iff_not] at hstop
            rcases hstop with hstop | hstop
            · exact .inr (congrArg some (Nat.le_antisymm (Nat.le_of_not_lt hstop) hle))
            · exact absurd (Nat.le_of_not_lt hstop) hnow
  · rw [hreturned] at hlt
    exact absurd hlt (Nat.lt_irrefl _)

end Steps

end TraceSocketListener

end TriadRuntime
