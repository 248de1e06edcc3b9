import TriadRuntime.TraceCollect
/-!
# Peers that stall (`trace.rs`)

The deadline of a collect call is looked at between connections only, and an
accepted stream blocks its reader. Here each peer sends its bytes and then
closes its connection or stays connected and silent.

Trusted: what `Trace` trusts.
-/

open Systems

namespace TriadRuntime

variable {ε : Type} (E : TraceEventFrame ε)

/-- What a peer does: it sends `bytes`, in any pieces, and then it closes its
connection or does nothing more. -/
structure PeerPlan where
  bytes : List UInt8
  closes : Bool
deriving DecidableEq, Repr

/-- The bytes of a peer let its reader go on. -/
def PeerPlan.Decides (p : PeerPlan) : Prop := p.closes = true ∨ ¬ EndsEarly U32_MAX p.bytes

/-- The collecting thread has this many steps to take once the deadline has passed. -/
def Collector.left : Collector ε → Nat
  | .idle => 0
  | .checking _ => 1
  | .reading _ => 2
  | .accepting _ => 3

/-- A step of the collecting thread. -/
def TraceAct.collects : TraceAct ε → Bool
  | .check => true
  | .accept => true
  | .accept_fails _ => true
  | .read => true
  | _ => false

namespace TraceSocketListener

/-- The peers do what is planned, in the order in which they connect. -/
def Follows (plans : List PeerPlan) (s : TraceSocketListener ε) : TraceAct ε → Prop
  | .connect _ => False
  | .foreign_connect => s.connections.length < plans.length
  | .peer k (.send chunk) => ∀ c p, s.connections[k]? = some c → plans[k]? = some p → c.arrived.bytes ++ chunk.1 <+: p.bytes
  | .peer k .close => ∀ c p, s.connections[k]? = some c → plans[k]? = some p → p.closes = true ∧ c.arrived.bytes = p.bytes
  | _ => True

/-- The clock is past the deadline, the collecting thread is in `read_from`,
which cannot go on, and the peer it reads from has nothing left to do. -/
structure Stuck (plans : List PeerPlan) (s : TraceSocketListener ε) : Prop where
  reading : ∃ call, s.collector = .reading call ∧ call.deadline ≤ s.now
  no_read : s.step E .read = none
  silent : ∀ act, Follows plans s (.peer s.taken act) → s.step E (.peer s.taken act) = none

/-- What has arrived is what was planned, as far as it goes. -/
structure Planned (plans : List PeerPlan) (s : TraceSocketListener ε) : Prop where
  planned : s.connections.length ≤ plans.length
  foreign : ∀ c ∈ s.connections, c.peer = .foreign
  arrived : ∀ (k : Nat) (c : Connection ε) (p : PeerPlan), s.connections[k]? = some c → plans[k]? = some p →
    c.arrived.bytes <+: p.bytes

section Steps
variable {E} {plans : List PeerPlan} {s t : TraceSocketListener ε}

/-! ## No stall where every peer decides -/

theorem planned_connect (hi : Planned plans s) (hlt : s.connections.length < plans.length) :
    Planned plans { s with connections := s.connections ++ [⟨.foreign, [], false⟩] } := by
  refine ⟨?_, ?_, ?_⟩
  · simp only [List.length_append, List.length_singleton]
    exact hlt
  · intro c hc
    rcases List.mem_append.1 hc with hc | hc
    · exact hi.foreign c hc
    · rw [List.mem_singleton.1 hc]
  · intro k c p hc hp
    rcases (getElem?_snoc _ _ _ _).1 hc with hold | ⟨rfl, rfl⟩
    · exact hi.arrived k c p hold hp
    · exact List.nil_prefix

theorem foreign_step {c c' : Connection ε} {dropped : Bool} {act : PeerAct} (hp : c.peer = .foreign)
    (h : c.step E dropped act = some c') : c'.peer = .foreign ∧
      ((∃ chunk, act = .send chunk ∧ c'.arrived = c.arrived ++ [chunk]) ∨ act = .close ∧ c'.arrived = c.arrived) := by
  cases act with
  | encode => simp [Connection.step, hp] at h
  | write n => simp [Connection.step, hp] at h
  | finish => simp [Connection.step, hp] at h
  | send chunk =>
    simp only [Connection.step, hp] at h
    split at h
    · cases h
    · cases h
      exact ⟨rfl, .inl ⟨chunk, rfl, rfl⟩⟩
  | close =>
    simp only [Connection.step, hp] at h
    cases h
    exact ⟨rfl, .inr ⟨rfl, rfl⟩⟩

theorem planned_step {act : TraceAct ε} (hi : Planned plans s) (hguard : Follows plans s act)
    (h : s.step E act = some t) : Planned plans t := by
  cases step_moves E h with
  | connect event => exact hguard.elim
  | foreign_connect => exact planned_connect hi hguard
  | @peer k act c c' hk hstep =>
    obtain ⟨hforeign, hact⟩ := foreign_step (hi.foreign c (List.mem_of_getElem? hk)) hstep
    refine ⟨by simpa using hi.planned, ?_, ?_⟩
    · intro d hd
      rcases mem_set_row hd with hd | rfl
      · exact hi.foreign d hd
      · exact hforeign
    · intro j d p hd hp
      rcases getElem?_set_row hd with ⟨rfl, rfl⟩ | ⟨-, hd⟩
      · rcases hact with ⟨chunk, rfl, harrived⟩ | ⟨rfl, harrived⟩
        · rw [harrived]
          have := hguard c p hk hp
          simpa [Reader.bytes] using this
        · rw [harrived]
          exact hi.arrived j c p hk hp
      · exact hi.arrived j d p hd hp
  | tick d => exact ⟨hi.planned, hi.foreign, hi.arrived⟩
  | collect => exact ⟨hi.planned, hi.foreign, hi.arrived⟩
  | panics => exact ⟨hi.planned, hi.foreign, hi.arrived⟩
  | goes_on => exact ⟨hi.planned, hi.foreign, hi.arrived⟩
  | returns => exact ⟨hi.planned, hi.foreign, hi.arrived⟩
  | accepts => exact ⟨hi.planned, hi.foreign, hi.arrived⟩
  | would_block => exact ⟨hi.planned, hi.foreign, hi.arrived⟩
  | accept_fails => exact ⟨hi.planned, hi.foreign, hi.arrived⟩
  | reads => exact ⟨hi.planned, hi.foreign, hi.arrived⟩
  | fails => exact ⟨hi.planned, hi.foreign, hi.arrived⟩

theorem reaches_planned {acts : List (TraceAct ε)} (hc : Along (step E) (Follows plans) bound acts)
    (h : exec (step E) bound acts = some s) : Planned plans s := by
  refine exec_invariant_along (Planned plans) (fun _ _ _ hi hguard hstep => planned_step hi hguard hstep) hc h ?_
  refine ⟨Nat.zero_le _, ?_, ?_⟩
  · rintro c ⟨⟩
  · rintro k c p ⟨⟩

/-- A stream that is not ready has an early end so far, and is open. -/
theorem not_ready_iff {c : Connection ε} :
    c.ready = false ↔ c.closed = false ∧ EndsEarly U32_MAX c.arrived.bytes := by
  have hearly := (read_by_io_iff U32_MAX .sync c.arrived).trans (and_iff_right (rfl : ErrorKind.UnexpectedEof = .UnexpectedEof))
  change (LengthPrefixedCodec.default.read_body c.arrived).1 = _ ↔ _ at hearly
  simp [Connection.ready, hearly]

/-- A read that cannot go on. -/
theorem read_none {call : Collect ε} {c : Connection ε} (hcall : s.collector = .reading call)
    (hc : s.connections[s.taken]? = some c) : s.step E .read = none ↔ c.ready = false := by
  simp only [step, hcall, hc]
  cases hready : c.ready with
  | false => simp
  | true =>
    simp only [if_true]
    split <;> simp

/-- Where the collecting thread is stuck, its peer has sent what it had to send
and is not going to close. -/
theorem Stuck.undecided (hi : Planned plans s) (haccepted : s.Accepted) (h : Stuck E plans s) :
    ∃ p ∈ plans, ¬ p.Decides := by
  obtain ⟨call, hcall, -⟩ := h.reading
  have hlt := haccepted call hcall
  have hc := List.getElem?_eq_getElem hlt
  have hplan := List.getElem?_eq_getElem (Nat.lt_of_lt_of_le hlt hi.planned)
  obtain ⟨hopen, hearly⟩ := not_ready_iff.1 ((read_none hcall hc).1 h.no_read)
  have hforeign := hi.foreign _ (List.getElem_mem hlt)
  obtain ⟨rest, hrest⟩ := hi.arrived s.taken _ _ hc hplan
  have hsent : rest = [] := by
    by_contra hne
    have hguard : Follows plans s (.peer s.taken (.send ⟨rest, hne⟩)) := by
      intro c p hc' hp'
      rw [hc] at hc'
      rw [hplan] at hp'
      cases hc'
      cases hp'
      exact ⟨[], by rw [List.append_nil]; exact hrest⟩
    have := h.silent _ hguard
    simp [step, hc, Connection.step, hforeign, hopen] at this
  rw [hsent, List.append_nil] at hrest
  refine ⟨_, List.getElem_mem (Nat.lt_of_lt_of_le hlt hi.planned), ?_⟩
  rintro (hcloses | hlate)
  · have hguard : Follows plans s (.peer s.taken .close) := by
      intro c p hc' hp'
      rw [hc] at hc'
      rw [hplan] at hp'
      cases hc'
      cases hp'
      exact ⟨hcloses, hrest⟩
    have := h.silent _ hguard
    simp [step, hc, Connection.step, hforeign] at this
  · exact hlate (hrest ▸ hearly)

/-! ## A stall where one does not -/

/-- A run in which the peers do what is planned. -/
def Leads (E : TraceEventFrame ε) (plans : List PeerPlan) (s t : TraceSocketListener ε) : Prop :=
  ∃ acts, Along (step E) (Follows plans) s acts ∧ exec (step E) s acts = some t

theorem Leads.refl (s : TraceSocketListener ε) : Leads E plans s s := ⟨[], trivial, rfl⟩

theorem Leads.step {u : TraceSocketListener ε} (act : TraceAct ε) (hguard : Follows plans s act)
    (h : s.step E act = some t) (hmore : Leads E plans t u) : Leads E plans s u := by
  obtain ⟨acts, halong, hrun⟩ := hmore
  refine ⟨act :: acts, ⟨hguard, fun v hv => ?_⟩, exec_cons.2 ⟨t, h, hrun⟩⟩
  rw [h] at hv
  cases hv
  exact halong

theorem Leads.trans {u : TraceSocketListener ε} (h : Leads E plans s t) (h' : Leads E plans t u) : Leads E plans s u := by
  obtain ⟨acts, halong, hrun⟩ := h
  obtain ⟨acts', halong', hrun'⟩ := h'
  exact ⟨acts ++ acts', (along_append hrun).2 ⟨halong, halong'⟩, exec_append.2 ⟨t, hrun, hrun'⟩⟩

/-- The next peer connects and does all it has planned. -/
theorem leads_peer {p : PeerPlan} (hp : plans[s.connections.length]? = some p) (htaken : s.taken ≤ s.connections.length) :
    ∃ c : Connection ε, c.arrived.bytes = p.bytes ∧ c.closed = p.closes ∧
      Leads E plans s { s with connections := s.connections ++ [c] } := by
  have hlt : s.connections.length < plans.length := (List.getElem?_eq_some_iff.1 hp).1
  have hnew : ∀ c : Connection ε, (s.connections ++ [c])[s.connections.length]? = some c := fun c =>
    List.getElem?_concat_length
  have hdropped : decide (s.connections.length < s.taken) = false := by simpa using htaken
  -- Each step of the peer is on the connection at the end.
  have hpeer : ∀ (c c' : Connection ε) (act : PeerAct), c.step E false act = some c' →
      TraceSocketListener.step E { s with connections := s.connections ++ [c] } (.peer s.connections.length act) =
        some { s with connections := s.connections ++ [c'] } := by
    intro c c' act h
    simp [TraceSocketListener.step, hdropped, h]
  have hsend : ∃ c : Connection ε, c.arrived.bytes = p.bytes ∧ c.peer = .foreign ∧ c.closed = false ∧
      Leads E plans s { s with connections := s.connections ++ [c] } := by
    by_cases hnil : p.bytes = []
    · exact ⟨⟨.foreign, [], false⟩, by rw [hnil]; rfl, rfl, rfl, .step .foreign_connect hlt rfl (.refl _)⟩
    · refine ⟨⟨.foreign, [⟨p.bytes, hnil⟩], false⟩, by simp [Reader.bytes], rfl, rfl, ?_⟩
      refine .step .foreign_connect hlt rfl (.step _ ?_ (hpeer _ _ (.send ⟨p.bytes, hnil⟩) rfl) (.refl _))
      intro c q hc hq
      simp only [hnew, Option.some.injEq] at hc
      rw [hp] at hq
      cases hc
      cases hq
      exact ⟨[], by simp [Reader.bytes]⟩
  obtain ⟨c, harrived, hforeign, hopen, hleads⟩ := hsend
  cases hcloses : p.closes with
  | false => exact ⟨c, harrived, hopen, hleads⟩
  | true =>
    refine ⟨{ c with closed := true }, harrived, rfl, hleads.trans (.step _ ?_ (hpeer c _ .close ?_) (.refl _))⟩
    · intro d q hd hq
      simp only [hnew, Option.some.injEq] at hd
      rw [hp] at hq
      cases hd
      cases hq
      exact ⟨hcloses, harrived⟩
    · simp [Connection.step, hforeign]

/-- No time has passed, and the thread is between calls or at the head of the loop
of a call of one nanosecond. -/
def Waits (s : TraceSocketListener ε) : Prop :=
  s.now = 0 ∧ (s.collector = .idle ∨ ∃ events, s.collector = .checking ⟨none, 1, events⟩)

/-- From the head of the loop the connection that waits is accepted. -/
theorem leads_accept_checking {events : List ε} (hnow : s.now = 0) (hcall : s.collector = .checking ⟨none, 1, events⟩)
    (hlt : s.taken < s.connections.length) : Leads E plans s { s with collector := .reading ⟨none, 1, events⟩ } := by
  refine .step .check trivial (t := { s with collector := .accepting ⟨none, 1, events⟩ }) ?_ ?_
  · simp [TraceSocketListener.step, hcall, Collect.continues, hnow]
  refine .step .accept trivial ?_ (.refl _)
  simp [TraceSocketListener.step, hlt]

/-- A call that accepts the connection that waits. -/
theorem leads_accept (hw : s.Waits) (hlt : s.taken < s.connections.length) :
    ∃ events, Leads E plans s { s with collector := .reading ⟨none, 1, events⟩ } := by
  obtain ⟨hnow, hidle | ⟨events, hcall⟩⟩ := hw
  · have hfits : Instant.add s.now 1 = some 1 := by
      rw [hnow]
      decide
    refine ⟨[], .step (.collect none 1) trivial (t := { s with collector := .checking ⟨none, 1, []⟩ }) ?_ ?_⟩
    · simp only [TraceSocketListener.step, hidle, hfits]
    · exact leads_accept_checking hnow rfl hlt
  · exact ⟨events, leads_accept_checking hnow hcall hlt⟩

/-- A connection is read, and the call goes on or has failed. -/
theorem leads_read {events : List ε} {c : Connection ε} (hnow : s.now = 0)
    (hcall : s.collector = .reading ⟨none, 1, events⟩) (hc : s.connections[s.taken]? = some c) (hready : c.ready = true) :
    ∃ t, Leads E plans s t ∧ t.connections = s.connections ∧ t.taken = s.taken + 1 ∧ t.Waits := by
  cases hread : c.reading E with
  | error error =>
    refine ⟨{ s with taken := s.taken + 1, collector := .idle, returned := s.returned ++ [.error error] },
      .step .read trivial ?_ (.refl _), rfl, rfl, hnow, .inl rfl⟩
    simp [TraceSocketListener.step, hcall, hc, hready, hread]
  | ok event =>
    refine ⟨{ s with taken := s.taken + 1, collector := .checking ⟨none, 1, events ++ [event]⟩ },
      .step .read trivial ?_ (.refl _), rfl, rfl, hnow, .inr ⟨_, rfl⟩⟩
    simp [TraceSocketListener.step, hcall, hc, hready, hread]

theorem ready_of_decides {p : PeerPlan} {c : Connection ε} (harrived : c.arrived.bytes = p.bytes)
    (hclosed : c.closed = p.closes) (hdecides : p.Decides) : c.ready = true := by
  by_contra hwait
  obtain ⟨hopen, hearly⟩ := not_ready_iff.1 (Bool.eq_false_iff.2 hwait)
  rw [hclosed] at hopen
  rw [harrived] at hearly
  rcases hdecides with hcloses | hlate
  · rw [hcloses] at hopen
    cases hopen
  · exact hlate hearly

/-- Peers that decide are read one after the other. -/
theorem leads_taken (j : Nat) (hj : j ≤ plans.length) (hdecides : ∀ p ∈ plans.take j, p.Decides) :
    ∃ s, Leads E plans bound s ∧ s.connections.length = j ∧ s.taken = j ∧ s.Waits := by
  induction j with
  | zero => exact ⟨bound, .refl _, rfl, rfl, rfl, .inl rfl⟩
  | succ j ih =>
    have hplan := List.getElem?_eq_getElem (Nat.lt_of_succ_le hj)
    have htake : plans.take (j + 1) = plans.take j ++ [plans[j]] := List.take_succ_eq_append_getElem hj
    obtain ⟨s, hleads, hlength, htaken, hwaits⟩ := ih (Nat.le_of_succ_le hj)
      fun p hp => hdecides p (by rw [htake]; exact List.mem_append_left _ hp)
    obtain ⟨c, harrived, hclosed, hpeer⟩ := leads_peer (E := E) (s := s) (by rw [hlength]; exact hplan) (by omega)
    have hready := ready_of_decides harrived hclosed (hdecides plans[j] (htake ▸ List.mem_append_right _ List.mem_cons_self))
    have hc : (s.connections ++ [c])[s.taken]? = some c := by
      rw [htaken, ← hlength]
      exact List.getElem?_concat_length
    obtain ⟨events, haccept⟩ : ∃ events, Leads E plans { s with connections := s.connections ++ [c] }
        { s with connections := s.connections ++ [c], collector := .reading ⟨none, 1, events⟩ } :=
      leads_accept hwaits (by simp only [List.length_append, List.length_singleton]; omega)
    obtain ⟨t, hread, hconnections, htaken', hwaits'⟩ : ∃ t,
        Leads E plans { s with connections := s.connections ++ [c], collector := .reading ⟨none, 1, events⟩ } t ∧
        t.connections = s.connections ++ [c] ∧ t.taken = s.taken + 1 ∧ t.Waits := leads_read hwaits.1 rfl hc hready
    refine ⟨t, hleads.trans (hpeer.trans (haccept.trans hread)), ?_, ?_, hwaits'⟩
    · rw [hconnections, List.length_append, hlength, List.length_singleton]
    · rw [htaken']
      exact congrArg (· + 1) htaken

theorem first_undecided {plans : List PeerPlan} (h : ¬ ∀ p ∈ plans, p.Decides) :
    ∃ j, ∃ hj : j < plans.length, ¬ plans[j].Decides ∧ ∀ p ∈ plans.take j, p.Decides := by
  induction plans with
  | nil => exact absurd (by simp) h
  | cons p plans ih =>
    by_cases hp : p.Decides
    · have hrest : ¬ ∀ q ∈ plans, q.Decides := fun hall => h (List.forall_mem_cons.2 ⟨hp, hall⟩)
      obtain ⟨j, hj, hundecided, hbefore⟩ := ih hrest
      exact ⟨j + 1, Nat.succ_lt_succ hj, hundecided, List.forall_mem_cons.2 ⟨hp, hbefore⟩⟩
    · exact ⟨0, Nat.succ_pos _, hp, by simp⟩

/-- Behind them, a peer that does not decide stalls the thread. -/
theorem leads_stuck {j : Nat} (hj : j < plans.length) (hdecides : ∀ p ∈ plans.take j, p.Decides)
    (hundecided : ¬ plans[j].Decides) : ∃ s, Leads E plans bound s ∧ Stuck E plans s := by
  obtain ⟨s, hleads, hlength, htaken, hwaits⟩ := leads_taken (E := E) j (Nat.le_of_lt hj) hdecides
  have hplan := List.getElem?_eq_getElem hj
  obtain ⟨c, harrived, hclosed, hpeer⟩ := leads_peer (E := E) (s := s) (by rw [hlength]; exact hplan) (by omega)
  have hc : (s.connections ++ [c])[s.taken]? = some c := by
    rw [htaken, ← hlength]
    exact List.getElem?_concat_length
  obtain ⟨events, haccept⟩ : ∃ events, Leads E plans { s with connections := s.connections ++ [c] }
      { s with connections := s.connections ++ [c], collector := .reading ⟨none, 1, events⟩ } :=
    leads_accept hwaits (by simp only [List.length_append, List.length_singleton]; omega)
  have hopen : plans[j].closes = false := Bool.eq_false_iff.2 fun h => hundecided (.inl h)
  have hearly : EndsEarly U32_MAX plans[j].bytes := not_not.1 fun h => hundecided (.inr h)
  have hwait : c.ready = false := not_ready_iff.2 ⟨hclosed.trans hopen, harrived ▸ hearly⟩
  -- The clock moves on past the deadline.
  have htick : Instant.add s.now 1 = some 1 := by
    rw [hwaits.1]
    decide
  have hlate : Leads E plans bound
      { s with connections := s.connections ++ [c], collector := .reading ⟨none, 1, events⟩, now := 1 } := by
    refine hleads.trans (hpeer.trans (haccept.trans (.step (.tick 1) trivial ?_ (.refl _))))
    simp only [TraceSocketListener.step, htick, Option.map_some]
  refine ⟨_, hlate, ⟨_, rfl, Nat.le_refl _⟩, (read_none rfl hc).2 hwait, ?_⟩
  intro act hguard
  obtain ⟨acts, halong, hrun⟩ := hlate
  have hforeign := (reaches_planned halong hrun).foreign c (by simp)
  have hdropped : decide (s.taken < s.taken) = false := by simp
  cases act with
  | encode => simp [TraceSocketListener.step, hc, Connection.step, hforeign]
  | write n => simp [TraceSocketListener.step, hc, Connection.step, hforeign]
  | finish => simp [TraceSocketListener.step, hc, Connection.step, hforeign]
  | send chunk =>
    have hmore := hguard c plans[j] hc (by rw [htaken]; exact hplan)
    have hlength := hmore.length_le
    have hchunk := List.length_pos_iff.2 chunk.2
    rw [List.length_append, harrived] at hlength
    omega
  | close =>
    obtain ⟨hcloses, -⟩ := hguard c plans[j] hc (by rw [htaken]; exact hplan)
    rw [hcloses] at hopen
    cases hopen

theorem left_decreases {act : TraceAct ε} {call : Collect ε} (hcall : s.collector.call? = some call)
    (hnow : call.deadline ≤ s.now) (hact : act.collects = true) (h : s.step E act = some t) :
    t.collector.left < s.collector.left := by
  cases step_moves E h with
  | connect event => cases hact
  | foreign_connect => cases hact
  | peer hk hstep => cases hact
  | tick d => cases hact
  | collect => cases hact
  | panics => cases hact
  | @goes_on call' hchecking hgo =>
    rw [hchecking] at hcall
    cases hcall
    simp only [Collect.continues, Bool.and_eq_true, decide_eq_true_eq] at hgo
    exact absurd hgo.2 (Nat.not_lt_of_le hnow)
  | returns hchecking => simp [hchecking, Collector.left]
  | accepts haccepting => simp [haccepting, Collector.left]
  | would_block haccepting => simp [haccepting, Collector.left]
  | accept_fails kind haccepting => simp [haccepting, Collector.left]
  | reads hreading => simp [hreading, Collector.left]
  | fails hreading => simp [hreading, Collector.left]

end Steps

/-- Whatever the calls, the clock and the pieces in which bytes arrive: the
collecting thread is never stuck in a read past its deadline exactly when each
peer closes its connection or sends enough for its frame to be read. Past the
deadline every step of the thread brings its call nearer to its return. -/
theorem never_stuck_iff (plans : List PeerPlan) :
    ((∀ (acts : List (TraceAct ε)) (s : TraceSocketListener ε), Along (step E) (Follows plans) bound acts →
        exec (step E) bound acts = some s → ¬ Stuck E plans s) ↔
      ∀ p ∈ plans, p.closes = true ∨ ¬ EndsEarly U32_MAX p.bytes) ∧
    ∀ (s t : TraceSocketListener ε) (act : TraceAct ε) (call : Collect ε), s.collector.call? = some call →
      call.deadline ≤ s.now → act.collects = true → s.step E act = some t → t.collector.left < s.collector.left := by
  refine ⟨⟨fun h => ?_, fun hdecides acts s halong hrun hstuck => ?_⟩,
    fun s t act call hcall hnow hact hstep => left_decreases hcall hnow hact hstep⟩
  · by_contra hno
    -- The first peer that does not decide stalls the thread.
    obtain ⟨j, hj, hundecided, hbefore⟩ := first_undecided hno
    obtain ⟨s, ⟨acts, halong, hrun⟩, hstuck⟩ := leads_stuck (E := E) hj hbefore hundecided
    exact h acts s halong hrun hstuck
  · obtain ⟨p, hp, hundecided⟩ := hstuck.undecided (reaches_planned halong hrun) (reaches_accepted E hrun)
    exact hundecided (hdecides p hp)

/-- A peer that connects and stays silent stalls the call that reads from it. -/
theorem silent_peer_stalls : ∃ s, Along (step halfEncodable) (Follows [⟨[], false⟩]) bound
      [.foreign_connect, .collect none 5, .check, .accept, .tick 5] ∧
    exec (step halfEncodable) bound [.foreign_connect, .collect none 5, .check, .accept, .tick 5] = some s ∧
    Stuck halfEncodable [⟨[], false⟩] s := by
  refine ⟨_, ⟨Nat.zero_lt_one, fun s _ => ?_⟩, rfl, ⟨_, rfl, Nat.le_refl _⟩, ?_, ?_⟩
  · exact along_of_forall (by simp [Follows]) s
  · exact (read_none rfl rfl).2 (not_ready_iff.2 ⟨rfl, .inl (by decide)⟩)
  · intro act hguard
    cases act with
    | encode => rfl
    | write n => rfl
    | finish => rfl
    | send chunk =>
      have hmore := hguard _ _ rfl rfl
      exact absurd (List.prefix_nil.1 hmore) chunk.2
    | close =>
      obtain ⟨hcloses, -⟩ := hguard _ _ rfl rfl
      cases hcloses

end TraceSocketListener

end TriadRuntime
