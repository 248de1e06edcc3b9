import TriadRuntime.Systems.Mutex
import TriadRuntime.Trace
/-!
# Recording logs (`trace.rs`)

A recording `TraceLog` and its clones share one vector under a mutex, which
`record`, `record_result` and `events` each lock once, from any threads and in
any order. (A log of a socket has no vector: its `record_result` is the
connection of `Trace`.)

Trusted: `push` and the clone of the vector leave it as it was when they panic.
The clone of an event is the component's own code and may.
-/

open Systems

namespace TriadRuntime

variable {ε : Type}

inductive LogCall (ε : Type) where
  | record (event : ε)
  | record_result (event : ε)
  | events
deriving DecidableEq, Repr

inductive LogAnswer (ε : Type) where
  | record
  | record_result (result : Except TraceError Unit)
  | events (events : List ε)
deriving DecidableEq, Repr

/-- The vector of `TraceDestination::Recording`, and the calls of every clone. -/
abbrev TraceLog (ε : Type) := MutexCell (List ε) (LogCall ε) (LogAnswer ε)

namespace TraceLog

def recording : TraceLog ε := MutexCell.new []

/-- `record_result` on the locked vector. -/
def record_result (log : List ε) (event : ε) : Except TraceError Unit × List ε := (.ok (), log ++ [event])

def record (log : List ε) (event : ε) : List ε := (record_result log event).2

def events (log : List ε) : List ε := log

def apply (log : List ε) : LogCall ε → List ε × LogAnswer ε
  | .record event => (record log event, .record)
  | .record_result event => ((record_result log event).2, .record_result (record_result log event).1)
  | .events => (log, .events (events log))

/-- The event a call records. -/
def event? : LogCall ε → Option ε
  | .record event | .record_result event => some event
  | .events => none

/-- What the calls of `order` recorded, in that order. -/
def recordedBy (s : TraceLog ε) (order : List Nat) : List ε :=
  (order.filterMap s.answer?).filterMap fun done => event? done.1

/-! ## One call after the other -/

theorem sequential_value {log log' : List ε} {done : List (LogCall ε × LogAnswer ε)}
    (h : Sequential apply log done log') : log' = log ++ done.filterMap fun one => event? one.1 := by
  induction done generalizing log with
  | nil => rw [List.filterMap_nil, List.append_nil]; exact h
  | cons one done ih =>
    obtain ⟨call, answer⟩ := one
    obtain ⟨-, hrest⟩ := h
    rw [ih hrest]
    cases call <;> simp [apply, record, record_result, event?]

theorem sequential_answer {log log' : List ε} {before after : List (LogCall ε × LogAnswer ε)} {call : LogCall ε}
    {answer : LogAnswer ε} (h : Sequential apply log (before ++ (call, answer) :: after) log') :
    answer = (apply (log ++ before.filterMap fun one => event? one.1) call).2 := by
  obtain ⟨mid, hbefore, hcall, -⟩ := sequential_append.1 h
  rw [← sequential_value hbefore, hcall]

/-- However the calls of its clones are interleaved, a recording log is one
sequence of the calls that returned, which respects their order in time: the
vector holds their events in that order, each `events` gave those before it, and
`record_result` returned `Ok`. A call that panics inside is the end of the log:
nothing is recorded or returned after it. -/
theorem clones_share_one_log {acts : List (MutexEvent (LogCall ε))} {s : TraceLog ε}
    (h : exec (MutexCell.step apply) recording acts = some s) :
    (∃ order : List Nat, order.Nodup ∧ (∀ i, i ∈ order ↔ s.Returned i) ∧ s.value = s.recordedBy order ∧
      ∀ before j after, order = before ++ j :: after →
        (∀ i, MutexCell.Precedes apply [] acts i j → i ∈ before) ∧
        (∀ answer, s.calls[j]? = some (.returned .events answer) → answer = .events (s.recordedBy before)) ∧
        ∀ event answer, s.calls[j]? = some (.returned (.record_result event) answer) →
          answer = .record_result (.ok ())) ∧
    ∀ call, .panicked call ∈ s.calls → ∀ more t, exec (MutexCell.step apply) s more = some t →
      t.value = s.value ∧ ∀ i, t.Returned i → s.Returned i := by
  obtain ⟨hnodup, hmem, hans, hprec⟩ := MutexCell.linearizable h
  refine ⟨⟨s.order, hnodup, hmem, ?_, fun before j after hsplit => ⟨hprec before j after hsplit, ?_⟩⟩, ?_⟩
  · rw [sequential_value hans, List.nil_append]
    rfl
  · have hat : ∀ call answer, s.calls[j]? = some (.returned call answer) →
        answer = (apply (s.recordedBy before) call).2 := by
      intro call answer hcall
      have hj : s.answer? j = some (call, answer) := by rw [MutexCell.answer?, hcall]; rfl
      rw [hsplit, List.filterMap_append, List.filterMap_cons, hj] at hans
      have := sequential_answer hans
      rwa [List.nil_append] at this
    exact ⟨fun answer hcall => hat _ _ hcall, fun event answer hcall => hat _ _ hcall⟩
  · intro call hcall more t hmore
    obtain ⟨hvalue, horder⟩ := MutexCell.panic_is_final h hcall hmore
    refine ⟨hvalue, fun i hi => ?_⟩
    have hit := (MutexCell.exec_inv (exec_append.2 ⟨s, h, hmore⟩)).mem i
    rw [← hmem, ← horder, hit]
    exact hi

/-- Calls 2, 1 and 0 get the mutex in this order, and the clone of call 3 panics. -/
def threeClones : List (MutexEvent (LogCall Nat)) :=
  [.call (.record 1), .call .events, .call (.record_result 2), .lock 2, .run 2, .lock 1, .run 1, .lock 0, .run 0,
    .call .events, .lock 3, .panic 3]

theorem clones_share_one_log_threeClones : ∃ s : TraceLog Nat,
    exec (MutexCell.step apply) recording threeClones = some s ∧
    s.calls[1]? = some (.returned .events (.events [2])) ∧ s.value = [2, 1] ∧
    (∃ order : List Nat, order.Nodup ∧ (∀ i, i ∈ order ↔ s.Returned i) ∧ s.value = s.recordedBy order) ∧
    ∀ more t, exec (MutexCell.step apply) s more = some t → t.value = [2, 1] := by
  have hrun : ∃ s : TraceLog Nat, exec (MutexCell.step apply) recording threeClones = some s ∧
      s.calls[1]? = some (.returned .events (.events [2])) ∧ s.value = [2, 1] ∧ .panicked .events ∈ s.calls :=
    ⟨_, rfl, rfl, rfl, .tail _ (.tail _ (.tail _ (.head _)))⟩
  obtain ⟨s, hs, hcall, hvalue, hpanic⟩ := hrun
  obtain ⟨⟨order, hnodup, hmem, hall, -⟩, hfinal⟩ := clones_share_one_log hs
  exact ⟨s, hs, hcall, hvalue, ⟨order, hnodup, hmem, hall⟩,
    fun more t hmore => (hfinal .events hpanic more t hmore).1.trans hvalue⟩

end TraceLog

end TriadRuntime
