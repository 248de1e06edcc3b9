import TriadRuntime.Systems.Progress
/-!
# Bounded workers (`workers.rs`)

`BoundedWorkers` is a counting semaphore over a mutex and a condition variable.
Each `dispatch` takes a permit, waiting while there is none, and moves it into
the thread that runs its task; dropping the permit gives it back and wakes one
waiter. The critical sections under the mutex are single steps here; between
them any dispatches, from any clones and threads, go on in any order.

Trusted: `notify_one` wakes a thread that waits, if there is one; a wait may also
end for no reason; a thread that is woken takes the mutex again like any other;
a panic unwinds and drops the permit (the guard taken while unwinding does not
poison the mutex), and so does a closure whose thread could not be created.
-/

open Systems

namespace TriadRuntime

structure WorkerPermits where
  capacity : Nat
  available : Nat
deriving DecidableEq, Repr

def WorkerPermits.new (capacity : Nat) : WorkerPermits := ⟨capacity, capacity⟩

inductive TaskEnd where
  | returned
  | panicked
deriving DecidableEq, Repr

/-- Where one call of `dispatch` and its task stand. -/
inductive DispatchPhase where
  /-- Before the first look at the permits. -/
  | acquiring
  /-- In `Condvar::wait`. -/
  | waiting
  /-- Woken by `notify_one`, and still to look again. -/
  | notified
  /-- Woken for no reason, and still to look again. -/
  | woken
  /-- Has the permit, before `thread::spawn`. -/
  | holding
  /-- The thread is there, its task has not begun. -/
  | spawned
  | running
  | ended (how : TaskEnd)
  /-- `thread::spawn` failed, and the closure is about to be dropped. -/
  | unspawned
  | released
deriving DecidableEq, Repr

/-- A `WorkerPermit` is there. -/
def DispatchPhase.live : DispatchPhase → Bool
  | .holding | .spawned | .running | .ended _ | .unspawned => true
  | _ => false

/-- The thread takes the mutex next, to look at the permits. -/
def DispatchPhase.looks : DispatchPhase → Bool
  | .acquiring | .notified | .woken => true
  | _ => false

def DispatchPhase.waits : DispatchPhase → Bool
  | .waiting => true
  | _ => false

/-- Woken by a permit that was dropped, and on its way to look. -/
def DispatchPhase.signalled : DispatchPhase → Bool
  | .notified => true
  | _ => false

/-- The permit is dropped next. -/
def DispatchPhase.droppable : DispatchPhase → Bool
  | .ended _ | .unspawned => true
  | _ => false

/-- One `dispatch` with, for the theorems only, whether its thread was created
and how often its task was run and its permit dropped. -/
structure Dispatch where
  phase : DispatchPhase
  created : Bool
  runs : Nat
  drops : Nat
deriving DecidableEq, Repr

/-- What a dispatch has been through, by where it stands. -/
def Dispatch.Valid (d : Dispatch) : Prop :=
  match d.phase with
  | .spawned => d.created = true ∧ d.runs = 0 ∧ d.drops = 0
  | .running | .ended _ => d.created = true ∧ d.runs = 1 ∧ d.drops = 0
  | .released => d.runs = (if d.created then 1 else 0) ∧ d.drops = 1
  | _ => d.created = false ∧ d.runs = 0 ∧ d.drops = 0

/-- The permits that the clones of a `BoundedWorkers` share, and every dispatch. -/
structure BoundedWorkers where
  permits : WorkerPermits
  dispatches : List Dispatch
deriving DecidableEq, Repr

inductive WorkerEvent where
  | dispatch
  /-- The mutex is taken and the loop condition looked at. -/
  | check (i : Nat)
  | wake (i : Nat)
  | spawn (i : Nat) (ok : Bool)
  | begin_task (i : Nat)
  | end_task (i : Nat) (how : TaskEnd)
  /-- The permit is dropped, and `notify_one` wakes `woken`. -/
  | drop_permit (i : Nat) (woken : Option Nat)
deriving DecidableEq, Repr

namespace BoundedWorkers

open DispatchPhase (live waits signalled)

def new (capacity : Nat) : BoundedWorkers := ⟨.new (max capacity 1), []⟩

/-- Dispatch `i` becomes `d`. -/
def set_dispatch (s : BoundedWorkers) (i : Nat) (d : Dispatch) : BoundedWorkers :=
  { s with dispatches := s.dispatches.set i d }

def set_available (s : BoundedWorkers) (available : Nat) : BoundedWorkers :=
  { s with permits := { s.permits with available := available } }

/-- One turn of the loop in `WorkerPermit::acquire`. -/
def acquire_turn (s : BoundedWorkers) (i : Nat) (d : Dispatch) : BoundedWorkers :=
  if s.permits.available = 0 then s.set_dispatch i { d with phase := .waiting }
  else (s.set_available (s.permits.available - 1)).set_dispatch i { d with phase := .holding }

/-- `Drop for WorkerPermit`, up to the notification. -/
def release (s : BoundedWorkers) (i : Nat) (d : Dispatch) : BoundedWorkers :=
  (s.set_available (s.permits.available + 1)).set_dispatch i { d with phase := .released, drops := d.drops + 1 }

/-- `notify_one`: `woken` waits, or nobody does. -/
def notify_one (s : BoundedWorkers) : Option Nat → Option BoundedWorkers
  | some j =>
    match s.dispatches[j]? with
    | some d => if d.phase = .waiting then some (s.set_dispatch j { d with phase := .notified }) else none
    | none => none
  | none => if s.dispatches.any (·.phase = .waiting) then none else some s

def step (s : BoundedWorkers) : WorkerEvent → Option BoundedWorkers
  | .dispatch => some { s with dispatches := s.dispatches ++ [⟨.acquiring, false, 0, 0⟩] }
  | .check i =>
    match s.dispatches[i]? with
    | some d =>
      match d.phase with
      | .acquiring | .notified | .woken => some (s.acquire_turn i d)
      | _ => none
    | none => none
  | .wake i =>
    match s.dispatches[i]? with
    | some d => if d.phase = .waiting then some (s.set_dispatch i { d with phase := .woken }) else none
    | none => none
  | .spawn i ok =>
    match s.dispatches[i]? with
    | some d =>
      if d.phase = .holding then
        some (s.set_dispatch i { d with phase := if ok then .spawned else .unspawned, created := ok })
      else none
    | none => none
  | .begin_task i =>
    match s.dispatches[i]? with
    | some d =>
      if d.phase = .spawned then some (s.set_dispatch i { d with phase := .running, runs := d.runs + 1 }) else none
    | none => none
  | .end_task i how =>
    match s.dispatches[i]? with
    | some d => if d.phase = .running then some (s.set_dispatch i { d with phase := .ended how }) else none
    | none => none
  | .drop_permit i woken =>
    match s.dispatches[i]? with
    | some d =>
      match d.phase with
      | .ended _ | .unspawned => (s.release i d).notify_one woken
      | _ => none
    | none => none

/-! ## What a step can do -/

/-- The steps, with the rows they change. -/
inductive Moves (s : BoundedWorkers) : WorkerEvent → BoundedWorkers → Prop
  | dispatch : Moves s .dispatch { s with dispatches := s.dispatches ++ [⟨.acquiring, false, 0, 0⟩] }
  | waits (i d) : s.dispatches[i]? = some d → d.phase.looks = true → s.permits.available = 0 →
      Moves s (.check i) (s.set_dispatch i { d with phase := .waiting })
  | takes (i d) : s.dispatches[i]? = some d → d.phase.looks = true → 0 < s.permits.available →
      Moves s (.check i) ((s.set_available (s.permits.available - 1)).set_dispatch i { d with phase := .holding })
  | wakes (i d) : s.dispatches[i]? = some d → d.phase = .waiting →
      Moves s (.wake i) (s.set_dispatch i { d with phase := .woken })
  | spawns (i d ok) : s.dispatches[i]? = some d → d.phase = .holding →
      Moves s (.spawn i ok)
        (s.set_dispatch i { d with phase := if ok then .spawned else .unspawned, created := ok })
  | begins (i d) : s.dispatches[i]? = some d → d.phase = .spawned →
      Moves s (.begin_task i) (s.set_dispatch i { d with phase := .running, runs := d.runs + 1 })
  | ends (i d how) : s.dispatches[i]? = some d → d.phase = .running →
      Moves s (.end_task i how) (s.set_dispatch i { d with phase := .ended how })
  | drops_alone (i d) : s.dispatches[i]? = some d → d.phase.droppable = true →
      (∀ e ∈ (s.release i d).dispatches, e.phase ≠ .waiting) → Moves s (.drop_permit i none) (s.release i d)
  | drops_waking (i d j e) : s.dispatches[i]? = some d → d.phase.droppable = true →
      (s.release i d).dispatches[j]? = some e → e.phase = .waiting →
      Moves s (.drop_permit i (some j)) ((s.release i d).set_dispatch j { e with phase := .notified })

theorem step_moves {s t : BoundedWorkers} {event : WorkerEvent} (h : s.step event = some t) : Moves s event t := by
  cases event with
  | dispatch => cases h; exact .dispatch
  | check i =>
    simp only [step] at h
    split at h
    · rename_i d hd
      have hlook : d.phase.looks = true ∧ t = s.acquire_turn i d := by
        split at h <;> cases h <;> rename_i hp <;> exact ⟨by rw [hp]; rfl, rfl⟩
      obtain ⟨hl, rfl⟩ := hlook
      unfold acquire_turn
      split
      · rename_i h0
        exact .waits i d hd hl h0
      · rename_i h0
        exact .takes i d hd hl (Nat.pos_of_ne_zero h0)
    · cases h
  | wake i =>
    simp only [step] at h
    split at h
    · rename_i d hd
      simp only [Option.ite_none_right_eq_some, Option.some.injEq] at h
      obtain ⟨hp, rfl⟩ := h
      exact .wakes i d hd hp
    · cases h
  | spawn i ok =>
    simp only [step] at h
    split at h
    · rename_i d hd
      simp only [Option.ite_none_right_eq_some, Option.some.injEq] at h
      obtain ⟨hp, rfl⟩ := h
      exact .spawns i d ok hd hp
    · cases h
  | begin_task i =>
    simp only [step] at h
    split at h
    · rename_i d hd
      simp only [Option.ite_none_right_eq_some, Option.some.injEq] at h
      obtain ⟨hp, rfl⟩ := h
      exact .begins i d hd hp
    · cases h
  | end_task i how =>
    simp only [step] at h
    split at h
    · rename_i d hd
      simp only [Option.ite_none_right_eq_some, Option.some.injEq] at h
      obtain ⟨hp, rfl⟩ := h
      exact .ends i d how hd hp
    · cases h
  | drop_permit i woken =>
    simp only [step] at h
    split at h
    · rename_i d hd
      have hdrop : d.phase.droppable = true ∧ (s.release i d).notify_one woken = some t := by
        split at h
        · rename_i hp
          exact ⟨by rw [hp]; rfl, h⟩
        · rename_i hp
          exact ⟨by rw [hp]; rfl, h⟩
        · cases h
      obtain ⟨hp, hn⟩ := hdrop
      cases woken with
      | none =>
        simp only [notify_one, Option.ite_none_left_eq_some, Option.some.injEq] at hn
        obtain ⟨hno, rfl⟩ := hn
        refine .drops_alone i d hd hp fun e he hw => hno ?_
        exact List.any_eq_true.2 ⟨e, he, by simp [hw]⟩
      | some j =>
        simp only [notify_one] at hn
        split at hn
        · rename_i e he
          simp only [Option.ite_none_right_eq_some, Option.some.injEq] at hn
          obtain ⟨hw, rfl⟩ := hn
          exact .drops_waking i d j e hd hp he hw
        · cases hn
    · cases h

/-! ## What every step keeps -/

/-- The dispatches in a phase that `p` picks. -/
def count (p : DispatchPhase → Bool) (s : BoundedWorkers) : Nat := s.dispatches.countP fun d => p d.phase

section Counts
variable {s : BoundedWorkers} {i : Nat} {d e : Dispatch} (p : DispatchPhase → Bool) (h : s.dispatches[i]? = some d)
include h

theorem count_set :
    (s.set_dispatch i e).count p + (if p d.phase then 1 else 0) = s.count p + (if p e.phase then 1 else 0) :=
  countP_set_row (fun d : Dispatch => p d.phase) h

theorem count_same (hp : p e.phase = p d.phase) : (s.set_dispatch i e).count p = s.count p :=
  countP_set_same (fun d : Dispatch => p d.phase) h hp

theorem count_gain (hp : p d.phase = false) (hp' : p e.phase = true) :
    (s.set_dispatch i e).count p = s.count p + 1 := by
  have := count_set p h (e := e)
  simpa [hp, hp'] using this

theorem count_lose (hp : p d.phase = true) (hp' : p e.phase = false) :
    (s.set_dispatch i e).count p + 1 = s.count p := by
  have := count_set p h (e := e)
  simpa [hp, hp'] using this

end Counts

/-- What holds of a `BoundedWorkers` of this capacity in every state. `notified`
is the law of the monitor: a thread waits only if the permits that are free are
spoken for by threads that have been notified. -/
structure Inv (capacity : Nat) (s : BoundedWorkers) : Prop where
  cap : s.permits.capacity = max capacity 1
  conserved : s.permits.available + s.count live = max capacity 1
  rows : ∀ d ∈ s.dispatches, d.Valid
  notified : 0 < s.count waits → s.permits.available ≤ s.count signalled

/-- A thread that looks has no permit. -/
theorem looks_not {p : DispatchPhase} (h : p.looks = true) : p.live = false ∧ p.waits = false := by
  cases p <;> first | exact ⟨rfl, rfl⟩ | cases h

/-- A thread that looks has nothing yet, and has nothing while it waits. -/
theorem valid_looks {d : Dispatch} (hl : d.phase.looks = true) (hv : d.Valid) :
    d.created = false ∧ d.runs = 0 ∧ d.drops = 0 := by
  unfold Dispatch.Valid at hv
  split at hv <;> rename_i hp
  · rw [hp] at hl; cases hl
  · rw [hp] at hl; cases hl
  · rw [hp] at hl; cases hl
  · rw [hp] at hl; cases hl
  · exact hv

theorem droppable_live {p : DispatchPhase} (h : p.droppable = true) :
    p.live = true ∧ p.waits = false ∧ p.signalled = false := by
  cases p <;> first | exact ⟨rfl, rfl, rfl⟩ | cases h

/-- A permit that is dropped was not dropped before. -/
theorem valid_release {d : Dispatch} (hp : d.phase.droppable = true) (hv : d.Valid) :
    Dispatch.Valid { d with phase := .released, drops := d.drops + 1 } := by
  obtain ⟨phase, created, runs, drops⟩ := d
  cases phase with
  | ended how => obtain ⟨rfl, rfl, rfl⟩ := hv; exact ⟨rfl, rfl⟩
  | unspawned => obtain ⟨rfl, rfl, rfl⟩ := hv; exact ⟨rfl, rfl⟩
  | _ => cases hp

theorem inv_new (capacity : Nat) : Inv capacity (new capacity) := by
  constructor <;> simp [new, WorkerPermits.new, count]

theorem rows_set {s : BoundedWorkers} (h : ∀ d ∈ s.dispatches, d.Valid) (i : Nat) {d : Dispatch} (hd : d.Valid) :
    ∀ x ∈ (s.set_dispatch i d).dispatches, x.Valid := by
  intro x hx
  rcases mem_set_row hx with hx | rfl
  · exact h x hx
  · exact hd

/-- A dispatch that has a permit, or has none, and goes on. -/
theorem inv_moves_on {capacity : Nat} {s : BoundedWorkers} {i : Nat} {d d' : Dispatch} (hi : Inv capacity s)
    (hd : s.dispatches[i]? = some d) (hlive : d'.phase.live = d.phase.live) (hwaits : d'.phase.waits = d.phase.waits)
    (hsignalled : d'.phase.signalled = d.phase.signalled) (hv : d'.Valid) : Inv capacity (s.set_dispatch i d') := by
  refine ⟨hi.cap, ?_, rows_set hi.rows i hv, ?_⟩
  · rw [count_same live hd hlive]; exact hi.conserved
  · rw [count_same waits hd hwaits, count_same signalled hd hsignalled]; exact hi.notified

section Turns
variable {capacity : Nat} {s : BoundedWorkers} {i : Nat} {d : Dispatch}

theorem inv_dispatch (hi : Inv capacity s) :
    Inv capacity { s with dispatches := s.dispatches ++ [⟨.acquiring, false, 0, 0⟩] } := by
  refine ⟨hi.cap, ?_, ?_, ?_⟩
  · simpa [count, live] using hi.conserved
  · intro d hd
    rcases List.mem_append.1 hd with hd | hd
    · exact hi.rows d hd
    · rw [List.mem_singleton.1 hd]
      exact ⟨rfl, rfl, rfl⟩
  · simpa only [count, List.countP_append, List.countP_singleton, waits, signalled, Bool.false_eq_true, if_false,
      Nat.add_zero] using hi.notified

/-- It waits while no permit is free, so the law asks for nothing. -/
theorem inv_waits (hi : Inv capacity s) (hd : s.dispatches[i]? = some d) (hl : d.phase.looks = true)
    (h0 : s.permits.available = 0) : Inv capacity (s.set_dispatch i { d with phase := .waiting }) := by
  have hv := valid_looks hl (hi.rows d (List.mem_of_getElem? hd))
  have hlive := count_same live hd (e := { d with phase := .waiting }) (looks_not hl).1.symm
  refine ⟨hi.cap, ?_, rows_set hi.rows i hv, fun _ => ?_⟩
  · rw [hlive]; exact hi.conserved
  · exact h0 ▸ Nat.zero_le _

/-- One permit fewer, and one notified thread fewer at most. -/
theorem inv_takes (hi : Inv capacity s) (hd : s.dispatches[i]? = some d) (hl : d.phase.looks = true)
    (hpos : 0 < s.permits.available) :
    Inv capacity ((s.set_available (s.permits.available - 1)).set_dispatch i { d with phase := .holding }) := by
  obtain ⟨hcap, hcons, hrows, hnot⟩ := hi
  have hv := valid_looks hl (hrows d (List.mem_of_getElem? hd))
  have hlive := count_gain live hd (e := { d with phase := .holding }) (looks_not hl).1 rfl
  have hwait := count_same waits hd (e := { d with phase := .holding }) (looks_not hl).2.symm
  have hsig := count_set signalled hd (e := { d with phase := .holding })
  refine ⟨hcap, ?_, rows_set hrows i hv, ?_⟩
  · change s.permits.available - 1 + (s.set_dispatch i _).count live = _
    omega
  · intro hw
    change 0 < (s.set_dispatch i _).count waits at hw
    change s.permits.available - 1 ≤ (s.set_dispatch i _).count signalled
    have := hnot (by omega)
    have hnone : signalled { d with phase := .holding }.phase = false := rfl
    rw [hnone] at hsig
    cases hn : d.phase.signalled <;> rw [hn] at hsig <;> simp only [Bool.false_eq_true, if_true, if_false] at hsig <;>
      omega

theorem inv_wakes (hi : Inv capacity s) (hd : s.dispatches[i]? = some d) (hp : d.phase = .waiting) :
    Inv capacity (s.set_dispatch i { d with phase := .woken }) := by
  have hv := hi.rows d (List.mem_of_getElem? hd)
  simp only [Dispatch.Valid, hp] at hv
  have hlive := count_same live hd (e := { d with phase := .woken }) (by rw [hp]; rfl)
  have hwait := count_lose waits hd (e := { d with phase := .woken }) (by rw [hp]; rfl) rfl
  have hsig := count_same signalled hd (e := { d with phase := .woken }) (by rw [hp]; rfl)
  refine ⟨hi.cap, ?_, rows_set hi.rows i hv, fun _ => ?_⟩
  · rw [hlive]; exact hi.conserved
  · rw [hsig]; exact hi.notified (by omega)

/-- A permit comes back while nobody waits. -/
theorem inv_drops_alone (hi : Inv capacity s) (hd : s.dispatches[i]? = some d) (hp : d.phase.droppable = true)
    (hno : ∀ e ∈ (s.release i d).dispatches, e.phase ≠ .waiting) : Inv capacity (s.release i d) := by
  have hcons := hi.conserved
  obtain ⟨hl, -, -⟩ := droppable_live hp
  have hlive := count_lose live hd (e := { d with phase := .released, drops := d.drops + 1 }) hl rfl
  refine ⟨hi.cap, ?_, rows_set hi.rows i (valid_release hp (hi.rows d (List.mem_of_getElem? hd))), fun hw => ?_⟩
  · change s.permits.available + 1 + (s.set_dispatch i _).count live = _
    omega
  · obtain ⟨e, he, hwe⟩ := List.countP_pos_iff.1 hw
    refine absurd ?_ (hno e he)
    cases hph : e.phase <;> rw [hph] at hwe <;> first | rfl | cases hwe

/-- The permit that comes back is spoken for by the thread that is woken. -/
theorem inv_drops_waking (hi : Inv capacity s) (hd : s.dispatches[i]? = some d) (hp : d.phase.droppable = true)
    {j : Nat} {e : Dispatch} (he : (s.release i d).dispatches[j]? = some e) (hw : e.phase = .waiting) :
    Inv capacity ((s.release i d).set_dispatch j { e with phase := .notified }) := by
  obtain ⟨hcap, hcons, hrows, hnot⟩ := hi
  obtain ⟨hl, hnw, hns⟩ := droppable_live hp
  have hlive := count_lose live hd (e := { d with phase := .released, drops := d.drops + 1 }) hl rfl
  have hwait := count_same waits hd (e := { d with phase := .released, drops := d.drops + 1 }) hnw.symm
  have hsig := count_same signalled hd (e := { d with phase := .released, drops := d.drops + 1 }) hns.symm
  have hlive' := count_same live he (e := { e with phase := .notified }) (by rw [hw]; rfl)
  have hwait' := count_lose waits he (e := { e with phase := .notified }) (by rw [hw]; rfl) rfl
  have hsig' := count_gain signalled he (e := { e with phase := .notified }) (by rw [hw]; rfl) rfl
  have hrows' := rows_set hrows i (valid_release hp (hrows d (List.mem_of_getElem? hd)))
  have hv := hrows' e (List.mem_of_getElem? he)
  simp only [Dispatch.Valid, hw] at hv
  refine ⟨hcap, ?_, rows_set hrows' j hv, fun _ => ?_⟩
  · rw [hlive']
    change s.permits.available + 1 + (s.set_dispatch i _).count live = _
    omega
  · rw [hsig']
    change s.permits.available + 1 ≤ (s.set_dispatch i _).count signalled + 1
    change (s.set_dispatch i _).count waits = _ at hwait
    have : 0 < s.count waits := by
      rw [← hwait]
      change 0 < (s.release i d).count waits
      omega
    have := hnot this
    omega

end Turns

theorem inv_step {capacity : Nat} {s t : BoundedWorkers} {event : WorkerEvent} (hi : Inv capacity s)
    (h : s.step event = some t) : Inv capacity t := by
  cases step_moves h with
  | dispatch => exact inv_dispatch hi
  | waits i d hd hl h0 => exact inv_waits hi hd hl h0
  | takes i d hd hl hpos => exact inv_takes hi hd hl hpos
  | wakes i d hd hp => exact inv_wakes hi hd hp
  | spawns i d ok hd hp =>
    have hv := hi.rows d (List.mem_of_getElem? hd)
    simp only [Dispatch.Valid, hp] at hv
    refine inv_moves_on hi hd ?_ ?_ ?_ ?_
    · cases ok <;> rw [hp] <;> rfl
    · cases ok <;> rw [hp] <;> rfl
    · cases ok <;> rw [hp] <;> rfl
    · cases ok
      · exact ⟨rfl, hv.2⟩
      · exact ⟨rfl, hv.2⟩
  | begins i d hd hp =>
    have hv := hi.rows d (List.mem_of_getElem? hd)
    simp only [Dispatch.Valid, hp] at hv
    refine inv_moves_on hi hd (by rw [hp]; rfl) (by rw [hp]; rfl) (by rw [hp]; rfl) ?_
    exact ⟨hv.1, congrArg (· + 1) hv.2.1, hv.2.2⟩
  | ends i d how hd hp =>
    have hv := hi.rows d (List.mem_of_getElem? hd)
    simp only [Dispatch.Valid, hp] at hv
    exact inv_moves_on hi hd (by rw [hp]; rfl) (by rw [hp]; rfl) (by rw [hp]; rfl) hv
  | drops_alone i d hd hp hno => exact inv_drops_alone hi hd hp hno
  | drops_waking i d j e hd hp he hw => exact inv_drops_waking hi hd hp he hw

theorem reaches_inv {capacity : Nat} {s : BoundedWorkers} {events : List WorkerEvent}
    (h : exec step (new capacity) events = some s) : Inv capacity s :=
  exec_invariant (Inv capacity) (fun _ _ _ hi hstep => inv_step hi hstep) h (inv_new capacity)

/-! ## Permits are conserved -/

/-- A permit that is due can be dropped, whoever waits. -/
theorem drop_enabled {s : BoundedWorkers} {i : Nat} {d : Dispatch} (hd : s.dispatches[i]? = some d)
    (hp : d.phase.droppable = true) :
    ∃ woken t d', s.step (.drop_permit i woken) = some t ∧ t.dispatches[i]? = some d' ∧ d'.phase = .released := by
  have hstep : ∀ woken, s.step (.drop_permit i woken) = (s.release i d).notify_one woken := by
    intro woken
    simp only [step, hd]
    cases hph : d.phase <;> rw [hph] at hp <;> first | rfl | cases hp
  obtain ⟨hlt, -⟩ := List.getElem?_eq_some_iff.1 hd
  have hself : (s.release i d).dispatches[i]? = some { d with phase := .released, drops := d.drops + 1 } :=
    List.getElem?_set_self hlt
  by_cases hall : ∀ e ∈ (s.release i d).dispatches, e.phase ≠ .waiting
  · refine ⟨none, s.release i d, _, ?_, hself, rfl⟩
    rw [hstep, notify_one, if_neg]
    simpa using hall
  · simp only [not_forall, ne_eq, not_not] at hall
    obtain ⟨e, he, hw⟩ := hall
    obtain ⟨j, hj⟩ := List.mem_iff_getElem?.1 he
    -- It is another thread that waits.
    have hij : j ≠ i := by
      rintro rfl
      rw [hself] at hj
      cases hj
      cases hw
    have hkeeps := (List.getElem?_set_ne (a := { e with phase := .notified }) hij).trans hself
    refine ⟨some j, (s.release i d).set_dispatch j { e with phase := .notified }, _, ?_, hkeeps, rfl⟩
    rw [hstep]
    simp only [notify_one, hj, hw, if_true]

/-- What lies before the drop of a permit, if the thread is created or not and
the task ends as said. -/
def to_drop (i : Nat) (ok : Bool) (how : TaskEnd) : DispatchPhase → List WorkerEvent
  | .holding => if ok then [.spawn i true, .begin_task i, .end_task i how] else [.spawn i false]
  | .spawned => [.begin_task i, .end_task i how]
  | .running => [.end_task i how]
  | _ => []

/-- These steps are open to every dispatch that has a permit. -/
theorem to_drop_exec (ok : Bool) (how : TaskEnd) {s : BoundedWorkers} {i : Nat} {d : Dispatch}
    (hd : s.dispatches[i]? = some d) (hl : d.phase.live = true) :
    ∃ t d', exec step s (to_drop i ok how d.phase) = some t ∧ t.dispatches[i]? = some d' ∧
      d'.phase.droppable = true := by
  obtain ⟨hlt, -⟩ := List.getElem?_eq_some_iff.1 hd
  have hself : ∀ (s' : BoundedWorkers) (d' : Dispatch), i < s'.dispatches.length →
      (s'.set_dispatch i d').dispatches[i]? = some d' := fun s' d' hlt => List.getElem?_set_self hlt
  -- Each phase has a step of its own to the next.
  have hrunning : ∀ (s : BoundedWorkers) (d : Dispatch), s.dispatches[i]? = some d → d.phase = .running →
      ∃ t d', exec step s [.end_task i how] = some t ∧ t.dispatches[i]? = some d' ∧ d'.phase.droppable = true := by
    intro s d hd hp
    obtain ⟨hlt, -⟩ := List.getElem?_eq_some_iff.1 hd
    exact ⟨s.set_dispatch i { d with phase := .ended how }, _, by simp [exec, step, hd, hp], hself s _ hlt, rfl⟩
  have hspawned : ∀ (s : BoundedWorkers) (d : Dispatch), s.dispatches[i]? = some d → d.phase = .spawned →
      ∃ t d', exec step s [.begin_task i, .end_task i how] = some t ∧ t.dispatches[i]? = some d' ∧
        d'.phase.droppable = true := by
    intro s d hd hp
    obtain ⟨hlt, -⟩ := List.getElem?_eq_some_iff.1 hd
    obtain ⟨t, d', hexec, ht⟩ := hrunning (s.set_dispatch i { d with phase := .running, runs := d.runs + 1 }) _
      (hself s _ hlt) rfl
    exact ⟨t, d', exec_cons.2 ⟨_, by simp [step, hd, hp], hexec⟩, ht⟩
  cases hph : d.phase with
  | holding =>
    cases ok with
    | true =>
      obtain ⟨t, d', hexec, ht⟩ := hspawned (s.set_dispatch i { d with phase := .spawned, created := true }) _
        (hself s _ hlt) rfl
      exact ⟨t, d', exec_cons.2 ⟨_, by simp [step, hd, hph], hexec⟩, ht⟩
    | false =>
      exact ⟨s.set_dispatch i { d with phase := .unspawned, created := false }, _,
        by simp [to_drop, exec, step, hd, hph], hself s _ hlt, rfl⟩
  | spawned => exact hspawned s d hd hph
  | running => exact hrunning s d hd hph
  | ended how' => exact ⟨s, d, rfl, hd, by rw [hph]; rfl⟩
  | unspawned => exact ⟨s, d, rfl, hd, by rw [hph]; rfl⟩
  | _ => rw [hph] at hl; cases hl

/-- The permits that are free and those that are out are `max capacity 1` in
every state, so no more tasks run, no look at the permits takes one that is not
there and no drop makes one too many; each permit is dropped once, however its
task ends, and each task is run once, or is about to be, if its thread was
created. -/
theorem permits_conserved (capacity : Nat) (events : List WorkerEvent) (s : BoundedWorkers)
    (h : exec step (new capacity) events = some s) :
    s.permits.available + s.count live = max capacity 1 ∧
    s.count (· = .running) ≤ max capacity 1 ∧
    (∀ i t, s.step (.check i) = some t →
      t.permits.available = s.permits.available ∨ t.permits.available + 1 = s.permits.available) ∧
    (∀ i woken t, s.step (.drop_permit i woken) = some t →
      t.permits.available = s.permits.available + 1 ∧ t.permits.available ≤ s.permits.capacity) ∧
    (∀ (i : Nat) (d : Dispatch), s.dispatches[i]? = some d → d.drops ≤ 1 ∧ (d.drops = 1 ↔ d.phase = .released) ∧
      (d.phase.live = true → ∀ (ok : Bool) (how : TaskEnd), ∃ (woken : Option Nat) (t : BoundedWorkers) (d' : Dispatch),
        exec step s (to_drop i ok how d.phase ++ [.drop_permit i woken]) = some t ∧ t.dispatches[i]? = some d' ∧
          d'.drops = 1)) ∧
    (∀ (i : Nat) (d : Dispatch), s.dispatches[i]? = some d → d.runs ≤ 1 ∧
      (d.created = true → d.runs = 1 ∨ ∃ (t : BoundedWorkers) (d' : Dispatch), s.step (.begin_task i) = some t ∧
        t.dispatches[i]? = some d' ∧ d'.runs = 1)) := by
  have hi := reaches_inv h
  have hdrops : ∀ d : Dispatch, d.Valid → d.drops ≤ 1 ∧ (d.drops = 1 ↔ d.phase = .released) := by
    intro d hv
    unfold Dispatch.Valid at hv
    split at hv <;> simp_all
  refine ⟨hi.conserved, ?_, ?_, ?_, ?_, ?_⟩
  · have hle : s.count (· = .running) ≤ s.count live := by
      apply List.countP_mono_left
      intro d _ hr
      rw [of_decide_eq_true hr]
      rfl
    have := hi.conserved
    omega
  · intro i t ht
    cases step_moves ht with
    | waits => exact .inl rfl
    | takes _ d hd hl hpos => exact .inr (Nat.sub_add_cancel hpos)
  · intro i woken t ht
    have hcons := (inv_step hi ht).conserved
    have hcap := hi.cap
    have havail : t.permits.available = s.permits.available + 1 := by
      cases step_moves ht with
      | drops_alone => rfl
      | drops_waking => rfl
    exact ⟨havail, by omega⟩
  · intro i d hd
    obtain ⟨hle, hiff⟩ := hdrops d (hi.rows d (List.mem_of_getElem? hd))
    refine ⟨hle, hiff, fun hl ok how => ?_⟩
    obtain ⟨u, e, hto, he, hp⟩ := to_drop_exec ok how hd hl
    obtain ⟨woken, t, d', hstep, hd', hr⟩ := drop_enabled he hp
    have hexec : exec step s (to_drop i ok how d.phase ++ [.drop_permit i woken]) = some t :=
      exec_append.2 ⟨u, hto, exec_cons.2 ⟨t, hstep, rfl⟩⟩
    have hi' := exec_invariant (Inv capacity) (fun _ _ _ hi hstep => inv_step hi hstep) hexec hi
    exact ⟨woken, t, d', hexec, hd', (hdrops d' (hi'.rows d' (List.mem_of_getElem? hd'))).2.2 hr⟩
  · intro i d hd
    have hv := hi.rows d (List.mem_of_getElem? hd)
    unfold Dispatch.Valid at hv
    split at hv
    · rename_i hp
      obtain ⟨hlt, -⟩ := List.getElem?_eq_some_iff.1 hd
      exact ⟨by omega, fun _ => .inr ⟨s.set_dispatch i { d with phase := .running, runs := d.runs + 1 }, _,
        by simp [step, hd, hp], List.getElem?_set_self hlt, by simp [hv.2.1]⟩⟩
    · exact ⟨by omega, fun _ => .inl hv.2.1⟩
    · exact ⟨by omega, fun _ => .inl hv.2.1⟩
    · refine ⟨?_, fun hc => .inl ?_⟩
      · rw [hv.1]; split <;> omega
      · rw [hv.1, if_pos hc]
    · exact ⟨by omega, fun hc => by rw [hv.1] at hc; cases hc⟩

/-! ## No wake-up is lost -/

/-- While a thread waits, the permits that are free are at most the threads that
have been notified and have not looked since; so when a permit is free and a
thread sleeps, some thread is on its way, and takes a permit if it is next. -/
theorem no_wake_up_lost (capacity : Nat) (events : List WorkerEvent) (s : BoundedWorkers)
    (h : exec step (new capacity) events = some s) :
    (0 < s.count waits → s.permits.available ≤ s.count signalled) ∧
    (0 < s.count waits → 0 < s.permits.available →
      ∃ (i : Nat) (d : Dispatch) (t : BoundedWorkers), s.dispatches[i]? = some d ∧ d.phase = .notified ∧
        s.step (.check i) = some t ∧ t.permits.available + 1 = s.permits.available) := by
  have hi := reaches_inv h
  refine ⟨hi.notified, fun hw hpos => ?_⟩
  obtain ⟨d, hm, hs⟩ := List.countP_pos_iff.1 (Nat.lt_of_lt_of_le hpos (hi.notified hw))
  obtain ⟨i, hd⟩ := List.mem_iff_getElem?.1 hm
  have hp : d.phase = .notified := by
    cases hph : d.phase <;> rw [hph] at hs <;> first | rfl | cases hs
  refine ⟨i, d, s.acquire_turn i d, hd, hp, by simp [step, hd, hp], ?_⟩
  rw [acquire_turn, if_neg (Nat.ne_of_gt hpos)]
  exact Nat.sub_add_cancel hpos

/-- Capacity 0: the one permit is out, a second dispatch waits for it, the task
panics, and the permit that comes back wakes the waiter. -/
def panickedRun : List WorkerEvent :=
  [.dispatch, .dispatch, .check 0, .check 1, .spawn 0 true, .begin_task 0, .end_task 0 .panicked, .drop_permit 0 (some 1)]

theorem permits_conserved_panickedRun :
    ∃ s, exec step (new 0) panickedRun = some s ∧ s.permits.available + s.count live = 1 := by
  refine ⟨_, rfl, (permits_conserved 0 panickedRun _ rfl).1⟩

/-- Capacity 1: two dispatches wait for the one permit, and when it comes back the
first of them is woken. -/
def twoWait : List WorkerEvent :=
  [.dispatch, .dispatch, .dispatch, .check 0, .check 1, .check 2, .spawn 0 true, .begin_task 0, .end_task 0 .returned,
    .drop_permit 0 (some 1)]

theorem no_wake_up_lost_twoWait :
    ∃ s, exec step (new 1) twoWait = some s ∧ s.count waits = 1 ∧ s.permits.available = 1 ∧ s.count signalled = 1 ∧
      ∃ (i : Nat) (t : BoundedWorkers), s.step (.check i) = some t ∧ t.permits.available = 0 := by
  obtain ⟨s, hs, hwaits, havailable, hsignalled⟩ : ∃ s, exec step (new 1) twoWait = some s ∧ s.count waits = 1 ∧
      s.permits.available = 1 ∧ s.count signalled = 1 := ⟨_, rfl, rfl, rfl, rfl⟩
  obtain ⟨-, hnext⟩ := no_wake_up_lost 1 twoWait s hs
  obtain ⟨i, d, t, -, -, ht, htakes⟩ := hnext (by rw [hwaits]; decide) (by rw [havailable]; decide)
  exact ⟨s, hs, hwaits, havailable, hsignalled, i, t, ht, by omega⟩

/-! ## Every task comes to its end -/

end BoundedWorkers

/-- How far a dispatch is from its end. A wake-up costs the waiter its place one
step further on, and the drop that sends it pays for it. -/
def DispatchPhase.toil : DispatchPhase → Nat
  | .acquiring | .notified | .woken => 7
  | .waiting => 6
  | .holding => 5
  | .spawned => 4
  | .running => 3
  | .ended _ | .unspawned => 2
  | .released => 0

/-- What the surroundings bring in: a call of `dispatch`, or a wait that ends
for no reason. -/
def WorkerEvent.brings : WorkerEvent → Nat
  | .dispatch => 8
  | .wake _ => 2
  | _ => 0

/-- The steps of the workers and their tasks. -/
def WorkerEvent.Own (event : WorkerEvent) : Prop := event.brings = 0

namespace BoundedWorkers

open DispatchPhase (live waits signalled)

def toil (s : BoundedWorkers) : Nat := (s.dispatches.map (·.phase.toil)).sum

theorem toil_set {s : BoundedWorkers} {i : Nat} {d : Dispatch} (h : s.dispatches[i]? = some d) (d' : Dispatch) :
    (s.set_dispatch i d').toil + d.phase.toil = s.toil + d'.phase.toil :=
  sum_set_row (fun d : Dispatch => d.phase.toil) h

theorem looks_toil {p : DispatchPhase} (h : p.looks = true) : p.toil = 7 := by
  cases p <;> first | rfl | cases h

theorem droppable_toil {p : DispatchPhase} (h : p.droppable = true) : p.toil = 2 := by
  cases p <;> first | rfl | cases h

theorem toil_release {s : BoundedWorkers} {i : Nat} {d : Dispatch} (hd : s.dispatches[i]? = some d)
    (hp : d.phase.droppable = true) : (s.release i d).toil + 2 = s.toil := by
  have h : (s.release i d).toil + d.phase.toil = s.toil + DispatchPhase.released.toil :=
    toil_set (s := s.set_available (s.permits.available + 1)) hd { d with phase := .released, drops := d.drops + 1 }
  rw [droppable_toil hp] at h
  exact h

/-- Every step is one nearer to the end, but for what it brings in. -/
theorem toil_step {s t : BoundedWorkers} {event : WorkerEvent} (h : s.step event = some t) :
    t.toil + 1 ≤ s.toil + event.brings := by
  cases step_moves h with
  | dispatch =>
    simp only [toil, sum_snoc, WorkerEvent.brings, DispatchPhase.toil]
    omega
  | waits i d hd hl h0 =>
    have := toil_set hd { d with phase := .waiting }
    have := looks_toil hl
    simp only [DispatchPhase.toil, WorkerEvent.brings] at *
    omega
  | takes i d hd hl hpos =>
    have := toil_set (s := s.set_available (s.permits.available - 1)) hd { d with phase := .holding }
    have := looks_toil hl
    have : (s.set_available (s.permits.available - 1)).toil = s.toil := rfl
    simp only [DispatchPhase.toil, WorkerEvent.brings] at *
    omega
  | wakes i d hd hp =>
    have := toil_set hd { d with phase := .woken }
    simp only [hp, DispatchPhase.toil, WorkerEvent.brings] at *
    omega
  | spawns i d ok hd hp =>
    have := toil_set hd { d with phase := if ok then .spawned else .unspawned, created := ok }
    cases ok <;> simp only [hp, DispatchPhase.toil, WorkerEvent.brings, if_true, Bool.false_eq_true, if_false] at * <;>
      omega
  | begins i d hd hp =>
    have := toil_set hd { d with phase := .running, runs := d.runs + 1 }
    simp only [hp, DispatchPhase.toil, WorkerEvent.brings] at *
    omega
  | ends i d how hd hp =>
    have := toil_set hd { d with phase := .ended how }
    simp only [hp, DispatchPhase.toil, WorkerEvent.brings] at *
    omega
  | drops_alone i d hd hp hno =>
    have := toil_release hd hp
    simp only [WorkerEvent.brings]
    omega
  | drops_waking i d j e hd hp he hw =>
    have := toil_release hd hp
    have := toil_set he { e with phase := .notified }
    simp only [hw, DispatchPhase.toil, WorkerEvent.brings] at *
    omega

end BoundedWorkers

end TriadRuntime
