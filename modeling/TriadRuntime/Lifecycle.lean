import TriadRuntime.Systems.Runs
/-!
# The lifecycle of a shell

What every `run` does with its runtime: bind, start, serve, stop, return. This
is the purpose of the five `run`s, not a translation of one; the shells keep a
record of their calls and results, and each step of a shell shows in its record
as nothing or as one step from here.
-/

open Systems

namespace TriadRuntime

inductive LifecycleCall where
  | start
  /-- A stream or connection is handled. -/
  | handle
  | stop
deriving DecidableEq, Repr

/-- What `run` returns: `Ok(())`, or the error of the variant. -/
inductive LifecycleResult (L E : Type*) where
  | Ok
  | Listener (error : L)
  | Start (error : E)
  | Stop (error : E)
deriving DecidableEq, Repr

/-- The calls of the runtime, and what the parts of `run` have come to so far. -/
structure Record (L E : Type*) where
  calls : List LifecycleCall
  bind_result : Option (Except L Unit)
  start_result : Option (Except E Unit)
  accept_result : Option (Except L Unit)
  stop_result : Option (Except E Unit)
  result : Option (LifecycleResult L E)

namespace Record

variable {L E : Type*}

def fresh : Record L E := ⟨[], none, none, none, none, none⟩

def bound (r : Record L E) (bind_result : Except L Unit) (result : Option (LifecycleResult L E)) : Record L E :=
  { r with bind_result := some bind_result, result := result }

def started (r : Record L E) (start_result : Except E Unit) (result : Option (LifecycleResult L E)) : Record L E :=
  { r with calls := r.calls ++ [.start], start_result := some start_result, result := result }

def handled (r : Record L E) : Record L E := { r with calls := r.calls ++ [.handle] }

def served (r : Record L E) (accept_result : Except L Unit) : Record L E :=
  { r with accept_result := some accept_result }

def stopped (r : Record L E) (stop_result : Except E Unit) (result : LifecycleResult L E) : Record L E :=
  { r with calls := r.calls ++ [.stop], stop_result := some stop_result, result := some result }

/-- The result of a run that has been stopped: a listener error goes before a
stop error. -/
inductive Decides : Except L Unit → Except E Unit → LifecycleResult L E → Prop
  | listener (error stop_result) : Decides (.error error) stop_result (.Listener error)
  | stop (error) : Decides (.ok ()) (.error error) (.Stop error)
  | ok : Decides (.ok ()) (.ok ()) .Ok

/-- The steps of a lifecycle. A handler may still begin when the accept loops
have ended, but none before the start. -/
inductive Step : Record L E → Record L E → Prop
  | bind (r) : r.bind_result = none → Step r (r.bound (.ok ()) none)
  | bind_fails (r error) : r.bind_result = none → Step r (r.bound (.error error) (some (.Listener error)))
  | start (r) : r.bind_result = some (.ok ()) → r.start_result = none → Step r (r.started (.ok ()) none)
  | start_fails (r error) : r.bind_result = some (.ok ()) → r.start_result = none →
      Step r (r.started (.error error) (some (.Start error)))
  | handle (r) : r.start_result = some (.ok ()) → Step r r.handled
  | serve_ends (r accept_result) : r.start_result = some (.ok ()) → r.accept_result = none →
      Step r (r.served accept_result)
  | stop (r accept_result stop_result result) : r.accept_result = some accept_result → r.stop_result = none →
      Decides accept_result stop_result result → Step r (r.stopped stop_result result)

/-! ## What a lifecycle comes to -/

/-- The result that `run` returns, by what its parts have come to. -/
structure Explains (r : Record L E) (result : LifecycleResult L E) : Prop where
  listener : ∀ error, result = .Listener error ↔ r.bind_result = some (.error error) ∨ r.accept_result = some (.error error)
  start : ∀ error, result = .Start error ↔ r.start_result = some (.error error)
  stop : ∀ error, result = .Stop error ↔ r.accept_result = some (.ok ()) ∧ r.stop_result = some (.error error)
  ok : result = .Ok ↔ r.accept_result = some (.ok ()) ∧ r.stop_result = some (.ok ())

/-- The protocol between `run` and its runtime. -/
structure Obeys (r : Record L E) : Prop where
  unbound : r.bind_result ≠ some (.ok ()) → r.calls = []
  unstarted : ∀ error, r.start_result = some (.error error) → r.calls = [.start]
  start_first : r.calls = [] ∨ ∃ rest, r.calls = .start :: rest ∧ .start ∉ rest
  start_called : .start ∈ r.calls ↔ r.start_result.isSome = true
  stop_called : .stop ∈ r.calls ↔ r.stop_result.isSome = true
  stop_once : r.calls.count .stop ≤ 1
  stop_after : .stop ∈ r.calls → r.accept_result.isSome = true
  stopped : r.start_result = some (.ok ()) → r.result.isSome = true → r.calls.count .stop = 1
  explained : ∀ result, r.result = some result → r.Explains result

/-- The calls between `start` and `stop`, or after. -/
def handles (n : Nat) : List LifecycleCall := List.replicate n .handle

/-- How far a lifecycle is. -/
inductive At : Record L E → Prop
  | fresh : At fresh
  | unbound (error) : At ⟨[], some (.error error), none, none, none, some (.Listener error)⟩
  | bound : At ⟨[], some (.ok ()), none, none, none, none⟩
  | unstarted (error) : At ⟨[.start], some (.ok ()), some (.error error), none, none, some (.Start error)⟩
  | serving (n) : At ⟨.start :: handles n, some (.ok ()), some (.ok ()), none, none, none⟩
  | stopping (n accept_result) : At ⟨.start :: handles n, some (.ok ()), some (.ok ()), some accept_result, none, none⟩
  | stopped (n m accept_result stop_result result) : Decides accept_result stop_result result →
      At ⟨.start :: (handles n ++ .stop :: handles m), some (.ok ()), some (.ok ()), some accept_result,
        some stop_result, some result⟩

theorem handles_succ (n : Nat) : handles n ++ [.handle] = handles (n + 1) := List.replicate_succ'.symm

theorem at_step {r r' : Record L E} (hat : At r) (h : Step r r') : At r' := by
  cases h with
  | bind hb =>
    cases hat with
    | fresh => exact .bound
    | _ => cases hb
  | bind_fails error hb =>
    cases hat with
    | fresh => exact .unbound error
    | _ => cases hb
  | start hb hs =>
    cases hat with
    | bound => exact .serving 0
    | fresh | unbound => cases hb
    | _ => cases hs
  | start_fails error hb hs =>
    cases hat with
    | bound => exact .unstarted error
    | fresh | unbound => cases hb
    | _ => cases hs
  | handle hs =>
    cases hat with
    | serving n =>
      have hsnoc : LifecycleCall.start :: handles n ++ [.handle] = .start :: handles (n + 1) :=
        congrArg _ (handles_succ n)
      rw [handled, hsnoc]
      exact .serving (n + 1)
    | stopping n accept_result =>
      have hsnoc : LifecycleCall.start :: handles n ++ [.handle] = .start :: handles (n + 1) :=
        congrArg _ (handles_succ n)
      rw [handled, hsnoc]
      exact .stopping (n + 1) accept_result
    | stopped n m accept_result stop_result result hd =>
      have hsnoc : LifecycleCall.start :: (handles n ++ .stop :: handles m) ++ [.handle] =
          .start :: (handles n ++ .stop :: handles (m + 1)) := by
        rw [← handles_succ]
        simp
      rw [handled, hsnoc]
      exact .stopped n (m + 1) accept_result stop_result result hd
    | _ => cases hs
  | serve_ends accept_result hs ha =>
    cases hat with
    | serving n => exact .stopping n accept_result
    | stopping | stopped => cases ha
    | _ => cases hs
  | stop accept_result stop_result result ha hs hd =>
    cases hat with
    | stopping n a =>
      cases ha
      exact .stopped n 0 accept_result stop_result result hd
    | stopped => cases hs
    | _ => cases ha

theorem at_reached {r r' : Record L E} (hat : At r) (h : Relation.ReflTransGen Step r r') : At r' := by
  induction h with
  | refl => exact hat
  | tail _ hstep ih => exact at_step ih hstep

theorem not_mem_handles {call : LifecycleCall} (h : call ≠ .handle) (n : Nat) : call ∉ handles n :=
  fun hm => h (List.eq_of_mem_replicate hm)

theorem decides_explains {r : Record L E} {accept_result : Except L Unit} {stop_result : Except E Unit}
    {result : LifecycleResult L E} (hd : Decides accept_result stop_result result) (hb : r.bind_result = some (.ok ()))
    (hs : r.start_result = some (.ok ())) (ha : r.accept_result = some accept_result)
    (ht : r.stop_result = some stop_result) : r.Explains result := by
  constructor
  · intro error
    rw [hb, ha]
    cases hd <;> simp
  · intro error
    rw [hs]
    cases hd <;> simp
  · intro error
    rw [ha, ht]
    cases hd <;> simp
  · rw [ha, ht]
    cases hd <;> simp

theorem at_obeys {r : Record L E} (h : At r) : r.Obeys := by
  have hstart : ∀ n, LifecycleCall.start ∉ handles n := not_mem_handles (by simp)
  have hstop : ∀ n, LifecycleCall.stop ∉ handles n := not_mem_handles (by simp)
  have hcount : ∀ n, (handles n).count .stop = 0 := fun n => List.count_eq_zero.2 (hstop n)
  cases h with
  | fresh =>
    exact ⟨by simp [fresh], by simp [fresh], .inl rfl, by simp [fresh], by simp [fresh], by simp [fresh], by simp [fresh],
      by simp [fresh], by simp [fresh]⟩
  | unbound error =>
    refine ⟨by simp, by simp, .inl rfl, by simp, by simp, by simp, by simp, by simp, ?_⟩
    rintro _ ⟨⟩
    exact ⟨by simp, by simp, by simp, by simp⟩
  | bound => exact ⟨by simp, by simp, .inl rfl, by simp, by simp, by simp, by simp, by simp, by simp⟩
  | unstarted error =>
    refine ⟨by simp, by simp, .inr ⟨[], rfl, by simp⟩, by simp, by simp, by simp, by simp, by simp, ?_⟩
    rintro _ ⟨⟩
    exact ⟨by simp, by simp, by simp, by simp⟩
  | serving n =>
    exact ⟨by simp, by simp, .inr ⟨_, rfl, hstart n⟩, by simp, by simp [hstop], by simp [hcount], by simp [hstop], by simp,
      by simp⟩
  | stopping n a =>
    exact ⟨by simp, by simp, .inr ⟨_, rfl, hstart n⟩, by simp, by simp [hstop], by simp [hcount], by simp, by simp, by simp⟩
  | stopped n m a s result hd =>
    refine ⟨by simp, by simp, .inr ⟨_, rfl, by simp [hstart]⟩, by simp, by simp, by simp [hcount], by simp,
      by simp [hcount], ?_⟩
    rintro _ ⟨⟩
    exact decides_explains hd rfl rfl rfl rfl

/-- What the accept loops came to does not change any more. -/
theorem accept_result_kept {r r' : Record L E} {accept_result : Except L Unit} (h : Relation.ReflTransGen Step r r')
    (ha : r.accept_result = some accept_result) : r'.accept_result = some accept_result := by
  induction h with
  | refl => exact ha
  | tail _ hstep ih =>
    cases hstep with
    | serve_ends a hs hnone => rw [ih] at hnone; cases hnone
    | _ => exact ih

/-- Whatever has a record of lifecycle steps obeys the protocol. -/
theorem steps_obey {r : Record L E} (h : Relation.ReflTransGen Step fresh r) : r.Obeys := at_obeys (at_reached .fresh h)

end Record

end TriadRuntime
