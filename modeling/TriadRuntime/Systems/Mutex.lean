import Mathlib.Data.List.Nodup
import TriadRuntime.Systems.Runs
import TriadRuntime.Systems.Tables
/-!
# A value under a mutex

Any threads call operations on one value. A call waits for the mutex, runs and
lets go of it. One that panics while it runs leaves the value as it was and the
mutex poisoned: who takes it after that is refused.

Trusted: the mutex lets one thread in at a time, in an order of its own.
-/

namespace Systems

variable {σ O R : Type*}

/-- Where one call stands. -/
inductive Call (O R : Type*) where
  | waiting (op : O)
  | inside (op : O)
  | returned (op : O) (answer : R)
  | panicked (op : O)
  /-- Found the mutex poisoned. -/
  | refused (op : O)
deriving DecidableEq, Repr

/-- The call has the mutex. -/
def Call.holds : Call O R → Bool
  | .inside _ => true
  | _ => false

/-- The operation of a call that returned, and its answer. -/
def Call.answer? : Call O R → Option (O × R)
  | .returned op answer => some (op, answer)
  | _ => none

/-- The value, every call, and, for the theorems only, the calls that returned in
the order they ran. -/
structure MutexCell (σ O R : Type*) where
  value : σ
  poisoned : Bool
  calls : List (Call O R)
  order : List Nat
deriving DecidableEq, Repr

inductive MutexEvent (O : Type*) where
  | call (op : O)
  | lock (i : Nat)
  | run (i : Nat)
  | panic (i : Nat)
deriving DecidableEq, Repr

/-- The answers are those of the operations made one after the other from `v`,
which leave `w`. -/
def Sequential (apply : σ → O → σ × R) : σ → List (O × R) → σ → Prop
  | v, [], w => w = v
  | v, (op, answer) :: rest, w => (apply v op).2 = answer ∧ Sequential apply (apply v op).1 rest w

theorem sequential_append {apply : σ → O → σ × R} {v w : σ} {xs ys : List (O × R)} :
    Sequential apply v (xs ++ ys) w ↔ ∃ u, Sequential apply v xs u ∧ Sequential apply u ys w := by
  induction xs generalizing v with
  | nil => simp [Sequential]
  | cons x xs ih => simp only [List.cons_append, Sequential, ih, exists_and_left, and_assoc]

namespace MutexCell

def new (value : σ) : MutexCell σ O R := ⟨value, false, [], []⟩

def step (apply : σ → O → σ × R) (s : MutexCell σ O R) : MutexEvent O → Option (MutexCell σ O R)
  | .call op => some { s with calls := s.calls ++ [.waiting op] }
  | .lock i =>
    match s.calls[i]? with
    | some (.waiting op) =>
      if s.calls.any Call.holds then none
      else some { s with calls := s.calls.set i (if s.poisoned then .refused op else .inside op) }
    | _ => none
  | .run i =>
    match s.calls[i]? with
    | some (.inside op) =>
      some { s with
        value := (apply s.value op).1
        calls := s.calls.set i (.returned op (apply s.value op).2)
        order := s.order ++ [i] }
    | _ => none
  | .panic i =>
    match s.calls[i]? with
    | some (.inside op) => some { s with poisoned := true, calls := s.calls.set i (.panicked op) }
    | _ => none

variable {apply : σ → O → σ × R} {s t : MutexCell σ O R}

/-- What call `i` did, if it returned. -/
def answer? (s : MutexCell σ O R) (i : Nat) : Option (O × R) := s.calls[i]?.bind Call.answer?

def Returned (s : MutexCell σ O R) (i : Nat) : Prop := ∃ op answer, s.calls[i]? = some (.returned op answer)

theorem returned_iff (s : MutexCell σ O R) (i : Nat) : s.Returned i ↔ ∃ done, s.answer? i = some done := by
  simp only [Returned, answer?, Option.bind_eq_some_iff]
  constructor
  · rintro ⟨op, answer, h⟩
    exact ⟨(op, answer), _, h, rfl⟩
  · rintro ⟨done, call, hcall, hdone⟩
    cases call <;> cases hdone
    exact ⟨_, _, hcall⟩

/-! ## What a step can do -/

inductive Moves (apply : σ → O → σ × R) (s : MutexCell σ O R) : MutexEvent O → MutexCell σ O R → Prop
  | calls (op) : Moves apply s (.call op) { s with calls := s.calls ++ [.waiting op] }
  | enters (i op) : s.calls[i]? = some (.waiting op) → s.poisoned = false → (∀ c ∈ s.calls, c.holds = false) →
      Moves apply s (.lock i) { s with calls := s.calls.set i (.inside op) }
  | refuses (i op) : s.calls[i]? = some (.waiting op) → s.poisoned = true → (∀ c ∈ s.calls, c.holds = false) →
      Moves apply s (.lock i) { s with calls := s.calls.set i (.refused op) }
  | runs (i op) : s.calls[i]? = some (.inside op) → Moves apply s (.run i) { s with
      value := (apply s.value op).1
      calls := s.calls.set i (.returned op (apply s.value op).2)
      order := s.order ++ [i] }
  | panics (i op) : s.calls[i]? = some (.inside op) →
      Moves apply s (.panic i) { s with poisoned := true, calls := s.calls.set i (.panicked op) }

theorem step_moves {event : MutexEvent O} (h : s.step apply event = some t) : Moves apply s event t := by
  cases event with
  | call op => cases h; exact .calls op
  | lock i =>
    simp only [step] at h
    split at h
    · rename_i op hi
      simp only [Option.ite_none_left_eq_some, Option.some.injEq] at h
      obtain ⟨hfree, rfl⟩ := h
      have hfree : ∀ c ∈ s.calls, c.holds = false := by simpa using hfree
      cases hp : s.poisoned with
      | true =>
        have hmove : Moves apply s (.lock i) _ := .refuses i op hi hp hfree
        simpa [hp] using hmove
      | false =>
        have hmove : Moves apply s (.lock i) _ := .enters i op hi hp hfree
        simpa [hp] using hmove
    · cases h
  | run i =>
    simp only [step] at h
    split at h
    · rename_i op hi
      cases h
      exact .runs i op hi
    · cases h
  | panic i =>
    simp only [step] at h
    split at h
    · rename_i op hi
      cases h
      exact .panics i op hi
    · cases h

/-! ## What every step keeps -/

/-- The order holds the calls that returned, once each, and their answers are
those of the operations made in that order. -/
structure Inv (apply : σ → O → σ × R) (v : σ) (s : MutexCell σ O R) : Prop where
  nodup : s.order.Nodup
  mem : ∀ i, i ∈ s.order ↔ s.Returned i
  answers : Sequential apply v (s.order.filterMap s.answer?) s.value

theorem inv_new (v : σ) : Inv apply v (new v : MutexCell σ O R) := by
  refine ⟨List.nodup_nil, fun i => ?_, rfl⟩
  simp [new, Returned]

/-- What is kept by a step that returns from no call. -/
theorem Inv.same {v : σ} (hi : Inv apply v s) (hvalue : t.value = s.value) (horder : t.order = s.order)
    (hans : ∀ i, t.answer? i = s.answer? i) : Inv apply v t := by
  refine ⟨horder ▸ hi.nodup, fun i => ?_, ?_⟩
  · rw [horder, hi.mem, returned_iff, returned_iff, hans]
  · rw [horder, hvalue, funext hans]
    exact hi.answers

theorem answer?_set {i : Nat} (hlt : i < s.calls.length) (call : Call O R) (k : Nat) :
    (s.calls.set i call)[k]?.bind Call.answer? = if k = i then call.answer? else s.answer? k := by
  by_cases hk : k = i
  · subst hk
    rw [if_pos rfl, List.getElem?_set_self hlt]
    rfl
  · rw [if_neg hk, List.getElem?_set_ne (Ne.symm hk)]
    rfl

/-- A call that has not returned goes on and does not return yet. -/
theorem Inv.goes_on {v : σ} (hi : Inv apply v s) {i : Nat} {a b : Call O R} (ha : s.calls[i]? = some a)
    (hna : a.answer? = none) (hnb : b.answer? = none) (poisoned : Bool) :
    Inv apply v { s with poisoned := poisoned, calls := s.calls.set i b } := by
  obtain ⟨hlt, -⟩ := List.getElem?_eq_some_iff.1 ha
  refine hi.same rfl rfl fun k => ?_
  change (s.calls.set i b)[k]?.bind Call.answer? = s.answer? k
  rw [answer?_set hlt b]
  split
  · rename_i hk
    rw [hk, answer?, ha, hnb]
    exact hna.symm
  · rfl

theorem inv_step {v : σ} {event : MutexEvent O} (hi : Inv apply v s) (h : s.step apply event = some t) :
    Inv apply v t := by
  cases step_moves h with
  | calls op =>
    refine hi.same rfl rfl fun k => ?_
    simp only [answer?]
    rcases Nat.lt_trichotomy k s.calls.length with hk | hk | hk
    · rw [List.getElem?_append_left hk]
    · subst hk
      simp [Call.answer?]
    · rw [List.getElem?_eq_none (by simp; omega), List.getElem?_eq_none (by omega)]
  | enters i op hop hp _ => simpa [hp] using hi.goes_on hop rfl (b := .inside op) rfl false
  | refuses i op hop hp _ => simpa [hp] using hi.goes_on hop rfl (b := .refused op) rfl true
  | panics i op hop => exact hi.goes_on hop rfl rfl true
  | runs i op hop =>
    obtain ⟨hlt, -⟩ := List.getElem?_eq_some_iff.1 hop
    have hnew : i ∉ s.order := by
      rw [hi.mem]
      rintro ⟨op', answer, h'⟩
      rw [hop] at h'
      cases h'
    have hans := answer?_set hlt (.returned op (apply s.value op).2)
    refine ⟨?_, fun k => ?_, ?_⟩
    · exact List.nodup_append.2 ⟨hi.nodup, List.nodup_singleton i, fun k hk j hj hkj => hnew (by
        rw [List.mem_singleton] at hj
        rwa [hkj, hj] at hk)⟩
    · rw [List.mem_append, List.mem_singleton, hi.mem, returned_iff, returned_iff]
      change _ ↔ ∃ done, (s.calls.set i _)[k]?.bind Call.answer? = some done
      rw [hans]
      by_cases hk : k = i
      · simp [hk, Call.answer?]
      · simp [hk]
    · change Sequential apply v ((s.order ++ [i]).filterMap fun k => (s.calls.set i _)[k]?.bind Call.answer?) _
      simp only [hans]
      rw [List.filterMap_append, sequential_append]
      refine ⟨s.value, ?_, ?_⟩
      · -- the earlier calls are other calls
        have hold : (s.order.filterMap fun k => if k = i then
            (Call.returned op (apply s.value op).2).answer? else s.answer? k) = s.order.filterMap s.answer? := by
          apply List.filterMap_congr
          intro k hk
          rw [if_neg]
          rintro rfl
          exact hnew hk
        rw [hold]
        exact hi.answers
      · simp [Call.answer?, Sequential]

theorem step_grows {event : MutexEvent O} (h : s.step apply event = some t) :
    s.order <+: t.order ∧ s.calls.length ≤ t.calls.length := by
  cases step_moves h <;> simp

theorem exec_grows {events : List (MutexEvent O)} (h : exec (step apply) s events = some t) :
    s.order <+: t.order ∧ s.calls.length ≤ t.calls.length :=
  exec_invariant (fun u => s.order <+: u.order ∧ s.calls.length ≤ u.calls.length)
    (fun _ _ _ hu hstep => ⟨hu.1.trans (step_grows hstep).1, Nat.le_trans hu.2 (step_grows hstep).2⟩) h
    ⟨List.prefix_refl _, Nat.le_refl _⟩

theorem exec_inv {v : σ} {events : List (MutexEvent O)} (h : exec (step apply) (new v) events = some s) :
    Inv apply v s :=
  exec_invariant (Inv apply v) (fun _ _ _ => inv_step) h (inv_new v)

/-! ## Linearizability -/

/-- Somewhere in the run call `i` had returned and call `j` was still to be made. -/
def Precedes (apply : σ → O → σ × R) (v : σ) (events : List (MutexEvent O)) (i j : Nat) : Prop :=
  ∃ front back u, events = front ++ back ∧ exec (step apply) (new v) front = some u ∧ u.Returned i ∧
    u.calls.length ≤ j

/-- One sequence of the calls that returned, made one after the other, gives
their answers, and puts none before a call that was over when it was made. -/
theorem linearizable {v : σ} {events : List (MutexEvent O)} (h : exec (step apply) (new v) events = some s) :
    s.order.Nodup ∧ (∀ i, i ∈ s.order ↔ s.Returned i) ∧
      Sequential apply v (s.order.filterMap s.answer?) s.value ∧
      ∀ before j after, s.order = before ++ j :: after → ∀ i, Precedes apply v events i j → i ∈ before := by
  have hi := exec_inv h
  refine ⟨hi.nodup, hi.mem, hi.answers, fun before j after hsplit i hprec => ?_⟩
  obtain ⟨front, back, u, rfl, hu, hret, hlen⟩ := hprec
  obtain ⟨u', hu', hback⟩ := exec_append.1 h
  rw [hu, Option.some.injEq] at hu'
  subst hu'
  have hiu := exec_inv hu
  obtain ⟨rest, hrest⟩ := (exec_grows hback).1
  have hj : j ∉ u.order := by
    rw [hiu.mem]
    rintro ⟨op, answer, hcall⟩
    rw [List.getElem?_eq_none hlen] at hcall
    cases hcall
  rw [hsplit] at hrest
  -- the calls that were over then are a first part, and `j` is past it
  rcases List.append_eq_append_iff.1 hrest with ⟨more, rfl, -⟩ | ⟨more, hmore, hcons⟩
  · exact List.mem_append_left more ((hiu.mem i).2 hret)
  · rcases more with _ | ⟨k, more⟩
    · rw [List.append_nil] at hmore
      rw [← hmore]
      exact (hiu.mem i).2 hret
    · cases hcons
      exact absurd (by rw [hmore]; simp) hj

/-! ## Poisoning -/

/-- One call has the mutex at a time, and none once it is poisoned. -/
def Exclusive (s : MutexCell σ O R) : Prop :=
  s.calls.countP Call.holds + (if s.poisoned then 1 else 0) ≤ 1

theorem exclusive_step {event : MutexEvent O} (he : Exclusive s) (h : s.step apply event = some t) : Exclusive t := by
  unfold Exclusive at he ⊢
  cases step_moves h with
  | calls op => simpa [Call.holds] using he
  | enters i op hop hp hfree =>
    have hcount := countP_set_row Call.holds hop (b := .inside op)
    have hnone : s.calls.countP Call.holds = 0 := List.countP_eq_zero.2 fun c hc => by simp [hfree c hc]
    simp only [Call.holds, Bool.false_eq_true, if_false, if_true, hp] at hcount ⊢
    omega
  | refuses i op hop hp hfree =>
    exact (countP_set_same Call.holds hop (b := .refused op) rfl).symm ▸ he
  | runs i op hop =>
    have hcount := countP_set_row Call.holds hop (b := .returned op (apply s.value op).2)
    simp only [Call.holds, Bool.false_eq_true, if_false, if_true] at hcount he ⊢
    omega
  | panics i op hop =>
    have hcount := countP_set_row Call.holds hop (b := .panicked op)
    simp only [Call.holds, Bool.false_eq_true, if_false, if_true] at hcount ⊢
    omega

/-- A call that panicked inside left the mutex poisoned. -/
def Marked (s : MutexCell σ O R) : Prop := ∀ op, .panicked op ∈ s.calls → s.poisoned = true

theorem marked_step {event : MutexEvent O} (hm : Marked s) (h : s.step apply event = some t) : Marked t := by
  intro op hop
  cases step_moves h with
  | calls op' =>
    refine hm op ?_
    simpa using hop
  | enters i op' =>
    rcases mem_set_row hop with hold | hnew
    · exact hm op hold
    · cases hnew
  | refuses i op' =>
    rcases mem_set_row hop with hold | hnew
    · exact hm op hold
    · cases hnew
  | runs i op' =>
    rcases mem_set_row hop with hold | hnew
    · exact hm op hold
    · cases hnew
  | panics i op' => rfl

/-- Nothing happens to a value whose mutex is poisoned. -/
theorem poisoned_step {event : MutexEvent O} (he : Exclusive s) (hp : s.poisoned = true)
    (h : s.step apply event = some t) : t.poisoned = true ∧ t.value = s.value ∧ t.order = s.order := by
  have hnone : ∀ (i : Nat) (op : O), s.calls[i]? ≠ some (.inside op) := by
    intro i op hop
    have hpos : 0 < s.calls.countP Call.holds := List.countP_pos_iff.2 ⟨_, List.mem_of_getElem? hop, rfl⟩
    unfold Exclusive at he
    rw [hp, if_pos rfl] at he
    omega
  cases step_moves h with
  | calls op => exact ⟨hp, rfl, rfl⟩
  | enters i op hop hfalse _ => rw [hp] at hfalse; cases hfalse
  | refuses i op hop _ _ => exact ⟨hp, rfl, rfl⟩
  | runs i op hop => exact absurd hop (hnone i op)
  | panics i op hop => exact absurd hop (hnone i op)

/-- Nor does anything once a call has panicked inside. -/
theorem panic_is_final {v : σ} {front back : List (MutexEvent O)} {op : O}
    (hs : exec (step apply) (new v) front = some s) (hop : .panicked op ∈ s.calls)
    (h : exec (step apply) s back = some t) : t.value = s.value ∧ t.order = s.order := by
  obtain ⟨he, hm⟩ : Exclusive s ∧ Marked s := exec_invariant (fun u => Exclusive u ∧ Marked u)
    (fun _ _ _ hu hstep => ⟨exclusive_step hu.1 hstep, marked_step hu.2 hstep⟩) hs
    ⟨by simp [Exclusive, new], by simp [Marked, new]⟩
  have hall := exec_invariant
    (fun u => Exclusive u ∧ u.poisoned = true ∧ u.value = s.value ∧ u.order = s.order)
    (fun u event w hu hstep => ?_) h ⟨he, hm op hop, rfl, rfl⟩
  · exact hall.2.2
  · obtain ⟨hu, hpu, hvu, hou⟩ := hu
    obtain ⟨hpw, hvw, how⟩ := poisoned_step hu hpu hstep
    exact ⟨exclusive_step hu hstep, hpw, hvw.trans hvu, how.trans hou⟩

end MutexCell

end Systems
