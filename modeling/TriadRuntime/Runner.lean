import Mathlib.Data.List.Basic
import TriadRuntime.Systems.Words
/-!
# The recursive runner (`runner.rs`)

`Runner::drive` as the source writes it, five branches with a budget check in
each, over an arbitrary engine that transforms its own state. The result also
carries the calls made on the engine, in order, so that a theorem can say what
was dispatched and what was not. An engine call that returns is a total
function here; `drive_loop` terminates because every branch but `Reply` spends
one step of a finite budget.
-/

open Systems

namespace TriadRuntime

/-! ## Budgets -/

structure ContinuationLimit where
  count : UInt32
deriving DecidableEq, Repr

structure ContinuationBudget where
  limit : ContinuationLimit
  completed_step_count : UInt32
deriving DecidableEq, Repr

structure ContinuationExhausted where
  limit : ContinuationLimit
  completed_step_count : UInt32
  attempted_step_count : UInt32
deriving DecidableEq, Repr

/-- `DEFAULT_CONTINUATION_LIMIT_COUNT`. -/
def ContinuationLimit.default : ContinuationLimit := ⟨32⟩

def ContinuationLimit.budget (limit : ContinuationLimit) : ContinuationBudget := ⟨limit, 0⟩

namespace ContinuationBudget

def remaining_step_count (b : ContinuationBudget) : UInt32 :=
  UInt32.saturating_sub b.limit.count b.completed_step_count

/-- `&mut self` becomes the budget handed back; an error leaves it as it was. -/
def spend_next_step (b : ContinuationBudget) : Except ContinuationExhausted ContinuationBudget :=
  let attempted_step_count := UInt32.saturating_add b.completed_step_count 1
  if b.completed_step_count ≥ b.limit.count then
    .error ⟨b.limit, b.completed_step_count, attempted_step_count⟩
  else
    .ok { b with completed_step_count := attempted_step_count }

theorem remaining_toNat (b : ContinuationBudget) :
    b.remaining_step_count.toNat = b.limit.count.toNat - b.completed_step_count.toNat :=
  UInt32.saturating_sub_toNat _ _

/-- A budget below its limit counts one step more, exactly: the saturation
never acts, since the limit itself fits in a `u32`. -/
theorem spend_ok {b : ContinuationBudget} (h : b.completed_step_count.toNat < b.limit.count.toNat) :
    ∃ b', b.spend_next_step = .ok b' ∧ b'.limit = b.limit ∧
      b'.completed_step_count.toNat = b.completed_step_count.toNat + 1 := by
  have hlt : ¬ b.completed_step_count ≥ b.limit.count := by
    rw [ge_iff_le, UInt32.le_iff_toNat_le]; omega
  have hmax := b.limit.count.toNat_lt
  refine ⟨_, if_neg hlt, rfl, ?_⟩
  rw [UInt32.saturating_add_toNat]
  have : (1 : UInt32).toNat = 1 := rfl
  omega

theorem spend_error {b : ContinuationBudget} (h : b.limit.count.toNat ≤ b.completed_step_count.toNat) :
    b.spend_next_step = .error ⟨b.limit, b.completed_step_count, UInt32.saturating_add b.completed_step_count 1⟩ :=
  if_pos (by rw [ge_iff_le, UInt32.le_iff_toNat_le]; exact h)

theorem spend_decreases {b b' : ContinuationBudget} (h : b.spend_next_step = .ok b') :
    b'.remaining_step_count.toNat < b.remaining_step_count.toNat := by
  by_cases hlt : b.completed_step_count.toNat < b.limit.count.toNat
  · obtain ⟨b'', he, hl, hc⟩ := spend_ok hlt
    rw [h] at he; cases he
    rw [remaining_toNat, remaining_toNat, hl, hc]; omega
  · rw [spend_error (by omega)] at h; cases h

end ContinuationBudget

structure Runner where
  continuation_limit : ContinuationLimit
deriving DecidableEq, Repr

def Runner.default : Runner := ⟨.default⟩

/-! ## Engines -/

inductive NextStep (Reply SemaWrite SemaRead Effect Work : Type) where
  | Reply (reply : Reply)
  | SemaWrite (write : SemaWrite)
  | SemaRead (read : SemaRead)
  | RunEffect (effect : Effect)
  | Continue (work : Work)
deriving DecidableEq, Repr

/-- A component's engines, each call a function of the engine state `S`. -/
structure RunnerEngines (S Reply SemaWrite SemaRead Effect Work : Type) where
  decide_next_step : S → Work → NextStep Reply SemaWrite SemaRead Effect Work × S
  apply_sema_write : S → SemaWrite → Work × S
  observe_sema_read : S → SemaRead → Work × S
  run_effect : S → Effect → Work × S
  budget_exhausted_reply : S → ContinuationExhausted → Reply × S

/-- One call on the engines, with what it was given. -/
inductive EngineCall (SemaWrite SemaRead Effect Work : Type) where
  | decide_next_step (work : Work)
  | apply_sema_write (write : SemaWrite)
  | observe_sema_read (read : SemaRead)
  | run_effect (effect : Effect)
  | budget_exhausted_reply (exhausted : ContinuationExhausted)
deriving DecidableEq, Repr

namespace EngineCall
variable {SemaWrite SemaRead Effect Work : Type}

@[simp] def isDecide : EngineCall SemaWrite SemaRead Effect Work → Bool
  | .decide_next_step _ => true
  | _ => false

@[simp] def isExhausted : EngineCall SemaWrite SemaRead Effect Work → Bool
  | .budget_exhausted_reply _ => true
  | _ => false

end EngineCall

/-- How a `drive` ended: its reply, the engines it leaves, the steps it spent
and the calls it made. -/
structure Driven (S Reply SemaWrite SemaRead Effect Work : Type) where
  reply : Reply
  engines : S
  completed_step_count : UInt32
  calls : List (EngineCall SemaWrite SemaRead Effect Work)
deriving DecidableEq, Repr

variable {S Reply SemaWrite SemaRead Effect Work : Type}

/-- The rest of a drive, after the calls already made. -/
def Driven.after (calls : List (EngineCall SemaWrite SemaRead Effect Work))
    (rest : Driven S Reply SemaWrite SemaRead Effect Work) : Driven S Reply SemaWrite SemaRead Effect Work :=
  { rest with calls := calls ++ rest.calls }

namespace Runner

variable (E : RunnerEngines S Reply SemaWrite SemaRead Effect Work)

/-- `return engines.budget_exhausted_reply(exhausted)`, the same line in every branch. -/
def give_up (budget : ContinuationBudget) (engines : S) (work : Work) (exhausted : ContinuationExhausted) :
    Driven S Reply SemaWrite SemaRead Effect Work where
  reply := (E.budget_exhausted_reply engines exhausted).1
  engines := (E.budget_exhausted_reply engines exhausted).2
  completed_step_count := budget.completed_step_count
  calls := [.decide_next_step work, .budget_exhausted_reply exhausted]

/-- The loop of `Runner::drive`. -/
def drive_loop (budget : ContinuationBudget) (engines : S) (work : Work) :
    Driven S Reply SemaWrite SemaRead Effect Work :=
  match E.decide_next_step engines work with
  | (.Reply reply, engines) => ⟨reply, engines, budget.completed_step_count, [.decide_next_step work]⟩
  | (.SemaWrite write, engines) =>
    match _hb : budget.spend_next_step with
    | .error exhausted => give_up E budget engines work exhausted
    | .ok budget' =>
      let done := E.apply_sema_write engines write
      (drive_loop budget' done.2 done.1).after [.decide_next_step work, .apply_sema_write write]
  | (.SemaRead read, engines) =>
    match _hb : budget.spend_next_step with
    | .error exhausted => give_up E budget engines work exhausted
    | .ok budget' =>
      let done := E.observe_sema_read engines read
      (drive_loop budget' done.2 done.1).after [.decide_next_step work, .observe_sema_read read]
  | (.RunEffect effect, engines) =>
    match _hb : budget.spend_next_step with
    | .error exhausted => give_up E budget engines work exhausted
    | .ok budget' =>
      let done := E.run_effect engines effect
      (drive_loop budget' done.2 done.1).after [.decide_next_step work, .run_effect effect]
  | (.Continue next_work, engines) =>
    match _hb : budget.spend_next_step with
    | .error exhausted => give_up E budget engines work exhausted
    | .ok budget' => (drive_loop budget' engines next_work).after [.decide_next_step work]
termination_by budget.remaining_step_count.toNat
decreasing_by all_goals exact ContinuationBudget.spend_decreases ‹_›

def drive (runner : Runner) (engines : S) (first_work : Work) :
    Driven S Reply SemaWrite SemaRead Effect Work :=
  drive_loop E runner.continuation_limit.budget engines first_work

/-! ## The unbounded reference loop -/

/-- The plane a decision names, called once: what comes back is the next work.
A reply has no next work, and `Continue` reaches no plane. -/
def dispatch (engines : S) : NextStep Reply SemaWrite SemaRead Effect Work → Option (Work × S)
  | .Reply _ => none
  | .SemaWrite write => some (E.apply_sema_write engines write)
  | .SemaRead read => some (E.observe_sema_read engines read)
  | .RunEffect effect => some (E.run_effect engines effect)
  | .Continue work => some (work, engines)

/-- The engine call that dispatches a decision, if it has one. -/
def planeCall : NextStep Reply SemaWrite SemaRead Effect Work → List (EngineCall SemaWrite SemaRead Effect Work)
  | .Reply _ => []
  | .SemaWrite write => [.apply_sema_write write]
  | .SemaRead read => [.observe_sema_read read]
  | .RunEffect effect => [.run_effect effect]
  | .Continue _ => []

/-- A decision: the work it was given, what it said, the engines it left. -/
structure Decision (S Reply SemaWrite SemaRead Effect Work : Type) where
  work : Work
  step : NextStep Reply SemaWrite SemaRead Effect Work
  engines : S

/-- Deciding `work` and dispatching what was decided. -/
def Decision.calls (d : Decision S Reply SemaWrite SemaRead Effect Work) :
    List (EngineCall SemaWrite SemaRead Effect Work) :=
  .decide_next_step d.work :: planeCall d.step

def decideNow (engines : S) (work : Work) : Decision S Reply SemaWrite SemaRead Effect Work :=
  ⟨work, (E.decide_next_step engines work).1, (E.decide_next_step engines work).2⟩

/-- Decision `k` of the loop without a budget, counted from zero; `none` once
an earlier decision replied. -/
def decision : S → Work → Nat → Option (Decision S Reply SemaWrite SemaRead Effect Work)
  | engines, work, 0 => some (decideNow E engines work)
  | engines, work, k + 1 =>
    (dispatch E (decideNow E engines work).engines (decideNow E engines work).step).bind fun next =>
      decision next.2 next.1 k

/-- The calls of the first `k` decisions, each dispatched. -/
def callsBefore (engines : S) (work : Work) (k : Nat) : List (EngineCall SemaWrite SemaRead Effect Work) :=
  (List.range k).flatMap fun i => ((decision E engines work i).map Decision.calls).getD []

/-! ## One turn of the loop -/

theorem drive_loop_reply {budget : ContinuationBudget} {engines : S} {work : Work} {reply : Reply}
    (h : (decideNow E engines work).step = .Reply reply) :
    drive_loop E budget engines work =
      ⟨reply, (decideNow E engines work).engines, budget.completed_step_count, [.decide_next_step work]⟩ := by
  rw [drive_loop]
  simp only [decideNow] at h ⊢
  split <;> simp_all

theorem drive_loop_spend {budget budget' : ContinuationBudget} {engines : S} {work : Work} {next : Work × S}
    (h : dispatch E (decideNow E engines work).engines (decideNow E engines work).step = some next)
    (hb : budget.spend_next_step = .ok budget') :
    drive_loop E budget engines work =
      (drive_loop E budget' next.2 next.1).after (decideNow E engines work).calls := by
  rw [drive_loop]
  simp only [decideNow, Decision.calls] at h ⊢
  split <;> rename_i heq <;> simp only [heq, dispatch, Option.some.injEq, reduceCtorEq] at h <;>
    subst h <;> split <;> simp_all [planeCall]

theorem drive_loop_exhausted {budget : ContinuationBudget} {engines : S} {work : Work} {next : Work × S}
    {exhausted : ContinuationExhausted}
    (h : dispatch E (decideNow E engines work).engines (decideNow E engines work).step = some next)
    (hb : budget.spend_next_step = .error exhausted) :
    drive_loop E budget engines work =
      give_up E budget (decideNow E engines work).engines work exhausted := by
  rw [drive_loop]
  simp only [decideNow] at h ⊢
  split <;> rename_i heq <;> simp only [heq, dispatch, reduceCtorEq] at h <;> split <;> simp_all

theorem callsBefore_succ {engines : S} {work : Work} {next : Work × S} (k : Nat)
    (h : dispatch E (decideNow E engines work).engines (decideNow E engines work).step = some next) :
    callsBefore E engines work (k + 1) =
      (decideNow E engines work).calls ++ callsBefore E next.2 next.1 k := by
  simp [callsBefore, List.range_succ_eq_map, List.flatMap_map, decision, h]

theorem dispatch_eq_none {engines : S} {step : NextStep Reply SemaWrite SemaRead Effect Work} :
    dispatch E engines step = none ↔ ∃ reply, step = .Reply reply := by
  cases step <;> simp [dispatch]

/-! ## Whole drives -/

/-- A reply within the remaining budget is reached with every decision before
it dispatched. -/
theorem drive_loop_to_reply (k : Nat) (budget : ContinuationBudget) (engines : S) (work : Work)
    (d : Decision S Reply SemaWrite SemaRead Effect Work) (reply : Reply)
    (hk : budget.completed_step_count.toNat + k ≤ budget.limit.count.toNat)
    (hd : decision E engines work k = some d) (hr : d.step = .Reply reply) :
    ∃ completed, completed.toNat = budget.completed_step_count.toNat + k ∧
      drive_loop E budget engines work =
        ⟨reply, d.engines, completed, callsBefore E engines work k ++ [.decide_next_step d.work]⟩ := by
  induction k generalizing budget engines work with
  | zero =>
    simp only [decision, Option.some.injEq] at hd
    subst hd
    exact ⟨_, rfl, by rw [drive_loop_reply E hr]; simp [callsBefore, decideNow]⟩
  | succ k ih =>
    simp only [decision, Option.bind_eq_some_iff] at hd
    obtain ⟨next, hnext, hd⟩ := hd
    obtain ⟨budget', hb, hl, hc⟩ := ContinuationBudget.spend_ok (b := budget) (by omega)
    obtain ⟨completed, hcount, hrest⟩ := ih budget' next.2 next.1 (by rw [hl, hc]; omega) hd
    refine ⟨completed, by omega, ?_⟩
    rw [drive_loop_spend E hnext hb, hrest, callsBefore_succ E k hnext]
    simp [Driven.after]

/-- Without a reply in the remaining budget, the decision after the last
affordable one is dropped. -/
theorem drive_loop_to_exhaustion (k : Nat) (budget : ContinuationBudget) (engines : S) (work : Work)
    (hk : budget.completed_step_count.toNat + k = budget.limit.count.toNat)
    (hno : ∀ i d reply, i ≤ k → decision E engines work i = some d → d.step ≠ .Reply reply) :
    ∃ d, decision E engines work k = some d ∧
      drive_loop E budget engines work =
        (give_up E ⟨budget.limit, budget.limit.count⟩ d.engines d.work
          ⟨budget.limit, budget.limit.count, UInt32.saturating_add budget.limit.count 1⟩).after
          (callsBefore E engines work k) := by
  have hfirst : ∃ next,
      dispatch E (decideNow E engines work).engines (decideNow E engines work).step = some next := by
    rw [← Option.isSome_iff_exists, Option.isSome_iff_ne_none, ne_eq, dispatch_eq_none]
    rintro ⟨reply, hr⟩
    exact hno 0 _ reply (Nat.zero_le _) rfl hr
  obtain ⟨next, hnext⟩ := hfirst
  induction k generalizing budget engines work next with
  | zero =>
    have hcount : budget.completed_step_count = budget.limit.count := UInt32.toNat.inj (by omega)
    refine ⟨_, rfl, ?_⟩
    rw [drive_loop_exhausted E hnext (ContinuationBudget.spend_error (by omega)), hcount]
    simp [callsBefore, Driven.after, decideNow, give_up, hcount]
  | succ k ih =>
    obtain ⟨budget', hb, hl, hc⟩ := ContinuationBudget.spend_ok (b := budget) (by omega)
    have hno' : ∀ i d reply, i ≤ k → decision E next.2 next.1 i = some d → d.step ≠ .Reply reply := by
      intro i d reply hi hd
      exact hno (i + 1) d reply (by omega) (by simp [decision, hnext, hd])
    obtain ⟨next', hnext'⟩ : ∃ next', dispatch E (decideNow E next.2 next.1).engines
        (decideNow E next.2 next.1).step = some next' := by
      rw [← Option.isSome_iff_exists, Option.isSome_iff_ne_none, ne_eq, dispatch_eq_none]
      rintro ⟨reply, hr⟩
      exact hno' 0 _ reply (Nat.zero_le _) rfl hr
    obtain ⟨d, hd, hrest⟩ := ih budget' next.2 next.1 (by rw [hl, hc]; omega) hno' next' hnext'
    refine ⟨d, by simp [decision, hnext, hd], ?_⟩
    rw [drive_loop_spend E hnext hb, hrest, hl, callsBefore_succ E k hnext]
    simp [Driven.after]

/-! ## What was called -/

theorem countP_decide_planeCall (step : NextStep Reply SemaWrite SemaRead Effect Work) :
    (planeCall step).countP EngineCall.isDecide = 0 := by
  cases step <;> rfl

theorem countP_exhausted_planeCall (step : NextStep Reply SemaWrite SemaRead Effect Work) :
    (planeCall step).countP EngineCall.isExhausted = 0 := by
  cases step <;> rfl

/-- Before decision `k`, the engine decided `k` times and gave up never. -/
theorem callsBefore_counts (k : Nat) (engines : S) (work : Work)
    (d : Decision S Reply SemaWrite SemaRead Effect Work) (hd : decision E engines work k = some d) :
    (callsBefore E engines work k).countP EngineCall.isDecide = k ∧
      (callsBefore E engines work k).countP EngineCall.isExhausted = 0 := by
  induction k generalizing engines work with
  | zero => simp [callsBefore]
  | succ k ih =>
    simp only [decision, Option.bind_eq_some_iff] at hd
    obtain ⟨next, hnext, hd⟩ := hd
    obtain ⟨h1, h2⟩ := ih next.2 next.1 hd
    rw [callsBefore_succ E k hnext]
    simp only [Decision.calls, List.countP_append, List.countP_cons, countP_decide_planeCall,
      countP_exhausted_planeCall, h1, h2, EngineCall.isDecide, EngineCall.isExhausted]
    exact ⟨by simp; omega, by simp⟩

/-- `out` is the unbounded loop cut off at `limit`. If decision `k` (from zero,
`k ≤ limit`) replies, that is the reply, after `k` spent steps and with every
decision before it dispatched. Otherwise the engine decides `limit + 1` times,
the first `limit` decisions are dispatched, the last is dropped, and the
exhaustion reply is asked for once. -/
def CutOff (engines : S) (first_work : Work) (limit : UInt32)
    (out : Driven S Reply SemaWrite SemaRead Effect Work) : Prop :=
  let exhausted : ContinuationExhausted := ⟨⟨limit⟩, limit, UInt32.saturating_add limit 1⟩
  (∀ k d reply, k ≤ limit.toNat → decision E engines first_work k = some d → d.step = .Reply reply →
    out.reply = reply ∧ out.engines = d.engines ∧ out.completed_step_count.toNat = k ∧
    out.calls = callsBefore E engines first_work k ++ [.decide_next_step d.work] ∧
    out.calls.countP EngineCall.isDecide = k + 1 ∧ out.calls.countP EngineCall.isExhausted = 0) ∧
  ((∀ k d reply, k ≤ limit.toNat → decision E engines first_work k = some d → d.step ≠ .Reply reply) →
    ∃ d, decision E engines first_work limit.toNat = some d ∧
      (out.reply, out.engines) = E.budget_exhausted_reply d.engines exhausted ∧
      out.completed_step_count = limit ∧
      exhausted.attempted_step_count.toNat = min (limit.toNat + 1) (2 ^ 32 - 1) ∧
      out.calls = callsBefore E engines first_work limit.toNat ++
        [.decide_next_step d.work, .budget_exhausted_reply exhausted] ∧
      out.calls.countP EngineCall.isDecide = limit.toNat + 1 ∧
      out.calls.countP EngineCall.isExhausted = 1)

/-- For every engine, every state it starts in and every limit. -/
theorem drive_agrees (engines : S) (first_work : Work) (limit : UInt32) :
    CutOff E engines first_work limit (Runner.drive E ⟨⟨limit⟩⟩ engines first_work) := by
  let out := Runner.drive E ⟨⟨limit⟩⟩ engines first_work
  let exhausted : ContinuationExhausted := ⟨⟨limit⟩, limit, UInt32.saturating_add limit 1⟩
  have hzero : (ContinuationLimit.budget ⟨limit⟩).completed_step_count.toNat = 0 := rfl
  constructor
  · intro k d reply hk hd hr
    obtain ⟨completed, hc, hout⟩ := drive_loop_to_reply E k (ContinuationLimit.budget ⟨limit⟩) engines first_work
      d reply (by rw [hzero]; simpa [ContinuationLimit.budget] using hk) hd hr
    obtain ⟨h1, h2⟩ := callsBefore_counts E k engines first_work d hd
    rw [hzero, Nat.zero_add] at hc
    have hcalls : out.calls = callsBefore E engines first_work k ++ [.decide_next_step d.work] :=
      congrArg Driven.calls hout
    refine ⟨congrArg Driven.reply hout, congrArg Driven.engines hout, ?_, hcalls, ?_, ?_⟩
    · rw [← hc]; exact congrArg (fun o => o.completed_step_count.toNat) hout
    · rw [hcalls, List.countP_append, h1]; rfl
    · rw [hcalls, List.countP_append, h2]; rfl
  · intro hno
    obtain ⟨d, hd, hout⟩ := drive_loop_to_exhaustion E limit.toNat (ContinuationLimit.budget ⟨limit⟩) engines
      first_work (by rw [hzero]; simp [ContinuationLimit.budget]) (fun i d reply hi => hno i d reply hi)
    obtain ⟨h1, h2⟩ := callsBefore_counts E limit.toNat engines first_work d hd
    have hcalls : out.calls = callsBefore E engines first_work limit.toNat ++
        [.decide_next_step d.work, .budget_exhausted_reply exhausted] :=
      congrArg Driven.calls hout
    refine ⟨d, hd, ?_, congrArg Driven.completed_step_count hout, UInt32.saturating_add_toNat _ _, hcalls, ?_, ?_⟩
    · exact congrArg (fun o => (o.reply, o.engines)) hout
    · rw [hcalls, List.countP_append, h1]; rfl
    · rw [hcalls, List.countP_append, h2]; rfl

end Runner

end TriadRuntime
