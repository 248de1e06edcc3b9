import Mathlib.Data.List.Chain
import Mathlib.Data.List.Forall2
import TriadRuntime.Runner
/-!
# The reaction frame (`reaction.rs`, `role.rs`)

`Work` and `Action` are the enums that a component binds to its own payloads,
and `NextStep` is what the runner reads. A component decides in `Action`s, which
are converted at the seam, or in an action type of its own with
`into_next_step`; what `drive` makes of the two is compared by a simulation
between their engines. The derives of the enums are left out.
-/

open Systems

namespace TriadRuntime

/-- The work a component is handed. -/
inductive Work (Event Write Read Effect : Type) where
  | SignalArrived (event : Event)
  | SemaWriteCompleted (write : Write)
  | SemaReadCompleted (read : Read)
  | EffectCompleted (effect : Effect)
deriving DecidableEq, Repr

/-- What it decides. -/
inductive Action (Reply Write Read Effect Continuation : Type) where
  | ReplyToSignal (reply : Reply)
  | CommandSemaWrite (write : Write)
  | CommandSemaRead (read : Read)
  | CommandEffect (effect : Effect)
  | Continue (work : Continuation)
deriving DecidableEq, Repr

/-- `From<Action> for NextStep`. -/
def Action.into {Reply Write Read Effect Continuation : Type} :
    Action Reply Write Read Effect Continuation → NextStep Reply Write Read Effect Continuation
  | .ReplyToSignal reply => .Reply reply
  | .CommandSemaWrite write => .SemaWrite write
  | .CommandSemaRead read => .SemaRead read
  | .CommandEffect effect => .RunEffect effect
  | .Continue work => .Continue work

/-- The two enums have the same five legs. -/
theorem Action.into_bijective {Reply Write Read Effect Continuation : Type} :
    Function.Bijective fun action : Action Reply Write Read Effect Continuation => action.into := by
  constructor
  · intro a b h
    cases a <;> cases b <;> cases h <;> rfl
  · intro step
    cases step with
    | Reply reply => exact ⟨.ReplyToSignal reply, rfl⟩
    | SemaWrite write => exact ⟨.CommandSemaWrite write, rfl⟩
    | SemaRead read => exact ⟨.CommandSemaRead read, rfl⟩
    | RunEffect effect => exact ⟨.CommandEffect effect, rfl⟩
    | Continue work => exact ⟨.Continue work, rfl⟩

/-- The trait `NexusAction`, for an action type `Own`. -/
structure NexusAction (Own Reply SemaWrite SemaRead Effect Work : Type) where
  into_next_step : Own → NextStep Reply SemaWrite SemaRead Effect Work

variable {S Reply SemaWrite SemaRead Effect Work S' Reply' SemaWrite' SemaRead' Effect' Work' : Type}

/-! ## Components with related engines -/

/-- Which payloads of two components go together. -/
structure Payloads (Reply SemaWrite SemaRead Effect Work Reply' SemaWrite' SemaRead' Effect' Work' : Type) where
  reply : Reply → Reply' → Prop
  write : SemaWrite → SemaWrite' → Prop
  read : SemaRead → SemaRead' → Prop
  effect : Effect → Effect' → Prop
  work : Work → Work' → Prop

/-- The same decision about payloads that go together. -/
inductive NextStep.Related
    (P : Payloads Reply SemaWrite SemaRead Effect Work Reply' SemaWrite' SemaRead' Effect' Work') :
    NextStep Reply SemaWrite SemaRead Effect Work → NextStep Reply' SemaWrite' SemaRead' Effect' Work' → Prop
  | Reply {reply reply'} : P.reply reply reply' → Related P (.Reply reply) (.Reply reply')
  | SemaWrite {write write'} : P.write write write' → Related P (.SemaWrite write) (.SemaWrite write')
  | SemaRead {read read'} : P.read read read' → Related P (.SemaRead read) (.SemaRead read')
  | RunEffect {effect effect'} : P.effect effect effect' → Related P (.RunEffect effect) (.RunEffect effect')
  | Continue {work work'} : P.work work work' → Related P (.Continue work) (.Continue work')

/-- The same call with payloads that go together. -/
inductive EngineCall.Related
    (P : Payloads Reply SemaWrite SemaRead Effect Work Reply' SemaWrite' SemaRead' Effect' Work') :
    EngineCall SemaWrite SemaRead Effect Work → EngineCall SemaWrite' SemaRead' Effect' Work' → Prop
  | decide {work work'} : P.work work work' → Related P (.decide_next_step work) (.decide_next_step work')
  | write {write write'} : P.write write write' → Related P (.apply_sema_write write) (.apply_sema_write write')
  | read {read read'} : P.read read read' → Related P (.observe_sema_read read) (.observe_sema_read read')
  | effect {effect effect'} : P.effect effect effect' → Related P (.run_effect effect) (.run_effect effect')
  | exhausted (exhausted) : Related P (.budget_exhausted_reply exhausted) (.budget_exhausted_reply exhausted)

/-- Call by call the engines of two components do the same, as far as the
payloads and `R`, a relation of their states, tell. -/
structure Simulates (P : Payloads Reply SemaWrite SemaRead Effect Work Reply' SemaWrite' SemaRead' Effect' Work')
    (R : S → S' → Prop) (E : RunnerEngines S Reply SemaWrite SemaRead Effect Work)
    (F : RunnerEngines S' Reply' SemaWrite' SemaRead' Effect' Work') : Prop where
  decide : ∀ s s' work work', R s s' → P.work work work' →
    NextStep.Related P (E.decide_next_step s work).1 (F.decide_next_step s' work').1 ∧
      R (E.decide_next_step s work).2 (F.decide_next_step s' work').2
  write : ∀ s s' write write', R s s' → P.write write write' →
    P.work (E.apply_sema_write s write).1 (F.apply_sema_write s' write').1 ∧
      R (E.apply_sema_write s write).2 (F.apply_sema_write s' write').2
  read : ∀ s s' read read', R s s' → P.read read read' →
    P.work (E.observe_sema_read s read).1 (F.observe_sema_read s' read').1 ∧
      R (E.observe_sema_read s read).2 (F.observe_sema_read s' read').2
  effect : ∀ s s' effect effect', R s s' → P.effect effect effect' →
    P.work (E.run_effect s effect).1 (F.run_effect s' effect').1 ∧
      R (E.run_effect s effect).2 (F.run_effect s' effect').2
  exhausted : ∀ s s' exhausted, R s s' →
    P.reply (E.budget_exhausted_reply s exhausted).1 (F.budget_exhausted_reply s' exhausted).1 ∧
      R (E.budget_exhausted_reply s exhausted).2 (F.budget_exhausted_reply s' exhausted).2

namespace Runner

variable {P : Payloads Reply SemaWrite SemaRead Effect Work Reply' SemaWrite' SemaRead' Effect' Work'}
  {R : S → S' → Prop} {E : RunnerEngines S Reply SemaWrite SemaRead Effect Work}
  {F : RunnerEngines S' Reply' SemaWrite' SemaRead' Effect' Work'}

/-- How two drives that go together end. -/
structure RelatedDrives (P : Payloads Reply SemaWrite SemaRead Effect Work Reply' SemaWrite' SemaRead' Effect' Work')
    (R : S → S' → Prop) (out : Driven S Reply SemaWrite SemaRead Effect Work)
    (out' : Driven S' Reply' SemaWrite' SemaRead' Effect' Work') : Prop where
  reply : P.reply out.reply out'.reply
  engines : R out.engines out'.engines
  completed : out.completed_step_count = out'.completed_step_count
  calls : List.Forall₂ (EngineCall.Related P) out.calls out'.calls

theorem RelatedDrives.after {out : Driven S Reply SemaWrite SemaRead Effect Work}
    {out' : Driven S' Reply' SemaWrite' SemaRead' Effect' Work'} (h : RelatedDrives P R out out')
    {calls : List (EngineCall SemaWrite SemaRead Effect Work)}
    {calls' : List (EngineCall SemaWrite' SemaRead' Effect' Work')}
    (hcalls : List.Forall₂ (EngineCall.Related P) calls calls') :
    RelatedDrives P R (out.after calls) (out'.after calls') :=
  ⟨h.reply, h.engines, h.completed, List.rel_append hcalls h.calls⟩

/-- Decisions that go together are dispatched to the same plane, or both reply. -/
theorem dispatch_related (hsim : Simulates P R E F) {s : S} {s' : S'} (hR : R s s')
    {step : NextStep Reply SemaWrite SemaRead Effect Work} {step' : NextStep Reply' SemaWrite' SemaRead' Effect' Work'}
    (h : NextStep.Related P step step') :
    (∃ reply reply', step = .Reply reply ∧ step' = .Reply reply' ∧ P.reply reply reply') ∨
      ∃ next next', dispatch E s step = some next ∧ dispatch F s' step' = some next' ∧ P.work next.1 next'.1 ∧
        R next.2 next'.2 ∧ List.Forall₂ (EngineCall.Related P) (planeCall step) (planeCall step') := by
  cases h with
  | Reply hr => exact .inl ⟨_, _, rfl, rfl, hr⟩
  | SemaWrite hw =>
    obtain ⟨hwork, hstate⟩ := hsim.write _ _ _ _ hR hw
    exact .inr ⟨_, _, rfl, rfl, hwork, hstate, .cons (.write hw) .nil⟩
  | SemaRead hr =>
    obtain ⟨hwork, hstate⟩ := hsim.read _ _ _ _ hR hr
    exact .inr ⟨_, _, rfl, rfl, hwork, hstate, .cons (.read hr) .nil⟩
  | RunEffect he =>
    obtain ⟨hwork, hstate⟩ := hsim.effect _ _ _ _ hR he
    exact .inr ⟨_, _, rfl, rfl, hwork, hstate, .cons (.effect he) .nil⟩
  | Continue hw => exact .inr ⟨_, _, rfl, rfl, hw, hR, .nil⟩

theorem drive_loop_related (hsim : Simulates P R E F) (n : Nat) (budget : ContinuationBudget) (s : S) (s' : S')
    (work : Work) (work' : Work') (hn : budget.remaining_step_count.toNat = n) (hR : R s s') (hW : P.work work work') :
    RelatedDrives P R (drive_loop E budget s work) (drive_loop F budget s' work') := by
  induction n using Nat.strongRecOn generalizing budget s s' work work' with
  | _ n ih =>
    obtain ⟨hstep, hstate⟩ := hsim.decide s s' work work' hR hW
    have hdecide := EngineCall.Related.decide (P := P) hW
    rcases dispatch_related hsim hstate hstep with ⟨reply, reply', hr, hr', hreply⟩ |
      ⟨next, next', hnext, hnext', hwork, hstate', hplane⟩
    · rw [drive_loop_reply E hr, drive_loop_reply F hr']
      exact ⟨hreply, hstate, rfl, .cons hdecide .nil⟩
    · cases hb : budget.spend_next_step with
      | error exhausted =>
        rw [drive_loop_exhausted E hnext hb, drive_loop_exhausted F hnext' hb]
        obtain ⟨hreply, hafter⟩ := hsim.exhausted _ _ exhausted hstate
        exact ⟨hreply, hafter, rfl, .cons hdecide (.cons (.exhausted exhausted) .nil)⟩
      | ok budget' =>
        rw [drive_loop_spend E hnext hb, drive_loop_spend F hnext' hb]
        have hless := ContinuationBudget.spend_decreases hb
        have hrest := ih _ (hn ▸ hless) budget' next.2 next'.2 next.1 next'.1 rfl hstate' hwork
        exact hrest.after (.cons hdecide hplane)

/-- Components whose engines do the same call by call are driven alike under
every limit: their replies go together, they spend the same number of steps and
get the same calls in the same order, also where the budget runs out. -/
theorem drive_simulates (hsim : Simulates P R E F) (runner : Runner) (s : S) (s' : S') (work : Work) (work' : Work')
    (hR : R s s') (hW : P.work work work') :
    P.reply (drive E runner s work).reply (drive F runner s' work').reply ∧
    R (drive E runner s work).engines (drive F runner s' work').engines ∧
    (drive E runner s work).completed_step_count = (drive F runner s' work').completed_step_count ∧
    List.Forall₂ (EngineCall.Related P) (drive E runner s work).calls (drive F runner s' work').calls := by
  have h := drive_loop_related hsim _ runner.continuation_limit.budget s s' work work' rfl hR hW
  exact ⟨h.reply, h.engines, h.completed, h.calls⟩

/-- A component that writes down what it is sent, `scale` times, and replies
with the sum. -/
def recorder (scale : Nat) : RunnerEngines Nat (Option Nat) Nat Unit Unit (TriadRuntime.Work Nat Unit Unit Unit) where
  decide_next_step
    | s, .SignalArrived n => (.SemaWrite n, s)
    | s, _ => (.Reply (some s), s)
  apply_sema_write s write := (.SemaWriteCompleted (), s + scale * write)
  observe_sema_read s _ := (.SemaReadCompleted (), s)
  run_effect s _ := (.EffectCompleted (), s)
  budget_exhausted_reply s _ := (none, s)

/-- The same work, and replies that are twice as large. -/
def doubled : Payloads (Option Nat) Nat Unit Unit (TriadRuntime.Work Nat Unit Unit Unit)
    (Option Nat) Nat Unit Unit (TriadRuntime.Work Nat Unit Unit Unit) :=
  ⟨fun r r' => r' = r.map (2 * ·), Eq, Eq, Eq, Eq⟩

theorem recorder_simulates : Simulates doubled (fun s s' => s' = 2 * s) (recorder 1) (recorder 2) := by
  constructor
  · rintro s _ work _ rfl rfl
    cases work with
    | SignalArrived n => exact ⟨.SemaWrite rfl, rfl⟩
    | _ => exact ⟨.Reply rfl, rfl⟩
  · rintro s _ write _ rfl rfl
    exact ⟨rfl, by simp only [recorder]; omega⟩
  · rintro s _ _ _ rfl rfl
    exact ⟨rfl, rfl⟩
  · rintro s _ _ _ rfl rfl
    exact ⟨rfl, rfl⟩
  · rintro s _ exhausted rfl
    exact ⟨rfl, rfl⟩

theorem drive_simulates_doubled :
    (drive (recorder 2) .default 0 (.SignalArrived 3)).reply =
      (drive (recorder 1) .default 0 (.SignalArrived 3)).reply.map (2 * ·) :=
  (drive_simulates recorder_simulates .default 0 0 (.SignalArrived 3) (.SignalArrived 3) rfl rfl).1

/-- `E` with decisions in a type of its own, converted as the runner reads them. -/
def deciding {Own : Type} (E : RunnerEngines S Reply SemaWrite SemaRead Effect Work)
    (into : Own → NextStep Reply SemaWrite SemaRead Effect Work) (decide : S → Work → Own × S) :
    RunnerEngines S Reply SemaWrite SemaRead Effect Work :=
  { E with decide_next_step := fun s work => (into (decide s work).1, (decide s work).2) }

/-- What a component decides in an action type of its own, it can decide in
`Action`s, and is driven as before. -/
theorem seam_drives_alike {Own : Type} (N : NexusAction Own Reply SemaWrite SemaRead Effect Work)
    (E : RunnerEngines S Reply SemaWrite SemaRead Effect Work) (decide : S → Work → Own × S) :
    ∃ action : Own → Action Reply SemaWrite SemaRead Effect Work, ∀ runner s work,
      drive (deciding E N.into_next_step decide) runner s work =
        drive (deciding E Action.into fun s work => (action (decide s work).1, (decide s work).2)) runner s work := by
  obtain ⟨back, hback⟩ := Action.into_bijective.2.hasRightInverse
  refine ⟨fun own => back (N.into_next_step own), fun runner s work => ?_⟩
  simp only [deciding]
  congr 1
  simp only [hback (N.into_next_step _)]

/-! ## Larger limits -/

section Limits
variable (E)

theorem callsBefore_snoc (s : S) (work : Work) (k : Nat) : callsBefore E s work (k + 1) =
    callsBefore E s work k ++ ((decision E s work k).map Decision.calls).getD [] := by
  simp [callsBefore, List.range_succ]

theorem callsBefore_mono (s : S) (work : Work) {k m : Nat} (h : k ≤ m) :
    callsBefore E s work k <+: callsBefore E s work m := by
  induction m, h using Nat.le_induction with
  | base => exact List.prefix_refl _
  | succ m _ ih =>
    rw [callsBefore_snoc]
    exact ih.trans (List.prefix_append _ _)

/-- A drive replies at one of the decisions its limit lets it reach, or none of
them replies and it gives up. -/
theorem drive_cases (limit : UInt32) (s : S) (work : Work) :
    (∃ k d reply completed, k ≤ limit.toNat ∧ decision E s work k = some d ∧ d.step = .Reply reply ∧
      completed.toNat = k ∧ drive E ⟨⟨limit⟩⟩ s work =
        ⟨reply, d.engines, completed, callsBefore E s work k ++ [.decide_next_step d.work]⟩) ∨
    (∀ k d reply, k ≤ limit.toNat → decision E s work k = some d → d.step ≠ .Reply reply) ∧
      ∃ d exhausted, decision E s work limit.toNat = some d ∧
        (drive E ⟨⟨limit⟩⟩ s work).completed_step_count = limit ∧
        (drive E ⟨⟨limit⟩⟩ s work).calls =
          callsBefore E s work limit.toNat ++ [.decide_next_step d.work, .budget_exhausted_reply exhausted] := by
  have hzero : (ContinuationLimit.budget ⟨limit⟩).completed_step_count.toNat = 0 := rfl
  by_cases h : ∃ k d reply, k ≤ limit.toNat ∧ decision E s work k = some d ∧ d.step = .Reply reply
  · obtain ⟨k, d, reply, hk, hd, hr⟩ := h
    obtain ⟨completed, hc, hout⟩ := drive_loop_to_reply E k (ContinuationLimit.budget ⟨limit⟩) s work d reply
      (by rw [hzero, Nat.zero_add]; exact hk) hd hr
    exact .inl ⟨k, d, reply, completed, hk, hd, hr, by omega, hout⟩
  · have hno : ∀ k d reply, k ≤ limit.toNat → decision E s work k = some d → d.step ≠ .Reply reply :=
      fun k d reply hk hd hr => h ⟨k, d, reply, hk, hd, hr⟩
    obtain ⟨d, hd, hout⟩ := drive_loop_to_exhaustion E limit.toNat (ContinuationLimit.budget ⟨limit⟩) s work
      (by rw [hzero]; simp [ContinuationLimit.budget]) hno
    exact .inr ⟨hno, d, _, hd, congrArg Driven.completed_step_count hout, congrArg Driven.calls hout⟩

/-- A drive that replies has not asked for the exhaustion reply. -/
theorem replied_not_exhausted {s : S} {work : Work} {k : Nat} {d : Decision S Reply SemaWrite SemaRead Effect Work}
    (hd : decision E s work k = some d) :
    (callsBefore E s work k ++ [EngineCall.decide_next_step d.work]).countP EngineCall.isExhausted = 0 := by
  rw [List.countP_append, (callsBefore_counts E k s work d hd).2]
  rfl

/-- Raising the limit changes nothing that was done. A drive that ends in a
reply is the same drive under every larger limit; a drive that gives up has
spent its limit, and the larger one makes the same calls up to the last decision
and goes on from there. -/
theorem larger_limit_goes_on (s : S) (work : Work) {small big : UInt32} (hle : small ≤ big) :
    ((drive E ⟨⟨small⟩⟩ s work).calls.countP EngineCall.isExhausted = 0 →
      drive E ⟨⟨big⟩⟩ s work = drive E ⟨⟨small⟩⟩ s work) ∧
    ((drive E ⟨⟨small⟩⟩ s work).calls.countP EngineCall.isExhausted ≠ 0 →
      (drive E ⟨⟨small⟩⟩ s work).completed_step_count = small ∧
      small ≤ (drive E ⟨⟨big⟩⟩ s work).completed_step_count ∧
      (drive E ⟨⟨small⟩⟩ s work).calls.dropLast <+: (drive E ⟨⟨big⟩⟩ s work).calls) := by
  rw [UInt32.le_iff_toNat_le] at hle
  rcases drive_cases E small s work with ⟨k, d, reply, completed, hk, hd, hr, hc, hsmall⟩ |
    ⟨hno, d, exhausted, hd, hcount, hcalls⟩
  · refine ⟨fun _ => ?_, fun hex => ?_⟩
    · -- The larger limit reaches the same decision.
      obtain ⟨completed', hc', hbig⟩ := drive_loop_to_reply E k (ContinuationLimit.budget ⟨big⟩) s work d reply
        (by change 0 + k ≤ big.toNat; omega) hd hr
      have hsame : completed' = completed := UInt32.toNat.inj (by rw [hc, hc']; exact Nat.zero_add k)
      rw [hsmall, ← hsame]
      exact hbig
    · rw [hsmall, replied_not_exhausted E hd] at hex
      exact absurd rfl hex
  · have hone : (drive E ⟨⟨small⟩⟩ s work).calls.countP EngineCall.isExhausted ≠ 0 := by
      rw [hcalls, List.countP_append]
      simp
    refine ⟨fun hex => absurd hex hone, fun _ => ⟨hcount, ?_, ?_⟩⟩
    · rw [UInt32.le_iff_toNat_le]
      rcases drive_cases E big s work with ⟨k, d', reply, completed, hk, hd', hr, hc, hbig⟩ |
        ⟨-, d', -, -, hcount', -⟩
      · rw [hbig, hc]
        exact Nat.le_of_lt (Nat.lt_of_not_le fun hle => hno k d' reply hle hd' hr)
      · rw [hcount']
        exact hle
    · -- The decision that was dropped is made again, and then dispatched.
      have hdrop : (drive E ⟨⟨small⟩⟩ s work).calls.dropLast =
          callsBefore E s work small.toNat ++ [.decide_next_step d.work] := by
        rw [hcalls]
        simp [List.dropLast_append_of_ne_nil]
      have hnext : (drive E ⟨⟨small⟩⟩ s work).calls.dropLast <+: callsBefore E s work (small.toNat + 1) := by
        rw [hdrop, callsBefore_snoc, hd]
        exact List.prefix_append_right_inj _ |>.2 (List.cons_prefix_cons.2 ⟨rfl, List.nil_prefix⟩)
      rcases drive_cases E big s work with ⟨k, d', reply, completed, hk, hd', hr, hc, hbig⟩ |
        ⟨-, d', exhausted', hd', -, hcalls'⟩
      · have hlt : small.toNat < k := Nat.lt_of_not_le fun hle => hno k d' reply hle hd' hr
        rw [hbig]
        exact hnext.trans ((callsBefore_mono E s work hlt).trans (List.prefix_append _ _))
      · rw [hcalls']
        rcases Nat.lt_or_eq_of_le hle with hlt | heq
        · exact hnext.trans ((callsBefore_mono E s work hlt).trans (List.prefix_append _ _))
        · rw [← heq, hd] at hd'
          cases hd'
          rw [hdrop, ← heq]
          exact List.prefix_append_right_inj _ |>.2 (List.cons_prefix_cons.2 ⟨rfl, List.nil_prefix⟩)

end Limits

theorem recorder_replies :
    (drive (recorder 1) ⟨⟨1⟩⟩ 0 (.SignalArrived 3)).calls.countP EngineCall.isExhausted = 0 := by
  have hspend : (ContinuationLimit.budget ⟨1⟩).spend_next_step = .ok ⟨⟨1⟩, 1⟩ := rfl
  rw [drive, drive_loop_spend (recorder 1) rfl hspend, drive_loop_reply (recorder 1) rfl]
  rfl

theorem recorder_gives_up :
    (drive (recorder 1) ⟨⟨0⟩⟩ 0 (.SignalArrived 3)).calls.countP EngineCall.isExhausted ≠ 0 := by
  have hspend : (ContinuationLimit.budget ⟨0⟩).spend_next_step = .error ⟨⟨0⟩, 0, 1⟩ := rfl
  rw [drive, drive_loop_exhausted (recorder 1) rfl hspend]
  decide

theorem larger_limit_goes_on_recorder :
    drive (recorder 1) ⟨⟨2⟩⟩ 0 (.SignalArrived 3) = drive (recorder 1) ⟨⟨1⟩⟩ 0 (.SignalArrived 3) ∧
      (drive (recorder 1) ⟨⟨0⟩⟩ 0 (.SignalArrived 3)).calls.dropLast <+:
        (drive (recorder 1) ⟨⟨1⟩⟩ 0 (.SignalArrived 3)).calls :=
  ⟨(larger_limit_goes_on (recorder 1) 0 (.SignalArrived 3) (by decide)).1 recorder_replies,
    ((larger_limit_goes_on (recorder 1) 0 (.SignalArrived 3) (by decide)).2 recorder_gives_up).2.2⟩

end Runner

/-! ## Commands and completions -/

/-- The legs a command can take. -/
inductive Leg where
  | write
  | read
  | effect
deriving DecidableEq, Repr

section Completions

variable {Event Written Seen Effected : Type}

/-- The leg of a completion; a signal is none. -/
def Work.leg : TriadRuntime.Work Event Written Seen Effected → Option Leg
  | .SignalArrived _ => none
  | .SemaWriteCompleted _ => some .write
  | .SemaReadCompleted _ => some .read
  | .EffectCompleted _ => some .effect

namespace EngineCall

/-- The leg a call commands. -/
def commands : EngineCall SemaWrite SemaRead Effect (TriadRuntime.Work Event Written Seen Effected) → Option Leg
  | .apply_sema_write _ => some .write
  | .observe_sema_read _ => some .read
  | .run_effect _ => some .effect
  | _ => none

/-- The leg whose completion a call decides on. -/
def completes : EngineCall SemaWrite SemaRead Effect (TriadRuntime.Work Event Written Seen Effected) → Option Leg
  | .decide_next_step work => work.leg
  | _ => none

/-- After a command comes the decision on its completion, and nothing comes
after the exhaustion reply. -/
def Answered (call next : EngineCall SemaWrite SemaRead Effect (TriadRuntime.Work Event Written Seen Effected)) :
    Prop :=
  (∀ leg, call.commands = some leg → next.completes = some leg) ∧ call.isExhausted = false

/-- A decision commands nothing yet. -/
theorem answered_decide (work : TriadRuntime.Work Event Written Seen Effected)
    (next : EngineCall SemaWrite SemaRead Effect (TriadRuntime.Work Event Written Seen Effected)) :
    Answered (.decide_next_step work) next := by
  refine ⟨fun leg h => ?_, rfl⟩
  cases h

theorem chain_decide (work : TriadRuntime.Work Event Written Seen Effected)
    {rest : List (EngineCall SemaWrite SemaRead Effect (TriadRuntime.Work Event Written Seen Effected))}
    (h : rest.IsChain Answered) : (EngineCall.decide_next_step work :: rest).IsChain Answered :=
  List.isChain_cons.2 ⟨fun call _ => answered_decide work call, h⟩

/-- The calls that command a leg, and those that decide on its completions. -/
def commanded (leg : Leg)
    (calls : List (EngineCall SemaWrite SemaRead Effect (TriadRuntime.Work Event Written Seen Effected))) : Nat :=
  calls.countP fun call => call.commands = some leg

def completed (leg : Leg)
    (calls : List (EngineCall SemaWrite SemaRead Effect (TriadRuntime.Work Event Written Seen Effected))) : Nat :=
  calls.countP fun call => call.completes = some leg

theorem commanded_cons (leg : Leg)
    (call : EngineCall SemaWrite SemaRead Effect (TriadRuntime.Work Event Written Seen Effected)) (calls) :
    commanded leg (call :: calls) = commanded leg calls + if call.commands = some leg then 1 else 0 := by
  simp only [commanded, List.countP_cons, decide_eq_true_eq]

theorem completed_cons (leg : Leg)
    (call : EngineCall SemaWrite SemaRead Effect (TriadRuntime.Work Event Written Seen Effected)) (calls) :
    completed leg (call :: calls) = completed leg calls + if call.completes = some leg then 1 else 0 := by
  simp only [completed, List.countP_cons, decide_eq_true_eq]

/-- A decision is on a completion of the leg of its work. -/
theorem counts_decide (leg : Leg) (work : TriadRuntime.Work Event Written Seen Effected)
    (calls : List (EngineCall SemaWrite SemaRead Effect (TriadRuntime.Work Event Written Seen Effected))) :
    commanded leg (.decide_next_step work :: calls) = commanded leg calls ∧
      completed leg (.decide_next_step work :: calls) = completed leg calls + if work.leg = some leg then 1 else 0 := by
  rw [commanded_cons, completed_cons]
  exact ⟨rfl, rfl⟩

end EngineCall

/-- A component over the reaction frame: each plane returns its own completion. -/
structure Completes
    (E : RunnerEngines S Reply SemaWrite SemaRead Effect (TriadRuntime.Work Event Written Seen Effected)) : Prop where
  write : ∀ s write, (E.apply_sema_write s write).1.leg = some .write
  read : ∀ s read, (E.observe_sema_read s read).1.leg = some .read
  effect : ∀ s effect, (E.run_effect s effect).1.leg = some .effect

/-- It makes no completion up: it goes on with signals only. -/
def ContinuesWithSignals
    (E : RunnerEngines S Reply SemaWrite SemaRead Effect (TriadRuntime.Work Event Written Seen Effected)) : Prop :=
  ∀ s work next, (E.decide_next_step s work).1 = .Continue next → next.leg = none

namespace Runner

variable {E : RunnerEngines S Reply SemaWrite SemaRead Effect (TriadRuntime.Work Event Written Seen Effected)}

/-- The calls of a drive that begins with `work`. -/
structure Reacts (E : RunnerEngines S Reply SemaWrite SemaRead Effect (TriadRuntime.Work Event Written Seen Effected))
    (work : TriadRuntime.Work Event Written Seen Effected)
    (calls : List (EngineCall SemaWrite SemaRead Effect (TriadRuntime.Work Event Written Seen Effected))) : Prop where
  first : calls.head? = some (.decide_next_step work)
  chain : calls.IsChain EngineCall.Answered
  last : ∀ call, calls.getLast? = some call → call.commands = none
  balanced : ContinuesWithSignals E → ∀ leg, EngineCall.completed leg calls =
    EngineCall.commanded leg calls + if work.leg = some leg then 1 else 0

/-- What comes between a decision and the next one: nothing, or the one command
that the next decision is the answer to. -/
def Between (E : RunnerEngines S Reply SemaWrite SemaRead Effect (TriadRuntime.Work Event Written Seen Effected))
    (plane : List (EngineCall SemaWrite SemaRead Effect (TriadRuntime.Work Event Written Seen Effected)))
    (next : TriadRuntime.Work Event Written Seen Effected) : Prop :=
  (plane = [] ∧ (ContinuesWithSignals E → next.leg = none)) ∨
    ∃ call leg, plane = [call] ∧ call.commands = some leg ∧ next.leg = some leg ∧ call.completes = none ∧
      call.isExhausted = false

theorem dispatch_between (hE : Completes E) {s : S} {work : TriadRuntime.Work Event Written Seen Effected}
    {next : TriadRuntime.Work Event Written Seen Effected × S}
    (h : dispatch E (decideNow E s work).engines (decideNow E s work).step = some next) :
    Between E (planeCall (decideNow E s work).step) next.1 := by
  cases hstep : (decideNow E s work).step with
  | Reply reply => rw [hstep] at h; cases h
  | SemaWrite write =>
    rw [hstep] at h
    cases h
    exact .inr ⟨_, _, rfl, rfl, hE.write _ write, rfl, rfl⟩
  | SemaRead read =>
    rw [hstep] at h
    cases h
    exact .inr ⟨_, _, rfl, rfl, hE.read _ read, rfl, rfl⟩
  | RunEffect effect =>
    rw [hstep] at h
    cases h
    exact .inr ⟨_, _, rfl, rfl, hE.effect _ effect, rfl, rfl⟩
  | Continue further =>
    rw [hstep] at h
    cases h
    exact .inl ⟨rfl, fun hc => hc s work further hstep⟩

/-- One turn more in front. -/
theorem Reacts.after {work next : TriadRuntime.Work Event Written Seen Effected}
    {calls plane : List (EngineCall SemaWrite SemaRead Effect (TriadRuntime.Work Event Written Seen Effected))}
    (h : Reacts E next calls) (hplane : Between E plane next) :
    Reacts E work (.decide_next_step work :: plane ++ calls) := by
  have hne : calls ≠ [] := by
    intro hnil
    have := h.first
    rw [hnil] at this
    cases this
  have hlast : ∀ call, (EngineCall.decide_next_step work :: plane ++ calls).getLast? = some call →
      call.commands = none := by
    rw [List.getLast?_append_of_ne_nil _ hne]
    exact h.last
  rcases hplane with ⟨rfl, hnext⟩ | ⟨call, leg, rfl, hcommands, hleg, hcompletes, hex⟩
  · refine ⟨rfl, EngineCall.chain_decide work h.chain, hlast, fun hc leg => ?_⟩
    have hrest := h.balanced hc leg
    obtain ⟨h1, h2⟩ := EngineCall.counts_decide leg work calls
    rw [hnext hc] at hrest
    change EngineCall.completed leg (.decide_next_step work :: calls) =
      EngineCall.commanded leg (.decide_next_step work :: calls) + _
    rw [h1, h2, hrest]
    rfl
  · refine ⟨rfl, EngineCall.chain_decide work ?_, hlast, fun hc l => ?_⟩
    · refine List.isChain_cons.2 ⟨fun x hx => ⟨fun l hl => ?_, hex⟩, h.chain⟩
      -- What follows the command decides on the work it came back with.
      change x ∈ calls.head? at hx
      rw [h.first] at hx
      cases hx
      rw [hcommands] at hl
      exact hleg.trans hl
    · have hrest := h.balanced hc l
      obtain ⟨h1, h2⟩ := EngineCall.counts_decide l work (call :: calls)
      change EngineCall.completed l (.decide_next_step work :: call :: calls) =
        EngineCall.commanded l (.decide_next_step work :: call :: calls) + _
      rw [h1, h2, EngineCall.commanded_cons, EngineCall.completed_cons, hcommands, hcompletes, hrest, hleg]
      rfl

/-- A drive that ends with this decision. -/
theorem Reacts.ends (work : TriadRuntime.Work Event Written Seen Effected)
    {rest : List (EngineCall SemaWrite SemaRead Effect (TriadRuntime.Work Event Written Seen Effected))}
    (h : rest = [] ∨ ∃ exhausted, rest = [.budget_exhausted_reply exhausted]) :
    Reacts E work (.decide_next_step work :: rest) := by
  rcases h with rfl | ⟨exhausted, rfl⟩
  · refine ⟨rfl, .singleton _, fun call hc => ?_, fun _ leg => ?_⟩
    · cases hc
      rfl
    · obtain ⟨h1, h2⟩ := EngineCall.counts_decide leg work
        ([] : List (EngineCall SemaWrite SemaRead Effect (TriadRuntime.Work Event Written Seen Effected)))
      rw [h1, h2]
      rfl
  · refine ⟨rfl, EngineCall.chain_decide work (.singleton _), fun call hc => ?_,
      fun _ leg => ?_⟩
    · cases hc
      rfl
    · obtain ⟨h1, h2⟩ := EngineCall.counts_decide leg work
        ([.budget_exhausted_reply exhausted] :
          List (EngineCall SemaWrite SemaRead Effect (TriadRuntime.Work Event Written Seen Effected)))
      rw [h1, h2]
      rfl

theorem drive_loop_reacts (hE : Completes E) (n : Nat) (budget : ContinuationBudget) (s : S)
    (work : TriadRuntime.Work Event Written Seen Effected) (hn : budget.remaining_step_count.toNat = n) :
    Reacts E work (drive_loop E budget s work).calls := by
  induction n using Nat.strongRecOn generalizing budget s work with
  | _ n ih =>
    cases hnext : dispatch E (decideNow E s work).engines (decideNow E s work).step with
    | none =>
      obtain ⟨reply, hr⟩ := (dispatch_eq_none E).1 hnext
      rw [drive_loop_reply E hr]
      exact .ends work (.inl rfl)
    | some next =>
      cases hb : budget.spend_next_step with
      | error exhausted =>
        rw [drive_loop_exhausted E hnext hb]
        exact .ends work (.inr ⟨exhausted, rfl⟩)
      | ok budget' =>
        rw [drive_loop_spend E hnext hb]
        have hrest := ih _ (hn ▸ ContinuationBudget.spend_decreases hb) budget' next.2 next.1 rfl
        exact hrest.after (dispatch_between hE hnext)

/-- Whatever the limit, a component over the reaction frame is called in turns:
first it decides on the work it was given, and after every command it decides on
the completion of that command before anything else, so no drive ends on a
command that nobody hears of. If it goes on with signals only, a drive that
begins with a signal decides on as many completions as it gave commands, leg by
leg. -/
theorem drive_reacts (hE : Completes E) (runner : Runner) (s : S)
    (work : TriadRuntime.Work Event Written Seen Effected) :
    let calls := (drive E runner s work).calls
    calls.head? = some (.decide_next_step work) ∧ calls.IsChain EngineCall.Answered ∧
    (∀ call, calls.getLast? = some call → call.commands = none) ∧
    (ContinuesWithSignals E → ∀ leg, EngineCall.completed leg calls =
      EngineCall.commanded leg calls + if work.leg = some leg then 1 else 0) := by
  have h := drive_loop_reacts hE _ runner.continuation_limit.budget s work rfl
  exact ⟨h.first, h.chain, h.last, h.balanced⟩

theorem recorder_completes (scale : Nat) : Completes (recorder scale) :=
  ⟨fun _ _ => rfl, fun _ _ => rfl, fun _ _ => rfl⟩

theorem drive_reacts_recorder :
    (drive (recorder 1) .default 0 (.SignalArrived 3)).calls.IsChain EngineCall.Answered :=
  (drive_reacts (recorder_completes 1) .default 0 (.SignalArrived 3)).2.1

end Runner

end Completions

end TriadRuntime
