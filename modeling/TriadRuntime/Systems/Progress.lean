import Mathlib.Algebra.Ring.Nat
import TriadRuntime.Systems.Runs
import TriadRuntime.Systems.Tables
/-!
# Progress of step functions

A potential that every step lowers, but for what its label brings in, bounds a
run by what was brought in. The labels that bring in nothing are the machine's
own: left to itself a machine comes to rest, in a state where none of them can
be taken.
-/

namespace Systems

variable {S L : Type*} (step : S → L → Option S)

/-- None of the labels `own` can be taken. -/
def AtRest (own : L → Prop) (s : S) : Prop := ∀ l, own l → step s l = none

variable {step}

/-- A run is no longer than what it started with and what was brought in. -/
theorem exec_length_le (potential : S → Nat) (brings : L → Nat) (I : S → Prop)
    (hI : ∀ s l t, I s → step s l = some t → I t)
    (hstep : ∀ s l t, I s → step s l = some t → potential t + 1 ≤ potential s + brings l) {s t : S} {ls : List L}
    (h : exec step s ls = some t) (hi : I s) : ls.length + potential t ≤ potential s + (ls.map brings).sum := by
  induction ls generalizing s with
  | nil => cases h; simp
  | cons l ls ih =>
    obtain ⟨v, hv, hrest⟩ := exec_cons.1 h
    have hmore := ih hrest (hI s l v hi hv)
    have hfirst := hstep s l v hi hv
    simp only [List.length_cons, List.map_cons, List.sum_cons]
    omega

/-- A potential that every guarded step lowers is used up by a long enough run. -/
theorem exec_potential_le {C : S → L → Prop} (potential : S → Nat) (I : S → Prop)
    (hI : ∀ s l t, I s → C s l → step s l = some t → I t)
    (hstep : ∀ s l t, I s → C s l → step s l = some t → potential t ≤ potential s - 1) {s t : S} {ls : List L}
    (hc : Along step C s ls) (h : exec step s ls = some t) (hi : I s) : potential t ≤ potential s - ls.length := by
  induction ls generalizing s with
  | nil => cases h; exact Nat.le_refl _
  | cons l ls ih =>
    obtain ⟨v, hv, hrest⟩ := exec_cons.1 h
    have hmore := ih (hc.2 v hv) hrest (hI s l v hi hc.1 hv)
    have hfirst := hstep s l v hi hc.1 hv
    rw [List.length_cons]
    omega

/-- Left to its own labels, a machine whose potential they lower comes to rest. -/
theorem comes_to_rest (potential : S → Nat) (own : L → Prop) (I : S → Prop)
    (hI : ∀ s l t, I s → step s l = some t → I t)
    (hlower : ∀ s l t, I s → own l → step s l = some t → potential t < potential s) {s : S} (hi : I s) :
    ∃ ls t, (∀ l ∈ ls, own l) ∧ exec step s ls = some t ∧ AtRest step own t := by
  induction hn : potential s using Nat.strongRecOn generalizing s with
  | _ n ih =>
    by_cases hrest : AtRest step own s
    · exact ⟨[], s, by simp, rfl, hrest⟩
    · simp only [AtRest, not_forall] at hrest
      obtain ⟨l, hown, hl⟩ := hrest
      obtain ⟨t, ht⟩ := Option.ne_none_iff_exists'.1 hl
      obtain ⟨ls, u, hls, hu, hr⟩ := ih _ (hn ▸ hlower s l t hi hown ht) (hI s l t hi ht) rfl
      refine ⟨l :: ls, u, ?_, exec_cons.2 ⟨t, ht, hu⟩, hr⟩
      rw [List.forall_mem_cons]
      exact ⟨hown, hls⟩

theorem AtRest.mono {own own' : L → Prop} (hle : ∀ l, own' l → own l) {s : S} (h : AtRest step own s) :
    AtRest step own' s :=
  fun l hl => h l (hle l hl)

/-! ## Potentials of tables -/

variable {α : Type*}

/-- A changed row changes the sum by the change of its own share. -/
theorem sum_set_row (f : α → Nat) {rows : List α} {i : Nat} {a b : α} (h : rows[i]? = some a) :
    ((rows.set i b).map f).sum + f a = (rows.map f).sum + f b := by
  induction rows generalizing i with
  | nil => cases h
  | cons r rows ih =>
    cases i with
    | zero =>
      simp only [List.getElem?_cons_zero, Option.some.injEq] at h
      subst h
      simp only [List.set_cons_zero, List.map_cons, List.sum_cons]
      omega
    | succ i =>
      have := ih (by simpa using h)
      simp only [List.set_cons_succ, List.map_cons, List.sum_cons]
      omega

theorem sum_snoc (f : α → Nat) (rows : List α) (a : α) : ((rows ++ [a]).map f).sum = (rows.map f).sum + f a := by
  simp

/-- Labels of two kinds, each of which brings in as much as the others of it. -/
theorem sum_two_kinds {brings : α → Nat} {p q : α → Bool} {c d : Nat}
    (h : ∀ a, brings a = (if p a then c else 0) + if q a then d else 0) (rows : List α) :
    (rows.map brings).sum = c * rows.countP p + d * rows.countP q := by
  induction rows with
  | nil => simp
  | cons a rows ih =>
    rw [List.map_cons, List.sum_cons, ih, h, List.countP_cons, List.countP_cons, Nat.mul_add, Nat.mul_add]
    cases p a <;> cases q a <;> simp <;> omega

end Systems
