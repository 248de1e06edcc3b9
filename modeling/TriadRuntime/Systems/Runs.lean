import Mathlib.Data.List.Basic
import Mathlib.Logic.Relation
import Mathlib.Tactic.Common
/-!
# Runs of step functions

A machine is a step function `step : S → L → Option S`: the label says which
party moves and how, and `none` says that it cannot move now. A run is a list
of labels, so every interleaving of the parties is one run and a theorem about
every run holds for every order of their steps.
-/

namespace Systems

variable {S L : Type*} (step : S → L → Option S)

/-- The state after the labels `ls`, if each can be taken in turn. -/
def exec : S → List L → Option S
  | s, [] => some s
  | s, l :: ls => (step s l).bind fun t => exec t ls

/-- Some run leads from `s` to `t`. -/
def Reaches (s t : S) : Prop := ∃ ls, exec step s ls = some t

/-- Every step of the run `ls` from `s` meets `C`, judged in the state before
the step. -/
def Along (C : S → L → Prop) : S → List L → Prop
  | _, [] => True
  | s, l :: ls => C s l ∧ ∀ t, step s l = some t → Along C t ls

variable {step}

@[simp] theorem exec_nil (s : S) : exec step s [] = some s := rfl

theorem exec_cons {s u : S} {l : L} {ls : List L} :
    exec step s (l :: ls) = some u ↔ ∃ t, step s l = some t ∧ exec step t ls = some u := by
  simp [exec, Option.bind_eq_some_iff]

theorem exec_append {s u : S} {ls ms : List L} :
    exec step s (ls ++ ms) = some u ↔ ∃ t, exec step s ls = some t ∧ exec step t ms = some u := by
  induction ls generalizing s with
  | nil => simp
  | cons l ls ih =>
    simp only [List.cons_append, exec_cons, ih]
    constructor
    · rintro ⟨t, ht, v, hv, hu⟩; exact ⟨v, ⟨t, ht, hv⟩, hu⟩
    · rintro ⟨v, ⟨t, ht, hv⟩, hu⟩; exact ⟨t, ht, v, hv, hu⟩

theorem Reaches.refl (s : S) : Reaches step s s := ⟨[], rfl⟩

theorem Reaches.trans {s t u : S} (h : Reaches step s t) (h' : Reaches step t u) : Reaches step s u := by
  obtain ⟨ls, hl⟩ := h
  obtain ⟨ms, hm⟩ := h'
  exact ⟨ls ++ ms, exec_append.2 ⟨t, hl, hm⟩⟩

theorem Reaches.of_step {s t : S} {l : L} (h : step s l = some t) : Reaches step s t :=
  ⟨[l], exec_cons.2 ⟨t, h, rfl⟩⟩

/-- What the guarded steps of a run keep holds at its end. -/
theorem exec_invariant_along {C : S → L → Prop} (I : S → Prop)
    (hstep : ∀ s l t, I s → C s l → step s l = some t → I t) {s t : S} {ls : List L}
    (hc : Along step C s ls) (h : exec step s ls = some t) (hi : I s) : I t := by
  induction ls generalizing s with
  | nil => cases h; exact hi
  | cons l ls ih =>
    obtain ⟨v, hv, hrest⟩ := exec_cons.1 h
    exact ih (hc.2 v hv) hrest (hstep s l v hi hc.1 hv)

theorem along_of_forall {C : S → L → Prop} {ls : List L} (h : ∀ l ∈ ls, ∀ s, C s l) (s : S) : Along step C s ls := by
  induction ls generalizing s with
  | nil => trivial
  | cons l ls ih =>
    exact ⟨h l List.mem_cons_self s, fun t _ => ih (fun m hm => h m (List.mem_cons_of_mem l hm)) t⟩

theorem along_congr {C D : S → L → Prop} (h : ∀ s l, C s l ↔ D s l) {s : S} {ls : List L} :
    Along step C s ls ↔ Along step D s ls := by
  induction ls generalizing s with
  | nil => exact .rfl
  | cons l ls ih => simp only [Along, h s l, ih]

/-- A guard and what is known of all labels of the run. -/
theorem along_with {C : S → L → Prop} {Q : L → Prop} {s : S} {ls : List L} (hc : Along step C s ls)
    (hq : ∀ l ∈ ls, Q l) : Along step (fun s l => C s l ∧ Q l) s ls := by
  induction ls generalizing s with
  | nil => trivial
  | cons l ls ih =>
    rw [List.forall_mem_cons] at hq
    exact ⟨⟨hc.1, hq.1⟩, fun t ht => ih (hc.2 t ht) hq.2⟩

theorem along_and {C D : S → L → Prop} {s : S} {ls : List L} (hc : Along step C s ls) (hd : Along step D s ls) :
    Along step (fun s l => C s l ∧ D s l) s ls := by
  induction ls generalizing s with
  | nil => trivial
  | cons l ls ih => exact ⟨⟨hc.1, hd.1⟩, fun t ht => ih (hc.2 t ht) (hd.2 t ht)⟩

theorem along_of_invariant {C : S → L → Prop} {Q : L → Prop} (I : S → Prop)
    (hstep : ∀ s l t, I s → step s l = some t → I t) (hC : ∀ s l, I s → Q l → C s l) {s : S} {ls : List L}
    (hq : ∀ l ∈ ls, Q l) (hi : I s) : Along step C s ls := by
  induction ls generalizing s with
  | nil => trivial
  | cons l ls ih =>
    rw [List.forall_mem_cons] at hq
    exact ⟨hC s l hi hq.1, fun t ht => ih hq.2 (hstep s l t hi ht)⟩

theorem along_append {C : S → L → Prop} {s t : S} {ls ms : List L} (h : exec step s ls = some t) :
    Along step C s (ls ++ ms) ↔ Along step C s ls ∧ Along step C t ms := by
  induction ls generalizing s with
  | nil => cases h; simp [Along]
  | cons l ls ih =>
    obtain ⟨v, hv, hrest⟩ := exec_cons.1 h
    simp only [List.cons_append, Along, hv, Option.some.injEq, forall_eq', ih hrest, and_assoc]

/-- A label of a run meets the guard in the state it is taken in. -/
theorem along_mem {C : S → L → Prop} {s t : S} {l : L} {ls : List L} (hc : Along step C s ls)
    (h : exec step s ls = some t) (hm : l ∈ ls) : ∃ u v, Reaches step s u ∧ C u l ∧ step u l = some v := by
  obtain ⟨front, back, rfl⟩ := List.append_of_mem hm
  obtain ⟨u, hu, hrest⟩ := exec_append.1 h
  obtain ⟨v, hv, -⟩ := exec_cons.1 hrest
  exact ⟨u, v, ⟨front, hu⟩, ((along_append hu).1 hc).2.1, hv⟩

/-- Where `P` follows from an invariant that the guarded steps keep, and fails
after a step that misses its guard, the runs along which `P` holds throughout
are those whose steps all meet the guard. -/
theorem along_iff_throughout {C : S → L → Prop} {P : S → Prop} (I : S → Prop)
    (hstep : ∀ s l t, I s → C s l → step s l = some t → I t) (hP : ∀ s, I s → P s)
    (hbreak : ∀ s l t, I s → step s l = some t → P t → C s l) {s t : S} {ls : List L}
    (h : exec step s ls = some t) (hi : I s) :
    Along step C s ls ↔ ∀ front back u, ls = front ++ back → exec step s front = some u → P u := by
  constructor
  · rintro hc front back u rfl hu
    exact hP u (exec_invariant_along I hstep ((along_append hu).1 hc).1 hu hi)
  · intro hall
    induction ls generalizing s with
    | nil => trivial
    | cons l ls ih =>
      obtain ⟨v, hv, hrest⟩ := exec_cons.1 h
      have hcl : C s l := hbreak s l v hi hv (hall [l] ls v rfl (exec_cons.2 ⟨v, hv, rfl⟩))
      refine ⟨hcl, fun w hw => ?_⟩
      rw [hv, Option.some.injEq] at hw
      subst hw
      apply ih hrest (hstep s l v hi hcl hv)
      rintro front back u rfl hu
      exact hall (l :: front) back u rfl (exec_cons.2 ⟨v, hv, hu⟩)

/-- What every step keeps holds at the end of every run. -/
theorem exec_invariant (I : S → Prop) (hstep : ∀ s l t, I s → step s l = some t → I t) {s t : S}
    {ls : List L} (h : exec step s ls = some t) (hi : I s) : I t := by
  induction ls generalizing s with
  | nil => cases h; exact hi
  | cons l ls ih =>
    obtain ⟨v, hv, hrest⟩ := exec_cons.1 h
    exact ih hrest (hstep s l v hi hv)

theorem Reaches.invariant (I : S → Prop) (hstep : ∀ s l t, I s → step s l = some t → I t) {s t : S}
    (h : Reaches step s t) (hi : I s) : I t := by
  obtain ⟨ls, hl⟩ := h
  exact exec_invariant I hstep hl hi

/-- A machine refines a relation between what `f` shows of its states, if each
of its steps shows nothing new or one step of the relation. -/
theorem exec_refines {A : Type*} {R : A → A → Prop} (f : S → A) (I : S → Prop)
    (hI : ∀ s l t, I s → step s l = some t → I t)
    (hstep : ∀ s l t, I s → step s l = some t → f t = f s ∨ R (f s) (f t)) {s t : S} {ls : List L}
    (h : exec step s ls = some t) (hi : I s) : Relation.ReflTransGen R (f s) (f t) := by
  induction ls generalizing s with
  | nil => cases h; exact .refl
  | cons l ls ih =>
    obtain ⟨v, hv, hrest⟩ := exec_cons.1 h
    have hmore := ih hrest (hI s l v hi hv)
    rcases hstep s l v hi hv with hsame | hr
    · exact hsame ▸ hmore
    · exact .head hr hmore

/-- A run of the whole, seen from a part, is a run of the part: its labels are
those that `g` keeps, and the other steps keep the part related as it is. -/
theorem exec_simulates {T K : Type*} {stepT : T → K → Option T} (R : S → T → Prop) (P : L → Prop) (g : L → Option K)
    (hstep : ∀ s l t a, R s a → P l → step s l = some t →
      (∀ k, g l = some k → ∃ b, stepT a k = some b ∧ R t b) ∧ (g l = none → R t a))
    {s t : S} {a : T} {ls : List L} (hp : ∀ l ∈ ls, P l) (h : exec step s ls = some t) (hr : R s a) :
    ∃ b, exec stepT a (ls.filterMap g) = some b ∧ R t b := by
  induction ls generalizing s a with
  | nil => cases h; exact ⟨a, rfl, hr⟩
  | cons l ls ih =>
    obtain ⟨v, hv, hrest⟩ := exec_cons.1 h
    obtain ⟨hkeep, hskip⟩ := hstep s l v a hr (hp l List.mem_cons_self) hv
    have hrest' := fun b hb => ih (a := b) (fun m hm => hp m (List.mem_cons_of_mem l hm)) hrest hb
    rw [List.filterMap_cons]
    cases hg : g l with
    | none => exact hrest' a (hskip hg)
    | some k =>
      obtain ⟨b, hb, hvb⟩ := hkeep k hg
      obtain ⟨c, hc, htc⟩ := hrest' b hvb
      exact ⟨c, exec_cons.2 ⟨b, hb, hc⟩, htc⟩

/-- The same where a step is matched by a run that shows an observer as much and
keeps to `D`: the two runs then show the same, in the same order. -/
theorem exec_traces_along {T K V : Type*} {stepT : T → K → Option T} (seen : L → List V) (seenT : K → List V)
    (R : S → T → Prop) (P : L → Prop) (D : T → K → Prop)
    (hstep : ∀ s l t a, R s a → P l → step s l = some t →
      ∃ ks b, exec stepT a ks = some b ∧ Along stepT D a ks ∧ ks.flatMap seenT = seen l ∧ R t b)
    {s t : S} {a : T} {ls : List L} (hp : ∀ l ∈ ls, P l) (h : exec step s ls = some t) (hr : R s a) :
    ∃ ks b, exec stepT a ks = some b ∧ Along stepT D a ks ∧ ks.flatMap seenT = ls.flatMap seen ∧ R t b := by
  induction ls generalizing s a with
  | nil => cases h; exact ⟨[], a, rfl, trivial, rfl, hr⟩
  | cons l ls ih =>
    obtain ⟨v, hv, hrest⟩ := exec_cons.1 h
    obtain ⟨ks, b, hks, hd, hseen, hvb⟩ := hstep s l v a hr (hp l List.mem_cons_self) hv
    obtain ⟨ks', c, hks', hd', hseen', htc⟩ := ih (fun m hm => hp m (List.mem_cons_of_mem l hm)) hrest hvb
    refine ⟨ks ++ ks', c, exec_append.2 ⟨b, hks, hks'⟩, (along_append hks).2 ⟨hd, hd'⟩, ?_, htc⟩
    rw [List.flatMap_append, List.flatMap_cons, hseen, hseen']

theorem exec_traces {T K V : Type*} {stepT : T → K → Option T} (seen : L → List V) (seenT : K → List V)
    (R : S → T → Prop)
    (hstep : ∀ s l t a, R s a → step s l = some t →
      ∃ ks b, exec stepT a ks = some b ∧ ks.flatMap seenT = seen l ∧ R t b)
    {s t : S} {a : T} {ls : List L} (h : exec step s ls = some t) (hr : R s a) :
    ∃ ks b, exec stepT a ks = some b ∧ ks.flatMap seenT = ls.flatMap seen ∧ R t b := by
  have hmatch : ∀ s l t a, R s a → True → step s l = some t →
      ∃ ks b, exec stepT a ks = some b ∧ Along stepT (fun _ _ => True) a ks ∧ ks.flatMap seenT = seen l ∧ R t b := by
    intro s l t a hr _ hl
    obtain ⟨ks, b, hks, hseen, htb⟩ := hstep s l t a hr hl
    exact ⟨ks, b, hks, along_of_forall (fun _ _ _ => trivial) a, hseen, htb⟩
  obtain ⟨ks, b, hks, -, hseen, htb⟩ :=
    exec_traces_along seen seenT R (fun _ => True) (fun _ _ => True) hmatch (fun _ _ => trivial) h hr
  exact ⟨ks, b, hks, hseen, htb⟩

end Systems
