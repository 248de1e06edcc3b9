import Mathlib.Data.List.Basic
import Mathlib.Tactic.Common
/-!
# Tables of parties

A list indexed by party. Changing one row changes a count of rows by what that
row counted before and counts now.
-/

namespace Systems

variable {α : Type*}

theorem countP_set_row (p : α → Bool) {rows : List α} {i : Nat} {a b : α} (h : rows[i]? = some a) :
    (rows.set i b).countP p + (if p a then 1 else 0) = rows.countP p + (if p b then 1 else 0) := by
  obtain ⟨hi, ha⟩ := List.getElem?_eq_some_iff.1 h
  rw [List.countP_set hi, ha]
  by_cases hp : p a = true
  · have : 0 < rows.countP p := List.countP_pos_iff.2 ⟨a, ha ▸ List.getElem_mem hi, hp⟩
    simp only [hp, if_true]
    omega
  · simp only [hp, Bool.false_eq_true, if_false]
    omega

theorem countP_set_same (p : α → Bool) {rows : List α} {i : Nat} {a b : α} (h : rows[i]? = some a)
    (hp : p b = p a) : (rows.set i b).countP p = rows.countP p := by
  have := countP_set_row p h (b := b)
  rw [hp] at this
  omega

/-- What a changed row keeps, the table keeps. -/
theorem map_set_same {β : Type*} (f : α → β) {rows : List α} {i : Nat} {a b : α} (h : rows[i]? = some a)
    (hf : f b = f a) : (rows.set i b).map f = rows.map f := by
  obtain ⟨hi, ha⟩ := List.getElem?_eq_some_iff.1 h
  rw [List.map_set, hf, ← ha, ← List.getElem_map f (h := by simpa using hi), List.set_getElem_self]

/-- A prefix of the table keeps what the changed row keeps, if the row is in it. -/
theorem map_take_set {β : Type*} (f : α → β) {rows : List α} {i n : Nat} {a b : α} (h : rows[i]? = some a)
    (hf : i < n → f b = f a) : ((rows.set i b).take n).map f = (rows.take n).map f := by
  by_cases hlt : i < n
  · rw [List.take_set]
    apply map_set_same f _ (hf hlt)
    rw [List.getElem?_take_of_lt hlt, h]
  · rw [List.take_set_of_le (Nat.le_of_not_lt hlt)]

/-- The rows of a longer table. -/
theorem getElem?_snoc (rows : List α) (a b : α) (i : Nat) :
    (rows ++ [a])[i]? = some b ↔ rows[i]? = some b ∨ i = rows.length ∧ b = a := by
  rcases Nat.lt_trichotomy i rows.length with h | h | h
  · rw [List.getElem?_append_left h]
    constructor
    · exact .inl
    · rintro (h' | ⟨rfl, -⟩)
      · exact h'
      · omega
  · subst h
    simp [eq_comm]
  · have h1 : (rows ++ [a])[i]? = none := List.getElem?_eq_none (by simp; omega)
    have h2 : rows[i]? = none := List.getElem?_eq_none (by omega)
    simp only [h1, h2, reduceCtorEq, false_or, false_iff, not_and]
    omega

theorem flatMap_set_same {β : Type*} (f : α → List β) {rows : List α} {i : Nat} {a b : α} (h : rows[i]? = some a)
    (hf : f b = f a) : (rows.set i b).flatMap f = rows.flatMap f := by
  rw [List.flatMap_def, List.flatMap_def, map_set_same f h hf]

/-- What a changed row adds, the table adds. -/
theorem flatMap_set_row {β : Type*} (f : α → List β) {rows : List α} {i : Nat} {a b : α} {added : List β}
    (h : rows[i]? = some a) (hf : (f b).Perm (added ++ f a)) :
    ((rows.set i b).flatMap f).Perm (added ++ rows.flatMap f) := by
  obtain ⟨hi, rfl⟩ := List.getElem?_eq_some_iff.1 h
  have hrows : rows = rows.take i ++ rows[i] :: rows.drop (i + 1) := by simp
  rw [List.set_eq_take_append_cons_drop, if_pos hi]
  conv_rhs => rw [hrows]
  simp only [List.flatMap_append, List.flatMap_cons]
  calc (rows.take i).flatMap f ++ (f b ++ (rows.drop (i + 1)).flatMap f)
    _ |>.Perm ((rows.take i).flatMap f ++ (added ++ f rows[i] ++ (rows.drop (i + 1)).flatMap f)) :=
      (hf.append_right _).append_left _
    _ |>.Perm (added ++ ((rows.take i).flatMap f ++ (f rows[i] ++ (rows.drop (i + 1)).flatMap f))) := by
      rw [List.append_assoc]
      exact List.perm_append_comm_assoc _ _ _

/-- A row of a changed table is the changed one or as it was. -/
theorem getElem?_set_row {rows : List α} {i k : Nat} {b x : α} (h : (rows.set i b)[k]? = some x) :
    (k = i ∧ x = b) ∨ (k ≠ i ∧ rows[k]? = some x) := by
  by_cases hki : k = i
  · subst hki
    obtain ⟨hlt, -⟩ := List.getElem?_eq_some_iff.1 h
    rw [List.getElem?_set_self (by simpa using hlt)] at h
    exact .inl ⟨rfl, (Option.some.inj h).symm⟩
  · rw [List.getElem?_set_ne (Ne.symm hki)] at h
    exact .inr ⟨hki, h⟩

theorem mem_set_row {rows : List α} {i : Nat} {b x : α} (h : x ∈ rows.set i b) : x ∈ rows ∨ x = b :=
  List.mem_or_eq_of_mem_set h

end Systems
