import TriadRuntime.Systems.Streams
/-!
# Streams whose calls may fail

A stream being written is the list of what its next calls do and what they have
taken so far; a stream being read is the list of what its next calls bring.
Ranging over the lists is ranging over every way a stream can cut, delay and
fail what passes through it. A call that is interrupted and made again stands
for no entry.

What a reader finds depends on the pieces only through `tokens`: the elements
and the failures in the order they come.
-/

namespace Systems

variable {α ε : Type*}

/-! ## Writing -/

/-- What the next calls do, how many elements a call takes or how it fails, and
what has been taken. After the last entry every call takes all it is given. -/
structure Sink (α ε : Type*) where
  calls : List (Except ε Nat)
  taken : List α

namespace Sink

/-- Write until nothing is left or a call fails. A call that takes nothing of
something is the failure `zero`. -/
def writeFrom (zero : ε) : List (Except ε Nat) → List α → List α → Except ε Unit × Sink α ε
  | calls, taken, [] => (.ok (), ⟨calls, taken⟩)
  | [], taken, x :: xs => (.ok (), ⟨[], taken ++ x :: xs⟩)
  | .error error :: calls, taken, _ :: _ => (.error error, ⟨calls, taken⟩)
  | .ok 0 :: calls, taken, _ :: _ => (.error zero, ⟨calls, taken⟩)
  | .ok (n + 1) :: calls, taken, x :: xs =>
    writeFrom zero calls (taken ++ (x :: xs).take (n + 1)) ((x :: xs).drop (n + 1))

def writeAll (zero : ε) (sink : Sink α ε) (xs : List α) : Except ε Unit × Sink α ε :=
  writeFrom zero sink.calls sink.taken xs

/-- A first part goes out, and the whole exactly when the write succeeds. -/
theorem writeFrom_part (zero : ε) (calls : List (Except ε Nat)) (taken xs : List α) :
    ∃ k, k ≤ xs.length ∧ (writeFrom zero calls taken xs).2.taken = taken ++ xs.take k ∧
      ((writeFrom zero calls taken xs).1 = .ok () ↔ k = xs.length) := by
  induction calls generalizing taken xs with
  | nil =>
    rcases xs with _ | ⟨x, xs⟩
    · exact ⟨0, by simp [writeFrom]⟩
    · exact ⟨(x :: xs).length, by simp [writeFrom]⟩
  | cons call calls ih =>
    rcases xs with _ | ⟨x, xs⟩
    · exact ⟨0, by simp [writeFrom]⟩
    rcases call with error | _ | n
    · exact ⟨0, by simp [writeFrom]⟩
    · exact ⟨0, by simp [writeFrom]⟩
    obtain ⟨k, hk, htaken, hok⟩ := ih (taken ++ (x :: xs).take (n + 1)) ((x :: xs).drop (n + 1))
    -- the call's own part and the part the later calls take make one part
    by_cases hn : n + 1 ≤ (x :: xs).length
    · refine ⟨n + 1 + k, ?_, ?_, ?_⟩
      · rw [List.length_drop] at hk
        omega
      · rw [writeFrom, htaken, List.append_assoc, ← List.take_add]
      · rw [writeFrom, hok, List.length_drop]
        omega
    · have hdrop : (x :: xs).drop (n + 1) = [] := List.drop_of_length_le (by omega)
      have htake : (x :: xs).take (n + 1) = x :: xs := List.take_of_length_le (by omega)
      have hk : k = 0 := by simpa [hdrop] using hk
      refine ⟨(x :: xs).length, Nat.le_refl _, ?_, ?_⟩
      · rw [writeFrom, htaken, hk, htake, List.take_zero, List.append_nil, List.take_length]
      · rw [writeFrom, hok, hk, hdrop]
        simp

theorem writeAll_part (zero : ε) (sink : Sink α ε) (xs : List α) :
    ∃ k, k ≤ xs.length ∧ (sink.writeAll zero xs).2.taken = sink.taken ++ xs.take k ∧
      ((sink.writeAll zero xs).1 = .ok () ↔ k = xs.length) :=
  writeFrom_part zero sink.calls sink.taken xs

/-- A sink whose calls never fail is an ordinary one. -/
theorem writeAll_total (zero : ε) (taken xs : List α) :
    (⟨[], taken⟩ : Sink α ε).writeAll zero xs = (.ok (), ⟨[], taken ++ xs⟩) := by
  rcases xs with _ | ⟨x, xs⟩ <;> simp [writeAll, writeFrom]

end Sink

/-! ## Reading -/

/-- What the next calls bring, the end of the stream after the last. -/
abbrev Source (α ε : Type*) := List (Except ε (Chunk α))

namespace Source

/-- The elements and the failures, however the elements are cut. -/
def tokens (source : Source α ε) : List (Except ε α) :=
  source.flatMap fun
    | .ok c => c.1.map .ok
    | .error error => [.error error]

@[simp] theorem tokens_nil : tokens ([] : Source α ε) = [] := rfl

@[simp] theorem tokens_ok (c : Chunk α) (source : Source α ε) :
    tokens (.ok c :: source) = c.1.map .ok ++ tokens source := rfl

@[simp] theorem tokens_error (error : ε) (source : Source α ε) :
    tokens (.error error :: source) = .error error :: tokens source := rfl

theorem drop_ne_nil {c : Chunk α} {n : Nat} (h : n + 1 < c.1.length) : c.1.drop (n + 1) ≠ [] := by
  intro hdrop
  exact absurd (List.drop_eq_nil_iff.1 hdrop) (by omega)

/-- Read until `n` elements have arrived, the stream ends (`none`) or a call
fails. What had arrived by then is consumed. -/
def readExact : Nat → Source α ε → Except (Option ε) (List α) × Source α ε
  | 0, source => (.ok [], source)
  | _ + 1, [] => (.error none, [])
  | _ + 1, .error error :: source => (.error (some error), source)
  | n + 1, .ok c :: source =>
    if h : n + 1 < c.1.length then
      (.ok (c.1.take (n + 1)), .ok ⟨c.1.drop (n + 1), drop_ne_nil h⟩ :: source)
    else
      let more := readExact (n + 1 - c.1.length) source
      (more.1.map (c.1 ++ ·), more.2)

/-- The same, one token at a time. -/
def readTokens : Nat → List (Except ε α) → Except (Option ε) (List α) × List (Except ε α)
  | 0, tokens => (.ok [], tokens)
  | _ + 1, [] => (.error none, [])
  | _ + 1, .error error :: tokens => (.error (some error), tokens)
  | n + 1, .ok x :: tokens =>
    let more := readTokens n tokens
    (more.1.map (x :: ·), more.2)

theorem readTokens_append (n : Nat) (xs : List α) (tokens : List (Except ε α)) :
    readTokens (xs.length + n) (xs.map .ok ++ tokens) =
      ((readTokens n tokens).1.map (xs ++ ·), (readTokens n tokens).2) := by
  induction xs with
  | nil =>
    rcases hread : readTokens n tokens with ⟨_ | ys, rest⟩ <;> simp [hread, Except.map]
  | cons x xs ih =>
    rw [List.length_cons, Nat.add_right_comm, List.map_cons, List.cons_append, readTokens, ih]
    rcases (readTokens n tokens).1 with _ | ys <;> simp [Except.map]

theorem readTokens_whole (xs : List α) (tokens : List (Except ε α)) :
    readTokens xs.length (xs.map .ok ++ tokens) = (.ok xs, tokens) := by
  have h := readTokens_append 0 xs tokens
  simpa [readTokens, Except.map] using h

/-- However the elements are cut, a read does what it does token by token. -/
theorem readExact_tokens (n : Nat) (source : Source α ε) :
    (readExact n source).1 = (readTokens n source.tokens).1 ∧
      (readExact n source).2.tokens = (readTokens n source.tokens).2 := by
  induction source generalizing n with
  | nil => rcases n with _ | n <;> simp [readExact, readTokens]
  | cons call source ih =>
    rcases n with _ | n
    · simp [readExact, readTokens]
    rcases call with error | c
    · simp [readExact, readTokens]
    rw [tokens_ok]
    by_cases hc : n + 1 < c.1.length
    · have hlen : (c.1.take (n + 1)).length = n + 1 := by rw [List.length_take]; omega
      have hsplit : c.1.map .ok ++ tokens source =
          (c.1.take (n + 1)).map .ok ++ ((c.1.drop (n + 1)).map .ok ++ tokens source) := by
        rw [← List.append_assoc, ← List.map_append, List.take_append_drop]
      have hread := readTokens_whole (c.1.take (n + 1)) ((c.1.drop (n + 1)).map .ok ++ tokens source)
      rw [hlen] at hread
      rw [hsplit, hread, readExact, dif_pos hc]
      exact ⟨rfl, rfl⟩
    · obtain ⟨h1, h2⟩ := ih (n + 1 - c.1.length)
      have hread := readTokens_append (n + 1 - c.1.length) c.1 (tokens source)
      rw [show c.1.length + (n + 1 - c.1.length) = n + 1 by omega] at hread
      rw [hread, readExact, dif_neg hc]
      exact ⟨congrArg (Except.map (c.1 ++ ·)) h1, h2⟩

/-- A source whose calls never fail is an ordinary reader. -/
theorem readExact_total (n : Nat) (reader : Reader α) :
    readExact n (reader.map (.ok : Chunk α → Except ε (Chunk α))) =
      ((reader.readExact n).1.elim (.error none) .ok, (reader.readExact n).2.map .ok) := by
  induction reader generalizing n with
  | nil => rcases n with _ | n <;> rfl
  | cons c reader ih =>
    rcases n with _ | n
    · rfl
    rw [List.map_cons, readExact, Reader.readExact]
    by_cases hc : n + 1 < c.1.length
    · rw [dif_pos hc, dif_pos hc]
      rfl
    · rw [dif_neg hc, dif_neg hc, ih]
      rcases Reader.readExact (n + 1 - c.1.length) reader with ⟨_ | xs, rest⟩ <;> rfl

end Source

end Systems
