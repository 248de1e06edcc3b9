import Mathlib.Data.Nat.ModEq
import Mathlib.Tactic.Common
/-!
# Byte streams and big-endian words

A stream reaches its reader in pieces: one `read` returns at most what is left
of the current piece. A reader is therefore the list of nonempty pieces to
come, and ranging over readers with the same bytes is ranging over every way
of cutting a stream into partial reads.
-/

namespace Systems

/-! ## Readers -/

variable {α : Type*}

/-- A piece of a stream. A read that returns nothing means the end, so no
piece is empty. -/
abbrev Chunk (α : Type*) := {c : List α // c ≠ []}

/-- The pieces still to be read, the end of the stream after the last. -/
abbrev Reader (α : Type*) := List (Chunk α)

namespace Reader

def bytes (r : Reader α) : List α := r.flatMap (·.1)

@[simp] theorem bytes_nil : bytes ([] : Reader α) = [] := rfl

@[simp] theorem bytes_cons (c : Chunk α) (r : Reader α) : bytes (c :: r) = c.1 ++ bytes r := rfl

/-- Read until `n` elements have arrived. At the end of the stream the read
fails, with everything before the end consumed. -/
def readExact : Nat → Reader α → Option (List α) × Reader α
  | 0, r => (some [], r)
  | _ + 1, [] => (none, [])
  | n + 1, c :: r =>
    if h : n + 1 < c.1.length then
      (some (c.1.take (n + 1)), ⟨c.1.drop (n + 1), by simpa using h⟩ :: r)
    else
      let more := readExact (n + 1 - c.1.length) r
      (more.1.map (c.1 ++ ·), more.2)

/-- However the stream is cut, the first `n` elements arrive and the rest stays. -/
theorem readExact_enough (n : Nat) (r : Reader α) (h : n ≤ r.bytes.length) :
    (readExact n r).1 = some (r.bytes.take n) ∧ (readExact n r).2.bytes = r.bytes.drop n := by
  induction r generalizing n with
  | nil =>
    have : n = 0 := by simpa using h
    subst this
    simp [readExact]
  | cons c r ih =>
    rcases n with _ | n
    · simp [readExact]
    simp only [bytes_cons, List.length_append] at h
    unfold readExact
    by_cases hc : n + 1 < c.1.length
    · rw [dif_pos hc]
      have h0 : n + 1 - c.1.length = 0 := by omega
      simp [List.take_append, List.drop_append, h0]
    · rw [dif_neg hc]
      obtain ⟨h1, h2⟩ := ih (n + 1 - c.1.length) (by omega)
      refine ⟨?_, ?_⟩
      · simp [h1, List.take_append, List.take_of_length_le (show c.1.length ≤ n + 1 by omega)]
      · simp [h2, List.drop_append, List.drop_of_length_le (show c.1.length ≤ n + 1 by omega)]

/-- A stream that ends too early is consumed to its end. -/
theorem readExact_short (n : Nat) (r : Reader α) (h : r.bytes.length < n) : readExact n r = (none, []) := by
  induction r generalizing n with
  | nil =>
    rcases n with _ | n
    · simp at h
    · rfl
  | cons c r ih =>
    simp only [bytes_cons, List.length_append] at h
    rcases n with _ | n
    · omega
    unfold readExact
    rw [dif_neg (by omega), ih (n + 1 - c.1.length) (by omega)]
    rfl

end Reader

/-! ## Big-endian words -/

/-- The low `w` bytes of `n`, the most significant first. -/
def toBigEndian : Nat → Nat → List UInt8
  | 0, _ => []
  | w + 1, n => UInt8.ofNat (n / 256 ^ w) :: toBigEndian w n

def ofBigEndian : List UInt8 → Nat
  | [] => 0
  | b :: bs => b.toNat * 256 ^ bs.length + ofBigEndian bs

@[simp] theorem toBigEndian_length (w n : Nat) : (toBigEndian w n).length = w := by
  induction w with
  | zero => rfl
  | succ w ih => simp [toBigEndian, ih]

theorem ofBigEndian_toBigEndian (w n : Nat) : ofBigEndian (toBigEndian w n) = n % 256 ^ w := by
  induction w with
  | zero => simp [toBigEndian, ofBigEndian, Nat.mod_one]
  | succ w ih =>
    have hb : (UInt8.ofNat (n / 256 ^ w)).toNat = n / 256 ^ w % 256 := by simp
    rw [toBigEndian, ofBigEndian, ih, toBigEndian_length, hb, Nat.mod_pow_succ,
      Nat.mul_comm, Nat.add_comm]

theorem ofBigEndian_lt (bytes : List UInt8) : ofBigEndian bytes < 256 ^ bytes.length := by
  induction bytes with
  | nil => simp [ofBigEndian]
  | cons b bytes ih =>
    have hb : b.toNat + 1 ≤ 256 := b.toNat_lt
    have hle : (b.toNat + 1) * 256 ^ bytes.length ≤ 256 * 256 ^ bytes.length := Nat.mul_le_mul_right _ hb
    rw [ofBigEndian, List.length_cons, Nat.pow_succ']
    rw [Nat.add_mul] at hle
    omega

/-- Only the low bytes of a number are written. -/
theorem toBigEndian_add_mul (w n k : Nat) : toBigEndian w (k * 256 ^ w + n) = toBigEndian w n := by
  induction w generalizing k with
  | zero => rfl
  | succ w ih =>
    have hk : k * 256 ^ (w + 1) = k * 256 * 256 ^ w := by rw [Nat.pow_succ', Nat.mul_assoc]
    have hpos : 0 < 256 ^ w := Nat.pow_pos (by omega)
    have hdiv : (k * 256 * 256 ^ w + n) / 256 ^ w = k * 256 + n / 256 ^ w := by
      rw [Nat.add_comm, Nat.add_mul_div_right _ _ hpos, Nat.add_comm]
    rw [toBigEndian, toBigEndian, hk, ih (k * 256), hdiv]
    congr 1
    apply UInt8.toNat_inj.1
    simp

theorem toBigEndian_ofBigEndian (bytes : List UInt8) : toBigEndian bytes.length (ofBigEndian bytes) = bytes := by
  induction bytes with
  | nil => rfl
  | cons b bytes ih =>
    have hpos : 0 < 256 ^ bytes.length := Nat.pow_pos (by omega)
    have hdiv : (b.toNat * 256 ^ bytes.length + ofBigEndian bytes) / 256 ^ bytes.length = b.toNat := by
      rw [Nat.add_comm, Nat.add_mul_div_right _ _ hpos, Nat.div_eq_of_lt (ofBigEndian_lt bytes), Nat.zero_add]
    rw [List.length_cons, toBigEndian, ofBigEndian, hdiv, toBigEndian_add_mul, ih, UInt8.ofNat_toNat]

end Systems
