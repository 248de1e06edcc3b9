import Mathlib.Data.List.Forall2
import Mathlib.Tactic.Common
/-!
# Text and bytes

A string is a list of characters; its bytes are their UTF-8. Bytes that are no
UTF-8 are read with losses, as Rust's `String::from_utf8_lossy` reads them:
each longest piece that could have begun a character becomes one replacement
character.
-/

namespace Systems

/-- `str::as_bytes`. -/
def utf8 (s : String) : List UInt8 := s.toByteArray.data.toList

def IsUtf8 (bytes : List UInt8) : Prop := ∃ s, utf8 s = bytes

/-- The character that the bytes begin with. -/
def decodeHead (bytes : List UInt8) : Option Char := bytes.toByteArray.utf8DecodeChar? 0

def isContinuation (b : UInt8) : Bool := b &&& 192 = 128

/-- The second bytes of the characters of three bytes. -/
def isSecondOfThree (lead second : UInt8) : Bool :=
  (lead = 0xE0 ∧ 0xA0 ≤ second ∧ second ≤ 0xBF) ∨ (0xE1 ≤ lead ∧ lead ≤ 0xEC ∧ 0x80 ≤ second ∧ second ≤ 0xBF) ∨
  (lead = 0xED ∧ 0x80 ≤ second ∧ second ≤ 0x9F) ∨ (0xEE ≤ lead ∧ lead ≤ 0xEF ∧ 0x80 ≤ second ∧ second ≤ 0xBF)

/-- The second bytes of the characters of four bytes. -/
def isSecondOfFour (lead second : UInt8) : Bool :=
  (lead = 0xF0 ∧ 0x90 ≤ second ∧ second ≤ 0xBF) ∨ (0xF1 ≤ lead ∧ lead ≤ 0xF3 ∧ 0x80 ≤ second ∧ second ≤ 0xBF) ∨
  (lead = 0xF4 ∧ 0x80 ≤ second ∧ second ≤ 0x8F)

/-- How many of the bytes after an undecodable lead byte could still have
belonged to its character. -/
def invalidTail (lead : UInt8) : List UInt8 → List UInt8
  | second :: rest =>
    if isSecondOfThree lead second then [second]
    else if isSecondOfFour lead second then second :: (rest.take 1).filter isContinuation
    else []
  | [] => []

/-- Takes at most `fuel` pieces. -/
def lossyFrom : Nat → List UInt8 → List Char
  | _, [] => []
  | 0, _ => []
  | fuel + 1, lead :: rest =>
    match decodeHead (lead :: rest) with
    | some c => c :: lossyFrom fuel ((lead :: rest).drop c.utf8Size)
    | none => Char.ofNat 0xFFFD :: lossyFrom fuel (rest.drop (invalidTail lead rest).length)

/-- `String::from_utf8_lossy`, which is also `OsStr::to_string_lossy` and `Path::display`. -/
def from_utf8_lossy (bytes : List UInt8) : String := String.ofList (lossyFrom bytes.length bytes)

/-! ## Text -/

theorem utf8_ofList (cs : List Char) : utf8 (String.ofList cs) = cs.flatMap String.utf8EncodeChar := by
  unfold utf8
  rw [String.toByteArray_ofList, List.utf8Encode, List.data_toByteArray, List.toList_toArray]

theorem utf8_eq (s : String) : utf8 s = s.toList.flatMap String.utf8EncodeChar := by
  rw [← utf8_ofList, String.ofList_toList]

theorem utf8_injective {s t : String} (h : utf8 s = utf8 t) : s = t := by
  apply String.toByteArray_inj.1
  apply ByteArray.ext
  exact Array.toList_inj.1 h

theorem decodeHead_encode (c : Char) (rest : List UInt8) :
    decodeHead (String.utf8EncodeChar c ++ rest) = some c := by
  unfold decodeHead
  rw [List.toByteArray_append]
  exact ByteArray.utf8DecodeChar?_utf8EncodeChar_append

theorem encode_of_decodeHead {bytes : List UInt8} {c : Char} (h : decodeHead bytes = some c) :
    bytes = String.utf8EncodeChar c ++ bytes.drop c.utf8Size := by
  obtain ⟨rest, hrest⟩ := ByteArray.exists_of_utf8DecodeChar?_eq_some h
  have hbytes : bytes = String.utf8EncodeChar c ++ rest.data.toList := by
    have := congrArg (fun b : ByteArray => b.data.toList) hrest
    simpa [List.data_toByteArray] using this
  conv_rhs => rw [hbytes]
  rw [List.drop_left' (String.length_utf8EncodeChar c)]
  exact hbytes

theorem length_le_encode (cs : List Char) : cs.length ≤ (cs.flatMap String.utf8EncodeChar).length := by
  induction cs with
  | nil => exact Nat.zero_le _
  | cons c cs ih =>
    have hpos := c.utf8Size_pos
    rw [List.flatMap_cons, List.length_append, String.length_utf8EncodeChar, List.length_cons]
    omega

/-- Text is read without losses. -/
theorem from_utf8_lossy_utf8 (s : String) : from_utf8_lossy (utf8 s) = s := by
  have hchars : ∀ (cs : List Char) (fuel : Nat), cs.length ≤ fuel →
      lossyFrom fuel (cs.flatMap String.utf8EncodeChar) = cs := by
    intro cs
    induction cs with
    | nil =>
      intro fuel _
      cases fuel <;> rfl
    | cons c cs ih =>
      intro fuel hfuel
      obtain ⟨fuel, rfl⟩ : ∃ n, fuel = n + 1 := ⟨fuel - 1, by simp at hfuel; omega⟩
      rw [List.flatMap_cons]
      have hhead := decodeHead_encode c (cs.flatMap String.utf8EncodeChar)
      have hdrop : (String.utf8EncodeChar c ++ cs.flatMap String.utf8EncodeChar).drop c.utf8Size =
          cs.flatMap String.utf8EncodeChar := List.drop_left' (String.length_utf8EncodeChar c)
      generalize String.utf8EncodeChar c ++ cs.flatMap String.utf8EncodeChar = bytes at hhead hdrop
      cases bytes with
      | nil => cases hhead
      | cons lead rest =>
        rw [lossyFrom, hhead]
        simp only
        rw [hdrop, ih fuel (by simpa using hfuel)]
  unfold from_utf8_lossy
  rw [utf8_eq, hchars _ _ (length_le_encode s.toList), String.ofList_toList]

/-- Only text is. -/
theorem utf8_from_utf8_lossy_iff {bytes : List UInt8} : utf8 (from_utf8_lossy bytes) = bytes ↔ IsUtf8 bytes := by
  constructor
  · exact fun h => ⟨_, h⟩
  · rintro ⟨s, rfl⟩
    rw [from_utf8_lossy_utf8]

example : from_utf8_lossy [0x2F, 0xF0, 0x90, 0x80, 0x41, 0xE1, 0x80] = "/\uFFFDA\uFFFD" := by decide

/-! ## Losses -/

/-- A character is one ASCII byte, or bytes none of which is ASCII. -/
theorem encode_cases (c : Char) :
    (∃ b < 128, String.utf8EncodeChar c = [b]) ∨
    (String.utf8EncodeChar c ≠ [] ∧ ∀ b ∈ String.utf8EncodeChar c, 128 ≤ b) := by
  have hlow : ∀ n : Nat, n < 128 → UInt8.ofNat n < 128 := by
    intro n hn
    rw [UInt8.lt_iff_toNat_lt, UInt8.toNat_ofNat', Nat.mod_eq_of_lt (by omega)]
    exact hn
  have hhigh : ∀ n : Nat, 128 ≤ n → n < 256 → 128 ≤ UInt8.ofNat n := by
    intro n hn hn'
    rw [UInt8.le_iff_toNat_le, UInt8.toNat_ofNat', Nat.mod_eq_of_lt (by omega)]
    exact hn
  unfold String.utf8EncodeChar
  simp only
  split
  · exact .inl ⟨_, hlow _ (by omega), rfl⟩
  · refine .inr ?_
    split
    · refine ⟨List.cons_ne_nil _ _, ?_⟩
      simp only [List.forall_mem_cons, List.not_mem_nil, false_implies, implies_true, and_true]
      exact ⟨hhigh _ (by omega) (by omega), hhigh _ (by omega) (by omega)⟩
    · split
      · refine ⟨List.cons_ne_nil _ _, ?_⟩
        simp only [List.forall_mem_cons, List.not_mem_nil, false_implies, implies_true, and_true]
        exact ⟨hhigh _ (by omega) (by omega), hhigh _ (by omega) (by omega), hhigh _ (by omega) (by omega)⟩
      · refine ⟨List.cons_ne_nil _ _, ?_⟩
        simp only [List.forall_mem_cons, List.not_mem_nil, false_implies, implies_true, and_true]
        exact ⟨hhigh _ (by omega) (by omega), hhigh _ (by omega) (by omega), hhigh _ (by omega) (by omega),
          hhigh _ (by omega) (by omega)⟩

/-- The second list is the first with some runs of bytes that are not ASCII
changed for others. -/
inductive Lossy : List UInt8 → List UInt8 → Prop where
  | nil : Lossy [] []
  | ascii {b : UInt8} {v w : List UInt8} : b < 128 → Lossy v w → Lossy (b :: v) (b :: w)
  | high {u u' v w : List UInt8} : u ≠ [] → u' ≠ [] → (∀ b ∈ u, 128 ≤ b) → (∀ b ∈ u', 128 ≤ b) → Lossy v w →
    Lossy (u ++ v) (u' ++ w)

theorem Lossy.encode {v w : List UInt8} (h : Lossy v w) (c : Char) :
    Lossy (String.utf8EncodeChar c ++ v) (String.utf8EncodeChar c ++ w) := by
  rcases encode_cases c with ⟨b, hb, hc⟩ | ⟨hne, hc⟩
  · rw [hc]
    exact .ascii hb h
  · exact .high hne hne hc hc h

/-- An ASCII byte is a character. -/
theorem decodeHead_ascii {b : UInt8} (hb : b < 128) (rest : List UInt8) : decodeHead (b :: rest) ≠ none := by
  have hlt : b.toNat < 128 := hb
  obtain ⟨c, hval⟩ : ∃ c : Char, c.val.toNat = b.toNat := ⟨Char.ofNatAux b.toNat (.inl (by omega)), rfl⟩
  have hc : String.utf8EncodeChar c = [b] := by
    unfold String.utf8EncodeChar
    simp only [hval]
    rw [if_pos (by omega), UInt8.ofNat_toNat]
  have hhead := decodeHead_encode c rest
  rw [hc, List.singleton_append] at hhead
  rw [hhead]
  exact Option.some_ne_none c

theorem invalidTail_prefix (lead : UInt8) (rest : List UInt8) : invalidTail lead rest <+: rest := by
  unfold invalidTail
  split
  · rename_i second rest
    split
    · exact ⟨rest, rfl⟩
    · split
      · refine (List.prefix_cons_inj second).2 ?_
        cases rest with
        | nil => exact List.prefix_rfl
        | cons third rest =>
          by_cases hthird : isContinuation third = true
          · exact ⟨rest, by simp [hthird]⟩
          · simp [hthird]
      · exact List.nil_prefix
  · exact List.prefix_rfl

theorem isContinuation_high {b : UInt8} (h : isContinuation b = true) : 128 ≤ b := by
  have : ∀ n : Fin 256, isContinuation (UInt8.ofNat n) = true → 128 ≤ UInt8.ofNat n := by decide +kernel
  have := this ⟨b.toNat, b.toNat_lt⟩
  simp only [UInt8.ofNat_toNat] at this
  exact this h

theorem invalidTail_high {lead b : UInt8} {rest : List UInt8} (h : b ∈ invalidTail lead rest) : 128 ≤ b := by
  unfold invalidTail at h
  split at h
  · rename_i second rest
    split at h
    · rename_i hsecond
      rw [List.mem_singleton] at h
      subst h
      simp only [isSecondOfThree, decide_eq_true_eq, UInt8.le_iff_toNat_le] at hsecond
      rw [UInt8.le_iff_toNat_le]
      simp at hsecond ⊢
      omega
    · split at h
      · rename_i hsecond
        rcases List.mem_cons.1 h with rfl | h
        · simp only [isSecondOfFour, decide_eq_true_eq, UInt8.le_iff_toNat_le] at hsecond
          rw [UInt8.le_iff_toNat_le]
          simp at hsecond ⊢
          omega
        · exact isContinuation_high (List.mem_filter.1 h).2
      · cases h
  · cases h

theorem replacement_high : ∀ b ∈ String.utf8EncodeChar (Char.ofNat 0xFFFD), 128 ≤ b := by
  have hbytes : String.utf8EncodeChar (Char.ofNat 0xFFFD) = [0xEF, 0xBF, 0xBD] := rfl
  rw [hbytes]
  exact List.forall_mem_cons.2 ⟨by decide, List.forall_mem_cons.2 ⟨by decide, List.forall_mem_singleton.2 (by decide)⟩⟩

theorem from_utf8_lossy_lossy (bytes : List UInt8) : Lossy bytes (utf8 (from_utf8_lossy bytes)) := by
  have hfrom : ∀ (fuel : Nat) (bytes : List UInt8), bytes.length ≤ fuel →
      Lossy bytes ((lossyFrom fuel bytes).flatMap String.utf8EncodeChar) := by
    intro fuel
    induction fuel with
    | zero =>
      intro bytes hfuel
      rw [List.eq_nil_of_length_eq_zero (Nat.le_zero.1 hfuel)]
      exact .nil
    | succ fuel ih =>
      intro bytes hfuel
      cases bytes with
      | nil => exact .nil
      | cons lead rest =>
        rw [List.length_cons] at hfuel
        rw [lossyFrom]
        split
        · rename_i c hc
          have hbytes := encode_of_decodeHead hc
          have hpos := c.utf8Size_pos
          have hrest := ih ((lead :: rest).drop c.utf8Size) (by rw [List.length_drop, List.length_cons]; omega)
          rw [List.flatMap_cons]
          conv => lhs; rw [hbytes]
          exact hrest.encode c
        · rename_i hnone
          have hlead : 128 ≤ lead := by
            by_contra hlow
            exact decodeHead_ascii (UInt8.not_le.1 hlow) rest hnone
          have hprefix := invalidTail_prefix lead rest
          have hrest := ih (rest.drop (invalidTail lead rest).length) (by rw [List.length_drop]; omega)
          have hbytes : lead :: rest = (lead :: invalidTail lead rest) ++ rest.drop (invalidTail lead rest).length := by
            rw [List.cons_append, List.prefix_iff_eq_append.1 hprefix]
          rw [List.flatMap_cons]
          conv => lhs; rw [hbytes]
          refine .high (List.cons_ne_nil _ _) (List.cons_ne_nil _ _) ?_ replacement_high hrest
          intro b hb
          rcases List.mem_cons.1 hb with rfl | hb
          · exact hlead
          · exact invalidTail_high hb
  have := hfrom bytes.length bytes (Nat.le_refl _)
  rw [← utf8_ofList] at this
  exact this

/-! What is ASCII is seen through the losses. -/

theorem high_ne_ascii {b c : UInt8} (hb : b < 128) (hc : 128 ≤ c) : c ≠ b := by
  rintro rfl
  exact absurd hb (UInt8.not_lt.2 hc)

theorem Lossy.eq_ascii_iff {v w text : List UInt8} (h : Lossy v w) (htext : ∀ b ∈ text, b < 128) :
    v = text ↔ w = text := by
  have hno : ∀ {u text : List UInt8} (rest : List UInt8), (∀ b ∈ text, b < 128) → u ≠ [] → (∀ b ∈ u, 128 ≤ b) →
      u ++ rest ≠ text := by
    intro u text rest htext hne hu heq
    obtain ⟨b, u, rfl⟩ := List.exists_cons_of_ne_nil hne
    exact high_ne_ascii (htext b (by rw [← heq]; simp)) (hu b List.mem_cons_self) rfl
  induction h generalizing text with
  | nil => rfl
  | ascii hb h ih =>
    cases text with
    | nil => simp
    | cons t text =>
      rw [List.cons_eq_cons, List.cons_eq_cons]
      exact and_congr_right fun _ => ih fun b hb => htext b (List.mem_cons_of_mem _ hb)
  | high hu hu' hhigh hhigh' h ih => exact iff_of_false (hno _ htext hu hhigh) (hno _ htext hu' hhigh')

theorem Lossy.eq_nil_iff {v w : List UInt8} (h : Lossy v w) : v = [] ↔ w = [] :=
  h.eq_ascii_iff (by simp)

theorem from_utf8_lossy_eq_empty_iff {bytes : List UInt8} : from_utf8_lossy bytes = "" ↔ bytes = [] := by
  rw [(from_utf8_lossy_lossy bytes).eq_nil_iff]
  exact ⟨fun h => by rw [h]; rfl, fun h => utf8_injective h⟩

theorem Lossy.head?_iff {v w : List UInt8} {b : UInt8} (h : Lossy v w) (hb : b < 128) :
    v.head? = some b ↔ w.head? = some b := by
  cases h with
  | nil => rfl
  | ascii => rfl
  | @high u u' v w hu hu' hhigh hhigh' h =>
    obtain ⟨c, u, rfl⟩ := List.exists_cons_of_ne_nil hu
    obtain ⟨c', u', rfl⟩ := List.exists_cons_of_ne_nil hu'
    have hc := high_ne_ascii hb (hhigh c List.mem_cons_self)
    have hc' := high_ne_ascii hb (hhigh' c' List.mem_cons_self)
    simp [hc, hc']

theorem Lossy.splitOn {v w : List UInt8} {sep : UInt8} (h : Lossy v w) (hsep : sep < 128) :
    List.Forall₂ Lossy (v.splitOn sep) (w.splitOn sep) := by
  -- No byte of a run that is not ASCII is a separator, so the whole run joins the first part.
  have hrun : ∀ {u : List UInt8} (rest : List UInt8), (∀ b ∈ u, 128 ≤ b) →
      (u ++ rest).splitOn sep = (rest.splitOn sep).modifyHead (u ++ ·) := by
    intro u rest hu
    induction u with
    | nil =>
      rw [List.nil_append]
      generalize rest.splitOn sep = parts
      cases parts <;> rfl
    | cons b u ih =>
      have hb : (b == sep) = false := by simpa using high_ne_ascii hsep (hu b List.mem_cons_self)
      rw [List.cons_append, List.splitOn_cons_eq_if_modifyHead, if_neg (by simp [hb]),
        ih fun c hc => hu c (List.mem_cons_of_mem _ hc)]
      generalize rest.splitOn sep = parts
      cases parts <;> rfl
  induction h with
  | nil => exact .cons .nil .nil
  | @ascii b v w hb h ih =>
    rw [List.splitOn_cons_eq_if_modifyHead, List.splitOn_cons_eq_if_modifyHead]
    generalize v.splitOn sep = parts, w.splitOn sep = parts' at ih
    by_cases hbs : (b == sep) = true
    · rw [if_pos hbs, if_pos hbs]
      exact .cons .nil ih
    · rw [if_neg hbs, if_neg hbs]
      cases ih with
      | nil => exact .nil
      | cons hfirst hrest => exact .cons (.ascii hb hfirst) hrest
  | @high u u' v w hu hu' hhigh hhigh' h ih =>
    rw [hrun _ hhigh, hrun _ hhigh']
    generalize v.splitOn sep = parts, w.splitOn sep = parts' at ih
    cases ih with
    | nil => exact .nil
    | cons hfirst hrest => exact .cons (.high hu hu' hhigh hhigh' hfirst) hrest

end Systems
