import TriadRuntime.Systems.Faults
import TriadRuntime.Frame
/-!
# Frames over streams that fail (`frame.rs`)

The writers and the readers of `Frame`, over a stream whose calls may fail
part-way. `std` and Tokio contribute one contract: `write_all` writes until
nothing is left or a call fails, a call that takes nothing being `WriteZero`;
`read_exact` reads until the buffer is full, the stream ends or a call fails. A
dropped future of `write_body_async` or `read_body_async` leaves what a failed
call leaves.
-/

open Systems

namespace TriadRuntime

namespace LengthPrefixedCodec

/-- The one body of `write_body` and `write_body_async`. -/
def write_body_to (codec : LengthPrefixedCodec) (writer : Sink UInt8 ErrorKind) (body : FrameBody) :
    Except FrameError Unit × Sink UInt8 ErrorKind :=
  match codec.encode_body body with
  | .error error => (.error error, writer)
  | .ok frame =>
    match writer.writeAll .Other frame with
    | (.error kind, writer) => (.error (.Io kind), writer)
    | (.ok (), writer) => (.ok (), writer)

/-- The one body of `read_body` and `read_body_async`, over any kind of reader. -/
def read_body_over {ρ : Type} (read_exact : Nat → ρ → Except FrameError (List UInt8) × ρ)
    (codec : LengthPrefixedCodec) (reader : ρ) : Except FrameError FrameBody × ρ :=
  match read_exact LENGTH_PREFIX_BYTE_COUNT reader with
  | (.error error, reader) => (.error error, reader)
  | (.ok length_bytes, reader) =>
    let length := (from_be_bytes length_bytes).toNat
    match codec.validate_length length with
    | .error error => (.error error, reader)
    | .ok () =>
      match read_exact length reader with
      | (.error error, reader) => (.error error, reader)
      | (.ok body, reader) => (.ok ⟨body⟩, reader)

/-- `Read::read_exact` and `AsyncReadExt::read_exact` on a stream that may fail. -/
def read_exact (n : Nat) (reader : Source UInt8 ErrorKind) :
    Except FrameError (List UInt8) × Source UInt8 ErrorKind :=
  match reader.readExact n with
  | (.ok bytes, rest) => (.ok bytes, rest)
  | (.error none, rest) => (.error (.Io .UnexpectedEof), rest)
  | (.error (some kind), rest) => (.error (.Io kind), rest)

def read_body_from (codec : LengthPrefixedCodec) := read_body_over read_exact codec

end LengthPrefixedCodec

/-- Several writes to one stream. -/
def write_all_to (codec : LengthPrefixedCodec) :
    List FrameBody → Sink UInt8 ErrorKind → List (Except FrameError Unit) × Sink UInt8 ErrorKind
  | [], writer => ([], writer)
  | body :: rest, writer =>
    let done := codec.write_body_to writer body
    let more := write_all_to codec rest done.2
    (done.1 :: more.1, more.2)

/-- Several reads of one stream. -/
def read_all_from (codec : LengthPrefixedCodec) :
    Nat → Source UInt8 ErrorKind → List (Except FrameError FrameBody) × Source UInt8 ErrorKind
  | 0, reader => ([], reader)
  | n + 1, reader =>
    let done := codec.read_body_from reader
    let more := read_all_from codec n done.2
    (done.1 :: more.1, more.2)

/-! ## The streams of `Frame` are those that never fail -/

theorem read_body_with_eq (read : Nat → Reader UInt8 → Except FrameError (List UInt8) × Reader UInt8)
    (codec : LengthPrefixedCodec) (reader : Reader UInt8) :
    codec.read_body_with read reader = codec.read_body_over read reader := by
  unfold LengthPrefixedCodec.read_body_with LengthPrefixedCodec.read_body_over
  rcases read LENGTH_PREFIX_BYTE_COUNT reader with ⟨error | length_bytes, reader⟩
  · rfl
  · rcases h : codec.validate_length (from_be_bytes length_bytes).toNat with error | ⟨⟩
    · simp only [h]
    · simp only [h]
      rcases read (from_be_bytes length_bytes).toNat reader with ⟨error | body, reader⟩ <;> rfl

theorem write_body_to_total (codec : LengthPrefixedCodec) (stream : List UInt8) (body : FrameBody) :
    codec.write_body_to ⟨[], stream⟩ body =
      ((codec.write_body stream body).1, ⟨[], (codec.write_body stream body).2⟩) := by
  unfold LengthPrefixedCodec.write_body_to LengthPrefixedCodec.write_body LengthPrefixedCodec.write_body_with
  rcases codec.encode_body body with error | frame
  · rfl
  · simp only [Sink.writeAll_total, std_write_all]

theorem read_exact_total (n : Nat) (reader : Reader UInt8) :
    LengthPrefixedCodec.read_exact n (reader.map .ok) =
      ((std_read_exact n reader).1, (std_read_exact n reader).2.map .ok) := by
  unfold LengthPrefixedCodec.read_exact std_read_exact
  rw [Source.readExact_total]
  rcases reader.readExact n with ⟨_ | bytes, rest⟩ <;> rfl

theorem read_body_from_total (codec : LengthPrefixedCodec) (reader : Reader UInt8) :
    codec.read_body_from (reader.map .ok) =
      ((codec.read_body reader).1, (codec.read_body reader).2.map .ok) := by
  rw [LengthPrefixedCodec.read_body, read_body_with_eq]
  unfold LengthPrefixedCodec.read_body_from LengthPrefixedCodec.read_body_over
  rw [read_exact_total]
  rcases std_read_exact LENGTH_PREFIX_BYTE_COUNT reader with ⟨error | length_bytes, reader⟩
  · rfl
  rcases h : codec.validate_length (from_be_bytes length_bytes).toNat with error | ⟨⟩
  · simp only [h]
  simp only [h]
  rw [read_exact_total]
  rcases std_read_exact (from_be_bytes length_bytes).toNat reader with ⟨error | body, reader⟩ <;> rfl

/-! ## What one call does -/

theorem frame_length (body : FrameBody) : (frame body).length = LENGTH_PREFIX_BYTE_COUNT + body.len := by
  rw [frame, List.length_append, to_be_bytes_length, FrameBody.len]

/-- A refused body leaves the stream as it was. Of another the frame's first
part goes out, and the whole frame exactly when the call succeeds. -/
theorem write_body_to_spec (limit : Nat) (writer : Sink UInt8 ErrorKind) (body : FrameBody) :
    (fits limit body = false ∧
      LengthPrefixedCodec.write_body_to ⟨⟨limit⟩⟩ writer body = (.error (.BodyTooLarge body.len), writer)) ∨
    (fits limit body = true ∧ ∃ k, k ≤ (frame body).length ∧
      (LengthPrefixedCodec.write_body_to ⟨⟨limit⟩⟩ writer body).2.taken = writer.taken ++ (frame body).take k ∧
      (((LengthPrefixedCodec.write_body_to ⟨⟨limit⟩⟩ writer body).1 = .ok () ∧ k = (frame body).length) ∨
        ((∃ kind, (LengthPrefixedCodec.write_body_to ⟨⟨limit⟩⟩ writer body).1 = .error (.Io kind)) ∧
          k < (frame body).length))) := by
  unfold LengthPrefixedCodec.write_body_to
  rw [encode_body_spec]
  by_cases hfit : fits limit body = true
  · refine .inr ⟨hfit, ?_⟩
    obtain ⟨k, hk, htaken, hok⟩ := writer.writeAll_part ErrorKind.Other (frame body)
    refine ⟨k, hk, ?_⟩
    rw [if_pos hfit]
    rcases hwrite : writer.writeAll ErrorKind.Other (frame body) with ⟨kind | ⟨⟩, writer'⟩
    · rw [hwrite] at htaken hok
      have hlt : k ≠ (frame body).length := fun h => nomatch hok.2 h
      simp only [hwrite]
      exact ⟨htaken, .inr ⟨⟨kind, rfl⟩, by omega⟩⟩
    · rw [hwrite] at htaken hok
      simp only [hwrite]
      exact ⟨htaken, .inl ⟨trivial, hok.1 rfl⟩⟩
  · exact .inl ⟨by simpa using hfit, by rw [if_neg hfit]⟩

/-- The error of a read that stopped. -/
def stopped : Option ErrorKind → FrameError
  | none => .Io .UnexpectedEof
  | some kind => .Io kind

theorem read_exact_tokens {n : Nat} {reader : Source UInt8 ErrorKind}
    {result : Except (Option ErrorKind) (List UInt8)} {tokens : List (Except ErrorKind UInt8)}
    (h : Source.readTokens n reader.tokens = (result, tokens)) :
    ∃ reader', LengthPrefixedCodec.read_exact n reader = (result.mapError stopped, reader') ∧
      reader'.tokens = tokens := by
  obtain ⟨h1, h2⟩ := Source.readExact_tokens n reader
  rw [h] at h1 h2
  unfold LengthPrefixedCodec.read_exact
  rcases hread : reader.readExact n with ⟨(_ | kind) | bytes, rest⟩ <;> rw [hread] at h1 h2 <;> subst h1 <;>
    exact ⟨rest, rfl, h2⟩

theorem frame_length_bytes (body : FrameBody) (hfit : body.len ≤ U32_MAX) :
    (from_be_bytes (to_be_bytes (UInt32.ofNat body.len))).toNat = body.len := by
  simp only [U32_MAX] at hfit
  rw [from_be_bytes_to_be_bytes, UInt32.toNat_ofNat', Nat.mod_eq_of_lt (by omega)]

theorem validate_fits {limit : Nat} {body : FrameBody} (hfit : fits limit body = true) :
    LengthPrefixedCodec.validate_length ⟨⟨limit⟩⟩ body.len = .ok () ∧ body.len ≤ U32_MAX := by
  simp only [fits, decide_eq_true_eq, Nat.le_min] at hfit
  exact ⟨by simp [LengthPrefixedCodec.validate_length, MaximumFrameLength.accepts, hfit.1], hfit.2⟩

/-- The body once the prefix has been read and its length admitted. -/
theorem read_body_after {codec : LengthPrefixedCodec} {reader reader₁ : Source UInt8 ErrorKind}
    {length_bytes : List UInt8} {n : Nat}
    (h₁ : LengthPrefixedCodec.read_exact LENGTH_PREFIX_BYTE_COUNT reader = (.ok length_bytes, reader₁))
    (hn : (from_be_bytes length_bytes).toNat = n) (hv : codec.validate_length n = .ok ()) :
    codec.read_body_from reader =
      ((LengthPrefixedCodec.read_exact n reader₁).1.map FrameBody.mk,
        (LengthPrefixedCodec.read_exact n reader₁).2) := by
  unfold LengthPrefixedCodec.read_body_from LengthPrefixedCodec.read_body_over
  simp only [h₁, hn, hv]
  rcases LengthPrefixedCodec.read_exact n reader₁ with ⟨error | body, rest⟩ <;> rfl

theorem read_body_from_stopped {codec : LengthPrefixedCodec} {reader reader₁ : Source UInt8 ErrorKind}
    {error : FrameError}
    (h₁ : LengthPrefixedCodec.read_exact LENGTH_PREFIX_BYTE_COUNT reader = (.error error, reader₁)) :
    codec.read_body_from reader = (.error error, reader₁) := by
  unfold LengthPrefixedCodec.read_body_from LengthPrefixedCodec.read_body_over
  simp only [h₁]

/-- A whole frame is read, and what follows it left. -/
theorem read_whole_frame {limit : Nat} {body : FrameBody} (hfit : fits limit body = true)
    {reader : Source UInt8 ErrorKind} {rest : List (Except ErrorKind UInt8)}
    (htokens : reader.tokens = (frame body).map .ok ++ rest) :
    ∃ reader', LengthPrefixedCodec.read_body_from ⟨⟨limit⟩⟩ reader = (.ok body, reader') ∧
      reader'.tokens = rest := by
  obtain ⟨hvalid, hmax⟩ := validate_fits hfit
  rw [frame, List.map_append, List.append_assoc] at htokens
  have hprefix := Source.readTokens_whole (to_be_bytes (UInt32.ofNat body.len)) (body.bytes.map .ok ++ rest)
  rw [← htokens, to_be_bytes_length] at hprefix
  obtain ⟨reader₁, h1, ht1⟩ := read_exact_tokens hprefix
  have hbody := Source.readTokens_whole body.bytes rest
  rw [← ht1] at hbody
  obtain ⟨reader₂, h2, ht2⟩ := read_exact_tokens hbody
  refine ⟨reader₂, ?_, ht2⟩
  rw [read_body_after h1 (frame_length_bytes body hmax) hvalid, FrameBody.len, h2]
  rfl

/-- `rest` stops every read that needs something of it, and leaves `after`. -/
def Stops (rest : List (Except ErrorKind UInt8)) (stop : Option ErrorKind) (after : List (Except ErrorKind UInt8)) :
    Prop :=
  ∀ n, Source.readTokens (n + 1) rest = (.error stop, after)

theorem stops_end : Stops [] none [] := fun _ => rfl

theorem stops_failed (kind : ErrorKind) (rest : List (Except ErrorKind UInt8)) :
    Stops (.error kind :: rest) (some kind) rest := fun _ => rfl

theorem Stops.part {rest after : List (Except ErrorKind UInt8)} {stop : Option ErrorKind} (h : Stops rest stop after)
    {n : Nat} {bytes : List UInt8} (hn : bytes.length < n) :
    Source.readTokens n (bytes.map .ok ++ rest) = (.error stop, after) := by
  obtain ⟨m, rfl⟩ := Nat.exists_eq_add_of_lt hn
  rw [Nat.add_assoc, Source.readTokens_append, h m]
  rfl

theorem take_frame (body : FrameBody) {k : Nat} (hk : LENGTH_PREFIX_BYTE_COUNT ≤ k) :
    (frame body).take k =
      to_be_bytes (UInt32.ofNat body.len) ++ body.bytes.take (k - LENGTH_PREFIX_BYTE_COUNT) := by
  rw [frame, List.take_append, to_be_bytes_length, List.take_of_length_le (by rw [to_be_bytes_length]; omega)]

/-- A body that stops short of its prefix is lost as far as it came. -/
theorem read_part_body {limit : Nat} {body : FrameBody} (hfit : fits limit body = true) {bytes : List UInt8}
    (hlt : bytes.length < body.len) {reader : Source UInt8 ErrorKind} {rest after : List (Except ErrorKind UInt8)}
    {stop : Option ErrorKind} (hstop : Stops rest stop after)
    (htokens : reader.tokens = (to_be_bytes (UInt32.ofNat body.len) ++ bytes).map .ok ++ rest) :
    ∃ reader', LengthPrefixedCodec.read_body_from ⟨⟨limit⟩⟩ reader = (.error (stopped stop), reader') ∧
      reader'.tokens = after := by
  obtain ⟨hvalid, hmax⟩ := validate_fits hfit
  rw [List.map_append, List.append_assoc] at htokens
  have hprefix := Source.readTokens_whole (to_be_bytes (UInt32.ofNat body.len)) (bytes.map .ok ++ rest)
  rw [← htokens, to_be_bytes_length] at hprefix
  obtain ⟨reader₁, h1, ht1⟩ := read_exact_tokens hprefix
  have hbody := hstop.part hlt
  rw [← ht1] at hbody
  obtain ⟨reader₂, h2, ht2⟩ := read_exact_tokens hbody
  refine ⟨reader₂, ?_, ht2⟩
  rw [read_body_after h1 (frame_length_bytes body hmax) hvalid, h2]
  rfl

/-- A frame that stops part-way is lost as far as it came. -/
theorem read_part_frame {limit : Nat} {body : FrameBody} (hfit : fits limit body = true) {k : Nat}
    (hk : k < (frame body).length) {reader : Source UInt8 ErrorKind} {rest after : List (Except ErrorKind UInt8)}
    {stop : Option ErrorKind} (hstop : Stops rest stop after)
    (htokens : reader.tokens = ((frame body).take k).map .ok ++ rest) :
    ∃ reader', LengthPrefixedCodec.read_body_from ⟨⟨limit⟩⟩ reader = (.error (stopped stop), reader') ∧
      reader'.tokens = after := by
  rw [frame_length] at hk
  by_cases hshort : k < LENGTH_PREFIX_BYTE_COUNT
  · -- the prefix is not whole
    have hlen : ((frame body).take k).length < LENGTH_PREFIX_BYTE_COUNT := by
      rw [List.length_take]; omega
    have hprefix := hstop.part hlen
    rw [← htokens] at hprefix
    obtain ⟨reader₁, h1, ht1⟩ := read_exact_tokens hprefix
    exact ⟨reader₁, read_body_from_stopped h1, ht1⟩
  · rw [take_frame body (Nat.le_of_not_lt hshort)] at htokens
    refine read_part_body hfit ?_ hstop htokens
    rw [List.length_take]; omega

/-- A stream that stops before a frame starts has lost nothing. -/
theorem read_no_frame (limit : Nat) {reader : Source UInt8 ErrorKind}
    {rest after : List (Except ErrorKind UInt8)} {stop : Option ErrorKind} (hstop : Stops rest stop after)
    (htokens : reader.tokens = rest) :
    ∃ reader', LengthPrefixedCodec.read_body_from ⟨⟨limit⟩⟩ reader = (.error (stopped stop), reader') ∧
      reader'.tokens = after := by
  have hempty : fits limit ⟨[]⟩ = true := by simp [fits, FrameBody.len]
  have hnone : 0 < (frame ⟨[]⟩).length := by rw [frame_length, LENGTH_PREFIX_BYTE_COUNT]; omega
  exact read_part_frame hempty hnone hstop htokens

/-! ## Whole conversations -/

/-- The bodies whose writes succeeded. -/
def written : List FrameBody → List (Except FrameError Unit) → List FrameBody
  | body :: bodies, .ok () :: results => body :: written bodies results
  | _ :: bodies, .error _ :: results => written bodies results
  | _, _ => []

/-- No call is made after one whose stream failed. -/
def StopsAtFailure (results : List (Except FrameError Unit)) : Prop :=
  ∀ result ∈ results.dropLast, ∀ kind, result ≠ .error (.Io kind)

/-- The first part of the frame of one of the bodies, or nothing. -/
def Torn (limit : Nat) (bodies : List FrameBody) (part : List UInt8) : Prop :=
  part = [] ∨ ∃ body ∈ bodies, fits limit body = true ∧ ∃ k < (frame body).length, part = (frame body).take k

theorem Torn.cons {limit : Nat} {bodies : List FrameBody} {part : List UInt8} (h : Torn limit bodies part)
    (body : FrameBody) : Torn limit (body :: bodies) part :=
  h.imp_right fun ⟨torn, hmem, h⟩ => ⟨torn, List.mem_cons_of_mem body hmem, h⟩

theorem StopsAtFailure.tail {result : Except FrameError Unit} {results : List (Except FrameError Unit)}
    (h : StopsAtFailure (result :: results)) : StopsAtFailure results := by
  intro r hr
  refine h r ?_
  rcases results with _ | ⟨r', results⟩
  · simp at hr
  · rw [List.dropLast_cons_cons]
    exact List.mem_cons_of_mem _ hr

theorem StopsAtFailure.last {kind : ErrorKind} {results : List (Except FrameError Unit)}
    (h : StopsAtFailure (.error (.Io kind) :: results)) : results = [] := by
  rcases results with _ | ⟨r', results⟩
  · rfl
  · exact absurd rfl (h (.error (.Io kind)) (by simp) kind)

theorem write_all_to_length (codec : LengthPrefixedCodec) (bodies : List FrameBody)
    (writer : Sink UInt8 ErrorKind) : (write_all_to codec bodies writer).1.length = bodies.length := by
  induction bodies generalizing writer with
  | nil => rfl
  | cons body bodies ih => simp [write_all_to, ih]

/-- A writer that stops at the first failure of its stream leaves the frames of
the bodies it was told are written, and at most a torn frame after them. -/
theorem write_all_to_spec (limit : Nat) (bodies : List FrameBody) (writer : Sink UInt8 ErrorKind)
    (hstop : StopsAtFailure (write_all_to ⟨⟨limit⟩⟩ bodies writer).1) :
    ∃ part, (write_all_to ⟨⟨limit⟩⟩ bodies writer).2.taken =
        writer.taken ++ (written bodies (write_all_to ⟨⟨limit⟩⟩ bodies writer).1).flatMap frame ++ part ∧
      Torn limit bodies part ∧
      ((∀ result ∈ (write_all_to ⟨⟨limit⟩⟩ bodies writer).1, ∀ kind, result ≠ .error (.Io kind)) → part = []) ∧
      ∀ body ∈ written bodies (write_all_to ⟨⟨limit⟩⟩ bodies writer).1, body ∈ bodies ∧ fits limit body = true := by
  induction bodies generalizing writer with
  | nil => exact ⟨[], by simp [write_all_to, written], .inl rfl, fun _ => rfl, by simp [written]⟩
  | cons body bodies ih =>
    obtain ⟨part, htaken, htorn, hpart, hwritten⟩ :=
      ih (LengthPrefixedCodec.write_body_to ⟨⟨limit⟩⟩ writer body).2 hstop.tail
    have hwritten' : ∀ b ∈ written bodies
        (write_all_to ⟨⟨limit⟩⟩ bodies (LengthPrefixedCodec.write_body_to ⟨⟨limit⟩⟩ writer body).2).1,
        b ∈ body :: bodies ∧ fits limit b = true :=
      fun b hb => ⟨List.mem_cons_of_mem body (hwritten b hb).1, (hwritten b hb).2⟩
    rcases write_body_to_spec limit writer body with ⟨-, hwrite⟩ | ⟨hfit, k, hk, hput, hresult⟩
    · -- a body that is too large
      rw [hwrite] at htaken hwritten'
      refine ⟨part, ?_, htorn.cons body, fun h => hpart fun r hr => h r (List.mem_cons_of_mem _ hr), ?_⟩ <;>
        simp only [write_all_to, hwrite, written]
      · exact htaken
      · exact hwritten'
    rcases hresult with ⟨hok, rfl⟩ | ⟨⟨kind, herror⟩, hlt⟩
    · -- a frame that went out whole
      rw [hput, List.take_length] at htaken
      refine ⟨part, ?_, htorn.cons body, fun h => hpart fun r hr => h r (List.mem_cons_of_mem _ hr), ?_⟩ <;>
        simp only [write_all_to, hok, written]
      · rw [htaken, List.flatMap_cons]
        simp only [List.append_assoc]
      · intro b hb
        rcases List.mem_cons.1 hb with rfl | hb
        · exact ⟨List.mem_cons_self, hfit⟩
        · exact hwritten' b hb
    · -- the frame the stream tore: no call follows
      have hnil : bodies = [] := by
        have hlast := StopsAtFailure.last (show StopsAtFailure (.error (.Io kind) :: _) by
          simpa only [write_all_to, herror] using hstop)
        exact List.length_eq_zero_iff.1 (by rw [← write_all_to_length, hlast, List.length_nil])
      subst hnil
      refine ⟨(frame body).take k, ?_, .inr ⟨body, by simp, hfit, k, hlt, rfl⟩, fun h => ?_, ?_⟩
      · simp only [write_all_to, herror, written]
        rw [hput, List.flatMap_nil, List.append_nil]
      · exact absurd herror (h _ List.mem_cons_self kind)
      · simp [write_all_to, herror, written]

/-- What a stream brings that fails between frames: whole frames and failures. -/
inductive Segment where
  | whole (body : FrameBody)
  | failed (kind : ErrorKind)

def Segment.tokens : Segment → List (Except ErrorKind UInt8)
  | .whole body => (frame body).map .ok
  | .failed kind => [.error kind]

/-- What a read makes of it. -/
def Segment.result : Segment → Except FrameError FrameBody
  | .whole body => .ok body
  | .failed kind => .error (.Io kind)

def Segment.body? : Segment → Option FrameBody
  | .whole body => some body
  | .failed _ => none

/-- Every frame is read, and every failure between two is reported once and
costs nothing. -/
theorem read_all_from_segments (limit : Nat) (segments : List Segment)
    (hfit : ∀ body ∈ segments.filterMap Segment.body?, fits limit body = true) {reader : Source UInt8 ErrorKind}
    {rest : List (Except ErrorKind UInt8)} (htokens : reader.tokens = segments.flatMap Segment.tokens ++ rest) :
    (read_all_from ⟨⟨limit⟩⟩ segments.length reader).1 = segments.map Segment.result ∧
      (read_all_from ⟨⟨limit⟩⟩ segments.length reader).2.tokens = rest := by
  induction segments generalizing reader with
  | nil => exact ⟨rfl, htokens⟩
  | cons segment segments ih =>
    rw [List.flatMap_cons, List.append_assoc] at htokens
    have hone : ∃ reader', LengthPrefixedCodec.read_body_from ⟨⟨limit⟩⟩ reader = (segment.result, reader') ∧
        reader'.tokens = segments.flatMap Segment.tokens ++ rest := by
      rcases segment with body | kind
      · exact read_whole_frame (hfit body (List.mem_filterMap.2 ⟨_, List.mem_cons_self, rfl⟩)) htokens
      · exact read_no_frame limit (stops_failed kind _) htokens
    obtain ⟨reader', hread, htokens'⟩ := hone
    have hrest : ∀ body ∈ segments.filterMap Segment.body?, fits limit body = true := by
      intro body hb
      obtain ⟨s, hs, hbody⟩ := List.mem_filterMap.1 hb
      exact hfit body (List.mem_filterMap.2 ⟨s, List.mem_cons_of_mem _ hs, hbody⟩)
    obtain ⟨h1, h2⟩ := ih hrest htokens'
    rw [List.length_cons]
    simp only [read_all_from, hread]
    exact ⟨by rw [h1, List.map_cons], h2⟩

theorem write_all_to_extends (codec : LengthPrefixedCodec) (bodies : List FrameBody)
    (writer : Sink UInt8 ErrorKind) : writer.taken <+: (write_all_to codec bodies writer).2.taken := by
  induction bodies generalizing writer with
  | nil => exact List.prefix_refl _
  | cons body bodies ih =>
    refine List.IsPrefix.trans ?_ (ih _)
    obtain ⟨⟨limit⟩⟩ := codec
    rcases write_body_to_spec limit writer body with ⟨-, hwrite⟩ | ⟨-, k, -, hput, -⟩
    · simp only [hwrite, List.prefix_refl]
    · rw [hput]
      exact List.prefix_append _ _

/-- What was read before the first read that failed. -/
def beforeFailure : List (Except FrameError FrameBody) → List FrameBody
  | .ok body :: results => body :: beforeFailure results
  | _ => []

/-- A first write in two calls, a second that fails when one byte is missing. -/
def tornCalls : List (Except ErrorKind Nat) := [.ok 2, .ok 3, .ok 5, .error .Other]

/-- A frame torn in its body is filled up by what follows it, if enough does. -/
theorem read_filled_frame {limit : Nat} {body : FrameBody} (hfit : fits limit body = true) {k : Nat}
    (hk : LENGTH_PREFIX_BYTE_COUNT ≤ k) (hlt : k < (frame body).length) {reader : Source UInt8 ErrorKind}
    {later : List UInt8} (htokens : reader.tokens = ((frame body).take k ++ later).map .ok) :
    ∃ reader', LengthPrefixedCodec.read_body_from ⟨⟨limit⟩⟩ reader =
        (if (frame body).length - k ≤ later.length then
          .ok ⟨((frame body).take k).drop LENGTH_PREFIX_BYTE_COUNT ++ later.take ((frame body).length - k)⟩
        else .error (.Io .UnexpectedEof), reader') ∧
      reader'.tokens = (later.drop ((frame body).length - k)).map .ok := by
  rw [frame_length] at hlt
  rw [take_frame body hk, List.append_assoc] at htokens
  rw [take_frame body hk, List.drop_left' (to_be_bytes_length _), frame_length]
  by_cases henough : LENGTH_PREFIX_BYTE_COUNT + body.len - k ≤ later.length
  · rw [if_pos henough]
    have hlen : FrameBody.len ⟨body.bytes.take (k - LENGTH_PREFIX_BYTE_COUNT) ++
        later.take (LENGTH_PREFIX_BYTE_COUNT + body.len - k)⟩ = body.len := by
      rw [FrameBody.len, List.length_append, List.length_take, List.length_take, ← FrameBody.len]
      omega
    refine read_whole_frame (by rw [fits, hlen]; exact hfit) ?_
    rw [htokens, frame, hlen, ← List.map_append, List.append_assoc, List.append_assoc, List.take_append_drop]
  · rw [if_neg henough, List.drop_of_length_le (by omega)]
    refine read_part_body hfit ?_ stops_end (by rw [htokens, List.append_nil])
    rw [List.length_append, List.length_take, ← FrameBody.len]
    omega

/-- Let a call fail when its prefix is on the stream and its body is not, let
the writer go on, and let the reader's limit take what was written up to there.
A reader gets what had been written before, and then, for
the body whose write failed, its first part filled up with the bytes that
follow: the later frames lose as many. It fails only where too few follow. -/
theorem torn_frame_swallows (writer_limit reader_limit : Nat) (before after : List FrameBody) (body : FrameBody)
    (calls : List (Except ErrorKind Nat)) :
    let first := write_all_to ⟨⟨writer_limit⟩⟩ before ⟨calls, []⟩
    let torn := LengthPrefixedCodec.write_body_to ⟨⟨writer_limit⟩⟩ first.2 body
    let last := write_all_to ⟨⟨writer_limit⟩⟩ after torn.2
    let part := torn.2.taken.drop first.2.taken.length
    let later := last.2.taken.drop torn.2.taken.length
    let missing := LENGTH_PREFIX_BYTE_COUNT + body.len - part.length
    (∀ b ∈ body :: before, fits writer_limit b = true → fits reader_limit b = true) →
    (∀ result ∈ first.1, ∀ kind, result ≠ .error (.Io kind)) → (∃ kind, torn.1 = .error (.Io kind)) →
    LENGTH_PREFIX_BYTE_COUNT ≤ part.length →
    ∀ reader : Source UInt8 ErrorKind, reader.tokens = last.2.taken.map .ok →
      let read := read_all_from ⟨⟨reader_limit⟩⟩ (written before first.1).length reader
      let next := LengthPrefixedCodec.read_body_from ⟨⟨reader_limit⟩⟩ read.2
      0 < missing ∧ read.1 = (written before first.1).map .ok ∧
      next.1 = (if missing ≤ later.length then
        .ok ⟨part.drop LENGTH_PREFIX_BYTE_COUNT ++ later.take missing⟩ else .error (.Io .UnexpectedEof)) ∧
      next.2.tokens = (later.drop missing).map .ok := by
  intro first torn last part later missing hread hunbroken herror hprefix reader htokens read next
  obtain ⟨part₁, hfirst, -, hpart₁, hwritten⟩ := write_all_to_spec writer_limit before ⟨calls, []⟩ (fun result hr =>
    hunbroken result (List.dropLast_subset _ hr))
  rw [hpart₁ hunbroken, List.append_nil] at hfirst
  have hfirst : first.2.taken = (written before first.1).flatMap frame := hfirst
  -- the torn call's part, and what the later calls put after it
  obtain ⟨hfit, k, hlt, htorn⟩ : fits writer_limit body = true ∧ ∃ k < (frame body).length,
      torn.2.taken = first.2.taken ++ (frame body).take k := by
    obtain ⟨kind, herror⟩ := herror
    rcases write_body_to_spec writer_limit first.2 body with ⟨-, hwrite⟩ | ⟨hfit, k, -, hput, ⟨hok, -⟩ | ⟨-, hlt⟩⟩
    · exact absurd (herror.symm.trans (congrArg Prod.fst hwrite)) (by simp)
    · exact absurd (herror.symm.trans hok) (by simp)
    · exact ⟨hfit, k, hlt, hput⟩
  obtain ⟨more, hlast⟩ := write_all_to_extends ⟨⟨writer_limit⟩⟩ after torn.2
  have hlast : last.2.taken = torn.2.taken ++ more := hlast.symm
  have hpart : part = (frame body).take k := by
    show torn.2.taken.drop first.2.taken.length = _
    rw [htorn, List.drop_left]
  have hlater : later = more := by
    show last.2.taken.drop torn.2.taken.length = _
    rw [hlast, List.drop_left]
  have hk : part.length = k := by rw [hpart, List.length_take]; omega
  have hmissing : missing = (frame body).length - k := by rw [frame_length, ← hk]
  have hall : reader.tokens =
      ((written before first.1).map Segment.whole).flatMap Segment.tokens ++ ((frame body).take k ++ more).map .ok := by
    rw [htokens, hlast, htorn, hfirst, List.flatMap_map, List.append_assoc, List.map_append, List.map_flatMap]
    rfl
  have hbodies : ((written before first.1).map Segment.whole).filterMap Segment.body? = written before first.1 := by
    rw [List.filterMap_map]
    exact List.filterMap_some
  obtain ⟨h1, h2⟩ := read_all_from_segments reader_limit ((written before first.1).map Segment.whole) (fun b hb => by
    rw [hbodies] at hb
    exact hread b (List.mem_cons_of_mem _ (hwritten b hb).1) (hwritten b hb).2) hall
  rw [List.length_map] at h1 h2
  refine ⟨by omega, ?_, ?_⟩
  · show (read_all_from ⟨⟨reader_limit⟩⟩ (written before first.1).length reader).1 = _
    rw [h1, List.map_map]
    rfl
  have h2 : read.2.tokens = ((frame body).take k ++ more).map .ok := h2
  obtain ⟨reader', hnext, hrest⟩ :=
    read_filled_frame (hread body List.mem_cons_self hfit) (hk ▸ hprefix) hlt h2
  have hnext : next = (_, reader') := hnext
  rw [hnext, hpart, hlater, hmissing]
  exact ⟨rfl, hrest⟩

theorem torn_frame_swallows_next :
    (LengthPrefixedCodec.read_body_from ⟨⟨8⟩⟩ (read_all_from ⟨⟨8⟩⟩ 1
      [.ok ⟨(write_all_to ⟨⟨8⟩⟩ [⟨[1]⟩, ⟨[2, 3]⟩, ⟨[]⟩] ⟨tornCalls, []⟩).2.taken, by decide⟩]).2).1 = .ok ⟨[2, 0]⟩ := by
  have hfirst : (write_all_to ⟨⟨8⟩⟩ [⟨[1]⟩] ⟨tornCalls, []⟩).1 = [.ok ()] := rfl
  obtain ⟨-, -, hnext, -⟩ := torn_frame_swallows 8 8 [⟨[1]⟩] [⟨[]⟩] ⟨[2, 3]⟩ tornCalls (fun _ _ h => h)
    (by rw [hfirst]; simp) ⟨.Other, rfl⟩ (by decide) [.ok ⟨[0, 0, 0, 1, 1, 0, 0, 0, 2, 2, 0, 0, 0, 0], by decide⟩] rfl
  exact hnext

end TriadRuntime
