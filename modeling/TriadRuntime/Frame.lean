import TriadRuntime.Systems.Streams
/-!
# Length-prefixed frames (`frame.rs`)

Four codec paths share one wire format: a four-byte big-endian length, then
that many bytes. `std` and Tokio contribute `write_all` and `read_exact`, taken
at their documented contract: the first appends all of its bytes to a stream
that does not fail, the second reads the whole buffer or fails at the end of
the stream. A `usize` is a natural number here, so limits and lengths above
the 32-bit prefix are included.
-/

open Systems

namespace TriadRuntime

def LENGTH_PREFIX_BYTE_COUNT : Nat := 4

/-- The largest length a `u32` prefix can carry. -/
def U32_MAX : Nat := 2 ^ 32 - 1

/-- The `std::io::ErrorKind`s this crate meets by name. -/
inductive ErrorKind where
  | UnexpectedEof
  | WouldBlock
  | NotFound
  | Other
deriving DecidableEq, Repr

structure MaximumFrameLength where
  bytes : Nat
deriving DecidableEq, Repr

structure FrameBody where
  bytes : List UInt8
deriving DecidableEq, Repr

structure LengthPrefixedCodec where
  maximum_body_length : MaximumFrameLength
deriving DecidableEq, Repr

inductive FrameError where
  | Io (kind : ErrorKind)
  | BodyTooLarge (found : Nat)
deriving DecidableEq, Repr

def MaximumFrameLength.maximum_for_u32_prefix : MaximumFrameLength := ⟨U32_MAX⟩

def MaximumFrameLength.accepts (limit : MaximumFrameLength) (length : Nat) : Bool := length ≤ limit.bytes

def FrameBody.len (body : FrameBody) : Nat := body.bytes.length

/-- `u32::try_from(usize)`. -/
def u32_try_from (n : Nat) : Option UInt32 := if n ≤ U32_MAX then some (UInt32.ofNat n) else none

def to_be_bytes (n : UInt32) : List UInt8 := toBigEndian 4 n.toNat

def from_be_bytes (bytes : List UInt8) : UInt32 := UInt32.ofNat (ofBigEndian bytes)

/-! ## What `std` and Tokio contribute -/

/-- `Write::write_all` on a stream that does not fail. -/
def std_write_all (stream bytes : List UInt8) : List UInt8 := stream ++ bytes

/-- `AsyncWriteExt::write_all` on a stream that does not fail. -/
def tokio_write_all (stream bytes : List UInt8) : List UInt8 := stream ++ bytes

/-- `Read::read_exact`. -/
def std_read_exact (n : Nat) (reader : Reader UInt8) : Except FrameError (List UInt8) × Reader UInt8 :=
  match reader.readExact n with
  | (some bytes, rest) => (.ok bytes, rest)
  | (none, rest) => (.error (.Io .UnexpectedEof), rest)

/-- `AsyncReadExt::read_exact`. -/
def tokio_read_exact (n : Nat) (reader : Reader UInt8) : Except FrameError (List UInt8) × Reader UInt8 :=
  match reader.readExact n with
  | (some bytes, rest) => (.ok bytes, rest)
  | (none, rest) => (.error (.Io .UnexpectedEof), rest)

namespace LengthPrefixedCodec

def default : LengthPrefixedCodec := ⟨ MaximumFrameLength.maximum_for_u32_prefix⟩

def validate_length (codec : LengthPrefixedCodec) (length : Nat) : Except FrameError Unit :=
  if codec.maximum_body_length.accepts length then .ok () else .error (.BodyTooLarge length)

def encode_body (codec : LengthPrefixedCodec) (body : FrameBody) : Except FrameError (List UInt8) :=
  match codec.validate_length body.len with
  | .error error => .error error
  | .ok () =>
    match u32_try_from body.len with
    | none => .error (.BodyTooLarge body.len)
    | some length => .ok (to_be_bytes length ++ body.bytes)

/-- The one body of `write_body` and `write_body_async`. -/
def write_body_with (write_all : List UInt8 → List UInt8 → List UInt8) (codec : LengthPrefixedCodec)
    (writer : List UInt8) (body : FrameBody) : Except FrameError Unit × List UInt8 :=
  match codec.encode_body body with
  | .error error => (.error error, writer)
  | .ok frame => (.ok (), write_all writer frame)

def write_body (codec : LengthPrefixedCodec) := write_body_with std_write_all codec

def write_body_async (codec : LengthPrefixedCodec) := write_body_with tokio_write_all codec

/-- The one body of `read_body` and `read_body_async`. -/
def read_body_with (read_exact : Nat → Reader UInt8 → Except FrameError (List UInt8) × Reader UInt8)
    (codec : LengthPrefixedCodec) (reader : Reader UInt8) : Except FrameError FrameBody × Reader UInt8 :=
  match read_exact LENGTH_PREFIX_BYTE_COUNT reader with
  | (.error error, reader) => (.error error, reader)
  | (.ok length_bytes, reader) =>
    let length := (from_be_bytes length_bytes).toNat
    match codec.validate_length length with
    | .error error => (.error error, reader)
    | .ok () =>
      match read_exact length reader with
      | (.error error, reader) => (.error error, reader)
      | (.ok body, reader) => (.ok ⟨body⟩, reader)

def read_body (codec : LengthPrefixedCodec) := read_body_with std_read_exact codec

def read_body_async (codec : LengthPrefixedCodec) := read_body_with tokio_read_exact codec

end LengthPrefixedCodec

/-! ## Conversations -/

/-- Which of a pair of codec paths a call takes. -/
inductive CodecPath where
  | sync
  | async
deriving DecidableEq, Repr

/-- The bodies written to one stream in order, each by the path it names: what
every call returned, and the stream. -/
def write_all_bodies (codec : LengthPrefixedCodec) :
    List (CodecPath × FrameBody) → List UInt8 → List (Except FrameError Unit) × List UInt8
  | [], writer => ([], writer)
  | (path, body) :: rest, writer =>
    let done := match path with
      | .sync => codec.write_body writer body
      | .async => codec.write_body_async writer body
    let more := write_all_bodies codec rest done.2
    (done.1 :: more.1, more.2)

/-- One read by the path it names. -/
def read_by (codec : LengthPrefixedCodec) (path : CodecPath) (reader : Reader UInt8) :
    Except FrameError FrameBody × Reader UInt8 :=
  match path with
  | .sync => codec.read_body reader
  | .async => codec.read_body_async reader

def read_all_bodies (codec : LengthPrefixedCodec) :
    List CodecPath → Reader UInt8 → List (Except FrameError FrameBody) × Reader UInt8
  | [], reader => ([], reader)
  | path :: rest, reader =>
    let done := read_by codec path reader
    let more := read_all_bodies codec rest done.2
    (done.1 :: more.1, more.2)

/-! ## The wire format -/

theorem from_be_bytes_to_be_bytes (n : UInt32) : from_be_bytes (to_be_bytes n) = n := by
  have h : n.toNat % 256 ^ 4 = n.toNat := Nat.mod_eq_of_lt n.toNat_lt
  rw [from_be_bytes, to_be_bytes, ofBigEndian_toBigEndian, h]
  exact UInt32.ofNat_toNat

/-- A body goes on the wire when it fits the limit and the prefix. -/
def fits (limit : Nat) (body : FrameBody) : Bool := body.len ≤ min limit U32_MAX

/-- What a body that fits looks like on the wire. -/
def frame (body : FrameBody) : List UInt8 := to_be_bytes (UInt32.ofNat body.len) ++ body.bytes

theorem encode_body_spec (limit : Nat) (body : FrameBody) :
    LengthPrefixedCodec.encode_body ⟨⟨limit⟩⟩ body =
      if fits limit body then .ok (frame body) else .error (.BodyTooLarge body.len) := by
  unfold LengthPrefixedCodec.encode_body LengthPrefixedCodec.validate_length MaximumFrameLength.accepts fits
    u32_try_from frame
  by_cases h1 : body.len ≤ limit <;> by_cases h2 : body.len ≤ U32_MAX <;> simp [h1, h2]

/-- Both writers put the frame of a body that fits at the end of the stream,
and nothing otherwise. -/
theorem write_body_with_spec (write_all : List UInt8 → List UInt8 → List UInt8)
    (hw : ∀ stream bytes, write_all stream bytes = stream ++ bytes) (limit : Nat) (writer : List UInt8)
    (body : FrameBody) :
    LengthPrefixedCodec.write_body_with write_all ⟨⟨limit⟩⟩ writer body =
      if fits limit body then (.ok (), writer ++ frame body) else (.error (.BodyTooLarge body.len), writer) := by
  unfold LengthPrefixedCodec.write_body_with
  rw [encode_body_spec]
  by_cases h : fits limit body <;> simp [h, hw]

theorem read_body_with_ok {read_exact : Nat → Reader UInt8 → Except FrameError (List UInt8) × Reader UInt8}
    {codec : LengthPrefixedCodec} {reader reader₁ reader₂ : Reader UInt8} {length_bytes body : List UInt8} {n : Nat}
    (h₁ : read_exact LENGTH_PREFIX_BYTE_COUNT reader = (.ok length_bytes, reader₁))
    (hn : (from_be_bytes length_bytes).toNat = n) (hv : codec.validate_length n = .ok ())
    (h₂ : read_exact n reader₁ = (.ok body, reader₂)) :
    LengthPrefixedCodec.read_body_with read_exact codec reader = (.ok ⟨body⟩, reader₂) := by
  unfold LengthPrefixedCodec.read_body_with
  simp only [h₁, hn, hv, h₂]

/-- Both readers find a frame at the head of a stream, however it is cut, and
leave what follows. -/
theorem read_body_with_frame {read_exact : Nat → Reader UInt8 → Except FrameError (List UInt8) × Reader UInt8}
    (hr : ∀ n (reader : Reader UInt8), n ≤ reader.bytes.length → ∃ reader',
      read_exact n reader = (.ok (reader.bytes.take n), reader') ∧ reader'.bytes = reader.bytes.drop n)
    (limit : Nat) (reader : Reader UInt8) (body : FrameBody) (rest : List UInt8)
    (hfit : fits limit body = true) (hbytes : reader.bytes = frame body ++ rest) :
    ∃ reader', LengthPrefixedCodec.read_body_with read_exact ⟨⟨limit⟩⟩ reader = (.ok body, reader') ∧
      reader'.bytes = rest := by
  have hlen : (to_be_bytes (UInt32.ofNat body.len)).length = LENGTH_PREFIX_BYTE_COUNT := toBigEndian_length _ _
  have hbody : body.bytes.length = body.len := rfl
  simp only [fits, decide_eq_true_eq, Nat.le_min, U32_MAX] at hfit
  have hb : reader.bytes = to_be_bytes (UInt32.ofNat body.len) ++ (body.bytes ++ rest) := by
    rw [hbytes, frame, List.append_assoc]
  obtain ⟨reader₁, h1, h2⟩ := hr LENGTH_PREFIX_BYTE_COUNT reader (by rw [hb, List.length_append, hlen]; omega)
  rw [hb, List.take_left' hlen] at h1
  rw [hb, List.drop_left' hlen] at h2
  obtain ⟨reader₂, h3, h4⟩ := hr body.len reader₁ (by rw [h2, List.length_append, hbody]; omega)
  rw [h2, List.take_left' hbody] at h3
  rw [h2, List.drop_left' hbody] at h4
  have hn : (from_be_bytes (to_be_bytes (UInt32.ofNat body.len))).toNat = body.len := by
    rw [from_be_bytes_to_be_bytes, UInt32.toNat_ofNat', Nat.mod_eq_of_lt (by omega)]
  have hv : LengthPrefixedCodec.validate_length ⟨⟨limit⟩⟩ body.len = .ok () := by
    simp [LengthPrefixedCodec.validate_length, MaximumFrameLength.accepts, hfit.1]
  exact ⟨reader₂, read_body_with_ok h1 hn hv h3, h4⟩

/-! ## Whole conversations -/

theorem write_all_bodies_spec (limit : Nat) (sends : List (CodecPath × FrameBody)) (writer : List UInt8) :
    write_all_bodies ⟨⟨limit⟩⟩ sends writer =
      (sends.map fun send => if fits limit send.2 then .ok () else .error (.BodyTooLarge send.2.len),
        writer ++ ((sends.map Prod.snd).filter (fits limit)).flatMap frame) := by
  induction sends generalizing writer with
  | nil => simp [write_all_bodies]
  | cons send sends ih =>
    obtain ⟨path, body⟩ := send
    have hs := write_body_with_spec std_write_all (fun _ _ => rfl) limit writer body
    have ha := write_body_with_spec tokio_write_all (fun _ _ => rfl) limit writer body
    cases path <;> by_cases h : fits limit body <;>
      simp [write_all_bodies, LengthPrefixedCodec.write_body, LengthPrefixedCodec.write_body_async, hs, ha, h, ih]

theorem std_read_exact_enough (n : Nat) (reader : Reader UInt8) (h : n ≤ reader.bytes.length) :
    ∃ reader', std_read_exact n reader = (.ok (reader.bytes.take n), reader') ∧
      reader'.bytes = reader.bytes.drop n := by
  obtain ⟨h1, h2⟩ := reader.readExact_enough n h
  refine ⟨(reader.readExact n).2, ?_, h2⟩
  unfold std_read_exact
  rcases hp : reader.readExact n with ⟨_ | bytes, rest⟩ <;> simp_all

theorem std_read_exact_short (n : Nat) (reader : Reader UInt8) (h : reader.bytes.length < n) :
    std_read_exact n reader = (.error (.Io .UnexpectedEof), []) := by
  unfold std_read_exact
  rw [reader.readExact_short n h]

theorem tokio_read_exact_eq : tokio_read_exact = std_read_exact := rfl

theorem read_by_frame (limit : Nat) (path : CodecPath) (reader : Reader UInt8) (body : FrameBody)
    (rest : List UInt8) (hfit : fits limit body = true) (hbytes : reader.bytes = frame body ++ rest) :
    ∃ reader', read_by ⟨⟨limit⟩⟩ path reader = (.ok body, reader') ∧ reader'.bytes = rest := by
  cases path
  · exact read_body_with_frame std_read_exact_enough limit reader body rest hfit hbytes
  · exact read_body_with_frame (tokio_read_exact_eq ▸ std_read_exact_enough) limit reader body rest hfit hbytes

/-- A read at the end of the stream fails, whatever the limit. -/
theorem read_by_end (limit : Nat) (path : CodecPath) (reader : Reader UInt8) (h : reader.bytes = []) :
    (read_by ⟨⟨limit⟩⟩ path reader).1 = .error (.Io .UnexpectedEof) := by
  have hshort := std_read_exact_short LENGTH_PREFIX_BYTE_COUNT reader (by simp [h, LENGTH_PREFIX_BYTE_COUNT])
  cases path
  · simp [read_by, LengthPrefixedCodec.read_body, LengthPrefixedCodec.read_body_with, hshort]
  · simp [read_by, LengthPrefixedCodec.read_body_async, LengthPrefixedCodec.read_body_with, tokio_read_exact_eq,
      hshort]

theorem read_all_bodies_frames (limit : Nat) (bodies : List FrameBody) (paths : List CodecPath)
    (reader : Reader UInt8) (hlen : paths.length = bodies.length) (hfit : ∀ body ∈ bodies, fits limit body = true)
    (hbytes : reader.bytes = bodies.flatMap frame) :
    (read_all_bodies ⟨⟨limit⟩⟩ paths reader).1 = bodies.map .ok ∧
      (read_all_bodies ⟨⟨limit⟩⟩ paths reader).2.bytes = [] := by
  induction bodies generalizing paths reader with
  | nil =>
    have : paths = [] := List.length_eq_zero_iff.1 hlen
    subst this
    exact ⟨rfl, hbytes⟩
  | cons body bodies ih =>
    rcases paths with _ | ⟨path, paths⟩
    · simp at hlen
    rw [List.flatMap_cons] at hbytes
    obtain ⟨reader', h1, h2⟩ := read_by_frame limit path reader body _ (hfit body (by simp)) hbytes
    obtain ⟨h3, h4⟩ := ih paths reader' (by simpa using hlen) (fun b hb => hfit b (by simp [hb])) h2
    simp only [read_all_bodies, h1]
    exact ⟨by rw [h3, List.map_cons], h4⟩

/-- Write any bodies in order, by either path each: a body is refused exactly
when it exceeds the writer's limit or the prefix, and then puts nothing on the
stream. If the reader's limit admits the bodies that were sent, then however
the stream is cut, as many reads by either path return exactly those bodies in
order, and the next read meets the end of the stream. -/
theorem conversation_round_trip (writer_limit reader_limit : Nat) (sends : List (CodecPath × FrameBody)) :
    let sent := write_all_bodies ⟨⟨writer_limit⟩⟩ sends []
    let accepted := (sends.map Prod.snd).filter fun body => body.len ≤ min writer_limit U32_MAX
    sent.1 = (sends.map fun send =>
      if send.2.len > min writer_limit U32_MAX then .error (.BodyTooLarge send.2.len) else .ok ()) ∧
    (∀ stream path body, body.len > min writer_limit U32_MAX →
      write_all_bodies ⟨⟨writer_limit⟩⟩ [(path, body)] stream = ([.error (.BodyTooLarge body.len)], stream)) ∧
    ((∀ body ∈ accepted, body.len ≤ reader_limit) →
      ∀ (reader : Reader UInt8), reader.bytes = sent.2 →
      ∀ (paths : List CodecPath), paths.length = accepted.length →
        (read_all_bodies ⟨⟨reader_limit⟩⟩ paths reader).1 = accepted.map .ok ∧
        ∀ path, (read_by ⟨⟨reader_limit⟩⟩ path (read_all_bodies ⟨⟨reader_limit⟩⟩ paths reader).2).1 =
          .error (.Io .UnexpectedEof)) := by
  intro sent accepted
  have hsent := write_all_bodies_spec writer_limit sends []
  refine ⟨?_, ?_, ?_⟩
  · show (write_all_bodies ⟨⟨writer_limit⟩⟩ sends []).1 = _
    rw [hsent]
    apply List.map_congr_left
    intro send _
    by_cases h : send.2.len ≤ min writer_limit U32_MAX
    · rw [if_pos (by simpa [fits] using h), if_neg (by omega)]
    · rw [if_neg (by simpa [fits] using h), if_pos (by omega)]
  · intro stream path body h
    rw [write_all_bodies_spec]
    have hf : ¬ fits writer_limit body = true := by
      simp only [fits, decide_eq_true_eq]; omega
    simp [hf]
  · intro hread reader hbytes paths hlen
    have hstream : reader.bytes = accepted.flatMap frame := by
      rw [hbytes]; exact congrArg Prod.snd hsent
    have hfit : ∀ body ∈ accepted, fits reader_limit body = true := by
      intro body hb
      have hw := (List.mem_filter.1 hb).2
      have hr := hread body hb
      simp only [decide_eq_true_eq, fits, Nat.le_min] at hw ⊢
      exact ⟨hr, hw.2⟩
    obtain ⟨h1, h2⟩ := read_all_bodies_frames reader_limit accepted paths reader hlen hfit hstream
    exact ⟨h1, fun path => read_by_end reader_limit path _ h2⟩

/-! ## The frame grammar -/

/-- A frame that `limit` admits, with body `b`, and what follows it. -/
structure IsFrame (limit : Nat) (stream : List UInt8) (n : UInt32) (b rest : List UInt8) : Prop where
  bytes : stream = to_be_bytes n ++ b ++ rest
  admitted : n.toNat ≤ limit
  whole : b.length = n.toNat

/-- A prefix that `limit` does not admit, and what follows it. -/
structure IsTooLarge (limit : Nat) (stream : List UInt8) (n : UInt32) (rest : List UInt8) : Prop where
  bytes : stream = to_be_bytes n ++ rest
  refused : limit < n.toNat

/-- The stream ends in the prefix, or in a body that `limit` admits. -/
def EndsEarly (limit : Nat) (stream : List UInt8) : Prop :=
  stream.length < LENGTH_PREFIX_BYTE_COUNT ∨
    ∃ n rest, stream = to_be_bytes n ++ rest ∧ n.toNat ≤ limit ∧ rest.length < n.toNat

@[simp] theorem to_be_bytes_length (n : UInt32) : (to_be_bytes n).length = LENGTH_PREFIX_BYTE_COUNT :=
  toBigEndian_length _ _

theorem to_be_bytes_from_be_bytes {bytes : List UInt8} (h : bytes.length = LENGTH_PREFIX_BYTE_COUNT) :
    to_be_bytes (from_be_bytes bytes) = bytes := by
  have hlt : ofBigEndian bytes < 2 ^ 32 := by
    have := ofBigEndian_lt bytes
    rw [h] at this
    exact this
  have hn : (from_be_bytes bytes).toNat = ofBigEndian bytes := by
    rw [from_be_bytes, UInt32.toNat_ofNat', Nat.mod_eq_of_lt hlt]
  have hb := toBigEndian_ofBigEndian bytes
  rw [h] at hb
  rw [to_be_bytes, hn]
  exact hb

/-- A stream of four bytes or more starts with the prefix of one length. -/
theorem starts_with_prefix {stream : List UInt8} (h : LENGTH_PREFIX_BYTE_COUNT ≤ stream.length) :
    ∃ n rest, stream = to_be_bytes n ++ rest := by
  have hl : (stream.take LENGTH_PREFIX_BYTE_COUNT).length = LENGTH_PREFIX_BYTE_COUNT := by
    rw [List.length_take]; omega
  refine ⟨from_be_bytes (stream.take LENGTH_PREFIX_BYTE_COUNT), stream.drop LENGTH_PREFIX_BYTE_COUNT, ?_⟩
  rw [to_be_bytes_from_be_bytes hl, List.take_append_drop]

theorem prefix_unique {n n' : UInt32} {rest rest' : List UInt8} (h : to_be_bytes n ++ rest = to_be_bytes n' ++ rest') :
    n = n' ∧ rest = rest' := by
  obtain ⟨hp, hr⟩ := List.append_inj h (by simp)
  refine ⟨?_, hr⟩
  rw [← from_be_bytes_to_be_bytes n, hp, from_be_bytes_to_be_bytes]

/-- Every stream is a frame, too large or too short. -/
theorem frame_grammar_total (limit : Nat) (stream : List UInt8) :
    (∃ n b rest, IsFrame limit stream n b rest) ∨ (∃ n rest, IsTooLarge limit stream n rest) ∨
      EndsEarly limit stream := by
  by_cases hshort : stream.length < LENGTH_PREFIX_BYTE_COUNT
  · exact .inr (.inr (.inl hshort))
  obtain ⟨n, rest, hs⟩ := starts_with_prefix (Nat.le_of_not_lt hshort)
  by_cases hlimit : n.toNat ≤ limit
  · by_cases hwhole : n.toNat ≤ rest.length
    · refine .inl ⟨n, rest.take n.toNat, rest.drop n.toNat, ?_, hlimit, ?_⟩
      · rw [List.append_assoc, List.take_append_drop]
        exact hs
      · rw [List.length_take]; omega
    · exact .inr (.inr (.inr ⟨n, rest, hs, hlimit, by omega⟩))
  · exact .inr (.inl ⟨n, rest, hs, by omega⟩)

theorem IsFrame.not_too_large {limit : Nat} {stream : List UInt8} {n n' : UInt32} {b rest rest' : List UInt8}
    (h : IsFrame limit stream n b rest) : ¬ IsTooLarge limit stream n' rest' := by
  intro h'
  have heq := h.bytes.symm.trans h'.bytes
  rw [List.append_assoc] at heq
  obtain ⟨rfl, -⟩ := prefix_unique heq
  exact absurd h.admitted (Nat.not_le_of_lt h'.refused)

theorem IsFrame.not_early {limit : Nat} {stream : List UInt8} {n : UInt32} {b rest : List UInt8}
    (h : IsFrame limit stream n b rest) : ¬ EndsEarly limit stream := by
  have hb := h.bytes
  rw [List.append_assoc] at hb
  rintro (hshort | ⟨n', rest', hs, -, hmissing⟩)
  · rw [hb, List.length_append, to_be_bytes_length] at hshort
    omega
  · obtain ⟨rfl, rfl⟩ := prefix_unique (hb.symm.trans hs)
    rw [List.length_append, h.whole] at hmissing
    omega

theorem IsTooLarge.not_early {limit : Nat} {stream : List UInt8} {n : UInt32} {rest : List UInt8}
    (h : IsTooLarge limit stream n rest) : ¬ EndsEarly limit stream := by
  rintro (hshort | ⟨n', rest', hs, hlimit, -⟩)
  · rw [h.bytes, List.length_append, to_be_bytes_length] at hshort
    omega
  · obtain ⟨rfl, -⟩ := prefix_unique (h.bytes.symm.trans hs)
    exact absurd hlimit (Nat.not_le_of_lt h.refused)

/-- No frame starts another. -/
theorem frame_prefix_free {body body' : FrameBody} (hfit : body.len ≤ U32_MAX) (hfit' : body'.len ≤ U32_MAX)
    (h : frame body <+: frame body') : frame body = frame body' := by
  obtain ⟨rest, hrest⟩ := h
  rw [frame, frame, List.append_assoc] at hrest
  obtain ⟨hn, hb⟩ := prefix_unique hrest
  have hlen : body.len = body'.len := by
    have := congrArg UInt32.toNat hn
    simp only [U32_MAX] at hfit hfit'
    rwa [UInt32.toNat_ofNat', UInt32.toNat_ofNat', Nat.mod_eq_of_lt (by omega), Nat.mod_eq_of_lt (by omega)] at this
  have hrest : rest = [] := by
    have := congrArg List.length hb
    rw [List.length_append] at this
    exact List.length_eq_zero_iff.1 (by unfold FrameBody.len at hlen; omega)
  rw [frame, frame, hn, ← hb, hrest, List.append_nil]

/-! ## What one read makes of a stream -/

theorem read_by_eq (codec : LengthPrefixedCodec) (path : CodecPath) (reader : Reader UInt8) :
    read_by codec path reader = codec.read_body reader := by
  cases path <;> rfl

/-- The length of a body is read off its prefix. -/
theorem frame_of_length {n : UInt32} {b : List UInt8} (h : b.length = n.toNat) : frame ⟨b⟩ = to_be_bytes n ++ b := by
  rw [frame, FrameBody.len, h, UInt32.ofNat_toNat]

theorem IsFrame.fits {limit : Nat} {stream : List UInt8} {n : UInt32} {b rest : List UInt8}
    (h : IsFrame limit stream n b rest) : fits limit ⟨b⟩ = true := by
  have hn := n.toNat_lt
  have hlimit := h.admitted
  simp only [TriadRuntime.fits, FrameBody.len, decide_eq_true_eq, Nat.le_min, U32_MAX, h.whole]
  omega

theorem IsFrame.read {limit : Nat} {reader : Reader UInt8} {n : UInt32} {b rest : List UInt8} (path : CodecPath)
    (h : IsFrame limit reader.bytes n b rest) :
    ∃ reader', read_by ⟨⟨limit⟩⟩ path reader = (.ok ⟨b⟩, reader') ∧ reader'.bytes = rest := by
  refine read_by_frame limit path reader ⟨b⟩ rest h.fits ?_
  rw [frame_of_length h.whole]
  exact h.bytes

/-- The four bytes of a prefix are consumed before the length is judged. -/
theorem read_prefix {reader : Reader UInt8} {n : UInt32} {rest : List UInt8}
    (h : reader.bytes = to_be_bytes n ++ rest) :
    ∃ reader', std_read_exact LENGTH_PREFIX_BYTE_COUNT reader = (.ok (to_be_bytes n), reader') ∧
      reader'.bytes = rest := by
  obtain ⟨reader', h1, h2⟩ := std_read_exact_enough LENGTH_PREFIX_BYTE_COUNT reader (by simp [h])
  rw [h, List.take_left' (to_be_bytes_length n)] at h1
  rw [h, List.drop_left' (to_be_bytes_length n)] at h2
  exact ⟨reader', h1, h2⟩

theorem read_body_with_refused {read_exact : Nat → Reader UInt8 → Except FrameError (List UInt8) × Reader UInt8}
    {codec : LengthPrefixedCodec} {reader reader₁ : Reader UInt8} {length_bytes : List UInt8} {n : Nat}
    {error : FrameError} (h₁ : read_exact LENGTH_PREFIX_BYTE_COUNT reader = (.ok length_bytes, reader₁))
    (hn : (from_be_bytes length_bytes).toNat = n) (hv : codec.validate_length n = .error error) :
    LengthPrefixedCodec.read_body_with read_exact codec reader = (.error error, reader₁) := by
  unfold LengthPrefixedCodec.read_body_with
  simp only [h₁, hn, hv]

theorem read_body_with_truncated {read_exact : Nat → Reader UInt8 → Except FrameError (List UInt8) × Reader UInt8}
    {codec : LengthPrefixedCodec} {reader reader₁ reader₂ : Reader UInt8} {length_bytes : List UInt8} {n : Nat}
    {error : FrameError} (h₁ : read_exact LENGTH_PREFIX_BYTE_COUNT reader = (.ok length_bytes, reader₁))
    (hn : (from_be_bytes length_bytes).toNat = n) (hv : codec.validate_length n = .ok ())
    (h₂ : read_exact n reader₁ = (.error error, reader₂)) :
    LengthPrefixedCodec.read_body_with read_exact codec reader = (.error error, reader₂) := by
  unfold LengthPrefixedCodec.read_body_with
  simp only [h₁, hn, hv, h₂]

theorem IsTooLarge.read {limit : Nat} {reader : Reader UInt8} {n : UInt32} {rest : List UInt8} (path : CodecPath)
    (h : IsTooLarge limit reader.bytes n rest) :
    ∃ reader', read_by ⟨⟨limit⟩⟩ path reader = (.error (.BodyTooLarge n.toNat), reader') ∧ reader'.bytes = rest := by
  obtain ⟨reader', h1, h2⟩ := read_prefix h.bytes
  have hv : LengthPrefixedCodec.validate_length ⟨⟨limit⟩⟩ n.toNat = .error (.BodyTooLarge n.toNat) := by
    simp [LengthPrefixedCodec.validate_length, MaximumFrameLength.accepts, h.refused]
  refine ⟨reader', ?_, h2⟩
  rw [read_by_eq]
  exact read_body_with_refused h1 (congrArg UInt32.toNat (from_be_bytes_to_be_bytes n)) hv

theorem EndsEarly.read {limit : Nat} {reader : Reader UInt8} (path : CodecPath) (h : EndsEarly limit reader.bytes) :
    (read_by ⟨⟨limit⟩⟩ path reader).1 = .error (.Io .UnexpectedEof) := by
  rw [read_by_eq]
  rcases h with hshort | ⟨n, rest, hs, hlimit, hmissing⟩
  · simp only [LengthPrefixedCodec.read_body, LengthPrefixedCodec.read_body_with, std_read_exact_short _ _ hshort]
  · obtain ⟨reader', h1, h2⟩ := read_prefix hs
    have hv : LengthPrefixedCodec.validate_length ⟨⟨limit⟩⟩ n.toNat = .ok () := by
      simp [LengthPrefixedCodec.validate_length, MaximumFrameLength.accepts, hlimit]
    have hshort := std_read_exact_short n.toNat reader' (by rw [h2]; exact hmissing)
    exact congrArg Prod.fst
      (read_body_with_truncated h1 (congrArg UInt32.toNat (from_be_bytes_to_be_bytes n)) hv hshort)

theorem read_by_cases (limit : Nat) (path : CodecPath) (reader : Reader UInt8) :
    (∃ n b rest, IsFrame limit reader.bytes n b rest ∧ (read_by ⟨⟨limit⟩⟩ path reader).1 = .ok ⟨b⟩) ∨
    (∃ n rest, IsTooLarge limit reader.bytes n rest ∧
      (read_by ⟨⟨limit⟩⟩ path reader).1 = .error (.BodyTooLarge n.toNat)) ∨
    EndsEarly limit reader.bytes ∧ (read_by ⟨⟨limit⟩⟩ path reader).1 = .error (.Io .UnexpectedEof) := by
  rcases frame_grammar_total limit reader.bytes with ⟨n, b, rest, h⟩ | ⟨n, rest, h⟩ | h
  · obtain ⟨reader', hread, -⟩ := h.read path
    exact .inl ⟨n, b, rest, h, congrArg Prod.fst hread⟩
  · obtain ⟨reader', hread, -⟩ := h.read path
    exact .inr (.inl ⟨n, rest, h, congrArg Prod.fst hread⟩)
  · exact .inr (.inr ⟨h, h.read path⟩)

theorem read_by_ok_iff (limit : Nat) (path : CodecPath) (reader : Reader UInt8) {body : FrameBody} :
    (read_by ⟨⟨limit⟩⟩ path reader).1 = .ok body ↔ ∃ n rest, IsFrame limit reader.bytes n body.bytes rest := by
  constructor
  · intro hok
    rcases read_by_cases limit path reader with ⟨n, b, rest, h, hresult⟩ | ⟨n, rest, h, hresult⟩ | ⟨h, hresult⟩
    · rw [hresult] at hok
      cases hok
      exact ⟨n, rest, h⟩
    · rw [hresult] at hok
      cases hok
    · rw [hresult] at hok
      cases hok
  · rintro ⟨n, rest, h⟩
    obtain ⟨reader', hread, -⟩ := h.read path
    exact congrArg Prod.fst hread

theorem read_by_too_large_iff (limit : Nat) (path : CodecPath) (reader : Reader UInt8) {found : Nat} :
    (read_by ⟨⟨limit⟩⟩ path reader).1 = .error (.BodyTooLarge found) ↔
      ∃ n rest, found = n.toNat ∧ IsTooLarge limit reader.bytes n rest := by
  constructor
  · intro herror
    rcases read_by_cases limit path reader with ⟨n, b, rest, h, hresult⟩ | ⟨n, rest, h, hresult⟩ | ⟨h, hresult⟩
    · rw [hresult] at herror
      cases herror
    · rw [hresult] at herror
      cases herror
      exact ⟨n, rest, rfl, h⟩
    · rw [hresult] at herror
      cases herror
  · rintro ⟨n, rest, rfl, h⟩
    obtain ⟨reader', hread, -⟩ := h.read path
    exact congrArg Prod.fst hread

theorem read_by_io_iff (limit : Nat) (path : CodecPath) (reader : Reader UInt8) {kind : ErrorKind} :
    (read_by ⟨⟨limit⟩⟩ path reader).1 = .error (.Io kind) ↔ kind = .UnexpectedEof ∧ EndsEarly limit reader.bytes := by
  constructor
  · intro herror
    rcases read_by_cases limit path reader with ⟨n, b, rest, h, hresult⟩ | ⟨n, rest, h, hresult⟩ | ⟨h, hresult⟩
    · rw [hresult] at herror
      cases herror
    · rw [hresult] at herror
      cases herror
    · rw [hresult] at herror
      cases herror
      exact ⟨rfl, h⟩
  · rintro ⟨rfl, h⟩
    exact h.read path

/-- Nor does what one codec encodes start what another encodes. -/
theorem encode_body_prefix_free {codec codec' : LengthPrefixedCodec} {body body' : FrameBody}
    {encoded encoded' : List UInt8} (h : codec.encode_body body = .ok encoded)
    (h' : codec'.encode_body body' = .ok encoded') (hstarts : encoded <+: encoded') : encoded = encoded' := by
  obtain ⟨⟨limit⟩⟩ := codec
  obtain ⟨⟨limit'⟩⟩ := codec'
  rw [encode_body_spec] at h h'
  split at h
  · split at h'
    · rename_i hfit hfit'
      cases h
      cases h'
      simp only [fits, decide_eq_true_eq, Nat.le_min] at hfit hfit'
      exact frame_prefix_free hfit.2 hfit'.2 hstarts
    · cases h'
  · cases h

/-- However a stream is cut, either reader returns the body of an admitted
frame and leaves what follows it, refuses a larger length when it has read four
bytes, and fails where the stream ends early. One of the three is the case, and
no frame starts another. -/
theorem reads_exactly_frames (limit : Nat) (path : CodecPath) (reader : Reader UInt8) :
    let result := read_by ⟨⟨limit⟩⟩ path reader
    (∀ body, result.1 = .ok body ↔ ∃ n rest, IsFrame limit reader.bytes n body.bytes rest) ∧
    (∀ n b rest, IsFrame limit reader.bytes n b rest →
      result.1 = .ok ⟨b⟩ ∧ result.2.bytes = rest ∧
        LengthPrefixedCodec.encode_body ⟨⟨limit⟩⟩ ⟨b⟩ = .ok (to_be_bytes n ++ b) ∧
        (to_be_bytes n ++ b).length = 4 + n.toNat) ∧
    (∀ found, result.1 = .error (.BodyTooLarge found) ↔
      ∃ n rest, found = n.toNat ∧ IsTooLarge limit reader.bytes n rest) ∧
    (∀ n rest, IsTooLarge limit reader.bytes n rest → result.2.bytes = rest ∧ (to_be_bytes n).length = 4) ∧
    (∀ kind, result.1 = .error (.Io kind) ↔ kind = .UnexpectedEof ∧ EndsEarly limit reader.bytes) ∧
    ((∃ n b rest, IsFrame limit reader.bytes n b rest) ∨ (∃ n rest, IsTooLarge limit reader.bytes n rest) ∨
      EndsEarly limit reader.bytes) ∧
    (∀ n b rest, IsFrame limit reader.bytes n b rest →
      (¬ ∃ n' rest', IsTooLarge limit reader.bytes n' rest') ∧ ¬ EndsEarly limit reader.bytes) ∧
    (∀ n rest, IsTooLarge limit reader.bytes n rest → ¬ EndsEarly limit reader.bytes) ∧
    (∀ (codec codec' : LengthPrefixedCodec) (body body' : FrameBody) (encoded encoded' : List UInt8),
      codec.encode_body body = .ok encoded → codec'.encode_body body' = .ok encoded' → encoded <+: encoded' →
      encoded = encoded') := by
  intro result
  refine ⟨fun body => read_by_ok_iff limit path reader, fun n b rest h => ?_,
    fun found => read_by_too_large_iff limit path reader, fun n rest h => ?_,
    fun kind => read_by_io_iff limit path reader, frame_grammar_total limit reader.bytes,
    fun n b rest h => ⟨fun ⟨n', rest', h'⟩ => h.not_too_large h', h.not_early⟩, fun n rest h => h.not_early,
    fun codec codec' body body' encoded encoded' h h' hprefix => encode_body_prefix_free h h' hprefix⟩
  · obtain ⟨reader', hread, hrest⟩ := h.read path
    have hresult : result = (.ok ⟨b⟩, reader') := hread
    rw [hresult]
    refine ⟨rfl, hrest, ?_, ?_⟩
    · rw [encode_body_spec, if_pos h.fits, frame_of_length h.whole]
    · rw [List.length_append, to_be_bytes_length, h.whole, LENGTH_PREFIX_BYTE_COUNT]
  · obtain ⟨reader', hread, hrest⟩ := h.read path
    have hresult : result = (.error (.BodyTooLarge n.toNat), reader') := hread
    rw [hresult]
    exact ⟨hrest, to_be_bytes_length n⟩

end TriadRuntime
