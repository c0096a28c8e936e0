import Resumption.Proofs.Verdicts

/-!
# Handshake frames in both directions

RESUME and RESUME_OK are written and read by different peers, out of buffers that hold other octets
in front of them and behind them. What was written is what is read, a frame that was cut is never
taken for one, and a RESUME frame that was read is written again octet by octet, up to what reading
ignores: the stream, the flags and the version.

* `BigEndian.decode_between`, `extract_cut` — a field between other octets, and in front of a cut
* `Header.kindAt_encode` — the kind of a header that was written
* `Inverts` — a decoder finds what was written; `inverts_of_judges` takes it from the verdicts
* `Resume.wire` — the octets of a frame, in two pieces; `Resume.extract_lead`,
  `Resume.extract_trail` find them in what was read
* `Resume.Conveyed`, `Resume.Respelt` — from frames to octets, and from octets to frames
-/

namespace Resumption

-- ---------------------------------------------------------------------------
-- Fields at their places
-- ---------------------------------------------------------------------------

/-- Whatever is cut off behind a field, the field is the same. -/
theorem extract_cut {octets : ByteArray} {count j : Nat} (i : Nat) (hCut : j ≤ count) :
    (octets.extract 0 count).extract i j = octets.extract i j := by
  rw [ByteArray.extract_extract, Nat.zero_add, Nat.zero_add, Nat.min_eq_left hCut]

namespace BigEndian

/-- Numbers that fit are told apart by their octets. -/
theorem encode_inj {width n m : Nat} (hLeft : n < 256 ^ width) (hRight : m < 256 ^ width) :
    encode width n = encode width m ↔ n = m := by
  refine ⟨fun hEncode => ?_, congrArg (encode width)⟩
  have hDecode := congrArg decode hEncode
  rwa [decode_encode, decode_encode, Nat.mod_eq_of_lt hLeft, Nat.mod_eq_of_lt hRight] at hDecode

/-- A number that fits stands between other octets. -/
theorem decode_between {width n : Nat} (hFits : n < 256 ^ width) (front tail : ByteArray) :
    decode ((front ++ (encode width n ++ tail)).extract front.size (front.size + width)) = n := by
  have hField := extract_between front (encode width n) tail
  rw [size_encode] at hField
  rw [hField, decode_encode, Nat.mod_eq_of_lt hFits]

end BigEndian

theorem Cursor.Sees.rest {c : Cursor} {octets : ByteArray} (hSees : c.Sees octets) :
    c.rest = octets := by
  obtain ⟨front, hBytes, hIndex⟩ := hSees
  rw [Cursor.rest, hBytes, hIndex]
  exact ByteArray.extract_append_eq_right rfl ByteArray.size_append

namespace Header

def streamAt (octets : ByteArray) : Nat :=
  BigEndian.decode (octets.extract 0 4)

/-- The ten bits below the kind. -/
def flagsAt (octets : ByteArray) : Nat :=
  wordAt octets % 2 ^ 10

/-- Kind and flags make up the two octets behind the stream. -/
theorem wordAt_eq {octets : ByteArray} {kind : Kind} (hKind : kind.code = kindAt octets) :
    wordAt octets = kind.code.toNat * 2 ^ 10 + flagsAt octets := by
  have hWord := wordAt_lt octets
  rw [hKind, kindAt, UInt8.toNat_ofNat', flagsAt]
  omega

/-- A header on the stream of the connection, without flags. -/
theorem encode_plain (kind : Kind) :
    (masked connectionStream kind 0).encode =
      BigEndian.encode 4 0 ++ BigEndian.encode 2 (kind.code.toNat * 2 ^ 10) := by
  rw [encode, toNat_kindAndFlags]
  show BigEndian.encode 4 0 ++ BigEndian.encode 2 (kind.code.toNat * 2 ^ 10 + 0 % 2 ^ 10) = _
  rw [Nat.zero_mod, Nat.add_zero]

theorem wordAt_encode (h : Header) (tail : ByteArray) :
    wordAt (h.encode ++ tail) = h.kindAndFlags.toNat := by
  have hWord : h.kindAndFlags.toNat < 256 ^ 2 := UInt16.toNat_lt _
  have hRead := BigEndian.decode_between hWord (BigEndian.encode streamSize h.stream.toNat) tail
  rw [BigEndian.size_encode] at hRead
  rw [encode, ByteArray.append_assoc]
  exact hRead

/-- The kind is found on every stream and with all flags. -/
theorem kindAt_encode (stream : UInt32) (kind : Kind) (flags : UInt16) (tail : ByteArray) :
    kindAt ((masked stream kind flags).encode ++ tail) = kind.code := by
  have hCode := kind.code_lt
  have hFlags : flags.toNat % 2 ^ 10 < 2 ^ 10 := Nat.mod_lt _ (by decide)
  refine UInt8.toNat_inj.mp ?_
  rw [kindAt, wordAt_encode, toNat_kindAndFlags, UInt8.toNat_ofNat']
  omega

end Header

-- ---------------------------------------------------------------------------
-- What was written is found
-- ---------------------------------------------------------------------------

section

variable {α : Type}

/-- A decoder finds what these octets were written for, whatever is in front of them and behind
them; and where the end of them is missing it says that something is missing. -/
structure Inverts (decoder : Reader α) (octets : ByteArray) (value : α) : Prop where
  read : ∀ front suffix mark,
    decoder ⟨front ++ (octets ++ suffix), front.size, mark⟩ =
      .ok value ⟨front ++ (octets ++ suffix), front.size, front.size⟩
  cut : ∀ count, count < octets.size → ∀ front mark, ∃ needed remaining,
    decoder ⟨front ++ octets.extract 0 count, front.size, mark⟩ =
      .error (.incomplete needed remaining)
        ⟨front ++ octets.extract 0 count, front.size, front.size⟩

theorem inverts_of_judges {decoder : Reader α} {kind : Kind} {widths : ByteArray → List Nat}
    {find : ByteArray → α} {octets : ByteArray} {value : α}
    (hJudges : ∀ c,
      Judges decoder kind widths (fun octets verdict => verdict = .ok (find octets)) c)
    (hKind : ∀ suffix, Header.kindAt (octets ++ suffix) = kind.code)
    (hWidths : ∀ suffix, 6 + (widths (octets ++ suffix)).sum = octets.size)
    (hFind : ∀ suffix, find (octets ++ suffix) = value)
    (hCut : ∀ count < octets.size, count < 6 + (widths (octets.extract 0 count)).sum) :
    Inverts decoder octets value := by
  constructor
  case read =>
    intro front suffix mark
    have hSees := Cursor.sees_append front (octets ++ suffix) mark
    obtain ⟨verdict, rfl, hWhole⟩ := (hJudges _).whole (by rw [hSees.rest, hKind])
      (by rw [hSees.rest, hWidths, hSees.remaining, ByteArray.size_append]; omega)
    rw [hWhole, hSees.rest, hFind]
    rfl
  case cut =>
    intro count hCount front mark
    have hSees := Cursor.sees_append front (octets.extract 0 count) mark
    have hSize : (octets.extract 0 count).size = count := by
      rw [ByteArray.size_extract]
      omega
    refine (hJudges _).incomplete (fun hHeader => ?_) ?_
    · -- the kind is in front of the cut
      rw [hSees.remaining, hSize] at hHeader
      have hWhole := hKind ByteArray.empty
      rw [ByteArray.append_empty] at hWhole
      rw [hSees.rest, Header.kindAt, Header.wordAt, extract_cut 4 hHeader]
      exact hWhole.symm
    · rw [hSees.rest, hSees.remaining, hSize]
      exact hCut count hCount

end

-- ---------------------------------------------------------------------------
-- RESUME_OK
-- ---------------------------------------------------------------------------

theorem ResumeOk.inverts (position : UInt64) :
    Inverts ResumeOk.position (ResumeOk.encode position).toBytes position := by
  rw [encode, Body.toBytes_headed]
  refine inverts_of_judges judges_position (fun suffix => ?_) (fun _ => ?_) (fun suffix => ?_)
    (fun count hCount => ?_)
  · rw [ByteArray.append_assoc]
    exact Header.kindAt_encode Header.connectionStream .resumeOk 0 _
  · rw [ByteArray.size_append, Header.size_encode, BigEndian.size_encode]
    rfl
  · have hFits : position.toNat < 256 ^ 8 := position.toNat_lt
    have hRead := BigEndian.decode_between hFits
      (Header.masked Header.connectionStream .resumeOk 0).encode suffix
    rw [Header.size_encode] at hRead
    rw [ByteArray.append_assoc, positionAt]
    exact (congrArg UInt64.ofNat hRead).trans UInt64.ofNat_toNat
  · rw [ByteArray.size_append, Header.size_encode, BigEndian.size_encode] at hCount
    exact hCount

-- ---------------------------------------------------------------------------
-- RESUME, in two pieces
-- ---------------------------------------------------------------------------

namespace Resume

/-- The ten octets in front of the token length. Nothing but the kind is read from them. -/
def lead (stream word major minor : Nat) : ByteArray :=
  BigEndian.encode 4 stream ++ (BigEndian.encode 2 word ++
    (BigEndian.encode 2 major ++ BigEndian.encode 2 minor))

/-- The token with its length, and the positions. -/
def trail (frame : Resume) : ByteArray :=
  BigEndian.encode 2 frame.token.size ++ (frame.token ++
    (BigEndian.encode 8 frame.implied.toNat ++ BigEndian.encode 8 frame.position.toNat))

theorem size_lead (stream word major minor : Nat) : (lead stream word major minor).size = 10 := by
  simp only [lead, ByteArray.size_append, BigEndian.size_encode]

theorem size_trail (frame : Resume) : frame.trail.size = 18 + frame.token.size := by
  simp only [trail, ByteArray.size_append, BigEndian.size_encode]
  omega

/-- The two octets of the kind and the flags, without flags. -/
def plainWord : Nat :=
  Kind.resume.code.toNat * 2 ^ 10

/-- The octets of a frame. -/
def wire (frame : Resume) : ByteArray :=
  lead 0 plainWord 1 0 ++ frame.trail

theorem size_wire (frame : Resume) : frame.wire.size = 28 + frame.token.size := by
  rw [wire, ByteArray.size_append, size_lead, size_trail]
  omega

/-- A frame whose token is not too long is written. -/
theorem exists_encode {frame : Resume} (hToken : frame.token.size ≤ 65535) :
    ∃ encoded, frame.encode = .ok encoded ∧ encoded.toBytes = frame.wire := by
  refine ⟨_, if_pos (by omega), ?_⟩
  rw [Segments.toBytes_of, Header.encode_plain]
  simp only [List.foldr_cons, List.foldr_nil, ByteArray.append_empty, ByteArray.append_assoc]
  simp only [wire, lead, trail, ByteArray.append_assoc]
  rfl

theorem encode_of_long {frame : Resume} (hToken : 65535 < frame.token.size) :
    frame.encode = .error (.tokenTooLong frame.token.size) :=
  if_neg (by omega)

-- ---------------------------------------------------------------------------
-- From a frame to octets
-- ---------------------------------------------------------------------------

section

variable {frame : Resume} (suffix : ByteArray)

theorem kindAt_wire (frame : Resume) : Header.kindAt (frame.wire ++ suffix) = Kind.resume.code := by
  have hPlain := Header.kindAt_encode Header.connectionStream .resume 0
    (BigEndian.encode 2 1 ++ (BigEndian.encode 2 0 ++ (frame.trail ++ suffix)))
  rw [Header.encode_plain, ByteArray.append_assoc] at hPlain
  simp only [wire, lead, ByteArray.append_assoc]
  exact hPlain

theorem tokenLengthAt_wire (hToken : frame.token.size ≤ 65535) :
    tokenLengthAt (frame.wire ++ suffix) = frame.token.size := by
  have hFits : frame.token.size < 256 ^ 2 := Nat.lt_succ_of_le hToken
  have hRead := BigEndian.decode_between hFits (lead 0 plainWord 1 0)
    (frame.token ++ (BigEndian.encode 8 frame.implied.toNat ++
      (BigEndian.encode 8 frame.position.toNat ++ suffix)))
  rw [size_lead] at hRead
  simp only [tokenLengthAt, wire, trail, ByteArray.append_assoc]
  exact hRead

theorem ofOctets_wire (hToken : frame.token.size ≤ 65535) :
    ofOctets (frame.wire ++ suffix) = frame := by
  have hLength := tokenLengthAt_wire suffix hToken
  obtain ⟨token, implied, position⟩ := frame
  have hImplied : implied.toNat < 256 ^ 8 := implied.toNat_lt
  have hPosition : position.toNat < 256 ^ 8 := position.toNat_lt
  -- the octets in front of the token, of the implied position and of the position
  let front := lead 0 plainWord 1 0 ++ BigEndian.encode 2 token.size
  have hFront : front.size = 12 := by
    rw [ByteArray.size_append, size_lead, BigEndian.size_encode]
  have hTokenAt := extract_between front token
    (BigEndian.encode 8 implied.toNat ++ (BigEndian.encode 8 position.toNat ++ suffix))
  have hImpliedAt := BigEndian.decode_between hImplied (front ++ token)
    (BigEndian.encode 8 position.toNat ++ suffix)
  have hPositionAt := BigEndian.decode_between hPosition
    (front ++ token ++ BigEndian.encode 8 implied.toNat) suffix
  simp only [ByteArray.size_append, BigEndian.size_encode, hFront, Nat.add_assoc,
    Nat.reduceAdd] at hTokenAt hImpliedAt hPositionAt
  simp only [front, ByteArray.append_assoc] at hTokenAt hImpliedAt hPositionAt
  rw [ofOctets, hLength]
  simp only [wire, trail, ByteArray.append_assoc, Nat.add_assoc]
  rw [hTokenAt, hImpliedAt, hPositionAt, UInt64.ofNat_toNat, UInt64.ofNat_toNat]

theorem inverts (hToken : frame.token.size ≤ 65535) : Inverts decode frame.wire frame := by
  refine inverts_of_judges judges_decode (fun suffix => kindAt_wire suffix frame)
    (fun suffix => ?_) (fun suffix => ofOctets_wire suffix hToken) (fun count hCount => ?_)
  · rw [widths, tokenLengthAt_wire suffix hToken, size_wire]
    simp only [List.sum_cons, List.sum_nil]
    omega
  · rw [size_wire] at hCount
    simp only [widths, List.sum_cons, List.sum_nil]
    by_cases hLength : 12 ≤ count
    · have hWhole := tokenLengthAt_wire ByteArray.empty hToken
      rw [ByteArray.append_empty] at hWhole
      rw [tokenLengthAt, extract_cut 10 hLength, ← tokenLengthAt, hWhole]
      omega
    · omega

end

/-- What becomes of a frame that is written: only a token too long is refused, and what is written
is read back. -/
structure Conveyed (frame : Resume) : Prop where
  refused : ∀ e, frame.encode = .error e ↔
    65535 < frame.token.size ∧ e = .tokenTooLong frame.token.size
  written : frame.token.size ≤ 65535 →
    ∃ encoded, frame.encode = .ok encoded ∧ Inverts decode encoded.toBytes frame

theorem conveyed (frame : Resume) : frame.Conveyed := by
  constructor
  case refused =>
    intro e
    by_cases hToken : 65535 < frame.token.size
    · rw [encode_of_long hToken]
      refine ⟨fun hError => ?_, ?_⟩
      · cases hError
        exact ⟨hToken, rfl⟩
      · rintro ⟨_, rfl⟩
        rfl
    · obtain ⟨encoded, hEncode, _⟩ := exists_encode (Nat.le_of_not_lt hToken)
      rw [hEncode]
      refine ⟨fun hError => ?_, fun hLong => absurd hLong.1 hToken⟩
      cases hError
  case written =>
    intro hToken
    obtain ⟨encoded, hEncode, hBytes⟩ := exists_encode hToken
    exact ⟨encoded, hEncode, hBytes ▸ inverts hToken⟩

-- ---------------------------------------------------------------------------
-- From octets to a frame
-- ---------------------------------------------------------------------------

def majorAt (octets : ByteArray) : Nat :=
  BigEndian.decode (octets.extract 6 8)

def minorAt (octets : ByteArray) : Nat :=
  BigEndian.decode (octets.extract 8 10)

/-- What reading ignores is as it is written. -/
def Plain (octets : ByteArray) : Prop :=
  Header.streamAt octets = 0 ∧ Header.flagsAt octets = 0 ∧ majorAt octets = 1 ∧ minorAt octets = 0

variable {octets : ByteArray}

theorem extract_lead (hSize : 10 ≤ octets.size) :
    octets.extract 0 10 =
      lead (Header.streamAt octets) (Header.wordAt octets) (majorAt octets) (minorAt octets) := by
  have hStream := BigEndian.encode_field octets (i := 0) (j := 4) (by omega)
  have hWord := BigEndian.encode_field octets (i := 4) (j := 6) (by omega)
  have hMajor := BigEndian.encode_field octets (i := 6) (j := 8) (by omega)
  have hMinor := BigEndian.encode_field octets (i := 8) (j := 10) (by omega)
  simp only [Nat.reduceSub] at hStream hWord hMajor hMinor
  rw [lead, Header.streamAt, Header.wordAt, majorAt, minorAt, hStream, hWord, hMajor, hMinor,
    ← ByteArray.extract_eq_extract_append_extract 8 (by omega) (by omega),
    ← ByteArray.extract_eq_extract_append_extract 6 (by omega) (by omega),
    ← ByteArray.extract_eq_extract_append_extract 4 (by omega) (by omega)]

theorem encode_positionAt (octets : ByteArray) {i : Nat} (hFits : i + 8 ≤ octets.size) :
    BigEndian.encode 8 (UInt64.ofNat (BigEndian.decode (octets.extract i (i + 8)))).toNat =
      octets.extract i (i + 8) := by
  have hField := BigEndian.encode_field octets (i := i) hFits
  have hShort := BigEndian.decode_extract_lt octets (i := i) (j := i + 8)
  rw [Nat.add_sub_cancel_left] at hField hShort
  have hPosition : BigEndian.decode (octets.extract i (i + 8)) < 2 ^ 64 := hShort
  rw [UInt64.toNat_ofNat', Nat.mod_eq_of_lt hPosition, hField]

theorem extract_trail (hSize : 28 + tokenLengthAt octets ≤ octets.size) :
    octets.extract 10 (28 + tokenLengthAt octets) = (ofOctets octets).trail := by
  generalize hToken : tokenLengthAt octets = n at hSize ⊢
  have hLength := BigEndian.encode_field octets (i := 10) (j := 12) (by omega)
  have hTokenSize : (octets.extract 12 (12 + n)).size = n := by
    rw [ByteArray.size_extract]
    omega
  have hImplied := encode_positionAt octets (i := 12 + n) (by omega)
  have hPosition := encode_positionAt octets (i := 12 + n + 8) (by omega)
  rw [tokenLengthAt] at hToken
  rw [hToken] at hLength
  have hTrail : (ofOctets octets).trail =
      octets.extract 10 12 ++ (octets.extract 12 (12 + n) ++
        (octets.extract (12 + n) (12 + n + 8) ++
          octets.extract (12 + n + 8) (12 + n + 8 + 8))) := by
    rw [← hImplied, ← hPosition, ← hLength, trail, ofOctets, tokenLengthAt, hToken]
    dsimp only
    rw [hTokenSize]
  have hEnd : 28 + n = 12 + n + 8 + 8 := by omega
  rw [hEnd, hTrail,
    ← ByteArray.extract_eq_extract_append_extract (12 + n + 8) (by omega) (by omega),
    ← ByteArray.extract_eq_extract_append_extract (12 + n) (by omega) (by omega),
    ← ByteArray.extract_eq_extract_append_extract 12 (by omega) (by omega)]

theorem size_token (hSize : 28 + tokenLengthAt octets ≤ octets.size) :
    (ofOctets octets).token.size = tokenLengthAt octets := by
  rw [ofOctets, ByteArray.size_extract]
  omega

theorem tokenLengthAt_lt (octets : ByteArray) : tokenLengthAt octets < 2 ^ 16 :=
  BigEndian.decode_extract_lt octets (i := 10) (j := 12)

/-- Besides the kind, what reading ignores is all there is in front of the token length. -/
theorem plain_iff (hSize : 10 ≤ octets.size) (hKind : Kind.resume.code = Header.kindAt octets) :
    Plain octets ↔ octets.extract 0 10 = lead 0 plainWord 1 0 := by
  have hWord : Header.wordAt octets = plainWord ↔ Header.flagsAt octets = 0 := by
    have hSplit : Header.wordAt octets = plainWord + Header.flagsAt octets :=
      Header.wordAt_eq hKind
    generalize plainWord = word at hSplit ⊢
    omega
  have hStreamLt : Header.streamAt octets < 256 ^ 4 := BigEndian.decode_extract_lt octets
  have hWordLt : Header.wordAt octets < 256 ^ 2 := BigEndian.decode_extract_lt octets
  have hMajorLt : majorAt octets < 256 ^ 2 := BigEndian.decode_extract_lt octets
  have hMinorLt : minorAt octets < 256 ^ 2 := BigEndian.decode_extract_lt octets
  rw [extract_lead hSize, lead, lead,
    ByteArray.append_eq_append_iff_of_size_eq_left (by simp only [BigEndian.size_encode]),
    ByteArray.append_eq_append_iff_of_size_eq_left (by simp only [BigEndian.size_encode]),
    ByteArray.append_eq_append_iff_of_size_eq_left (by simp only [BigEndian.size_encode]),
    BigEndian.encode_inj hStreamLt (by decide), BigEndian.encode_inj hWordLt (by decide),
    BigEndian.encode_inj hMajorLt (by decide), BigEndian.encode_inj hMinorLt (by decide), hWord]
  rfl

/-- What reading a RESUME frame and writing it again comes to. -/
structure Respelt (c : Cursor) (frame : Resume) (encoded : Segments) : Prop where
  encodes : frame.encode = .ok encoded
  size : encoded.toBytes.size = 28 + frame.token.size
  fits : 28 + frame.token.size ≤ c.remaining
  kind : Header.kindAt encoded.toBytes = Header.kindAt c.rest
  /-- From the token length on, what is written is what was read. -/
  fields : encoded.toBytes.extract 10 (28 + frame.token.size) =
    c.rest.extract 10 (28 + frame.token.size)
  plain : Plain encoded.toBytes
  exact : encoded.toBytes = c.rest.extract 0 (28 + frame.token.size) ↔ Plain c.rest

theorem respelt_of_found {c c' : Cursor} {frame : Resume} (hFound : decode c = .ok frame c') :
    ∃ encoded, Respelt c frame encoded := by
  obtain ⟨hKind, hFits, hFrame⟩ := (judges_decode c).found hFound
  obtain rfl : frame = ofOctets c.rest := by simpa using hFrame
  rw [← c.size_rest] at hFits
  have hSize : 28 + tokenLengthAt c.rest ≤ c.rest.size := by
    simp only [widths, List.sum_cons, List.sum_nil] at hFits
    omega
  have hToken : (ofOctets c.rest).token.size = tokenLengthAt c.rest := size_token hSize
  have hShort : (ofOctets c.rest).token.size ≤ 65535 :=
    hToken ▸ Nat.le_of_lt_succ (tokenLengthAt_lt c.rest)
  obtain ⟨encoded, hEncode, hBytes⟩ := exists_encode hShort
  have hKindWire := kindAt_wire ByteArray.empty (ofOctets c.rest)
  rw [ByteArray.append_empty] at hKindWire
  have hTrail : (wire (ofOctets c.rest)).extract 10 (28 + tokenLengthAt c.rest) =
      c.rest.extract 10 (28 + tokenLengthAt c.rest) := by
    rw [extract_trail hSize, wire]
    refine ByteArray.extract_append_eq_right ?_ ?_ <;>
      simp only [size_lead, size_trail, hToken]
    omega
  refine ⟨encoded, hEncode, ?_, ?_, ?_, ?_, ?_, ?_⟩
  · rw [hBytes, size_wire]
  · rw [hToken, ← c.size_rest]
    exact hSize
  · rw [hBytes, hKindWire, hKind]
  · rw [hBytes, hToken, hTrail]
  · rw [hBytes, plain_iff (by rw [size_wire]; omega) hKindWire.symm, wire]
    exact ByteArray.extract_append_eq_left (size_lead ..).symm
  · rw [plain_iff (by omega) hKind, hBytes, hToken,
      ByteArray.extract_eq_extract_append_extract 10 (by omega) (by omega), extract_trail hSize,
      wire, ByteArray.append_left_inj]
    exact eq_comm

end Resume

/-- RESUME and RESUME_OK frames survive the way to the peer, and a RESUME frame that was read
survives the way back. -/
theorem Resume.faithful :
    (∀ frame : Resume, frame.Conveyed) ∧
      (∀ position, Inverts ResumeOk.position (ResumeOk.encode position).toBytes position) ∧
        ∀ c frame c', Resume.decode c = .ok frame c' →
          ∃ encoded, Resume.Respelt c frame encoded := by
  refine ⟨Resume.conveyed, ResumeOk.inverts, ?_⟩
  intro c frame c' hFound
  exact Resume.respelt_of_found hFound

end Resumption
