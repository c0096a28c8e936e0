import Resumption.Proofs.Headers

/-!
# ERROR frames in both directions

What a peer makes of an ERROR frame that was written for it, whatever is in front of it. Nothing
can come behind it: the message goes on to the end. The other way round, a frame whose code and
message have been read is written again with all its octets, but for the flags, which reading
ignores.

* `Failure.Tells` — what a peer reads; `Failure.tells_encode` — it is what was written
* `Failure.toBytes_of_read` — behind the header, what was read is written again
* `Failure.Respelt` — what writing comes to after reading; `Failure.invertible` — both directions
-/

namespace Resumption

-- ---------------------------------------------------------------------------
-- The fields of an ERROR frame
-- ---------------------------------------------------------------------------

theorem ErrorCode.code_inj {known other : ErrorCode} (hCode : known.code = other.code) :
    known = other := by
  have hFound := ErrorCode.ofCode?_code known
  rw [hCode, ErrorCode.ofCode?_code] at hFound
  exact (Option.some.inj hFound).symm

namespace Failure

/-- The octets of an ERROR frame: its header, its code and its message. -/
theorem toBytes_encode (stream : UInt32) (known : ErrorCode) (text : String) :
    (encode stream known text).toBytes =
      (Header.masked stream .error 0).encode ++
        (BigEndian.encode codeSize known.code.toNat ++ text.toUTF8) := by
  rw [encode, Body.toBytes_headed, ByteArray.append_assoc]

theorem kindAt_encode (stream : UInt32) (known : ErrorCode) (text : String) :
    Header.kindAt (encode stream known text).toBytes = Kind.error.code := by
  rw [toBytes_encode]
  exact Header.kindAt_encode ..

theorem size_encode (stream : UInt32) (known : ErrorCode) (text : String) :
    (encode stream known text).toBytes.size = 10 + text.toUTF8.size := by
  rw [toBytes_encode, ByteArray.size_append, ByteArray.size_append, Header.size_encode,
    BigEndian.size_encode, ← Nat.add_assoc]
  rfl

theorem codeAt_encode (stream : UInt32) (known : ErrorCode) (text : String) :
    codeAt (encode stream known text).toBytes = known.code := by
  have hFits : known.code.toNat < 256 ^ codeSize := known.code.toNat_lt
  have hRead := BigEndian.decode_between hFits (Header.masked stream .error 0).encode text.toUTF8
  rw [Header.size_encode] at hRead
  rw [toBytes_encode, codeAt]
  exact (congrArg UInt32.ofNat hRead).trans UInt32.ofNat_toNat

theorem textAt_encode (stream : UInt32) (known : ErrorCode) (text : String) :
    textAt (encode stream known text).toBytes = text.toUTF8 := by
  rw [textAt, size_encode, toBytes_encode, ← ByteArray.append_assoc]
  refine ByteArray.extract_append_eq_right ?_ ?_ <;>
    rw [ByteArray.size_append, Header.size_encode, BigEndian.size_encode]
  all_goals rfl

-- ---------------------------------------------------------------------------
-- What a peer reads
-- ---------------------------------------------------------------------------

/-- What a peer reads in an ERROR frame. -/
structure Tells (stream : UInt32) (known : ErrorCode) (text : String) (c : Cursor) : Prop where
  header : Header.peek c = .ok ⟨stream, .error, 0⟩ c.marked
  code : Failure.code c = .ok known c.marked
  message : Failure.message c = .ok text c.marked

/-- What was written is read, whatever is in front of it. -/
theorem tells_encode {stream : UInt32} {known : ErrorCode} {text : String} {c : Cursor}
    (hSees : c.Sees (encode stream known text).toBytes) : Tells stream known text c := by
  have hRest := hSees.rest
  have hKind : Kind.error.code = Header.kindAt c.rest := by rw [hRest, kindAt_encode]
  have hFits : 6 + [4].sum ≤ c.remaining := by
    rw [hSees.remaining, size_encode]
    simp only [List.sum_cons, List.sum_nil]
    omega
  constructor
  case header =>
    rw [toBytes_encode] at hSees
    have hPeek := (Header.reads_read stream .error 0 _).peek hSees
    exact hPeek
  case code =>
    obtain ⟨verdict, hNames, hCode⟩ := (judges_code c).whole hKind hFits
    rw [hCode]
    cases hNames with
    | listed hListed =>
      rw [hRest, codeAt_encode] at hListed
      rw [ErrorCode.code_inj hListed]
      rfl
    | unlisted hOther =>
      rw [hRest, codeAt_encode] at hOther
      exact absurd rfl (hOther known)
  case message =>
    obtain ⟨verdict, hSpells, hMessage⟩ := (judges_message c).whole hKind hFits
    rw [hMessage]
    cases hSpells with
    | text hText =>
      rw [hRest, textAt_encode] at hText
      rw [String.toByteArray_inj.mp hText]
      rfl
    | malformed hOther =>
      rw [hRest, textAt_encode] at hOther
      exact absurd rfl (hOther text)

-- ---------------------------------------------------------------------------
-- What was read is written again
-- ---------------------------------------------------------------------------

section

variable {octets : ByteArray} {known : ErrorCode} {text : String}

/-- The code and the message are all there is behind the header. -/
theorem extract_body (hSize : 10 ≤ octets.size) (hCode : known.code = codeAt octets)
    (hText : text.toUTF8 = textAt octets) :
    octets.extract 6 octets.size =
      BigEndian.encode codeSize known.code.toNat ++ text.toUTF8 := by
  have hCodeLt : BigEndian.decode (octets.extract 6 10) < 2 ^ 32 :=
    BigEndian.decode_extract_lt octets (i := 6) (j := 10)
  have hField := BigEndian.encode_field octets (i := 6) hSize
  have hValue : known.code.toNat = BigEndian.decode (octets.extract 6 10) := by
    rw [hCode, codeAt, UInt32.toNat_ofNat', Nat.mod_eq_of_lt hCodeLt]
  rw [hValue, hText, textAt, ByteArray.extract_eq_extract_append_extract 10 (by omega) hSize]
  exact congrArg (· ++ _) hField.symm

/-- Behind the header, what was read is written again. -/
theorem toBytes_of_read (stream : UInt32) (hSize : 10 ≤ octets.size)
    (hCode : known.code = codeAt octets) (hText : text.toUTF8 = textAt octets) :
    (encode stream known text).toBytes =
      (Header.masked stream .error 0).encode ++ octets.extract 6 octets.size := by
  rw [toBytes_encode, extract_body hSize hCode hText]

end

/-- What writing an ERROR frame comes to after its code and its message have been read. -/
structure Respelt (c : Cursor) (known : ErrorCode) (text : String) (header : Header) : Prop where
  found : Header.peek c = .ok header c.marked
  same : Header.SameButFlags (encode header.stream known text).toBytes c.rest
  /-- No flags are written. -/
  plain : Header.flagsAt (encode header.stream known text).toBytes = 0
  exact : (encode header.stream known text).toBytes = c.rest ↔ Header.flagsAt c.rest = 0

theorem respelt_of_read {c c₁ c₂ : Cursor} {known : ErrorCode} {text : String}
    (hCode : code c = .ok known c₁) (hMessage : message c = .ok text c₂) :
    ∃ header, Respelt c known text header := by
  obtain ⟨hKind, hFits, hNames⟩ := (judges_code c).found hCode
  obtain ⟨-, -, hSpells⟩ := (judges_message c).found hMessage
  cases hNames with | listed hListed => ?_
  cases hSpells with | text hText => ?_
  have hSize : 10 ≤ c.rest.size := c.size_rest ▸ hFits
  have hHeader : 6 ≤ c.rest.size := by omega
  -- the header that is found, and the one that is written
  let stream := UInt32.ofNat (Header.streamAt c.rest)
  let flags := UInt16.ofNat (Header.wordAt c.rest)
  have hFlags : flags.toNat % 2 ^ 10 = Header.flagsAt c.rest := by
    rw [UInt16.toNat_ofNat', Nat.mod_eq_of_lt (Header.wordAt_lt c.rest)]
    rfl
  have hRead : c.rest = (Header.masked stream .error flags).encode ++
      c.rest.extract 6 c.rest.size := by
    rw [Header.encode_masked_at hHeader hKind, extract_append_rest hHeader]
  have hWritten : (encode stream known text).toBytes = (Header.masked stream .error 0).encode ++
      c.rest.extract 6 c.rest.size :=
    toBytes_of_read stream hSize hListed hText
  refine ⟨Header.masked stream .error flags, ?_, ?_, ?_, ?_⟩
  · exact Header.peek_of_kind (c.size_rest ▸ hHeader) hKind
  · have hSame := Header.sameButFlags stream .error 0 flags (c.rest.extract 6 c.rest.size)
    rwa [← hWritten, ← hRead] at hSame
  · exact (congrArg Header.flagsAt hWritten).trans (Header.flagsAt_encode ..)
  · have hExact := Header.encode_append_inj stream .error 0 flags (c.rest.extract 6 c.rest.size)
    rw [← hWritten, ← hRead, hFlags] at hExact
    exact hExact.trans eq_comm

/-- ERROR frames are read as they were written, and what was read is written again. -/
theorem invertible :
    (∀ stream known text front mark,
      Tells stream known text
        ⟨front ++ (encode stream known text).toBytes, front.size, mark⟩) ∧
      ∀ c known text c₁ c₂, code c = .ok known c₁ → message c = .ok text c₂ →
        ∃ header, Respelt c known text header := by
  refine ⟨fun stream known text front mark => tells_encode (Cursor.sees_append front _ mark), ?_⟩
  intro c known text c₁ c₂ hCode hMessage
  exact respelt_of_read hCode hMessage

end Failure

end Resumption
