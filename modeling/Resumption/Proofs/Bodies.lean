import Resumption.Proofs.Wire

/-!
# Frames that carry metadata and data

A frame is put together from a header, the length of its metadata and the two parts of its body,
and taken apart by looking at it three times. What is found is what was put in, wherever the frame
stands in a buffer; and only metadata too long for its length is refused.

* `Body.encode_eq` — a frame with metadata, or the length that does not fit
* `Body.metadata_of_sees`, `Body.data_of_sees` — the two parts, each looked at on its own
* `Body.survey` — header, metadata and data
* `Header.carries_masked` — every frame is taken apart as it was put together
-/

namespace Resumption

namespace Body

-- ---------------------------------------------------------------------------
-- Writing
-- ---------------------------------------------------------------------------

theorem encode_eq (header metadata data : ByteArray) :
    encode header metadata data =
      if metadata.size < 2 ^ 24 then
        .ok (.of [header ++ BigEndian.encode lengthSize metadata.size, metadata, data])
      else .error (.lengthOutOfRange metadata.size) := by
  unfold encode appendLength maxLength
  by_cases hFits : metadata.size < 2 ^ 24
  · rw [if_pos hFits, if_pos (by omega)]
    rfl
  · rw [if_neg hFits, if_neg (by omega)]
    rfl

theorem toBytes_parts (header length metadata data : ByteArray) :
    (Segments.of [header ++ length, metadata, data]).toBytes =
      header ++ (length ++ (metadata ++ data)) := by
  rw [Segments.toBytes_of]
  simp only [List.foldr_cons, List.foldr_nil, ByteArray.append_empty, ByteArray.append_assoc]

theorem toBytes_headed (header part : ByteArray) :
    (headed header part).toBytes = header ++ part := by
  rw [headed, Segments.toBytes_of]
  simp only [List.foldr_cons, List.foldr_nil, ByteArray.append_empty]

-- ---------------------------------------------------------------------------
-- Reading
-- ---------------------------------------------------------------------------

theorem reads_header (h : Header) (tail : ByteArray) :
    Reader.Reads (Reader.skip Header.size) () h.encode tail := by
  have hSkip := Reader.reads_skip h.encode tail
  rw [h.size_encode] at hSkip
  exact hSkip

/-- Whatever comes behind the header is read there. -/
theorem peek_behind {α : Type} {c : Cursor} {reader : Reader α} {value : α}
    {octets tail : ByteArray} (h : Header) (hReader : Reader.Reads reader value octets tail)
    (hSees : c.Sees (h.encode ++ (octets ++ tail))) :
    Reader.peek (do Reader.skip Header.size; reader) c = .ok value c.marked := by
  have hBehind := (reads_header h (octets ++ tail)).bind (k := fun _ => reader) hReader
  rw [← ByteArray.append_assoc] at hSees
  exact hBehind.peek hSees

section

variable {c : Cursor} {h : Header} {part tail : ByteArray}

/-- The metadata is found between its length and the data. -/
theorem metadata_of_sees (hFits : part.size < 2 ^ 24)
    (hSees : c.Sees (h.encode ++ (BigEndian.encode lengthSize part.size ++ (part ++ tail)))) :
    metadata true c = .ok part c.marked := by
  have hPart := (Reader.reads_length hFits (part ++ tail)).bind (k := Reader.take)
    (Reader.reads_take part tail)
  refine peek_behind h hPart ?_
  rw [ByteArray.append_assoc]
  exact hSees

/-- The data is found behind the metadata. -/
theorem data_of_sees (hFits : part.size < 2 ^ 24)
    (hSees : c.Sees (h.encode ++ (BigEndian.encode lengthSize part.size ++ (part ++ tail)))) :
    data true c = .ok tail c.marked := by
  have hRest := Reader.reads_rest tail
  have hSkip := (Reader.reads_skip part (tail ++ ByteArray.empty)).bind
    (k := fun _ => Reader.rest) hRest
  have hData := (Reader.reads_length hFits ((part ++ tail) ++ ByteArray.empty)).bind
    (k := fun length => do Reader.skip length; Reader.rest) hSkip
  refine peek_behind h hData ?_
  rw [ByteArray.append_empty]
  exact hSees

theorem metadata_of_bare (hSees : c.Sees (h.encode ++ tail)) :
    metadata false c = .ok ByteArray.empty c.marked := by
  refine peek_behind h (Reader.reads_pure ByteArray.empty tail) ?_
  rw [ByteArray.empty_append]
  exact hSees

theorem data_of_bare (hSees : c.Sees (h.encode ++ tail)) : data false c = .ok tail c.marked := by
  refine peek_behind h (Reader.reads_rest tail) ?_
  rw [ByteArray.append_empty]
  exact hSees

end

-- ---------------------------------------------------------------------------
-- Whole frames
-- ---------------------------------------------------------------------------

/-- Looks at all of the frame that comes next: at its header, and with the flag found there at its
metadata and its data. -/
def survey : Reader (Header × ByteArray × ByteArray) := do
  let header ← Header.peek
  let metadata ← metadata header.hasMetadata
  let data ← data header.hasMetadata
  return (header, metadata, data)

theorem survey_of_ok {c : Cursor} {h : Header} {part tail : ByteArray}
    (hHeader : Header.peek c = .ok h c.marked)
    (hMetadata : metadata h.hasMetadata c.marked = .ok part c.marked)
    (hData : data h.hasMetadata c.marked = .ok tail c.marked) :
    survey c = .ok (h, part, tail) c.marked :=
  (bind_of_ok hHeader).trans ((bind_of_ok hMetadata).trans (bind_of_ok hData))

end Body

/-- What frames with this header carry. -/
structure Header.Carries (h : Header) : Prop where
  /-- With the ninth flag bit set, a frame whose metadata fits its length is taken apart as it was
  put together, wherever it stands, and the place in the buffer is as before. -/
  whole : h.flags &&& 0x100 ≠ 0 → ∀ metadata data : ByteArray, metadata.size < 2 ^ 24 →
    ∃ frame, Body.encode h.encode metadata data = .ok frame ∧
      ∀ front mark, Body.survey ⟨front ++ frame.toBytes, front.size, mark⟩ =
        .ok (h, metadata, data) ⟨front ++ frame.toBytes, front.size, front.size⟩
  /-- The same without metadata and with that bit clear. -/
  bare : h.flags &&& 0x100 = 0 → ∀ data front : ByteArray, ∀ mark,
    Body.survey ⟨front ++ (Body.headed h.encode data).toBytes, front.size, mark⟩ =
      .ok (h, ByteArray.empty, data)
        ⟨front ++ (Body.headed h.encode data).toBytes, front.size, front.size⟩
  /-- Only metadata that is too long is refused, whatever the octets of the header are. -/
  refused : ∀ (header metadata data : ByteArray) (e : EncodeError),
    Body.encode header metadata data = .error e ↔
      2 ^ 24 ≤ metadata.size ∧ e = .lengthOutOfRange metadata.size
  /-- The octets of a frame with a metadata length. -/
  wholeSize : ∀ metadata data frame, Body.encode h.encode metadata data = .ok frame →
    frame.size = 6 + 3 + metadata.size + data.size ∧ frame.toBytes.size = frame.size
  bareSize : ∀ data, (Body.headed h.encode data).size = 6 + data.size ∧
    (Body.headed h.encode data).toBytes.size = (Body.headed h.encode data).size

/-- Every frame with a header whose flags fit is taken apart as it was put together. -/
theorem Header.carries_masked (stream : UInt32) (kind : Kind) (flags : UInt16) :
    (masked stream kind flags).Carries := by
  generalize hHeader : masked stream kind flags = h
  have hPeek : ∀ {c : Cursor} {tail : ByteArray}, c.Sees (h.encode ++ tail) →
      Header.peek c = .ok h c.marked := by
    intro c tail hSees
    subst hHeader
    exact (reads_read stream kind flags tail).peek hSees
  constructor
  · intro hFlag metadata data hFits
    refine ⟨_, (Body.encode_eq _ _ _).trans (if_pos hFits), fun front mark => ?_⟩
    rw [Body.toBytes_parts]
    have hSees := Cursor.sees_append front (h.encode ++
      (BigEndian.encode Body.lengthSize metadata.size ++ (metadata ++ data))) mark
    have hMetadata := Body.metadata_of_sees hFits hSees.marked
    have hData := Body.data_of_sees hFits hSees.marked
    rw [← h.hasMetadata_iff.mpr hFlag] at hMetadata hData
    exact Body.survey_of_ok (hPeek hSees) hMetadata hData
  · intro hFlag data front mark
    rw [Body.toBytes_headed]
    have hSees := Cursor.sees_append front (h.encode ++ data) mark
    have hMetadata := Body.metadata_of_bare hSees.marked
    have hData := Body.data_of_bare hSees.marked
    rw [← h.hasMetadata_eq_false_iff.mpr hFlag] at hMetadata hData
    exact Body.survey_of_ok (hPeek hSees) hMetadata hData
  · intro header metadata data e
    rw [Body.encode_eq]
    by_cases hFits : metadata.size < 2 ^ 24
    · rw [if_pos hFits]
      exact iff_of_false nofun fun hLong => by omega
    · rw [if_neg hFits, Except.error.injEq, eq_comm]
      exact ⟨fun hError => ⟨by omega, hError⟩, fun hError => hError.2⟩
  · intro metadata data frame hEncode
    refine ⟨?_, frame.size_toBytes⟩
    rw [Body.encode_eq] at hEncode
    split at hEncode
    case isFalse => cases hEncode
    case isTrue =>
      cases hEncode
      have hSize : h.encode.size = 6 := h.size_encode
      have hLength : (BigEndian.encode Body.lengthSize metadata.size).size = 3 :=
        BigEndian.size_encode 3 metadata.size
      rw [Segments.size_of]
      simp only [Segments.octetCount, ByteArray.size_append, hSize, hLength]
      omega
  · intro data
    refine ⟨?_, Segments.size_toBytes _⟩
    have hSize : h.encode.size = 6 := h.size_encode
    rw [Body.headed, Segments.size_of]
    simp only [Segments.octetCount, hSize]
    omega

end Resumption
