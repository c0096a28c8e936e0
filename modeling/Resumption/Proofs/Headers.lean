import Resumption.Proofs.Handshake

/-!
# Headers and their six octets

A header is found wherever six octets are ahead and the six bits of the kind name one. What is found
is written in the same six octets again, so headers are told apart by what is written for them, as
long as their flags keep to ten bits. Flags that do not keep to them spill into the kind: a header
like that can be written, but it is never found again.

* `Header.masked_eq_iff` — flags of ten bits are kept as they are, and no others
* `Header.named_iff_encode` — what is read in six octets is the one header that is written in them
* `Header.peek_eq_ok_iff` — a header is found just where its octets are ahead and its flags fit
* `Header.Legible`, `Header.Retrievable` — from octets to headers, and from headers to octets
-/

namespace Resumption.Header

-- ---------------------------------------------------------------------------
-- Flags
-- ---------------------------------------------------------------------------

theorem flags_masked_lt (stream : UInt32) (kind : Kind) (flags : UInt16) :
    (masked stream kind flags).flags.toNat < 2 ^ 10 := by
  rw [toNat_flags]
  exact Nat.mod_lt _ (by decide)

/-- Nothing is lost of flags that fit their ten bits. -/
theorem masked_eq_iff (h : Header) :
    masked h.stream h.kind h.flags = h ↔ h.flags.toNat < 2 ^ 10 := by
  constructor
  · intro hMasked
    rw [← hMasked]
    exact flags_masked_lt h.stream h.kind h.flags
  · intro hFlags
    have hKept : (masked h.stream h.kind h.flags).flags = h.flags := by
      refine UInt16.toNat_inj.mp ?_
      rw [toNat_flags, Nat.mod_eq_of_lt hFlags]
    exact congrArg (Header.mk h.stream h.kind) hKept

-- ---------------------------------------------------------------------------
-- Six octets
-- ---------------------------------------------------------------------------

theorem peek_iff_named {c c' : Cursor} {h : Header} :
    peek c = .ok h c' ↔ 6 ≤ c.remaining ∧ named c.rest = .ok h ∧ c' = c.marked := by
  rw [peek_eq, Reader.settle_eq_ok_iff, walk_eq_ok_iff, and_assoc]
  exact Iff.rfl

theorem named_eq_ok_iff {octets : ByteArray} {h : Header} :
    named octets = .ok h ↔ ∃ kind : Kind, kind.code = kindAt octets ∧
      masked (.ofNat (streamAt octets)) kind (.ofNat (wordAt octets)) = h := by
  unfold named
  cases hKind : Kind.ofCode? (kindAt octets) with
  | none =>
    refine ⟨nofun, ?_⟩
    rintro ⟨kind, hCode, -⟩
    exact absurd hCode (Kind.ofCode?_eq_none_iff.mp hKind kind)
  | some kind =>
    have hCode := Kind.ofCode?_eq_some_iff.mp hKind
    constructor
    · intro hNamed
      exact ⟨kind, hCode, Except.ok.inj hNamed⟩
    · rintro ⟨other, hOther, rfl⟩
      rw [← hOther, Kind.ofCode?_code] at hKind
      rw [Option.some.inj hKind]
      rfl

/-- What has been read in six octets is written in the same six. -/
theorem encode_masked_at {octets : ByteArray} {kind : Kind} (hSize : 6 ≤ octets.size)
    (hKind : kind.code = kindAt octets) :
    (masked (.ofNat (streamAt octets)) kind (.ofNat (wordAt octets))).encode =
      octets.extract 0 6 := by
  have hStreamLt : streamAt octets < 2 ^ 32 := BigEndian.decode_extract_lt octets (i := 0) (j := 4)
  have hStream : (UInt32.ofNat (streamAt octets)).toNat = streamAt octets := by
    rw [UInt32.toNat_ofNat', Nat.mod_eq_of_lt hStreamLt]
  have hWord : (masked (.ofNat (streamAt octets)) kind (.ofNat (wordAt octets))).kindAndFlags.toNat =
      wordAt octets := by
    rw [toNat_kindAndFlags, UInt16.toNat_ofNat', Nat.mod_eq_of_lt (wordAt_lt octets)]
    exact (wordAt_eq hKind).symm
  have hStreamField := BigEndian.encode_field octets (i := 0) (j := 4) (by omega)
  have hWordField := BigEndian.encode_field octets (i := 4) hSize
  show BigEndian.encode 4 (UInt32.ofNat (streamAt octets)).toNat ++ BigEndian.encode 2 _ = _
  rw [hStream, hWord, ByteArray.extract_eq_extract_append_extract 4 (by omega) (by omega)]
  exact congrArg₂ (· ++ ·) hStreamField hWordField

/-- The octets of a header come first. -/
theorem extract_encode (h : Header) (tail : ByteArray) : (h.encode ++ tail).extract 0 6 = h.encode :=
  ByteArray.extract_append_eq_left h.size_encode.symm

/-- What is made of six octets is the one header with flags that fit that is written in them. -/
theorem named_iff_encode {octets : ByteArray} {h : Header} (hSize : 6 ≤ octets.size) :
    named octets = .ok h ↔ h.flags.toNat < 2 ^ 10 ∧ h.encode = octets.extract 0 6 := by
  constructor
  · intro hNamed
    obtain ⟨kind, hKind, rfl⟩ := named_eq_ok_iff.mp hNamed
    exact ⟨flags_masked_lt .., encode_masked_at hSize hKind⟩
  · rintro ⟨hFlags, hEncode⟩
    have hOctets : octets = h.encode ++ octets.extract 6 octets.size := by
      rw [hEncode, extract_append_rest hSize]
    have hSees : (Cursor.start octets).Sees (h.encode ++ octets.extract 6 octets.size) :=
      ⟨ByteArray.empty, by rw [← hOctets, ByteArray.empty_append]; rfl, rfl⟩
    -- only of a header that masking leaves as it is, it is known how it is read back
    rw [← (masked_eq_iff h).mpr hFlags] at hSees
    have hPeek := (reads_read h.stream h.kind h.flags _).peek hSees
    obtain ⟨-, hNamed, -⟩ := peek_iff_named.mp hPeek
    rwa [Cursor.rest_start, (masked_eq_iff h).mpr hFlags] at hNamed

/-- A header is found just where its octets are ahead and its flags fit. -/
theorem peek_eq_ok_iff {c c' : Cursor} {h : Header} :
    peek c = .ok h c' ↔
      6 ≤ c.remaining ∧ h.flags.toNat < 2 ^ 10 ∧ h.encode = c.rest.extract 0 6 ∧
        c' = c.marked := by
  rw [peek_iff_named]
  refine and_congr_right fun hSize => ?_
  rw [← c.size_rest] at hSize
  rw [named_iff_encode hSize, and_assoc]

-- ---------------------------------------------------------------------------
-- The fields of a header that was written
-- ---------------------------------------------------------------------------

theorem extract_stream (h : Header) (tail : ByteArray) :
    (h.encode ++ tail).extract 0 4 = BigEndian.encode streamSize h.stream.toNat := by
  rw [encode, ByteArray.append_assoc]
  exact ByteArray.extract_append_eq_left (BigEndian.size_encode ..).symm

theorem flagsAt_encode (stream : UInt32) (kind : Kind) (flags : UInt16) (tail : ByteArray) :
    flagsAt ((masked stream kind flags).encode ++ tail) = flags.toNat % 2 ^ 10 := by
  rw [flagsAt, wordAt_encode, toNat_kindAndFlags, Nat.mul_comm, Nat.mul_add_mod, Nat.mod_mod]

/-- All octets are the same, but for the ten bits of the flags. -/
structure SameButFlags (octets other : ByteArray) : Prop where
  size : octets.size = other.size
  stream : octets.extract 0 4 = other.extract 0 4
  kind : kindAt octets = kindAt other
  behind : octets.extract 6 octets.size = other.extract 6 other.size

theorem sameButFlags (stream : UInt32) (kind : Kind) (flags more : UInt16) (tail : ByteArray) :
    SameButFlags ((masked stream kind flags).encode ++ tail)
      ((masked stream kind more).encode ++ tail) := by
  have hBehind : ∀ h : Header, (h.encode ++ tail).extract 6 (h.encode ++ tail).size = tail :=
    fun h => ByteArray.extract_append_eq_right h.size_encode.symm ByteArray.size_append
  constructor
  · rw [ByteArray.size_append, ByteArray.size_append, size_encode, size_encode]
  · rw [extract_stream, extract_stream]
    rfl
  · rw [kindAt_encode, kindAt_encode]
  · rw [hBehind, hBehind]

/-- They are all the same only if the flags are. -/
theorem encode_append_inj (stream : UInt32) (kind : Kind) (flags more : UInt16) (tail : ByteArray) :
    (masked stream kind flags).encode ++ tail = (masked stream kind more).encode ++ tail ↔
      flags.toNat % 2 ^ 10 = more.toNat % 2 ^ 10 := by
  constructor
  · intro hOctets
    have hFlags := congrArg flagsAt hOctets
    rwa [flagsAt_encode, flagsAt_encode] at hFlags
  · intro hFlags
    rw [← toNat_flags stream kind, ← toNat_flags stream kind] at hFlags
    have hHeader : masked stream kind flags = masked stream kind more :=
      congrArg (Header.mk stream kind) (UInt16.toNat_inj.mp hFlags)
    rw [hHeader]

-- ---------------------------------------------------------------------------
-- Both ways
-- ---------------------------------------------------------------------------

theorem exists_peek_iff (c : Cursor) :
    (∃ h c', peek c = .ok h c') ↔ 6 ≤ c.remaining ∧ ∃ kind : Kind, kind.code = kindAt c.rest := by
  constructor
  · rintro ⟨h, c', hPeek⟩
    obtain ⟨hSize, hNamed, -⟩ := peek_iff_named.mp hPeek
    obtain ⟨kind, hKind, -⟩ := named_eq_ok_iff.mp hNamed
    exact ⟨hSize, kind, hKind⟩
  · rintro ⟨hSize, kind, hKind⟩
    exact ⟨_, _, peek_of_kind hSize hKind⟩

theorem exists_peek_encode_iff (h : Header) (front suffix : ByteArray) (mark : Nat) :
    (∃ c', peek ⟨front ++ (h.encode ++ suffix), front.size, mark⟩ = .ok h c') ↔
      h.flags.toNat < 2 ^ 10 := by
  have hSees := Cursor.sees_append front (h.encode ++ suffix) mark
  have hSize : 6 ≤ (Cursor.mk (front ++ (h.encode ++ suffix)) front.size mark).remaining := by
    rw [hSees.remaining, ByteArray.size_append, h.size_encode]
    exact Nat.le_add_right _ _
  constructor
  · rintro ⟨c', hPeek⟩
    obtain ⟨-, hFlags, -⟩ := peek_eq_ok_iff.mp hPeek
    exact hFlags
  · intro hFlags
    refine ⟨_, peek_eq_ok_iff.mpr ⟨hSize, hFlags, ?_, rfl⟩⟩
    rw [hSees.rest, extract_encode]

/-- Headers whose flags fit are told apart by their octets. -/
theorem encode_inj {h other : Header} (hFlags : h.flags.toNat < 2 ^ 10)
    (hOther : other.flags.toNat < 2 ^ 10) : h.encode = other.encode ↔ h = other := by
  refine ⟨fun hEncode => ?_, congrArg encode⟩
  -- what is found in the octets they share is either of them
  obtain ⟨c, hPeek⟩ := (exists_peek_encode_iff h .empty .empty 0).mpr hFlags
  obtain ⟨d, hPeekOther⟩ := (exists_peek_encode_iff other .empty .empty 0).mpr hOther
  rw [hEncode, hPeekOther] at hPeek
  cases hPeek
  rfl

/-- What is known of a header from the octets ahead of a cursor. -/
structure Legible (c : Cursor) : Prop where
  /-- One is found where six octets are there and the six bits of the kind name one. -/
  found : (∃ h c', peek c = .ok h c') ↔ 6 ≤ c.remaining ∧ ∃ kind : Kind, kind.code = kindAt c.rest
  /-- It is the one with flags of ten bits that is written in just these octets. -/
  spelt : ∀ h c', peek c = .ok h c' ↔
    6 ≤ c.remaining ∧ h.flags.toNat < 2 ^ 10 ∧ h.encode = c.rest.extract 0 6 ∧ c' = c.marked

/-- What becomes of a header that is written, whatever its flags are. -/
structure Retrievable (h : Header) : Prop where
  /-- It is found again, in front of anything and behind anything, just where its flags fit. -/
  back : ∀ front suffix mark,
    (∃ c', peek ⟨front ++ (h.encode ++ suffix), front.size, mark⟩ = .ok h c') ↔
      h.flags.toNat < 2 ^ 10
  /-- No other header that can be found is written in the same octets. -/
  distinct : ∀ other : Header, h.flags.toNat < 2 ^ 10 → other.flags.toNat < 2 ^ 10 →
    h.encode = other.encode → h = other

/-- Headers are found just where they are written, as long as their flags fit, and flags that are
masked always do. -/
theorem legible : (∀ c, Legible c) ∧ (∀ h, Retrievable h) ∧
    ∀ stream kind flags, (masked stream kind flags).flags.toNat < 2 ^ 10 := by
  refine ⟨fun c => ⟨exists_peek_iff c, fun h c' => peek_eq_ok_iff⟩, fun h => ⟨?_, ?_⟩,
    flags_masked_lt⟩
  · exact exists_peek_encode_iff h
  · intro other hFlags hOther hEncode
    exact (encode_inj hFlags hOther).mp hEncode

/-- Flags that do not fit make another kind. -/
example : (Header.mk 0 .reserved 0x400).encode = (Header.mk 0 .setup 0).encode := by
  rfl

end Resumption.Header
