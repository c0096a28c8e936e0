import Resumption.Proofs.Looks

/-!
# Reads that fall short

A read that moves forward asks for some octets, and fails where they are not all left. Most reads ask
for all of them at once, so a failure leaves everything as it was and tells how much was left. A
length asks for its three octets one by one: where only one or two of them are left, these are read
before the failure, which then speaks of the octet that is missing.

* `Reader.single` — a part is taken at once, and something is made of it
* `Inspection.reader_of_single?` — all reads but that of a length are like that
* `Reader.length_of_short`, `Reader.length_of_fits` — the length
* `Inspection.Atomic` — what a failure should leave behind; `Inspection.Shortfall` — what it does
-/

namespace Resumption

namespace Reader

-- ---------------------------------------------------------------------------
-- One part
-- ---------------------------------------------------------------------------

/-- Takes one part and makes something of it. -/
def single {α : Type} (width : Nat) (f : ByteArray → α) : Reader α := do
  return f (← take width)

section

variable {α : Type} {width : Nat} {c : Cursor}

theorem take_of_fits (hFits : width ≤ c.remaining) :
    take width c = .ok (c.rest.extract 0 width) (c.forward width) := by
  rw [take, if_pos hFits, Cursor.extract_rest, Nat.add_zero]
  rfl

theorem take_of_short (hShort : c.remaining < width) :
    take width c = .error (.incomplete width c.remaining) c := by
  rw [take, if_neg (Nat.not_le.mpr hShort)]

theorem single_of_fits (f : ByteArray → α) (hFits : width ≤ c.remaining) :
    single width f c = .ok (f (c.rest.extract 0 width)) (c.forward width) :=
  bind_of_ok (take_of_fits hFits)

theorem single_of_short (f : ByteArray → α) (hShort : c.remaining < width) :
    single width f c = .error (.incomplete width c.remaining) c :=
  bind_of_error (take_of_short hShort)

end

-- ---------------------------------------------------------------------------
-- A length, octet by octet
-- ---------------------------------------------------------------------------

variable {c : Cursor}

theorem number_of_fits {width : Nat} (hFits : width ≤ c.remaining) :
    number width c = .ok (BigEndian.decode (c.rest.extract 0 width)) (c.forward width) :=
  single_of_fits BigEndian.decode hFits

theorem number_of_short {width : Nat} (hShort : c.remaining < width) :
    number width c = .error (.incomplete width c.remaining) c :=
  single_of_short BigEndian.decode hShort

/-- All that is left of a length is read before the octet that is missing. -/
theorem length_of_short (hShort : c.remaining < 3) :
    length c = .error (.incomplete 1 0) (c.forward c.remaining) := by
  have hFails : ∀ (count : Nat), c.remaining = count →
      number 1 (c.forward count) = .error (.incomplete 1 0) (c.forward count) := by
    intro count hCount
    have hNone : (c.forward count).remaining = 0 := by
      rw [Cursor.remaining_forward]
      omega
    have hMissing : (c.forward count).remaining < 1 := by omega
    have hNumber := number_of_short hMissing
    rwa [hNone] at hNumber
  have hReads : ∀ (count : Nat), count < c.remaining →
      ∃ octet, number 1 (c.forward count) = .ok octet (c.forward (count + 1)) := by
    intro count hCount
    have hFits : 1 ≤ (c.forward count).remaining := by
      rw [Cursor.remaining_forward]
      omega
    rw [← Cursor.forward_forward]
    exact ⟨_, number_of_fits hFits⟩
  -- What is left decides which of the three octets is the one that is missing.
  obtain hNone | hOne | hTwo : c.remaining = 0 ∨ c.remaining = 1 ∨ c.remaining = 2 := by omega
  · rw [hNone]
    exact bind_of_error (hFails 0 hNone)
  · obtain ⟨high, hHigh⟩ := hReads 0 (by omega)
    rw [hOne]
    exact (bind_of_ok hHigh).trans (bind_of_error (hFails 1 hOne))
  · obtain ⟨high, hHigh⟩ := hReads 0 (by omega)
    obtain ⟨middle, hMiddle⟩ := hReads 1 (by omega)
    rw [hTwo]
    exact (bind_of_ok hHigh).trans ((bind_of_ok hMiddle).trans (bind_of_error (hFails 2 hTwo)))

end Reader

/-- A cursor sees all that is left, unless it is behind the end. -/
theorem Cursor.sees_rest {c : Cursor} (hIndex : c.index ≤ c.bytes.size) : c.Sees c.rest := by
  refine ⟨c.bytes.extract 0 c.index, (extract_append_rest hIndex).symm, ?_⟩
  rw [ByteArray.size_extract]
  omega

/-- A length that is there is read as one number. -/
theorem Reader.length_of_fits {c : Cursor} (hFits : 3 ≤ c.remaining) :
    length c = .ok (BigEndian.decode (c.rest.extract 0 3)) (c.forward 3) := by
  have hIndex : c.index ≤ c.bytes.size := by
    have hRemaining : c.remaining = c.bytes.size - c.index := rfl
    omega
  have hSize : 3 ≤ c.rest.size := by rwa [c.size_rest]
  have hSees := Cursor.sees_rest hIndex
  rw [← extract_append_rest hSize, ← BigEndian.encode_field c.rest (i := 0) hSize] at hSees
  have hLength := reads_length (BigEndian.decode_extract_lt c.rest (i := 0) (j := 3)) _ c hSees
  rwa [BigEndian.size_encode] at hLength

namespace Inspection

-- ---------------------------------------------------------------------------
-- Which reads take one part
-- ---------------------------------------------------------------------------

/-- The part that an inspection takes at once, and what it makes of it. -/
def single? : Inspection → Option (Nat × (ByteArray → Finding))
  | .skip count => some (count, fun _ => .done)
  | .uint8 => some (1, fun digits => .number (UInt8.ofNat (BigEndian.decode digits)).toNat)
  | .uint16 => some (2, fun digits => .number (UInt16.ofNat (BigEndian.decode digits)).toNat)
  | .uint32 => some (4, fun digits => .number (UInt32.ofNat (BigEndian.decode digits)).toNat)
  | .uint64 => some (8, fun digits => .number (UInt64.ofNat (BigEndian.decode digits)).toNat)
  | .take count => some (count, .bytes)
  | _ => none

theorem reader_of_single? {inspection : Inspection} {width : Nat} {f : ByteArray → Finding}
    (hSingle : inspection.single? = some (width, f)) :
    inspection.reader = Reader.single width f := by
  cases inspection with
  | skip | uint8 | uint16 | uint32 | uint64 | take =>
    cases hSingle
    simp only [reader, Reader.single, Reader.skip, Reader.uint8, Reader.uint16, Reader.uint32,
      Reader.uint64, Reader.number, bind_assoc, pure_bind]
  | _ => cases hSingle

theorem answer_of_settle {inspection : Inspection} {c c' : Cursor}
    (verdict : Except DecodeError Finding)
    (hReader : inspection.reader c = Reader.settle verdict c') :
    inspection.answer c = (verdict, c') := by
  rw [answer, hReader]
  cases verdict <;> rfl

section

variable {inspection : Inspection} {width : Nat} {f : ByteArray → Finding} {c : Cursor}

theorem answer_of_fits (hSingle : inspection.single? = some (width, f))
    (hFits : width ≤ c.remaining) :
    inspection.answer c = (.ok (f (c.rest.extract 0 width)), c.forward width) := by
  refine answer_of_settle (.ok _) ?_
  rw [reader_of_single? hSingle]
  exact Reader.single_of_fits f hFits

theorem answer_of_short (hSingle : inspection.single? = some (width, f))
    (hShort : c.remaining < width) :
    inspection.answer c = (.error (.incomplete width c.remaining), c) := by
  refine answer_of_settle (.error _) ?_
  rw [reader_of_single? hSingle]
  exact Reader.single_of_short f hShort

end

theorem answer_length_of_fits {c : Cursor} (hFits : 3 ≤ c.remaining) :
    length.answer c =
      (.ok (.number (BigEndian.decode (c.rest.extract 0 3))), c.forward 3) :=
  answer_of_settle (.ok _) (bind_of_ok (Reader.length_of_fits hFits))

theorem answer_length_of_short {c : Cursor} (hShort : c.remaining < 3) :
    length.answer c = (.error (.incomplete 1 0), c.forward c.remaining) :=
  answer_of_settle (.error _) (bind_of_error (Reader.length_of_short hShort))

-- ---------------------------------------------------------------------------
-- What a failure leaves behind
-- ---------------------------------------------------------------------------

/-- How many octets an inspection asks for, if it moves forward and can fail. -/
def asks : Inspection → Option Nat
  | .skip count | .take count => some count
  | .uint8 => some 1
  | .uint16 => some 2
  | .uint32 => some 4
  | .uint64 => some 8
  | .length => some 3
  | _ => none

/-- If the inspection fails here, everything is as before, and the error tells how much was left. -/
def Atomic (inspection : Inspection) (c : Cursor) : Prop :=
  ∀ e c', inspection.answer c = (.error e, c') →
    c' = c ∧ ∃ needed, e = .incomplete needed c.remaining

/-- What is known of an inspection that asks for so many octets. -/
structure Shortfall (inspection : Inspection) (count : Nat) (c : Cursor) : Prop where
  /-- It fails just where they are not all left. -/
  fails : (∃ e c', inspection.answer c = (.error e, c')) ↔ c.remaining < count
  /-- It is atomic, unless it is a length of which some octets are left and some are not. -/
  atomic : inspection.Atomic c ↔
    ¬ (inspection = .length ∧ (c.remaining = 1 ∨ c.remaining = 2))
  /-- What a read says that asks for all its octets at once. -/
  single : inspection ≠ .length → c.remaining < count →
    inspection.answer c = (.error (.incomplete count c.remaining), c)
  /-- What becomes of a length that has begun: the place to read from is behind all that was left,
  and the error speaks of a single octet. -/
  begun : inspection = .length → c.remaining < count →
    inspection.answer c = (.error (.incomplete 1 0), c.forward c.remaining)

section

variable {inspection : Inspection} {c c' : Cursor}

theorem not_fails_of_ok {finding : Finding} (hAnswer : inspection.answer c = (.ok finding, c')) :
    ¬ ∃ e d, inspection.answer c = (.error e, d) := by
  rintro ⟨e, d, hError⟩
  cases hAnswer.symm.trans hError

theorem atomic_of_ok {finding : Finding} (hAnswer : inspection.answer c = (.ok finding, c')) :
    inspection.Atomic c :=
  fun e d hError => absurd ⟨e, d, hError⟩ (not_fails_of_ok hAnswer)

theorem atomic_iff_of_error {e : DecodeError} (hAnswer : inspection.answer c = (.error e, c')) :
    inspection.Atomic c ↔ c' = c ∧ ∃ needed, e = .incomplete needed c.remaining := by
  refine ⟨fun hAtomic => hAtomic e c' hAnswer, fun hKept d c'' hError => ?_⟩
  cases hAnswer.symm.trans hError
  exact hKept

end

theorem exists_single? {inspection : Inspection} {count : Nat}
    (hAsks : inspection.asks = some count) (hOther : inspection ≠ .length) :
    ∃ f, inspection.single? = some (count, f) := by
  cases inspection with
  | skip | uint8 | uint16 | uint32 | uint64 | take =>
    cases hAsks
    exact ⟨_, rfl⟩
  | length => exact absurd rfl hOther
  | _ => cases hAsks

theorem shortfall_of_single? {inspection : Inspection} {count : Nat} {f : ByteArray → Finding}
    (hSingle : inspection.single? = some (count, f)) (c : Cursor) :
    Shortfall inspection count c := by
  have hOther : inspection ≠ .length := by
    rintro rfl
    cases hSingle
  have hBegun : ¬ (inspection = .length ∧ (c.remaining = 1 ∨ c.remaining = 2)) :=
    fun hBegun => hOther hBegun.1
  by_cases hFits : count ≤ c.remaining
  case pos =>
    have hAnswer := answer_of_fits hSingle hFits
    exact
      { fails := iff_of_false (not_fails_of_ok hAnswer) (by omega)
        atomic := iff_of_true (atomic_of_ok hAnswer) hBegun
        single := fun _ hShort => absurd hFits (by omega)
        begun := fun hLength => absurd hLength hOther }
  case neg =>
    have hShort : c.remaining < count := Nat.lt_of_not_le hFits
    have hAnswer := answer_of_short hSingle hShort
    exact
      { fails := iff_of_true ⟨_, _, hAnswer⟩ hShort
        atomic := iff_of_true ((atomic_iff_of_error hAnswer).mpr ⟨rfl, count, rfl⟩) hBegun
        single := fun _ _ => hAnswer
        begun := fun hLength => absurd hLength hOther }

/-- The place to read from stays only where nothing was left. -/
theorem atomic_length_iff {c : Cursor} (hShort : c.remaining < 3) :
    length.Atomic c ↔ c.remaining = 0 := by
  rw [atomic_iff_of_error (answer_length_of_short hShort)]
  constructor
  · rintro ⟨hStays, -⟩
    have hIndex : c.index + c.remaining = c.index := congrArg Cursor.index hStays
    omega
  · intro hNone
    rw [hNone]
    exact ⟨rfl, 1, rfl⟩

theorem shortfall_length (c : Cursor) : Shortfall .length 3 c := by
  by_cases hFits : 3 ≤ c.remaining
  case pos =>
    have hAnswer := answer_length_of_fits hFits
    exact
      { fails := iff_of_false (not_fails_of_ok hAnswer) (by omega)
        atomic := iff_of_true (atomic_of_ok hAnswer) fun hBegun => by omega
        single := fun hOther => absurd rfl hOther
        begun := fun _ hShort => absurd hFits (by omega) }
  case neg =>
    have hShort : c.remaining < 3 := Nat.lt_of_not_le hFits
    have hAnswer := answer_length_of_short hShort
    refine
      { fails := iff_of_true ⟨_, _, hAnswer⟩ hShort
        atomic := (atomic_length_iff hShort).trans ?_
        single := fun hOther => absurd rfl hOther
        begun := fun _ _ => hAnswer }
    rw [and_iff_right rfl]
    omega

/-- Reads that fail change nothing and tell how much was left, but for a length of which one or two
octets are left. -/
theorem shortfall_of_asks {inspection : Inspection} {count : Nat}
    (hAsks : inspection.asks = some count) (c : Cursor) : Shortfall inspection count c := by
  by_cases hLength : inspection = .length
  · subst hLength
    cases hAsks
    exact shortfall_length c
  · obtain ⟨f, hSingle⟩ := exists_single? hAsks hLength
    exact shortfall_of_single? hSingle c

/-- Two octets of a length. -/
theorem shortfall_of_asks_begun :
    length.asks = some 3 ∧
      ¬ length.Atomic (.start (BigEndian.encode 2 0x0102)) ∧
      length.answer (.start (BigEndian.encode 2 0x0102)) =
        (.error (.incomplete 1 0), (Cursor.start (BigEndian.encode 2 0x0102)).forward 2) := by
  have hFalls : Shortfall .length 3 (.start (BigEndian.encode 2 0x0102)) :=
    shortfall_of_asks rfl _
  refine ⟨rfl, fun hAtomic => hFalls.atomic.mp hAtomic ⟨rfl, .inr rfl⟩, ?_⟩
  exact hFalls.begun rfl (by decide)

/-- A length of which two octets are left is not read all or nothing. -/
theorem not_atomic :
    ¬ ∀ (inspection : Inspection) (count : Nat), inspection.asks = some count →
      inspection.Atomic (.start (BigEndian.encode 2 0x0102)) := by
  intro hAtomic
  have hMoved := (hAtomic .length 3 rfl (.incomplete 1 0)
    ⟨BigEndian.encode 2 0x0102, 2, 0⟩ rfl).1
  cases hMoved

end Inspection

end Resumption
