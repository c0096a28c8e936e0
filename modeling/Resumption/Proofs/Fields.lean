import Mathlib
import Resumption.Proofs.Wire

/-!
# Fields one behind the other

Decoders take fields off the octets ahead of them, one behind the other, and complain about the
first that does not fit. What a decoder makes of the octets ahead of it is therefore known from the
widths of its fields and from what it makes of them all; the place where it stands, and what lies
behind it, do not matter.

* `BigEndian.encode_decode` — a field that has been read is written again
* `Cursor.extract_forward` — a field ahead of a cursor, counted from where the cursor came from
* `walk` — the first of some widths that does not fit, or a verdict; `walk_of_fits`, `walk_of_short`,
  `walk_eq_ok_iff`
* `Reader.Walks` — a reader takes fields of these widths; `Reader.Walks.take` puts one in front
* `Reader.Walks.peek`, `Reader.Walks.within` — what a look ahead comes to
-/

namespace Resumption

-- ---------------------------------------------------------------------------
-- Numbers
-- ---------------------------------------------------------------------------

namespace BigEndian

theorem ofOctets_concat (front digits : List UInt8) :
    ofOctets (front ++ digits) = ofOctets front * 256 ^ digits.length + ofOctets digits := by
  induction digits using List.reverseRecOn with
  | nil =>
    rw [List.append_nil, List.length_nil, Nat.pow_zero, Nat.mul_one]
    rfl
  | append_singleton digits digit ih =>
    rw [← List.append_assoc, ofOctets_append, ofOctets_append, ih, List.length_append,
      List.length_singleton, Nat.pow_succ, Nat.add_mul, Nat.mul_assoc, Nat.add_assoc]

theorem ofOctets_lt (digits : List UInt8) : ofOctets digits < 256 ^ digits.length := by
  induction digits using List.reverseRecOn with
  | nil => exact Nat.one_pos
  | append_singleton digits digit ih =>
    have hDigit : digit.toNat < 256 := digit.toNat_lt
    rw [ofOctets_append, List.length_append, List.length_singleton, Nat.pow_succ]
    omega

theorem octets_ofOctets (digits : List UInt8) :
    octets digits.length (ofOctets digits) = digits := by
  induction digits using List.reverseRecOn with
  | nil => rfl
  | append_singleton digits digit ih =>
    have hDigit : digit.toNat < 256 := digit.toNat_lt
    have hHigh : (ofOctets digits * 256 + digit.toNat) / 256 = ofOctets digits := by omega
    have hLow : UInt8.ofNat (ofOctets digits * 256 + digit.toNat) = digit := by
      refine UInt8.toNat_inj.mp ?_
      rw [UInt8.toNat_ofNat']
      omega
    rw [List.length_append, List.length_singleton, octets, ofOctets_append, hHigh, hLow, ih]

theorem decode_append (front digits : ByteArray) :
    decode (front ++ digits) = decode front * 256 ^ digits.size + decode digits := by
  rw [decode, ByteArray.toList_data_append, ofOctets_concat, Array.length_toList,
    ByteArray.size_data]
  rfl

theorem decode_lt (bytes : ByteArray) : decode bytes < 256 ^ bytes.size := by
  have hDigits := ofOctets_lt bytes.data.toList
  rwa [Array.length_toList, ByteArray.size_data] at hDigits

/-- Octets that have been read as a number are written again. -/
theorem encode_decode (bytes : ByteArray) : encode bytes.size (decode bytes) = bytes := by
  have hDigits := octets_ofOctets bytes.data.toList
  rw [Array.length_toList, ByteArray.size_data] at hDigits
  rw [encode, decode, hDigits]
  ext1
  rw [List.data_toByteArray, Array.toArray_toList]

/-- The same for a field among other octets. -/
theorem encode_field (octets : ByteArray) {i j : Nat} (hFits : j ≤ octets.size) :
    encode (j - i) (decode (octets.extract i j)) = octets.extract i j := by
  have hSize : (octets.extract i j).size = j - i := by
    rw [ByteArray.size_extract, Nat.min_eq_left hFits]
  have hEncode := encode_decode (octets.extract i j)
  rwa [hSize] at hEncode

theorem decode_extract_lt (octets : ByteArray) {i j : Nat} :
    decode (octets.extract i j) < 256 ^ (j - i) := by
  have hSize : (octets.extract i j).size ≤ j - i := by
    rw [ByteArray.size_extract]
    omega
  exact Nat.lt_of_lt_of_le (decode_lt _) (Nat.pow_le_pow_right (by decide) hSize)

end BigEndian

-- ---------------------------------------------------------------------------
-- Octets and cursors
-- ---------------------------------------------------------------------------

/-- Octets are cut in two without loss. -/
theorem extract_append_rest {octets : ByteArray} {n : Nat} (hFits : n ≤ octets.size) :
    octets.extract 0 n ++ octets.extract n octets.size = octets := by
  rw [← ByteArray.extract_eq_extract_append_extract n (Nat.zero_le n) hFits,
    ByteArray.extract_zero_size]

namespace Cursor

theorem size_rest (c : Cursor) : c.rest.size = c.remaining := by
  rw [rest, ByteArray.size_extract, Nat.min_self]
  rfl

theorem remaining_forward (count : Nat) (c : Cursor) :
    (c.forward count).remaining = c.remaining - count := by
  show c.bytes.size - (c.index + count) = c.bytes.size - c.index - count
  omega

/-- Octets ahead of a cursor, wherever it stands. -/
theorem extract_rest (c : Cursor) (i j : Nat) :
    c.rest.extract i j = c.bytes.extract (c.index + i) (c.index + j) := by
  -- the end of the octets counts as far as the octets go
  have hEnd := ByteArray.extract_extract (a := c.bytes) (i := 0) (j := c.bytes.size)
    (k := c.index + i) (l := c.index + j)
  rw [ByteArray.extract_zero_size, Nat.zero_add, Nat.zero_add] at hEnd
  rw [rest, ByteArray.extract_extract, ← hEnd]

/-- The same octets, counted from further behind. -/
theorem extract_forward (count i j : Nat) (c : Cursor) :
    (c.forward count).rest.extract i j = c.rest.extract (count + i) (count + j) := by
  rw [extract_rest, extract_rest, ← Nat.add_assoc, ← Nat.add_assoc]
  rfl

/-- Everything from further behind. -/
theorem rest_forward (count : Nat) (c : Cursor) :
    (c.forward count).rest = c.rest.extract count c.rest.size := by
  rw [extract_rest, size_rest]
  show c.bytes.extract (c.index + count) c.bytes.size =
    c.bytes.extract (c.index + count) (c.index + (c.bytes.size - c.index))
  by_cases hIndex : c.index ≤ c.bytes.size
  · rw [Nat.add_sub_cancel' hIndex]
  · -- nothing is ahead of a cursor behind the end
    rw [ByteArray.extract_eq_empty_iff.mpr (by omega),
      ByteArray.extract_eq_empty_iff.mpr (by omega)]

theorem rest_start (part : ByteArray) : (start part).rest = part :=
  ByteArray.extract_zero_size

theorem remaining_start (part : ByteArray) : (start part).remaining = part.size :=
  rfl

end Cursor

-- ---------------------------------------------------------------------------
-- The first field that does not fit
-- ---------------------------------------------------------------------------

section

variable {α β : Type}

/-- What is said of so many octets that fields of these widths are to be taken from: that the first
of them that does not fit is missing octets, or, where all fit, what the verdict is. -/
def walk : List Nat → Nat → Except DecodeError α → Except DecodeError α
  | [], _, verdict => verdict
  | width :: widths, available, verdict =>
    if width ≤ available then walk widths (available - width) verdict
    else .error (.incomplete width available)

theorem walk_of_fits {widths : List Nat} {available : Nat} (verdict : Except DecodeError α)
    (hFits : widths.sum ≤ available) : walk widths available verdict = verdict := by
  induction widths generalizing available with
  | nil => rfl
  | cons width widths ih =>
    rw [List.sum_cons] at hFits
    rw [walk, if_pos (by omega), ih (by omega)]

theorem walk_of_short {before after : List Nat} {needed available : Nat}
    (verdict : Except DecodeError α) (hBefore : before.sum ≤ available)
    (hShort : available < before.sum + needed) :
    walk (before ++ needed :: after) available verdict =
      .error (.incomplete needed (available - before.sum)) := by
  induction before generalizing available with
  | nil =>
    rw [List.sum_nil, Nat.zero_add] at hShort
    rw [List.nil_append, walk, if_neg (by omega)]
    rfl
  | cons width before ih =>
    rw [List.sum_cons] at hBefore hShort ⊢
    rw [List.cons_append, walk, if_pos (by omega), ih (by omega) (by omega), Nat.sub_sub]

/-- Some field does not fit where all of them together do not. -/
theorem exists_short {widths : List Nat} {available : Nat} (hLong : available < widths.sum) :
    ∃ before needed after, widths = before ++ needed :: after ∧ before.sum ≤ available ∧
      available < before.sum + needed := by
  induction widths generalizing available with
  | nil => exact absurd hLong (Nat.not_lt_zero _)
  | cons width widths ih =>
    rw [List.sum_cons] at hLong
    by_cases hFits : width ≤ available
    · have hRest : available - width < widths.sum := by omega
      obtain ⟨before, needed, after, rfl, hBefore, hShort⟩ := ih hRest
      refine ⟨width :: before, needed, after, rfl, ?_, ?_⟩ <;> rw [List.sum_cons] <;> omega
    · refine ⟨[], width, widths, rfl, Nat.zero_le _, ?_⟩
      rw [List.sum_nil]
      omega

/-- There is a value only where all fields fit. -/
theorem walk_eq_ok_iff {widths : List Nat} {available : Nat} {verdict : Except DecodeError α}
    {value : α} :
    walk widths available verdict = .ok value ↔ widths.sum ≤ available ∧ verdict = .ok value := by
  by_cases hFits : widths.sum ≤ available
  · rw [walk_of_fits _ hFits, and_iff_right hFits]
  · obtain ⟨before, needed, after, rfl, hBefore, hShort⟩ := exists_short (Nat.lt_of_not_le hFits)
    rw [walk_of_short _ hBefore hShort]
    exact iff_of_false nofun fun hValue => hFits hValue.1

-- ---------------------------------------------------------------------------
-- Readers that take fields
-- ---------------------------------------------------------------------------

namespace Reader

/-- A verdict, and the cursor that is left behind with it. -/
def settle (verdict : Except DecodeError α) (c : Cursor) : EStateM.Result DecodeError Cursor α :=
  match verdict with
  | .ok value => .ok value c
  | .error e => .error e c

theorem settle_eq_ok_iff {verdict : Except DecodeError α} {c c' : Cursor} {value : α} :
    settle verdict c = .ok value c' ↔ verdict = .ok value ∧ c' = c := by
  cases verdict with
  | error e => exact iff_of_false nofun fun hValue => nomatch hValue.1
  | ok found =>
    rw [settle, EStateM.Result.ok.injEq, Except.ok.injEq, eq_comm (a := c)]

/-- From this cursor the reader takes fields of these widths one behind the other, and comes to this
verdict if all of them fit. It moves nothing but the place to read from. -/
def Walks (reader : Reader α) (c : Cursor) (widths : List Nat)
    (verdict : Except DecodeError α) : Prop :=
  ∃ index, reader c = settle (walk widths c.remaining verdict) { c with index }

variable {c : Cursor} {widths : List Nat} {verdict : Except DecodeError β} {width : Nat}

theorem walks_pure (value : α) (c : Cursor) : Walks (pure value) c [] (.ok value) :=
  ⟨c.index, rfl⟩

theorem walks_throw (e : DecodeError) (c : Cursor) :
    Walks (throw e : Reader α) c [] (.error e) :=
  ⟨c.index, rfl⟩

/-- One more field in front. Nothing needs to be known of what comes behind it where it does not
fit. -/
theorem Walks.take {k : ByteArray → Reader β}
    (hNext : width ≤ c.remaining →
      Walks (k (c.rest.extract 0 width)) (c.forward width) widths verdict) :
    Walks (Reader.take width >>= k) c (width :: widths) verdict := by
  unfold Walks
  show ∃ index, EStateM.bind (Reader.take width) k c = _
  rw [EStateM.bind, Reader.take, walk]
  by_cases hFits : width ≤ c.remaining
  · obtain ⟨index, hIndex⟩ := hNext hFits
    have hPart := c.extract_rest 0 width
    rw [Nat.add_zero] at hPart
    rw [if_pos hFits, if_pos hFits, ← hPart]
    rw [Cursor.remaining_forward] at hIndex
    exact ⟨index, hIndex⟩
  · rw [if_neg hFits, if_neg hFits]
    exact ⟨c.index, rfl⟩

theorem Walks.skip {k : Unit → Reader β}
    (hNext : width ≤ c.remaining → Walks (k ()) (c.forward width) widths verdict) :
    Walks (Reader.skip width >>= k) c (width :: widths) verdict := by
  rw [Reader.skip, bind_assoc]
  exact Walks.take hNext

theorem Walks.number {k : Nat → Reader β}
    (hNext : width ≤ c.remaining →
      Walks (k (BigEndian.decode (c.rest.extract 0 width))) (c.forward width) widths verdict) :
    Walks (Reader.number width >>= k) c (width :: widths) verdict := by
  rw [Reader.number, bind_assoc]
  exact Walks.take hNext

theorem Walks.uint16 {k : UInt16 → Reader β}
    (hNext : 2 ≤ c.remaining →
      Walks (k (.ofNat (BigEndian.decode (c.rest.extract 0 2)))) (c.forward 2) widths verdict) :
    Walks (Reader.uint16 >>= k) c (2 :: widths) verdict := by
  rw [Reader.uint16, bind_assoc]
  exact Walks.number hNext

theorem Walks.uint32 {k : UInt32 → Reader β}
    (hNext : 4 ≤ c.remaining →
      Walks (k (.ofNat (BigEndian.decode (c.rest.extract 0 4)))) (c.forward 4) widths verdict) :
    Walks (Reader.uint32 >>= k) c (4 :: widths) verdict := by
  rw [Reader.uint32, bind_assoc]
  exact Walks.number hNext

theorem Walks.uint64 {k : UInt64 → Reader β}
    (hNext : 8 ≤ c.remaining →
      Walks (k (.ofNat (BigEndian.decode (c.rest.extract 0 8)))) (c.forward 8) widths verdict) :
    Walks (Reader.uint64 >>= k) c (8 :: widths) verdict := by
  rw [Reader.uint64, bind_assoc]
  exact Walks.number hNext

/-- A length is three fields of one octet each. -/
theorem Walks.length {k : Nat → Reader β}
    (hNext : 3 ≤ c.remaining →
      Walks (k (BigEndian.decode (c.rest.extract 0 3))) (c.forward 3) widths verdict) :
    Walks (Reader.length >>= k) c (1 :: 1 :: 1 :: widths) verdict := by
  simp only [Reader.length, bind_assoc, pure_bind]
  refine Walks.number fun hHigh => Walks.number fun hMiddle => Walks.number fun hLow => ?_
  rw [Cursor.remaining_forward] at hMiddle
  rw [Cursor.remaining_forward, Cursor.remaining_forward] at hLow
  have hFits : 3 ≤ c.remaining := by omega
  have hSize : c.rest.size = c.remaining := c.size_rest
  -- the number is put together as it was taken apart
  have hValue : BigEndian.decode (c.rest.extract 0 3) =
      BigEndian.decode (c.rest.extract 0 1) * 65536 +
        BigEndian.decode ((c.forward 1).rest.extract 0 1) * 256 +
          BigEndian.decode (((c.forward 1).forward 1).rest.extract 0 1) := by
    have hOne : (c.rest.extract 1 2).size = 1 := by rw [ByteArray.size_extract]; omega
    have hTwo : (c.rest.extract 2 3).size = 1 := by rw [ByteArray.size_extract]; omega
    simp only [Cursor.extract_forward, Nat.reduceAdd]
    rw [ByteArray.extract_eq_extract_append_extract 2 (by omega) (by omega),
      ByteArray.extract_eq_extract_append_extract 1 (by omega) (by omega),
      BigEndian.decode_append, BigEndian.decode_append, hOne, hTwo]
    omega
  rw [← hValue, Cursor.forward_forward, Cursor.forward_forward]
  exact hNext hFits

/-- What is left is no field: it always fits. -/
theorem Walks.rest {k : ByteArray → Reader β}
    (hNext : Walks (k c.rest) (c.forward c.remaining) [] verdict) :
    Walks (Reader.rest >>= k) c [] verdict := by
  obtain ⟨index, hIndex⟩ := hNext
  have hRest := c.extract_rest 0 c.remaining
  rw [← c.size_rest, ByteArray.extract_zero_size, Nat.add_zero, c.size_rest] at hRest
  refine ⟨index, ?_⟩
  show EStateM.bind Reader.rest k c = _
  rw [EStateM.bind, Reader.rest, Reader.take, if_pos (Nat.le_refl _), ← hRest]
  exact hIndex

-- ---------------------------------------------------------------------------
-- Looking ahead
-- ---------------------------------------------------------------------------

/-- Whatever a look ahead comes to, the cursor is where it was, and remembers it. -/
theorem Walks.peek {reader : Reader β} (hReader : Walks reader c.marked widths verdict) :
    Reader.peek reader c = settle (walk widths c.remaining verdict) c.marked := by
  obtain ⟨index, hIndex⟩ := hReader
  unfold Reader.peek
  change reader { c with mark := c.index } = _ at hIndex
  rw [hIndex]
  show _ = settle (walk widths c.marked.remaining verdict) c.marked
  cases walk widths c.marked.remaining verdict <;> rfl

/-- A part is read on its own. -/
theorem Walks.within {reader : Reader β} {part : ByteArray}
    (hReader : Walks reader (.start part) widths verdict) (c : Cursor) :
    Reader.within part reader c = settle (walk widths part.size verdict) c := by
  obtain ⟨index, hIndex⟩ := hReader
  unfold Reader.within
  rw [hIndex, Cursor.remaining_start]
  cases walk widths part.size verdict <;> rfl

end Reader

end

end Resumption
