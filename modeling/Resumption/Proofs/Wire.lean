import Mathlib.Algebra.Group.Nat.Defs
import Resumption.Frame.Body

/-!
# What is written is read back

Numbers, segments and headers are written one behind the other and read from whatever place they
stand at. A reader is described by what it makes of the octets ahead of the cursor; how many there
are behind it makes no difference.

* `BigEndian.decode_encode` — a number is read back, cut to its width
* `Segments.toBytes_eq`, `Segments.size_toBytes` — segments are written one behind the other
* `Cursor.Sees` — the octets ahead of a cursor
* `Reader.Reads` — what a reader makes of the octets ahead of it; `Reader.Reads.bind` composes
* `Header.reads_read` — a header is read back from in front of anything
-/

namespace Resumption

-- ---------------------------------------------------------------------------
-- One computation after the other
-- ---------------------------------------------------------------------------

section

variable {ε σ α β : Type} {x : EStateM ε σ α} {k : α → EStateM ε σ β} {s s' : σ}

theorem bind_of_ok {value : α} (hFirst : x s = .ok value s') : (x >>= k) s = k value s' := by
  show EStateM.bind x k s = _
  rw [EStateM.bind, hFirst]

theorem bind_of_error {e : ε} (hFirst : x s = .error e s') : (x >>= k) s = .error e s' := by
  show EStateM.bind x k s = _
  rw [EStateM.bind, hFirst]

end

-- ---------------------------------------------------------------------------
-- Numbers
-- ---------------------------------------------------------------------------

namespace BigEndian

theorem ofOctets_append (digits : List UInt8) (digit : UInt8) :
    ofOctets (digits ++ [digit]) = ofOctets digits * 256 + digit.toNat := by
  simp [ofOctets]

theorem ofOctets_octets (width n : Nat) : ofOctets (octets width n) = n % 256 ^ width := by
  induction width generalizing n with
  | zero =>
    rw [Nat.pow_zero, Nat.mod_one]
    rfl
  | succ width ih =>
    have hDigit : (UInt8.ofNat n).toNat = n % 256 := UInt8.toNat_ofNat'
    rw [octets, ofOctets_append, ih, hDigit, Nat.pow_succ', Nat.mod_mul]
    omega

/-- A number is read back as far as its width goes. -/
theorem decode_encode (width n : Nat) : decode (encode width n) = n % 256 ^ width := by
  rw [decode, encode, List.data_toByteArray]
  exact ofOctets_octets width n

theorem encode_succ (width n : Nat) :
    encode (width + 1) n = encode width (n / 256) ++ encode 1 n := by
  rw [encode, octets, List.toByteArray_append]
  rfl

end BigEndian

-- ---------------------------------------------------------------------------
-- Segments
-- ---------------------------------------------------------------------------

namespace Segments

theorem toBytes_eq (s : Segments) : s.toBytes = s.parts.foldr (· ++ ·) ByteArray.empty := by
  have hFold : ∀ (parts : List ByteArray) (front : ByteArray),
      parts.foldl (· ++ ·) front = front ++ parts.foldr (· ++ ·) ByteArray.empty := by
    intro parts
    induction parts with
    | nil =>
      intro front
      exact ByteArray.append_empty.symm
    | cons part parts ih =>
      intro front
      rw [List.foldl_cons, ih, List.foldr_cons, ByteArray.append_assoc]
  rw [toBytes, hFold, ByteArray.empty_append]

/-- Leaving out the empty segments changes nothing of what is written. -/
theorem toBytes_of (parts : List ByteArray) :
    (of parts).toBytes = parts.foldr (· ++ ·) ByteArray.empty := by
  rw [toBytes_eq]
  induction parts with
  | nil => rfl
  | cons part parts ih =>
    by_cases hSize : part.size = 0
    · obtain rfl : part = ByteArray.empty := by simpa using hSize
      rw [List.foldr_cons, ByteArray.empty_append, ← ih]
      rfl
    · rw [of, List.filter_cons_of_pos (by simpa using hSize), List.foldr_cons, List.foldr_cons,
        ← ih]
      rfl

theorem size_of (parts : List ByteArray) : (of parts).size = octetCount parts := by
  induction parts with
  | nil => rfl
  | cons part parts ih =>
    by_cases hSize : part.size = 0
    · rw [octetCount, hSize, Nat.zero_add, ← ih, of, List.filter_cons_of_neg (by simpa using hSize)]
      rfl
    · rw [octetCount, ← ih, of, List.filter_cons_of_pos (by simpa using hSize)]
      rfl

theorem size_toBytes (s : Segments) : s.toBytes.size = s.size := by
  have hFold : ∀ (parts : List ByteArray) (front : ByteArray),
      (parts.foldl (· ++ ·) front).size = front.size + octetCount parts := by
    intro parts
    induction parts with
    | nil =>
      intro front
      rfl
    | cons part parts ih =>
      intro front
      rw [List.foldl_cons, ih, ByteArray.size_append, octetCount, Nat.add_assoc]
  rw [toBytes, hFold, ByteArray.size_empty, Nat.zero_add]
  rfl

end Segments

-- ---------------------------------------------------------------------------
-- Cursors
-- ---------------------------------------------------------------------------

/-- Octets are found between others. -/
theorem extract_between (front part tail : ByteArray) :
    (front ++ (part ++ tail)).extract front.size (front.size + part.size) = part := by
  have hOver := ByteArray.extract_append_size_add (a := front) (b := part ++ tail) (i := 0)
    (j := part.size)
  rw [Nat.add_zero] at hOver
  rw [hOver]
  exact ByteArray.extract_append_eq_left rfl

namespace Cursor

/-- These octets are ahead of the cursor, whatever is behind it. -/
def Sees (c : Cursor) (octets : ByteArray) : Prop :=
  ∃ front, c.bytes = front ++ octets ∧ c.index = front.size

def forward (count : Nat) (c : Cursor) : Cursor :=
  { c with index := c.index + count }

/-- A cursor that remembers where it is. -/
def marked (c : Cursor) : Cursor :=
  { c with mark := c.index }

variable {c : Cursor} {part tail : ByteArray}

theorem sees_append (front octets : ByteArray) (mark : Nat) :
    Sees ⟨front ++ octets, front.size, mark⟩ octets :=
  ⟨front, rfl, rfl⟩

theorem Sees.forward (hSees : c.Sees (part ++ tail)) : (c.forward part.size).Sees tail := by
  obtain ⟨front, hBytes, hIndex⟩ := hSees
  refine ⟨front ++ part, ?_, ?_⟩
  · rw [ByteArray.append_assoc]
    exact hBytes
  · rw [ByteArray.size_append, ← hIndex]
    rfl

theorem Sees.marked (hSees : c.Sees tail) : c.marked.Sees tail :=
  hSees

theorem Sees.remaining (hSees : c.Sees tail) : c.remaining = tail.size := by
  obtain ⟨front, hBytes, hIndex⟩ := hSees
  rw [Cursor.remaining, hBytes, hIndex, ByteArray.size_append]
  omega

theorem forward_forward (more count : Nat) (c : Cursor) :
    (c.forward count).forward more = c.forward (count + more) := by
  simp only [Cursor.forward, Nat.add_assoc]

end Cursor

-- ---------------------------------------------------------------------------
-- Readers
-- ---------------------------------------------------------------------------

namespace Reader

/-- The reader makes this value of these octets, in front of that tail, and stops behind them. -/
def Reads {α : Type} (reader : Reader α) (value : α) (octets tail : ByteArray) : Prop :=
  ∀ c : Cursor, c.Sees (octets ++ tail) → reader c = .ok value (c.forward octets.size)

section

variable {α β : Type} {reader : Reader α} {value : α} {octets tail : ByteArray}

theorem reads_pure (value : α) (tail : ByteArray) :
    Reads (pure value) value ByteArray.empty tail := by
  intro c _
  rfl

/-- What two readers make of two pieces, one makes of both. -/
theorem Reads.bind {k : α → Reader β} {other : β} {more : ByteArray}
    (hReader : Reads reader value octets (more ++ tail))
    (hNext : Reads (k value) other more tail) :
    Reads (reader >>= k) other (octets ++ more) tail := by
  intro c hSees
  rw [ByteArray.append_assoc] at hSees
  rw [bind_of_ok (hReader c hSees), hNext _ hSees.forward, Cursor.forward_forward,
    ByteArray.size_append]

theorem Reads.map {f : α → β} (hReader : Reads reader value octets tail) :
    Reads (do return f (← reader)) (f value) octets tail := by
  have hBind : Reads (do return f (← reader)) (f value) (octets ++ ByteArray.empty) tail := by
    refine Reads.bind ?_ (reads_pure (f value) tail)
    rw [ByteArray.empty_append]
    exact hReader
  rwa [ByteArray.append_empty] at hBind

/-- Looking ahead leaves the cursor where it is. -/
theorem Reads.peek {c : Cursor} (hReader : Reads reader value octets tail)
    (hSees : c.Sees (octets ++ tail)) : Reader.peek reader c = .ok value c.marked := by
  have hMarked := hReader c.marked hSees.marked
  unfold Reader.peek
  change reader { c with mark := c.index } = _ at hMarked
  rw [hMarked]
  rfl

end

theorem reads_take (part tail : ByteArray) : Reads (take part.size) part part tail := by
  intro c hSees
  have hFits : part.size ≤ c.remaining := by
    rw [hSees.remaining, ByteArray.size_append]
    omega
  obtain ⟨front, hBytes, hIndex⟩ := hSees
  have hPart : c.bytes.extract c.index (c.index + part.size) = part := by
    rw [hBytes, hIndex]
    exact extract_between front part tail
  rw [take, if_pos hFits, hPart]
  rfl

theorem reads_skip (part tail : ByteArray) : Reads (skip part.size) () part tail :=
  (reads_take part tail).map

/-- Everything that is left is read where nothing comes behind. -/
theorem reads_rest (part : ByteArray) : Reads rest part part ByteArray.empty := by
  intro c hSees
  have hTake := reads_take part ByteArray.empty c hSees
  rw [rest, hSees.remaining, ByteArray.append_empty]
  exact hTake

theorem reads_number (width n : Nat) (tail : ByteArray) :
    Reads (number width) (n % 256 ^ width) (BigEndian.encode width n) tail := by
  have hNumber := (reads_take (BigEndian.encode width n) tail).map (f := BigEndian.decode)
  rw [BigEndian.size_encode, BigEndian.decode_encode] at hNumber
  exact hNumber

theorem reads_uint16 (n : UInt16) (tail : ByteArray) :
    Reads uint16 n (BigEndian.encode 2 n.toNat) tail := by
  have hFits : n.toNat < 256 ^ 2 := n.toNat_lt
  have hUint := (reads_number 2 n.toNat tail).map (f := UInt16.ofNat)
  rw [Nat.mod_eq_of_lt hFits, UInt16.ofNat_toNat] at hUint
  exact hUint

theorem reads_uint32 (n : UInt32) (tail : ByteArray) :
    Reads uint32 n (BigEndian.encode 4 n.toNat) tail := by
  have hFits : n.toNat < 256 ^ 4 := n.toNat_lt
  have hUint := (reads_number 4 n.toNat tail).map (f := UInt32.ofNat)
  rw [Nat.mod_eq_of_lt hFits, UInt32.ofNat_toNat] at hUint
  exact hUint

/-- A length that fits its 24 bits is read back octet by octet. -/
theorem reads_length {n : Nat} (hFits : n < 2 ^ 24) (tail : ByteArray) :
    Reads length n (BigEndian.encode 3 n) tail := by
  have hValue : n / 256 / 256 % 256 ^ 1 * 65536 + n / 256 % 256 ^ 1 * 256 + n % 256 ^ 1 = n := by
    omega
  have hLow := (reads_number 1 n tail).map
    (f := fun low => n / 256 / 256 % 256 ^ 1 * 65536 + n / 256 % 256 ^ 1 * 256 + low)
  rw [hValue] at hLow
  have hMiddle := (reads_number 1 (n / 256) (BigEndian.encode 1 n ++ tail)).bind
    (k := fun middle => do
      return n / 256 / 256 % 256 ^ 1 * 65536 + middle * 256 + (← number 1)) hLow
  have hHigh := (reads_number 1 (n / 256 / 256)
    (BigEndian.encode 1 (n / 256) ++ BigEndian.encode 1 n ++ tail)).bind
    (k := fun high => do
      return high * 65536 + (← number 1) * 256 + (← number 1)) hMiddle
  rw [BigEndian.encode_succ, BigEndian.encode_succ 1, ByteArray.append_assoc]
  exact hHigh

end Reader

-- ---------------------------------------------------------------------------
-- Headers
-- ---------------------------------------------------------------------------

theorem Kind.ofCode?_code (kind : Kind) : Kind.ofCode? kind.code = some kind := by
  cases kind <;> rfl

theorem Kind.code_lt (kind : Kind) : kind.code.toNat < 2 ^ 6 := by
  cases kind <;> decide

namespace Header

theorem size_encode (h : Header) : h.encode.size = size := by
  rw [encode, ByteArray.size_append, BigEndian.size_encode, BigEndian.size_encode]
  rfl

theorem toNat_flags (stream : UInt32) (kind : Kind) (flags : UInt16) :
    (masked stream kind flags).flags.toNat = flags.toNat % 2 ^ 10 := by
  rw [masked, UInt16.toNat_and, ← Nat.and_two_pow_sub_one_eq_mod]
  rfl

/-- The kind stands above the flags. -/
theorem toNat_kindAndFlags (stream : UInt32) (kind : Kind) (flags : UInt16) :
    (masked stream kind flags).kindAndFlags.toNat =
      kind.code.toNat * 2 ^ 10 + flags.toNat % 2 ^ 10 := by
  have hCode := kind.code_lt
  have hFlags : flags.toNat % 2 ^ 10 < 2 ^ 10 := Nat.mod_lt _ (by decide)
  have hKind : kind.code.toNat <<< 10 % 2 ^ 16 = kind.code.toNat <<< 10 := by
    rw [Nat.shiftLeft_eq]
    omega
  rw [kindAndFlags, UInt16.toNat_or, toNat_flags, UInt16.toNat_shiftLeft]
  show kind.code.toUInt16.toNat <<< 10 % 2 ^ 16 ||| _ = _
  rw [UInt8.toNat_toUInt16]
  show kind.code.toNat <<< 10 % 2 ^ 16 ||| _ = _
  rw [hKind, ← Nat.shiftLeft_add_eq_or_of_lt hFlags, Nat.shiftLeft_eq]

theorem code_kindAndFlags (stream : UInt32) (kind : Kind) (flags : UInt16) :
    ((masked stream kind flags).kindAndFlags >>> kindShift).toUInt8 = kind.code := by
  have hCode := kind.code_lt
  refine UInt8.toNat_inj.mp ?_
  rw [UInt16.toNat_toUInt8, UInt16.toNat_shiftRight, toNat_kindAndFlags]
  show (kind.code.toNat * 2 ^ 10 + flags.toNat % 2 ^ 10) >>> 10 % 2 ^ 8 = _
  rw [Nat.shiftRight_eq_div_pow]
  omega

theorem masked_kindAndFlags (stream : UInt32) (kind : Kind) (flags : UInt16) :
    masked stream kind (masked stream kind flags).kindAndFlags = masked stream kind flags := by
  have hFlags : (masked stream kind (masked stream kind flags).kindAndFlags).flags =
      (masked stream kind flags).flags := by
    refine UInt16.toNat_inj.mp ?_
    rw [toNat_flags, toNat_flags, toNat_kindAndFlags]
    omega
  exact congrArg (Header.mk stream kind) hFlags

/-- What is read behind the stream. -/
def readBehind (stream : UInt32) (word : UInt16) : Reader Header := do
  let code := (word >>> kindShift).toUInt8
  let kind ← Reader.require (.unknownKind code) (Kind.ofCode? code)
  return masked stream kind word

theorem reads_readBehind (stream : UInt32) (kind : Kind) (flags : UInt16) (tail : ByteArray) :
    Reader.Reads (readBehind stream (masked stream kind flags).kindAndFlags)
      (masked stream kind flags) ByteArray.empty tail := by
  unfold readBehind
  dsimp only
  rw [code_kindAndFlags, Kind.ofCode?_code]
  show Reader.Reads (pure (masked stream kind (masked stream kind flags).kindAndFlags)) _ _ _
  rw [masked_kindAndFlags]
  exact Reader.reads_pure _ tail

/-- A header is read back from in front of anything. -/
theorem reads_read (stream : UInt32) (kind : Kind) (flags : UInt16) (tail : ByteArray) :
    Reader.Reads read (masked stream kind flags) (masked stream kind flags).encode tail := by
  have hWord := Reader.reads_uint16 (masked stream kind flags).kindAndFlags
    (ByteArray.empty ++ tail)
  have hBehind := hWord.bind (k := readBehind stream) (reads_readBehind stream kind flags tail)
  rw [ByteArray.append_empty] at hBehind
  have hStream := Reader.reads_uint32 stream
    (BigEndian.encode 2 (masked stream kind flags).kindAndFlags.toNat ++ tail)
  exact hStream.bind (k := fun stream => do readBehind stream (← Reader.uint16)) hBehind

end Header

end Resumption
