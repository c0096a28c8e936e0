import Resumption.Proofs.Shortfalls

/-!
# Lengths one behind the other

Lengths are written behind whatever is there, and those that do not fit are refused one by one. What
has been written is read back length by length, up to the end and no further. The other way round,
any octets that come in threes are lengths, and are written again as they were.

* `Body.extend`, `Body.extendAll` — writes one length, and one after the other
* `Body.putWord`, `Body.join` — the same on words of 64 bits, with shifts and a mask;
  `Body.masked_iff`, `Body.extend_word`, `Body.encode_join` — it comes to the same
* `Body.extendAll_eq` — what is written, and what is said of each length
* `Body.answers_strung` — what is read of it
* `Body.Extended`, `Body.Strung`, `Body.Restrung` — one length, many lengths, and back
-/

namespace Resumption.Body

-- ---------------------------------------------------------------------------
-- One length
-- ---------------------------------------------------------------------------

/-- Writes a length behind the octets. One that does not fit is told, and nothing is written. -/
def extend (bytes : ByteArray) (length : Nat) : Except EncodeError Unit × ByteArray :=
  match appendLength bytes length with
  | .ok longer => (.ok (), longer)
  | .error e => (.error e, bytes)

theorem extend_of_fits {length : Nat} (bytes : ByteArray) (hFits : length < 2 ^ 24) :
    extend bytes length = (.ok (), bytes ++ BigEndian.encode lengthSize length) := by
  have hMax : length ≤ maxLength := Nat.le_of_lt_succ hFits
  rw [extend, appendLength, if_pos hMax]

theorem extend_of_long {length : Nat} (bytes : ByteArray) (hLong : 2 ^ 24 ≤ length) :
    extend bytes length = (.error (.lengthOutOfRange length), bytes) := by
  have hMax : ¬ length ≤ maxLength := Nat.not_le.mpr hLong
  rw [extend, appendLength, if_neg hMax]

-- ---------------------------------------------------------------------------
-- Words of 64 bits
-- ---------------------------------------------------------------------------

/-- Writes behind the octets. What has been written before a failure is there all the same. -/
abbrev Writer := EStateM EncodeError ByteArray

def put (octet : UInt8) : Writer Unit :=
  modify fun bytes => bytes.push octet

/-- The bits that a length may have. -/
def lengthMask : UInt64 := 0xFFFFFF

/-- Writes the length that a word is, octet by octet, the highest first. -/
def putWord (word : UInt64) : Writer Unit := do
  if word &&& ~~~lengthMask = 0 then
    put (word >>> 16).toUInt8
    put (word >>> 8).toUInt8
    put word.toUInt8
  else throw (.lengthOutOfRange word.toNat)

/-- What a writer says, and the octets afterwards. -/
def outcome (writer : Writer Unit) (bytes : ByteArray) : Except EncodeError Unit × ByteArray :=
  match writer bytes with
  | .ok () longer => (.ok (), longer)
  | .error e longer => (.error e, longer)

/-- The three low octets of a word, the highest first. -/
def cut (word : UInt64) : ByteArray :=
  [(word >>> 16).toUInt8, (word >>> 8).toUInt8, word.toUInt8].toByteArray

/-- The word that three octets make up, the highest first. -/
def join (high middle low : UInt8) : UInt64 :=
  (high.toUInt64 <<< 16) ||| (middle.toUInt64 <<< 8) ||| low.toUInt64

/-- A word is made up of what a mask keeps and of what it clears. -/
theorem and_or_mask (word mask : UInt64) : (word &&& mask) ||| (word &&& ~~~mask) = word := by
  refine UInt64.toBitVec_inj.mp (BitVec.eq_of_getLsbD_eq fun i hi => ?_)
  simp only [UInt64.toBitVec_or, UInt64.toBitVec_and, UInt64.toBitVec_not, BitVec.getLsbD_or,
    BitVec.getLsbD_and, BitVec.getLsbD_not, hi, decide_true, Bool.true_and]
  cases word.toBitVec.getLsbD i <;> cases mask.toBitVec.getLsbD i <;> rfl

/-- No bit is set outside the mask just where the length fits. -/
theorem masked_iff (word : UInt64) : word &&& ~~~lengthMask = 0 ↔ word.toNat < 2 ^ 24 := by
  have hLow : (word &&& lengthMask).toNat = word.toNat % 2 ^ 24 := by
    rw [UInt64.toNat_and, ← Nat.and_two_pow_sub_one_eq_mod]
    rfl
  constructor
  · intro hClear
    -- Nothing is left of the word but its low part.
    have hWord := and_or_mask word lengthMask
    rw [hClear, UInt64.or_zero] at hWord
    rw [← hWord, hLow]
    exact Nat.mod_lt _ (by decide)
  · intro hFits
    have hKept : word &&& lengthMask = word := by
      refine UInt64.toNat_inj.mp ?_
      rw [hLow, Nat.mod_eq_of_lt hFits]
    rw [← hKept, UInt64.and_assoc, UInt64.and_not_self, UInt64.and_zero]

theorem cut_eq (word : UInt64) : cut word = BigEndian.encode lengthSize word.toNat := by
  have hOctet : ∀ (n : Nat) (octet : UInt8), octet.toNat = n % 2 ^ 8 → octet = UInt8.ofNat n :=
    fun n octet hValue => UInt8.toNat_inj.mp (hValue.trans UInt8.toNat_ofNat'.symm)
  have hHigh : (word >>> 16).toUInt8 = UInt8.ofNat (word.toNat / 256 / 256) := by
    refine hOctet _ _ ?_
    rw [UInt64.toNat_toUInt8, UInt64.toNat_shiftRight, Nat.div_div_eq_div_mul]
    exact congrArg (· % 2 ^ 8) (Nat.shiftRight_eq_div_pow word.toNat 16)
  have hMiddle : (word >>> 8).toUInt8 = UInt8.ofNat (word.toNat / 256) := by
    refine hOctet _ _ ?_
    rw [UInt64.toNat_toUInt8, UInt64.toNat_shiftRight]
    exact congrArg (· % 2 ^ 8) (Nat.shiftRight_eq_div_pow word.toNat 8)
  have hLow : word.toUInt8 = UInt8.ofNat word.toNat := hOctet _ _ (UInt64.toNat_toUInt8 word)
  rw [cut, hHigh, hMiddle, hLow]
  rfl

theorem toNat_join (high middle low : UInt8) :
    (join high middle low).toNat = high.toNat * 65536 + middle.toNat * 256 + low.toNat := by
  have hHigh := high.toNat_lt
  have hMiddle := middle.toNat_lt
  have hLow : low.toNat < 2 ^ 8 := low.toNat_lt
  have hBehind : middle.toNat <<< 8 + low.toNat < 2 ^ 16 := by
    rw [Nat.shiftLeft_eq]
    omega
  have hHighKept : high.toNat <<< 16 % 2 ^ 64 = high.toNat <<< 16 := by
    rw [Nat.shiftLeft_eq]
    omega
  have hMiddleKept : middle.toNat <<< 8 % 2 ^ 64 = middle.toNat <<< 8 := by
    rw [Nat.shiftLeft_eq]
    omega
  rw [join, UInt64.toNat_or, UInt64.toNat_or, UInt64.toNat_shiftLeft, UInt64.toNat_shiftLeft,
    UInt8.toNat_toUInt64, UInt8.toNat_toUInt64, UInt8.toNat_toUInt64]
  show high.toNat <<< 16 % 2 ^ 64 ||| middle.toNat <<< 8 % 2 ^ 64 ||| low.toNat = _
  rw [hHighKept, hMiddleKept, Nat.or_assoc, ← Nat.shiftLeft_add_eq_or_of_lt hLow,
    ← Nat.shiftLeft_add_eq_or_of_lt hBehind, Nat.shiftLeft_eq, Nat.shiftLeft_eq]
  omega

theorem join_lt (high middle low : UInt8) : (join high middle low).toNat < 2 ^ 24 := by
  have hHigh := high.toNat_lt
  have hMiddle := middle.toNat_lt
  have hLow := low.toNat_lt
  rw [toNat_join]
  omega

/-- Three octets that have been joined are written again. -/
theorem encode_join (high middle low : UInt8) :
    BigEndian.encode lengthSize (join high middle low).toNat =
      [high, middle, low].toByteArray := by
  have hNumber : (join high middle low).toNat =
      BigEndian.decode [high, middle, low].toByteArray := by
    rw [toNat_join, BigEndian.decode, List.data_toByteArray]
    show _ = ((0 * 256 + high.toNat) * 256 + middle.toNat) * 256 + low.toNat
    omega
  rw [hNumber]
  exact BigEndian.encode_decode [high, middle, low].toByteArray

theorem push_push_push (bytes : ByteArray) (high middle low : UInt8) :
    ((bytes.push high).push middle).push low = bytes ++ [high, middle, low].toByteArray := by
  ext1
  rw [ByteArray.data_append, List.data_toByteArray]
  simp only [ByteArray.data_push, Array.push_eq_append, Array.append_assoc]
  rfl

/-- A length is written like its word. -/
theorem extend_word (bytes : ByteArray) (word : UInt64) :
    extend bytes word.toNat = outcome (putWord word) bytes := by
  by_cases hClear : word &&& ~~~lengthMask = 0
  · have hPut : outcome (putWord word) bytes = (.ok (), bytes ++ cut word) := by
      rw [outcome, putWord, if_pos hClear, cut, ← push_push_push]
      rfl
    rw [hPut, extend_of_fits bytes ((masked_iff word).mp hClear), cut_eq]
  · have hLong : 2 ^ 24 ≤ word.toNat :=
      Nat.not_lt.mp fun hFits => hClear ((masked_iff word).mpr hFits)
    have hThrow : outcome (putWord word) bytes =
        (.error (.lengthOutOfRange word.toNat), bytes) := by
      rw [outcome, putWord, if_neg hClear]
      rfl
    rw [hThrow, extend_of_long bytes hLong]

-- ---------------------------------------------------------------------------
-- Writing one after the other
-- ---------------------------------------------------------------------------

/-- Writes one length after the other. One that is refused is followed by the next all the same. -/
def extendAll (bytes : ByteArray) : List Nat → List (Except EncodeError Unit) × ByteArray
  | [] => ([], bytes)
  | length :: lengths =>
    let extended := extend bytes length
    let later := extendAll extended.2 lengths
    (extended.1 :: later.1, later.2)

def fits (length : Nat) : Bool :=
  length < 2 ^ 24

/-- The octets of these lengths one behind the other. -/
def strung : List Nat → ByteArray
  | [] => ByteArray.empty
  | length :: lengths => BigEndian.encode lengthSize length ++ strung lengths

theorem size_strung (lengths : List Nat) : (strung lengths).size = 3 * lengths.length := by
  induction lengths with
  | nil => rfl
  | cons length lengths ih =>
    have hSize : (BigEndian.encode lengthSize length).size = 3 := BigEndian.size_encode 3 length
    rw [strung, ByteArray.size_append, ih, hSize, List.length_cons]
    omega

/-- Only the lengths that fit are written, and each of the others is told. -/
theorem extendAll_eq (bytes : ByteArray) (lengths : List Nat) :
    extendAll bytes lengths =
      (lengths.map fun length =>
          if length < 2 ^ 24 then .ok () else .error (.lengthOutOfRange length),
        bytes ++ strung (lengths.filter fits)) := by
  induction lengths generalizing bytes with
  | nil => exact congrArg (Prod.mk []) ByteArray.append_empty.symm
  | cons length lengths ih =>
    rw [extendAll, List.map_cons]
    by_cases hFits : length < 2 ^ 24
    · have hKept : fits length = true := decide_eq_true hFits
      rw [extend_of_fits bytes hFits, ih, if_pos hFits, List.filter_cons_of_pos hKept, strung,
        ByteArray.append_assoc]
    · have hDropped : ¬ fits length = true := fun hKept => hFits (of_decide_eq_true hKept)
      rw [extend_of_long bytes (Nat.le_of_not_lt hFits), ih, if_neg hFits,
        List.filter_cons_of_neg hDropped]

/-- Between lengths that fit, one that does not leaves no trace. -/
example : extendAll .empty [1, 0x1000000, 2] =
    ([.ok (), .error (.lengthOutOfRange 0x1000000), .ok ()], strung [1, 2]) := by
  rfl

-- ---------------------------------------------------------------------------
-- Reading one after the other
-- ---------------------------------------------------------------------------

/-- The answer of a read that has found this length. -/
def found (length : Nat) : Except DecodeError Inspection.Finding :=
  .ok (.number length)

theorem answer_of_sees {length : Nat} {tail : ByteArray} {c : Cursor} (hFits : length < 2 ^ 24)
    (hSees : c.Sees (BigEndian.encode lengthSize length ++ tail)) :
    Inspection.length.answer c =
      (found length, c.forward (BigEndian.encode lengthSize length).size) :=
  Inspection.answer_of_settle (.ok _)
    (bind_of_ok (Reader.reads_length hFits tail c hSees))

/-- At the end, there is never another length. -/
theorem answers_end {c : Cursor} (hEnd : c.remaining = 0) (count : Nat) :
    Inspection.answers c (List.replicate count .length) =
      (List.replicate count (.error (.incomplete 1 0)), c) := by
  have hAnswer := Inspection.answer_length_of_short (c := c) (by omega)
  rw [hEnd] at hAnswer
  induction count with
  | zero => rfl
  | succ count ih =>
    rw [List.replicate_succ, List.replicate_succ, Inspection.answers, hAnswer]
    change (_ :: (Inspection.answers c _).1, (Inspection.answers c _).2) = _
    rw [ih]

/-- The lengths ahead are read in their order, and nothing behind them. -/
theorem answers_strung {lengths : List Nat} (hFits : ∀ length ∈ lengths, length < 2 ^ 24)
    {c : Cursor} (hSees : c.Sees (strung lengths)) (count : Nat) :
    Inspection.answers c (List.replicate (lengths.length + count) .length) =
      (lengths.map found ++ List.replicate count (.error (.incomplete 1 0)),
        c.forward (strung lengths).size) := by
  induction lengths generalizing c with
  | nil =>
    rw [List.length_nil, Nat.zero_add]
    exact answers_end hSees.remaining count
  | cons length lengths ih =>
    obtain ⟨hFirst, hFits⟩ := List.forall_mem_cons.mp hFits
    rw [strung] at hSees
    have hLater := ih hFits hSees.forward
    rw [List.length_cons, Nat.add_right_comm, List.replicate_succ, Inspection.answers,
      answer_of_sees hFirst hSees]
    dsimp only
    rw [hLater, Cursor.forward_forward, strung, ByteArray.size_append, List.map_cons,
      List.cons_append]

/-- The lengths that octets make up, three by three. -/
def joinAll : List UInt8 → List Nat
  | high :: middle :: low :: octets => (join high middle low).toNat :: joinAll octets
  | _ => []

theorem joinAll_lt (octets : List UInt8) : ∀ length ∈ joinAll octets, length < 2 ^ 24 := by
  fun_induction joinAll octets with
  | case1 high middle low octets ih => exact List.forall_mem_cons.mpr ⟨join_lt high middle low, ih⟩
  | case2 octets hFew => nofun

/-- Octets that come in threes are made up of lengths. -/
theorem strung_joinAll {octets : List UInt8} {n : Nat} (hSize : octets.length = 3 * n) :
    strung (joinAll octets) = octets.toByteArray := by
  induction n generalizing octets with
  | zero =>
    obtain rfl := List.length_eq_zero_iff.mp hSize
    rfl
  | succ n ih =>
    match octets, hSize with
    | high :: middle :: low :: octets, hSize =>
      have hLater : octets.length = 3 * n := by
        simp only [List.length_cons] at hSize
        omega
      rw [joinAll, strung, encode_join, ih hLater, ← List.toByteArray_append]
      rfl

-- ---------------------------------------------------------------------------
-- Both ways
-- ---------------------------------------------------------------------------

/-- What becomes of a length that is written behind these octets. -/
structure Extended (bytes : ByteArray) (length : Nat) : Prop where
  written : length < 2 ^ 24 →
    ∃ octets, octets.size = 3 ∧ extend bytes length = (.ok (), bytes ++ octets)
  refused : 2 ^ 24 ≤ length → extend bytes length = (.error (.lengthOutOfRange length), bytes)
  /-- As a word, it is refused if it has bits outside the mask, and else written by shifts. -/
  word : ∀ word : UInt64, word.toNat = length → extend bytes length = outcome (putWord word) bytes

theorem extended (bytes : ByteArray) (length : Nat) : Extended bytes length := by
  refine ⟨fun hFits => ⟨_, BigEndian.size_encode 3 length, extend_of_fits bytes hFits⟩,
    extend_of_long bytes, ?_⟩
  rintro word rfl
  exact extend_word bytes word

/-- What becomes of lengths that are written behind these octets one after the other. -/
structure Strung (bytes : ByteArray) (lengths : List Nat) : Prop where
  verdicts : (extendAll bytes lengths).1 = lengths.map fun length =>
    if length < 2 ^ 24 then .ok () else .error (.lengthOutOfRange length)
  /-- What was there stays, and each length that fits takes three octets behind it. -/
  grows : ∃ octets, (extendAll bytes lengths).2 = bytes ++ octets ∧
    octets.size = 3 * (lengths.filter fits).length
  /-- However often a length is read from there on, first come those that were written, in their
  order, and then there is nothing left. -/
  read : ∀ mark count,
    Inspection.answers ⟨(extendAll bytes lengths).2, bytes.size, mark⟩
        (List.replicate ((lengths.filter fits).length + count) .length) =
      ((lengths.filter fits).map found ++ List.replicate count (.error (.incomplete 1 0)),
        ⟨(extendAll bytes lengths).2, (extendAll bytes lengths).2.size, mark⟩)

theorem strung_of_lengths (bytes : ByteArray) (lengths : List Nat) : Strung bytes lengths := by
  have hFits : ∀ length ∈ lengths.filter fits, length < 2 ^ 24 :=
    fun length hLength => of_decide_eq_true (List.mem_filter.mp hLength).2
  have hAll := extendAll_eq bytes lengths
  refine ⟨congrArg Prod.fst hAll, ⟨_, congrArg Prod.snd hAll, size_strung _⟩, fun mark count => ?_⟩
  rw [hAll, answers_strung hFits (Cursor.sees_append bytes _ mark) count, ByteArray.size_append]
  rfl

/-- The lengths that octets are read as. -/
def lengthsOf (octets : ByteArray) : List Nat :=
  joinAll octets.data.toList

/-- These octets are read as lengths, and written as lengths again. -/
structure Restrung (octets : ByteArray) : Prop where
  /-- Wherever they stand, the lengths that shifts join them to are read, up to their end. -/
  read : ∀ front mark,
    Inspection.answers ⟨front ++ octets, front.size, mark⟩
        (List.replicate (lengthsOf octets).length .length) =
      ((lengthsOf octets).map found, ⟨front ++ octets, (front ++ octets).size, mark⟩)
  /-- None of them is refused, and they come to the same octets. -/
  written : ∀ bytes,
    extendAll bytes (lengthsOf octets) =
      ((lengthsOf octets).map fun _ => .ok (), bytes ++ octets)

theorem strung_lengthsOf {octets : ByteArray} {n : Nat} (hSize : octets.size = 3 * n) :
    strung (lengthsOf octets) = octets := by
  have hLength : octets.data.toList.length = 3 * n := by
    rw [Array.length_toList, ByteArray.size_data, hSize]
  rw [lengthsOf, strung_joinAll hLength]
  ext1
  rw [List.data_toByteArray, Array.toArray_toList]

theorem restrung {octets : ByteArray} {n : Nat} (hSize : octets.size = 3 * n) :
    (lengthsOf octets).length = n ∧ Restrung octets := by
  have hFits : ∀ length ∈ lengthsOf octets, length < 2 ^ 24 := joinAll_lt _
  have hStrung := strung_lengthsOf hSize
  have hCount : 3 * (lengthsOf octets).length = octets.size := by rw [← size_strung, hStrung]
  -- Both ways go through the octets of the lengths, which are these octets again.
  refine ⟨by omega, fun front mark => ?_, fun bytes => ?_⟩
  · have hSees := Cursor.sees_append front (strung (lengthsOf octets)) mark
    have hRead := answers_strung hFits hSees 0
    rw [hStrung] at hRead
    simp only [Nat.add_zero, List.replicate_zero, List.append_nil] at hRead
    rw [ByteArray.size_append]
    exact hRead
  · have hKept : (lengthsOf octets).filter fits = lengthsOf octets :=
      List.filter_eq_self.mpr fun length hLength => decide_eq_true (hFits length hLength)
    have hVerdicts : ∀ length ∈ lengthsOf octets,
        (if length < 2 ^ 24 then .ok () else .error (.lengthOutOfRange length)) =
          (.ok () : Except EncodeError Unit) :=
      fun length hLength => if_pos (hFits length hLength)
    rw [extendAll_eq, hKept, hStrung, List.map_congr_left hVerdicts]

/-- Lengths are written and read back one after the other, and octets are read and written back. -/
theorem lengths_conveyed :
    (∀ bytes length, Extended bytes length) ∧ (∀ bytes lengths, Strung bytes lengths) ∧
      ∀ octets n, octets.size = 3 * n → (lengthsOf octets).length = n ∧ Restrung octets :=
  ⟨extended, strung_of_lengths, fun _ _ hSize => restrung hSize⟩

end Resumption.Body
