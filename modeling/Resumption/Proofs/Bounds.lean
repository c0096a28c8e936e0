import Resumption.Proofs.Shortfalls

/-!
# Nothing is read that is not there

Octets can be inspected in any order, with looks, failures and ways back in between. The two places
of the cursor never leave them. So nothing breaks down on a machine whose numbers reach just as far
as the count of the octets: no difference falls below zero, no sum goes beyond the largest number,
and no octet is asked for that is not there, in the middle of an inspection neither. Whoever does
not go back has covered all octets between the first place and the last, each of them once.

* `Reader.take?`, `Reader.rest?` — how octets are taken where numbers end somewhere
* `Reader.Safe` — nothing that a reader does on its way breaks down
* `Reader.Sound` — from within the octets a reader is safe and stays within; `Reader.Sound.bind`,
  `Reader.Sound.peek` compose
* `Inspection.covered`, `Inspection.coverage` — the octets that answers stand for
* `Inspection.Harmless` — what holds after any inspections
-/

namespace Resumption

/-- Both places of the cursor are in front of one of these octets, or right behind the last. -/
structure Cursor.Inside (bytes : ByteArray) (c : Cursor) : Prop where
  same : c.bytes = bytes
  index : c.index ≤ bytes.size
  mark : c.mark ≤ bytes.size

namespace Cursor.Inside

variable {bytes : ByteArray} {c : Cursor}

theorem start (bytes : ByteArray) : (Cursor.start bytes).Inside bytes :=
  ⟨rfl, Nat.zero_le _, Nat.zero_le _⟩

theorem marked (hInside : c.Inside bytes) : c.marked.Inside bytes :=
  ⟨hInside.same, hInside.index, hInside.index⟩

theorem back (hInside : c.Inside bytes) : Cursor.Inside bytes { c with index := c.mark } :=
  ⟨hInside.same, hInside.mark, hInside.mark⟩

theorem index_add_remaining (hInside : c.Inside bytes) : c.index + c.remaining = bytes.size := by
  rw [Cursor.remaining, hInside.same]
  exact Nat.add_sub_cancel' hInside.index

theorem forward {count : Nat} (hInside : c.Inside bytes) (hCount : count ≤ c.remaining) :
    (c.forward count).Inside bytes := by
  have hIndex := hInside.index_add_remaining
  refine ⟨hInside.same, ?_, hInside.mark⟩
  show c.index + count ≤ bytes.size
  omega

end Cursor.Inside

namespace Reader

-- ---------------------------------------------------------------------------
-- Numbers that end somewhere
-- ---------------------------------------------------------------------------

/-- A difference that is not below zero. -/
def difference? (a b : Nat) : Option Nat :=
  if b ≤ a then some (a - b) else none

/-- A sum that is not above the largest number. -/
def sum? (limit a b : Nat) : Option Nat :=
  if a + b ≤ limit then some (a + b) else none

/-- The octets from one place to another, if they are all there. -/
def slice? (bytes : ByteArray) (i j : Nat) : Option ByteArray :=
  if i ≤ j ∧ j ≤ bytes.size then some (bytes.extract i j) else none

/-- `take`, one calculation after the other. Nothing comes of it if one of them breaks down. -/
def take? (limit count : Nat) (c : Cursor) :
    Option (EStateM.Result DecodeError Cursor ByteArray) := do
  let remaining ← difference? c.bytes.size c.index
  if count ≤ remaining then
    let stop ← sum? limit c.index count
    let part ← slice? c.bytes c.index stop
    return .ok part { c with index := stop }
  else return .error (.incomplete count remaining) c

/-- `rest` in the same way. -/
def rest? (limit : Nat) (c : Cursor) : Option (EStateM.Result DecodeError Cursor ByteArray) := do
  let remaining ← difference? c.bytes.size c.index
  take? limit remaining c

section

variable {limit : Nat} {c : Cursor}

theorem difference?_eq (hIndex : c.index ≤ c.bytes.size) :
    difference? c.bytes.size c.index = some c.remaining :=
  if_pos hIndex

/-- Within the octets nothing breaks down if the largest number reaches as far as they do. -/
theorem take?_eq (count : Nat) (hIndex : c.index ≤ c.bytes.size) (hLimit : c.bytes.size ≤ limit) :
    take? limit count c = some (take count c) := by
  have hRemaining : c.index + c.remaining = c.bytes.size := Nat.add_sub_cancel' hIndex
  rw [take?, difference?_eq hIndex, take, Option.bind_eq_bind, Option.bind_some]
  by_cases hFits : count ≤ c.remaining
  · have hSum : sum? limit c.index count = some (c.index + count) := if_pos (by omega)
    have hPart : slice? c.bytes c.index (c.index + count) =
        some (c.bytes.extract c.index (c.index + count)) := if_pos (by omega)
    rw [if_pos hFits, if_pos hFits, hSum, Option.bind_eq_bind, Option.bind_some, hPart]
    rfl
  · rw [if_neg hFits, if_neg hFits]
    rfl

theorem rest?_eq (hIndex : c.index ≤ c.bytes.size) (hLimit : c.bytes.size ≤ limit) :
    rest? limit c = some (rest c) := by
  rw [rest?, difference?_eq hIndex, Option.bind_eq_bind, Option.bind_some]
  exact take?_eq c.remaining hIndex hLimit

end

-- ---------------------------------------------------------------------------
-- On the way
-- ---------------------------------------------------------------------------

/-- Nothing that the reader does on its way from this cursor breaks down: wherever it takes octets,
the calculations come to what they should. -/
inductive Safe (limit : Nat) : {α : Type} → Reader α → Cursor → Prop
  | pure {α : Type} (value : α) (c : Cursor) : Safe limit (pure value) c
  | throw {α : Type} (e : DecodeError) (c : Cursor) : Safe limit (throw e : Reader α) c
  | take {count : Nat} {c : Cursor} (hTake : take? limit count c = some (take count c)) :
    Safe limit (take count) c
  | rest {c : Cursor} (hRest : rest? limit c = some (rest c)) : Safe limit rest c
  | setMark (c : Cursor) : Safe limit setMark c
  | reset (c : Cursor) : Safe limit reset c
  | bind {α β : Type} {reader : Reader α} {k : α → Reader β} {c : Cursor}
    (hReader : Safe limit reader c)
    (hNext : ∀ value c', reader c = .ok value c' → Safe limit (k value) c') :
    Safe limit (reader >>= k) c
  | peek {α : Type} {reader : Reader α} {c : Cursor} (hReader : Safe limit reader c.marked) :
    Safe limit (peek reader) c
  | within {α : Type} {part : ByteArray} {reader : Reader α} {c : Cursor}
    (hReader : Safe limit reader (.start part)) : Safe limit (within part reader) c

/-- From within the octets, as many as there are numbers for, the reader is safe and stays
within. -/
def Sound {α : Type} (limit : Nat) (reader : Reader α) : Prop :=
  ∀ (bytes : ByteArray) (c : Cursor), bytes.size ≤ limit → c.Inside bytes →
    Safe limit reader c ∧ ∃ verdict c', reader c = settle verdict c' ∧ c'.Inside bytes

/-- The reader can come to this value, from octets that there are numbers for. -/
def Yields {α : Type} (limit : Nat) (reader : Reader α) (value : α) : Prop :=
  ∃ c c', c.bytes.size ≤ limit ∧ reader c = .ok value c'

section

variable {α β : Type} {limit : Nat} {reader : Reader α} {k : α → Reader β}

theorem sound_pure (value : α) : Sound limit (pure value) :=
  fun _ c _ hInside => ⟨.pure value c, .ok value, c, rfl, hInside⟩

theorem sound_throw (e : DecodeError) : Sound limit (throw e : Reader α) :=
  fun _ c _ hInside => ⟨.throw e c, .error e, c, rfl, hInside⟩

theorem sound_take (count : Nat) : Sound limit (take count) := by
  rintro bytes c hLimit hInside
  obtain ⟨verdict, moved, hMoved, hVerdict⟩ := advances_take count c
  refine ⟨.take ?_, verdict, _, hVerdict, hInside.forward hMoved⟩
  obtain rfl := hInside.same
  exact take?_eq count hInside.index hLimit

theorem sound_rest : Sound limit rest := by
  rintro bytes c hLimit hInside
  obtain ⟨verdict, moved, hMoved, hVerdict⟩ := advances_rest c
  refine ⟨.rest ?_, verdict, _, hVerdict, hInside.forward hMoved⟩
  obtain rfl := hInside.same
  exact rest?_eq hInside.index hLimit

theorem sound_setMark : Sound limit setMark :=
  fun _ c _ hInside => ⟨.setMark c, .ok (), _, rfl, hInside.marked⟩

theorem sound_reset : Sound limit reset :=
  fun _ c _ hInside => ⟨.reset c, .ok (), _, rfl, hInside.back⟩

theorem Sound.bind (hReader : Sound limit reader)
    (hNext : ∀ value, Yields limit reader value → Sound limit (k value)) :
    Sound limit (reader >>= k) := by
  intro bytes c hLimit hInside
  obtain ⟨hSafe, verdict, c', hVerdict, hInside'⟩ := hReader bytes c hLimit hInside
  -- Where the first reader fails the second is never on the way.
  cases verdict with
  | error e =>
    refine ⟨.bind hSafe fun value d hValue => ?_, .error e, c', bind_of_error hVerdict, hInside'⟩
    cases hVerdict.symm.trans hValue
  | ok value =>
    have hYields : Yields limit reader value := ⟨c, c', hInside.same ▸ hLimit, hVerdict⟩
    obtain ⟨hSafeNext, next, d, hNextVerdict, hInsideNext⟩ :=
      hNext value hYields bytes c' hLimit hInside'
    refine ⟨.bind hSafe fun other d hOther => ?_, next, d, ?_, hInsideNext⟩
    · cases hVerdict.symm.trans hOther
      exact hSafeNext
    · exact (bind_of_ok hVerdict).trans hNextVerdict

/-- The way back leads to a place within. -/
theorem Sound.peek (hReader : Sound limit reader) : Sound limit (Reader.peek reader) := by
  intro bytes c hLimit hInside
  obtain ⟨hSafe, verdict, c', hVerdict, hInside'⟩ := hReader bytes c.marked hLimit hInside.marked
  refine ⟨.peek hSafe, verdict, _, ?_, hInside'.back⟩
  unfold Reader.peek
  change reader { c with mark := c.index } = _ at hVerdict
  rw [hVerdict]
  cases verdict <;> rfl

theorem Sound.within {part : ByteArray} (hReader : Sound limit reader)
    (hPart : part.size ≤ limit) : Sound limit (Reader.within part reader) := by
  intro bytes c hLimit hInside
  obtain ⟨hSafe, verdict, c', hVerdict, -⟩ := hReader part (.start part) hPart (.start part)
  refine ⟨.within hSafe, verdict, c, ?_, hInside⟩
  unfold Reader.within
  rw [hVerdict]
  cases verdict <;> rfl

theorem sound_skip (count : Nat) : Sound limit (skip count) :=
  (sound_take count).bind fun _ _ => sound_pure ()

theorem sound_number (width : Nat) : Sound limit (number width) :=
  (sound_take width).bind fun _ _ => sound_pure _

theorem sound_uint16 : Sound limit uint16 :=
  (sound_number 2).bind fun _ _ => sound_pure _

theorem sound_uint32 : Sound limit uint32 :=
  (sound_number 4).bind fun _ _ => sound_pure _

theorem sound_uint64 : Sound limit uint64 :=
  (sound_number 8).bind fun _ _ => sound_pure _

theorem sound_length : Sound limit length :=
  (sound_number 1).bind fun _ _ => (sound_number 1).bind fun _ _ =>
    (sound_number 1).bind fun _ _ => sound_pure _

theorem sound_require (e : DecodeError) (value : Option α) : Sound limit (require e value) := by
  cases value with
  | none => exact sound_throw e
  | some value => exact sound_pure value

end

end Reader

-- ---------------------------------------------------------------------------
-- Frames
-- ---------------------------------------------------------------------------

open Reader

section

variable {limit : Nat}

theorem Header.sound_peek : Sound limit Header.peek := by
  refine Sound.peek (sound_uint32.bind fun stream _ => sound_uint16.bind fun word _ => ?_)
  exact (sound_require _ _).bind fun _ _ => sound_pure _

theorem Header.sound_expect (kind : Kind) : Sound limit (Header.expect kind) := by
  refine Header.sound_peek.bind fun header _ => ?_
  by_cases hKind : header.kind = kind
  · rw [if_pos hKind]
    exact sound_pure header
  · rw [if_neg hKind]
    exact sound_throw _

theorem Body.sound_metadata (present : Bool) : Sound limit (Body.metadata present) := by
  refine Sound.peek ((sound_skip Header.size).bind fun _ _ => ?_)
  cases present with
  | false => exact sound_pure _
  | true => exact sound_length.bind fun length _ => sound_take length

theorem Body.sound_data (present : Bool) : Sound limit (Body.data present) := by
  refine Sound.peek ((sound_skip Header.size).bind fun _ _ => ?_)
  cases present with
  | false => exact sound_rest
  | true =>
    exact sound_length.bind fun length _ => (sound_skip length).bind fun _ _ => sound_rest

/-- The data is some of the octets there are. -/
theorem Body.size_le_of_yields {present : Bool} {part : ByteArray}
    (hYields : Yields limit (Body.data present) part) : part.size ≤ limit := by
  obtain ⟨c, c', hLimit, hData⟩ := hYields
  rw [Body.data_eq, settle_eq_ok_iff, walk_eq_ok_iff] at hData
  obtain ⟨⟨-, hPart⟩, -⟩ := hData
  cases hPart
  have hSize : c.rest.size ≤ c.bytes.size := by
    rw [c.size_rest]
    exact Nat.sub_le _ _
  rw [Body.dataAt, ByteArray.size_extract]
  omega

theorem sound_framed {α : Type} {inner : Reader α} (kind : Kind) (hInner : Sound limit inner) :
    Sound limit (framed kind inner) := by
  refine (Header.sound_expect kind).bind fun _ _ => (Body.sound_data false).bind ?_
  intro part hPart
  exact hInner.within (Body.size_le_of_yields hPart)

theorem Resume.sound_body : Sound limit Resume.body :=
  (sound_skip 2).bind fun _ _ => (sound_skip 2).bind fun _ _ =>
    (sound_number tokenLengthSize).bind fun length _ => (sound_take length).bind fun _ _ =>
      sound_uint64.bind fun _ _ => sound_uint64.bind fun _ _ => sound_pure _

theorem Failure.sound_code : Sound limit Failure.code := by
  rw [Failure.code_eq]
  exact sound_framed .error (sound_uint32.bind fun _ _ => sound_require _ _)

theorem Failure.sound_spelt (octets : ByteArray) : Sound limit (Failure.spelt octets) := by
  unfold Failure.spelt
  cases Utf8.decode octets with
  | ok text => exact sound_pure text
  | error defect => exact sound_throw _

theorem Failure.sound_message : Sound limit Failure.message := by
  rw [Failure.message_eq]
  refine sound_framed .error ((sound_skip codeSize).bind fun _ _ => ?_)
  exact sound_rest.bind fun octets _ => Failure.sound_spelt octets

end

namespace Inspection

theorem sound (limit : Nat) (inspection : Inspection) : Sound limit inspection.reader := by
  have hMade : ∀ {α : Type} {reader : Reader α} (f : α → Finding), Sound limit reader →
      Sound limit (do return f (← reader)) :=
    fun f hReader => hReader.bind fun _ _ => sound_pure _
  cases inspection with
  | setMark => exact hMade _ sound_setMark
  | reset => exact hMade _ sound_reset
  | skip count => exact hMade _ (sound_skip count)
  | uint8 => exact hMade _ ((sound_number 1).bind fun _ _ => sound_pure _)
  | uint16 => exact hMade _ sound_uint16
  | uint32 => exact hMade _ sound_uint32
  | uint64 => exact hMade _ sound_uint64
  | take count => exact hMade _ (sound_take count)
  | rest => exact hMade _ sound_rest
  | length => exact hMade _ sound_length
  | metadata present => exact hMade _ (Body.sound_metadata present)
  | data present => exact hMade _ (Body.sound_data present)
  | header => exact hMade _ Header.sound_peek
  | resume => exact hMade _ (sound_framed .resume Resume.sound_body)
  | resumeOk => exact hMade _ (sound_framed .resumeOk sound_uint64)
  | errorCode => exact hMade _ Failure.sound_code
  | errorMessage => exact hMade _ Failure.sound_message

/-- Where one inspection after the other leads. -/
def after (c : Cursor) (inspections : List Inspection) : Cursor :=
  (answers c inspections).2

section

variable {bytes : ByteArray} {c : Cursor}

theorem inside_answer (inspection : Inspection) (hInside : c.Inside bytes) :
    (inspection.answer c).2.Inside bytes := by
  obtain ⟨-, verdict, c', hVerdict, hInside'⟩ :=
    sound bytes.size inspection bytes c (Nat.le_refl _) hInside
  rwa [answer_of_settle verdict hVerdict]

theorem inside_after (inspections : List Inspection) (hInside : c.Inside bytes) :
    (after c inspections).Inside bytes := by
  induction inspections generalizing c with
  | nil => exact hInside
  | cons inspection inspections ih => exact ih (inside_answer inspection hInside)

end

-- ---------------------------------------------------------------------------
-- What has been covered
-- ---------------------------------------------------------------------------

/-- So many octets read one by one, as far as they are there. -/
def ones : Nat → Cursor → ByteArray
  | 0, _ => ByteArray.empty
  | count + 1, c =>
    match Reader.number 1 c with
    | .ok octet c' => BigEndian.encode 1 octet ++ ones count c'
    | .error _ _ => ByteArray.empty

/-- The octets that an answer stands for: those of the number or the part that was read, those that
were skipped, and of a length that is cut the single ones in front of the cut. -/
def spelt (c : Cursor) : Inspection → Except DecodeError Finding → ByteArray
  | .skip count, .ok _ => c.bytes.extract c.index (c.index + count)
  | .uint8, .ok (.number n) => BigEndian.encode 1 n
  | .uint16, .ok (.number n) => BigEndian.encode 2 n
  | .uint32, .ok (.number n) => BigEndian.encode 4 n
  | .uint64, .ok (.number n) => BigEndian.encode 8 n
  | .take _, .ok (.bytes part) => part
  | .rest, .ok (.bytes part) => part
  | .length, .ok (.number n) => BigEndian.encode 3 n
  | .length, .error _ => ones 3 c
  | _, _ => ByteArray.empty

def covered (inspection : Inspection) (c : Cursor) : ByteArray :=
  spelt c inspection (inspection.answer c).1

/-- The octets that the answers to one inspection after the other stand for. -/
def coverage (c : Cursor) : List Inspection → ByteArray
  | [] => ByteArray.empty
  | inspection :: inspections =>
    inspection.covered c ++ coverage (inspection.answer c).2 inspections

section

variable {c : Cursor} {inspection : Inspection}

/-- The octets in front are those of the number that they are read as. -/
theorem encode_first {width n : Nat} (hFits : width ≤ c.remaining)
    (hNumber : n = BigEndian.decode (c.rest.extract 0 width) % 256 ^ width) :
    BigEndian.encode width n = c.rest.extract 0 width := by
  have hLt : BigEndian.decode (c.rest.extract 0 width) < 256 ^ width :=
    BigEndian.decode_extract_lt c.rest (i := 0) (j := width)
  have hField := BigEndian.encode_field c.rest (i := 0) (j := width) (by rwa [c.size_rest])
  rw [hNumber, Nat.mod_eq_of_lt hLt]
  exact hField

theorem covered_of_fits {width : Nat} {f : ByteArray → Finding}
    (hSingle : inspection.single? = some (width, f)) (hFits : width ≤ c.remaining) :
    inspection.covered c = c.rest.extract 0 width := by
  rw [covered, answer_of_fits hSingle hFits]
  cases inspection with
  | skip count =>
    cases hSingle
    rw [Cursor.extract_rest, Nat.add_zero]
    rfl
  | uint8 =>
    cases hSingle
    exact encode_first hFits UInt8.toNat_ofNat'
  | uint16 =>
    cases hSingle
    exact encode_first hFits UInt16.toNat_ofNat'
  | uint32 =>
    cases hSingle
    exact encode_first hFits UInt32.toNat_ofNat'
  | uint64 =>
    cases hSingle
    exact encode_first hFits UInt64.toNat_ofNat'
  | take count =>
    cases hSingle
    rfl
  | _ => cases hSingle

theorem covered_of_short {width : Nat} {f : ByteArray → Finding}
    (hSingle : inspection.single? = some (width, f)) (hShort : c.remaining < width) :
    inspection.covered c = ByteArray.empty := by
  rw [covered, answer_of_short hSingle hShort]
  cases inspection with
  | skip | uint8 | uint16 | uint32 | uint64 | take => rfl
  | _ => cases hSingle

theorem ones_eq (count : Nat) (c : Cursor) : ones count c = c.rest.extract 0 count := by
  induction count generalizing c with
  | zero => exact (ByteArray.extract_eq_empty_iff.mpr (Nat.zero_le _)).symm
  | succ count ih =>
    rw [ones]
    by_cases hFits : 1 ≤ c.remaining
    · have hFirst : BigEndian.encode 1 (BigEndian.decode (c.rest.extract 0 1)) =
          c.rest.extract 0 1 :=
        BigEndian.encode_field c.rest (i := 0) (by rwa [c.size_rest])
      rw [Reader.number_of_fits hFits]
      dsimp only
      rw [hFirst, ih, Cursor.extract_forward, Nat.add_comm count, ←
        ByteArray.extract_eq_extract_append_extract 1 (by omega) (by omega)]
    · have hNone : c.rest.extract 0 (count + 1) = ByteArray.empty := by
        have hSize := c.size_rest
        exact ByteArray.extract_eq_empty_iff.mpr (by omega)
      rw [Reader.number_of_short (by omega), hNone]

theorem covered_length_of_fits (hFits : 3 ≤ c.remaining) :
    length.covered c = c.rest.extract 0 3 := by
  rw [covered, answer_length_of_fits hFits]
  exact BigEndian.encode_field c.rest (i := 0) (by rwa [c.size_rest])

/-- Of a length that is cut, all that is left is covered. -/
theorem covered_length_of_short (hShort : c.remaining < 3) :
    length.covered c = c.rest.extract 0 c.remaining := by
  rw [covered, answer_length_of_short hShort]
  show ones 3 c = _
  have hWhole := ByteArray.extract_extract (a := c.rest) (i := 0) (j := c.rest.size) (k := 0)
    (l := 3)
  rw [ByteArray.extract_zero_size, Nat.zero_add, Nat.zero_add, c.size_rest,
    Nat.min_eq_right (Nat.le_of_lt hShort)] at hWhole
  rw [ones_eq, hWhole]

theorem covered_of_looks (hLook : inspection.isLook) : inspection.covered c = ByteArray.empty := by
  rw [covered]
  cases inspection with
  | metadata | data | header | resume | resumeOk | errorCode | errorMessage => rfl
  | _ => cases hLook

end

/-- The inspection leads past so many octets, and they are what it covers. -/
structure Passes (inspection : Inspection) (count : Nat) (c : Cursor) : Prop where
  index : (inspection.answer c).2.index = c.index + count
  covered : inspection.covered c = c.rest.extract 0 count

section

variable {c : Cursor} {inspection : Inspection}

theorem passes_of_stays (hIndex : (inspection.answer c).2.index = c.index)
    (hCovered : inspection.covered c = ByteArray.empty) : inspection.Passes 0 c :=
  ⟨hIndex, hCovered.trans (ByteArray.extract_eq_empty_iff.mpr (Nat.zero_le _)).symm⟩

theorem passes_of_forward {count : Nat} (hAfter : (inspection.answer c).2 = c.forward count)
    (hCovered : inspection.covered c = c.rest.extract 0 count) : inspection.Passes count c :=
  ⟨congrArg Cursor.index hAfter, hCovered⟩

theorem passes_of_single? {width : Nat} {f : ByteArray → Finding}
    (hSingle : inspection.single? = some (width, f)) (c : Cursor) :
    ∃ count, inspection.Passes count c := by
  by_cases hFits : width ≤ c.remaining
  · have hAnswer := answer_of_fits hSingle hFits
    exact ⟨width, passes_of_forward (congrArg Prod.snd hAnswer) (covered_of_fits hSingle hFits)⟩
  · have hShort : c.remaining < width := Nat.lt_of_not_le hFits
    have hAnswer := answer_of_short hSingle hShort
    refine ⟨0, passes_of_stays ?_ (covered_of_short hSingle hShort)⟩
    exact congrArg (Cursor.index ∘ Prod.snd) hAnswer

theorem passes_length (c : Cursor) : ∃ count, length.Passes count c := by
  by_cases hFits : 3 ≤ c.remaining
  · have hAnswer := answer_length_of_fits hFits
    exact ⟨3, passes_of_forward (congrArg Prod.snd hAnswer) (covered_length_of_fits hFits)⟩
  · have hShort : c.remaining < 3 := Nat.lt_of_not_le hFits
    have hAnswer := answer_length_of_short hShort
    exact ⟨_, passes_of_forward (congrArg Prod.snd hAnswer) (covered_length_of_short hShort)⟩

theorem passes_rest (c : Cursor) : Passes .rest c.remaining c := by
  have hRest : Reader.rest c = .ok (c.rest.extract 0 c.remaining) (c.forward c.remaining) :=
    Reader.take_of_fits (Nat.le_refl _)
  have hAnswer : Inspection.rest.answer c =
      (.ok (.bytes (c.rest.extract 0 c.remaining)), c.forward c.remaining) :=
    answer_of_settle (.ok _) (bind_of_ok hRest)
  refine passes_of_forward (congrArg Prod.snd hAnswer) ?_
  rw [Inspection.covered, hAnswer]
  rfl

theorem passes_of_looks (hLook : inspection.isLook) (c : Cursor) : inspection.Passes 0 c := by
  obtain ⟨verdict, hAnswer, -⟩ := answer_of_looks hLook c
  refine passes_of_stays ?_ (covered_of_looks hLook)
  exact congrArg (Cursor.index ∘ Prod.snd) hAnswer

/-- Only going back leads to a place without passing what is in between. -/
theorem exists_passes (hOther : inspection ≠ .reset) (c : Cursor) :
    ∃ count, inspection.Passes count c := by
  cases inspection with
  | setMark => exact ⟨0, passes_of_stays rfl rfl⟩
  | reset => exact absurd rfl hOther
  | skip | uint8 | uint16 | uint32 | uint64 | take => exact passes_of_single? rfl c
  | rest => exact ⟨_, passes_rest c⟩
  | length => exact passes_length c
  | metadata | data | header | resume | resumeOk | errorCode | errorMessage =>
    exact ⟨0, passes_of_looks rfl c⟩

end

/-- Whoever does not go back covers what lies between the first place and the last. -/
theorem coverage_eq {bytes : ByteArray} {c : Cursor} {inspections : List Inspection}
    (hForward : Inspection.reset ∉ inspections) (hInside : c.Inside bytes) :
    c.index ≤ (after c inspections).index ∧
      coverage c inspections = bytes.extract c.index (after c inspections).index := by
  induction inspections generalizing c with
  | nil =>
    refine ⟨Nat.le_refl _, (ByteArray.extract_eq_empty_iff.mpr ?_).symm⟩
    exact Nat.min_le_left _ _
  | cons inspection inspections ih =>
    rw [List.mem_cons, not_or] at hForward
    obtain ⟨hOther, hForward⟩ := hForward
    obtain ⟨count, hIndex, hCovered⟩ := exists_passes (Ne.symm hOther) c
    obtain ⟨hLe, hLater⟩ := ih hForward (inside_answer inspection hInside)
    have hAfter : after c (inspection :: inspections) =
        after (inspection.answer c).2 inspections := rfl
    have hPassed : c.rest.extract 0 count = bytes.extract c.index (c.index + count) := by
      rw [c.extract_rest, hInside.same, Nat.add_zero]
    rw [hIndex] at hLe hLater
    rw [hAfter, coverage, hCovered, hPassed, hLater]
    refine ⟨by omega, ?_⟩
    exact (ByteArray.extract_eq_extract_append_extract _ (Nat.le_add_right _ _) hLe).symm

/-- A look and a read that fails at once cover nothing, and a length that is cut covers what is
left. -/
example : coverage (.start (BigEndian.encode 4 0x01020304))
    [.uint16, .header, .skip 1, .uint32, .length] = BigEndian.encode 4 0x01020304 := by
  rfl

-- ---------------------------------------------------------------------------
-- Any inspections
-- ---------------------------------------------------------------------------

/-- What holds of octets after these inspections, whatever they came to. -/
structure Harmless (bytes : ByteArray) (inspections : List Inspection) : Prop where
  /-- The octets are the same, and both places are among them or right behind. -/
  inside : (after (.start bytes) inspections).Inside bytes
  /-- What is left is a true difference. -/
  remaining : (after (.start bytes) inspections).index +
    (after (.start bytes) inspections).remaining = bytes.size
  /-- Whatever is inspected next, nothing breaks down on the way as long as there are numbers for
  as many octets. -/
  safe : ∀ limit, bytes.size ≤ limit → ∀ next : Inspection,
    Safe limit next.reader (after (.start bytes) inspections)
  /-- From here on, all that is passed without going back has been covered, once and in order. -/
  covers : ∀ more, Inspection.reset ∉ more →
    (after (.start bytes) inspections).index ≤
        (after (after (.start bytes) inspections) more).index ∧
      coverage (after (.start bytes) inspections) more =
        bytes.extract (after (.start bytes) inspections).index
          (after (after (.start bytes) inspections) more).index

/-- Whatever is done with octets, nothing breaks down and nothing is passed over. -/
theorem harmless (bytes : ByteArray) (inspections : List Inspection) :
    Harmless bytes inspections := by
  have hInside := inside_after inspections (Cursor.Inside.start bytes)
  refine ⟨hInside, hInside.index_add_remaining, fun limit hLimit next => ?_,
    fun more hForward => coverage_eq hForward hInside⟩
  exact (sound limit next bytes _ hLimit hInside).1

end Inspection

end Resumption
