import Resumption.Proofs.Wire

/-!
# Reading sees no seams

Segments stand for the octets they make up together. Whoever reads them gets the same answers, and
fails at the same requests, as if all octets were in one piece; only a chunk, and the list of the
segments, show where the seams are.

* `Request.flat` — the answers where all octets are in one piece
* `Holds` — these segments hold these octets, none of them empty; `Holds.drop`, `Holds.gather`
* `Holds.consumer` — a request takes what it takes from one piece, or nothing
* `Holds.answer`, `Holds.serve` — one request, and one request after the other
* `Seamless` — what shows of segments, whatever was asked of them before
-/

namespace Resumption.Segments

-- ---------------------------------------------------------------------------
-- The same octets in one piece
-- ---------------------------------------------------------------------------

/-- All parts one behind the other. -/
def joined (parts : List ByteArray) : ByteArray :=
  parts.foldr (· ++ ·) ByteArray.empty

/-- What is answered where all octets are in one piece, and what is left of them. -/
def Request.flat (bytes : ByteArray) : Request → Except Overrun Answer × ByteArray
  | .advance count =>
    if count ≤ bytes.size then (.ok .done, bytes.extract count bytes.size)
    else (.error (.pastEnd count bytes.size), bytes)
  | .copy count =>
    if count ≤ bytes.size then
      (.ok (.bytes (bytes.extract 0 count)), bytes.extract count bytes.size)
    else (.error .tooShort, bytes)
  | .number width =>
    if width ≤ bytes.size then
      (.ok (.number (BigEndian.decode (bytes.extract 0 width))), bytes.extract width bytes.size)
    else (.error .tooShort, bytes)
  | .chunk => (.ok (.bytes bytes), bytes)
  | .toBytes => (.ok (.bytes bytes), bytes)
  | .parts => (.ok (.list (of [bytes]).parts), bytes)
  | .size => (.ok (.number bytes.size), bytes)
  | .isEmpty => (.ok (.flag (bytes.size = 0)), bytes)

/-- Whether the answer shows where one segment ends and the next begins. -/
def Request.showsSeams : Request → Bool
  | .chunk => true
  | .parts => true
  | _ => false

/-- The answers to one request after the other, but for those that show seams, and what is left. A
request that fails is followed by the next one all the same. -/
def serve {σ : Type} (answer : σ → Request → Except Overrun Answer × σ) :
    σ → List Request → List (Except Overrun Answer) × σ
  | s, [] => ([], s)
  | s, request :: requests =>
    let answered := answer s request
    let served := serve answer answered.2 requests
    (if request.showsSeams then served.1 else answered.1 :: served.1, served.2)

-- ---------------------------------------------------------------------------
-- Checking before dropping
-- ---------------------------------------------------------------------------

section

variable {α : Type} {p : Prop} [Decidable p] {overrun : Overrun} {consumer : Consumer α}
  {s : Segments} {n : Nat}

theorem check_passed (hCheck : p) :
    (do unless p do throw overrun
        consumer) s = consumer s := by
  rw [if_pos hCheck]

/-- A check that fails is made before anything is taken away. -/
theorem check_failed (hCheck : ¬ p) :
    (do unless p do throw overrun
        consumer) s = .error overrun s := by
  rw [if_neg hCheck]
  exact bind_of_error rfl

theorem advance_of_fits (hFits : n ≤ s.size) : advance n s = .ok () (s.drop n) :=
  check_passed hFits

theorem advance_of_short (hShort : ¬ n ≤ s.size) : advance n s = .error (.pastEnd n s.size) s :=
  check_failed hShort

end

-- ---------------------------------------------------------------------------
-- Dropping octets
-- ---------------------------------------------------------------------------

theorem joined_cons (part : ByteArray) (parts : List ByteArray) :
    joined (part :: parts) = part ++ joined parts :=
  rfl

/-- What is left of two pieces. -/
theorem extract_append_size (front tail : ByteArray) (n : Nat) :
    (front ++ tail).extract n (front ++ tail).size =
      front.extract n front.size ++ tail.extract (n - front.size) tail.size := by
  have hFront : front.extract n (front.size + tail.size) = front.extract n front.size := by
    have hEnd := ByteArray.extract_extract (a := front) (i := 0) (j := front.size) (k := n)
      (l := front.size + tail.size)
    rw [ByteArray.extract_zero_size, Nat.zero_add, Nat.zero_add,
      Nat.min_eq_right (by omega)] at hEnd
    exact hEnd
  rw [ByteArray.extract_append, ByteArray.size_append, hFront, Nat.add_sub_cancel_left]

/-- What is in front of two pieces is in front of the first. -/
theorem extract_of_le {front : ByteArray} {n : Nat} (tail : ByteArray) (hFits : n ≤ front.size) :
    (front ++ tail).extract 0 n = front.extract 0 n := by
  have hTail : tail.extract (0 - front.size) (n - front.size) = ByteArray.empty :=
    ByteArray.extract_eq_empty_iff.mpr (by omega)
  rw [ByteArray.extract_append, hTail, ByteArray.append_empty]

/-- Dropping octets drops them from all parts taken together. -/
theorem joined_dropOctets (n : Nat) (parts : List ByteArray) :
    joined (dropOctets n parts) = (joined parts).extract n (joined parts).size := by
  induction n, parts using dropOctets.induct with
  | case1 parts =>
    rw [dropOctets]
    exact ByteArray.extract_zero_size.symm
  | case2 n =>
    rw [dropOctets]
    exact (ByteArray.extract_eq_empty_iff.mpr (Nat.zero_le _)).symm
  | case3 n part parts hCut =>
    -- the cut is inside the first segment
    rw [dropOctets, if_pos hCut, joined_cons, joined_cons, extract_append_size,
      Nat.sub_eq_zero_of_le (Nat.le_of_lt hCut), ByteArray.extract_zero_size]
  | case4 n part parts hCut ih =>
    -- the first segment goes as a whole
    have hWhole : part.extract (n + 1) part.size = ByteArray.empty :=
      ByteArray.extract_eq_empty_iff.mpr (by omega)
    rw [dropOctets, if_neg hCut, ih, joined_cons, extract_append_size, hWhole,
      ByteArray.empty_append]

theorem solid_dropOctets (n : Nat) (parts : List ByteArray)
    (hSolid : ∀ part ∈ parts, part.size ≠ 0) : ∀ part ∈ dropOctets n parts, part.size ≠ 0 := by
  induction n, parts using dropOctets.induct with
  | case1 parts => rwa [dropOctets]
  | case2 n => rwa [dropOctets]
  | case3 n part parts hCut =>
    rw [dropOctets, if_pos hCut]
    obtain ⟨_, hParts⟩ := List.forall_mem_cons.mp hSolid
    refine List.forall_mem_cons.mpr ⟨?_, hParts⟩
    rw [ByteArray.size_extract]
    omega
  | case4 n part parts hCut ih =>
    rw [dropOctets, if_neg hCut]
    exact ih (List.forall_mem_cons.mp hSolid).2

-- ---------------------------------------------------------------------------
-- Segments and what they hold
-- ---------------------------------------------------------------------------

theorem answer_of_ok {request : Request} {s rest : Segments} {answer : Answer}
    (hConsumer : request.consumer s = .ok answer rest) :
    request.answer s = (.ok answer, rest) := by
  rw [Request.answer, hConsumer]

theorem answer_of_error {request : Request} {s rest : Segments} {overrun : Overrun}
    (hConsumer : request.consumer s = .error overrun rest) :
    request.answer s = (.error overrun, rest) := by
  rw [Request.answer, hConsumer]

/-- These segments hold these octets, and none of them is empty. -/
structure Holds (s : Segments) (bytes : ByteArray) : Prop where
  content : s.toBytes = bytes
  solid : ∀ part ∈ s.parts, part.size ≠ 0

theorem holds_of (parts : List ByteArray) : (of parts).Holds (joined parts) := by
  refine ⟨toBytes_of parts, fun part hPart => ?_⟩
  simpa using (List.mem_filter.mp hPart).2

namespace Holds

variable {s : Segments} {bytes : ByteArray}

theorem size (hHolds : s.Holds bytes) : s.size = bytes.size := by
  rw [← hHolds.content, size_toBytes]

theorem drop (hHolds : s.Holds bytes) (n : Nat) :
    (s.drop n).Holds (bytes.extract n bytes.size) := by
  refine ⟨?_, solid_dropOctets n s.parts hHolds.solid⟩
  rw [← hHolds.content, toBytes_eq, toBytes_eq]
  exact joined_dropOctets n s.parts

/-- The first segment comes first. -/
theorem chunk (hHolds : s.Holds bytes) : ∃ tail, bytes = s.chunk ++ tail := by
  rw [← hHolds.content, toBytes_eq, Segments.chunk]
  cases s.parts with
  | nil => exact ⟨ByteArray.empty, rfl⟩
  | cons part parts => exact ⟨joined parts, rfl⟩

/-- Whoever goes no further than the first segment does not go past the end. -/
theorem advance_chunk {count : Nat} (hHolds : s.Holds bytes) (hCount : count ≤ s.chunk.size) :
    advance count s = .ok () (s.drop count) := by
  obtain ⟨tail, hTail⟩ := hHolds.chunk
  have hSize : s.size = s.chunk.size + tail.size := by
    rw [hHolds.size, hTail, ByteArray.size_append]
  exact advance_of_fits (by omega)

/-- Only where nothing is left, the first segment is empty. -/
theorem size_chunk (hHolds : s.Holds bytes) (hChunk : s.chunk.size = 0) : bytes.size = 0 := by
  have hSolid := hHolds.solid
  rw [← hHolds.size, Segments.size]
  rw [Segments.chunk] at hChunk
  cases hParts : s.parts with
  | nil => rfl
  | cons part parts =>
    rw [hParts] at hChunk hSolid
    exact absurd hChunk (hSolid part List.mem_cons_self)

theorem isEmpty_iff (hHolds : s.Holds bytes) : s.isEmpty = true ↔ bytes.size = 0 := by
  have hSolid := hHolds.solid
  rw [← hHolds.size, Segments.size, Segments.isEmpty, List.isEmpty_iff]
  cases hParts : s.parts with
  | nil => exact ⟨fun _ => rfl, fun _ => rfl⟩
  | cons part parts =>
    rw [hParts] at hSolid
    have hPart : part.size ≠ 0 := hSolid part List.mem_cons_self
    rw [octetCount]
    refine ⟨fun hNil => ?_, fun hNone => absurd hNone (by omega)⟩
    cases hNil

/-- Octets are collected across the seams, and no chunk on the way is too short. -/
theorem gather {n : Nat} (hHolds : s.Holds bytes) (hFits : n ≤ bytes.size)
    (collected : ByteArray) :
    ∃ rest, Segments.gather n collected s = .ok (collected ++ bytes.extract 0 n) rest ∧
      rest.Holds (bytes.extract n bytes.size) := by
  induction n using Nat.strongRecOn generalizing s bytes collected with
  | ind n ih =>
    rw [Segments.gather]
    show ∃ rest, (if min n s.chunk.size = 0 then _ else _ : Consumer ByteArray) s = _ ∧ _
    generalize hStep : min n s.chunk.size = step
    by_cases hNone : step = 0
    case pos =>
      -- no chunk is empty before the end, so nothing is asked for
      have hZero : n = 0 := by
        by_cases hChunk : s.chunk.size = 0
        · exact Nat.le_zero.mp (hHolds.size_chunk hChunk ▸ hFits)
        · omega
      subst hZero
      have hEmpty : bytes.extract 0 0 = ByteArray.empty :=
        ByteArray.extract_eq_empty_iff.mpr (Nat.zero_le _)
      rw [if_pos hNone, hEmpty, ByteArray.append_empty, ByteArray.extract_zero_size]
      exact ⟨s, rfl, hHolds⟩
    case neg =>
      have hLeft : n - step ≤ (bytes.extract step bytes.size).size := by
        rw [ByteArray.size_extract]
        omega
      obtain ⟨rest, hGather, hRest⟩ := ih (n - step) (by omega) (hHolds.drop step) hLeft
        (collected ++ s.chunk.extract 0 step)
      have hFront : s.chunk.extract 0 step = bytes.extract 0 step := by
        obtain ⟨tail, rfl⟩ := hHolds.chunk
        exact (extract_of_le tail (by omega)).symm
      have hMiddle : (bytes.extract step bytes.size).extract 0 (n - step) =
          bytes.extract step n := by
        rw [ByteArray.extract_extract]
        congr 1
        omega
      have hBehind : (bytes.extract step bytes.size).extract (n - step)
          (bytes.extract step bytes.size).size = bytes.extract n bytes.size := by
        rw [ByteArray.extract_extract, ByteArray.size_extract]
        congr 1 <;> omega
      rw [hBehind] at hRest
      refine ⟨rest, ?_, hRest⟩
      rw [if_neg hNone, bind_of_ok (hHolds.advance_chunk (by omega)), hGather, hFront, hMiddle,
        ByteArray.append_assoc,
        ← ByteArray.extract_eq_extract_append_extract step (by omega) (by omega)]

theorem copy {n : Nat} (hHolds : s.Holds bytes) (hFits : n ≤ bytes.size) :
    ∃ rest, Segments.copy n s = .ok (bytes.extract 0 n) rest ∧
      rest.Holds (bytes.extract n bytes.size) := by
  obtain ⟨rest, hGather, hRest⟩ := hHolds.gather hFits ByteArray.empty
  rw [ByteArray.empty_append] at hGather
  exact ⟨rest, (check_passed (hHolds.size ▸ hFits)).trans hGather, hRest⟩

theorem copy_of_short {n : Nat} (hHolds : s.Holds bytes) (hShort : ¬ n ≤ bytes.size) :
    Segments.copy n s = .error .tooShort s :=
  check_failed (hHolds.size ▸ hShort)

theorem number {width : Nat} (hHolds : s.Holds bytes) (hFits : width ≤ bytes.size) :
    ∃ rest, Segments.number width s = .ok (BigEndian.decode (bytes.extract 0 width)) rest ∧
      rest.Holds (bytes.extract width bytes.size) := by
  obtain ⟨rest, hCopy, hRest⟩ := hHolds.copy hFits
  exact ⟨rest, bind_of_ok hCopy, hRest⟩

theorem number_of_short {width : Nat} (hHolds : s.Holds bytes) (hShort : ¬ width ≤ bytes.size) :
    Segments.number width s = .error .tooShort s :=
  bind_of_error (hHolds.copy_of_short hShort)

/-- A request takes off the front what it would take where all octets are in one piece, or it fails
as it would there and takes nothing. -/
theorem consumer (hHolds : s.Holds bytes) (request : Request) :
    (∃ answer rest, request.consumer s = .ok answer rest ∧
        (request.showsSeams = false → (request.flat bytes).1 = .ok answer) ∧
          rest.Holds (request.flat bytes).2) ∨
      ∃ overrun, request.consumer s = .error overrun s ∧
        request.flat bytes = (.error overrun, bytes) := by
  cases request with
  | advance count =>
    rw [Request.flat]
    by_cases hFits : count ≤ bytes.size
    · rw [if_pos hFits]
      have hAdvance := advance_of_fits (hHolds.size ▸ hFits)
      exact .inl ⟨_, _, bind_of_ok hAdvance, fun _ => rfl, hHolds.drop count⟩
    · rw [if_neg hFits, ← hHolds.size]
      have hAdvance := advance_of_short (hHolds.size ▸ hFits)
      exact .inr ⟨_, bind_of_error hAdvance, rfl⟩
  | copy count =>
    rw [Request.flat]
    by_cases hFits : count ≤ bytes.size
    · rw [if_pos hFits]
      obtain ⟨rest, hCopy, hRest⟩ := hHolds.copy hFits
      exact .inl ⟨_, rest, bind_of_ok hCopy, fun _ => rfl, hRest⟩
    · rw [if_neg hFits]
      exact .inr ⟨_, bind_of_error (hHolds.copy_of_short hFits), rfl⟩
  | number width =>
    rw [Request.flat]
    by_cases hFits : width ≤ bytes.size
    · rw [if_pos hFits]
      obtain ⟨rest, hNumber, hRest⟩ := hHolds.number hFits
      exact .inl ⟨_, rest, bind_of_ok hNumber, fun _ => rfl, hRest⟩
    · rw [if_neg hFits]
      exact .inr ⟨_, bind_of_error (hHolds.number_of_short hFits), rfl⟩
  | toBytes =>
    exact .inl ⟨_, s, rfl, fun _ => congrArg (Except.ok ∘ Answer.bytes) hHolds.content.symm, hHolds⟩
  | size =>
    exact .inl ⟨_, s, rfl, fun _ => congrArg (Except.ok ∘ Answer.number) hHolds.size.symm, hHolds⟩
  | isEmpty =>
    refine .inl ⟨_, s, rfl, fun _ => congrArg (Except.ok ∘ Answer.flag) ?_, hHolds⟩
    rw [Bool.eq_iff_iff, decide_eq_true_iff]
    exact hHolds.isEmpty_iff.symm
  | chunk | parts => exact .inl ⟨_, s, rfl, nofun, hHolds⟩

/-- One request is answered as if all octets were in one piece, and what is left is the same. -/
theorem answer (hHolds : s.Holds bytes) (request : Request) :
    (request.showsSeams = false → (request.answer s).1 = (request.flat bytes).1) ∧
      (request.answer s).2.Holds (request.flat bytes).2 := by
  rcases hHolds.consumer request with ⟨answer, rest, hOk, hSame, hRest⟩ | ⟨overrun, hError, hFlat⟩
  · rw [answer_of_ok hOk]
    exact ⟨fun hShows => (hSame hShows).symm, hRest⟩
  · rw [answer_of_error hError, hFlat]
    exact ⟨fun _ => rfl, hHolds⟩

/-- Where a request fails, everything is still there. -/
theorem unchanged (hHolds : s.Holds bytes) {request : Request} {overrun : Overrun}
    (hFails : (request.answer s).1 = .error overrun) : (request.answer s).2 = s := by
  rcases hHolds.consumer request with ⟨answer, rest, hOk, -⟩ | ⟨overrun', hError, -⟩
  · rw [answer_of_ok hOk] at hFails
    cases hFails
  · rw [answer_of_error hError]

/-- One request after the other is answered as if all octets were in one piece. -/
theorem serve (hHolds : s.Holds bytes) (requests : List Request) :
    (Segments.serve Request.answer s requests).1 = (Segments.serve Request.flat bytes requests).1 ∧
      (Segments.serve Request.answer s requests).2.Holds
        (Segments.serve Request.flat bytes requests).2 := by
  induction requests generalizing s bytes with
  | nil => exact ⟨rfl, hHolds⟩
  | cons request requests ih =>
    obtain ⟨hSaid, hLeft⟩ := hHolds.answer request
    obtain ⟨hTold, hRest⟩ := ih hLeft
    refine ⟨?_, hRest⟩
    rw [Segments.serve, Segments.serve]
    dsimp only
    rw [hTold]
    cases hShows : request.showsSeams with
    | true => rfl
    | false => rw [hSaid hShows]

end Holds

-- ---------------------------------------------------------------------------
-- Every list of parts, and every list of requests
-- ---------------------------------------------------------------------------

/-- What shows of segments at any one moment. -/
structure Tidy (s : Segments) : Prop where
  solid : ∀ part ∈ s.parts, part.size ≠ 0
  isEmpty_iff : s.isEmpty = true ↔ s.size = 0
  /-- A request that shows seams cannot fail. -/
  shown : ∀ request : Request, request.showsSeams → ∃ answer, request.answer s = (.ok answer, s)
  chunk : ∃ part tail, Request.chunk.answer s = (.ok (.bytes part), s) ∧ s.toBytes = part ++ tail ∧
    (part.size = 0 → s.size = 0)
  /-- Collecting goes no further than one segment at a time, so it cannot fail halfway. -/
  steps : ∀ count, count ≤ s.chunk.size → advance count s = .ok () (s.drop count)
  /-- A request that fails has taken nothing away before. -/
  unchanged : ∀ (request : Request) (overrun : Overrun),
    (request.answer s).1 = .error overrun → (request.answer s).2 = s

/-- What becomes of these parts when these requests are made one after the other. -/
structure Seamless (parts : List ByteArray) (requests : List Request) : Prop where
  /-- All answers that do not show seams, errors among them, are those of the same octets in one
  piece. -/
  answers : (serve Request.answer (of parts) requests).1 =
    (serve Request.flat (joined parts) requests).1
  content : (serve Request.answer (of parts) requests).2.toBytes =
    (serve Request.flat (joined parts) requests).2
  /-- It makes no difference where the seams are. -/
  elsewhere : ∀ others, joined others = joined parts →
    (serve Request.answer (of others) requests).1 = (serve Request.answer (of parts) requests).1 ∧
      (serve Request.answer (of others) requests).2.toBytes =
        (serve Request.answer (of parts) requests).2.toBytes
  tidy : (serve Request.answer (of parts) requests).2.Tidy

theorem Holds.tidy {s : Segments} {bytes : ByteArray} (hHolds : s.Holds bytes) :
    s.Tidy := by
  constructor
  case solid => exact hHolds.solid
  case isEmpty_iff => rw [hHolds.isEmpty_iff, hHolds.size]
  case shown =>
    intro request hShows
    cases request with
    | chunk => exact ⟨_, rfl⟩
    | parts => exact ⟨_, rfl⟩
    | _ => cases hShows
  case chunk =>
    obtain ⟨tail, hTail⟩ := hHolds.chunk
    refine ⟨s.chunk, tail, rfl, hHolds.content.trans hTail, fun hChunk => ?_⟩
    rw [hHolds.size, hHolds.size_chunk hChunk]
  case steps =>
    intro count hCount
    exact hHolds.advance_chunk hCount
  case unchanged =>
    intro request overrun hFails
    exact hHolds.unchanged hFails

/-- Segments are read as if all octets were in one piece. -/
theorem seamless (parts : List ByteArray) (requests : List Request) :
    Seamless parts requests := by
  obtain ⟨hAnswers, hLeft⟩ := (holds_of parts).serve requests
  refine ⟨hAnswers, hLeft.content, fun others hSame => ?_, hLeft.tidy⟩
  obtain ⟨hOthers, hElsewhere⟩ := (holds_of others).serve requests
  rw [hSame] at hOthers hElsewhere
  exact ⟨hOthers.trans hAnswers.symm, hElsewhere.content.trans hLeft.content.symm⟩

end Resumption.Segments
