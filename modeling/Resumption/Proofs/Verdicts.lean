import Resumption.Frame.Failure
import Resumption.Frame.ResumeOk
import Resumption.Proofs.Division

/-!
# Verdicts on frames

Four decoders are given whatever a peer has sent. Each goes through the header, then through the
fields of its body, and speaks of the first thing in wire order that does not fit; only where
nothing is wrong it returns what stands at the places of the fields. The stream, the flags and the
octets behind the last field are never looked at.

* `Header.peek_eq` — the look at a header, from the octets ahead of it alone
* `framed` — the shape of all four decoders; `Judges` — what such a decoder says, defect by defect
* `judges_framed` — it follows from the fields that its body takes
* `Cursor.judged` — the four decoders, on every cursor
-/

namespace Resumption

-- ---------------------------------------------------------------------------
-- Names by number
-- ---------------------------------------------------------------------------

theorem Kind.ofCode?_eq_some_iff {code : UInt8} {kind : Kind} :
    Kind.ofCode? code = some kind ↔ kind.code = code := by
  constructor
  · intro hFound
    simpa using List.find?_some hFound
  · rintro rfl
    exact Kind.ofCode?_code kind

theorem Kind.ofCode?_eq_none_iff {code : UInt8} :
    Kind.ofCode? code = none ↔ ∀ kind : Kind, kind.code ≠ code := by
  constructor
  · rintro hNone kind rfl
    rw [Kind.ofCode?_code] at hNone
    cases hNone
  · intro hOther
    cases hFound : Kind.ofCode? code with
    | none => rfl
    | some kind => exact absurd (Kind.ofCode?_eq_some_iff.mp hFound) (hOther kind)

theorem ErrorCode.ofCode?_code (known : ErrorCode) : ErrorCode.ofCode? known.code = some known := by
  cases known <;> rfl

theorem ErrorCode.code_of_ofCode? {code : UInt32} {known : ErrorCode}
    (hFound : ErrorCode.ofCode? code = some known) : known.code = code := by
  simpa using List.find?_some hFound

-- ---------------------------------------------------------------------------
-- Headers
-- ---------------------------------------------------------------------------

namespace Header

/-- The two octets of the kind and the flags. -/
def wordAt (octets : ByteArray) : Nat :=
  BigEndian.decode (octets.extract 4 6)

/-- The six bits above the flags. -/
def kindAt (octets : ByteArray) : UInt8 :=
  .ofNat (wordAt octets / 2 ^ 10)

/-- What is made of a header whose six octets are there. -/
def named (octets : ByteArray) : Except DecodeError Header :=
  match Kind.ofCode? (kindAt octets) with
  | some kind =>
    .ok (masked (.ofNat (BigEndian.decode (octets.extract 0 4))) kind (.ofNat (wordAt octets)))
  | none => .error (.unknownKind (kindAt octets))

theorem wordAt_lt (octets : ByteArray) : wordAt octets < 2 ^ 16 :=
  BigEndian.decode_extract_lt octets (i := 4) (j := 6)

theorem shift_wordAt (octets : ByteArray) :
    (UInt16.ofNat (wordAt octets) >>> kindShift).toUInt8 = kindAt octets := by
  have hWord := wordAt_lt octets
  refine UInt8.toNat_inj.mp ?_
  rw [kindAt, UInt8.toNat_ofNat', UInt16.toNat_toUInt8, UInt16.toNat_shiftRight,
    UInt16.toNat_ofNat', Nat.mod_eq_of_lt hWord]
  show wordAt octets >>> 10 % 2 ^ 8 = _
  rw [Nat.shiftRight_eq_div_pow]

/-- A header, from the octets ahead alone. -/
theorem peek_eq (c : Cursor) :
    peek c = Reader.settle (walk [4, 2] c.remaining (named c.rest)) c.marked := by
  refine Reader.Walks.peek (Reader.Walks.uint32 fun _ => Reader.Walks.uint16 fun _ => ?_)
  rw [Cursor.extract_forward]
  show Reader.Walks (readBehind _ (.ofNat (wordAt c.rest))) _ [] (named c.rest)
  unfold readBehind named
  dsimp only
  rw [shift_wordAt]
  cases Kind.ofCode? (kindAt c.rest) with
  | none => exact Reader.walks_throw _ _
  | some kind => exact Reader.walks_pure _ _

theorem peek_of_kind {c : Cursor} {kind : Kind} (hSize : 6 ≤ c.remaining)
    (hKind : kind.code = kindAt c.rest) :
    peek c = .ok (masked (.ofNat (BigEndian.decode (c.rest.extract 0 4))) kind
      (.ofNat (wordAt c.rest))) c.marked := by
  have hFits : [4, 2].sum ≤ c.remaining := hSize
  rw [peek_eq, walk_of_fits _ hFits, named, Kind.ofCode?_eq_some_iff.mpr hKind]
  rfl

theorem peek_of_unknown {c : Cursor} (hSize : 6 ≤ c.remaining)
    (hOther : ∀ kind : Kind, kind.code ≠ kindAt c.rest) :
    peek c = .error (.unknownKind (kindAt c.rest)) c.marked := by
  have hFits : [4, 2].sum ≤ c.remaining := hSize
  rw [peek_eq, walk_of_fits _ hFits, named, Kind.ofCode?_eq_none_iff.mpr hOther]
  rfl

end Header

-- ---------------------------------------------------------------------------
-- Frames of one kind
-- ---------------------------------------------------------------------------

section

variable {α : Type}

/-- The shape of every decoder: the kind is checked, and the body is read on its own. -/
def framed (kind : Kind) (inner : Reader α) : Reader α := do
  let _ ← Header.expect kind
  let part ← Body.data false
  Reader.within part inner

variable {kind : Kind} {inner : Reader α} {c : Cursor}

theorem framed_of_error {e : DecodeError} (hPeek : Header.peek c = .error e c.marked) :
    framed kind inner c = .error e c.marked := by
  unfold framed Header.expect
  simp only [bind, EStateM.bind, hPeek]

theorem framed_of_other {header : Header} (hPeek : Header.peek c = .ok header c.marked)
    (hKind : header.kind ≠ kind) :
    framed kind inner c = .error (.unexpectedKind kind header.kind) c.marked := by
  unfold framed Header.expect
  simp only [bind, EStateM.bind, hPeek, if_neg hKind]
  rfl

theorem framed_of_kind {header : Header} (hPeek : Header.peek c = .ok header c.marked)
    (hKind : header.kind = kind) (hSize : 6 ≤ c.remaining) :
    framed kind inner c = Reader.within (c.forward 6).rest inner c.marked := by
  have hFits : (Body.widths false c.rest).sum ≤ c.remaining := hSize
  have hData : Body.data false c.marked = .ok (c.forward 6).rest c.marked := by
    rw [Cursor.rest_forward]
    exact (Body.data_eq false c.marked).trans (congrArg (Reader.settle · _) (walk_of_fits _ hFits))
  unfold framed Header.expect
  simp only [bind, pure, EStateM.bind, EStateM.pure, hPeek, if_pos hKind, hData]

/-- What a decoder of frames of one kind says, from the octets ahead of the cursor: the first thing
in wire order that does not fit, or what it finds in the body. -/
structure Judges (decoder : Reader α) (kind : Kind) (widths : ByteArray → List Nat)
    (Finds : ByteArray → Except DecodeError α → Prop) (c : Cursor) : Prop where
  noStream : c.remaining < 4 → decoder c = .error (.incomplete 4 c.remaining) c.marked
  noKind : 4 ≤ c.remaining → c.remaining < 6 →
    decoder c = .error (.incomplete 2 (c.remaining - 4)) c.marked
  unknown : 6 ≤ c.remaining → (∀ known : Kind, known.code ≠ Header.kindAt c.rest) →
    decoder c = .error (.unknownKind (Header.kindAt c.rest)) c.marked
  unexpected : 6 ≤ c.remaining → ∀ actual : Kind, actual.code = Header.kindAt c.rest →
    actual ≠ kind → decoder c = .error (.unexpectedKind kind actual) c.marked
  /-- The fields of the body come one behind the other; the first that does not fit is told with its
  width and with what is left where it begins. -/
  short : 6 ≤ c.remaining → kind.code = Header.kindAt c.rest →
    ∀ before needed after, widths c.rest = before ++ needed :: after →
      6 + before.sum ≤ c.remaining → c.remaining < 6 + before.sum + needed →
        decoder c = .error (.incomplete needed (c.remaining - (6 + before.sum))) c.marked
  whole : kind.code = Header.kindAt c.rest → 6 + (widths c.rest).sum ≤ c.remaining →
    ∃ verdict, Finds c.rest verdict ∧ decoder c = Reader.settle verdict c.marked

/-- What is said follows from the fields that the body takes. -/
theorem judges_framed {widths : ByteArray → List Nat}
    {Finds : ByteArray → Except DecodeError α → Prop} {verdict : Except DecodeError α}
    (hInner : inner.Walks (.start (c.forward 6).rest) (widths c.rest) verdict)
    (hFinds : Finds c.rest verdict) : Judges (framed kind inner) kind widths Finds c := by
  have hPeek := Header.peek_eq c
  have hBody : 6 ≤ c.remaining → kind.code = Header.kindAt c.rest →
      framed kind inner c =
        Reader.settle (walk (widths c.rest) (c.remaining - 6) verdict) c.marked := by
    intro hSize hKind
    have hFramed : framed kind inner c = Reader.within (c.forward 6).rest inner c.marked :=
      framed_of_kind (Header.peek_of_kind hSize hKind) rfl hSize
    rw [hFramed, hInner.within, Cursor.size_rest, Cursor.remaining_forward]
  constructor
  case noStream =>
    intro hSize
    rw [walk, if_neg (by omega)] at hPeek
    exact framed_of_error hPeek
  case noKind =>
    intro hStream hSize
    rw [walk, if_pos hStream, walk, if_neg (by omega)] at hPeek
    exact framed_of_error hPeek
  case unknown =>
    intro hSize hOther
    exact framed_of_error (Header.peek_of_unknown hSize hOther)
  case unexpected =>
    intro hSize actual hActual hOther
    exact framed_of_other (Header.peek_of_kind hSize hActual) hOther
  case short =>
    intro hSize hKind before needed after hWidths hBefore hShort
    rw [hBody hSize hKind, hWidths, walk_of_short _ (by omega) (by omega), Nat.sub_sub]
    rfl
  case whole =>
    intro hKind hFits
    refine ⟨verdict, hFinds, ?_⟩
    rw [hBody (by omega) hKind, walk_of_fits _ (by omega)]

variable {decoder : Reader α} {widths : ByteArray → List Nat}
  {Finds : ByteArray → Except DecodeError α → Prop}

/-- A frame that is cut somewhere is incomplete. -/
theorem Judges.incomplete (hJudges : Judges decoder kind widths Finds c)
    (hKind : 6 ≤ c.remaining → kind.code = Header.kindAt c.rest)
    (hCut : c.remaining < 6 + (widths c.rest).sum) :
    ∃ needed remaining, decoder c = .error (.incomplete needed remaining) c.marked := by
  by_cases hStream : c.remaining < 4
  · exact ⟨_, _, hJudges.noStream hStream⟩
  by_cases hSize : c.remaining < 6
  · exact ⟨_, _, hJudges.noKind (by omega) hSize⟩
  have hBody : c.remaining - 6 < (widths c.rest).sum := by omega
  obtain ⟨before, needed, after, hWidths, hBefore, hShort⟩ := exists_short hBody
  exact ⟨_, _, hJudges.short (by omega) (hKind (by omega)) before needed after hWidths (by omega)
    (by omega)⟩

/-- What is found is found in a frame of the kind with all its fields. -/
theorem Judges.found {value : α} {c' : Cursor} (hJudges : Judges decoder kind widths Finds c)
    (hFound : decoder c = .ok value c') :
    kind.code = Header.kindAt c.rest ∧ 6 + (widths c.rest).sum ≤ c.remaining ∧
      Finds c.rest (.ok value) := by
  have hOther : ∀ e, decoder c ≠ .error e c.marked := by
    intro e hError
    rw [hFound] at hError
    cases hError
  by_cases hSize : 6 ≤ c.remaining
  case neg =>
    by_cases hStream : c.remaining < 4
    · exact absurd (hJudges.noStream hStream) (hOther _)
    · exact absurd (hJudges.noKind (by omega) (by omega)) (hOther _)
  case pos =>
    cases hNamed : Kind.ofCode? (Header.kindAt c.rest) with
    | none =>
      exact absurd (hJudges.unknown hSize (Kind.ofCode?_eq_none_iff.mp hNamed)) (hOther _)
    | some actual =>
      have hActual := Kind.ofCode?_eq_some_iff.mp hNamed
      by_cases hKind : actual = kind
      case neg => exact absurd (hJudges.unexpected hSize actual hActual hKind) (hOther _)
      case pos =>
        subst hKind
        by_cases hFits : 6 + (widths c.rest).sum ≤ c.remaining
        case neg =>
          obtain ⟨needed, remaining, hError⟩ :=
            hJudges.incomplete (fun _ => hActual) (Nat.lt_of_not_le hFits)
          exact absurd hError (hOther _)
        case pos =>
          obtain ⟨verdict, hFinds, hVerdict⟩ := hJudges.whole hActual hFits
          refine ⟨hActual, hFits, ?_⟩
          rw [hFound] at hVerdict
          cases verdict with
          | error e => cases hVerdict
          | ok value =>
            cases hVerdict
            exact hFinds

end

-- ---------------------------------------------------------------------------
-- The four decoders
-- ---------------------------------------------------------------------------

namespace Resume

def tokenLengthAt (octets : ByteArray) : Nat :=
  BigEndian.decode (octets.extract 10 12)

/-- Version, token length, token and positions. -/
def widths (octets : ByteArray) : List Nat :=
  [2, 2, 2, tokenLengthAt octets, 8, 8]

/-- The fields of a RESUME frame at their places. -/
def ofOctets (octets : ByteArray) : Resume :=
  let token := 12 + tokenLengthAt octets
  { token := octets.extract 12 token
    implied := .ofNat (BigEndian.decode (octets.extract token (token + 8)))
    position := .ofNat (BigEndian.decode (octets.extract (token + 8) (token + 16))) }

theorem walks_body (c : Cursor) :
    body.Walks (.start (c.forward 6).rest) (widths c.rest) (.ok (ofOctets c.rest)) := by
  have hField : ∀ i j, (Cursor.start (c.forward 6).rest).rest.extract i j =
      c.rest.extract (6 + i) (6 + j) := by
    intro i j
    rw [Cursor.rest_start, Cursor.extract_forward]
  have hLength : BigEndian.decode (((Cursor.start (c.forward 6).rest).forward 2).forward 2
      |>.rest.extract 0 tokenLengthSize) = tokenLengthAt c.rest := by
    rw [Cursor.forward_forward, Cursor.extract_forward, hField]
    rfl
  refine Reader.Walks.skip fun _ => Reader.Walks.skip fun _ => Reader.Walks.number fun _ => ?_
  rw [hLength]
  refine Reader.Walks.take fun _ => Reader.Walks.uint64 fun _ => Reader.Walks.uint64 fun _ => ?_
  simp only [tokenLengthSize, Cursor.forward_forward, Cursor.extract_forward, hField,
    ← Nat.add_assoc, Nat.add_zero, Nat.reduceAdd]
  exact Reader.walks_pure _ _

theorem judges_decode (c : Cursor) :
    Judges decode .resume widths (fun octets verdict => verdict = .ok (ofOctets octets)) c :=
  judges_framed (walks_body c) rfl

end Resume

namespace ResumeOk

/-- The position in a RESUME_OK frame at its place. -/
def positionAt (octets : ByteArray) : UInt64 :=
  .ofNat (BigEndian.decode (octets.extract 6 14))

theorem judges_position (c : Cursor) :
    Judges position .resumeOk (fun _ => [8])
      (fun octets verdict => verdict = .ok (positionAt octets)) c := by
  refine judges_framed ?_ rfl
  rw [← bind_pure Reader.uint64]
  refine Reader.Walks.uint64 fun _ => ?_
  rw [Cursor.rest_start, Cursor.extract_forward]
  exact Reader.walks_pure _ _

end ResumeOk

namespace Failure

def codeAt (octets : ByteArray) : UInt32 :=
  .ofNat (BigEndian.decode (octets.extract 6 10))

/-- A listed code is named, and one that is not listed is an error. -/
inductive NamesCode (octets : ByteArray) : Except DecodeError ErrorCode → Prop
  | listed {known : ErrorCode} (hCode : known.code = codeAt octets) : NamesCode octets (.ok known)
  | unlisted (hOther : ∀ known : ErrorCode, known.code ≠ codeAt octets) :
    NamesCode octets (.error (.unknownErrorCode (codeAt octets)))

/-- Everything behind the code. -/
def textAt (octets : ByteArray) : ByteArray :=
  octets.extract 10 octets.size

/-- The octets of a text are read as that text, and octets of no text at all are an error. -/
inductive SpellsText (octets : ByteArray) : Except DecodeError String → Prop
  | text {text : String} (hText : text.toUTF8 = textAt octets) : SpellsText octets (.ok text)
  | malformed (hOther : ∀ text : String, text.toUTF8 ≠ textAt octets) :
    SpellsText octets (.error (.invalidText (.of (textAt octets))))

theorem code_eq : code = framed .error (do
    let code ← Reader.uint32
    Reader.require (.unknownErrorCode code) (ErrorCode.ofCode? code)) := by
  simp only [code, body, framed, bind_assoc]

/-- What is made of the octets of a message. -/
def spelt (octets : ByteArray) : Reader String :=
  match Utf8.decode octets with
  | .ok text => return text
  | .error defect => throw (.invalidText defect)

theorem message_eq : message = framed .error (do
    Reader.skip codeSize
    let octets ← Reader.rest
    spelt octets) := by
  simp only [message, body, framed, bind_assoc]
  rfl

theorem exists_spelt (octets : ByteArray) :
    ∃ verdict, SpellsText octets verdict ∧
      ∀ c : Cursor, (spelt (textAt octets)).Walks c [] verdict := by
  unfold spelt Utf8.decode
  by_cases hValid : (textAt octets).IsValidUTF8
  · refine ⟨.ok (String.fromUTF8 (textAt octets) hValid), .text rfl, fun c => ?_⟩
    rw [dif_pos hValid]
    exact Reader.walks_pure _ c
  · refine ⟨.error (.invalidText (.of (textAt octets))),
      .malformed fun text hText => hValid (hText ▸ text.isValidUTF8), fun c => ?_⟩
    rw [dif_neg hValid]
    exact Reader.walks_throw _ c

theorem exists_named (octets : ByteArray) :
    ∃ verdict, NamesCode octets verdict ∧
      ∀ c : Cursor, (Reader.require (.unknownErrorCode (codeAt octets))
        (ErrorCode.ofCode? (codeAt octets))).Walks c [] verdict := by
  cases hFound : ErrorCode.ofCode? (codeAt octets) with
  | none =>
    refine ⟨.error (.unknownErrorCode (codeAt octets)), .unlisted fun known hKnown => ?_,
      Reader.walks_throw _⟩
    rw [← hKnown, ErrorCode.ofCode?_code] at hFound
    cases hFound
  | some known =>
    exact ⟨.ok known, .listed (ErrorCode.code_of_ofCode? hFound), Reader.walks_pure _⟩

theorem judges_code (c : Cursor) : Judges code .error (fun _ => [4]) NamesCode c := by
  obtain ⟨verdict, hFinds, hWalks⟩ := exists_named c.rest
  have hCode : (Cursor.start (c.forward 6).rest).rest.extract 0 4 = c.rest.extract 6 10 := by
    rw [Cursor.rest_start, Cursor.extract_forward]
  rw [code_eq]
  refine judges_framed (Reader.Walks.uint32 fun _ => ?_) hFinds
  rw [hCode]
  exact hWalks _

theorem judges_message (c : Cursor) : Judges message .error (fun _ => [4]) SpellsText c := by
  obtain ⟨verdict, hFinds, hWalks⟩ := exists_spelt c.rest
  have hText : ((Cursor.start (c.forward 6).rest).forward codeSize).rest = textAt c.rest := by
    rw [Cursor.rest_forward, Cursor.rest_start, ← Cursor.rest_forward, Cursor.forward_forward,
      Cursor.rest_forward]
    rfl
  rw [message_eq]
  refine judges_framed (Reader.Walks.skip fun _ => Reader.Walks.rest ?_) hFinds
  rw [hText]
  exact hWalks _

end Failure

-- ---------------------------------------------------------------------------
-- Every cursor
-- ---------------------------------------------------------------------------

/-- What the four decoders say of the octets ahead of a cursor. -/
structure Cursor.Judged (c : Cursor) : Prop where
  resume : Judges Resume.decode .resume Resume.widths
    (fun octets verdict => verdict = .ok (Resume.ofOctets octets)) c
  resumeOk : Judges ResumeOk.position .resumeOk (fun _ => [8])
    (fun octets verdict => verdict = .ok (ResumeOk.positionAt octets)) c
  code : Judges Failure.code .error (fun _ => [4]) Failure.NamesCode c
  message : Judges Failure.message .error (fun _ => [4]) Failure.SpellsText c

/-- All four decoders say the first thing in wire order that does not fit, and accept everything
else. -/
theorem Cursor.judged (c : Cursor) : c.Judged :=
  ⟨Resume.judges_decode c, ResumeOk.judges_position c, Failure.judges_code c,
    Failure.judges_message c⟩

end Resumption
