import Resumption.Frame.Inspect
import Resumption.Proofs.Verdicts

/-!
# Looking ahead changes nothing

All looks at a frame share one mark, and most of them are made of several others. Whatever is read
in a look moves forward from the marked place and leaves the mark alone, also where it fails, so the
way back is always the way to where the look began. Hence looks may follow each other in any order:
each of them finds what it would have found as the first.

* `Reader.Advances` — a reader moves forward over what is there, and changes nothing else
* `Reader.Looks` — a reader comes back; `Reader.Advances.peek`, `Reader.Looks.bind` compose
* `Inspection.looks` — the operations that only look
* `Cursor.Undisturbed`, `Cursor.undisturbed` — one look, and one look after the other
-/

namespace Resumption

namespace Reader

variable {α β : Type} {reader : Reader α} {k : α → Reader β} {c c' : Cursor}

-- ---------------------------------------------------------------------------
-- Moving forward
-- ---------------------------------------------------------------------------

/-- From wherever it is, the reader moves forward over octets that are there, if at all. The octets
and the place to go back to stay as they are, also where it fails. -/
def Advances (reader : Reader α) : Prop :=
  ∀ c : Cursor, ∃ verdict count, count ≤ c.remaining ∧
    reader c = settle verdict (c.forward count)

theorem advances_pure (value : α) : Advances (pure value) :=
  fun _ => ⟨.ok value, 0, Nat.zero_le _, rfl⟩

theorem advances_throw (e : DecodeError) : Advances (throw e : Reader α) :=
  fun _ => ⟨.error e, 0, Nat.zero_le _, rfl⟩

theorem advances_take (count : Nat) : Advances (take count) := by
  intro c
  unfold take
  by_cases hFits : count ≤ c.remaining
  · rw [if_pos hFits]
    exact ⟨.ok _, count, hFits, rfl⟩
  · rw [if_neg hFits]
    exact ⟨.error _, 0, Nat.zero_le _, rfl⟩

theorem Advances.bind (hReader : Advances reader) (hNext : ∀ value, Advances (k value)) :
    Advances (reader >>= k) := by
  intro c
  obtain ⟨verdict, count, hCount, hVerdict⟩ := hReader c
  cases verdict with
  | error e => exact ⟨.error e, count, hCount, bind_of_error hVerdict⟩
  | ok value =>
    obtain ⟨next, more, hMore, hNextVerdict⟩ := hNext value (c.forward count)
    rw [Cursor.remaining_forward] at hMore
    refine ⟨next, count + more, by omega, ?_⟩
    rw [bind_of_ok hVerdict, hNextVerdict, Cursor.forward_forward]

theorem advances_skip (count : Nat) : Advances (skip count) :=
  (advances_take count).bind fun _ => advances_pure ()

theorem advances_number (width : Nat) : Advances (number width) :=
  (advances_take width).bind fun _ => advances_pure _

theorem advances_uint16 : Advances uint16 :=
  (advances_number 2).bind fun _ => advances_pure _

theorem advances_uint32 : Advances uint32 :=
  (advances_number 4).bind fun _ => advances_pure _

theorem advances_length : Advances length :=
  (advances_number 1).bind fun _ => (advances_number 1).bind fun _ =>
    (advances_number 1).bind fun _ => advances_pure _

theorem advances_rest : Advances rest :=
  fun c => advances_take c.remaining c

theorem advances_require (e : DecodeError) (value : Option α) : Advances (require e value) := by
  cases value with
  | none => exact advances_throw e
  | some value => exact advances_pure value

-- ---------------------------------------------------------------------------
-- Coming back
-- ---------------------------------------------------------------------------

/-- Where the place to read from is the one to go back to, the reader leaves all as it is. -/
def Rests (reader : Reader α) : Prop :=
  ∀ c : Cursor, ∃ verdict, reader c.marked = settle verdict c.marked

/-- Whatever the reader comes to, all it leaves behind is the mark, and it comes to the same if the
mark is there already. -/
def Looks (reader : Reader α) : Prop :=
  ∀ c : Cursor, ∃ verdict, reader c = settle verdict c.marked ∧
    reader c.marked = settle verdict c.marked

theorem rests_pure (value : α) : Rests (pure value) :=
  fun _ => ⟨.ok value, rfl⟩

theorem rests_throw (e : DecodeError) : Rests (throw e : Reader α) :=
  fun _ => ⟨.error e, rfl⟩

/-- A part is read on its own. -/
theorem rests_within (part : ByteArray) (reader : Reader α) : Rests (within part reader) := by
  intro c
  unfold within
  cases reader (.start part) with
  | ok value _ => exact ⟨.ok value, rfl⟩
  | error e _ => exact ⟨.error e, rfl⟩

theorem Looks.rests (hReader : Looks reader) : Rests reader := by
  intro c
  obtain ⟨verdict, -, hMarked⟩ := hReader c
  exact ⟨verdict, hMarked⟩

/-- Whatever moves forward only can be undone by going back. -/
theorem Advances.peek (hReader : Advances reader) : Looks (Reader.peek reader) := by
  intro c
  obtain ⟨verdict, count, -, hVerdict⟩ := hReader c.marked
  have hPeek : Reader.peek reader c = settle verdict c.marked := by
    unfold Reader.peek
    change reader { c with mark := c.index } = _ at hVerdict
    rw [hVerdict]
    cases verdict <;> rfl
  -- a look marks the place anyway before it begins
  exact ⟨verdict, hPeek, hPeek⟩

/-- After a look, other looks find the mark where they would have set it. -/
theorem Looks.bind (hReader : Looks reader) (hNext : ∀ value, Rests (k value)) :
    Looks (reader >>= k) := by
  intro c
  obtain ⟨verdict, hHere, hMarked⟩ := hReader c
  cases verdict with
  | error e => exact ⟨.error e, bind_of_error hHere, bind_of_error hMarked⟩
  | ok value =>
    obtain ⟨next, hNextVerdict⟩ := hNext value c
    exact ⟨next, (bind_of_ok hHere).trans hNextVerdict, (bind_of_ok hMarked).trans hNextVerdict⟩

theorem Looks.map {f : α → β} (hReader : Looks reader) : Looks (do return f (← reader)) :=
  hReader.bind fun _ => rests_pure _

end Reader

-- ---------------------------------------------------------------------------
-- Looks at a frame
-- ---------------------------------------------------------------------------

open Reader

theorem Header.looks_peek : Looks Header.peek := by
  refine Advances.peek (advances_uint32.bind fun stream => advances_uint16.bind fun word => ?_)
  exact (advances_require _ _).bind fun _ => advances_pure _

theorem Header.looks_expect (kind : Kind) : Looks (Header.expect kind) := by
  refine Header.looks_peek.bind fun header => ?_
  by_cases hKind : header.kind = kind
  · rw [if_pos hKind]
    exact rests_pure header
  · rw [if_neg hKind]
    exact rests_throw _

theorem Body.looks_metadata (present : Bool) : Looks (Body.metadata present) := by
  refine Advances.peek ((advances_skip Header.size).bind fun _ => ?_)
  cases present with
  | false => exact advances_pure _
  | true => exact advances_length.bind advances_take

theorem Body.looks_data (present : Bool) : Looks (Body.data present) := by
  refine Advances.peek ((advances_skip Header.size).bind fun _ => ?_)
  cases present with
  | false => exact advances_rest
  | true =>
    exact advances_length.bind fun length => (advances_skip length).bind fun _ => advances_rest

/-- All decoders look twice and read the body on its own. -/
theorem looks_framed {α : Type} (kind : Kind) (inner : Reader α) : Looks (framed kind inner) :=
  (Header.looks_expect kind).bind fun _ =>
    ((Body.looks_data false).bind fun part => rests_within part inner).rests

theorem Resume.looks_decode : Looks Resume.decode :=
  looks_framed .resume Resume.body

theorem ResumeOk.looks_position : Looks ResumeOk.position :=
  looks_framed .resumeOk uint64

theorem Failure.looks_code : Looks Failure.code := by
  rw [Failure.code_eq]
  exact looks_framed .error _

theorem Failure.looks_message : Looks Failure.message := by
  rw [Failure.message_eq]
  exact looks_framed .error _

namespace Inspection

/-- Whether an inspection looks ahead and comes back. -/
def isLook : Inspection → Bool
  | .metadata _ | .data _ | .header | .resume | .resumeOk | .errorCode | .errorMessage => true
  | _ => false

theorem looks {inspection : Inspection} (hLook : inspection.isLook) : Looks inspection.reader := by
  cases inspection with
  | metadata present => exact (Body.looks_metadata present).map
  | data present => exact (Body.looks_data present).map
  | header => exact Header.looks_peek.map
  | resume => exact Resume.looks_decode.map
  | resumeOk => exact ResumeOk.looks_position.map
  | errorCode => exact Failure.looks_code.map
  | errorMessage => exact Failure.looks_message.map
  | _ => cases hLook

-- ---------------------------------------------------------------------------
-- One look after the other
-- ---------------------------------------------------------------------------

/-- The answers to one inspection after the other, and the cursor afterwards. An inspection that
fails is followed by the next one all the same. -/
def answers (c : Cursor) : List Inspection → List (Except DecodeError Finding) × Cursor
  | [] => ([], c)
  | inspection :: inspections =>
    let answered := inspection.answer c
    let later := answers answered.2 inspections
    (answered.1 :: later.1, later.2)

theorem answer_of_looks {inspection : Inspection} (hLook : inspection.isLook) (c : Cursor) :
    ∃ verdict, inspection.answer c = (verdict, c.marked) ∧
      inspection.answer c.marked = (verdict, c.marked) := by
  obtain ⟨verdict, hHere, hMarked⟩ := looks hLook c
  refine ⟨verdict, ?_, ?_⟩
  · rw [answer, hHere]
    cases verdict <;> rfl
  · rw [answer, hMarked]
    cases verdict <;> rfl

theorem answers_marked {inspections : List Inspection}
    (hLooks : ∀ inspection ∈ inspections, inspection.isLook) (c : Cursor) :
    (answers c.marked inspections).1 = inspections.map fun inspection => (inspection.answer c).1 := by
  induction inspections with
  | nil => rfl
  | cons inspection inspections ih =>
    obtain ⟨hLook, hLooks⟩ := List.forall_mem_cons.mp hLooks
    obtain ⟨verdict, hHere, hMarked⟩ := answer_of_looks hLook c
    rw [answers, hMarked, List.map_cons, hHere, ← ih hLooks]

theorem answers_of_looks {inspections : List Inspection}
    (hLooks : ∀ inspection ∈ inspections, inspection.isLook) (c : Cursor) :
    (answers c inspections).1 = inspections.map fun inspection => (inspection.answer c).1 := by
  cases inspections with
  | nil => rfl
  | cons inspection inspections =>
    obtain ⟨hLook, hLooks⟩ := List.forall_mem_cons.mp hLooks
    obtain ⟨verdict, hHere, -⟩ := answer_of_looks hLook c
    rw [answers, hHere, List.map_cons, hHere, answers_marked hLooks c]

end Inspection

/-- What looks do to a cursor, and to each other. -/
structure Cursor.Undisturbed (c : Cursor) : Prop where
  /-- Whatever a look comes to, the octets and the place to read from are as they were, and that
  place is the one to go back to. -/
  stays : ∀ inspection : Inspection, inspection.isLook →
    (inspection.answer c).2 = { c with mark := c.index }
  /-- One after the other, all answer as each of them would have answered first. -/
  repeats : ∀ inspections : List Inspection, (∀ inspection ∈ inspections, inspection.isLook) →
    (Inspection.answers c inspections).1 =
      inspections.map fun inspection => (inspection.answer c).1

/-- Wherever a cursor is and whatever it has marked, looks leave it there. -/
theorem Cursor.undisturbed (c : Cursor) : c.Undisturbed := by
  constructor
  · intro inspection hLook
    obtain ⟨verdict, hHere, -⟩ := Inspection.answer_of_looks hLook c
    rw [hHere]
    rfl
  · intro inspections hLooks
    exact Inspection.answers_of_looks hLooks c

end Resumption
