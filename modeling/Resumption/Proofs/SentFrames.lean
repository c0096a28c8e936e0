import Resumption.Proofs.Indifference
import Resumption.Proofs.Wire

/-!
# The kinds of the frames that are sent

A session sends frames of two kinds: RESUME, and the ERROR that tells the peer that its position
could not be reconciled. Which of the two a byte string is can be read off its first six octets,
whatever follows them.

* `Header.peek_start_append` — a header is read back from in front of anything
* `isResume`, `isFailure` — the two kinds, as the peer tells them apart
* `isResume_encode`, `isFailure_rejection` — what the session sends is what it means to send
-/

namespace Resumption

-- ---------------------------------------------------------------------------
-- Headers in front of something
-- ---------------------------------------------------------------------------

/-- The first segment comes first. -/
theorem Segments.toBytes_of_cons (part : ByteArray) (parts : List ByteArray) :
    ∃ tail, (Segments.of (part :: parts)).toBytes = part ++ tail := by
  rw [toBytes_of, List.foldr_cons]
  exact ⟨_, rfl⟩

/-- A header without flags is read back from in front of anything. -/
theorem Header.peek_start_append (kind : Kind) (tail : ByteArray) :
    ∃ cursor, Header.peek (.start ((Header.masked Header.connectionStream kind 0).encode ++ tail)) =
      .ok (Header.masked Header.connectionStream kind 0) cursor := by
  have hSees : (Cursor.start ((Header.masked Header.connectionStream kind 0).encode ++ tail)).Sees
      ((Header.masked Header.connectionStream kind 0).encode ++ tail) :=
    ⟨ByteArray.empty, ByteArray.empty_append.symm, rfl⟩
  exact ⟨_, (reads_read Header.connectionStream kind 0 tail).peek hSees⟩

-- ---------------------------------------------------------------------------
-- The two kinds
-- ---------------------------------------------------------------------------

/-- Whether a frame that is sent is an ERROR frame. -/
def isFailure (frame : ByteArray) : Bool :=
  match Header.peek (.start frame) with
  | .ok header _ => header.kind = .error
  | .error .. => false

theorem isResume_append (kind : Kind) (tail : ByteArray) :
    isResume ((Header.masked Header.connectionStream kind 0).encode ++ tail) =
      decide (kind = .resume) := by
  obtain ⟨cursor, hPeek⟩ := Header.peek_start_append kind tail
  unfold isResume
  rw [hPeek]
  rfl

theorem isFailure_append (kind : Kind) (tail : ByteArray) :
    isFailure ((Header.masked Header.connectionStream kind 0).encode ++ tail) =
      decide (kind = .error) := by
  obtain ⟨cursor, hPeek⟩ := Header.peek_start_append kind tail
  unfold isFailure
  rw [hPeek]
  rfl

theorem Resume.toBytes_encode {frame : Resume} {encoded : Segments}
    (hEncode : frame.encode = .ok encoded) :
    ∃ tail, encoded.toBytes = (Header.masked Header.connectionStream .resume 0).encode ++ tail := by
  unfold Resume.encode at hEncode
  split at hEncode
  case isTrue =>
    cases hEncode
    obtain ⟨tail, hTail⟩ := Segments.toBytes_of_cons _ _
    rw [hTail, ByteArray.append_assoc, ByteArray.append_assoc, ByteArray.append_assoc]
    exact ⟨_, rfl⟩
  case isFalse => cases hEncode

/-- What is sent to resume is a RESUME frame. -/
theorem isResume_encode {frame : Resume} {encoded : Segments}
    (hEncode : frame.encode = .ok encoded) : isResume encoded.toBytes = true := by
  obtain ⟨tail, hTail⟩ := Resume.toBytes_encode hEncode
  rw [hTail, isResume_append]
  rfl

theorem isFailure_encode {frame : Resume} {encoded : Segments}
    (hEncode : frame.encode = .ok encoded) : isFailure encoded.toBytes = false := by
  obtain ⟨tail, hTail⟩ := Resume.toBytes_encode hEncode
  rw [hTail, isFailure_append]
  rfl

theorem World.rejection_eq (position : UInt64) :
    ∃ tail, World.rejection position =
      (Header.masked Header.connectionStream .error 0).encode ++ tail := by
  unfold World.rejection Failure.encode Body.headed
  obtain ⟨tail, hTail⟩ := Segments.toBytes_of_cons _ _
  rw [hTail, ByteArray.append_assoc]
  exact ⟨_, rfl⟩

@[simp] theorem isResume_rejection (position : UInt64) :
    isResume (World.rejection position) = false := by
  obtain ⟨tail, hTail⟩ := World.rejection_eq position
  rw [hTail, isResume_append]
  rfl

/-- What is sent when the positions cannot be reconciled is an ERROR frame. -/
theorem isFailure_rejection (position : UInt64) : isFailure (World.rejection position) = true := by
  obtain ⟨tail, hTail⟩ := World.rejection_eq position
  rw [hTail, isFailure_append]
  rfl

end Resumption
