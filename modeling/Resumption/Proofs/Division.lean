import Resumption.Proofs.Bodies
import Resumption.Proofs.Fields

/-!
# Frames are divided without loss

Metadata and data are looked at one by one, and the frame may have been cut anywhere. Both looks
take the same fields, so they succeed together or complain of the same field. Where they succeed,
the header, the length, the metadata and the data follow each other without a gap, and encoding them
again gives back all octets that were there.

* `Body.metadata_eq`, `Body.data_eq` — each look, from the octets ahead of it alone
* `Body.Divided`, `Body.Refused` — what both looks come to
* `Body.divided_or_refused` — one of the two, for every cursor
-/

namespace Resumption

namespace Body

-- ---------------------------------------------------------------------------
-- One look
-- ---------------------------------------------------------------------------

/-- What is written where a header is followed by a length. -/
def lengthAt (octets : ByteArray) : Nat :=
  BigEndian.decode (octets.extract 6 9)

/-- The fields in front of the data: the header and, if metadata is announced, its length octet by
octet and the metadata itself. -/
def widths (present : Bool) (octets : ByteArray) : List Nat :=
  if present then [6, 1, 1, 1, lengthAt octets] else [6]

def metadataAt (present : Bool) (octets : ByteArray) : ByteArray :=
  if present then octets.extract 9 (9 + lengthAt octets) else ByteArray.empty

/-- Everything behind the fields in front of the data. -/
def dataAt (present : Bool) (octets : ByteArray) : ByteArray :=
  octets.extract (if present then 9 + lengthAt octets else 6) octets.size

theorem metadata_eq (present : Bool) (c : Cursor) :
    metadata present c =
      Reader.settle (walk (widths present c.rest) c.remaining (.ok (metadataAt present c.rest)))
        c.marked := by
  refine Reader.Walks.peek ?_
  cases present with
  | false => exact Reader.Walks.skip fun _ => Reader.walks_pure ByteArray.empty _
  | true =>
    refine Reader.Walks.skip fun _ => Reader.Walks.length fun _ => ?_
    rw [Cursor.extract_forward, Cursor.forward_forward, ← bind_pure (Reader.take _)]
    refine Reader.Walks.take fun _ => ?_
    rw [Cursor.extract_forward]
    exact Reader.walks_pure _ _

theorem data_eq (present : Bool) (c : Cursor) :
    data present c =
      Reader.settle (walk (widths present c.rest) c.remaining (.ok (dataAt present c.rest)))
        c.marked := by
  refine Reader.Walks.peek ?_
  rw [← bind_pure Reader.rest]
  cases present with
  | false =>
    refine Reader.Walks.skip fun _ => Reader.Walks.rest ?_
    rw [Cursor.rest_forward]
    exact Reader.walks_pure _ _
  | true =>
    refine Reader.Walks.skip fun _ => Reader.Walks.length fun _ => ?_
    rw [Cursor.extract_forward, Cursor.forward_forward]
    refine Reader.Walks.skip fun _ => Reader.Walks.rest ?_
    rw [Cursor.forward_forward, Cursor.rest_forward]
    exact Reader.walks_pure _ _

-- ---------------------------------------------------------------------------
-- Both looks
-- ---------------------------------------------------------------------------

/-- Whether all fields in front of the data are there. -/
def Complete (present : Bool) (octets : ByteArray) : Prop :=
  if present then 9 + lengthAt octets ≤ octets.size else 6 ≤ octets.size

theorem complete_iff (present : Bool) (c : Cursor) :
    Complete present c.rest ↔ (widths present c.rest).sum ≤ c.remaining := by
  unfold Complete widths
  rw [c.size_rest]
  cases present with
  | false => simp
  | true =>
    simp
    omega

/-- The frame ahead has these two parts, and nothing else but its header and their length. -/
structure Divided (present : Bool) (c : Cursor) (part tail : ByteArray) : Prop where
  metadata : metadata present c = .ok part c.marked
  data : data present c = .ok tail c.marked
  /-- With metadata, a frame of the same header and these parts can be encoded, and is what there
  was. -/
  whole : present → ∃ frame, encode (c.rest.extract 0 6) part tail = .ok frame ∧
    frame.toBytes = c.rest
  /-- The same without metadata. -/
  bare : present = false → part = ByteArray.empty ∧
    (headed (c.rest.extract 0 6) tail).toBytes = c.rest

/-- Neither part is found, for the same reason: some field is missing octets. -/
structure Refused (present : Bool) (c : Cursor) (needed remaining : Nat) : Prop where
  metadata : metadata present c = .error (.incomplete needed remaining) c.marked
  data : data present c = .error (.incomplete needed remaining) c.marked

theorem refused_of_incomplete {present : Bool} {c : Cursor}
    (hIncomplete : ¬ Complete present c.rest) :
    ∃ needed remaining, Refused present c needed remaining := by
  rw [complete_iff, Nat.not_le] at hIncomplete
  obtain ⟨before, needed, after, hWidths, hBefore, hShort⟩ := exists_short hIncomplete
  refine ⟨needed, c.remaining - before.sum, ?_, ?_⟩
  · rw [metadata_eq, hWidths, walk_of_short _ hBefore hShort]
    rfl
  · rw [data_eq, hWidths, walk_of_short _ hBefore hShort]
    rfl

theorem encode_lengthAt {octets : ByteArray} (hSize : 9 ≤ octets.size) :
    BigEndian.encode lengthSize (lengthAt octets) = octets.extract 6 9 :=
  BigEndian.encode_field octets (i := 6) hSize

theorem lengthAt_lt (octets : ByteArray) : lengthAt octets < 2 ^ 24 :=
  BigEndian.decode_extract_lt octets (i := 6) (j := 9)

theorem divided_of_complete {present : Bool} {c : Cursor} (hComplete : Complete present c.rest) :
    Divided present c (metadataAt present c.rest) (dataAt present c.rest) := by
  have hFits := (complete_iff present c).mp hComplete
  refine ⟨?_, ?_, fun hPresent => ?_, fun hPresent => ?_⟩
  · rw [metadata_eq, walk_of_fits _ hFits]
    rfl
  · rw [data_eq, walk_of_fits _ hFits]
    rfl
  · subst hPresent
    generalize c.rest = octets at hComplete
    have hSize : 9 + lengthAt octets ≤ octets.size := hComplete
    have hPart : (metadataAt true octets).size = lengthAt octets := by
      show (octets.extract 9 (9 + lengthAt octets)).size = _
      rw [ByteArray.size_extract]
      omega
    have hShort : (metadataAt true octets).size < 2 ^ 24 := hPart ▸ lengthAt_lt octets
    refine ⟨_, (encode_eq _ _ _).trans (if_pos hShort), ?_⟩
    rw [toBytes_parts, hPart, encode_lengthAt (by omega)]
    -- header, length, metadata and data lie side by side
    show octets.extract 0 6 ++ (octets.extract 6 9 ++ (octets.extract 9 (9 + lengthAt octets) ++
      octets.extract (9 + lengthAt octets) octets.size)) = octets
    rw [← ByteArray.extract_eq_extract_append_extract _ (by omega) hSize,
      ← ByteArray.extract_eq_extract_append_extract _ (by omega) (by omega),
      extract_append_rest (by omega)]
  · subst hPresent
    refine ⟨rfl, ?_⟩
    rw [toBytes_headed]
    exact extract_append_rest hComplete

/-- Both looks find their part, and the two make up all that is ahead, just where all fields in
front of the data are there; and both complain of the same field where they are not. -/
theorem divided_or_refused (present : Bool) (c : Cursor) :
    (Complete present c.rest ∧ ∃ part tail, Divided present c part tail) ∨
      (¬ Complete present c.rest ∧ ∃ needed remaining, Refused present c needed remaining) := by
  by_cases hComplete : Complete present c.rest
  · exact .inl ⟨hComplete, _, _, divided_of_complete hComplete⟩
  · exact .inr ⟨hComplete, refused_of_incomplete hComplete⟩

end Body

end Resumption
