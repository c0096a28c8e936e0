import Resumption.Proofs.Chapters

/-!
# The words of an episode

The calls that the task makes in one recovery episode form a word of a small language. An episode
without a token makes no call but the disposal of the connection. Any other one is a sequence of
attempts, each of which the strategy is asked for first. An attempt that failed in a way that a
further one may mend is followed by another, and the strategy is told why; any other attempt is the
last. The deadline cuts an episode where it waits for an answer, and a cut adds only the disposal.
The connection is disposed at most once, so where somebody else has disposed it already no call is
made for that.

* `Failed`, `Last` — the attempts that are followed by another, and those that are not
* `Rounds`, `Tale` — sequences of attempts, and the words of whole episodes
* `Chapter.Told` — what a chapter has to look like
* `Underway` — the part of a word that an episode has made at each stage
* `Underway.completes` — what has been made can always be completed
-/

namespace Resumption

-- ---------------------------------------------------------------------------
-- The language
-- ---------------------------------------------------------------------------

/-- The strategy is asked, and replies. -/
def asking (snapshot : Snapshot) (token : ByteArray) (cause : RecoveryError)
    (reply : Except String Duration) : List Event :=
  [.consulted cause snapshot token, .advised reply]

/-- A supplier has a connection, which is put in place. -/
def connecting (supplier : String) (connection : Nat) (implied position : UInt64) : List Event :=
  [.attempted, .dialled supplier, .demultiplexed connection, .reconnected (.request connection),
    .positionsRead implied position]

/-- An attempt that got as far as waiting for RESUME_OK: one reconnect, one RESUME frame with the
positions read after it, and one receive on the setup channel of the same connection. -/
inductive Announced (token : ByteArray) : List Event → Prop
  | mk {supplier connection implied position frame failed shares}
      (hEncode : Resume.encode { token, implied, position } = .ok frame) :
      Announced token (connecting supplier connection implied position ++
        [.sent frame.toBytes failed shares, .listened connection])

/-- An attempt that another one may follow, and why it failed. -/
inductive Failed (token : ByteArray) : RecoveryError → List Event → Prop
  | noSupplier : Failed token .noSupplier [.attempted]
  | refused {supplier cause} :
      Failed token (.connection cause) [.attempted, .dialled supplier, .refused cause]
  | setupClosed {attempt} (hAnnounced : Announced token attempt) :
      Failed token .setupClosed (attempt ++ [.heard none])
  | noise {attempt frame cause cursor} (hAnnounced : Announced token attempt)
      (hDecode : ResumeOk.position (.start frame) = .error cause cursor) :
      Failed token (.decode cause) (attempt ++ [.heard (some frame)])

/-- An attempt that no other one follows, and how the episode ends with it. -/
inductive Last (token : ByteArray) : Ending → List Event → Prop
  /-- The token does not fit into a RESUME frame. -/
  | unencodable {supplier connection implied position cause}
      (hEncode : Resume.encode { token, implied, position } = .error cause) :
      Last token (.failed (.encode cause)) (connecting supplier connection implied position)
  | resumed {attempt frame position cursor} (hAnnounced : Announced token attempt)
      (hDecode : ResumeOk.position (.start frame) = .ok position cursor) :
      Last token .resumed (attempt ++
        [.heard (some frame), .reconciling World.unknownPosition position, .reconciled none])
  | rejected {attempt frame position cursor error failed shares}
      (hAnnounced : Announced token attempt)
      (hDecode : ResumeOk.position (.start frame) = .ok position cursor) :
      Last token .rejected (attempt ++
        [.heard (some frame), .reconciling World.unknownPosition position,
          .reconciled (some error), .sent (World.rejection position) failed shares])

/-- Attempts that failed, one after the other. The strategy is told why the one before failed; the
first time it is told what began the episode. -/
inductive Rounds (snapshot : Snapshot) (token : ByteArray) (cause : LinkError) :
    RecoveryError → List Event → Prop
  | none : Rounds snapshot token cause (.connection cause) [.strategyMade]
  | more {error next word reply attempt} (hRounds : Rounds snapshot token cause error word)
      (hFailed : Failed token next attempt) :
      Rounds snapshot token cause next (word ++ asking snapshot token error reply ++ attempt)

/-- A whole episode but for the disposal at its end. -/
inductive Tale (snapshot : Snapshot) (token : ByteArray) (cause : LinkError) :
    Ending → List Event → Prop
  | mk {error word reply how attempt} (hRounds : Rounds snapshot token cause error word)
      (hLast : Last token how attempt) :
      Tale snapshot token cause how (word ++ asking snapshot token error reply ++ attempt)

/-- Whether the task may have to wait afterwards. -/
def Event.isAwaited : Event → Bool
  | .consulted .. | .advised _ | .dialled _ | .listened _ | .reconciling .. => true
  | _ => false

/-- The disposal at the end of an episode. -/
def Chapter.farewell (c : Chapter) : List Event :=
  if c.spent then [] else [.disposed]

/-- What a chapter looks like, in a session that recovers for so long and with these tokens. -/
inductive Chapter.Told (duration : Duration) (bytes : Token.Id → ByteArray) (c : Chapter) : Prop
  /-- Without a token there is nothing to be done. -/
  | bare (hToken : c.token = none) (hEnding : c.ending = some (.failed .missingToken))
      (hCalls : c.calls = c.farewell)
  | resumed {id} (hToken : c.token = some id) (hEnding : c.ending = some .resumed)
      (hTale : Tale ⟨duration, id⟩ (bytes id) c.cause .resumed c.calls)
  | lost {id how word} (hToken : c.token = some id) (hEnding : c.ending = some how)
      (hHow : how ≠ .resumed) (hTale : Tale ⟨duration, id⟩ (bytes id) c.cause how word)
      (hCalls : c.calls = word ++ c.farewell)
  /-- The deadline came first. -/
  | cut {id how word last rest} (hToken : c.token = some id) (hEnding : c.ending = some .cut)
      (hTale : Tale ⟨duration, id⟩ (bytes id) c.cause how (word ++ [last] ++ rest))
      (hAwaited : last.isAwaited) (hCalls : c.calls = word ++ [last] ++ c.farewell)
  /-- The episode is under way, or the session was dropped in the midst of it. -/
  | unfinished {id how rest} (hToken : c.token = some id)
      (hEnding : c.ending = none ∨ c.ending = some .dropped)
      (hTale : Tale ⟨duration, id⟩ (bytes id) c.cause how (c.calls ++ rest))

-- ---------------------------------------------------------------------------
-- Words under way
-- ---------------------------------------------------------------------------

/-- What an episode has done so far when it is at that stage. -/
inductive Underway (snapshot : Snapshot) (token : ByteArray) (cause : LinkError) :
    Stage → List Event → Prop
  | consulting {error word} (hRounds : Rounds snapshot token cause error word) :
      Underway snapshot token cause (.consulting error) word
  | advised {error word reply} (hRounds : Rounds snapshot token cause error word) :
      Underway snapshot token cause (.advised reply) (word ++ [.consulted error snapshot token])
  | backingOff {error word reply due} (hRounds : Rounds snapshot token cause error word) :
      Underway snapshot token cause (.backingOff due) (word ++ asking snapshot token error reply)
  | dialling {error word reply supplier answer}
      (hRounds : Rounds snapshot token cause error word) :
      Underway snapshot token cause (.dialling answer)
        (word ++ asking snapshot token error reply ++ [.attempted, .dialled supplier])
  | announcing {error word reply supplier channel implied position}
      (hRounds : Rounds snapshot token cause error word) :
      Underway snapshot token cause (.announcing channel implied position)
        (word ++ asking snapshot token error reply ++
          connecting supplier channel.connection implied position)
  | listening {error word reply attempt answer} (hRounds : Rounds snapshot token cause error word)
      (hAnnounced : Announced token attempt) :
      Underway snapshot token cause (.listening answer)
        (word ++ asking snapshot token error reply ++ attempt)
  | reconciling {error word reply attempt frame cursor work}
      (hRounds : Rounds snapshot token cause error word) (hAnnounced : Announced token attempt)
      (hDecode : ResumeOk.position (.start frame) = .ok work.position cursor) :
      Underway snapshot token cause (.reconciling work)
        (word ++ asking snapshot token error reply ++ attempt ++
          [.heard (some frame), .reconciling World.unknownPosition work.position])

theorem Announced.completes {token : ByteArray} {attempt : List Event}
    (hAnnounced : Announced token attempt) :
    ∃ rest, Last token .resumed (attempt ++ rest) := by
  -- any RESUME_OK frame will do
  have hDecode : ∃ position cursor,
      ResumeOk.position (.start World.sampleOk) = .ok position cursor :=
    ⟨_, _, rfl⟩
  obtain ⟨position, cursor, hDecode⟩ := hDecode
  exact ⟨_, .resumed hAnnounced hDecode⟩

theorem completes_connecting (token : ByteArray) (supplier : String) (connection : Nat)
    (implied position : UInt64) :
    ∃ how rest, Last token how (connecting supplier connection implied position ++ rest) := by
  -- whether the attempt can go on is settled by the length of the token
  cases hEncode : Resume.encode { token, implied, position } with
  | error cause => exact ⟨_, [], by simpa using Last.unencodable hEncode⟩
  | ok frame =>
    have hAnnounced : Announced token (connecting supplier connection implied position ++
        [.sent frame.toBytes false [], .listened connection]) :=
      .mk hEncode
    obtain ⟨rest, hLast⟩ := hAnnounced.completes
    exact ⟨_, _, by simpa only [List.append_assoc] using hLast⟩

section

variable {snapshot : Snapshot} {token : ByteArray} {cause : LinkError}

theorem Rounds.completes {error : RecoveryError} {word : List Event}
    (hRounds : Rounds snapshot token cause error word) (reply : Except String Duration) :
    ∃ how rest,
      Tale snapshot token cause how (word ++ asking snapshot token error reply ++ rest) := by
  obtain ⟨how, rest, hLast⟩ := completes_connecting token "" 0 0 0
  exact ⟨how, _, .mk hRounds hLast⟩

/-- Whatever has been done in an episode is the beginning of a word. -/
theorem Underway.completes {stage : Stage} {word : List Event}
    (hUnder : Underway snapshot token cause stage word) :
    ∃ how rest, Tale snapshot token cause how (word ++ rest) := by
  -- what is yet to be answered may be answered in any way
  cases hUnder with
  | consulting hRounds =>
    obtain ⟨how, rest, hTale⟩ := hRounds.completes (.error "")
    exact ⟨how, _, by simpa only [List.append_assoc] using hTale⟩
  | advised hRounds =>
    obtain ⟨how, rest, hTale⟩ := hRounds.completes (.error "")
    refine ⟨how, .advised (.error "") :: rest, ?_⟩
    simpa only [asking, List.append_assoc, List.cons_append, List.nil_append] using hTale
  | backingOff hRounds => exact hRounds.completes _
  | @dialling error word reply supplier answer hRounds =>
    obtain ⟨how, rest, hLast⟩ := completes_connecting token supplier 0 0 0
    have hTale : Tale snapshot token cause how (word ++ asking snapshot token error reply ++ _) :=
      .mk hRounds hLast
    refine ⟨how, [.demultiplexed 0, .reconnected (.request 0), .positionsRead 0 0] ++ rest, ?_⟩
    simpa only [connecting, List.append_assoc, List.cons_append, List.nil_append] using hTale
  | @announcing error word reply supplier channel implied position hRounds =>
    obtain ⟨how, rest, hLast⟩ :=
      completes_connecting token supplier channel.connection implied position
    have hTale : Tale snapshot token cause how (word ++ asking snapshot token error reply ++ _) :=
      .mk hRounds hLast
    exact ⟨how, rest, by simpa only [List.append_assoc] using hTale⟩
  | @listening error word reply attempt answer hRounds hAnnounced =>
    obtain ⟨rest, hLast⟩ := hAnnounced.completes
    have hTale : Tale snapshot token cause _ (word ++ asking snapshot token error reply ++ _) :=
      .mk hRounds hLast
    exact ⟨.resumed, rest, by simpa only [List.append_assoc] using hTale⟩
  | @reconciling error word reply attempt frame cursor work hRounds hAnnounced hDecode =>
    have hTale : Tale snapshot token cause _ (word ++ asking snapshot token error reply ++ _) :=
      .mk hRounds (.resumed hAnnounced hDecode)
    refine ⟨.resumed, [.reconciled none], ?_⟩
    simpa only [List.append_assoc, List.cons_append, List.nil_append] using hTale

/-- A token that does not fit into a RESUME frame ends the word where the frame would follow. -/
theorem Underway.unencodable {channel : Channel} {implied position : UInt64} {word : List Event}
    {error : EncodeError}
    (hUnder : Underway snapshot token cause (.announcing channel implied position) word)
    (hEncode : Resume.encode { token, implied, position } = .error error) :
    Tale snapshot token cause (.failed (.encode error)) word := by
  cases hUnder with
  | announcing hRounds => exact .mk hRounds (.unencodable hEncode)

theorem Underway.resumed {work : Reconciling} {word : List Event}
    (hUnder : Underway snapshot token cause (.reconciling work) word) :
    Tale snapshot token cause .resumed (word ++ [.reconciled none]) := by
  cases hUnder with
  | reconciling hRounds hAnnounced hDecode =>
    rw [List.append_assoc, List.append_assoc]
    exact .mk hRounds (.resumed hAnnounced hDecode)

theorem Underway.rejected {work : Reconciling} {word : List Event}
    (hUnder : Underway snapshot token cause (.reconciling work) word) (error : RecoveryError)
    (failed : Bool) (shares : List Nat) :
    Tale snapshot token cause .rejected
      (word ++
        [.reconciled (some error), .sent (World.rejection work.position) failed shares]) := by
  cases hUnder with
  | reconciling hRounds hAnnounced hDecode =>
    rw [List.append_assoc, List.append_assoc]
    exact .mk hRounds (.rejected hAnnounced hDecode)

end

end Resumption
