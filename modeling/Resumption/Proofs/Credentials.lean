import Resumption.Proofs.Episodes
import Resumption.Proofs.Handshake
import Resumption.Proofs.SentFrames

/-!
# What a RESUME frame says

The token of an episode is settled when the episode begins, and the positions are read anew by each
of its attempts. A RESUME frame says just that to the peer, whatever has been bound to the session
meanwhile, and whatever the positions were in earlier attempts. A token that is too long is never
sent at all.

* `Reachable.told` — every chapter is as it should be, the one under way included
* `Credited` — RESUME frames carry the token and what was read right before them
* `Told.credited` — those of a chapter do
* `World.Credits` — what is written down about token and positions is what they were at that moment
* `credits_of_reachable` — every RESUME frame of every run
-/

namespace Resumption

/-- Every chapter looks as it should. -/
theorem Reachable.told {w : World} (hReach : Reachable w) :
    ∀ c ∈ chapters w.journal, c.Told w.config.duration w.pool.bytes := by
  have hChronicle := hReach.chronicle
  intro c hMem
  rw [← chapters_deeds] at hMem
  by_cases hEnding : c.ending = none
  case neg => exact hChronicle.told c hMem hEnding
  case pos =>
    by_cases hTask : ∃ ep, w.task = .recovering ep
    case neg => exact absurd hEnding (hChronicle.closed (fun ep hEp => hTask ⟨ep, hEp⟩) c hMem)
    case pos =>
      obtain ⟨ep, hTask⟩ := hTask
      obtain ⟨c', older, hChapters, hOlder, hCurrent⟩ := hChronicle.current ep hTask
      rw [hChapters] at hMem
      rcases List.mem_cons.mp hMem with rfl | hMem
      · exact hCurrent.told
      · exact absurd hEnding (hOlder c hMem)

-- ---------------------------------------------------------------------------
-- Frames and what was read before them
-- ---------------------------------------------------------------------------

/-- What is written is not too long and can be read. -/
theorem Resume.decode_encode {frame : Resume} {encoded : Segments}
    (hEncode : frame.encode = .ok encoded) :
    frame.token.size ≤ 65535 ∧ ∃ c, decode (.start encoded.toBytes) = .ok frame c := by
  have hToken : frame.token.size ≤ 65535 := by
    refine Nat.le_of_not_lt fun hLong => ?_
    rw [encode_of_long hLong] at hEncode
    cases hEncode
  obtain ⟨written, hWritten, hInverts⟩ := frame.conveyed.written hToken
  obtain rfl : written = encoded := by simpa using hWritten.symm.trans hEncode
  have hRead := hInverts.read ByteArray.empty ByteArray.empty 0
  rw [ByteArray.empty_append, ByteArray.append_empty] at hRead
  exact ⟨hToken, _, hRead⟩

/-- Each RESUME frame among these calls carries the token, and the positions that were read right
before it, right after a reconnect. -/
def Credited (token : ByteArray) (calls : List Event) : Prop :=
  ∀ before frame failed shares after, calls = before ++ .sent frame failed shares :: after →
    isResume frame = true → token.size ≤ 65535 ∧
      ∃ earlier connection implied position c,
        before = earlier ++
          [Event.reconnected (.request connection), Event.positionsRead implied position] ∧
        Resume.decode (.start frame) = .ok { token, implied, position } c

section

variable {token : ByteArray} {earlier later calls : List Event}

theorem credited_of_none (hNone : ∀ event ∈ calls, event.sendsResume = false) :
    Credited token calls := by
  rintro before frame failed shares after rfl hFrame
  have hSends := hNone (.sent frame failed shares) (by simp)
  rw [Event.sendsResume, hFrame] at hSends
  cases hSends

theorem Credited.of_append (hCredited : Credited token (earlier ++ later)) :
    Credited token earlier := by
  rintro before frame failed shares after rfl hFrame
  exact hCredited before frame failed shares (after ++ later) (by simp) hFrame

theorem Credited.append (hEarlier : Credited token earlier) (hLater : Credited token later) :
    Credited token (earlier ++ later) := by
  intro before frame failed shares after hSplit hFrame
  rcases List.append_eq_append_iff.mp hSplit with ⟨more, rfl, hMore⟩ | ⟨more, hMore, hRest⟩
  · -- the frame is among the later calls
    obtain ⟨hToken, front, connection, implied, position, c, rfl, hDecode⟩ :=
      hLater more frame failed shares after hMore hFrame
    exact ⟨hToken, earlier ++ front, connection, implied, position, c, by simp, hDecode⟩
  · cases more with
    | nil =>
      obtain ⟨hToken, front, connection, implied, position, c, hNil, -⟩ :=
        hLater [] frame failed shares after hRest.symm hFrame
      simp at hNil
    | cons event more =>
      obtain ⟨rfl, -⟩ := List.cons_eq_cons.mp hRest
      exact hEarlier before frame failed shares more hMore hFrame

end

-- ---------------------------------------------------------------------------
-- Attempts and episodes
-- ---------------------------------------------------------------------------

section

attribute [local simp] connecting asking Event.sendsResume

variable {token : ByteArray} {attempt word : List Event}

theorem Announced.credited (hAnnounced : Announced token attempt) : Credited token attempt := by
  obtain @⟨supplier, connection, implied, position, encoded, failed, shares, hEncode⟩ := hAnnounced
  obtain ⟨hToken, c, hDecode⟩ := Resume.decode_encode hEncode
  intro before frame failed' shares' after hSplit _
  -- there is only one frame in the attempt
  obtain ⟨rfl, hFrame, -⟩ :=
    (List.append_cons_inj_of_notMem (by simp) (by simp)).mp hSplit
  cases hFrame
  exact ⟨hToken, [.attempted, .dialled supplier, .demultiplexed connection], connection, implied,
    position, c, rfl, hDecode⟩

theorem Failed.credited {next : RecoveryError} (hFailed : Failed token next attempt) :
    Credited token attempt := by
  cases hFailed with
  | noSupplier | refused => exact credited_of_none (by simp)
  | setupClosed hAnnounced | noise hAnnounced =>
    exact hAnnounced.credited.append (credited_of_none (by simp))

theorem Last.credited {how : Ending} (hLast : Last token how attempt) :
    Credited token attempt := by
  cases hLast with
  | unencodable => exact credited_of_none (by simp)
  | resumed hAnnounced | rejected hAnnounced =>
    exact hAnnounced.credited.append (credited_of_none (by simp))

variable {snapshot : Snapshot} {cause : LinkError} {error : RecoveryError} {how : Ending}

theorem credited_asking (reply : Except String Duration) :
    Credited token (asking snapshot token error reply) :=
  credited_of_none (by simp)

theorem Rounds.credited (hRounds : Rounds snapshot token cause error word) :
    Credited token word := by
  induction hRounds with
  | none => exact credited_of_none (by simp)
  | more _ hFailed ih => exact (ih.append (credited_asking _)).append hFailed.credited

theorem Tale.credited (hTale : Tale snapshot token cause how word) : Credited token word := by
  obtain ⟨hRounds, hLast⟩ := hTale
  exact (hRounds.credited.append (credited_asking _)).append hLast.credited

theorem credited_farewell (c : Chapter) : Credited token c.farewell := by
  refine credited_of_none ?_
  unfold Chapter.farewell
  cases c.spent <;> simp

/-- Without a token nothing is sent, and with one the frames carry it. -/
theorem Chapter.Told.credited {duration : Duration} {bytes : Token.Id → ByteArray} {c : Chapter}
    (hTold : c.Told duration bytes) :
    (c.token = none ∧ ∀ event ∈ c.calls, event.sendsResume = false) ∨
      ∃ id, c.token = some id ∧ Credited (bytes id) c.calls := by
  cases hTold with
  | bare hToken hEnding hCalls =>
    refine .inl ⟨hToken, ?_⟩
    rw [hCalls, Chapter.farewell]
    cases c.spent <;> simp
  | resumed hToken hEnding hTale => exact .inr ⟨_, hToken, hTale.credited⟩
  | lost hToken hEnding hHow hTale hCalls =>
    exact .inr ⟨_, hToken, hCalls ▸ hTale.credited.append (credited_farewell c)⟩
  | cut hToken hEnding hTale hAwaited hCalls =>
    exact .inr ⟨_, hToken, hCalls ▸ hTale.credited.of_append.append (credited_farewell c)⟩
  | unfinished hToken hEnding hTale => exact .inr ⟨_, hToken, hTale.credited.of_append⟩

end

-- ---------------------------------------------------------------------------
-- What the token and the positions are
-- ---------------------------------------------------------------------------

/-- Whether an event settles what RESUME frames say: an episode begins or the positions are read. -/
def Event.isGround : Event → Bool
  | .taken _ | .positionsRead .. => true
  | _ => false

/-- What follows the beginning of an episode does not change its token. -/
theorem chapters_append_taken {later : List Entry} {time : Nat} {actor : Actor} {cause : LinkError}
    (journal : List Entry) (hLater : ∀ e ∈ later, e.event.isGround = false) :
    ∃ c, chapters (later ++ ⟨time, actor, .taken cause⟩ :: journal) = c :: chapters journal ∧
      c.token = binding journal := by
  induction later with
  | nil => exact ⟨_, chapters_taken .., rfl⟩
  | cons e later ih =>
    obtain ⟨c, hChapters, hToken⟩ := ih fun e' hMem => hLater e' (List.mem_cons_of_mem e hMem)
    have hTaken := hLater e List.mem_cons_self
    refine ⟨Chapter.continue e (later ++ ⟨time, actor, .taken cause⟩ :: journal) c, ?_, ?_⟩
    · rw [List.cons_append, chapters, hChapters]
      split
      case h_1 other hEvent =>
        rw [hEvent] at hTaken
        cases hTaken
      case h_2 => rfl
    · rw [← hToken, Chapter.continue]
      split
      case h_1 => rfl
      case h_2 => split <;> rfl

/-- What an action writes down of the token and of the positions. -/
structure World.Faithful (w : World) (written : List Entry) (w' : World) : Prop where
  /-- The token of an episode is the one that is bound when it begins. -/
  token : ∀ e ∈ written, ∀ cause, e.event = .taken cause →
    ∃ c, chapters w'.journal = c :: chapters w.journal ∧ c.token = w.bound
  /-- The positions are those that the connection has after its reconnect. -/
  positions : ∀ e ∈ written, ∀ implied position, e.event = .positionsRead implied position →
    implied = w'.implied ∧ position = w'.position

namespace World

section

attribute [local simp] own guest raised Event.isGround

theorem faithful_of_none {w w' : World} {written : List Entry}
    (hNone : ∀ e ∈ written, e.event.isGround = false) : w.Faithful written w' := by
  constructor
  · intro e hMem cause hEvent
    have hGround := hNone e hMem
    rw [hEvent] at hGround
    cases hGround
  · intro e hMem implied position hEvent
    have hGround := hNone e hMem
    rw [hEvent] at hGround
    cases hGround

/-- The beginning of an episode, whatever comes of it in the same step. -/
theorem faithful_of_taken {w w' : World} {written later : List Entry} {error : LinkError}
    (hReach : Reachable w) (hDeeds : deeds w'.journal = written ++ deeds w.journal)
    (hWritten : written = later ++ [w.own (.taken error)])
    (hLater : ∀ e ∈ later, e.event.isGround = false) : w.Faithful written w' := by
  subst hWritten
  constructor
  · intro e hMem cause hEvent
    obtain ⟨c, hChapters, hToken⟩ := chapters_append_taken (deeds w.journal) hLater
    refine ⟨c, ?_, ?_⟩
    · rw [← chapters_deeds, hDeeds, List.append_assoc, ← chapters_deeds w.journal]
      exact hChapters
    · rw [hToken, binding_deeds, hReach.bound_eq]
  · intro e hMem implied position hEvent
    rcases List.mem_append.mp hMem with hMem | hMem
    · exact (faithful_of_none (w := w) hLater).positions e hMem implied position hEvent
    · obtain rfl := List.mem_singleton.mp hMem
      cases hEvent

theorem faithful_stride {w w' : World} {written : List Entry} (hReach : Reachable w)
    (hStride : Stride w written w') : w.Faithful written w' := by
  cases hStride with
  | @beginBare error errors hTask hErrors hBound =>
    have hWritten : w.own .stopped ::
        (w.disposal .task ++ [w.own (.ended (.failed .missingToken)), w.own (.taken error)]) =
          (w.own .stopped :: (w.disposal .task ++ [w.own (.ended (.failed .missingToken))])) ++
            [w.own (.taken error)] := by
      simp only [List.cons_append, List.append_assoc, List.nil_append]
    refine faithful_of_taken hReach (deeds_stride (.beginBare hTask hErrors hBound)) hWritten ?_
    simp [or_imp, forall_and]
  | @begin error errors token hTask hErrors hBound =>
    have hWritten : [w.own .strategyMade, w.own (.taken error)] =
        [w.own .strategyMade] ++ [w.own (.taken error)] :=
      rfl
    refine faithful_of_taken hReach (deeds_stride (.begin hTask hErrors hBound)) hWritten ?_
    simp
  | install =>
    constructor
    · simp [or_imp, forall_and]
    · simp [or_imp, forall_and, connect]
  | _ =>
    refine faithful_of_none ?_
    simp [or_imp, forall_and]

theorem faithful_change {w w' : World} {action : Action} {written : List Entry}
    (hReach : Reachable w) (hChange : Change w action written w') : w.Faithful written w' := by
  cases hChange with
  | work hStride => exact faithful_stride hReach hStride
  | _ =>
    refine faithful_of_none ?_
    simp [or_imp, forall_and]

end

end World

-- ---------------------------------------------------------------------------
-- Every run
-- ---------------------------------------------------------------------------

/-- The RESUME frames of all episodes of a session, and what they are made of. -/
structure World.Credits (w : World) : Prop where
  /-- The chapters leave out no frame that the task sends. -/
  covered : (chapters w.journal).reverse.flatMap Chapter.calls = ownCalls w.journal
  /-- A RESUME frame carries the token of its episode and the positions that were read right before
  it, right after the reconnect of the same attempt. -/
  sent : ∀ c ∈ chapters w.journal, ∀ (before : List Event) frame failed shares after,
    c.calls = before ++ Event.sent frame failed shares :: after → isResume frame = true →
      ∃ id earlier connection implied position cursor, c.token = some id ∧
        before = earlier ++
          [Event.reconnected (.request connection), Event.positionsRead implied position] ∧
        Resume.decode (.start frame) =
          .ok { token := w.pool.bytes id, implied, position } cursor
  /-- A token that is too long is never sent. -/
  unsent : ∀ c ∈ chapters w.journal, ∀ id, c.token = some id → 65535 < (w.pool.bytes id).size →
    ∀ event ∈ c.calls, event.sendsResume = false
  faithful : ∀ action w', w.act action = some w' → w'.pool.bytes = w.pool.bytes ∧
    ∃ written, deeds w'.journal = written ++ deeds w.journal ∧ w.Faithful written w'

/-- In every run, what a RESUME frame says is the token bound when its episode began and the
positions read by its attempt. -/
theorem credits_of_reachable {w : World} (hReach : Reachable w) : w.Credits := by
  constructor
  · have hCovered := hReach.chronicle.covered
    rw [Covered, chapters_deeds, ownCalls_deeds] at hCovered
    exact hCovered
  · intro c hMem before frame failed shares after hCalls hFrame
    rcases (hReach.told c hMem).credited with ⟨-, hNone⟩ | ⟨id, hToken, hCredited⟩
    · have hSends := hNone (.sent frame failed shares) (by simp [hCalls])
      rw [Event.sendsResume, hFrame] at hSends
      cases hSends
    · obtain ⟨-, earlier, connection, implied, position, cursor, hBefore, hDecode⟩ :=
        hCredited before frame failed shares after hCalls hFrame
      exact ⟨id, earlier, connection, implied, position, cursor, hToken, hBefore, hDecode⟩
  · intro c hMem id hId hLong event hEvent
    rcases (hReach.told c hMem).credited with ⟨-, hNone⟩ | ⟨id', hToken, hCredited⟩
    · exact hNone event hEvent
    · cases hId.symm.trans hToken
      cases event with
      | sent frame failed shares =>
        obtain ⟨before, after, hCalls⟩ := List.append_of_mem hEvent
        refine Bool.eq_false_iff.mpr fun hFrame => ?_
        have hShort := (hCredited before frame failed shares after hCalls hFrame).1
        omega
      | _ => rfl
  · intro action w' hAct
    obtain ⟨written, hChange⟩ := World.change_of_act hAct
    exact ⟨World.bytes_change hChange, written, World.deeds_change hChange,
      World.faithful_change hReach hChange⟩

/-- Another token is bound and the positions change between two attempts of an episode. -/
def World.replacing : List Action :=
  [.bind 0, .setPositions 3 4, .fail .closed,
    .setSupplier ⟨"next", [⟨0, 0, .connected ⟨[], false⟩⟩, ⟨0, 0, .connected ⟨[], true⟩⟩]⟩,
    .work, .work, .work, .work, .work, .work, .work, .bind 1, .setPositions 5 6,
    .work, .work, .work, .work, .work]

def Event.positions? : Event → Option (UInt64 × UInt64)
  | .positionsRead implied position => some (implied, position)
  | _ => none

theorem credits_of_reachable_replacing :
    ∃ w, (World.initial World.sample.config [⟨#[1]⟩, ⟨#[2]⟩] [] []).run World.replacing = some w ∧
      w.bound = some 1 ∧
      (chapters w.journal).map (fun c => (c.token, c.calls.countP Event.sendsResume)) =
        [(some 0, 2)] ∧
      (ownCalls w.journal).filterMap Event.positions? = [(3, 4), (5, 6)] ∧ w.Credits := by
  have hFacts : ((World.initial World.sample.config [⟨#[1]⟩, ⟨#[2]⟩] [] []).run
      World.replacing).map (fun w => (w.bound, (chapters w.journal).map fun c =>
        (c.token, c.calls.countP Event.sendsResume))) = some (some 1, [(some 0, 2)]) := by
    decide +kernel
  have hPositions : ((World.initial World.sample.config [⟨#[1]⟩, ⟨#[2]⟩] [] []).run
      World.replacing).map (fun w => (ownCalls w.journal).filterMap Event.positions?) =
      some [(3, 4), (5, 6)] := by
    decide +kernel
  obtain ⟨w, hRun, hFacts⟩ := Option.map_eq_some_iff.mp hFacts
  obtain ⟨hBound, hChapters⟩ := Prod.mk.inj hFacts
  rw [hRun] at hPositions
  exact ⟨w, hRun, hBound, hChapters, Option.some.inj hPositions,
    credits_of_reachable ⟨_, _, _, _, _, hRun⟩⟩

end Resumption
