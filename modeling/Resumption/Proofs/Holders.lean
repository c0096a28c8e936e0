import Resumption.Proofs.ErrorStream
import Resumption.Proofs.SentFrames

/-!
# Who holds the shares of a token

At every moment of every run the shares of a token are accounted for by what the journal tells:
those that were taken outside the session, one for the token that was bound last, one for the token
of the episode under way, and one for a RESUME frame of that episode which is alive. So whatever
ends an episode or lets go of a frame gives back its share, and a session that was dropped keeps
nothing and touches nothing.

* `episodeToken` — the token of the episode under way, as the journal tells it
* `announcing_stride` — a RESUME frame is sent while it is alive, and at no other time
* `gone_run` — nothing happens to a session that was dropped
* `World.Accounted` — the account of the shares, with what follows for each way out
* `accounted_of_reachable` — every run keeps the account
-/

namespace Resumption

-- ---------------------------------------------------------------------------
-- Holders
-- ---------------------------------------------------------------------------

/-- The token of the episode under way: the one that was bound when it began. -/
def episodeToken (journal : List Entry) : Option Token.Id :=
  (chapters journal).head?.bind fun c => if c.ending.isNone then c.token else none

/-- The share of a token that a holder of at most one token has. -/
def shareOf (holder : Option Token.Id) (token : Token.Id) : Nat :=
  if holder = some token then 1 else 0

namespace World

/-- The token of the RESUME frame that is alive. -/
def frameToken (w : World) : Option Token.Id :=
  w.announcing?.map Prod.fst

theorem frameToken_of_recovering {w : World} {ep : Episode} (hTask : w.task = .recovering ep) :
    w.frameToken = if ep.stage.holdsFrame then some ep.token else none := by
  unfold frameToken announcing?
  rw [hTask]
  cases hStage : ep.stage <;> simp [hStage, Stage.holdsFrame]

theorem frameToken_of_not_recovering {w : World} (hTask : ∀ ep, w.task ≠ .recovering ep) :
    w.frameToken = none := by
  unfold frameToken announcing?
  cases hSame : w.task with
  | recovering ep => exact absurd hSame (hTask ep)
  | idle | ended => rfl

theorem episodeToken_of_recovering {w : World} {ep : Episode} (hReach : Reachable w)
    (hTask : w.task = .recovering ep) : episodeToken w.journal = some ep.token := by
  obtain ⟨c, older, hChapters, -, hCurrent⟩ := hReach.chronicle.current ep hTask
  rw [episodeToken, ← chapters_deeds, hChapters, List.head?_cons, Option.bind_some,
    hCurrent.ending]
  exact hCurrent.token

theorem episodeToken_of_not_recovering {w : World} (hReach : Reachable w)
    (hTask : ∀ ep, w.task ≠ .recovering ep) : episodeToken w.journal = none := by
  have hClosed := hReach.chronicle.closed hTask
  rw [episodeToken, ← chapters_deeds]
  cases hChapters : chapters (deeds w.journal) with
  | nil => rfl
  | cons c older =>
    have hEnding := hClosed c (by rw [hChapters]; exact List.mem_cons_self)
    cases hHow : c.ending with
    | none => exact absurd hHow hEnding
    | some how => simp [hHow]

theorem shares_of_not_recovering {w : World} (hReach : Reachable w)
    (hTask : ∀ ep, w.task ≠ .recovering ep) (token : Token.Id) :
    w.pool.shares token = w.outside token + shareOf (binding w.journal) token := by
  have hNone : w.task.shares token = 0 := by
    cases hSame : w.task with
    | recovering ep => exact absurd hSame (hTask ep)
    | idle | ended => rfl
  have hBalanced := hReach.balanced token
  rw [kept, hNone, hReach.bound_eq] at hBalanced
  exact hBalanced

/-- Every share has one of the holders that the journal tells. -/
theorem shares_of_reachable {w : World} (hReach : Reachable w) (token : Token.Id) :
    w.pool.shares token = w.outside token + shareOf (binding w.journal) token +
      shareOf (episodeToken w.journal) token + shareOf w.frameToken token := by
  by_cases hTask : ∃ ep, w.task = .recovering ep
  · obtain ⟨ep, hTask⟩ := hTask
    have hBalanced := hReach.balanced token
    rw [kept, hReach.bound_eq, hTask, Task.shares, Stage.shares] at hBalanced
    rw [episodeToken_of_recovering hReach hTask, frameToken_of_recovering hTask]
    unfold shareOf
    -- a frame is alive at one stage only, and it has the token of the episode
    by_cases hToken : ep.token = token
    · cases hFrame : ep.stage.holdsFrame <;> simp [hFrame, hToken] at hBalanced ⊢ <;> omega
    · cases hFrame : ep.stage.holdsFrame <;> simp [hToken] at hBalanced ⊢ <;> omega
  · have hNone : ∀ ep, w.task ≠ .recovering ep := fun ep hEp => hTask ⟨ep, hEp⟩
    rw [shares_of_not_recovering hReach hNone, episodeToken_of_not_recovering hReach hNone,
      frameToken_of_not_recovering hNone]
    rfl

-- ---------------------------------------------------------------------------
-- Frames that are sent
-- ---------------------------------------------------------------------------

section

attribute [local simp] own guest raised Event.sendsResume

/-- A RESUME frame is sent while it is alive, at no other time, and it is gone afterwards. -/
theorem sent_stride {w w' : World} {written : List Entry} (hStride : Stride w written w') :
    ∀ e ∈ written, e.event.sendsResume →
      (∃ frame, e.event = .sent frame w.sendsFail w.pool.counts) ∧
        w.frameToken.isSome ∧ w'.frameToken = none := by
  cases hStride with
  | @announce ep channel implied position encoded hTask hStage hEncode =>
    have hAlive : w.frameToken.isSome := by
      rw [frameToken_of_recovering hTask, hStage]
      rfl
    have hGone : ∀ (v : World) (answer : Pending (Option ByteArray)),
        (v.atStage ep (.listening answer)).frameToken = none := by
      intro v answer
      rw [frameToken_of_recovering rfl]
      rfl
    intro e hMem hSends
    rcases List.mem_cons.mp hMem with rfl | hMem
    · cases hSends
    · rw [List.mem_singleton.mp hMem]
      exact ⟨⟨_, rfl⟩, hAlive, hGone _ _⟩
  | _ =>
    -- the only other frame that is sent is no RESUME frame
    simp [or_imp, forall_and]

theorem sent_change {w w' : World} {action : Action} {written : List Entry}
    (hChange : Change w action written w') :
    ∀ e ∈ written, e.event.sendsResume →
      (∃ frame, e.event = .sent frame w.sendsFail w.pool.counts) ∧
        w.frameToken.isSome ∧ w'.frameToken = none := by
  cases hChange with
  | work hStride => exact sent_stride hStride
  | _ => simp [or_imp, forall_and]

end

-- ---------------------------------------------------------------------------
-- Ways out
-- ---------------------------------------------------------------------------

section

attribute [local simp] own guest raised Event.isEnding

/-- When an episode has ended none is under way. -/
theorem not_recovering_of_ending {w w' : World} {action : Action} {written : List Entry}
    (hChange : Change w action written w') {e : Entry} (hMem : e ∈ written)
    (hEnding : e.event.isEnding) : ∀ ep, w'.task ≠ .recovering ep := by
  have hNone : (∀ e ∈ written, e.event.isEnding = false) ∨ ∀ ep, w'.task ≠ .recovering ep := by
    cases hChange with
    | work hStride =>
      cases hStride with
      | stop | beginBare | announceNothing | resume | reject | cut => exact .inr (by simp)
      | _ => exact .inl (by simp [or_imp, forall_and])
    | drop | dropRecovering => exact .inr (by simp)
    | _ => exact .inl (by simp [or_imp, forall_and])
  rcases hNone with hNone | hOver
  · rw [hNone e hMem] at hEnding
    cases hEnding
  · exact hOver

end

-- ---------------------------------------------------------------------------
-- A session that was dropped
-- ---------------------------------------------------------------------------

/-- Nobody has anything to do with the session any more. -/
structure Gone (w : World) : Prop where
  closed : w.isOpen = false
  ended : w.task = .ended
  calls : w.calls = []
  bound : w.bound = none

theorem gone_of_drop {w w' : World} (hAct : w.act .drop = some w') : w'.Gone := by
  simp only [act] at hAct
  split at hAct
  case isFalse => cases hAct
  case isTrue hCalls =>
    obtain ⟨-, rfl⟩ := of_whileOpen hAct
    have hNone : w.calls = [] := List.isEmpty_iff.mp hCalls
    constructor <;> cases hTask : w.task <;> simp [World.drop, hTask, hNone]

/-- Nothing happens to a session that was dropped. -/
theorem gone_act {w w' : World} {action : Action} (hGone : w.Gone) (hAct : w.act action = some w') :
    w'.Gone ∧ w'.journal = w.journal := by
  have hShut : ∀ next : World, w.whileOpen next = none := by
    intro next
    rw [whileOpen, hGone.closed]
    rfl
  have hDeaf : ∀ errors, w.accept errors = w := by
    intro errors
    rw [accept, listens, hGone.ended]
    simp [Task.isEnded]
  cases action with
  | work =>
    rw [act, step_ended hGone.ended] at hAct
    cases hAct
  | elapse millis =>
    simp only [act] at hAct
    split at hAct
    case isTrue =>
      cases hAct
      exact ⟨⟨hGone.closed, hGone.ended, hGone.calls, hGone.bound⟩, rfl⟩
    case isFalse => cases hAct
  | fail error =>
    simp only [act, hDeaf, Option.some.injEq] at hAct
    subst hAct
    exact ⟨hGone, rfl⟩
  | finishResume number => simp [act, World.finishResume, hGone.calls] at hAct
  | beginResume frame =>
    simp only [act] at hAct
    split at hAct <;> simp [hShut] at hAct
  | bind token | setSupplier supplier | reconnect label | observe observer | hold | subscribe
  | drop => simp [act, hShut] at hAct
  | closeErrors | setPositions implied position | setSendsFail sendsFail
  | addReconciliation reconciliation | releaseHeld | poll =>
    cases hAct
    exact ⟨⟨hGone.closed, hGone.ended, hGone.calls, hGone.bound⟩, rfl⟩

theorem gone_run {w w' : World} {actions : List Action} (hGone : w.Gone)
    (hRun : w.run actions = some w') : w'.Gone ∧ w'.journal = w.journal := by
  induction actions generalizing w with
  | nil =>
    cases hRun
    exact ⟨hGone, rfl⟩
  | cons action actions ih =>
    obtain ⟨next, hNext, hRest⟩ := Option.bind_eq_some_iff.mp hRun
    obtain ⟨hStill, hSame⟩ := gone_act hGone hNext
    obtain ⟨hLater, hJournal⟩ := ih hStill hRest
    exact ⟨hLater, hJournal.trans hSame⟩

end World

-- ---------------------------------------------------------------------------
-- The account
-- ---------------------------------------------------------------------------

/-- All calls of collaborators, whoever made them. Latest first. -/
def allCalls (journal : List Entry) : List Entry :=
  journal.filter fun e => e.event.isCall

/-- The shares of every token are accounted for, and whoever holds one gives it back. -/
structure World.Accounted (w : World) : Prop where
  /-- Beside the shares held outside there is one for the token bound last, one for the token of
  the episode under way and one for the RESUME frame that is alive. -/
  shares : ∀ token, w.pool.shares token = w.outside token + shareOf (binding w.journal) token +
    shareOf (episodeToken w.journal) token + shareOf w.frameToken token
  /-- A frame belongs to the episode under way. -/
  frame : ∀ token, w.frameToken = some token → episodeToken w.journal = some token
  /-- A frame is alive while it is sent, as the counts told with it show, and gone afterwards. -/
  sent : ∀ action w' written, w.act action = some w' →
    deeds w'.journal = written ++ deeds w.journal → ∀ e ∈ written, e.event.sendsResume →
      (∃ frame, e.event = .sent frame w.sendsFail w.pool.counts) ∧
        w.frameToken.isSome ∧ w'.frameToken = none
  /-- Before the strategy is asked for another attempt, the frame of the one before is gone. -/
  retried : ∀ ep cause, w.task = .recovering ep → ep.stage = .consulting cause →
    ∀ token, w.pool.shares token = w.outside token + shareOf (binding w.journal) token +
      shareOf (some ep.token) token
  /-- However an episode ends, nothing is left of what it and its frame held. -/
  ended : ∀ action w' written, w.act action = some w' →
    deeds w'.journal = written ++ deeds w.journal → (∃ e ∈ written, e.event.isEnding) →
      ∀ token, w'.pool.shares token = w'.outside token + shareOf (binding w'.journal) token
  /-- Binding a token gives back the one before. -/
  rebound : ∀ token w', w.act (.bind token) = some w' → ∀ other,
    w'.pool.shares other + shareOf (binding w.journal) other =
      w.pool.shares other + shareOf (some token) other
  /-- A session that was dropped keeps nothing and calls nobody. -/
  dropped : ∀ w', w.act .drop = some w' → allCalls w'.journal = allCalls w.journal ∧
    ∀ actions w'', w'.run actions = some w'' →
      w''.journal = w'.journal ∧ ∀ token, w''.pool.shares token = w''.outside token

namespace World

theorem allCalls_drop {w w' : World} (hAct : w.act .drop = some w') :
    allCalls w'.journal = allCalls w.journal := by
  simp only [act] at hAct
  split at hAct
  case isFalse => cases hAct
  case isTrue =>
    obtain ⟨-, rfl⟩ := of_whileOpen hAct
    cases hTask : w.task <;> simp [World.drop, hTask, allCalls, Event.isCall]

/-- The new share is taken and the old one is given back. -/
theorem shares_bind {w w' : World} {token : Token.Id} (hReach : Reachable w)
    (hAct : w.act (.bind token) = some w') (other : Token.Id) :
    w'.pool.shares other + shareOf (binding w.journal) other =
      w.pool.shares other + shareOf (some token) other := by
  have hBefore := hReach.balanced other
  have hAfter := (hReach.act hAct).balanced other
  simp only [act] at hAct
  split at hAct
  case isFalse => cases hAct
  case isTrue =>
    obtain ⟨-, rfl⟩ := of_whileOpen hAct
    have hOutside : (w.bind token).outside other = w.outside other := by
      cases hBound : w.bound <;> simp [outside, World.bind, hBound]
    have hKept : (w.bind token).kept other =
        shareOf (some token) other + w.task.shares other := by
      simp [kept, World.bind, shareOf]
    rw [hOutside, hKept] at hAfter
    rw [kept, hReach.bound_eq] at hBefore
    unfold shareOf at hAfter ⊢
    omega

end World

/-- The shares of every run are accounted for. -/
theorem accounted_of_reachable {w : World} (hReach : Reachable w) : w.Accounted := by
  have hWritten : ∀ {action : Action} {w' : World} {written : List Entry},
      w.act action = some w' → deeds w'.journal = written ++ deeds w.journal →
        World.Change w action written w' := by
    intro action w' written hAct hDeeds
    obtain ⟨written', hChange⟩ := World.change_of_act hAct
    rw [World.deeds_change hChange] at hDeeds
    rwa [← List.append_cancel_right hDeeds]
  constructor
  · exact World.shares_of_reachable hReach
  · intro token hFrame
    by_cases hTask : ∃ ep, w.task = .recovering ep
    · obtain ⟨ep, hTask⟩ := hTask
      rw [World.frameToken_of_recovering hTask] at hFrame
      split at hFrame
      case isTrue =>
        rw [World.episodeToken_of_recovering hReach hTask]
        exact hFrame
      case isFalse => cases hFrame
    · rw [World.frameToken_of_not_recovering fun ep hEp => hTask ⟨ep, hEp⟩] at hFrame
      cases hFrame
  · intro action w' written hAct hDeeds
    exact World.sent_change (hWritten hAct hDeeds)
  · intro ep cause hTask hStage token
    have hGone : w.frameToken = none := by
      rw [World.frameToken_of_recovering hTask, hStage]
      rfl
    rw [World.shares_of_reachable hReach, World.episodeToken_of_recovering hReach hTask, hGone]
    rfl
  · rintro action w' written hAct hDeeds ⟨e, hMem, hEnding⟩
    exact World.shares_of_not_recovering (hReach.act hAct)
      (World.not_recovering_of_ending (hWritten hAct hDeeds) hMem hEnding)
  · intro token w' hAct
    exact World.shares_bind hReach hAct
  · intro w' hAct
    refine ⟨World.allCalls_drop hAct, fun actions w'' hRun => ?_⟩
    obtain ⟨hGone, hJournal⟩ := World.gone_run (World.gone_of_drop hAct) hRun
    have hReach'' := (hReach.act hAct).run hRun
    refine ⟨hJournal, fun token => ?_⟩
    rw [World.shares_of_not_recovering hReach'' (by simp [hGone.ended]), ← hReach''.bound_eq,
      hGone.bound]
    rfl

/-- A connection has been put in place, and RESUME is about to be sent. -/
def World.announcing : List Action :=
  [.bind 0, .setSupplier ⟨"next", [⟨0, 0, .connected ⟨[⟨0, World.sampleOk⟩], true⟩⟩]⟩,
    .fail .closed] ++ List.replicate 5 .work

theorem accounted_of_reachable_announcing :
    ∃ w, World.sample.run World.announcing = some w ∧ w.frameToken = some 0 ∧
      w.pool.shares 0 = 4 ∧ w.Accounted := by
  have hShares : (World.sample.run World.announcing).map (fun w =>
      (w.frameToken, w.pool.shares 0)) = some (some 0, 4) := by
    decide +kernel
  obtain ⟨w, hRun, hFacts⟩ := Option.map_eq_some_iff.mp hShares
  obtain ⟨hFrame, hFour⟩ := Prod.mk.inj hFacts
  exact ⟨w, hRun, hFrame, hFour, accounted_of_reachable (reachable_sample hRun)⟩

end Resumption
