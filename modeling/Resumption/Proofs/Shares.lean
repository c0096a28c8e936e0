import Resumption.Proofs.Disposal

/-!
# Where the shares of tokens are

Every share of a token has a holder. One is held outside from the beginning, others were taken from
the session and kept, and the rest belong to the session: one for the token bound to it, one for
the token of the episode under way, and one more while a RESUME frame is alive.

A session whose status is terminal is over, unless it was a caller's rejected resumption that
disposed the connection. The end of the task gives every share back. Binding a token afterwards
takes a share again, which nothing gives back before the session is dropped.

* `Balanced` — the count of shares is the count of those who hold one
* `binding` — the token bound last, as the journal tells it
* `Concluded` — what a terminal status says about the task
* `shares_of_terminal` — what is left of the shares in a terminal status
-/

namespace Resumption

-- ---------------------------------------------------------------------------
-- The pool
-- ---------------------------------------------------------------------------

namespace Pool

@[simp] theorem next_retain (p : Pool) (id : Token.Id) : (p.retain id).next = p.next := by
  rw [next, retain, List.length_modify, next]

@[simp] theorem next_release (p : Pool) (id : Token.Id) : (p.release id).next = p.next := by
  rw [next, release, List.length_modify, next]

theorem lt_next_of_shares {p : Pool} {id : Token.Id} (hShares : 0 < p.shares id) :
    id < p.next := by
  refine Nat.lt_of_not_le fun hBeyond => ?_
  have hNone : p.tokens[id]? = none := List.getElem?_eq_none hBeyond
  rw [shares, hNone] at hShares
  exact Nat.lt_irrefl 0 hShares

theorem shares_retain {p : Pool} {id : Token.Id} (hMinted : id < p.next) (other : Token.Id) :
    (p.retain id).shares other = p.shares other + if id = other then 1 else 0 := by
  rw [shares, shares, retain, List.getElem?_modify]
  by_cases hSame : id = other
  · subst hSame
    have hSome : p.tokens[id]? = some p.tokens[id] := List.getElem?_eq_getElem hMinted
    simp [hSome]
  · simp [hSame]

theorem shares_release (p : Pool) (id other : Token.Id) :
    (p.release id).shares other = p.shares other - if id = other then 1 else 0 := by
  rw [shares, shares, release, List.getElem?_modify]
  by_cases hSame : id = other
  · subst hSame
    cases hToken : p.tokens[id]? <;> simp
  · simp [hSame]

/-- Giving back one share after the other. -/
theorem shares_foldl_release (p : Pool) (ids : List Token.Id) (other : Token.Id) :
    (ids.foldl release p).shares other = p.shares other - ids.count other := by
  induction ids generalizing p with
  | nil => rfl
  | cons id ids ih =>
    rw [List.foldl_cons, ih, shares_release, List.count_cons]
    by_cases hSame : id = other
    · simp only [hSame, beq_self_eq_true, if_true]
      omega
    · simp only [hSame, beq_iff_eq, if_false]
      omega

theorem next_foldl_release (p : Pool) (ids : List Token.Id) :
    (ids.foldl release p).next = p.next := by
  induction ids generalizing p with
  | nil => rfl
  | cons id ids ih => rw [List.foldl_cons, ih, next_release]

theorem tokens_foldl_mint (p : Pool) (tokens : List ByteArray) :
    (tokens.foldl mint p).tokens = p.tokens ++ tokens.map fun bytes => ⟨bytes, 1⟩ := by
  induction tokens generalizing p with
  | nil => simp
  | cons bytes tokens ih => simp [ih, mint]

/-- A new token has one share. -/
theorem shares_ofList (tokens : List ByteArray) (id : Token.Id) :
    (ofList tokens).shares id = if id < (ofList tokens).next then 1 else 0 := by
  have hTokens : (ofList tokens).tokens = tokens.map fun bytes => ⟨bytes, 1⟩ := by
    rw [ofList, tokens_foldl_mint]
    rfl
  rw [shares, next, hTokens, List.length_map, List.getElem?_map]
  by_cases hMinted : id < tokens.length
  · simp [hMinted]
  · simp [hMinted]

end Pool

-- ---------------------------------------------------------------------------
-- Holders
-- ---------------------------------------------------------------------------

/-- How many shares an episode has at that stage. -/
def Stage.shares (stage : Stage) : Nat :=
  if stage.holdsFrame then 2 else 1

def Task.shares (token : Token.Id) : Task → Nat
  | .recovering ep => if ep.token = token then ep.stage.shares else 0
  | _ => 0

namespace World

/-- Shares held outside the session: that of whoever minted the token, and those that callers took
from the session and kept. -/
def outside (token : Token.Id) (w : World) : Nat :=
  (if token < w.pool.next then 1 else 0) + w.held.count token

/-- Shares held by the session. -/
def kept (token : Token.Id) (w : World) : Nat :=
  (if w.bound = some token then 1 else 0) + w.task.shares token

/-- Every share has a holder. -/
def Balanced (w : World) : Prop :=
  ∀ token, w.pool.shares token = w.outside token + w.kept token

theorem lt_next_of_kept {w : World} {token : Token.Id} (hBalanced : w.Balanced)
    (hKept : 0 < w.kept token) : token < w.pool.next := by
  have hShares := hBalanced token
  exact Pool.lt_next_of_shares (by omega)

theorem lt_next_of_bound {w : World} {token : Token.Id} (hBalanced : w.Balanced)
    (hBound : w.bound = some token) : token < w.pool.next := by
  refine lt_next_of_kept hBalanced ?_
  rw [kept, if_pos hBound]
  omega

theorem lt_next_of_task {w : World} {ep : Episode} (hBalanced : w.Balanced)
    (hTask : w.task = .recovering ep) : ep.token < w.pool.next := by
  refine lt_next_of_kept hBalanced ?_
  have hStage : 0 < ep.stage.shares := by
    rw [Stage.shares]
    split <;> omega
  rw [kept, hTask, Task.shares, if_pos rfl]
  omega

/-- The count of shares after the bound token was given back. -/
theorem shares_unbind (w : World) (token : Token.Id) :
    w.unbind.pool.shares token =
      w.pool.shares token - if w.bound = some token then 1 else 0 := by
  rw [unbind_eq]
  cases hBound : w.bound with
  | none => simp
  | some bound => simp [Pool.shares_release]

theorem next_unbind (w : World) : w.unbind.pool.next = w.pool.next := by
  rw [unbind_eq]
  cases w.bound <;> simp

/-- The count of shares after an episode gave back its own. -/
theorem shares_abandon (ep : Episode) (w : World) (token : Token.Id) :
    (w.abandon ep).pool.shares token =
      w.pool.shares token - if ep.token = token then ep.stage.shares else 0 := by
  rw [abandon_eq, Stage.shares]
  cases ep.stage.holdsFrame with
  | false => simp [Pool.shares_release]
  | true =>
    simp only [if_true, Pool.shares_release]
    split <;> omega

/-- What the session takes or gives back is what the count changes by. -/
theorem Balanced.transfer {w w' : World} (hBalanced : w.Balanced) (hHeld : w'.held = w.held)
    (hNext : w'.pool.next = w.pool.next)
    (hMoved : ∀ token, w.kept token ≤ w.pool.shares token →
      w'.pool.shares token + w.kept token = w.pool.shares token + w'.kept token) :
    w'.Balanced := by
  intro token
  have hBefore := hBalanced token
  have hAfter := hMoved token (by omega)
  have hOutside : w'.outside token = w.outside token := by
    rw [outside, outside, hHeld, hNext]
  omega

theorem Balanced.same {w w' : World} (hBalanced : w.Balanced) (hPool : w'.pool = w.pool)
    (hHeld : w'.held = w.held) (hBound : w'.bound = w.bound)
    (hTask : ∀ token, w'.task.shares token = w.task.shares token) : w'.Balanced := by
  refine hBalanced.transfer hHeld (by rw [hPool]) fun token _ => ?_
  rw [hPool, kept, kept, hBound, hTask]

theorem next_abandon (ep : Episode) (w : World) : (w.abandon ep).pool.next = w.pool.next := by
  rw [abandon_eq]
  cases ep.stage.holdsFrame <;> simp

theorem Balanced.terminate {w : World} (hBalanced : w.Balanced)
    (hTask : ∀ token, w.task.shares token = 0) : w.terminate.Balanced := by
  refine hBalanced.transfer (by simp) ?_ fun token hKept => ?_
  · rw [(terminate_frame w).2.2.1, next_unbind]
  · -- only the bound token is left to be given back
    have hAfter : w.terminate.kept token = 0 := by simp [kept, Task.shares]
    rw [(terminate_frame w).2.2.1, shares_unbind, hAfter]
    rw [kept, hTask] at hKept ⊢
    omega

/-- The end of an episode that ends the task gives everything back. -/
theorem Balanced.giveUp {w : World} {ep : Episode} (hBalanced : w.Balanced)
    (hTask : w.task = .recovering ep) (how : Ending) : (w.giveUp ep how).Balanced := by
  rw [giveUp_eq]
  refine hBalanced.transfer (by simp) ?_ fun token hKept => ?_
  · rw [(terminate_frame _).2.2.1, next_unbind]
    simp only [dispose_frame, record]
    exact next_abandon ep w
  · have hAfter : ((((w.abandon ep).record .task (.ended how)).dispose .task).terminate).kept
        token = 0 := by
      simp [kept, Task.shares]
    have hAbandon : (w.abandon ep).bound = w.bound := by simp
    rw [(terminate_frame _).2.2.1, shares_unbind, hAfter]
    simp only [dispose_frame, record, shares_abandon, hAbandon]
    rw [kept, hTask, Task.shares] at hKept ⊢
    omega

section

attribute [local simp] Task.shares Stage.shares Stage.holdsFrame Episode.token

theorem balanced_stride {w w' : World} {written : List Entry} (hBalanced : w.Balanced)
    (hStride : Stride w written w') : w'.Balanced := by
  cases hStride with
  | stop hTask => exact hBalanced.terminate (by simp [hTask])
  | beginBare hTask hErrors hBound =>
    refine Balanced.terminate (hBalanced.same ?_ ?_ ?_ ?_) ?_ <;> simp [welcome, hTask]
  | @begin error errors token hTask hErrors hBound =>
    have hMinted := lt_next_of_bound hBalanced hBound
    refine hBalanced.transfer (by simp [welcome]) (by simp [welcome]) fun other _ => ?_
    have hShares := Pool.shares_retain hMinted other
    simp only [kept, hTask, Task.shares] at *
    by_cases hToken : token = other <;> simp [welcome, hBound, hToken] at hShares ⊢ <;> omega
  | @install ep peer answer hTask hStage hReady =>
    -- the RESUME frame takes a share of its own
    have hMinted := lt_next_of_task hBalanced hTask
    refine hBalanced.transfer (by simp [connect]) (by simp [connect]) fun other _ => ?_
    have hShares := Pool.shares_retain hMinted other
    by_cases hToken : ep.snapshot.token = other <;>
      simp [kept, connect, hTask, hStage, hToken] at hShares ⊢ <;> omega
  | announceNothing hTask => exact hBalanced.giveUp hTask _
  | @announce ep channel implied position frame hTask hStage hEncode =>
    -- the RESUME frame gives its share back once it is sent
    refine hBalanced.transfer (by simp) (by simp) fun other hKept => ?_
    have hShares := Pool.shares_release w.pool ep.token other
    by_cases hToken : ep.snapshot.token = other <;>
      simp [kept, hTask, hStage, hToken] at hKept hShares ⊢ <;> omega
  | @resume ep work hTask hStage hDue hReply =>
    refine hBalanced.transfer (by simp) (by simp [hStage]) fun other hKept => ?_
    have hShares := Pool.shares_release w.pool ep.token other
    by_cases hToken : ep.snapshot.token = other <;>
      simp [kept, hTask, hStage, hToken] at hKept hShares ⊢ <;> omega
  | reject hTask =>
    refine Balanced.giveUp (hBalanced.same ?_ ?_ ?_ ?_) (by simp [hTask]) _
    all_goals simp
  | cut hTask => exact hBalanced.giveUp hTask _
  | consult hTask hStage | backOff hTask hStage | dialNobody hTask hStage | dial hTask hStage
  | refuse hTask hStage | hearNothing hTask hStage | hearNoise hTask hStage | hear hTask hStage =>
    exact hBalanced.same (by simp) (by simp) (by simp) (by simp [hTask, hStage])

theorem Balanced.bind {w : World} {token : Token.Id} (hBalanced : w.Balanced)
    (hMinted : token < w.pool.next) : (w.bind token).Balanced := by
  -- the new share is taken before the old one is given back
  refine hBalanced.transfer (by simp [World.bind]) ?_ fun other hKept => ?_
  · cases hBound : w.bound <;> simp [World.bind, hBound]
  · have hShares := Pool.shares_retain hMinted other
    rw [World.bind, unbind_eq]
    cases hBound : w.bound with
    | none =>
      simp [kept, hBound] at hKept hShares ⊢
      omega
    | some bound =>
      have hOld := Pool.shares_release (w.pool.retain token) bound other
      simp [kept, hBound] at hKept hShares hOld ⊢
      omega

theorem Balanced.releaseHeld {w : World} (hBalanced : w.Balanced) : w.releaseHeld.Balanced := by
  intro token
  have hShares := Pool.shares_foldl_release w.pool w.held token
  have hNext := Pool.next_foldl_release w.pool w.held
  have hKept : w.releaseHeld.kept token = w.kept token := rfl
  have hBefore := hBalanced token
  rw [outside] at hBefore ⊢
  rw [hKept]
  simp only [World.releaseHeld, List.count_nil, hNext, hShares]
  omega

theorem Balanced.hold {w : World} {token : Token.Id} (hBalanced : w.Balanced)
    (hBound : w.bound = some token) :
    { w.retain token with held := token :: w.held }.Balanced := by
  intro other
  have hShares := Pool.shares_retain (lt_next_of_bound hBalanced hBound) other
  have hKept : { w.retain token with held := token :: w.held }.kept other = w.kept other := rfl
  have hBefore := hBalanced other
  rw [outside] at hBefore ⊢
  rw [hKept]
  simp only [retain, Pool.next_retain, List.count_cons, hShares, beq_iff_eq]
  omega

/-- A session that is dropped gives everything back. -/
theorem Balanced.drop {w : World} (hBalanced : w.Balanced) : w.drop.Balanced := by
  have hAfter : ∀ token, w.drop.kept token = 0 := by
    intro token
    cases hTask : w.task <;> simp [kept, World.drop, hTask]
  cases hTask : w.task with
  | recovering ep =>
    have hPool : w.drop.pool = (w.abandon ep).unbind.pool := by simp [World.drop, hTask]
    have hBound : (w.abandon ep).bound = w.bound := by simp
    refine hBalanced.transfer (by simp [World.drop, hTask]) ?_ fun token hKept => ?_
    · rw [hPool, next_unbind, next_abandon]
    · rw [hPool, shares_unbind, hBound, shares_abandon, hAfter]
      rw [kept, hTask, Task.shares] at hKept ⊢
      omega
  | idle | ended =>
    have hPool : w.drop.pool = w.unbind.pool := by simp [World.drop, hTask]
    refine hBalanced.transfer (by simp [World.drop, hTask]) ?_ fun token hKept => ?_
    · rw [hPool, next_unbind]
    · have hNone : w.task.shares token = 0 := by rw [hTask]; rfl
      rw [hPool, shares_unbind, hAfter]
      rw [kept, hNone] at hKept ⊢
      omega

theorem balanced_change {w w' : World} {action : Action} {written : List Entry}
    (hBalanced : w.Balanced) (hChange : Change w action written w') : w'.Balanced := by
  cases hChange with
  | work hStride => exact balanced_stride hBalanced hStride
  | quiet _ hSame => exact hBalanced.same hSame.pool hSame.held hSame.bound (by simp [hSame.task])
  | fail | reconnect | beginResume | refuseResume | resume | reject =>
    exact hBalanced.same (by simp) (by simp) (by simp) (by simp)
  | bind hMinted => exact hBalanced.bind hMinted
  | hold hBound => exact hBalanced.hold hBound
  | releaseHeld => exact hBalanced.releaseHeld
  | drop hNone =>
    have hDrop := hBalanced.drop
    cases hTask : w.task with
    | recovering ep => exact absurd hTask (hNone ep)
    | idle | ended => simpa only [World.drop, hTask] using hDrop
  | dropRecovering hTask =>
    have hDrop := hBalanced.drop
    simpa only [World.drop, hTask] using hDrop

end

-- ---------------------------------------------------------------------------
-- Terminal statuses
-- ---------------------------------------------------------------------------

section

attribute [local simp] welcome connect status_terminate status_dispose Task.isEnded

/-- A step leads to a terminal status only where it ends the task. -/
theorem status_stride {w w' : World} {written : List Entry} (hStride : Stride w written w')
    (hTerminal : w'.status.isTerminal) :
    w'.status = w.status ∨
      w'.task.isEnded ∧ (w'.status = .closed ∨ w'.status = .disposed ∧ w'.disposed) := by
  by_cases hBefore : w.status.isTerminal
  · -- no status follows a terminal one
    left
    cases hStride <;> simp [hBefore]
  · -- the end of the task closes the session unless the connection is disposed
    right
    by_cases hDisposed : w.disposed <;> cases hStride <;>
      simp [hBefore, hDisposed] at hTerminal ⊢

theorem status_change {w w' : World} {action : Action} {written : List Entry}
    (hChange : Change w action written w') (hTerminal : w'.status.isTerminal) :
    w'.status = w.status ∨ w'.task.isEnded ∧ w'.status = .closed ∨
      w'.status = .disposed ∧ w'.disposed := by
  cases hChange with
  | work hStride =>
    rcases status_stride hStride hTerminal with hSame | ⟨hEnded, hClosed | hDisposed⟩
    · exact Or.inl hSame
    · exact Or.inr (Or.inl ⟨hEnded, hClosed⟩)
    · exact Or.inr (Or.inr hDisposed)
  | quiet _ hSame => exact Or.inl hSame.status
  | bind => simp [World.bind]
  | releaseHeld => exact Or.inl rfl
  | resume =>
    by_cases hBefore : w.status.isTerminal
    · simp [hBefore]
    · simp [hBefore] at hTerminal
  | reject =>
    by_cases hBefore : w.status.isTerminal
    · simp [hBefore]
    · by_cases hDisposed : w.disposed
      · simp [hDisposed]
      · simp [hBefore, hDisposed]
  | _ => simp

end

/-- What a status and a disposal say about the task. -/
structure Concluded (w : World) : Prop where
  closed : w.status = .closed → w.task.isEnded
  disposed : w.status = .disposed → w.disposed
  ended : w.disposed → w.task.isEnded ∨
    ∃ e ∈ deeds w.journal, e.event.isDisposal ∧ e.actor ≠ .task

theorem ended_of_disposal {w w' : World} {action : Action} {written : List Entry}
    (hBefore : w.disposed = false) (hChange : Change w action written w') (hNow : w'.disposed) :
    w'.task.isEnded ∨ ∃ e ∈ written, e.event.isDisposal ∧ e.actor ≠ .task := by
  by_cases hAction : action = .work
  · subst hAction
    cases hChange with
    | work hStride => exact Or.inl (stride_ends hBefore hStride hNow).1
    | quiet hWork => exact absurd rfl hWork
  · right
    have hCount := disposals_change hChange
    rw [hBefore, hNow] at hCount
    have hSome : disposals written ≠ 0 := by
      have : (true : Bool).toNat = 1 := rfl
      have : (false : Bool).toNat = 0 := rfl
      omega
    rw [Ne, disposals_eq_zero] at hSome
    obtain ⟨e, he, hDisposal⟩ : ∃ e ∈ written, e.event.isDisposal := by simpa using hSome
    exact ⟨e, he, hDisposal, actor_change hAction hChange e he⟩

theorem concluded_change {w w' : World} {action : Action} {written : List Entry}
    (hConcluded : w.Concluded) (hChange : Change w action written w') : w'.Concluded where
  closed := by
    intro hClosed
    rcases status_change hChange (by rw [hClosed]; rfl) with hSame | ⟨hEnded, -⟩ | ⟨hOther, -⟩
    · exact (ended_change (hConcluded.closed (hSame.symm.trans hClosed)) hChange).1
    · exact hEnded
    · rw [hClosed] at hOther
      cases hOther
  disposed := by
    intro hDisposed
    rcases status_change hChange (by rw [hDisposed]; rfl) with hSame | ⟨-, hOther⟩ | ⟨-, hNow⟩
    · have hCount := disposals_change hChange
      rw [hConcluded.disposed (hSame.symm.trans hDisposed)] at hCount
      cases hNow : w'.disposed with
      | true => rfl
      | false =>
        rw [hNow] at hCount
        exact absurd hCount (by simp)
    · rw [hDisposed] at hOther
      cases hOther
    · exact hNow
  ended := by
    intro hNow
    rw [deeds_change hChange]
    cases hBefore : w.disposed with
    | false =>
      refine (ended_of_disposal hBefore hChange hNow).imp_right ?_
      rintro ⟨e, he, hDisposal⟩
      exact ⟨e, List.mem_append_left _ he, hDisposal⟩
    | true =>
      rcases hConcluded.ended hBefore with hEnded | ⟨e, he, hDisposal⟩
      · exact Or.inl (ended_change hEnded hChange).1
      · exact Or.inr ⟨e, List.mem_append_right _ he, hDisposal⟩

end World

-- ---------------------------------------------------------------------------
-- The token bound last
-- ---------------------------------------------------------------------------

def Event.bound? : Event → Option Token.Id
  | .bound token => some token
  | _ => none

/-- Whether an event gives back the bound token. -/
def Event.unbinds : Event → Bool
  | .stopped | .dropped => true
  | _ => false

/-- The token bound last and not given back since. Latest first. -/
def binding (journal : List Entry) : Option Token.Id :=
  (journal.takeWhile fun e => !e.event.unbinds).findSome? fun e => e.event.bound?

@[simp] theorem binding_cons (e : Entry) (journal : List Entry) :
    binding (e :: journal) =
      if e.event.unbinds then none else e.event.bound?.or (binding journal) := by
  rw [binding, List.takeWhile_cons]
  cases hUnbinds : e.event.unbinds with
  | true => rfl
  | false =>
    simp only [Bool.not_false, if_true, List.findSome?_cons, Bool.false_eq_true, if_false]
    cases e.event.bound? <;> rfl

/-- Only binding and ending have a say in what is bound. -/
theorem binding_append {later : List Entry} (journal : List Entry)
    (hPlain : ∀ e ∈ later, e.event.unbinds = false ∧ e.event.bound? = none) :
    binding (later ++ journal) = binding journal := by
  induction later with
  | nil => rfl
  | cons e later ih =>
    obtain ⟨hUnbinds, hBound⟩ := hPlain e List.mem_cons_self
    rw [List.cons_append, binding_cons, hUnbinds, hBound, if_neg Bool.false_ne_true, Option.none_or]
    exact ih fun e' he' => hPlain e' (List.mem_cons_of_mem e he')

theorem binding_deeds (journal : List Entry) : binding (deeds journal) = binding journal := by
  induction journal with
  | nil => rfl
  | cons e journal ih =>
    rw [deeds_cons]
    split
    case isTrue hNotice =>
      have hPlain : e.event.unbinds = false ∧ e.event.bound? = none := by
        cases hEvent : e.event <;> simp_all [Event.isNotice, Event.unbinds, Event.bound?]
      rw [binding_cons, hPlain.1, hPlain.2, if_neg Bool.false_ne_true, Option.none_or, ih]
    case isFalse => rw [binding_cons, binding_cons, ih]

namespace World

section

attribute [local simp] own guest raised Event.unbinds Event.bound?

theorem bound_change {w w' : World} {action : Action} {written journal : List Entry}
    (hBound : w.bound = binding journal) (hChange : Change w action written w') :
    w'.bound = binding (written ++ journal) := by
  cases hChange with
  | work hStride =>
    cases hStride with
    | stop | beginBare | announceNothing | reject | cut => simp
    | _ =>
      rw [binding_append journal (by simp [or_imp, forall_and])]
      simp [welcome, connect, hBound]
  | quiet _ hSame => rw [hSame.bound, hBound, List.nil_append]
  | bind => simp [World.bind]
  | hold | releaseHeld => exact hBound
  | drop | dropRecovering => simp
  | _ =>
    rw [binding_append journal (by simp [or_imp, forall_and])]
    simp [hBound]

end

end World

/-- The journal tells which token is bound. -/
theorem Reachable.bound_eq {w : World} (hReach : Reachable w) : w.bound = binding w.journal := by
  rw [← binding_deeds]
  refine hReach.induct (P := fun w => w.bound = binding (deeds w.journal)) (fun _ _ _ _ => rfl) ?_
  intro w w' action written _ hBound hChange
  rw [World.deeds_change hChange]
  exact World.bound_change hBound hChange

theorem Reachable.balanced {w : World} (hReach : Reachable w) : w.Balanced := by
  refine hReach.induct ?_ fun _ hBalanced hChange => World.balanced_change hBalanced hChange
  intro config tokens reconciliations bursts token
  exact Pool.shares_ofList tokens token

theorem Reachable.concluded {w : World} (hReach : Reachable w) : w.Concluded := by
  refine hReach.induct ?_ fun _ hConcluded hChange => World.concluded_change hConcluded hChange
  intro config tokens reconciliations bursts
  exact ⟨nofun, nofun, nofun⟩

-- ---------------------------------------------------------------------------
-- What is left at the end
-- ---------------------------------------------------------------------------

/-- In a terminal status the task is over, unless somebody else disposed the connection; and when
the task is over the session holds no share but one of a token that was bound afterwards. -/
theorem shares_of_terminal {w : World} (hReach : Reachable w) (hTerminal : w.status.isTerminal) :
    (w.task.isEnded ∨ ∃ e ∈ w.journal, e.event.isDisposal ∧ e.actor ≠ .task) ∧
      (w.task.isEnded → ∀ token, w.pool.shares token =
        w.outside token + if binding w.journal = some token then 1 else 0) := by
  constructor
  · -- closing is the task's, disposing may be somebody else's
    have hConcluded := hReach.concluded
    have hWhich : w.status = .closed ∨ w.status = .disposed := by
      cases hStatus : w.status <;> simp_all
    rcases hWhich with hClosed | hDisposed
    · exact Or.inl (hConcluded.closed hClosed)
    · refine (hConcluded.ended (hConcluded.disposed hDisposed)).imp_right ?_
      rintro ⟨e, he, hDisposal⟩
      exact ⟨e, (mem_deeds.mp he).1, hDisposal⟩
  · intro hEnded token
    have hNone : w.task.shares token = 0 := by
      cases hTask : w.task with
      | recovering ep => simp [hTask, Task.isEnded] at hEnded
      | idle | ended => rfl
    rw [hReach.balanced token, World.kept, hNone, hReach.bound_eq]
    omega

/-- The stream ends while a token is bound, and then the token is bound again. -/
def World.rebinding : List Action :=
  [.bind 0, .closeErrors, .work, .bind 0]

theorem shares_of_terminal_rebinding :
    ∃ w, World.sample.run World.rebinding = some w ∧ w.status.isTerminal ∧
      (w.task.isEnded ∨ ∃ e ∈ w.journal, e.event.isDisposal ∧ e.actor ≠ .task) ∧
      (w.task.isEnded → ∀ token, w.pool.shares token =
        w.outside token + if binding w.journal = some token then 1 else 0) := by
  have hClosed : (World.sample.run World.rebinding).map (fun w => w.status.isTerminal) =
      some true := by
    decide +kernel
  obtain ⟨w, hRun, hTerminal⟩ := Option.map_eq_some_iff.mp hClosed
  exact ⟨w, hRun, hTerminal, shares_of_terminal (reachable_sample hRun) hTerminal⟩

/-- A token that is bound when the task is over keeps its share. -/
theorem not_shares_eq_outside :
    ¬ ∀ w, Reachable w → w.status.isTerminal → w.step.isNone →
      ∀ token, w.pool.shares token = w.outside token := by
  intro h
  have hShares : (World.sample.run World.rebinding).map (fun w =>
      (w.status.isTerminal, w.step.isNone, w.pool.shares 0, w.outside 0)) =
        some (true, true, 2, 1) := by
    decide +kernel
  obtain ⟨w, hRun, hFacts⟩ := Option.map_eq_some_iff.mp hShares
  simp only [Prod.mk.injEq] at hFacts
  obtain ⟨hTerminal, hStep, hTwo, hOne⟩ := hFacts
  have hEqual := h w (reachable_sample hRun) hTerminal hStep 0
  omega

end Resumption
