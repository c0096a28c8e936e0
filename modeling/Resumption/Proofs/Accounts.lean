import Mathlib.Data.List.Forall2
import Resumption.Proofs.Episodes

/-!
# The episodes of a journal, with their times

An account is a chapter told once more, with the time of each call and with the number of strategies
that were made before. It grows as its chapter does.

* `ownEntries` — the calls of the task with their times
* `Account`, `accounts` — the episodes of a journal, latest first
* `accounts_append` — what is written down meanwhile goes into the latest account
* `tells_accounts` — accounts and chapters tell the same
-/

namespace Resumption

-- ---------------------------------------------------------------------------
-- Calls with their times
-- ---------------------------------------------------------------------------

/-- The calls of the task with their times, earliest first. -/
def ownEntries (journal : List Entry) : List Entry :=
  (journal.filter Entry.isOwnCall).reverse

theorem ownCalls_eq (journal : List Entry) :
    ownCalls journal = (ownEntries journal).map Entry.event := by
  rw [ownCalls, ownEntries, List.map_reverse]

@[simp] theorem ownEntries_nil : ownEntries [] = [] := rfl

@[simp] theorem ownEntries_cons (e : Entry) (journal : List Entry) :
    ownEntries (e :: journal) = ownEntries journal ++ if e.isOwnCall then [e] else [] := by
  rw [ownEntries, List.filter_cons]
  cases e.isOwnCall <;> simp [ownEntries]

@[simp] theorem ownEntries_append (later earlier : List Entry) :
    ownEntries (later ++ earlier) = ownEntries earlier ++ ownEntries later := by
  simp [ownEntries]

theorem ownEntries_eq_nil {journal : List Entry} :
    ownEntries journal = [] ↔ ownCalls journal = [] := by
  rw [ownCalls_eq, List.map_eq_nil_iff]

theorem mem_ownEntries {journal : List Entry} {e : Entry} :
    e ∈ ownEntries journal ↔ e ∈ journal ∧ e.isOwnCall := by
  simp [ownEntries]

def Event.makesStrategy : Event → Bool
  | .strategyMade => true
  | _ => false

/-- How many strategies have been made. -/
def strategies (journal : List Entry) : Nat :=
  journal.countP fun e => e.event.makesStrategy

theorem strategies_eq_zero {journal : List Entry} :
    strategies journal = 0 ↔ ∀ e ∈ journal, e.event.makesStrategy = false := by
  simp [strategies, List.countP_eq_zero]

theorem strategies_append (later earlier : List Entry) :
    strategies (later ++ earlier) = strategies later + strategies earlier :=
  List.countP_append

-- ---------------------------------------------------------------------------
-- Accounts
-- ---------------------------------------------------------------------------

structure Account where
  /-- When it began. -/
  time : Nat
  /-- The error that began it. -/
  cause : LinkError
  /-- The token bound at its beginning. -/
  token : Option Token.Id
  /-- Strategies made before. -/
  number : Nat
  /-- The calls of the task, earliest first. -/
  calls : List Entry
  /-- How it ended, if it has. -/
  ending : Option Ending

/-- The calls without their times. -/
def Account.events (a : Account) : List Event :=
  a.calls.map Entry.event

/-- How an entry continues the account that is open. -/
def Account.continue (e : Entry) (a : Account) : Account :=
  match e.event with
  | .ended how => { a with ending := some how }
  | _ => { a with calls := a.calls ++ ownEntries [e] }

/-- The episodes of a journal. Both are latest first. -/
def accounts : List Entry → List Account
  | [] => []
  | e :: journal =>
    match e.event with
    | .taken cause => ⟨e.time, cause, binding journal, strategies journal, [], none⟩ ::
        accounts journal
    | _ => (accounts journal).modifyHead (Account.continue e)

@[simp] theorem accounts_taken (time : Nat) (actor : Actor) (cause : LinkError)
    (journal : List Entry) :
    accounts (⟨time, actor, .taken cause⟩ :: journal) =
      ⟨time, cause, binding journal, strategies journal, [], none⟩ :: accounts journal :=
  rfl

@[simp] theorem accounts_ended (time : Nat) (actor : Actor) (how : Ending)
    (journal : List Entry) :
    accounts (⟨time, actor, .ended how⟩ :: journal) =
      (accounts journal).modifyHead fun a => { a with ending := some how } :=
  rfl

theorem accounts_cons {e : Entry} {journal : List Entry} (hTurn : e.event.isTurn = false) :
    accounts (e :: journal) =
      (accounts journal).modifyHead fun a => { a with calls := a.calls ++ ownEntries [e] } := by
  have hContinue : Account.continue e =
      fun a => { a with calls := a.calls ++ ownEntries [e] } := by
    funext a
    cases hEvent : e.event <;> simp_all [Account.continue, Event.isTurn]
  rw [← hContinue]
  cases hEvent : e.event <;> simp_all [accounts, Event.isTurn]

/-- Between the turns everything goes into the latest account. -/
theorem accounts_append {later : List Entry} (journal : List Entry)
    (hTurns : ∀ e ∈ later, e.event.isTurn = false) :
    accounts (later ++ journal) =
      (accounts journal).modifyHead fun a => { a with calls := a.calls ++ ownEntries later } := by
  induction later with
  | nil => cases hAccounts : accounts journal <;> simp [hAccounts]
  | cons e later ih =>
    rw [List.cons_append, accounts_cons (hTurns e List.mem_cons_self),
      ih fun e' he' => hTurns e' (List.mem_cons_of_mem e he')]
    cases accounts journal with
    | nil => rfl
    | cons a older => simp

/-- What the task does not do leaves the accounts as they are. -/
theorem accounts_append_of_ownEntries {later : List Entry} (journal : List Entry)
    (hTurns : ∀ e ∈ later, e.event.isTurn = false) (hCalls : ownEntries later = []) :
    accounts (later ++ journal) = accounts journal := by
  rw [accounts_append journal hTurns, hCalls]
  cases accounts journal <;> simp

-- ---------------------------------------------------------------------------
-- Accounts and chapters
-- ---------------------------------------------------------------------------

/-- The two tell the same episode. -/
structure Account.Tells (a : Account) (c : Chapter) : Prop where
  cause : a.cause = c.cause
  token : a.token = c.token
  calls : a.events = c.calls
  ending : a.ending = c.ending

theorem Account.Tells.continue {a : Account} {c : Chapter} (hTells : a.Tells c) (e : Entry)
    (journal : List Entry) : (a.continue e).Tells (c.continue e journal) := by
  obtain ⟨hCause, hToken, hCalls, hEnding⟩ := hTells
  cases hOwn : e.isOwnCall <;> cases hEvent : e.event <;>
    simp only [Account.continue, Chapter.continue, hEvent, hOwn] <;>
    constructor <;> simp_all [events]

theorem forall₂_modifyHead {α β : Type} {R : α → β → Prop} {f : α → α} {g : β → β} {xs : List α}
    {ys : List β} (hAll : List.Forall₂ R xs ys) (hHead : ∀ {x y}, R x y → R (f x) (g y)) :
    List.Forall₂ R (xs.modifyHead f) (ys.modifyHead g) := by
  cases hAll with
  | nil => exact .nil
  | cons hFirst hRest => exact .cons (hHead hFirst) hRest

/-- There is an account for each chapter. -/
theorem tells_accounts (journal : List Entry) :
    List.Forall₂ Account.Tells (accounts journal) (chapters journal) := by
  induction journal with
  | nil => exact .nil
  | cons e journal ih =>
    obtain ⟨time, actor, event⟩ := e
    cases event with
    | taken cause => exact .cons ⟨rfl, rfl, rfl, rfl⟩ ih
    | _ => exact forall₂_modifyHead ih fun hTells => hTells.continue _ journal

theorem exists_tells {as : List Account} {cs : List Chapter}
    (hAll : List.Forall₂ Account.Tells as cs) {a : Account} (hMem : a ∈ as) :
    ∃ c ∈ cs, a.Tells c := by
  induction hAll with
  | nil => cases hMem
  | cons hFirst _ ih =>
    rcases List.mem_cons.mp hMem with rfl | hMem
    · exact ⟨_, List.mem_cons_self, hFirst⟩
    · obtain ⟨c, hOther, hTells⟩ := ih hMem
      exact ⟨c, List.mem_cons_of_mem _ hOther, hTells⟩

/-- The accounts leave out no call of the task where the chapters leave out none. -/
theorem flatMap_accounts {journal : List Entry} (hCovered : Covered journal) :
    (accounts journal).reverse.flatMap Account.events = ownCalls journal := by
  have hSame : (accounts journal).map Account.events = (chapters journal).map Chapter.calls := by
    rw [← List.forall₂_eq_eq_eq, List.forall₂_map_left_iff, List.forall₂_map_right_iff]
    exact (tells_accounts journal).imp fun _ _ hTells => hTells.calls
  rw [← hCovered, List.flatMap_def, List.flatMap_def, List.map_reverse, List.map_reverse, hSame]

-- ---------------------------------------------------------------------------
-- Notices
-- ---------------------------------------------------------------------------

theorem strategies_deeds (journal : List Entry) :
    strategies (deeds journal) = strategies journal := by
  rw [strategies, strategies, deeds, List.countP_filter]
  refine List.countP_congr fun e _ => ?_
  cases e.event <;> simp [Event.makesStrategy, Event.isNotice]

/-- Notices have no place in the accounts. -/
theorem accounts_deeds (journal : List Entry) : accounts (deeds journal) = accounts journal := by
  induction journal with
  | nil => rfl
  | cons e journal ih =>
    rw [deeds_cons]
    split
    case isTrue hNotice =>
      obtain ⟨hTurn, hCall, -⟩ := Event.plain_of_isNotice hNotice
      have hCalls : ownEntries [e] = [] := by simp [Entry.isOwnCall, hCall]
      have hSame : accounts ([e] ++ journal) = accounts journal :=
        accounts_append_of_ownEntries journal (by simpa using hTurn) hCalls
      rw [ih]
      exact hSame.symm
    case isFalse => rw [accounts, accounts, ih, binding_deeds, strategies_deeds]

end Resumption
