import Resumption.Proofs.Episodes

/-!
# Why attempts failed, and what the strategy is told

The strategy is asked before each attempt, and told why the one before failed; the first time it is
told what began the episode. Why an attempt failed can be read off the calls of the attempt itself,
so that this is a statement about two independent readings of the same calls.

* `causes` — what the strategy was told
* `faults` — why attempts failed that another one may follow
* `Underway.causes_eq` — the strategy is told the one, in order, and nothing else
-/

namespace Resumption

-- ---------------------------------------------------------------------------
-- Reading calls
-- ---------------------------------------------------------------------------

def Event.cause? : Event → Option RecoveryError
  | .consulted cause _ _ => some cause
  | _ => none

/-- What the strategy was told, in order. -/
def causes (calls : List Event) : List RecoveryError :=
  calls.filterMap Event.cause?

/-- Why an attempt failed, if the call is its last one; `next` is what comes next. An attempt that
asks no supplier has none to ask. -/
def Event.fault? (next : Option Event) : Event → Option RecoveryError
  | .attempted =>
    match next with
    | some (.dialled _) => none
    | _ => some .noSupplier
  | .refused cause => some (.connection cause)
  | .heard none => some .setupClosed
  | .heard (some frame) =>
    match ResumeOk.position (.start frame) with
    | .error cause _ => some (.decode cause)
    | .ok .. => none
  | _ => none

/-- Why attempts failed that another one may follow, in order. -/
def faults : List Event → List RecoveryError
  | [] => []
  | event :: later => (event.fault? later.head?).toList ++ faults later

/-- Whether a call has no part in what the strategy is told. -/
def Event.isSettling : Event → Bool
  | .reconciled _ | .sent .. | .disposed => true
  | _ => false

@[simp] theorem causes_append (earlier later : List Event) :
    causes (earlier ++ later) = causes earlier ++ causes later :=
  List.filterMap_append

/-- Only a supplier that is asked next makes a difference. -/
theorem Event.fault?_eq {next : Option Event} (hNext : ∀ supplier, next ≠ some (.dialled supplier))
    (event : Event) : event.fault? next = event.fault? none := by
  cases event with
  | attempted =>
    cases next with
    | none => rfl
    | some next =>
      cases next with
      | dialled supplier => exact absurd rfl (hNext supplier)
      | _ => rfl
  | heard answer => cases answer <;> rfl
  | _ => rfl

/-- The calls of an attempt say why it failed, whatever came before. -/
theorem faults_append {later : List Event} (earlier : List Event)
    (hLater : ∀ supplier, later.head? ≠ some (.dialled supplier)) :
    faults (earlier ++ later) = faults earlier ++ faults later := by
  induction earlier with
  | nil => rfl
  | cons event earlier ih =>
    have hNext : event.fault? (earlier ++ later).head? = event.fault? earlier.head? := by
      cases earlier with
      | cons next earlier => rfl
      | nil => exact event.fault?_eq hLater
    rw [List.cons_append, faults, hNext, ih, faults, List.append_assoc]

section

attribute [local simp] Event.isSettling Event.cause? Event.fault?

theorem causes_eq_nil {more : List Event} (hSettling : ∀ event ∈ more, event.isSettling) :
    causes more = [] := by
  refine List.filterMap_eq_nil_iff.mpr fun event hMem => ?_
  have hEvent := hSettling event hMem
  cases event <;> simp_all

theorem faults_eq_nil {more : List Event} (hSettling : ∀ event ∈ more, event.isSettling) :
    faults more = [] := by
  induction more with
  | nil => rfl
  | cons event more ih =>
    have hEvent := hSettling event List.mem_cons_self
    rw [faults, ih fun event' hMem => hSettling event' (List.mem_cons_of_mem event hMem)]
    cases event <;> simp_all

/-- What has no part in it changes nothing of what is read. -/
theorem faults_append_of_isSettling {more : List Event} (calls : List Event)
    (hSettling : ∀ event ∈ more, event.isSettling) : faults (calls ++ more) = faults calls := by
  rw [faults_append, faults_eq_nil hSettling, List.append_nil]
  intro supplier hHead
  have hEvent := hSettling _ (List.mem_of_mem_head? hHead)
  simp at hEvent

theorem causes_append_of_isSettling {more : List Event} (calls : List Event)
    (hSettling : ∀ event ∈ more, event.isSettling) : causes (calls ++ more) = causes calls := by
  rw [causes_append, causes_eq_nil hSettling, List.append_nil]

/-- A strategy that fails is no reason for an attempt to fail. -/
theorem honest_faults (calls : List Event) (reason : String) :
    RecoveryError.strategy reason ∉ faults calls := by
  induction calls with
  | nil => simp [faults]
  | cons event calls ih =>
    rw [faults, List.mem_append, Option.mem_toList]
    rintro (hFault | hLater)
    · unfold Event.fault? at hFault
      split at hFault
      case h_1 => split at hFault <;> cases hFault
      case h_4 => split at hFault <;> cases hFault
      all_goals cases hFault
    · exact ih hLater

-- ---------------------------------------------------------------------------
-- Attempts
-- ---------------------------------------------------------------------------

variable {token : ByteArray} {attempt : List Event}

/-- An attempt that got as far as waiting for RESUME_OK has not failed by then. -/
theorem Announced.reads (hAnnounced : Announced token attempt) (more : List Event) :
    causes (attempt ++ more) = causes more ∧ faults (attempt ++ more) = faults more ∧
      ∀ supplier, (attempt ++ more).head? ≠ some (.dialled supplier) := by
  obtain ⟨hEncode⟩ := hAnnounced
  exact ⟨rfl, rfl, by simp [connecting]⟩

/-- The calls of an attempt that failed say why. -/
theorem Failed.reads {next : RecoveryError} (hFailed : Failed token next attempt) :
    causes attempt = [] ∧ faults attempt = [next] ∧
      ∀ supplier, attempt.head? ≠ some (.dialled supplier) := by
  cases hFailed with
  | noSupplier | refused => simp [causes, faults]
  | setupClosed hAnnounced => exact hAnnounced.reads [.heard none]
  | @noise _ frame cause cursor hAnnounced hDecode =>
    obtain ⟨hCauses, hFaults, hHead⟩ := hAnnounced.reads [.heard (some frame)]
    refine ⟨hCauses, ?_, hHead⟩
    rw [hFaults]
    simp [faults, hDecode]

end

-- ---------------------------------------------------------------------------
-- Episodes
-- ---------------------------------------------------------------------------

/-- Why the last attempt failed, where the strategy has yet to be told. -/
def Stage.untold : Stage → List RecoveryError
  | .consulting cause => [cause]
  | _ => []

/-- The strategy is told once before what comes next. -/
theorem reads_asking (snapshot : Snapshot) (token : ByteArray) (error : RecoveryError)
    (reply : Except String Duration) (word : List Event) {rest : List Event}
    (hRest : ∀ supplier, rest.head? ≠ some (.dialled supplier)) :
    causes (word ++ asking snapshot token error reply ++ rest) =
        causes word ++ error :: causes rest ∧
      faults (word ++ asking snapshot token error reply ++ rest) = faults word ++ faults rest := by
  constructor
  · rw [causes_append, causes_append, List.append_assoc]
    rfl
  · rw [faults_append _ hRest, faults_append word (by simp [asking]), List.append_assoc]
    rfl

section

variable {snapshot : Snapshot} {token : ByteArray} {cause : LinkError} {error : RecoveryError}
  {word : List Event}

/-- What the strategy is told is what began the episode, and then why each attempt failed. -/
theorem Rounds.causes_eq (hRounds : Rounds snapshot token cause error word) :
    .connection cause :: faults word = causes word ++ [error] := by
  induction hRounds with
  | none => rfl
  | @more error next word reply attempt _ hFailed ih =>
    obtain ⟨hCauses, hFaults, hHead⟩ := hFailed.reads
    obtain ⟨hAsked, hFailures⟩ := reads_asking snapshot token error reply word hHead
    rw [hAsked, hFailures, hCauses, hFaults, ← List.cons_append, ih]

/-- The same for an attempt under way, which has not failed yet. -/
theorem Rounds.causes_attempt {attempt : List Event}
    (hRounds : Rounds snapshot token cause error word) (reply : Except String Duration)
    (hCauses : causes attempt = []) (hFaults : faults attempt = [])
    (hHead : ∀ supplier, attempt.head? ≠ some (.dialled supplier)) :
    .connection cause :: faults (word ++ asking snapshot token error reply ++ attempt) =
      causes (word ++ asking snapshot token error reply ++ attempt) := by
  obtain ⟨hAsked, hFailures⟩ := reads_asking snapshot token error reply word hHead
  rw [hAsked, hFailures, hCauses, hFaults, List.append_nil, hRounds.causes_eq]

/-- The strategy is told why attempts failed, in order and one after the other. -/
theorem Underway.causes_eq {stage : Stage} (hUnder : Underway snapshot token cause stage word) :
    .connection cause :: faults word = causes word ++ stage.untold := by
  cases hUnder with
  | consulting hRounds => exact hRounds.causes_eq
  | @advised error word reply hRounds =>
    rw [faults_append _ (by simp), causes_append]
    show _ :: (faults word ++ []) = causes word ++ [error] ++ []
    rw [List.append_nil, List.append_nil, hRounds.causes_eq]
  | @backingOff error word reply due hRounds =>
    have hSame := hRounds.causes_attempt reply (rfl : causes [] = []) rfl nofun
    rw [List.append_nil] at hSame
    rw [hSame]
    exact (List.append_nil _).symm
  | @dialling error word reply supplier answer hRounds =>
    exact (hRounds.causes_attempt reply rfl rfl (by simp)).trans (List.append_nil _).symm
  | @announcing error word reply supplier channel implied position hRounds =>
    exact (hRounds.causes_attempt reply rfl rfl (by simp [connecting])).trans
      (List.append_nil _).symm
  | @listening error word reply attempt answer hRounds hAnnounced =>
    obtain ⟨hCauses, hFaults, hHead⟩ := hAnnounced.reads []
    rw [List.append_nil] at hCauses hFaults hHead
    exact (hRounds.causes_attempt reply hCauses hFaults hHead).trans (List.append_nil _).symm
  | @reconciling error word reply attempt frame cursor work hRounds hAnnounced hDecode =>
    obtain ⟨hCauses, hFaults, hHead⟩ := hAnnounced.reads
      [.heard (some frame), .reconciling World.unknownPosition work.position]
    have hNone : faults [.heard (some frame),
        .reconciling World.unknownPosition work.position] = [] := by
      simp [faults, Event.fault?, hDecode]
    rw [List.append_assoc]
    exact (hRounds.causes_attempt reply hCauses (hFaults.trans hNone) hHead).trans
      (List.append_nil _).symm

end

end Resumption
