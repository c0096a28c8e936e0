import Resumption.Duration
import Resumption.Frame.Resume
import Resumption.Token.Pool

/-!
# A table of holders

Shares of resume tokens in numbered slots. A slot holds a plain share, or a RESUME frame with a
share of its own, or nothing any more.

* `Holdings.Request` — one thing a holder can do
* `Holdings.answer` — its answer and the table afterwards
-/

namespace Resumption

inductive Holding where
  | share (token : Token.Id)
  | frame (token : Token.Id) (implied position : UInt64)
  | released

def Holding.token? : Holding → Option Token.Id
  | .share token => some token
  | .frame token _ _ => some token
  | .released => none

/-- What a strategy is told about the session: how long it can be resumed, and its token. Looking
at a token takes no share. -/
structure Snapshot where
  duration : Duration
  token : Token.Id
deriving DecidableEq

structure Holdings where
  pool : Pool
  slots : List Holding

namespace Holdings

def empty : Holdings := ⟨.empty, []⟩

def token? (h : Holdings) (slot : Nat) : Option Token.Id :=
  h.slots[slot]?.bind Holding.token?

/-- The share count of each slot's token. -/
def counts (h : Holdings) : List (Option Nat) :=
  h.slots.map fun holding => holding.token?.map h.pool.shares

def put (h : Holdings) (pool : Pool) (holding : Holding) : Holdings :=
  ⟨pool, h.slots ++ [holding]⟩

inductive Request where
  | mint (bytes : ByteArray)
  | share (slot : Nat)
  | frame (slot : Nat) (implied position : UInt64)
  | encode (slot : Nat)
  | release (slot : Nat)
  | same (slot other : Nat)
  | describe (slot : Nat)
  | snapshot (slot : Nat) (duration : Duration)

inductive Answer where
  | done
  | flag (value : Bool)
  /-- A frame as it is sent, and the share count meanwhile. -/
  | encoded (frame : Except EncodeError Segments) (shares : Nat)
  | bytes (value : ByteArray)
  | snapshot (value : Snapshot) (bytes : ByteArray) (shares : Nat)

/-- No answer, and no change, where a slot is empty or does not hold what is asked for. -/
def answer (h : Holdings) : Request → Option (Answer × Holdings)
  | .mint bytes => some (.done, h.put (h.pool.mint bytes) (.share h.pool.next))
  | .share slot => do
    let token ← h.token? slot
    return (.done, h.put (h.pool.retain token) (.share token))
  | .frame slot implied position => do
    let token ← h.token? slot
    return (.done, h.put (h.pool.retain token) (.frame token implied position))
  | .encode slot =>
    match h.slots[slot]? with
    | some (.frame token implied position) =>
      let frame : Resume := { token := h.pool.bytes token, implied, position }
      some (.encoded frame.encode (h.pool.shares token), h)
    | _ => none
  | .release slot => do
    let token ← h.token? slot
    return (.done, ⟨h.pool.release token, h.slots.set slot .released⟩)
  | .same slot other => do
    let token ← h.token? slot
    let token' ← h.token? other
    return (.flag (h.pool.bytes token == h.pool.bytes token'), h)
  | .describe slot => do
    let token ← h.token? slot
    return (.bytes (h.pool.bytes token), h)
  | .snapshot slot duration => do
    let token ← h.token? slot
    return (.snapshot ⟨duration, token⟩ (h.pool.bytes token) (h.pool.shares token), h)

end Holdings

end Resumption
