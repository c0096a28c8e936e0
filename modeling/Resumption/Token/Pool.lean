/-!
# Resume tokens and their shares

A resume token is an opaque byte string with one or more holders. The pool keeps, for each token,
how many shares of it are alive; nothing but taking and giving back a share changes that count.

* `Pool.mint` — a new token, of which the caller holds the only share
* `Pool.retain`, `Pool.release` — one share more, one share less
* `Pool.shares`, `Pool.bytes` — what a holder can ask
-/

namespace Resumption

structure Token where
  bytes : ByteArray
  shares : Nat

/-- Tokens are named by the order in which they were minted. -/
abbrev Token.Id := Nat

structure Pool where
  tokens : List Token

namespace Pool

def empty : Pool := ⟨[]⟩

def mint (p : Pool) (bytes : ByteArray) : Pool :=
  ⟨p.tokens ++ [⟨bytes, 1⟩]⟩

/-- The token that `mint` adds. -/
def next (p : Pool) : Token.Id :=
  p.tokens.length

def ofList (tokens : List ByteArray) : Pool :=
  tokens.foldl mint empty

def retain (p : Pool) (id : Token.Id) : Pool :=
  ⟨p.tokens.modify id fun token => { token with shares := token.shares + 1 }⟩

def release (p : Pool) (id : Token.Id) : Pool :=
  ⟨p.tokens.modify id fun token => { token with shares := token.shares - 1 }⟩

def shares (p : Pool) (id : Token.Id) : Nat :=
  (p.tokens[id]?.map Token.shares).getD 0

def bytes (p : Pool) (id : Token.Id) : ByteArray :=
  (p.tokens[id]?.map Token.bytes).getD ByteArray.empty

/-- The share counts of all tokens. -/
def counts (p : Pool) : List Nat :=
  p.tokens.map Token.shares

end Pool

end Resumption
