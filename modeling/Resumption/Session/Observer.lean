import Resumption.Session.Status

/-!
# Observers of a session

An observer is told every status the session enters. It may put another observer in its place while
it is being told; that one is told the same status at once, before it takes the place. Nothing else
is done with the session from within an observer.

* `Observer.told` — who hears of a status, in order
* `Observer.successor` — who is in place afterwards
-/

namespace Resumption

inductive Observer where
  | lasting (name : String)
  /-- Installs `next` whenever it is told the status `cue`. -/
  | yielding (name : String) (cue : Status) (next : Observer)
deriving DecidableEq

namespace Observer

def told (status : Status) : Observer → List String
  | lasting name => [name]
  | yielding name cue next => name :: if cue = status then next.told status else []

def successor (status : Status) : Observer → Observer
  | lasting name => lasting name
  | yielding name cue next => if cue = status then next else yielding name cue next

end Observer

end Resumption
