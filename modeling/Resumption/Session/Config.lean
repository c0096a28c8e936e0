import Resumption.Strategy

/-!
# Configuration

How long a session can be resumed, and which strategy an episode starts with.
-/

namespace Resumption

structure Config where
  /-- The longest time an episode may take. -/
  duration : Duration
  /-- The strategy made for the episode of that number. -/
  strategy : Nat → Strategy

namespace Config

def defaultDuration : Duration := .ofSeconds 120

def defaultFirst : Duration := .ofSeconds 1

def defaultLimit : Duration := .ofSeconds 16

def defaultFactor : UInt32 := 2

def standard : Config where
  duration := defaultDuration
  strategy := fun _ => .exponentialFrom defaultFirst defaultLimit defaultFactor

/-! ## Text -/

def text (c : Config) : String :=
  "ResumeConfig \x7b session_duration: " ++ c.duration.text ++ ", .. \x7d"

/-- The same on several lines. -/
def longText (c : Config) : String :=
  "ResumeConfig \x7b\n    session_duration: " ++ c.duration.text ++ ",\n    ..\n\x7d"

end Config

end Resumption
