/-!
# Error codes

The number that opens the body of an ERROR frame. Codes below `0x100` belong to setup and
resumption, those in the `0x100` range end the whole connection.
-/

namespace Resumption

inductive ErrorCode where
  | invalidSetup
  | unsupportedSetup
  | rejectedSetup
  | rejectedResume
  | connectionError
  | connectionClose
  | applicationError
  | rejected
  | canceled
  | invalid
deriving DecidableEq

namespace ErrorCode

def all : List ErrorCode :=
  [invalidSetup, unsupportedSetup, rejectedSetup, rejectedResume, connectionError,
    connectionClose, applicationError, rejected, canceled, invalid]

def code : ErrorCode → UInt32
  | invalidSetup => 0x001
  | unsupportedSetup => 0x002
  | rejectedSetup => 0x003
  | rejectedResume => 0x004
  | connectionError => 0x101
  | connectionClose => 0x102
  | applicationError => 0x201
  | rejected => 0x202
  | canceled => 0x203
  | invalid => 0x204

def name : ErrorCode → String
  | invalidSetup => "InvalidSetup"
  | unsupportedSetup => "UnsupportedSetup"
  | rejectedSetup => "RejectedSetup"
  | rejectedResume => "RejectedResume"
  | connectionError => "ConnectionError"
  | connectionClose => "ConnectionClose"
  | applicationError => "ApplicationError"
  | rejected => "Rejected"
  | canceled => "Canceled"
  | invalid => "Invalid"

def ofCode? (code : UInt32) : Option ErrorCode :=
  all.find? fun known => known.code = code

end ErrorCode

end Resumption
