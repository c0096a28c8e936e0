/-!
# Frame kinds

The six bits of a frame header that say what the frame is for.
-/

namespace Resumption

inductive Kind where
  | reserved
  | setup
  | lease
  | keepalive
  | requestResponse
  | requestFnf
  | requestStream
  | requestChannel
  | requestN
  | cancel
  | payload
  | error
  | metadataPush
  | resume
  | resumeOk
  | ext
deriving DecidableEq

namespace Kind

def all : List Kind :=
  [reserved, setup, lease, keepalive, requestResponse, requestFnf, requestStream, requestChannel,
    requestN, cancel, payload, error, metadataPush, resume, resumeOk, ext]

def code : Kind → UInt8
  | reserved => 0x00
  | setup => 0x01
  | lease => 0x02
  | keepalive => 0x03
  | requestResponse => 0x04
  | requestFnf => 0x05
  | requestStream => 0x06
  | requestChannel => 0x07
  | requestN => 0x08
  | cancel => 0x09
  | payload => 0x0A
  | error => 0x0B
  | metadataPush => 0x0C
  | resume => 0x0D
  | resumeOk => 0x0E
  | ext => 0x3F

def name : Kind → String
  | reserved => "Reserved"
  | setup => "Setup"
  | lease => "Lease"
  | keepalive => "Keepalive"
  | requestResponse => "RequestResponse"
  | requestFnf => "RequestFnf"
  | requestStream => "RequestStream"
  | requestChannel => "RequestChannel"
  | requestN => "RequestN"
  | cancel => "Cancel"
  | payload => "Payload"
  | error => "Error"
  | metadataPush => "MetadataPush"
  | resume => "Resume"
  | resumeOk => "ResumeOk"
  | ext => "Ext"

def ofCode? (code : UInt8) : Option Kind :=
  all.find? fun kind => kind.code = code

end Kind

end Resumption
