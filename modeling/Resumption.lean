import Resumption.Duration
import Resumption.Frame.Body
import Resumption.Frame.Cursor
import Resumption.Frame.ErrorCode
import Resumption.Frame.Failure
import Resumption.Frame.Fault
import Resumption.Frame.Header
import Resumption.Frame.Inspect
import Resumption.Frame.Kind
import Resumption.Frame.Resume
import Resumption.Frame.ResumeOk
import Resumption.Octets.BigEndian
import Resumption.Octets.Segments
import Resumption.Session.Calls
import Resumption.Session.Collaborators
import Resumption.Session.Config
import Resumption.Session.Fault
import Resumption.Session.Journal
import Resumption.Session.Observer
import Resumption.Session.Recovery
import Resumption.Session.Run
import Resumption.Session.Scenario
import Resumption.Session.Status
import Resumption.Session.World
import Resumption.Strategy
import Resumption.Text.Hex
import Resumption.Text.Utf8
import Resumption.Token.Holdings
import Resumption.Token.Pool
import Resumption.Proofs.Wire
import Resumption.Proofs.Bodies
import Resumption.Proofs.Elementary
import Resumption.Proofs.Change
import Resumption.Proofs.Views
import Resumption.Proofs.Indifference
import Resumption.Proofs.Disposal
import Resumption.Proofs.Shares
import Resumption.Proofs.Chapters
import Resumption.Proofs.Tales
import Resumption.Proofs.Episodes
import Resumption.Proofs.ErrorStream
import Resumption.Proofs.Holders
import Resumption.Proofs.Statuses
import Resumption.Proofs.Deadlines
import Resumption.Proofs.Patience
import Resumption.Proofs.Deafness
import Resumption.Proofs.Closing
import Resumption.Proofs.Finality
import Resumption.Proofs.Outcomes
import Resumption.Proofs.Interference
import Resumption.Proofs.Division
import Resumption.Proofs.Verdicts
import Resumption.Proofs.Handshake
import Resumption.Proofs.Seamless
import Resumption.Proofs.SendResults
import Resumption.Proofs.Failures
import Resumption.Proofs.Resumptions
import Resumption.Proofs.Credentials
import Resumption.Proofs.Accounts
import Resumption.Proofs.Faults
import Resumption.Proofs.Questions
import Resumption.Proofs.Ledger
import Resumption.Proofs.Counsel
import Resumption.Proofs.Rhythm
import Resumption.Proofs.Pacing
import Resumption.Proofs.Backoff
import Resumption.Proofs.Suppliers
import Resumption.Proofs.Timetable
import Resumption.Proofs.Headers
import Resumption.Proofs.Looks
import Resumption.Proofs.Shortfalls
import Resumption.Proofs.Bounds
import Resumption.Proofs.Lengths
