import Countersign.Bytes.Base64
import Countersign.Text.Blank
import Countersign.Text.Utf8
import Countersign.Text.Numeral
import Countersign.Sponge.Hash
import Countersign.Lattice.Signing
import Countersign.Json.Record
import Countersign.Json.Tagged
import Countersign.Numeric.Binary64
import Countersign.Intent.Domain
import Countersign.Intent.Request
import Countersign.Disk.Replace
import Countersign.Moment
import Countersign.Key.Text
import Countersign.Key.Scheme
import Countersign.Cbor.Reader
import Countersign.Envelope.Issue
import Countersign.Envelope.Output
import Countersign.Envelope.Inbox
import Countersign.Setup.Roster
import Countersign.Setup.Settings
import Countersign.Journal.Handle
import Countersign.Quorum
import Countersign.Intent.DigestJson
import Countersign.Proofs.Except
import Countersign.Proofs.Text.Trim
import Countersign.Proofs.Bytes.Hex
import Countersign.Proofs.Text.Digits
import Countersign.Proofs.Intent.DigestText
import Countersign.Proofs.Setup.Roster
import Countersign.Proofs.Setup.Admission
import Countersign.Proofs.Setup.Naming
import Countersign.Proofs.Tally.Counting
import Countersign.Proofs.Text.Utf8
import Countersign.Proofs.Text.Numeral
import Countersign.Proofs.Text.Order
import Countersign.Proofs.Json.Quotation
import Countersign.Proofs.Json.Spelling
import Countersign.Proofs.Json.RoundTrip
import Countersign.Proofs.Json.Entry
import Countersign.Proofs.Json.Line
import Countersign.Proofs.Moment
import Countersign.Proofs.Journal.Entries
import Countersign.Proofs.Journal.Document
import Countersign.Proofs.Disk.Growth
import Countersign.Proofs.Disk.Walk
import Countersign.Proofs.Disk.Paths
import Countersign.Proofs.Disk.Housing
import Countersign.Proofs.Disk.Replace
import Countersign.Proofs.Disk.Retaining
import Countersign.Proofs.Journal.Holding
import Countersign.Proofs.Journal.Adding
import Countersign.Proofs.Journal.Sharing
import Countersign.Proofs.Journal.Damage
import Countersign.Proofs.Setup.Settings
import Countersign.Proofs.Trail.Delivery
import Countersign.Proofs.Trail.Telling
import Countersign.Proofs.Quorum.Telling
import Countersign.Proofs.Quorum.Rounds
import Countersign.Proofs.Quorum.Sessions
import Countersign.Proofs.Bytes.Word
import Countersign.Proofs.Intent.Preimage
import Countersign.Proofs.Tally.Binding
import Countersign.Proofs.Disk.Directory
import Countersign.Proofs.Disk.Replaceable
import Countersign.Proofs.Intent.Modes
import Countersign.Proofs.Journal.Leftover
import Countersign.Proofs.Journal.Table
import Countersign.Proofs.Journal.Crash
import Countersign.Proofs.Journal.Access
import Countersign.Proofs.Journal.Failure
import Countersign.Proofs.Cbor.Head
import Countersign.Proofs.Cbor.RoundTrip
import Countersign.Proofs.Envelope.Binary
import Countersign.Proofs.Json.Progress
import Countersign.Proofs.Json.Record
import Countersign.Proofs.Json.Number
import Countersign.Proofs.Key.Text
import Countersign.Proofs.Envelope.Textual
import Countersign.Proofs.Envelope.Agreement
import Countersign.Proofs.Envelope.Formats
import Countersign.Proofs.Intent.Calldata
import Countersign.Proofs.Intent.Request
import Countersign.Proofs.Intent.Amount
import Countersign.Proofs.Intent.Grammar
import Countersign.Proofs.Quorum.Calls
import Countersign.Proofs.Quorum.Trails
import Countersign.Proofs.Envelope.Inbox
import Countersign.Proofs.Envelope.Collection
import Countersign.Proofs.Envelope.Issue
import Countersign.Proofs.Tally.Honest
import Countersign.Proofs.Key.Packing
import Countersign.Proofs.Key.Weak
import Countersign.Proofs.Key.Zeros
import Countersign.Proofs.Quorum.Files
import Countersign.Proofs.Key.Scheme
import Countersign.Proofs.Quorum.Functions
import Countersign.Proofs.Tally.Outcome
import Countersign.Proofs.Tally.Account
import Countersign.Proofs.Envelope.Order
import Countersign.Proofs.Tally.Order
import Countersign.Proofs.Cbor.Reading
import Countersign.Proofs.Json.Continuation
import Countersign.Proofs.Envelope.Extent
import Countersign.Proofs.Cbor.Rearrangement
import Countersign.Proofs.Envelope.Rearrangement
import Countersign.Proofs.Envelope.Shape
import Countersign.Proofs.Journal.Naming
import Countersign.Proofs.Bytes.Base64
import Countersign.Proofs.Key.Notation
import Countersign.Proofs.Envelope.Output
import Countersign.Proofs.Trail.Context
import Countersign.Proofs.Trail.Entry
import Countersign.Proofs.Trail.Lines
