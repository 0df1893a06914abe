import ZigbeeHost.Bytes.Lemmas
import ZigbeeHost.Command.Catalogue
import ZigbeeHost.Scenario.Play
import ZigbeeHost.Bench.Stream
import ZigbeeHost.Bench.Timing
import ZigbeeHost.Bench.Completion
import ZigbeeHost.Bench.Handlers
import ZigbeeHost.Main
import ZigbeeHost.Proofs.Bytes.Utf8
import ZigbeeHost.Proofs.Chain
import ZigbeeHost.Proofs.Chain.Runs
import ZigbeeHost.Proofs.Session.Stable
import ZigbeeHost.Proofs.Session.Ledger
import ZigbeeHost.Proofs.Session.Timed
import ZigbeeHost.Proofs.Session.Custody
import ZigbeeHost.Proofs.Session.Answers
import ZigbeeHost.Proofs.Session.Completion
import ZigbeeHost.Proofs.Session.Correlation
import ZigbeeHost.Proofs.Session.Listeners
import ZigbeeHost.Proofs.Session.Pairing
import ZigbeeHost.Proofs.Session.Splicing
import ZigbeeHost.Proofs.Session.Teardown
import ZigbeeHost.Proofs.Session.Deferral
import ZigbeeHost.Proofs.Session.Confirmation
import ZigbeeHost.Proofs.Session.Leftovers
import ZigbeeHost.Proofs.Session.Course
import ZigbeeHost.Proofs.Session.Rollcall
import ZigbeeHost.Proofs.Timers
import ZigbeeHost.Proofs.Bench
import ZigbeeHost.Proofs.Session.Served
import ZigbeeHost.Proofs.Payload.Catalogue
import ZigbeeHost.Proofs.Request.Carriage
import ZigbeeHost.Proofs.Request.Conventions
import ZigbeeHost.Proofs.Request.Stored
import ZigbeeHost.Proofs.Serial.Fragmentation
import ZigbeeHost.Proofs.Link.Writing
import ZigbeeHost.Proofs.Link.Teardown
import ZigbeeHost.Proofs.Serial.Damage
import ZigbeeHost.Proofs.Serial.Grammar
import ZigbeeHost.Proofs.Serial.Resync
import ZigbeeHost.Proofs.Serial.Storage
import ZigbeeHost.Proofs.Link.Containment
import ZigbeeHost.Proofs.Session.Resets
import ZigbeeHost.Proofs.Session.Confirmees
import ZigbeeHost.Proofs.Session.Credits
import ZigbeeHost.Proofs.Session.Databook
import ZigbeeHost.Proofs.Session.Transactions
import ZigbeeHost.Proofs.Session.Sought
import ZigbeeHost.Proofs.BringUp
import ZigbeeHost.Proofs.Session.Nesting
import ZigbeeHost.Proofs.Session.Deadlines
import ZigbeeHost.Proofs.Config.Load
