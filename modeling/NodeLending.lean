import NodeLending.Text.Blank
import NodeLending.Text.Numeral
import NodeLending.Keyed
import NodeLending.Name
import NodeLending.Reservation.Id
import NodeLending.Label.Parse
import NodeLending.Json.Value
import NodeLending.Json.Decode
import NodeLending.Digest.Sha256
import NodeLending.Text.Utf8
import NodeLending.Text.Hex
import NodeLending.Namespace
import NodeLending.Message
import NodeLending.Node.Definition
import NodeLending.Removal
import NodeLending.ChangePlan
import NodeLending.Ledger
import NodeLending.Toml.Token
import NodeLending.Toml.Value
import NodeLending.Toml.Decode
import NodeLending.Text.Split
import NodeLending.Address.Socket
import NodeLending.Url.Parse
import NodeLending.Repository.Draft
import NodeLending.Repository.Clone
import NodeLending.Settings.Orchestrator
import NodeLending.Settings.Party
import NodeLending.Api.Problem
import NodeLending.Client.Reporter
import NodeLending.Engine.Fault
import NodeLending.Pass.Run
import NodeLending.Reservation.Matching
import NodeLending.Api.Respond
import NodeLending.Deployment.Event
import NodeLending.Proofs.Decode.Reading
import NodeLending.Proofs.Dialogue.Ensures
import NodeLending.Proofs.Engine.Transition
import NodeLending.Proofs.Reservation.Stage
import NodeLending.Proofs.Reservation.Seating
import NodeLending.Proofs.Deployment.Act
import NodeLending.Proofs.Pass.Calls
import NodeLending.Proofs.Reservation.Occupancy
import NodeLending.Proofs.Engine.Roster
import NodeLending.Proofs.Engine.Breakdown
import NodeLending.Proofs.Pass.Plan
import NodeLending.Proofs.Pass.Sweep
import NodeLending.Proofs.Pass.Settled
import NodeLending.Proofs.Pool.Service
import NodeLending.Proofs.Pool.Mirror
import NodeLending.Proofs.Pass.Course
import NodeLending.Proofs.Pass.Race
import NodeLending.Proofs.Pass.Isolation
import NodeLending.Proofs.Pool.Stray
import NodeLending.Proofs.Reservation.Draining
import NodeLending.Proofs.Deployment.Proceed
import NodeLending.Proofs.Deployment.Serial
import NodeLending.Proofs.Pool.Status
import NodeLending.Proofs.Pass.Dismissal
import NodeLending.Proofs.Pass.Again
import NodeLending.Proofs.Engine.Movement
import NodeLending.Proofs.Deployment.Incarnation
import NodeLending.Proofs.Api.Path
import NodeLending.Proofs.Api.Gate
import NodeLending.Proofs.Json.Tokens
import NodeLending.Proofs.Json.Outlines
import NodeLending.Proofs.Json.Records
import NodeLending.Proofs.Json.Messages
import NodeLending.Proofs.Json.Source
import NodeLending.Proofs.Json.RoundTrip
import NodeLending.Proofs.Client.Network
import NodeLending.Proofs.Client.Agreement
import NodeLending.Proofs.Label.Lexing
import NodeLending.Proofs.Label.Grammar
import NodeLending.Proofs.Label.Atom
import NodeLending.Proofs.Label.Print
import NodeLending.Proofs.Reservation.Advertised
import NodeLending.Proofs.Reservation.Lifecycle
import NodeLending.Proofs.Reservation.Completion
import NodeLending.Proofs.Reservation.Unserved
import NodeLending.Proofs.Reservation.Fairness
import NodeLending.Proofs.Repository.Renaming
import NodeLending.Proofs.Repository.Validation
import NodeLending.Proofs.Pass.Renaming
import NodeLending.Proofs.Pass.Reference
import NodeLending.Proofs.Deployment.Traffic
import NodeLending.Proofs.Ledger.Summary
import NodeLending.Proofs.Api.Reports
import NodeLending.Proofs.Label.Rejection
import NodeLending.Proofs.ChangePlan.Edits
import NodeLending.Proofs.Pass.Account
import NodeLending.Proofs.Reservation.Pruning
import NodeLending.Proofs.Text.Cutting
import NodeLending.Proofs.Repository.WorkingCopy
import NodeLending.Proofs.Client.Call
import NodeLending.Proofs.Client.Reporting
import NodeLending.Proofs.Url.Ending
import NodeLending.Proofs.Party.Endpoint
import NodeLending.Proofs.Json.Canonical
import NodeLending.Proofs.Text.Trimming
import NodeLending.Proofs.Repository.PropertyLines
import NodeLending.Proofs.Url.Segments
import NodeLending.Proofs.Namespace.Segment
