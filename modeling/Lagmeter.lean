import Lagmeter.Group.Party
import Lagmeter.Main
import Lagmeter.Proofs.Blocks.Basic
import Lagmeter.Proofs.Blocks.Compaction
import Lagmeter.Proofs.Blocks.Tiling
import Lagmeter.Proofs.Codec.Frames
import Lagmeter.Proofs.Codec.Utf8
import Lagmeter.Proofs.Crew.Basic
import Lagmeter.Proofs.Crew.Concert
import Lagmeter.Proofs.Crew.Course
import Lagmeter.Proofs.Crew.Lockstep
import Lagmeter.Proofs.Crew.Mirror
import Lagmeter.Proofs.Crew.Net
import Lagmeter.Proofs.Crew.Parts
import Lagmeter.Proofs.Crew.Progress
import Lagmeter.Proofs.Cycle.Agenda
import Lagmeter.Proofs.Cycle.Aggregation
import Lagmeter.Proofs.Cycle.Completion
import Lagmeter.Proofs.Cycle.Crew
import Lagmeter.Proofs.Cycle.Deliveries
import Lagmeter.Proofs.Cycle.Gathering
import Lagmeter.Proofs.Cycle.Order
import Lagmeter.Proofs.Cycle.Report
import Lagmeter.Proofs.Cycle.Survival
import Lagmeter.Proofs.Cycle.Totals
import Lagmeter.Proofs.Cycle.Whole
import Lagmeter.Proofs.Delivery.Counting
import Lagmeter.Proofs.Delivery.Entries
import Lagmeter.Proofs.Exchange.Agreement
import Lagmeter.Proofs.Exchange.Answering
import Lagmeter.Proofs.Exchange.Place
import Lagmeter.Proofs.Experiment.Expedition
import Lagmeter.Proofs.Experiment.Keys
import Lagmeter.Proofs.Experiment.Parts
import Lagmeter.Proofs.Experiment.Stages
import Lagmeter.Proofs.Experiment.Whole
import Lagmeter.Proofs.Feed.Background
import Lagmeter.Proofs.Feed.Basic
import Lagmeter.Proofs.Feed.Board
import Lagmeter.Proofs.Feed.Contents
import Lagmeter.Proofs.Feed.Desk
import Lagmeter.Proofs.Feed.EndToEnd
import Lagmeter.Proofs.Feed.Ledger
import Lagmeter.Proofs.Feed.Moves
import Lagmeter.Proofs.Feed.Notification
import Lagmeter.Proofs.Feed.Press
import Lagmeter.Proofs.Feed.Reading
import Lagmeter.Proofs.Feed.Records
import Lagmeter.Proofs.Feed.Register
import Lagmeter.Proofs.Feed.Rounds
import Lagmeter.Proofs.Feed.Writing
import Lagmeter.Proofs.Files.Logs
import Lagmeter.Proofs.Group.AllOrNothing
import Lagmeter.Proofs.Group.Assembly
import Lagmeter.Proofs.Group.Attendance
import Lagmeter.Proofs.Group.Carrier
import Lagmeter.Proofs.Group.Combining
import Lagmeter.Proofs.Group.Correctness
import Lagmeter.Proofs.Group.Coupling
import Lagmeter.Proofs.Group.Fate
import Lagmeter.Proofs.Group.History
import Lagmeter.Proofs.Group.Lockstep
import Lagmeter.Proofs.Group.Mesh
import Lagmeter.Proofs.Group.Net
import Lagmeter.Proofs.Group.Program
import Lagmeter.Proofs.Group.Progress
import Lagmeter.Proofs.Group.Provenance
import Lagmeter.Proofs.Group.Reference
import Lagmeter.Proofs.Group.Refusals
import Lagmeter.Proofs.Group.Request
import Lagmeter.Proofs.Group.Termination
import Lagmeter.Proofs.Group.Turns
import Lagmeter.Proofs.Report.RoundTrip
import Lagmeter.Proofs.Mesh.Channels
import Lagmeter.Proofs.Node.Accounts
import Lagmeter.Proofs.Node.Retries
import Lagmeter.Proofs.Node.Summary
import Lagmeter.Proofs.Pace.Pacing
import Lagmeter.Proofs.Roles.Structures
import Lagmeter.Proofs.Star.Carrier
import Lagmeter.Proofs.Star.Joining
import Lagmeter.Proofs.Star.Mirror
import Lagmeter.Proofs.Star.Passage
import Lagmeter.Proofs.Star.Reception
import Lagmeter.Proofs.Star.Refinement
import Lagmeter.Proofs.Star.Reports
import Lagmeter.Proofs.Star.Rounds
import Lagmeter.Proofs.Star.Stream
import Lagmeter.Proofs.Star.Visit
import Lagmeter.Proofs.Stats.Percentiles
import Lagmeter.Proofs.Store.Consistency
import Lagmeter.Proofs.Time.Spans
import Lagmeter.Proofs.Watch.Vigil
import Lagmeter.Scene.Script
