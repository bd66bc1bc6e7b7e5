import Roadmap.Findings
import Roadmap.Json.Schedule
import Roadmap.Storage.FileTree
import Roadmap.Workspace.Import
import Roadmap.Proofs.Entries
import Roadmap.Proofs.Decimal.Bits
import Roadmap.Proofs.Decimal.Plain
import Roadmap.Proofs.Decimal.Order
import Roadmap.Proofs.Plan.Canonical
import Roadmap.Proofs.Plan.RoundTrip
import Roadmap.Proofs.Plan.Grammar
import Roadmap.Proofs.Plan.Pattern
import Roadmap.Proofs.Plan.Joining
import Roadmap.Proofs.Header.Filled
import Roadmap.Proofs.Header.RoundTrip
import Roadmap.Proofs.Header.Reading
import Roadmap.Proofs.Json.Quoted
import Roadmap.Proofs.Json.RoundTrip
import Roadmap.Proofs.Json.Record
import Roadmap.Proofs.Json.Workspace
import Roadmap.Proofs.Calendar.Text
import Roadmap.Proofs.Calendar.Token
import Roadmap.Proofs.Calendar.Order
import Roadmap.Proofs.Calendar.Shift
import Roadmap.Proofs.Calendar.Spelling
import Roadmap.Proofs.Calendar.Granularity
import Roadmap.Proofs.Schedule.Chaining
import Roadmap.Proofs.Schedule.Window
import Roadmap.Proofs.Schedule.Axis
import Roadmap.Proofs.Schedule.Padding
import Roadmap.Proofs.Schedule.Workload
import Roadmap.Proofs.Schedule.Overload
import Roadmap.Proofs.Schedule.Bars
import Roadmap.Proofs.Schedule.Findings
import Roadmap.Proofs.Schedule.Tally
import Roadmap.Proofs.Schedule.Persons
import Roadmap.Proofs.Schedule.Rows
import Roadmap.Proofs.Schedule.Reordering
import Roadmap.Proofs.Schedule.Spacing
import Roadmap.Proofs.Workspace.Identity
import Roadmap.Proofs.Workspace.Timestamp
import Roadmap.Proofs.Workspace.EditLoop
import Roadmap.Proofs.Workspace.Current
import Roadmap.Proofs.Workspace.Sharing
import Roadmap.Proofs.Workspace.Import
import Roadmap.Proofs.Workspace.Frame
import Roadmap.Proofs.Workspace.Views
import Roadmap.Proofs.Workspace.Naming
import Roadmap.Proofs.Storage.Migration
import Roadmap.Proofs.Storage.Reload
import Roadmap.Proofs.Storage.FileTree
import Roadmap.Proofs.Storage.Reading
import Roadmap.Proofs.Storage.Saving
import Roadmap.Proofs.Storage.Simulation
import Roadmap.Proofs.Storage.Interchange
