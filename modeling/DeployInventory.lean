import DeployInventory.Json.Reader
import DeployInventory.Text.WordCharacter
import DeployInventory.Text.CaseFold
import DeployInventory.Record.Wire
import DeployInventory.Variable.Render
import DeployInventory.Plan.Wire
import DeployInventory.NodeKind
import DeployInventory.Lineage
import DeployInventory.EnvironmentQuery
import DeployInventory.VariableList
import DeployInventory.Layers
import DeployInventory.Inventory.Validation
import DeployInventory.Resolution.Deployment
import DeployInventory.Resolution.Plays
import DeployInventory.Pattern.Reader
import DeployInventory.Plan.Order
import DeployInventory.History.Wire
import DeployInventory.Toml.DateTime
import DeployInventory.Toml.Value
import DeployInventory.Toml.Scalar
import DeployInventory.Toml.Token
import DeployInventory.Toml.Reader
import DeployInventory.Document.Statement
import DeployInventory.Loading
import DeployInventory.Location
import DeployInventory.CommandLine.Arguments
import DeployInventory.CommandLine.Command
import DeployInventory.CommandLine.Usage
import DeployInventory.Resolution.Wire
import DeployInventory.CommandLine.Failure
import DeployInventory.CommandLine.Report
import DeployInventory.CommandLine.Run
import DeployInventory.Main
import DeployInventory.Proofs.Exchange
import DeployInventory.Proofs.Lineage.Ancestry
import DeployInventory.Proofs.Lineage.Climb
import DeployInventory.Proofs.Lineage.Frames
import DeployInventory.Proofs.Lineage.Linearization
import DeployInventory.Proofs.AssignmentId.Order
import DeployInventory.Proofs.VariableList.Merge
import DeployInventory.Proofs.VariableList.Log
import DeployInventory.Proofs.Inventory.Routing
import DeployInventory.Proofs.Inventory.Consistent
import DeployInventory.Proofs.Inventory.Replay
import DeployInventory.Proofs.Inventory.Exchange
import DeployInventory.Proofs.Layers.Lookup
import DeployInventory.Proofs.Checked
import DeployInventory.Proofs.Scope.Precedence
import DeployInventory.Proofs.Resolution.Projects
import DeployInventory.Proofs.Plan.Expansion
import DeployInventory.Proofs.Plan.Dependencies
import DeployInventory.Proofs.Plan.Readiness
import DeployInventory.Proofs.Plan.Countdown
import DeployInventory.Proofs.Plan.Order
import DeployInventory.Proofs.Plan.Arrangement
import DeployInventory.Proofs.History.Chain
import DeployInventory.Proofs.History.Run
import DeployInventory.Proofs.History.Batches
import DeployInventory.Proofs.History.Walk
import DeployInventory.Proofs.Inventory.Validity
import DeployInventory.Proofs.Resolution.Failures
import DeployInventory.Proofs.Related
import DeployInventory.Proofs.Inventory.Alike
import DeployInventory.Proofs.Scope.Displaced
import DeployInventory.Proofs.Resolution.Agreement
import DeployInventory.Proofs.Resolution.Tombstones
import DeployInventory.Proofs.Inventory.Invariant
import DeployInventory.Proofs.Lineage.Locality
import DeployInventory.Proofs.Resolution.Isolation
import DeployInventory.Proofs.NameMap
import DeployInventory.Proofs.AssignmentId.Text
import DeployInventory.Proofs.Json.Sorted
import DeployInventory.Proofs.Wire.Field
import DeployInventory.Proofs.Variable.Fields
import DeployInventory.Proofs.Variable.Wire
import DeployInventory.Proofs.Record.Wire
import DeployInventory.Proofs.History.Wire
import DeployInventory.Proofs.Inventory.Places
import DeployInventory.Proofs.Loading
import DeployInventory.Proofs.Document.Variables
import DeployInventory.Proofs.Document.Numbering
import DeployInventory.Proofs.Json.Number
import DeployInventory.Proofs.Json.Text
import DeployInventory.Proofs.History.Content
import DeployInventory.Proofs.EnvironmentQuery
import DeployInventory.Proofs.Resolution.Locality
import DeployInventory.Proofs.Resolution.Deployment
import DeployInventory.Proofs.Lineage.Path
import DeployInventory.Proofs.Lineage.Defects
import DeployInventory.Proofs.History.Integrity
import DeployInventory.Proofs.Inventory.Problems
import DeployInventory.Proofs.Layers.References
import DeployInventory.Proofs.Resolution.SuperPlay
import DeployInventory.Proofs.Resolution.Plays
import DeployInventory.Proofs.Resolution.Playbooks
import DeployInventory.Proofs.Resolution.Hosts
import DeployInventory.Proofs.Resolution.ProjectHosts
import DeployInventory.Proofs.Plan.Cycle
import DeployInventory.Proofs.VariableList.Standing
import DeployInventory.Proofs.Lineage.Culprits
import DeployInventory.Proofs.Inventory.Reports
import DeployInventory.Proofs.Plan.JobOrders
import DeployInventory.Proofs.Offences
import DeployInventory.Proofs.Variable.Acceptance
import DeployInventory.Proofs.VariableList.Outcome
import DeployInventory.Proofs.AssignmentId.Grammar
import DeployInventory.Proofs.Document.Content
import DeployInventory.Proofs.Document.Reordering
import DeployInventory.Proofs.AssignmentId.Families
import DeployInventory.Proofs.VariableList.Regions
import DeployInventory.Proofs.Variable.Sealing
import DeployInventory.Proofs.Location
