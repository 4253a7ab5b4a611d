import ShardRegistry.Admin.Cors
import ShardRegistry.Admin.ErrorResponse
import ShardRegistry.Admin.Router
import ShardRegistry.Admin.View
import ShardRegistry.Authentication
import ShardRegistry.Bootstrap
import ShardRegistry.Concurrency.Gate
import ShardRegistry.Concurrency.Mutex
import ShardRegistry.Connection.Endpoint
import ShardRegistry.Connection.Parameters
import ShardRegistry.DataSource.Changes
import ShardRegistry.DataSource.Reconciliation
import ShardRegistry.Decimal.Binary64
import ShardRegistry.Decimal.Shortest
import ShardRegistry.Dialect
import ShardRegistry.Error
import ShardRegistry.Event
import ShardRegistry.Executor.Basic
import ShardRegistry.Executor.Schedule
import ShardRegistry.Heartbeat
import ShardRegistry.Http.ContentCoding
import ShardRegistry.Http.MediaType
import ShardRegistry.Http.Message
import ShardRegistry.Http.Target
import ShardRegistry.Json.Decode
import ShardRegistry.Json.Document
import ShardRegistry.Json.Numeral
import ShardRegistry.Json.Value
import ShardRegistry.Launch
import ShardRegistry.Main
import ShardRegistry.Map.Ordered
import ShardRegistry.Map.Sorted
import ShardRegistry.MetaData.Basic
import ShardRegistry.MetaData.Decoration
import ShardRegistry.MetaData.Table
import ShardRegistry.Pool.Basic
import ShardRegistry.Pool.Factory
import ShardRegistry.Pool.Server
import ShardRegistry.Property
import ShardRegistry.Registry.Acquisition
import ShardRegistry.Registry.Basic
import ShardRegistry.Registry.Change
import ShardRegistry.Registry.Handle
import ShardRegistry.Resources
import ShardRegistry.Rule.Basic
import ShardRegistry.Rule.Configuration
import ShardRegistry.Rule.DataNode
import ShardRegistry.Run.Schedule
import ShardRegistry.Run.World
import ShardRegistry.Schema.Build
import ShardRegistry.Schema.Context
import ShardRegistry.Settings
import ShardRegistry.Text.Blank
import ShardRegistry.Text.LowerCase
import ShardRegistry.Text.LowerCase.Table
import ShardRegistry.Text.Natural
import ShardRegistry.Text.Percent
import ShardRegistry.Text.Quoted
import ShardRegistry.Text.Quoted.Table
import ShardRegistry.Text.Ranges
import ShardRegistry.Transaction.Kind
import ShardRegistry.Transaction.Manager
import ShardRegistry.Url.Address
import ShardRegistry.Url.Basic
import ShardRegistry.Url.Domain
import ShardRegistry.Url.Path
import ShardRegistry.Url.Read
import ShardRegistry.Proofs.Effects
import ShardRegistry.Proofs.Growth
import ShardRegistry.Proofs.Maps
import ShardRegistry.Proofs.Custody
import ShardRegistry.Proofs.Differences
import ShardRegistry.Proofs.Building
import ShardRegistry.Proofs.Holdings
import ShardRegistry.Proofs.Withholding
import ShardRegistry.Proofs.Publication
import ShardRegistry.Proofs.Handling
import ShardRegistry.Proofs.Ownership
import ShardRegistry.Proofs.Interleaving
import ShardRegistry.Proofs.Tasks
import ShardRegistry.Proofs.Runs
import ShardRegistry.Proofs.Exclusion
import ShardRegistry.Proofs.Supersession
import ShardRegistry.Proofs.Crashes
import ShardRegistry.Proofs.Coherence
import ShardRegistry.Proofs.Histories
import ShardRegistry.Proofs.Parts
import ShardRegistry.Proofs.Consistency
import ShardRegistry.Proofs.Determination
import ShardRegistry.Proofs.Turns
import ShardRegistry.Proofs.Serialization
import ShardRegistry.Proofs.Respect
import ShardRegistry.Proofs.Pins
import ShardRegistry.Proofs.Deliveries
import ShardRegistry.Proofs.Draws
import ShardRegistry.Proofs.Roles
import ShardRegistry.Proofs.Errands
import ShardRegistry.Proofs.Affinity
import ShardRegistry.Proofs.Setups
import ShardRegistry.Proofs.Yields
import ShardRegistry.Proofs.Configuration
import ShardRegistry.Proofs.Sharing
import ShardRegistry.Proofs.References
import ShardRegistry.Proofs.Departures
import ShardRegistry.Proofs.Handles
import ShardRegistry.Proofs.Accounts
import ShardRegistry.Proofs.Managers
import ShardRegistry.Proofs.Leaks
import ShardRegistry.Proofs.Rebuilding
import ShardRegistry.Proofs.Tenure
import ShardRegistry.Proofs.Following
import ShardRegistry.Proofs.Completion
import ShardRegistry.Proofs.Forgetting
import ShardRegistry.Proofs.Survival
import ShardRegistry.Proofs.Lookups
import ShardRegistry.Proofs.Credentials
import ShardRegistry.Proofs.Passwords
import ShardRegistry.Proofs.Sites
import ShardRegistry.Proofs.Masking
import ShardRegistry.Proofs.Upkeep
import ShardRegistry.Proofs.Making
import ShardRegistry.Proofs.Reconciling
import ShardRegistry.Proofs.Provisions
import ShardRegistry.Proofs.Resetting
import ShardRegistry.Proofs.LockTable
import ShardRegistry.Proofs.Rosters
import ShardRegistry.Proofs.Availability
import ShardRegistry.Proofs.Exactness
import ShardRegistry.Proofs.Printing
import ShardRegistry.Proofs.Decoding
import ShardRegistry.Proofs.Documents
import ShardRegistry.Proofs.Marks
import ShardRegistry.Proofs.Decorating
import ShardRegistry.Proofs.Permits
import ShardRegistry.Proofs.Joining
import ShardRegistry.Proofs.Rounds
import ShardRegistry.Proofs.Attempts
import ShardRegistry.Proofs.Undisturbed
import ShardRegistry.Proofs.Arrivals
import ShardRegistry.Proofs.Batches
import ShardRegistry.Proofs.Belongings
import ShardRegistry.Proofs.Repetitions
import ShardRegistry.Proofs.BatchOutcomes
import ShardRegistry.Proofs.Validity
import ShardRegistry.Proofs.Owners
import ShardRegistry.Proofs.Scalars
import ShardRegistry.Proofs.PropertySets
import ShardRegistry.Proofs.Encoding
import ShardRegistry.Proofs.Listing
import ShardRegistry.Proofs.Nodes
import ShardRegistry.Proofs.Uniformity
import ShardRegistry.Proofs.Prepending
import ShardRegistry.Proofs.Layouts
import ShardRegistry.Proofs.Dialects
import ShardRegistry.Proofs.Partition
import ShardRegistry.Proofs.Origins
import ShardRegistry.Proofs.Exceeding
import ShardRegistry.Proofs.Deeds
import ShardRegistry.Proofs.Attendance
import ShardRegistry.Proofs.Heartbeats
