import Muster.Config.Placement
import Muster.Config.Table
import Muster.Event.Queue
import Muster.Grain.Activation
import Muster.Grain.Directory
import Muster.Json.Deployment
import Muster.Json.Fields
import Muster.Json.Member
import Muster.Json.Printer
import Muster.Json.Token
import Muster.Json.Value
import Muster.Member.Edit
import Muster.Member.Entry
import Muster.Member.RowKey
import Muster.Member.Silo
import Muster.Member.Status
import Muster.Net.Endpoint
import Muster.Net.Ip
import Muster.Net.Reader
import Muster.Placement.Director
import Muster.Placement.Service
import Muster.Placement.Strategy
import Muster.Placement.Types
import Muster.Registry.Record
import Muster.Registry.Registry
import Muster.Retry.Policy
import Muster.Retry.Runner
import Muster.Rig.Handle
import Muster.Rig.Lookup
import Muster.Rig.Names
import Muster.Rig.Rival
import Muster.Rig.Routing
import Muster.Rig.State
import Muster.Table.Call
import Muster.Table.Deployment
import Muster.Table.Fault
import Muster.Table.FileName
import Muster.Table.FileTable
import Muster.Table.Files
import Muster.Table.Rows
import Muster.Table.Snapshot
import Muster.Table.Store
import Muster.Table.Version
import Muster.Text.Blank
import Muster.Text.Explained
import Muster.Text.Numeral
import Muster.Time.Calendar
import Muster.Time.Clock
import Muster.Time.Instant
import Muster.Time.Reader
import Muster.Time.Span
import Muster.Time.Work
import Muster.Update.Error
import Muster.Update.Plan
import Muster.Update.Surroundings
import Muster.Update.Updater
import Muster.Proofs.Table.Still
import Muster.Proofs.Table.Stamp
import Muster.Proofs.Table.Supply
import Muster.Proofs.Table.Exclusive
import Muster.Proofs.Table.ReadThenWrite
import Muster.Proofs.Table.Answer
import Muster.Proofs.Update.Conduct
import Muster.Proofs.Update.World
import Muster.Proofs.Update.Account
import Muster.Proofs.Update.Effect
import Muster.Proofs.Update.Growth
import Muster.Proofs.Update.History
import Muster.Proofs.Update.AliveTime
import Muster.Proofs.Update.Alone
import Muster.Proofs.Text.Run
import Muster.Proofs.Net.Address
import Muster.Proofs.Member.RowKey
import Muster.Proofs.Net.Endpoint
import Muster.Proofs.Time.Calendar
import Muster.Proofs.Time.Instant
import Muster.Proofs.Time.Strict
import Muster.Proofs.Json.Tokens
import Muster.Proofs.Json.Scan
import Muster.Proofs.Json.Print
import Muster.Proofs.Json.Document
import Muster.Proofs.Table.Keyed
import Muster.Proofs.Table.FileName
import Muster.Proofs.Table.Files
import Muster.Proofs.Table.Folder
import Muster.Proofs.Table.FileTable
import Muster.Proofs.Table.Mirror
import Muster.Proofs.Table.Backends
import Muster.Proofs.Rig.Handle
import Muster.Proofs.Table.Failure
import Muster.Proofs.Table.Heartbeats
import Muster.Proofs.Table.Twins
import Muster.Proofs.Table.Apart
import Muster.Proofs.Registry.Roll
import Muster.Proofs.Update.Serving
import Muster.Proofs.Registry.Round
import Muster.Proofs.Registry.Errand
import Muster.Proofs.Registry.Lookup
import Muster.Proofs.Registry.Refinement
import Muster.Proofs.Table.Effect
import Muster.Proofs.Update.Footing
import Muster.Proofs.Update.Scene
import Muster.Proofs.Update.Contention
import Muster.Proofs.Update.Simulation
import Muster.Proofs.Update.Chronicle
import Muster.Proofs.Placement.Decision
import Muster.Proofs.Placement.Routing
import Muster.Proofs.Placement.Cluster
import Muster.Proofs.Registry.Columns
import Muster.Proofs.Registry.Listing
import Muster.Proofs.Registry.Job
import Muster.Proofs.Registry.Office
import Muster.Proofs.Registry.Reading
import Muster.Proofs.Registry.Teardown
import Muster.Proofs.Member.Order
import Muster.Proofs.Table.Reads
import Muster.Proofs.Table.Sound
import Muster.Proofs.Table.Accepted
import Muster.Proofs.Retry.Delays
import Muster.Proofs.Update.Encounter
import Muster.Proofs.Update.Pursuit
import Muster.Proofs.Update.Fate
import Muster.Proofs.Update.Story
import Muster.Proofs.Update.Reordering
import Muster.Proofs.Retry.Schedule
import Muster.Proofs.Update.BackOff
import Muster.Proofs.Rig.Deadlines
import Muster.Proofs.Grain.Upkeep
import Muster.Proofs.Grain.Cabinet
import Muster.Proofs.Event.Conservation
import Muster.Proofs.Table.Names
import Muster.Proofs.Update.Restart
import Muster.Proofs.Placement.News
