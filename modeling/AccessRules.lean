import AccessRules.Calendar.Date
import AccessRules.Calendar.Duration
import AccessRules.Calendar.Moment
import AccessRules.Calendar.Reading
import AccessRules.Calendar.Stored
import AccessRules.Command.Display
import AccessRules.Command.Invocation
import AccessRules.Command.Session
import AccessRules.Command.Tasks
import AccessRules.Command.Words
import AccessRules.Directory.Basic
import AccessRules.Directory.Lookup
import AccessRules.Document.Access
import AccessRules.Document.Json
import AccessRules.Document.JsonReader
import AccessRules.Document.Misuse
import AccessRules.Document.Shown
import AccessRules.Document.Value
import AccessRules.Document.Yaml.Cursor
import AccessRules.Document.Yaml.Lexer
import AccessRules.Document.Yaml.Node
import AccessRules.Document.Yaml.Reader
import AccessRules.Document.Yaml.Scalar
import AccessRules.Document.Yaml.ScalarText
import AccessRules.Document.Yaml.Token
import AccessRules.Endpoint.Basic
import AccessRules.Endpoint.Matching
import AccessRules.Endpoint.Name
import AccessRules.Endpoint.Network
import AccessRules.Endpoint.Port
import AccessRules.Endpoint.Validity
import AccessRules.Engine.Basic
import AccessRules.Engine.Registry
import AccessRules.Engine.Stamper
import AccessRules.Fault
import AccessRules.Fault.Naming
import AccessRules.Http.Address
import AccessRules.Http.Exchange
import AccessRules.Lock.KeepAlive
import AccessRules.Lock.Record
import AccessRules.Lock.Table
import AccessRules.Logging
import AccessRules.Main
import AccessRules.Metrics.Buckets
import AccessRules.Number.Binary64
import AccessRules.Number.Decimal
import AccessRules.Number.Shortest
import AccessRules.Pass.Basic
import AccessRules.Pass.Periodic
import AccessRules.Pass.Result
import AccessRules.Pass.Site
import AccessRules.Proofs.Calendar.DayNumber
import AccessRules.Proofs.Calendar.TextOrder
import AccessRules.Proofs.Calendar.TimeGrammar
import AccessRules.Proofs.Calendar.TimeText
import AccessRules.Proofs.Directory.Asking
import AccessRules.Proofs.Directory.Choosing
import AccessRules.Proofs.Directory.Composing
import AccessRules.Proofs.Directory.Failing
import AccessRules.Proofs.Directory.Lasting
import AccessRules.Proofs.Directory.Remembering
import AccessRules.Proofs.Directory.Topic
import AccessRules.Proofs.Directory.Transparency
import AccessRules.Proofs.Document.Agreement
import AccessRules.Proofs.Document.JsonParts
import AccessRules.Proofs.Document.JsonText
import AccessRules.Proofs.Document.Members
import AccessRules.Proofs.Document.Paths
import AccessRules.Proofs.Document.Records
import AccessRules.Proofs.Document.SortedText
import AccessRules.Proofs.Endpoint.Canonical
import AccessRules.Proofs.Endpoint.Filtering
import AccessRules.Proofs.Endpoint.LargeNetworks
import AccessRules.Proofs.Endpoint.NameGrammar
import AccessRules.Proofs.Endpoint.NameText
import AccessRules.Proofs.Endpoint.NetworkText
import AccessRules.Proofs.Endpoint.PortSets
import AccessRules.Proofs.Endpoint.ReadBack
import AccessRules.Proofs.Endpoint.Separation
import AccessRules.Proofs.Endpoint.Validity
import AccessRules.Proofs.Engine.Cooldown
import AccessRules.Proofs.Engine.Reconcile
import AccessRules.Proofs.Engine.StampPass
import AccessRules.Proofs.Engine.StampRun
import AccessRules.Proofs.Engine.Trigger
import AccessRules.Proofs.Fallible
import AccessRules.Proofs.Lock.Exclusion
import AccessRules.Proofs.Lock.History
import AccessRules.Proofs.Lock.Listing
import AccessRules.Proofs.Lock.Operations
import AccessRules.Proofs.Lock.Release
import AccessRules.Proofs.Lock.Representation
import AccessRules.Proofs.Lock.RetryHint
import AccessRules.Proofs.Lock.Run
import AccessRules.Proofs.Lock.Seen
import AccessRules.Proofs.Lock.SignsOfLife
import AccessRules.Proofs.Lock.Soundness
import AccessRules.Proofs.Pass.Dealing
import AccessRules.Proofs.Pass.Interleaving
import AccessRules.Proofs.Pass.Removal
import AccessRules.Proofs.Pass.RemovedOnce
import AccessRules.Proofs.Pass.Schedule
import AccessRules.Proofs.Pass.Sight
import AccessRules.Proofs.Pass.Steps
import AccessRules.Proofs.Pass.Stopping
import AccessRules.Proofs.Resolution.Accepted
import AccessRules.Proofs.Resolution.Composing
import AccessRules.Proofs.Resolution.Failing
import AccessRules.Proofs.Resolution.Remembering
import AccessRules.Proofs.Resolution.Transparency
import AccessRules.Proofs.Resource.LastMinute
import AccessRules.Proofs.Resource.LeastPatch
import AccessRules.Proofs.Resource.MergePatch
import AccessRules.Proofs.Resource.PatchEffect
import AccessRules.Proofs.Resource.StampOrder
import AccessRules.Proofs.Resource.StampTimes
import AccessRules.Proofs.Resource.Stamping
import AccessRules.Proofs.Rule.CleanNames
import AccessRules.Proofs.Rule.Deletion
import AccessRules.Proofs.Rule.Finding
import AccessRules.Proofs.Rule.Identifiers
import AccessRules.Proofs.Rule.Likeness
import AccessRules.Proofs.Rule.ReadBack
import AccessRules.Proofs.Rule.Refinement
import AccessRules.Proofs.Rule.Removing
import AccessRules.Proofs.Rule.Selecting
import AccessRules.Proofs.Rule.Storing
import AccessRules.Proofs.Rule.Uniqueness
import AccessRules.Proofs.Rule.Validity
import AccessRules.Proofs.Settings.Layering
import AccessRules.Proofs.Settings.Leaves
import AccessRules.Proofs.Settings.Reach
import AccessRules.Proofs.Text.Numerals
import AccessRules.Proofs.Text.Splitting
import AccessRules.Resolution.Access
import AccessRules.Resolution.Cache
import AccessRules.Resolution.Question
import AccessRules.Resolution.Target
import AccessRules.Resource.Call
import AccessRules.Resource.Collection
import AccessRules.Resource.MergePatch
import AccessRules.Resource.Stamp
import AccessRules.Resource.Stamping
import AccessRules.Rule.Basic
import AccessRules.Rule.Listing
import AccessRules.Rule.Table
import AccessRules.Schema.Check
import AccessRules.Schema.Record
import AccessRules.Schema.Scalars
import AccessRules.Settings.Basic
import AccessRules.Settings.Overrides
import AccessRules.Settings.Times
import AccessRules.Storage.Archive
import AccessRules.Storage.Database
import AccessRules.Storage.Folder
import AccessRules.Storage.Identifier
import AccessRules.Storage.Rules
import AccessRules.Text.Digits
import AccessRules.Text.Markup
import AccessRules.Text.Quoted
import AccessRules.Text.Split
import AccessRules.Text.Unprintable
