import BrokerAdmin.Client
import BrokerAdmin.Config.Environment
import BrokerAdmin.Config.Layers
import BrokerAdmin.Config.Load
import BrokerAdmin.Config.Loose
import BrokerAdmin.Config.Settings
import BrokerAdmin.Config.Strict
import BrokerAdmin.Config.Template
import BrokerAdmin.Decimal.Binary64
import BrokerAdmin.Decimal.Numeral
import BrokerAdmin.Decimal.Shortest
import BrokerAdmin.Layered.Convert
import BrokerAdmin.Layered.Path
import BrokerAdmin.Layered.Tree
import BrokerAdmin.Log
import BrokerAdmin.Logger
import BrokerAdmin.Metrics.Counters
import BrokerAdmin.Metrics.Table
import BrokerAdmin.Page
import BrokerAdmin.Persistence
import BrokerAdmin.Proofs.Config.Layers
import BrokerAdmin.Proofs.Config.Loading
import BrokerAdmin.Proofs.Config.Placeholders
import BrokerAdmin.Proofs.Config.Spelling
import BrokerAdmin.Proofs.Decimal.Digits
import BrokerAdmin.Proofs.Decimal.Rounding
import BrokerAdmin.Proofs.Decimal.Shortest
import BrokerAdmin.Proofs.Layered.Merging
import BrokerAdmin.Proofs.Layered.Scalars
import BrokerAdmin.Proofs.Layered.Variables
import BrokerAdmin.Proofs.Listing.History
import BrokerAdmin.Proofs.Listing.Keys
import BrokerAdmin.Proofs.Listing.Positions
import BrokerAdmin.Proofs.Listing.Walk
import BrokerAdmin.Proofs.Metrics.Counting
import BrokerAdmin.Proofs.Metrics.History
import BrokerAdmin.Proofs.Metrics.Table
import BrokerAdmin.Proofs.Persistence
import BrokerAdmin.Proofs.Registry.Command
import BrokerAdmin.Proofs.Registry.Iteration
import BrokerAdmin.Proofs.Registry.Judging
import BrokerAdmin.Proofs.Registry.Layout
import BrokerAdmin.Proofs.Registry.Links
import BrokerAdmin.Proofs.Registry.Refinement
import BrokerAdmin.Proofs.Registry.Reuse
import BrokerAdmin.Proofs.Registry.Sweeps
import BrokerAdmin.Proofs.Registry.WellFormed
import BrokerAdmin.Proofs.Registry.Windows
import BrokerAdmin.Proofs.Store.Clients
import BrokerAdmin.Proofs.Store.Removals
import BrokerAdmin.Proofs.Store.Subscriptions
import BrokerAdmin.Proofs.Subscription
import BrokerAdmin.Proofs.Toml.Names
import BrokerAdmin.Proofs.World.Accounting
import BrokerAdmin.Proofs.World.Browsing
import BrokerAdmin.Proofs.World.ClientHistory
import BrokerAdmin.Proofs.World.Deletion
import BrokerAdmin.Proofs.World.History
import BrokerAdmin.Proofs.World.Listings
import BrokerAdmin.Proofs.World.LiveCounters
import BrokerAdmin.Proofs.World.Logging
import BrokerAdmin.Proofs.World.Lookup
import BrokerAdmin.Proofs.World.Paging
import BrokerAdmin.Proofs.World.Positions
import BrokerAdmin.Proofs.World.Requests
import BrokerAdmin.Proofs.World.SubscriptionHistory
import BrokerAdmin.Proofs.World.Takeover
import BrokerAdmin.Protocol
import BrokerAdmin.Registry.Basic
import BrokerAdmin.Registry.Display
import BrokerAdmin.Registry.Listing
import BrokerAdmin.Registry.Sweep
import BrokerAdmin.Store.Clients
import BrokerAdmin.Store.Subscriptions
import BrokerAdmin.Subscription
import BrokerAdmin.Text.Blank
import BrokerAdmin.Text.Quoted
import BrokerAdmin.Text.Shown
import BrokerAdmin.Toml.Decode
import BrokerAdmin.Toml.Document
import BrokerAdmin.Toml.Moment
import BrokerAdmin.Toml.Node
import BrokerAdmin.Toml.Number
import BrokerAdmin.Toml.Reader
import BrokerAdmin.Toml.Space
import BrokerAdmin.Toml.Tagged
import BrokerAdmin.Toml.Text
import BrokerAdmin.Toml.Value
import BrokerAdmin.World.Basic
import BrokerAdmin.World.Event
import BrokerAdmin.World.Operation
import BrokerAdmin.World.Sessions
