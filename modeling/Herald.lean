import Herald.Cli.Exchange
import Herald.Main
import Herald.Scenario.Step
import Herald.Proofs.Frame.Search
import Herald.Proofs.Client.Acknowledgement
import Herald.Proofs.Client.Publishing
import Herald.Proofs.Frame.Chunking
import Herald.Proofs.Registry.Lifetime
import Herald.Proofs.Client.Acts
import Herald.Proofs.Client.Lifecycle
import Herald.Proofs.Client.Caps
import Herald.Proofs.Client.Announcements
import Herald.Proofs.Client.ServerView
import Herald.Proofs.Client.Allowance
import Herald.Proofs.Client.Connecting
import Herald.Proofs.Wire.Decoding
import Herald.Proofs.Frame.Grammar
import Herald.Proofs.Client.Precedence
import Herald.Proofs.Client.Handshake
import Herald.Proofs.Client.Retrying
import Herald.Proofs.Host.Timers
import Herald.Proofs.Host.Occurrence
import Herald.Proofs.Host.Budget
import Herald.Proofs.Client.Operations
import Herald.Proofs.Registry.Timeouts
import Herald.Proofs.Client.Timeouts
import Herald.Proofs.Client.Endings
import Herald.Proofs.Client.Staleness
import Herald.Proofs.Host.Connection
import Herald.Proofs.Host.Applications
import Herald.Proofs.Host.Segmentation
import Herald.Proofs.Client.Awaiting
import Herald.Proofs.Client.Watches
import Herald.Proofs.Host.Deadlines
import Herald.Proofs.Frame.Messages
import Herald.Proofs.Client.Failing
import Herald.Proofs.Wire.Address
import Herald.Proofs.Wire.Acceptance
import Herald.Proofs.Wire.Advertised
import Herald.Proofs.Wire.Password
import Herald.Proofs.Client.Secrecy
import Herald.Proofs.Cli.Disclosure
import Herald.Proofs.Client.Confirmation
import Herald.Proofs.Host.Turns
import Herald.Proofs.Cli.Publication
import Herald.Proofs.Frame.Conservation
import Herald.Proofs.Client.Serving
import Herald.Proofs.Cli.Subscription
