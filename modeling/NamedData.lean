import NamedData.Control.Comparable
import NamedData.Main
import NamedData.Proofs.Octets
import NamedData.Proofs.Text.Numbers
import NamedData.Proofs.Name.Printing
import NamedData.Proofs.Packet.Elements
import NamedData.Proofs.Packet.Grammar
import NamedData.Proofs.Packet.Layout
import NamedData.Proofs.Packet.Parts
import NamedData.Proofs.Packet.Kind
import NamedData.Proofs.Packet.Drafting
import NamedData.Proofs.Packet.Copies
import NamedData.Proofs.Packet.Codecs
import NamedData.Proofs.Framing.Beginning
import NamedData.Proofs.Framing.Attempt
import NamedData.Proofs.Framing.Stream
import NamedData.Proofs.Framing.Cutting
import NamedData.Proofs.Framing.Conservation
import NamedData.Proofs.Cache
import NamedData.Proofs.Cache.History
import NamedData.Proofs.Cache.Indexed
import NamedData.Proofs.Pending.Record
import NamedData.Proofs.Pending.Lookup
import NamedData.Proofs.Pending.Joining
import NamedData.Proofs.Pending.Delivery
import NamedData.Proofs.Pending.Sweeping
import NamedData.Proofs.Pending.Invariant
import NamedData.Proofs.Pending.Entrywise
import NamedData.Proofs.Pending.Keys
import NamedData.Proofs.Pending.Operations
import NamedData.Proofs.Pending.Expiry
import NamedData.Proofs.Pending.Answering
import NamedData.Proofs.Pending.Standing
import NamedData.Proofs.Pending.Windows
import NamedData.Proofs.Forwarding.Entering
import NamedData.Proofs.Forwarding.Handling
import NamedData.Proofs.Forwarding.Run
import NamedData.Proofs.Cache.Staleness
import NamedData.Proofs.Forwarding.Invariant
import NamedData.Proofs.Forwarding.RoundTrip
import NamedData.Proofs.Forwarding.Repetition
import NamedData.Proofs.Forwarding.Solicited
import NamedData.Proofs.Forwarding.Restriction
import NamedData.Proofs.Forwarding.Refusal
import NamedData.Proofs.Forwarding.Deferral
import NamedData.Proofs.Forwarding.Stranding
import NamedData.Proofs.Forwarding.Returns
import NamedData.Proofs.Forwarding.Renewal
import NamedData.Proofs.Forwarding.Outcome
import NamedData.Proofs.Forwarding.Writing
import NamedData.Proofs.Forwarding.Matching
import NamedData.Proofs.Forwarding.Sending
import NamedData.Proofs.Route.Invariant
import NamedData.Proofs.Route.Selection
import NamedData.Proofs.Route.Choice
import NamedData.Proofs.Route.Hopwise
import NamedData.Proofs.Route.Counting
import NamedData.Proofs.Route.History
import NamedData.Proofs.Route.Shape
import NamedData.Proofs.Route.Single
import NamedData.Proofs.Route.Repeating
import NamedData.Proofs.Route.Lines
import NamedData.Proofs.Pending.Naming
import NamedData.Proofs.Forwarding.Onward
import NamedData.Proofs.Forwarding.Administration
import NamedData.Proofs.Forwarding.Metering
import NamedData.Proofs.Forwarding.Unrouted
import NamedData.Proofs.Forwarding.Caching
import NamedData.Proofs.Forwarding.Separation
import NamedData.Proofs.Forwarding.Forgetting
import NamedData.Proofs.Face.Peers
import NamedData.Proofs.Face.Limit
import NamedData.Proofs.Face.Finding
import NamedData.Proofs.Face.Numbering
import NamedData.Proofs.Daemon.Run
import NamedData.Proofs.Daemon.Requests
import NamedData.Proofs.Daemon.Refusals
import NamedData.Proofs.Daemon.Inputs
import NamedData.Proofs.Daemon.Opening
import NamedData.Proofs.Daemon.Closing
import NamedData.Proofs.Daemon.Answers
import NamedData.Proofs.Daemon.Prefixes
import NamedData.Proofs.Transmission.Accounts
import NamedData.Proofs.Transmission.Conservation
import NamedData.Proofs.Transmission.Passages
import NamedData.Proofs.Transmission.Rounds
import NamedData.Proofs.Transmission.Ordering
