import HexNet.Ack
import HexNet.Lib.Lts
import HexNet.Ledger
import HexNet.Lib.BitFields
import HexNet.Bits
import HexNet.BitsFacts
import HexNet.Arena
import HexNet.ArenaFacts
import HexNet.Channel
import HexNet.Frames
import HexNet.ChannelFacts
import HexNet.Link
import HexNet.LinkFacts
import HexNet.Ordered
import HexNet.Lib.Window
import HexNet.Unordered
import HexNet.Budget
import HexNet.Crypto
import HexNet.Packet
import HexNet.Connection
import HexNet.Control
import HexNet.ConnectionFacts
import HexNet.Transmit
import HexNet.Outcomes
import HexNet.Roundtrip
import HexNet.Numbering
import HexNet.Inbox
import HexNet.Reading
import HexNet.Agreement
import HexNet.Slab
import HexNet.Framing
import HexNet.SlabFacts
import HexNet.Handshake
import HexNet.HandshakeFacts
import HexNet.Endpoint
import HexNet.Identity
import HexNet.Turns
import HexNet.Routing
import HexNet.Inert
import HexNet.Challenge
import HexNet.Group
import HexNet.Spending
import HexNet.Tickets
import HexNet.Forgetting
import HexNet.SlabRuns
import HexNet.Refused
import HexNet.Lib.Heap
import HexNet.TimerFacts
import HexNet.Lib.Cbpf
import HexNet.Steering
import HexNet.Allowance
import HexNet.Losses
import HexNet.ArenaRuns
import HexNet.ChannelRuns
import HexNet.Sessions
import HexNet.Scheduling
import HexNet.Waking
import HexNet.BitRuns
import HexNet.Estimates
import HexNet.Wrapping
import HexNet.Pacing
import HexNet.Limiter
import HexNet.Answering
import HexNet.Codecs
import HexNet.Connector
import HexNet.Attempt
import HexNet.Paths
import HexNet.Stalling
import HexNet.Lib.Saturating
import HexNet.Stats
import HexNet.Ticks
import HexNet.Lib.BitList
import HexNet.BitReads
import HexNet.Confirmed
import HexNet.Residents
import HexNet.Winding
import HexNet.Buffers
import HexNet.Driver
import HexNet.Lib.Command
import HexNet.Serving
