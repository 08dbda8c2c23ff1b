import Wirecat.Access
import Wirecat.Agreement
import Wirecat.Alpn
import Wirecat.Attribution
import Wirecat.Balance
import Wirecat.BitPrefix
import Wirecat.Broadcast
import Wirecat.Broker
import Wirecat.CArray
import Wirecat.CString
import Wirecat.Cli
import Wirecat.Coherence
import Wirecat.CommandLine
import Wirecat.Commands
import Wirecat.Conduit
import Wirecat.Confidential
import Wirecat.Config
import Wirecat.Conversation
import Wirecat.Copy
import Wirecat.Custody
import Wirecat.Cycling
import Wirecat.Delivery
import Wirecat.Descriptors
import Wirecat.Echo
import Wirecat.EchoBuffer
import Wirecat.Editor
import Wirecat.Effects
import Wirecat.EndToEnd
import Wirecat.EscapeSequences
import Wirecat.Fidelity
import Wirecat.FileXfer
import Wirecat.Flow
import Wirecat.Footprint
import Wirecat.Frames
import Wirecat.HalfClose
import Wirecat.Handshake
import Wirecat.Header
import Wirecat.HistoryRows
import Wirecat.HttpConnect
import Wirecat.HttpProbe
import Wirecat.IdleTimeout
import Wirecat.InPlace
import Wirecat.Interaction.Conditions
import Wirecat.Interaction.Ledger
import Wirecat.Interaction.Logic
import Wirecat.Interaction.Notes
import Wirecat.Interaction.Parties
import Wirecat.Interaction.Program
import Wirecat.Interaction.Progress
import Wirecat.JsonString
import Wirecat.Keys
import Wirecat.Keystrokes
import Wirecat.Labels
import Wirecat.Log
import Wirecat.Main
import Wirecat.Mediation
import Wirecat.Membership
import Wirecat.Modes
import Wirecat.Multi
import Wirecat.Numerals
import Wirecat.Openings
import Wirecat.OptionOrder
import Wirecat.Order
import Wirecat.Output
import Wirecat.Process
import Wirecat.Prompt
import Wirecat.Proxied
import Wirecat.Proxy
import Wirecat.ProxyServer
import Wirecat.Queues
import Wirecat.Quic
import Wirecat.Receive
import Wirecat.Relay
import Wirecat.RelayEvents
import Wirecat.RelayRun
import Wirecat.Rendering
import Wirecat.Responsive
import Wirecat.Roster
import Wirecat.Rounds
import Wirecat.Selection
import Wirecat.SessionIds
import Wirecat.Sessions
import Wirecat.SharedOutput
import Wirecat.Sockets
import Wirecat.Socketx
import Wirecat.Socks5
import Wirecat.System
import Wirecat.Tables
import Wirecat.Tls
import Wirecat.Traffic
import Wirecat.Transcript
import Wirecat.Transfer
import Wirecat.Transports
import Wirecat.Tunnel
import Wirecat.TunnelClient
import Wirecat.TypedLines
import Wirecat.Typing
import Wirecat.Utf8
import Wirecat.Util
import Wirecat.Written
import Wirecat.Zipper
