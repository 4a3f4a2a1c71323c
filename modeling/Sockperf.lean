import Sockperf.Lib.ByteOrder
import Sockperf.Lib.Memory
import Sockperf.Lib.Machine
import Sockperf.Lib.Tally
import Sockperf.Lib.While
import Sockperf.Lib.KeyMap
import Sockperf.Lib.Slots
import Sockperf.Lib.Mailbox
import Sockperf.Lib.Strtol
import Sockperf.Lib.Regex
import Sockperf.Lib.Pointers
import Sockperf.Lib.Rounding
import Sockperf.Lib.Ranks
import Sockperf.Lib.Numbering
import Sockperf.Message
import Sockperf.Platforms
import Sockperf.MessageParser
import Sockperf.Progress
import Sockperf.InputHandlers
import Sockperf.Server
import Sockperf.PacketTimes
import Sockperf.ReceiveWindow
import Sockperf.Datagrams
import Sockperf.Framing
import Sockperf.ParserCalls
import Sockperf.InPlace
import Sockperf.Buffered
import Sockperf.Handover
import Sockperf.Sharing
import Sockperf.Client
import Sockperf.Echo
import Sockperf.Link
import Sockperf.EchoSafety
import Sockperf.Ticks
import Sockperf.Bringup
import Sockperf.Sizing
import Sockperf.Statistics
import Sockperf.Report
import Sockperf.Summary
import Sockperf.Histogram
import Sockperf.HistogramDisplay
import Sockperf.Pacing
import Sockperf.Schedule
import Sockperf.Durations
import Sockperf.Gaps
import Sockperf.ServerMessages
import Sockperf.ReceiveFilter
import Sockperf.FlatTimes
import Sockperf.SendPackets
import Sockperf.Sendto
import Sockperf.NumberLoop
import Sockperf.NumberReport
import Sockperf.Expiration
import Sockperf.TimedRun
import Sockperf.DataIntegrity
import Sockperf.Connections
import Sockperf.IoHandlers
import Sockperf.Division
import Sockperf.Watching
import Sockperf.Multiplexer
import Sockperf.Socketxtreme
import Sockperf.Refusal
import Sockperf.RecvLooping
import Sockperf.MainLoop
import Sockperf.Arrivals
import Sockperf.Serial
import Sockperf.StreamServer
import Sockperf.DatagramServer
import Sockperf.LossReport
import Sockperf.Servers
import Sockperf.ZeroCopy
import Sockperf.EchoExact
import Sockperf.MsgSizes
import Sockperf.Accumulation
import Sockperf.OptionValues
import Sockperf.Affinity
import Sockperf.FeedFile
import Sockperf.FeedLines
import Sockperf.Ring
import Sockperf.Startup
import Sockperf.Playback
import Sockperf.Memberships
import Sockperf.Aopt
import Sockperf.CommandLine
import Sockperf.Teardown
