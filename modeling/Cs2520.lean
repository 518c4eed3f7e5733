import Cs2520.Lib.Machine
import Cs2520.Lib.CanReach
import Cs2520.Lib.RingBuffer
import Cs2520.Lib.Bytes
import Cs2520.Lib.Time
import Cs2520.Lib.Verdict
import Cs2520.Lib.RunningMean
import Cs2520.Lib.Missing
import Cs2520.Lib.Newest
import Cs2520.Lib.Gaps
import Cs2520.Lib.Double
import Cs2520.Lib.Extremes
import Cs2520.Lib.Refinement
import Cs2520.Lib.Playout
import Cs2520.Lib.Trie
import Cs2520.Lib.Pacing
import Cs2520.Lib.FloydWarshall
import Cs2520.Lib.RecentLog
import Cs2520.P1.Packet
import Cs2520.P1.Rcv
import Cs2520.P1.Ncp
import Cs2520.P1.Reassembly
import Cs2520.P1.Echoes
import Cs2520.P1.SenderLoops
import Cs2520.P1.SendWindow
import Cs2520.P1.Transfer
import Cs2520.P1.Completion
import Cs2520.P1.Reopen
import Cs2520.P1.Discipline
import Cs2520.P1.Senders
import Cs2520.P1.Release
import Cs2520.P1.Payload
import Cs2520.P1.ReadLog
import Cs2520.P1.Reads
import Cs2520.P1.TcpCopy
import Cs2520.P1.Burst
import Cs2520.P1.NackLists
import Cs2520.P1.Recovery
import Cs2520.P1.Origins
import Cs2520.P1.Orderly
import Cs2520.P2.Package
import Cs2520.P2.RtSrv
import Cs2520.P2.RtRcv
import Cs2520.P2.Serving
import Cs2520.P2.Addressing
import Cs2520.P2.Window
import Cs2520.P2.Lockout
import Cs2520.P2.DeliveryPass
import Cs2520.P2.Stream
import Cs2520.P2.Bonus
import Cs2520.P2.Handshake
import Cs2520.P2.Clients
import Cs2520.P2.Jitter
import Cs2520.P2.UdpStream
import Cs2520.P2.UdpStreamRcv
import Cs2520.P2.Sliding
import Cs2520.P2.Nacks
import Cs2520.P2.Capacity
import Cs2520.P2.Estimates
import Cs2520.P2.Drift
import Cs2520.P2.Carries
import Cs2520.P2.Losses
import Cs2520.P2.EchoNacks
import Cs2520.P2.Ring
import Cs2520.P2.ReportClock
import Cs2520.P2.Deadlines
import Cs2520.P2.Oneway
import Cs2520.P4.Availability
import Cs2520.P4.Windows
import Cs2520.P4.RealtimeUdp
import Cs2520.P4.RealtimeLink
import Cs2520.P4.StateFlood
import Cs2520.P4.Flooding
import Cs2520.P4.LatencyTraffic
import Cs2520.P4.Routes
import Cs2520.P4.Forwarding
import Cs2520.P4.Multicast
import Cs2520.P4.Anycast
import Cs2520.P4.LinkState
