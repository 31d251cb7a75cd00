import MiniTcp.Checked.Datagram
import MiniTcp.Checked.Stack
import MiniTcp.Checksum
import MiniTcp.Confinement
import MiniTcp.Corruption
import MiniTcp.Datagrams
import MiniTcp.Demux
import MiniTcp.HeaderCodec
import MiniTcp.Programs.EchoServer
import MiniTcp.Programs.Reflector
import MiniTcp.RoundTrip
import MiniTcp.Sockets.BufferSizes
import MiniTcp.Sockets.DatagramOrder
import MiniTcp.Sockets.EndOfStream
import MiniTcp.Sockets.Failures
import MiniTcp.Sockets.Internet
import MiniTcp.Sockets.Listeners
import MiniTcp.Tcp.AcceptQueue
import MiniTcp.Tcp.AfterFin
import MiniTcp.Tcp.Agreement
import MiniTcp.Tcp.Alignment
import MiniTcp.Tcp.Backoff
import MiniTcp.Tcp.Deadlines
import MiniTcp.Tcp.Diagram
import MiniTcp.Tcp.Duplicates
import MiniTcp.Tcp.Ephemeral
import MiniTcp.Tcp.FlowControl
import MiniTcp.Tcp.HalfOpen
import MiniTcp.Tcp.Independence
import MiniTcp.Tcp.Options
import MiniTcp.Tcp.Overlap
import MiniTcp.Tcp.Quiescence
import MiniTcp.Tcp.Reassembly
import MiniTcp.Tcp.ReceiveBuffer
import MiniTcp.Tcp.Recovery
import MiniTcp.Tcp.Replay
import MiniTcp.Tcp.Resets
import MiniTcp.Tcp.Silence
import MiniTcp.Tcp.Timers
