import TcpProjects.Base.Transition
import TcpProjects.Base.Interval
import TcpProjects.Base.OrderedMap
import TcpProjects.Base.Chunks
import TcpProjects.Base.Queues
import TcpProjects.Base.CString
import TcpProjects.Base.Locking
import TcpProjects.Base.ReadUntil
import TcpProjects.ChatServer.Message
import TcpProjects.ChatServer.Server
import TcpProjects.ChatServer.Steps
import TcpProjects.ChatServer.Invariant
import TcpProjects.ChatServer.Descriptors
import TcpProjects.ChatServer.Registry
import TcpProjects.ChatServer.ThreadTable
import TcpProjects.ChatServer.Reactions
import TcpProjects.ChatServer.Broadcast
import TcpProjects.ChatServer.Failure
import TcpProjects.ChatServer.Session
import TcpProjects.ChatServer.Framing
import TcpProjects.ChatServer.Deadlock
import TcpProjects.ChatServer.Locals
import TcpProjects.ChatServer.OldContents
import TcpProjects.ChatServer.Shutdown
import TcpProjects.ChatClient.ServerData
import TcpProjects.ChatClient.Ping
import TcpProjects.ChatClient.ServerGone
import TcpProjects.ChatSystem.PingEvents
import TcpProjects.Lib.TCPServer
import TcpProjects.Protocol.Text
import TcpProjects.Protocol.Server
import TcpProjects.Protocol.ReceiveLoop
import TcpProjects.Protocol.Isolation
import TcpProjects.PacketInterceptor.PrintPacket
import TcpProjects.PacketInterceptor.Interceptor
import TcpProjects.FileSending.Processes
import TcpProjects.FileSending.Download
import TcpProjects.FileSending.Transfer
import TcpProjects.Base.Words
import TcpProjects.Util.Split
import TcpProjects.ChatClient.CommandHandler
import TcpProjects.ChatServer.Distribute
import TcpProjects.ChatSystem.Bounds
import TcpProjects.Base.Lines
import TcpProjects.ChatClient.Input
import TcpProjects.Protocol.Framing
import TcpProjects.PacketInterceptor.HexDump
import TcpProjects.GetOpenPorts.Answer
import TcpProjects.Protocol.MessagePacket
import TcpProjects.Base.Numerals
import TcpProjects.Lib.Address
import TcpProjects.Lib.TCPException
import TcpProjects.ChatSelect.ReadPass
import TcpProjects.ChatSelect.Client
import TcpProjects.ChatSelect.Server
import TcpProjects.ChatSelect.Attribution
import TcpProjects.ChatServer.Rest
import TcpProjects.Base.Room
import TcpProjects.ChatServer.Delivery
import TcpProjects.ChatServer.Hearing
import TcpProjects.ChatSystem.Screens
import TcpProjects.ChatSystem.Typed
import TcpProjects.Base.Pipe
import TcpProjects.Protocol.Exchange
import TcpProjects.Protocol.Dialogue
import TcpProjects.Protocol.Completion
import TcpProjects.FileSending.Faults
import TcpProjects.Lib.ReadBack
import TcpProjects.ChatSelect.Effects
import TcpProjects.ChatSelect.Closed
import TcpProjects.PacketInterceptor.LogFile
import TcpProjects.GetOpenPorts.Outcome
import TcpProjects.Lib.Destructor
import TcpProjects.ChatSystem.Streams
import TcpProjects.ChatSystem.Integrity
