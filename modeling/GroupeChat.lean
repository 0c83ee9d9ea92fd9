import GroupeChat.Base.Memory
import GroupeChat.Base.LittleEndian
import GroupeChat.Base.Run
import GroupeChat.Base.Fifo
import GroupeChat.Base.Socket
import GroupeChat.Proto
import GroupeChat.ChatServer.CmdSend
import GroupeChat.ChatServer.Enqueue
import GroupeChat.ChatServer.EpollRead
import GroupeChat.Base.CString
import GroupeChat.ChatServer.Login
import GroupeChat.ChatClient.IoModel
import GroupeChat.RecvBounds
import GroupeChat.ChatServer.LoginStage
import GroupeChat.ChatServer.LoginVerdict
import GroupeChat.Base.StdMap
import GroupeChat.ChatServer.UserIds
import GroupeChat.ChatServer.Cmd
import GroupeChat.ChatServer.PackList
import GroupeChat.ChatServer.KnownUsers
import GroupeChat.ChatServer.Retransmit
import GroupeChat.Base.Stdio
import GroupeChat.ChatClient.SendFile
import GroupeChat.ChatClient.WriteFile
import GroupeChat.ChatClient.Reassembly
import GroupeChat.ChatServer.Relay
import GroupeChat.ChatServer.Senders
import GroupeChat.ChatServer.Deletion
import GroupeChat.Base.Ownership
import GroupeChat.ChatServer.Sockets
import GroupeChat.ChatClient.Mailbox
import GroupeChat.ChatClient.Transfers
import GroupeChat.UdpChat.DataPool
import GroupeChat.UdpChat.Server
import GroupeChat.UdpChat.MessageQueue
import GroupeChat.EchoServer
import GroupeChat.ChatClient.LostChunks
import GroupeChat.ChatClient.SendLoop
import GroupeChat.FileChunk
import GroupeChat.ChatServer.LoginMessage
import GroupeChat.ChatServer.LoginReply
import GroupeChat.Base.MapSweep
import GroupeChat.TableSweeps
import GroupeChat.ChatServer.LostNumbers
import GroupeChat.Base.FdTable
import GroupeChat.ChatServer.TearDown
import GroupeChat.ChatServer.Quit
import GroupeChat.ChatServer.OneClient
import GroupeChat.EchoServer.ReadLoop
import GroupeChat.EchoServer.Done
import GroupeChat.UdpChat.OnlineList
import GroupeChat.UdpChat.ChatLines
import GroupeChat.ChatClient.Framing
import GroupeChat.ChatServer.CopyBounds
import GroupeChat.ChatServer.PacketLedger
import GroupeChat.ChatClient.LossReports
import GroupeChat.UdpBuffers
import GroupeChat.ChatClient.LastChunk
import GroupeChat.Base.CountedList
import GroupeChat.CountedQueues
import GroupeChat.Base.Ring
import GroupeChat.Base.Drain
import GroupeChat.Base.Cells
import GroupeChat.ThreadPool.Pool
import GroupeChat.ThreadPool.Fifo
import GroupeChat.ThreadPool.Wakeups
import GroupeChat.ThreadPool.Shutdown
import GroupeChat.ThreadPool.SecondDestroy
import GroupeChat.ThreadPool.Create
import GroupeChat.Base.Decimal
import GroupeChat.Logging.Convert
import GroupeChat.Logging.LogStream
import GroupeChat.Logging.LogFile
import GroupeChat.Logging.AsyncLogging
import GroupeChat.Logging.Lines
import GroupeChat.Delivery
import GroupeChat.PollServer.Server
import GroupeChat.PollServer.Table
import GroupeChat.PollServer.Posts
import GroupeChat.ChatClient.UdpTransfer
import GroupeChat.FileOffers
import GroupeChat.Logins.System
import GroupeChat.Logins.Records
import GroupeChat.Logins.Ids
import GroupeChat.Logins.Agree
