import SampleTools.Library.LittleEndian
import SampleTools.Library.Memory
import SampleTools.Library.Containers
import SampleTools.Library.Framing
import SampleTools.Library.Related
import SampleTools.Library.Run
import SampleTools.Library.Numbering
import SampleTools.Library.SlidingWindow
import SampleTools.Library.ProducerQueue
import SampleTools.Library.SlotLists
import SampleTools.Library.Dials
import SampleTools.Library.TimerQueue
import SampleTools.Qtp.Frame
import SampleTools.Qtp.OptionRequest
import SampleTools.Qtp.Parse
import SampleTools.Qtp.Msg
import SampleTools.Qtp.OptionHistory
import SampleTools.Tcp.Decode
import SampleTools.Tcp.RoundTrip
import SampleTools.Tcp.ReadLoop
import SampleTools.Linker.XTcpServer
import SampleTools.Linker.XTcpStream
import SampleTools.Linker.ServerEnd
import SampleTools.Linker.Sessions
import SampleTools.Linker.SignalServer
import SampleTools.Database.DBMan
import SampleTools.Database.Loans
import SampleTools.Database.Monitor
import SampleTools.Database.Threads
import SampleTools.Database.Transactions
import SampleTools.Database.ReturnCodes
import SampleTools.PubSub.SubManager
import SampleTools.PubSub.Subscriptions
import SampleTools.Redis.RedisMng
import SampleTools.Redis.Accounting
import SampleTools.Redis.Proxies
import SampleTools.Redis.Roles
import SampleTools.Redis.Lending
import SampleTools.Iomn.Metric
import SampleTools.Iomn.Windows
import SampleTools.UseMysql.DBWorkHandle
import SampleTools.Qtp.Transfer
import SampleTools.Qtp.Store
import SampleTools.Qtp.CopyValue
import SampleTools.Qtp.MoveValue
import SampleTools.Tcp.Relay
import SampleTools.Linker.TestClient
import SampleTools.Linker.TypedReads
import SampleTools.Library.Calendar
import SampleTools.MyBase.TimerMan
import SampleTools.Tcp.EventClient
import SampleTools.Tcp.Reconnect
import SampleTools.Tcp.SslLifetime
import SampleTools.Library.Decimal
import SampleTools.Library.TextInt
import SampleTools.MyBase.FastDate
import SampleTools.MyBase.TextTime
import SampleTools.MyBase.TimerHandles
import SampleTools.MyBase.TimerCounts
import SampleTools.MyBase.TimerEvents
import SampleTools.MyBase.TimerWheel
import SampleTools.MyBase.WheelRange
import SampleTools.MyBase.WheelRefines
import SampleTools.MyBase.WheelAdvance
import SampleTools.MyBase.WheelRuns
import SampleTools.MyBase.WheelLimits
import SampleTools.MyBase.WheelNext
import SampleTools.MyBase.TimersOnWheel
import SampleTools.Library.Heap
import SampleTools.Library.Largest
import SampleTools.TopK.Main
import SampleTools.Database.Borrow
import SampleTools.SampleCron.Cron
import SampleTools.Tcp.Failover
import SampleTools.ZkTest.ZkLock
import SampleTools.Database.DBProxy
import SampleTools.Database.Retries
import SampleTools.Database.Savepoints
import SampleTools.Redis.IndexCheck
import SampleTools.Iomn.Reads
import SampleTools.TopK.HeapSort
import SampleTools.ZkTest.Watch
import SampleTools.Library.Cut
import SampleTools.Include.Split
import SampleTools.Include.CleanPath
import SampleTools.Include.ParseUrl
import SampleTools.Library.Occurrences
import SampleTools.Include.Replace
import SampleTools.Include.TcpId
import SampleTools.Library.Lines
import SampleTools.Library.CString
import SampleTools.Linker.Config
import SampleTools.Include.CreateDir
import SampleTools.Linker.PlainMsg
import SampleTools.Linker.Answers
import SampleTools.Linker.ClientProgram
import SampleTools.Linker.Network
import SampleTools.Linker.Confined
import SampleTools.Include.Cmdline
import SampleTools.Include.CmdlineItems
import SampleTools.Include.CmdlineText
import SampleTools.Iomn.Pushes
import SampleTools.Linker.ConnectCount
import SampleTools.Include.System
