import CloudHands.Lib.Word
import CloudHands.Lib.Slice
import CloudHands.Lib.Run
import CloudHands.Lib.UpdateSum
import CloudHands.Lib.BigEndian
import CloudHands.Lib.Ring
import CloudHands.Lib.Decimal
import CloudHands.Lib.ByteFile
import CloudHands.Lib.Loop
import CloudHands.Lib.Lines
import CloudHands.Lib.Tally
import CloudHands.Lib.TokenReader
import CloudHands.Lib.MsgPack
import CloudHands.Tcp.AssembleFragment
import CloudHands.Tcp.FragmentInvariant
import CloudHands.Tcp.FragmentList
import CloudHands.Tcp.Session
import CloudHands.Tcp.SessionHandler
import CloudHands.Tcp.Reassembly
import CloudHands.Tcp.SequenceWrap
import CloudHands.Tcp.SessionClose
import CloudHands.Tcp.FourWay
import CloudHands.Tcp.LossFree
import CloudHands.Tcp.Handshake
import CloudHands.Sa.SessionHandler
import CloudHands.Sa.Capture
import CloudHands.Sa.Counters
import CloudHands.Sa.Record
import CloudHands.Sa.Release
import CloudHands.Sa.Written
import CloudHands.Sa.UdpSession
import CloudHands.Udp.Endpoint
import CloudHands.Udp.Session
import CloudHands.Table.Plist
import CloudHands.Udp.App
import CloudHands.Udp.Task
import CloudHands.Udp.Ownership
import CloudHands.Udp.Lifetime
import CloudHands.Stat.Pool
import CloudHands.Table.Ptable
import CloudHands.Table.System
import CloudHands.Table.Refinement
import CloudHands.Table.HandOver
import CloudHands.Dispatch.PacketDispatch
import CloudHands.Dispatch.Ownership
import CloudHands.Shm.BinFormat
import CloudHands.Shm.ShmFormat
import CloudHands.Shm.Record
import CloudHands.Shm.Layout
import CloudHands.Shm.Transport
import CloudHands.Shm.Reading
import CloudHands.Shm.RecordReading
import CloudHands.Shm.SessionRecord
import CloudHands.Shm.Confined
import CloudHands.Japi.DataInput
import CloudHands.Japi.SessionRecord
import CloudHands.Japi.Text
import CloudHands.Msgpack.Store
import CloudHands.Msgpack.Unpacker
import CloudHands.Dns.Parse
import CloudHands.Dns.Binary
import CloudHands.Dns.Store
import CloudHands.Dns.StoreReading
import CloudHands.Rule.RuleMatch
import CloudHands.Rule.Agreement
import CloudHands.Http.DataInput
import CloudHands.Http.LineParse
import CloudHands.Http.Chunked
import CloudHands.Http.Session
import CloudHands.Http.Parse
import CloudHands.Http.Bytewise
import CloudHands.Http.Refinement
import CloudHands.Http.Segmentation
import CloudHands.Http.ChunkedLanguage
import CloudHands.Http.ContentLength
import CloudHands.Http.Termination
import CloudHands.Lib.Pieces
import CloudHands.Http.Message
import CloudHands.Http.Pairing
import CloudHands.Http.Transaction
import CloudHands.Http.Built
import CloudHands.PartContent.Parser
import CloudHands.PartContent.Merge
import CloudHands.PartContent.Conservation
import CloudHands.Mail.Line
import CloudHands.Mail.Session
import CloudHands.Mail.Smtp
import CloudHands.Mail.SmtpDialogue
import CloudHands.Mail.SmtpMatching
import CloudHands.Mail.Pop3
import CloudHands.Mail.Pop3Dialogue
import CloudHands.Mail.Pop3Restore
import CloudHands.Proto.Store
import CloudHands.Proto.Http
import CloudHands.Proto.Mail
import CloudHands.Proto.Ftp
import CloudHands.Proto.Agreement
import CloudHands.Proto.Mysql
import CloudHands.Lib.Memory
import CloudHands.Lib.SwapSort
import CloudHands.Pkt.Jhash
import CloudHands.Pkt.Parse
import CloudHands.Pkt.Payload
import CloudHands.Pkt.Exact
import CloudHands.Pkt.FlowHash
import CloudHands.Wb.WbList
import CloudHands.Wb.Content
import CloudHands.Lib.Feed
import CloudHands.Mysql.Parse
import CloudHands.Mysql.Exchange
import CloudHands.Mysql.Attribution
import CloudHands.Lib.Arena
import CloudHands.Lib.FirstMax
import CloudHands.Lib.Smear
import CloudHands.Lib.Extent
import CloudHands.Lib.Keyed
import CloudHands.Lib.Guarded
import CloudHands.Ftp.Session
import CloudHands.Ftp.DataConnection
import CloudHands.Ftp.Endpoint
import CloudHands.Ftp.Log
import CloudHands.Ftp.Registry
import CloudHands.Ftp.Dispatch
import CloudHands.Ftp.Lifetime
import CloudHands.SessionMonitor.Monitor
import CloudHands.SessionMonitor.Store
import CloudHands.SessionMonitor.Scan
import CloudHands.SessionMonitor.Refinement
import CloudHands.Mem.Memory
import CloudHands.Mem.Capacity
import CloudHands.Mem.Run
import CloudHands.Mem.Accounting
import CloudHands.Mem.ObjectPool
import CloudHands.Mem.Conservation
import CloudHands.Lib.ByteHeap
import CloudHands.Tcp.PpDataInput
import CloudHands.Udp.DataInput
import CloudHands.Common.DataOutput
import CloudHands.Shm.WholeRecords
import CloudHands.Rule.Engine
import CloudHands.Rule.Semantics
import CloudHands.Table.Idle
import CloudHands.Table.PlistRun
import CloudHands.Pkt.QueuePop
import CloudHands.Wb.IpSemantics
import CloudHands.Dns.NameDecoding
import CloudHands.Dns.ResponseReading
import CloudHands.Japi.DnsName
import CloudHands.Lib.Calls
import CloudHands.Dns.FieldReading
import CloudHands.Dns.RdataParsers
import CloudHands.Udp.TftpTransfer
import CloudHands.Mail.LineLength
import CloudHands.Mail.SmtpTransparency
import CloudHands.Mail.Imap
import CloudHands.Mail.ImapDialogue
import CloudHands.Mail.ImapLiterals
import CloudHands.Mem.MpoolConservation
import CloudHands.Table.LruRun
import CloudHands.Sa.StoreConservation
import CloudHands.Ssh.Parse
import CloudHands.Ssh.Tracking
import CloudHands.Mysql.Framing
import CloudHands.Telnet.Parse
import CloudHands.Telnet.Filter
import CloudHands.Lib.Base64
import CloudHands.Japi.LoginParsers
import CloudHands.Japi.LoginExtraction
import CloudHands.Mail.SmtpContents
import CloudHands.Mail.MimeSafety
import CloudHands.Mem.PallocRun
import CloudHands.Proto.Telnet
import CloudHands.Proto.Ssh
import CloudHands.Smon.Capture
import CloudHands.Proto.MailReported
import CloudHands.Proto.FtpReported
import CloudHands.Http.RequestLine
import CloudHands.Http.HeaderLine
