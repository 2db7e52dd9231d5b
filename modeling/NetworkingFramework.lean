import NetworkingFramework.Lib.Wire
import NetworkingFramework.Lib.Fueled
import NetworkingFramework.Lib.OrderedSet
import NetworkingFramework.Lib.Demux
import NetworkingFramework.Lib.OnesComplement
import NetworkingFramework.Lib.FirstMax
import NetworkingFramework.Lib.Runs
import NetworkingFramework.Lib.Mutex
import NetworkingFramework.Lib.Framing
import NetworkingFramework.Lib.SignedWord
import NetworkingFramework.Lib.BoundedDeque
import NetworkingFramework.Lib.Refinement
import NetworkingFramework.Lib.PrefixTree
import NetworkingFramework.Lib.BigEndian
import NetworkingFramework.Lib.Sweep
import NetworkingFramework.Lib.ShiftRegister
import NetworkingFramework.Lib.Quota
import NetworkingFramework.Lib.Loops
import NetworkingFramework.Lib.CText
import NetworkingFramework.Lib.InStream
import NetworkingFramework.Lib.Pattern
import NetworkingFramework.MultiRecv
import NetworkingFramework.MultiNetAccess
import NetworkingFramework.Multiplexer
import NetworkingFramework.Routing
import NetworkingFramework.CircularQueue
import NetworkingFramework.IntQueue
import NetworkingFramework.AsyncRecv
import NetworkingFramework.AsyncLocks
import NetworkingFramework.ConstructivePacket
import NetworkingFramework.NetAccess
import NetworkingFramework.Ether2
import NetworkingFramework.Ethernet2Crc
import NetworkingFramework.Ip4
import NetworkingFramework.Ip4Routing
import NetworkingFramework.Arp
import NetworkingFramework.ArpTool
import NetworkingFramework.ArpSearch
import NetworkingFramework.ArpScan
import NetworkingFramework.Icmp
import NetworkingFramework.Udp
import NetworkingFramework.VarLen
import NetworkingFramework.Ints
import NetworkingFramework.VarLenInts
import NetworkingFramework.VarLenNum
import NetworkingFramework.Emp
import NetworkingFramework.Stack
import NetworkingFramework.MsgBoundary
import NetworkingFramework.Generator
import NetworkingFramework.Ptp
import NetworkingFramework.PtpProtocol
import NetworkingFramework.PtpRouting
import NetworkingFramework.PtpGenerator
import NetworkingFramework.DnsName
import NetworkingFramework.Dns
import NetworkingFramework.DnsRdata
import NetworkingFramework.SplitStr
import NetworkingFramework.PtpText
import NetworkingFramework.Ip4Text
import NetworkingFramework.MacText
import NetworkingFramework.NetAnalyzer
import NetworkingFramework.Ping
import NetworkingFramework.Trie
import NetworkingFramework.TrieHeap
import NetworkingFramework.DnsDatabase
import NetworkingFramework.DnsTool
import NetworkingFramework.DnsServer
import NetworkingFramework.DnsFiles
import NetworkingFramework.DnsPrinting
import NetworkingFramework.DnsClient
import NetworkingFramework.Lemmas.HeaderCodecs
import NetworkingFramework.Lemmas.Checksum
import NetworkingFramework.Lemmas.Ip4Packet
import NetworkingFramework.Lemmas.Ip4Text
import NetworkingFramework.Lemmas.MacText
import NetworkingFramework.Lemmas.Multiplexer
import NetworkingFramework.Lemmas.Routing
import NetworkingFramework.Lemmas.Arp
import NetworkingFramework.Lemmas.AsyncLocks
import NetworkingFramework.Lemmas.SubnetScan
import NetworkingFramework.Lemmas.RecvQueue
import NetworkingFramework.Lemmas.ArpSearch
import NetworkingFramework.Lemmas.ArpScan
import NetworkingFramework.Lemmas.MultiNetAccess
import NetworkingFramework.Lemmas.MsgBoundary
import NetworkingFramework.Lemmas.IntQueue
import NetworkingFramework.Lemmas.NetAnalyzer
import NetworkingFramework.Lemmas.Ping
import NetworkingFramework.Lemmas.VarLenInts
import NetworkingFramework.Lemmas.PtpCodec
import NetworkingFramework.Lemmas.SplitStr
import NetworkingFramework.Lemmas.PtpText
import NetworkingFramework.Lemmas.PtpPrinting
import NetworkingFramework.Lemmas.PtpPath
import NetworkingFramework.Lemmas.PtpNode
import NetworkingFramework.Lemmas.PtpForwarding
import NetworkingFramework.Lemmas.DnsNames
import NetworkingFramework.Lemmas.DnsCodec
import NetworkingFramework.Lemmas.DnsLayout
import NetworkingFramework.Lemmas.DnsCompression
import NetworkingFramework.Lemmas.DnsRdata
import NetworkingFramework.Lemmas.Trie
import NetworkingFramework.Lemmas.TrieHeap
import NetworkingFramework.Lemmas.TrieWords
import NetworkingFramework.Lemmas.TrieRuns
import NetworkingFramework.Lemmas.TrieTree
import NetworkingFramework.Lemmas.DnsDatabase
import NetworkingFramework.Lemmas.DnsLookups
import NetworkingFramework.Lemmas.DnsTool
import NetworkingFramework.Lemmas.DnsReplySize
import NetworkingFramework.Lemmas.DnsServer
import NetworkingFramework.Lemmas.DnsFiles
import NetworkingFramework.Lemmas.DnsPrinting
import NetworkingFramework.Lemmas.DnsClient
import NetworkingFramework.Theorems.Sessions
import NetworkingFramework.Theorems.Queues
import NetworkingFramework.Theorems.ConstructivePackets
import NetworkingFramework.Theorems.Receiving
import NetworkingFramework.Theorems.Multiplexing
import NetworkingFramework.Theorems.Stacks
import NetworkingFramework.Theorems.Ip4Packets
import NetworkingFramework.Theorems.Ip4Texts
import NetworkingFramework.Theorems.MacTexts
import NetworkingFramework.Theorems.FrameChecks
import NetworkingFramework.Theorems.IcmpMessages
import NetworkingFramework.Theorems.EscapeCoding
import NetworkingFramework.Theorems.VarLenNumbers
import NetworkingFramework.Theorems.Routing
import NetworkingFramework.Theorems.ArpPackets
import NetworkingFramework.Theorems.CapturedFrames
import NetworkingFramework.Theorems.SubnetScans
import NetworkingFramework.Theorems.ArpSearches
import NetworkingFramework.Theorems.ArpScans
import NetworkingFramework.Theorems.AsyncLocks
import NetworkingFramework.Theorems.Tries
import NetworkingFramework.Theorems.PtpPackets
import NetworkingFramework.Theorems.SplitStrings
import NetworkingFramework.Theorems.PtpTexts
import NetworkingFramework.Theorems.Pings
import NetworkingFramework.Theorems.PtpForwarding
import NetworkingFramework.Theorems.PtpSessions
import NetworkingFramework.Theorems.DnsMessages
import NetworkingFramework.Theorems.DnsRecords
import NetworkingFramework.Theorems.DnsLookups
import NetworkingFramework.Theorems.DnsService
import NetworkingFramework.Theorems.DnsReplies
import NetworkingFramework.Theorems.DnsFiles
import NetworkingFramework.Theorems.DnsClients
