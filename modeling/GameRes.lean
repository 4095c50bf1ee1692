import GameRes.Library.Bytes
import GameRes.Library.Block
import GameRes.Library.Runs
import GameRes.Library.Memory
import GameRes.Library.Numerals
import GameRes.Library.Firsts
import GameRes.Library.Readers
import GameRes.Library.Varint
import GameRes.Protobuf.CodedInputStream
import GameRes.Protobuf.CodedOutputStream
import GameRes.Protobuf.WireFormat
import GameRes.Protobuf.Message
import GameRes.Protobuf.Parsing
import GameRes.Protobuf.Serializing
import GameRes.Protobuf.NetMessage
import GameRes.Protobuf.GeneratedCode
import GameRes.NetApp.TCPServer
import GameRes.NetApp.ConnectionTable
import GameRes.NetApp.ConnectionIds
import GameRes.NetApp.MessageBuffer
import GameRes.NetApp.MessageItems
import GameRes.NetApp.BufferMoves
import GameRes.NetApp.StringInserters
import GameRes.NetApp.BufferPositions
import GameRes.NetApp.ItemQueue
import GameRes.NetApp.TCPClient
import GameRes.NetApp.ReconnectLoop
import GameRes.NetApp.ClientMessages
import GameRes.NetApp.Closing
import GameRes.Server.MessageHead
import GameRes.Server.MessageDispatch
import GameRes.Server.Framing
import GameRes.Server.World
import GameRes.Server.OnlineStreams
import GameRes.Server.Teardown
import GameRes.Server.ReplyRouting
import GameRes.Server.SendQueue
import GameRes.Server.Sessions
import GameRes.Server.Lengths
import GameRes.Server.CLogin
import GameRes.Server.Requests
import GameRes.Server.GameServer
import GameRes.Server.Answers
import GameRes.Server.LogicThread
import GameRes.Server.OwnAnswers
import GameRes.Server.StreamLifetimes
import GameRes.Server.Conversation
import GameRes.Server.Delivery
import GameRes.NetPack.FieldType
import GameRes.NetPack.BinaryReadStream
import GameRes.NetPack.BinaryWriteStream
import GameRes.NetPack.ReadBounds
import GameRes.NetPack.Packing
import GameRes.NetPack.Unpacking
import GameRes.NetPack.RoundTrip
import GameRes.NetPack.ShortPacket
import GameRes.NetPack.Truncation
import GameRes.NetPack.TextStream
import GameRes.NetPack.TextFields
import GameRes.NetPack.TextRoundTrip
import GameRes.NetPack.Overflow
import GameRes.NetPack.StringWrites
import GameRes.NetPack.LostValues
import GameRes.NetPack.RecordVectors
import GameRes.NetPack.WriteCursor
import GameRes.NetPack.TextReads
import GameRes.NetPack.TextLengths
import GameRes.NetPack.NumericFields
import GameRes.DBApp.ThreadPool
import GameRes.DBApp.AppManager
import GameRes.DBApp.WorkerExits
import GameRes.DBApp.SqlConnections
import GameRes.DBApp.UpdatePass
import GameRes.DBApp.DBServer
import GameRes.DBApp.MainLoop
import GameRes.DBApp.Queries
import GameRes.DBApp.Backlog
