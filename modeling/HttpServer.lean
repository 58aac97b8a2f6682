import HttpServer.Lib.MachineInt
import HttpServer.Lib.Scanner
import HttpServer.Lib.PackedTable
import HttpServer.Common
import HttpServer.RequestUtil
import HttpServer.ParserTables
import HttpServer.Parser
import HttpServer.ParserGrammar
import HttpServer.ReadBuffer
import HttpServer.ParserInvariant
import HttpServer.ParserRuns
import HttpServer.HeadMachine
import HttpServer.BodyPhases
import HttpServer.ParserCalls
import HttpServer.HeadGrammar
import HttpServer.HeadSoundness
import HttpServer.HeadRuns
import HttpServer.PrintBuffer
import HttpServer.Respond
import HttpServer.Lib.Runs
import HttpServer.Connection
import HttpServer.ConnectionSteps
import HttpServer.ConnectionInvariant
import HttpServer.AnsweredRequests
import HttpServer.ArrivedRequests
import HttpServer.ChunkChains
import HttpServer.ChunkDecoder
import HttpServer.ChunkedResponse
import HttpServer.Compaction
import HttpServer.EndsOfStream
import HttpServer.FreedBuffers
import HttpServer.HeaderLists
import HttpServer.IntactHeads
import HttpServer.PrintInvariant
import HttpServer.ReadLoop
import HttpServer.SequenceNumbers
import HttpServer.ServerMemory
import HttpServer.SharedErrno
import HttpServer.StreamedFlag
import HttpServer.Timeouts
import HttpServer.TokenLimits
import HttpServer.WaitingReads
import HttpServer.WakeUps
import HttpServer.WrittenResponses
import HttpServer.HandlerCalls
import HttpServer.LineBreaks
import HttpServer.HandlerCounts
import HttpServer.RefusedConnections
import HttpServer.TokenArray
import HttpServer.Isolation
import HttpServer.Lib.Messages
import HttpServer.ReadableResponses
import HttpServer.StateDiagram
import HttpServer.ChunkedBodies
import HttpServer.EncodedChunks
import HttpServer.OwnHeads
import HttpServer.Lib.FairRuns
import HttpServer.WritableSockets
