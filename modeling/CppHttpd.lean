import CppHttpd.Foundation.Bytes
import CppHttpd.Foundation.Numerals
import CppHttpd.Foundation.Lines
import CppHttpd.Foundation.Entries
import CppHttpd.Foundation.Incremental
import CppHttpd.Foundation.Asking
import CppHttpd.Foundation.Ledger
import CppHttpd.Foundation.Segments
import CppHttpd.Foundation.UriReference
import CppHttpd.Foundation.Html
import CppHttpd.Foundation.Slices
import CppHttpd.Foundation.Threads
import CppHttpd.Foundation.Transition
import CppHttpd.Http.Core.HttpRequest
import CppHttpd.Http.Core.RequestHandlerUtils
import CppHttpd.Http.Core.Htaccess
import CppHttpd.Http.Core.Base64
import CppHttpd.Http.Core.Base64Text
import CppHttpd.Http.Core.Base64Overflow
import CppHttpd.Http.Core.HttpResponse
import CppHttpd.Http.Core.RequestParser
import CppHttpd.Http.Core.ParserStep
import CppHttpd.Http.Core.ParserStream
import CppHttpd.Http.Core.RequestLine
import CppHttpd.Http.Core.RequestWire
import CppHttpd.Http.Core.ContentLength
import CppHttpd.Http.Core.LineLimits
import CppHttpd.Http.Core.Logger
import CppHttpd.Http.Core.AmbiguousFraming
import CppHttpd.Http.Core.DeclaredBody
import CppHttpd.Http.Core.ParserMemory
import CppHttpd.Http.Core.Quiescence
import CppHttpd.Http.Core.StreamBytes
import CppHttpd.Http.Core.RequestBytes
import CppHttpd.Http.Core.RoundTrip
import CppHttpd.Http.Core.ResponseDecoder
import CppHttpd.Os.FileSystem
import CppHttpd.Os.Formatting
import CppHttpd.Foundation.Calendar
import CppHttpd.Os.DateFormat
import CppHttpd.Http.Core.HttpDate
import CppHttpd.Os.Environment
import CppHttpd.Http.Routing.VHostResolver
import CppHttpd.Config.Config
import CppHttpd.Config.ConfigFile
import CppHttpd.Config.ConfigRoundTrip
import CppHttpd.Config.ConfigText
import CppHttpd.Http.Routing.Confinement
import CppHttpd.Http.Routing.ResolvedPath
import CppHttpd.Http.Routing.NormalForm
import CppHttpd.Http.Routing.AcceptedPath
import CppHttpd.Http.Routing.DocumentRoots
import CppHttpd.Http.Connection.ConnectionManager
import CppHttpd.Http.Connection.ServedStream
import CppHttpd.Http.Connection.Transfer
import CppHttpd.Http.Connection.BrokenResponse
import CppHttpd.Http.Connection.Message
import CppHttpd.Http.Handlers.AuthHandler
import CppHttpd.Http.Handlers.StaticFileHandler
import CppHttpd.Http.Handlers.DirectoryHandler
import CppHttpd.Http.Handlers.CgiHandler
import CppHttpd.Http.Handlers.CgiProcess
import CppHttpd.Http.Handlers.CgiWaits
import CppHttpd.Http.Handlers.CgiDialogue
import CppHttpd.Http.Handlers.CgiEnvironment
import CppHttpd.Http.Handlers.RequestHandler
import CppHttpd.Http.Handlers.Route
import CppHttpd.Http.Handlers.Containment
import CppHttpd.Http.Handlers.Framing
import CppHttpd.Http.Handlers.CgiOutput
import CppHttpd.Http.Handlers.CgiFraming
import CppHttpd.Http.Handlers.CgiCalls
import CppHttpd.Http.Handlers.CgiCourse
import CppHttpd.Http.Handlers.CgiRelease
import CppHttpd.Http.Handlers.CgiDescriptors
import CppHttpd.Http.Handlers.BodyFile
import CppHttpd.Http.Handlers.RangeRequests
import CppHttpd.Http.Handlers.RangeGrammar
import CppHttpd.Http.Handlers.ConditionalRequests
import CppHttpd.Http.Handlers.FileVersions
import CppHttpd.Http.Handlers.HeadResponses
import CppHttpd.Http.Handlers.HeadAgreement
import CppHttpd.Http.Handlers.AccessControl
import CppHttpd.Http.Handlers.AccessBypass
import CppHttpd.Http.Handlers.Exposure
import CppHttpd.Http.Handlers.BasicAuth
import CppHttpd.Http.Handlers.LogFile
import CppHttpd.Http.Handlers.MalformedAccess
import CppHttpd.Http.Handlers.ListingLinks
import CppHttpd.Http.Handlers.ListingMarkup
import CppHttpd.Http.Handlers.AccessLog
import CppHttpd.Http.Handlers.AcceptHeader
import CppHttpd.Http.Handlers.Revalidation
import CppHttpd.Http.Connection.ResponseReader
import CppHttpd.Http.Connection.RequestLoop
import CppHttpd.Http.Connection.ServingThread
import CppHttpd.Http.Connection.ExposedObjects
import CppHttpd.Server.Poller
import CppHttpd.Server.SelectMode
import CppHttpd.Server.ConnectionRun
import CppHttpd.Server.LoopAgreement
import CppHttpd.Server.EventLoop
import CppHttpd.Server.EventLoopWorker
import CppHttpd.Server.ConnectionInvariant
import CppHttpd.Server.EdgeReadiness
import CppHttpd.Server.ManagementThread
import CppHttpd.Server.SelectLoops
import CppHttpd.Server.LoopsShutdown
import CppHttpd.Server.Handoff
import CppHttpd.Server.ThreadPool
import CppHttpd.Server.PoolDrain
import CppHttpd.Server.Tls
import CppHttpd.Server.TlsLengths
import CppHttpd.Server.ListenSocket
import CppHttpd.Server.TlsAgreement
import CppHttpd.Server.Delivery
import CppHttpd.Server.ExpectedReplies
import CppHttpd.Server.FileService
import CppHttpd.Server.RangeDownload
import CppHttpd.Server.CgiService
import CppHttpd.Server.ResumedWriting
import CppHttpd.Server.ConnectionHistory
import CppHttpd.Server.SeparateConnections
import CppHttpd.Server.TransferEnds
import CppHttpd.Server.IdleTimeout
