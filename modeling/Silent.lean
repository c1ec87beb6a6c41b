import Silent.AcceptBackoff
import Silent.AcceptLoop
import Silent.BodyContract
import Silent.BodyLimits
import Silent.BodyParsing
import Silent.CaptureRanges
import Silent.CertificateReload
import Silent.ClientAddress
import Silent.CompressionFrame
import Silent.ConnectionMetrics
import Silent.ConnectionSharing
import Silent.CorsMiddleware
import Silent.CronPace
import Silent.CronSeconds
import Silent.CrossOrigin
import Silent.DatagramBucket
import Silent.DatagramLoop
import Silent.DocMarks
import Silent.DocsPages
import Silent.Effects
import Silent.EncodingRefusals
import Silent.EndpointDocs
import Silent.EndpointMacro
import Silent.Extractors
import Silent.FormEncodings
import Silent.FormValues
import Silent.FrozenTree
import Silent.GracefulShutdown
import Silent.GrpcMounts
import Silent.Http3Chunks
import Silent.IndexedLookup
import Silent.Interleaving
import Silent.KeepAliveStream
import Silent.ListingLinks
import Silent.ListingMarkup
import Silent.MiddlewareScope
import Silent.MountedHandlers
import Silent.MultipartRead
import Silent.NetText
import Silent.Numerals
import Silent.OpenApiDocument
import Silent.OperationIds
import Silent.PathConversion
import Silent.PathExtractor
import Silent.PercentCoding
import Silent.PieceStream
import Silent.QuicFallback
import Silent.ReadOnce
import Silent.RecordVisitor
import Silent.RemoteAddress
import Silent.RequestBody
import Silent.RequestIds
import Silent.RequestLimiter
import Silent.Responses
import Silent.RouteRegistration
import Silent.RouteTable
import Silent.RouterCompleteness
import Silent.RouterOffsets
import Silent.SchedulerRuns
import Silent.SessionCookies
import Silent.SessionPersistence
import Silent.SseData
import Silent.SseEvent
import Silent.SseReply
import Silent.StateLayers
import Silent.StaticDelivery
import Silent.StaticFiles
import Silent.StaticMounts
import Silent.TokenBucket
import Silent.TowerCompat
import Silent.TrailingSlash
import Silent.TransportAgreement
import Silent.TypedParams
import Silent.UploadOwners
import Silent.UploadedFile
import Silent.UrlReference
import Silent.Utf8Text
import Silent.WebSocketMounts
import Silent.WebSocketSession
import Silent.WebSocketUpgrade
