import Winasio.StepProtocol
import Winasio.ControllerIsolation
import Winasio.ResponseOwnership
import Winasio.ResponseReuse
import Winasio.ReceiveOutcome
import Winasio.ResponseStream
import Winasio.Operation
import Winasio.ReadBody
import Winasio.Client
import Winasio.BodyVector
import Winasio.ReceiveBody
import Winasio.ReceiveBodyHint
import Winasio.ControllerShutdown
import Winasio.Routing
import Winasio.ResponseEncoding
import Winasio.NamedPipe
import Winasio.PipeConnect
import Winasio.AcceptLoop
import Winasio.PipeAcceptor
import Winasio.HttpConnection
import Winasio.UrlComponent
import Winasio.WinhttpHandle
import Winasio.Delimiter
import Winasio.HeaderBlock
import Winasio.StringHeader
import Winasio.AcceptPointers
import Winasio.SyncWrappers
import Winasio.AcceptNesting
import Winasio.EchoClient
import Winasio.EchoServer
import Winasio.EchoProgress
import Winasio.RequestQueue
import Winasio.QueuedReceive
import Winasio.HttpServer
import Winasio.HttpProgress
import Winasio.RequestThreads
import Winasio.ThreadProgress
import Winasio.ThreadedOperations
import Winasio.RequestUpload
import Winasio.UrlRegistration
import Winasio.RequestLifetime
import Winasio.MovableLoop
