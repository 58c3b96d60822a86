import Serveza.AcceptorBooks
import Serveza.AcceptorStart
import Serveza.ArmedDelays
import Serveza.BackoffHonoured
import Serveza.BoundSession
import Serveza.Callbacks
import Serveza.CancelledWait
import Serveza.ControlLifecycle
import Serveza.ControlProgress
import Serveza.Diagnostics
import Serveza.Dispatch
import Serveza.ErrorBudget
import Serveza.EventOrder
import Serveza.ExceptionCodes
import Serveza.FanOutJoin
import Serveza.FirstCause
import Serveza.GraceDeadline
import Serveza.GroupCancellation
import Serveza.HealthyStart
import Serveza.Lifecycle
import Serveza.ListenerStops
import Serveza.ObserverDelivery
import Serveza.OwnedShutdown
import Serveza.PublishedStatus
import Serveza.ServerLifecycle
import Serveza.SessionAdapters
import Serveza.SessionEvents
import Serveza.SocketStart
import Serveza.StartOrder
import Serveza.StopAfterStart
import Serveza.Waits
