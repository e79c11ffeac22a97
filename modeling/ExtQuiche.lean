import ExtQuiche.Driver.Announce
import ExtQuiche.Driver.Conservation
import ExtQuiche.Driver.Flush
import ExtQuiche.Driver.Readiness
import ExtQuiche.Driver.Return
import ExtQuiche.Driver.Taken
import ExtQuiche.Driver.Unbounded
import ExtQuiche.Driver.Wakeup
import ExtQuiche.Host.Config
import ExtQuiche.Host.Descriptors
import ExtQuiche.Host.Eventfd
import ExtQuiche.Host.Return
import ExtQuiche.Host.Runtime
import ExtQuiche.Host.Signals
import ExtQuiche.Host.Socket
import ExtQuiche.Server.SelfDeadlock
import ExtQuiche.System.Attribution
import ExtQuiche.System.Bounds
import ExtQuiche.System.Cleanup
import ExtQuiche.System.Departed
import ExtQuiche.System.Delivery
import ExtQuiche.System.Handling
import ExtQuiche.System.Isolated
import ExtQuiche.System.Loop
import ExtQuiche.System.Network
import ExtQuiche.System.Order
import ExtQuiche.System.ServerClose
import ExtQuiche.System.Severed
import ExtQuiche.System.WritePath
