import Zsl.Types.EstringOrder
import Zsl.Iouring.TaskAwait
import Zsl.Iouring.Wakeup
import Zsl.Iouring.SingleShot
import Zsl.Iouring.SubmitFailure
import Zsl.Lib.RingBuffer
import Zsl.Iouring.DrainTheorems
import Zsl.Iouring.SocketTheorems
import Zsl.Iouring.RingAffinityTheorems
import Zsl.Types.Bitset
import Zsl.Iouring.Transfer
import Zsl.Iouring.Timespec
import Zsl.Iouring.Exhaustion
import Zsl.Iouring.Address
import Zsl.FixedPoint.Multiplication
import Zsl.FixedPoint.FromInteger
import Zsl.FixedPoint.LongDouble
import Zsl.FixedPoint.Limits
import Zsl.Types.EstringFamily
import Zsl.Iouring.TimespecOrder
import Zsl.Iouring.RingRefinement
import Zsl.Iouring.Ledger
import Zsl.Iouring.Awaiter
import Zsl.Iouring.EchoProgress
import Zsl.Iouring.IdleMonitor
import Zsl.Iouring.TcpServer
