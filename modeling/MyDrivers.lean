import MyDrivers.Store.Size
import MyDrivers.Store.Bounds
import MyDrivers.Store.RoundTrip
import MyDrivers.Store.Retrim
import MyDrivers.Store.Settings
import MyDrivers.Store.Reinit
import MyDrivers.Store.Ledger
import MyDrivers.Store.EndOfFile
import MyDrivers.Store.Seq
import MyDrivers.Store.Listing
import MyDrivers.Store.Overlap
import MyDrivers.Pipe.Fifo
import MyDrivers.Pipe.Handles
import MyDrivers.Pipe.Discipline
import MyDrivers.Pipe.Async
import MyDrivers.Access.Progress
import MyDrivers.Pipe.Progress
import MyDrivers.Pipe.Wakeups
import MyDrivers.Pipe.Poll
import MyDrivers.Pipe.Nonblock
import MyDrivers.Access.Ownership
import MyDrivers.Access.Waiting
import MyDrivers.Access.Isolation
import MyDrivers.Load.Balance
import MyDrivers.Load.Single
import MyDrivers.Globalmem.Seek
import MyDrivers.Globalmem.Loops
import MyDrivers.Misc.Buffers
import MyDrivers.Misc.Delay
import MyDrivers.Misc.Timer
import MyDrivers.Misc.Works
import MyDrivers.Misc.Wakeup
