import Mccp.Cbuffer.Behaviour
import Mccp.Cbuffer.Waiting
import Mccp.Cbuffer.Wrap
import Mccp.Qmuxer.Registration
import Mccp.Gstate.Opening
import Mccp.Gstate.Handshake
import Mccp.Lock.Rwlock
import Mccp.Lock.Mutex
import Mccp.Thread.OneRun
import Mccp.Thread.Known
import Mccp.Pipeline.Consistency
import Mccp.Pipeline.RepeatedPause
import Mccp.Pipeline.FreshStart
import Mccp.Hashmap.Refinement
import Mccp.Str.Quote
import Mccp.Str.NumberSound
import Mccp.Modules.Lifecycle
import Mccp.Pipeline.Drain
import Mccp.Cbuffer.Fate
import Mccp.Hashmap.Fate
import Mccp.Qmuxer.Sleepers
import Mccp.Pipeline.Resume
import Mccp.Pipeline.PauseLock
import Mccp.Str.Split
import Mccp.Str.Reading
import Mccp.Str.Unescape
import Mccp.Str.ByBase
import Mccp.Hashmap.Iterate
import Mccp.Qmuxer.Passes
import Mccp.Qmuxer.PollObject
import Mccp.Pipeline.WaitBudget
import Mccp.Modules.WaitAll
import Mccp.Cbuffer.Timeouts
import Mccp.Lock.Deadline
import Mccp.Gstate.Waiters
import Mccp.Cbuffer.Allocation
import Mccp.Pipeline.Creation
import Mccp.Thread.Finish
import Mccp.Logger.Config
import Mccp.Chrono.Nanosleep
import Mccp.Signal.Disposition
import Mccp.Gstate.Sleepers
import Mccp.Main.Exit
import Mccp.Thread.Join
import Mccp.Hashmap.Statistics
import Mccp.Qmuxer.Awaiting
import Mccp.Events.Delivery
import Mccp.Main.Shutdown
import Mccp.Counting.Numbers
import Mccp.Logger.Messages
import Mccp.Logger.Text
import Mccp.Gstate.Janitor
import Mccp.Cbuffer.Cancelled
