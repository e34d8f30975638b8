import KLStream.Queue.Ring
import KLStream.Queue.Invariant
import KLStream.Queue.Fifo
import KLStream.Queue.Refinement
import KLStream.Queue.Close
import KLStream.Queue.Counters
import KLStream.Queue.Threads
import KLStream.Queue.Wakeup
import KLStream.Runtime.Graph
import KLStream.Runtime.Lifecycle
import KLStream.Runtime.Scheduler
import KLStream.Runtime.RoundRobin
import KLStream.Runtime.Statistics
import KLStream.Runtime.Operator
import KLStream.Runtime.Exec
import KLStream.Runtime.Backpressure
import KLStream.Runtime.Exclusion
import KLStream.Runtime.Drain
import KLStream.Runtime.Shutdown
import KLStream.Runtime.Dataflow
import KLStream.Runtime.Pipeline
import KLStream.Runtime.Order
import KLStream.Runtime.SourceThread
import KLStream.Runtime.WorkerStats
import KLStream.Runtime.Metrics
import KLStream.Operators.Source
import KLStream.Operators.Event
import KLStream.Operators.Sink
import KLStream.Operators.Transform
