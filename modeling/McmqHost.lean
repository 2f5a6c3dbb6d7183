import McmqHost.Base.Bytes
import McmqHost.Base.Machine
import McmqHost.Base.Frames
import McmqHost.Base.Effect
import McmqHost.Base.Generator
import McmqHost.Base.Monitor
import McmqHost.MemorySpace.Ledger
import McmqHost.MemorySpace.Paging
import McmqHost.MemorySpace.Accounts
import McmqHost.MemorySpace.Placement
import McmqHost.MemorySpace.Capacity
import McmqHost.IoThread.Buffers
import McmqHost.IoThread.Exhaustion
import McmqHost.IoThread.Returning
import McmqHost.IoThread.SubmissionRing
import McmqHost.IoThread.Scheduler
import McmqHost.Driver.Host
import McmqHost.Driver.Failure
import McmqHost.Driver.Start
import McmqHost.Driver.Creation
import McmqHost.Driver.Footprint
import McmqHost.Driver.ReadWrite
import McmqHost.Driver.Describe
import McmqHost.Driver.Device
import McmqHost.Driver.Session
import McmqHost.Driver.Io
import McmqHost.Driver.Lifecycle
import McmqHost.Driver.Completion
import McmqHost.Driver.Interrupt
import McmqHost.Driver.ListPages
import McmqHost.Driver.PrpWalk
import McmqHost.Driver.Transfer
import McmqHost.Driver.Doorbell
import McmqHost.Link.Waiting
import McmqHost.Link.Reads
import McmqHost.Link.Message
import McmqHost.Link.Receive
import McmqHost.Link.Result
import McmqHost.Link.RingReceive
import McmqHost.Config.Reader
import McmqHost.IoThread.Synthetic
import McmqHost.IoThread.Workload
import McmqHost.Base.Storage
