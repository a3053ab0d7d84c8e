import Faux.Theorems.Fs.Store
import Faux.Theorems.Fs.Readers
import Faux.Theorems.Fs.Handoff
import Faux.Theorems.Dispatch.Receive
import Faux.Theorems.Channel.Rendezvous
import Faux.Theorems.Channel.Recycle
import Faux.Theorems.Fs.Tracking
import Faux.Theorems.Fs.PipeStream
import Faux.Theorems.Net.ConnManager
import Faux.Theorems.Fs.Partition
import Faux.Theorems.Fs.Coverage
import Faux.Theorems.Fs.FdLog
import Faux.Theorems.Fs.ReplySize
import Faux.Theorems.Fs.Chdir
import Faux.Theorems.Fs.Transfer
import Faux.Theorems.Fs.PathBuffer
import Faux.Theorems.Channel.Select
import Faux.Theorems.Services.Core
import Faux.Theorems.Services.Name
import Faux.Theorems.Net.LinkServer
import Faux.Theorems.Net.FlowMap
import Faux.Theorems.Dispatch.Records
import Faux.Theorems.Fd.Table
import Faux.Theorems.Dispatch.Threading
import Faux.Theorems.Utilities.TimeArith
import Faux.Theorems.Utilities.Map
import Faux.Theorems.Fs.Clearing
import Faux.Theorems.Utilities.Lock
import Faux.Theorems.Net.Stream
import Faux.Theorems.Sched.Remote
import Faux.Theorems.Sched.Children
