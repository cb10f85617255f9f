import Bunix.Kernel.IpcRun
import Bunix.Kernel.IpcFailedSend
import Bunix.Kernel.IpcWakeups
import Bunix.Kernel.SchedFairRun
import Bunix.Kernel.PortReclaim
import Bunix.Kernel.TaskLifeRun
import Bunix.User.ReadSecrecy
import Bunix.User.AccessCache
import Bunix.Kernel.VmRegionOffset
import Bunix.User.TmpfsGrowth
import Bunix.Kernel.PmmReserved
import Bunix.Kernel.SlabRun
import Bunix.Kernel.UserCopy
import Bunix.User.TmpfsListing
import Bunix.Kernel.SchedAffinity
import Bunix.Kernel.SchedHandoff
import Bunix.User.Ext2Truncate
import Bunix.User.PathMutations
import Bunix.User.Pipe
import Bunix.Net.TcpRead
import Bunix.Net.TcpSend
import Bunix.Net.Checksum
import Bunix.Net.TransmitQueue
import Bunix.User.ExecStack
import Bunix.User.Credentials
import Bunix.User.UserHeap
