import Pintos.Properties.InterruptContext
import Pintos.Properties.Lock
import Pintos.Properties.Filesys.CreateAtomic
import Pintos.Properties.Filesys.SectorOwnership
import Pintos.Properties.Filesys.Persistence
import Pintos.Properties.Filesys.DirectoryMap
import Pintos.Properties.Userprog.Handshake
import Pintos.Properties.Userprog.Wait
import Pintos.Properties.Userprog.Exec
import Pintos.Properties.Userprog.DescriptorTable
import Pintos.Properties.Userprog.Executable
import Pintos.Properties.Userprog.FilesysLock
import Pintos.Properties.WakeOrder
import Pintos.Properties.MlfqsArithmetic
import Pintos.Properties.Devices.Monitor
import Pintos.Properties.ListRefinement
import Pintos.Properties.ConditionRun
import Pintos.Properties.Palloc
import Pintos.Properties.PagedirDestroy
import Pintos.Properties.Userprog.StringCheck
import Pintos.Properties.PriorityRange
import Pintos.Properties.TimerSleep
import Pintos.Properties.Random
import Pintos.Properties.CommandLine
import Pintos.Properties.Strtok
import Pintos.Properties.Memmove
import Pintos.Properties.Userprog.Arguments
import Pintos.Properties.Userprog.Load
import Pintos.Properties.Hash
import Pintos.Properties.Filesys.Archive
import Pintos.Properties.MlfqsRounding
import Pintos.Properties.Arithmetic
import Pintos.Properties.WordBitmap
import Pintos.Properties.BinarySearch
import Pintos.Properties.ListSort
import Pintos.Properties.RoundRobin
import Pintos.Properties.Userprog.Offset
import Pintos.Properties.MallocCapacity
import Pintos.Properties.Devices.Rtc
import Pintos.Properties.Devices.Partition
import Pintos.Properties.Stdio
import Pintos.Properties.Userprog.Exit
