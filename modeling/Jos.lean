import Jos.Lib.Linked
import Jos.Lib.RefCount
import Jos.Lib.Fallible
import Jos.Lib.Lifecycle
import Jos.Lib.Mutex
import Jos.AddrSpace
import Jos.UserMem
import Jos.PmapRun
import Jos.MapCalls
import Jos.IpcCalls
import Jos.SchedSpec
import Jos.RefOverflow
import Jos.Smp
import Jos.NoPanic
import Jos.Uniprocessor
import Jos.Errors
import Jos.Sharing
import Jos.Windows
import Jos.Confine
import Jos.KernelLock
import Jos.UpcallEntry
import Jos.Tlb
import Jos.PageInsert
import Jos.EnvFree
import Jos.KernelMap
import Jos.Mmio
import Jos.ExcStack
import Jos.Interrupts
import Jos.IoPorts
import Jos.Cputs
import Jos.Reserved
import Jos.PageLookup
import Jos.RoundRobin
import Jos.DetectMemory
import Jos.FreeList
import Jos.Edc.Alu
import Jos.Edc.KeyCount
import Jos.Edc.Datamem
import Jos.Edc.Clockl
import Jos.Xv6.Dup2
import Jos.Uvpt
import Jos.KdebugSpec
import Jos.StabBracket
import Jos.BootAlloc
import Jos.MpConfig
import Jos.PrintfmtSpec
import Jos.Elf
import Jos.Mail
import Jos.EnvsWindow
import Jos.Lib.Mailbox
import Jos.Ipc
import Jos.IpcSpec
import Jos.Memmove
import Jos.ConsoleSpec
import Jos.ForkSpec
import Jos.Xv6.LogRoom
import Jos.Xv6.PipeSpec
import Jos.Xv6.PtableRun
import Jos.PrimesSpec
