import JosSched.Kern.TrapPaths
import JosSched.Kern.UserMode
import JosSched.Kern.Printfmt
import JosSched.Kern.EnvTable
import JosSched.Kern.EnvId
import JosSched.Kern.PageInit
import JosSched.Kern.Links
import JosSched.Smp.Isolation
import JosSched.Smp.Window
import JosSched.Sched.Confinement
import JosSched.Sched.Priority
import JosSched.Sched.Starvation
import JosSched.Sched.Equal
import JosSched.Sched.Share
import JosSched.Sched.Wakeup
import JosSched.Sched.Accounting
import JosSched.Sched.History
import JosSched.Ipc.EndToEnd
import JosSched.Lib.RefCount
import JosSched.Lib.SpinLock
import JosSched.Smp.Lock
import JosSched.Vm.Tables
import JosSched.Vm.Space
import JosSched.Vm.UserMem
import JosSched.User.Pgfault
import JosSched.User.SetUpcall
import JosSched.Vm.EnvFree
import JosSched.User.Upcall
import JosSched.User.ExceptionStack
import JosSched.User.View
import JosSched.Lib.Queue
import JosSched.Kern.Console
import JosSched.Kern.Kdebug
import JosSched.Smp.Counted
import JosSched.User.Thread
import JosSched.User.ThreadCalls
import JosSched.Vm.SharedSpaces
import JosSched.Smp.Aloof
import JosSched.Kern.MemInit
import JosSched.Smp.AboveUtop
import JosSched.Smp.Confined
