import Xv6.Param
import Xv6.Lib.Writes
import Xv6.Lib.LittleEndian
import Xv6.Lib.StateExcept
import Xv6.Lib.Trace
import Xv6.Lib.Ring
import Xv6.Lib.DList
import Xv6.Kernel.String
import Xv6.Fs.Log
import Xv6.Fs.LogCrash
import Xv6.Fs.LogTxn
import Xv6.Fs.Bio
import Xv6.Fs.Layout
import Xv6.Fs.Inode
import Xv6.Fs.Dir
import Xv6.Fs.Path
import Xv6.Fs.Mkfs
import Xv6.Fs.MkfsLayout
import Xv6.Fs.MkfsImage
import Xv6.Fs.MkfsKernel
import Xv6.Fs.RootHole
import Xv6.Fs.SysFile
import Xv6.Fs.RootHoleLink
import Xv6.Fs.ReadWrite
import Xv6.Vm.State
import Xv6.Vm.Vm
import Xv6.Vm.Mappages
import Xv6.Vm.Paging
import Xv6.Vm.Syscall
import Xv6.Vm.Exec
import Xv6.Vm.Process
import Xv6.Proc.Table
import Xv6.Proc.SwapPath
import Xv6.Proc.Fork
import Xv6.Ipc.Pipe
import Xv6.Dev.Console
import Xv6.Dev.Format
import Xv6.User.Umalloc
import Xv6.User.Grep
import Xv6.User.Sh
import Xv6.User.ShLex
import Xv6.User.ShParse
