import Xv6.Lib.Bytes
import Xv6.Lib.Path
import Xv6.Lib.Prog
import Xv6.Lib.Ring
import Xv6.Lib.Slots
import Xv6.Lib.Solo
import Xv6.Lib.Tally
import Xv6.Lib.Traced
import Xv6.Lib.Transition
import Xv6.Lib.Views
import Xv6.Lib.Writes
import Xv6.Param
import Xv6.Disk.Block
import Xv6.Disk.Virtio
import Xv6.Disk.VirtioChains
import Xv6.Disk.VirtioFlow
import Xv6.Disk.VirtioProtocol
import Xv6.Bio.Cache
import Xv6.Log.Capacity
import Xv6.Log.Coherence
import Xv6.Log.Control
import Xv6.Log.Crash
import Xv6.Log.Group
import Xv6.Log.Pins
import Xv6.Log.Program
import Xv6.Log.System
import Xv6.Ipc.Pipe
import Xv6.Ipc.PipeFifo
import Xv6.Ipc.PipeRead
import Xv6.Ipc.PipeWakeup
import Xv6.Fs.Action
import Xv6.Fs.Base
import Xv6.Fs.Cached
import Xv6.Fs.Content
import Xv6.Fs.Create
import Xv6.Fs.Data
import Xv6.Fs.Dir
import Xv6.Fs.DirMap
import Xv6.Fs.Format
import Xv6.Fs.Itable
import Xv6.Fs.ItableInv
import Xv6.Fs.ItableProtocol
import Xv6.Fs.Keeps
import Xv6.Fs.Kernel
import Xv6.Fs.Layout
import Xv6.Fs.Link
import Xv6.Fs.LinkCount
import Xv6.Fs.LinkRuns
import Xv6.Fs.LogSpace
import Xv6.Fs.Logged
import Xv6.Fs.Open
import Xv6.Fs.Own
import Xv6.Fs.Ownership
import Xv6.Fs.Reads
import Xv6.Fs.Reservation
import Xv6.Fs.Room
import Xv6.Fs.Rules
import Xv6.Fs.Solo
import Xv6.Fs.SoloActions
import Xv6.Fs.Syscall
import Xv6.Fs.Transaction
import Xv6.Fs.Unlink
import Xv6.Fs.UserWrite
import Xv6.Fs.View
import Xv6.Fs.Walk
import Xv6.Proc.Family
import Xv6.Proc.Kill
import Xv6.Proc.Sleep
import Xv6.Proc.Smp
import Xv6.Proc.SmpInv
import Xv6.Proc.SmpSteps
import Xv6.Proc.Table
import Xv6.Proc.Wait
import Xv6.File.Descriptors
import Xv6.File.Lifetime
import Xv6.File.Refs
import Xv6.File.Table
import Xv6.Dev.Console
import Xv6.Dev.Printf
import Xv6.Vm.Code
import Xv6.Vm.Machine
import Xv6.Vm.Table
import Xv6.Vm.UserCopy
import Xv6.Vm.UserString
import Xv6.User.Pingpong
import Xv6.User.Ulib
import Xv6.User.Shell
import Xv6.User.ShellParse
import Xv6.User.Sleep
import Xv6.User.ShellTokens
import Xv6.User.Grep
import Xv6.User.GrepLines
import Xv6.User.Umalloc
import Xv6.User.UmallocInv
import Xv6.User.UmallocSound
import Xv6.User.UmallocBrk
import Xv6.Memmove
import Xv6.Sleeplock
import Xv6.Proc.Tree
