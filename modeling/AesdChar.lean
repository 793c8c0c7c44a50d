import AesdChar.CodeLib.CInt
import AesdChar.CodeLib.CString
import AesdChar.CodeLib.Cut
import AesdChar.CodeLib.Mealy
import AesdChar.CodeLib.Ring
import AesdChar.CodeLib.Segments
import AesdChar.CodeLib.Splice
import AesdChar.CodeLib.Heap
import AesdChar.CodeLib.SList
import AesdChar.CodeLib.Ledger
import AesdChar.CircularBuffer.Basic
import AesdChar.CircularBuffer.Fifo
import AesdChar.CircularBuffer.Lookup
import AesdChar.CircularBuffer.Steps
import AesdChar.Driver.Basic
import AesdChar.Driver.CommandLog
import AesdChar.Driver.Write
import AesdChar.Driver.Read
import AesdChar.Driver.Seek
import AesdChar.Driver.History
import AesdChar.Driver.Addressing
import AesdChar.Driver.Window
import AesdChar.Driver.Ownership
import AesdChar.Driver.LogDriver
import AesdChar.Driver.Llseek
import AesdChar.Driver.Pending
import AesdChar.Driver.InitModule
import AesdChar.Driver.Startup
import AesdChar.Driver.Framing
import AesdChar.Driver.Reader
import AesdChar.Server.Receive
import AesdChar.Server.Worker
import AesdChar.Server.Progress
import AesdChar.Server.Terminator
import AesdChar.Server.Reply
import AesdChar.Server.SeekRequest
import AesdChar.Server.Serial
import AesdChar.Server.Copies
import AesdChar.Server.RegularFile
import AesdChar.Server.ReadBack
import AesdChar.Server.FileBackend
import AesdChar.Server.Main
import AesdChar.Server.ControlFlow
import AesdChar.Server.LifeCycle
import AesdChar.Server.ExactlyOnce
import AesdChar.Server.Reaping
import AesdChar.CodeLib.PieceRing
import AesdChar.CodeLib.WaitQueue
import AesdChar.CodeLib.Registry
import AesdChar.Scull.Ioctl
import AesdChar.Scull.Pipe.Basic
import AesdChar.Scull.Pipe.Ring
import AesdChar.Scull.Pipe.Invariant
import AesdChar.Scull.Pipe.Refine
import AesdChar.Scull.Pipe.Stream
import AesdChar.Scull.Pipe.Waiting
import AesdChar.Scull.Pipe.Answers
import AesdChar.Scull.Bare.Basic
import AesdChar.Scull.Bare.Layout
import AesdChar.Scull.Bare.File
import AesdChar.Scull.Bare.System
import AesdChar.Scull.Bare.Refine
import AesdChar.Scull.Bare.Runs
import AesdChar.Scull.Bare.RoundTrip
import AesdChar.Scull.Access.Single
import AesdChar.Scull.Access.Owner
import AesdChar.Scull.Access.Clone
