import KontolOS.Lib.Memory
import KontolOS.Lib.Run
import KontolOS.Lib.Loop
import KontolOS.Lib.Tracks
import KontolOS.Lib.Tiling
import KontolOS.Lib.FirstFit
import KontolOS.Lib.Ring
import KontolOS.Lib.Page
import KontolOS.Lib.Positions
import KontolOS.Lib.Split
import KontolOS.Lib.Words
import KontolOS.Lib.Numeral
import KontolOS.Lib.Search
import KontolOS.Lib.Text
import KontolOS.Lib.Document
import KontolOS.Lib.Geometry
import KontolOS.Lib.Stack
import KontolOS.Lib.Sheet
import KontolOS.Lib.Overlay
import KontolOS.Lib.Gaps
import KontolOS.Lib.Tally
import KontolOS.Memory.Heap
import KontolOS.Memory.Layout
import KontolOS.Memory.Kmalloc
import KontolOS.Memory.Kfree
import KontolOS.Memory.Clients
import KontolOS.Memory.Steps
import KontolOS.Memory.Move
import KontolOS.Memory.Invariants
import KontolOS.Memory.Overflow
import KontolOS.Memory.Room
import KontolOS.Memory.Spare
import KontolOS.Memory.Crowd
import KontolOS.Memory.Complete
import KontolOS.Memory.Realloc
import KontolOS.Memory.Calloc
import KontolOS.Memory.DoubleFree
import KontolOS.Memory.UsedBlocks
import KontolOS.Strings
import KontolOS.Strings.Copy
import KontolOS.Strings.Itoa
import KontolOS.Strings.Atoi
import KontolOS.Strings.Search
import KontolOS.Strings.Order
import KontolOS.Drivers.Keyboard
import KontolOS.Drivers.KeyQueue
import KontolOS.Drivers.Modifiers
import KontolOS.Drivers.Typing
import KontolOS.Drivers.Timer
import KontolOS.Drivers.Vga
import KontolOS.Drivers.Screen
import KontolOS.Drivers.Output
import KontolOS.Drivers.Decimal
import KontolOS.Drivers.Hexadecimal
import KontolOS.Drivers.Cursor
import KontolOS.Drivers.PrintAt
import KontolOS.Drivers.Scrolling
import KontolOS.Drivers.Readline
import KontolOS.Drivers.Erase
import KontolOS.Drivers.Visible
import KontolOS.Drivers.Centered
import KontolOS.Fs.Ramfs
import KontolOS.Fs.System
import KontolOS.Fs.Directory
import KontolOS.Fs.Table
import KontolOS.Fs.Ownership
import KontolOS.Fs.Operations
import KontolOS.Fs.Contents
import KontolOS.Fs.Steps
import KontolOS.Fs.Spare
import KontolOS.Fs.Append
import KontolOS.Fs.Atomicity
import KontolOS.Fs.Consistency
import KontolOS.Fs.Leaks
import KontolOS.Fs.Listing
import KontolOS.Fs.CurrentDir
import KontolOS.Fs.Blocks
import KontolOS.Fs.Refinement
import KontolOS.Fs.Capacity
import KontolOS.Shell.Lines
import KontolOS.Shell.Nano
import KontolOS.Shell.NanoText
import KontolOS.Shell.NanoSave
import KontolOS.Shell.NanoBlocks
import KontolOS.Shell.NanoFile
import KontolOS.Shell.Ls
import KontolOS.Shell.Color
import KontolOS.Shell.NanoSpare
import KontolOS.Shell.NanoModified
import KontolOS.Shell.NanoRun
import KontolOS.Shell.NanoDoc
import KontolOS.Shell.NanoFault
import KontolOS.Shell.NanoNull
import KontolOS.Shell.NanoRoundTrip
import KontolOS.Shell.NanoDraw
import KontolOS.Shell.NanoScreen
import KontolOS.Shell.Balance
import KontolOS.Shell.Command
import KontolOS.Shell.Arguments
import KontolOS.Shell.Echo
import KontolOS.Shell.Prompt
import KontolOS.Shell.Files
import KontolOS.Shell.Report
import KontolOS.Shell.NanoCapacity
import KontolOS.Shell.Machine
import KontolOS.Shell.NanoCommand
import KontolOS.Shell.Desk
import KontolOS.Shell.DeskFiles
import KontolOS.Shell.DeskEditor
import KontolOS.Shell.DeskSession
import KontolOS.Shell.DeskRun
import KontolOS.Shell.DeskScript
import KontolOS.Shell.Sessions
import KontolOS.Shell.Accesses
import KontolOS.Boot.Machine
import KontolOS.Boot.Kernel
import KontolOS.Boot.Gates
import KontolOS.Boot.Isr
import KontolOS.Boot.Transparent
import KontolOS.Boot.Image
import KontolOS.Boot.Stage2
import KontolOS.Boot.Handover
import KontolOS.Boot.Exceptions
import KontolOS.Boot.Startup
import KontolOS.Boot.Progress
import KontolOS.Boot.Stage1
