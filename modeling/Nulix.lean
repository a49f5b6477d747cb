import Nulix.Lib.Fallible
import Nulix.Lib.OrTree
import Nulix.Lib.Pool
import Nulix.Kpm.Bits
import Nulix.Kpm.Update
import Nulix.Kpm.Pool
import Nulix.Kpm.Alloc
import Nulix.Kpm.Tree
import Nulix.Kpm.Init
import Nulix.Kpm.Exclusive
import Nulix.Kpm.Boot
import Nulix.Kpm.Table
import Nulix.Kpm.Choice
import Nulix.Kpm.Release
import Nulix.Kpm.Ranges
import Nulix.Lib.Ring
import Nulix.Lib.Runs
import Nulix.Screen.Basic
import Nulix.Screen.Frame
import Nulix.Screen.Pointers
import Nulix.Screen.Cursor
import Nulix.Screen.Terminal
import Nulix.Screen.Window
import Nulix.Screen.Screens
import Nulix.Screen.Background
import Nulix.Screen.Rows
import Nulix.Screen.Undo
import Nulix.Lib.Strings
import Nulix.Print
import Nulix.Nsh.Basic
import Nulix.Nsh.Line
import Nulix.Nsh.Alloc
import Nulix.Lib.Tokens
import Nulix.Nsh.Tokenize
import Nulix.Lib.Positional
import Nulix.Std.Basic
import Nulix.Std.Strto
import Nulix.Print.Numbers
import Nulix.Print.Format
import Nulix.Print.Compose
import Nulix.Print.RoundTrip
import Nulix.Nsh.Free
import Nulix.Rtc.Basic
import Nulix.Rtc.Calendar
import Nulix.Rtc.Decode
import Nulix.Rtc.Snapshot
import Nulix.Paging
import Nulix.Nsh.Session
import Nulix.Lib.History
import Nulix.Keyboard.Basic
import Nulix.Keyboard.Modifiers
import Nulix.Screen.Hardware
import Nulix.Screen.Scroll
import Nulix.Nsh.Dispatch
import Nulix.Print.Truncate
import Nulix.Nsh.Complete
import Nulix.Lib.Signed
import Nulix.Rtc.Timestamp
import Nulix.Keyboard.Keymaps
import Nulix.Keyboard.Range
import Nulix.Nsh.Hexdump
import Nulix.Lib.Effects
import Nulix.Nsh.Builtins
import Nulix.Nsh.Arguments
import Nulix.Lib.Accesses
import Nulix.Str.Basic
import Nulix.Lib.Compare
import Nulix.Str.Compare
import Nulix.Str.Search
import Nulix.Str.Copy
import Nulix.Str.Strchr
import Nulix.Str.Strtok
import Nulix.Gdt
import Nulix.Lib.BitFields
import Nulix.Spinlock
import Nulix.Kpm.Books
import Nulix.Kpm.Isolation
import Nulix.Kernel.Tables
import Nulix.Kernel.Pic
import Nulix.Kernel.Reports
import Nulix.Kernel.Basic
import Nulix.Keyboard.Typing
import Nulix.Kpm.Supply
import Nulix.Kernel.Commands
import Nulix.Kernel.Running
import Nulix.Kernel.Refinement
import Nulix.Kernel.Sessions
import Nulix.Kernel.Invariants
import Nulix.Kernel.RoundTrip
