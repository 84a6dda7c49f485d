import Aesd.ProofKit.Run
import Aesd.ProofKit.Heap
import Aesd.ProofKit.Window
import Aesd.ProofKit.Segments
import Aesd.ProofKit.LockedLog
import Aesd.ProofKit.Slist
import Aesd.ProofKit.Noted
import Aesd.ProofKit.CString
import Aesd.ProofKit.Custody
import Aesd.ProofKit.WaitStatus
import Aesd.ProofKit.CriticalSection
import Aesd.ProofKit.Descriptors
import Aesd.ProofKit.Numerals
import Aesd.Driver.Fifo
import Aesd.Driver.Ownership
import Aesd.Driver.Write
import Aesd.Driver.Read
import Aesd.Driver.Module
import Aesd.Driver.Runs
import Aesd.Driver.MemorySafety
import Aesd.Driver.Seek
import Aesd.Driver.Drain
import Aesd.Driver.Position
import Aesd.Driver.Calls
import Aesd.Driver.Conservation
import Aesd.Driver.Lookup
import Aesd.Driver.Leaks
import Aesd.Driver.Bounds
import Aesd.Driver.Statements
import Aesd.Driver.Interleaving
import Aesd.Driver.Device
import Aesd.Driver.Lifetime
import Aesd.Server.Response
import Aesd.Server.ConnectionList
import Aesd.Server.DeviceResponse
import Aesd.Server.Sequential
import Aesd.Server.GetlineEnds
import Aesd.Server.SeekGrammar
import Aesd.Server.Sweep
import Aesd.Server.Releases
import Aesd.Server.Failures
import Aesd.Server.ThreadCreation
import Aesd.Server.Progress
import Aesd.Server.Sessions
import Aesd.Server.DeviceRecords
import Aesd.Server.Reception
import Aesd.Server.TimerReleases
import Aesd.Server.Startup
import Aesd.Server.Process
import Aesd.Server.Signals
import Aesd.Server.Waiting
import Aesd.Server.Shutdown
import Aesd.Server.Timestamps
import Aesd.WriteAll
import Aesd.Threading
import Aesd.Systemcalls
