import MikoOS.FirstFit
import MikoOS.Noninterference
import MikoOS.E820Collection
import MikoOS.MetadataSafety
import MikoOS.KeyboardQueue
import MikoOS.InterruptSafety
import MikoOS.MemoryFunctions
import MikoOS.ReleaseOutcome
import MikoOS.LoadLoops
import MikoOS.Console
import MikoOS.ModeList
import MikoOS.KeyboardInit
import MikoOS.UserReturn
import MikoOS.TaskSwitch
import MikoOS.ReferenceCounts
import MikoOS.TaskStates
import MikoOS.TextGrid
import MikoOS.ImageLoading
import MikoOS.Exceptions
import MikoOS.LongMode
import MikoOS.ProcessorMode
import MikoOS.SharedConsole
import MikoOS.AllocatorCheck
import MikoOS.ExceptionReport
import MikoOS.UserCalls
import MikoOS.UserFaults
import MikoOS.TaskDemonstration
import MikoOS.MemoryBlocks
