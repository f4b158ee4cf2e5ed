import Funchook.ArchX86
import Funchook.InstallFailure
import Funchook.RustWrapper
import Funchook.ManyHandles
import Funchook.TrampolineX86
import Funchook.ExpansionArm64
import Funchook.DispatchArm64
import Funchook.OsWindows
import Funchook.DispatchWindows
import Funchook.FreeAddress
import Funchook.PageAllocUnix
import Funchook.PlatformArm64
import Funchook.EntrySlots
import Funchook.PageList
import Funchook.UnitList
import Funchook.PageProtection
import Funchook.PrepareFailure
import Funchook.PatchBoundsX86
import Funchook.PrehookArm64
import Funchook.DisasmCapstone
import Funchook.BackJumpX86
import Funchook.BackJumpArm64
import Funchook.LayoutArm64
import Funchook.GetPcX86
import Funchook.HookCaller
import Funchook.HookOrder
import Funchook.InstalledEntries
import Funchook.DispatchX86
import Funchook.MemoryProtection
import Funchook.TargetProtection
import Funchook.ResolveArm64
import Funchook.RegionSearch
import Funchook.MapsFile
import Funchook.ControlLock
import Funchook.TrampolineRunArm64
import Funchook.ChainedHooks
import Funchook.PageOwnership
import Funchook.TrampolineRunX86
import Funchook.DisasmAgree
import Funchook.ResolveX86
import Funchook.InterpositionX86
import Funchook.InterpositionArm64
import Funchook.DisasmCapstoneArm64
import Funchook.ResolveUnix
import Funchook.PrehookWindows
import Funchook.PrehookI686
