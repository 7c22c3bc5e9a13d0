import BaochipXous.KernelQueueRuns
import BaochipXous.KernelSendErrors
import BaochipXous.UsbUvcLends
import BaochipXous.UsbSerial
import BaochipXous.KernelPlacement
import BaochipXous.KernelSwapRuns
import BaochipXous.Names
import BaochipXous.TicktimerRuns
import BaochipXous.WebcamRuns
import BaochipXous.Boot0
import BaochipXous.PddbPageTable
import BaochipXous.FastSpaceRoom
import BaochipXous.FastSpaceMaps
import BaochipXous.PddbLarge
import BaochipXous.KernelConnectionRuns
import BaochipXous.KernelTerminate
import BaochipXous.Boot1Disk
import BaochipXous.Ifram
import BaochipXous.KeystoreWrap
import BaochipXous.SwapEncryption
import BaochipXous.LoaderSwap
import BaochipXous.RtcWakeup
import BaochipXous.TrngSeed
import BaochipXous.PddbDictSync
import BaochipXous.PddbFreeKeys
import BaochipXous.BioCores
import BaochipXous.KernelReleaseMemory
import BaochipXous.UsbUvcSteps
import BaochipXous.Swapper
import BaochipXous.KernelMemoryErrors
