import Voltemu.Kernel.Handle.HandleTableSound
import Voltemu.Kernel.Scheduler.CoreSelectionSound
import Voltemu.Kernel.Session.SessionRuns
import Voltemu.Kernel.Sync.MutexProtocol
import Voltemu.Kernel.Thread.KResourceLimit
import Voltemu.Kernel.Memory.FindFreeArea
import Voltemu.Dynarmic.A64GetSetSound
import Voltemu.Dynarmic.A32RegisterPassSound
import Voltemu.Dynarmic.A32FlagsPassSound
import Voltemu.Dynarmic.ConstantPropagationSound
import Voltemu.Audio.BufferQueues
import Voltemu.Audio.MixGraph
import Voltemu.Nvdrv.AsGpuRuns
import Voltemu.Nvnflinger.BufferQueueOrder
import Voltemu.VideoCore.MacroAgreement
import Voltemu.VideoCore.SyncpointRuns
import Voltemu.Core.DeviceReverseMap
import Voltemu.Shader.ConstantPropagationSound
import Voltemu.Kernel.Ipc.IpcBytes
import Voltemu.FileSys.PathMutators
import Voltemu.FileSys.PathResolution
import Voltemu.FileSys.AlignedAccesses
import Voltemu.FileSys.IndirectReads
import Voltemu.Shader.LowerInt64Sound
import Voltemu.Audio.MixOrder
import Voltemu.Core.AdvanceTermination
import Voltemu.Dynarmic.Fp.ToFixed
import Voltemu.FileSys.IpsEscapes
import Voltemu.FileSys.IpsPatches
import Voltemu.FileSys.RomFsHashes
import Voltemu.FileSys.Utf8
import Voltemu.Nvnflinger.BufferQueueLimits
import Voltemu.VideoCore.GpuGranular
import Voltemu.VideoCore.SwizzleSubrect
import Voltemu.Core.CheatEncoding
import Voltemu.Core.CheatStructured
import Voltemu.Audio.SplitterWalks
import Voltemu.Nvdrv.NvMap
import Voltemu.VideoCore.DmaPusher
import Voltemu.VideoCore.InvalidationAccumulator
import Voltemu.VideoCore.MacroCache
import Voltemu.Common.ParamPackage
import Voltemu.Common.RangeMap
import Voltemu.Common.RingBuffer
