import ZephyrOS.Memory.CompressProof
import ZephyrOS.Fs.BlockCacheRuns
import ZephyrOS.Fs.Fat12Crash
import ZephyrOS.Memory.SlabRuns
import ZephyrOS.Memory.VmaRuns
import ZephyrOS.Net.TcpDelivery
import ZephyrOS.Net.TcpCodec
import ZephyrOS.Fs.StorageAlias
import ZephyrOS.Update.ZupdAtomic
import ZephyrOS.Memory.HeapFreed
import ZephyrOS.Fs.StorageGeometry
import ZephyrOS.Fs.StorageAddress
import ZephyrOS.Fs.VfsPath
import ZephyrOS.Fs.VfsSelect
import ZephyrOS.Update.SlotControl
import ZephyrOS.Net.UnixSocket
import ZephyrOS.Process.Scheduler
import ZephyrOS.Package.Versions
import ZephyrOS.Fs.BlockCachePercent
import ZephyrOS.Net.TcpTable
