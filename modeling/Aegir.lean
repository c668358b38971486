import Aegir.Traps.Confinement
import Aegir.Kernel.PmmCount
import Aegir.Kernel.CapTableMap
import Aegir.Laws.Delivery
import Aegir.Laws.RecvSignals
import Aegir.Laws.Freshness
import Aegir.Laws.Incarnations
import Aegir.Laws.ReplyCaps
import Aegir.Bfs.Multimap
import Aegir.Block.Durable
import Aegir.Block.Isolation
import Aegir.Fileserver.Fifo
import Aegir.Fat32.Exactness
import Aegir.Vfs.Crossing
import Aegir.Trinket.EditRuns
import Aegir.Libman.Runs
import Aegir.Laws.MemoryCreation
import Aegir.Laws.AddressSpaces
import Aegir.Laws.Sleepers
import Aegir.Laws.Translation
import Aegir.Laws.IrqRuns
import Aegir.Laws.ElfReads
import Aegir.Arch.MsiVectors
import Aegir.Arch.DeviceDirectory
import Aegir.Bfs.AllocatorLaws
import Aegir.Block.DmaConfined
import Aegir.Bfs.LogRoundTrip
import Aegir.Bfs.ScanSafety
import Aegir.Bfs.QueryMeaning
import Aegir.Fat32.Timestamps
import Aegir.Cli.Canonical
import Aegir.Cli.WildcardMeaning
import Aegir.Fileserver.BlockVolumes
import Aegir.Scripting.Structured
import Aegir.Fileserver.Expansion
import Aegir.Cli.LineInput
import Aegir.Gloss.Open
import Aegir.Pci.Windows
import Aegir.Lib.Pool
import Aegir.Virtio.DescriptorLaws
import Aegir.Virtio.QueueLaws
import Aegir.Virtio9p.RoundTrip
