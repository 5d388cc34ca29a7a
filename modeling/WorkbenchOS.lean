import WorkbenchOS.ByteMemory
import WorkbenchOS.TransitionRuns
import WorkbenchOS.SpanLists
import WorkbenchOS.LibStd
import WorkbenchOS.KmallocSubHeap
import WorkbenchOS.KmallocFreeList
import WorkbenchOS.KmallocOperations
import WorkbenchOS.KmallocRuns
import WorkbenchOS.FrameBitmap
import WorkbenchOS.FrameOperations
import WorkbenchOS.FrameRuns
import WorkbenchOS.FrameReleases
import WorkbenchOS.ContiguousFrames
import WorkbenchOS.FrameClearing
import WorkbenchOS.PhysicalMemory
import WorkbenchOS.PageMapping
import WorkbenchOS.KernelHeap
import WorkbenchOS.KernelTranslation
import WorkbenchOS.KernelUnmapping
import WorkbenchOS.HeapAtomicity
import WorkbenchOS.PciEnumeration
import WorkbenchOS.SlabAllocator
import WorkbenchOS.SlabTable
import WorkbenchOS.UserPages
import WorkbenchOS.UserMappings
import WorkbenchOS.VirtioBlock
import WorkbenchOS.VirtioDescriptors
import WorkbenchOS.VirtioRing
import WorkbenchOS.VirtioTransfers
import WorkbenchOS.BootConsole
import WorkbenchOS.PS2Keyboard
import WorkbenchOS.KernelSections
import WorkbenchOS.KmallocHeap
import WorkbenchOS.Fat32
import WorkbenchOS.FatFiles
import WorkbenchOS.FatSectors
import WorkbenchOS.ChainWalks
import WorkbenchOS.FatCycles
import WorkbenchOS.FatLoops
import WorkbenchOS.SeparatedWords
import WorkbenchOS.FatPaths
import WorkbenchOS.FatNames
import WorkbenchOS.FatBuffers
import WorkbenchOS.StringSplitter
import WorkbenchOS.StringViews
import WorkbenchOS.RamdiskFS
import WorkbenchOS.BootPageTables
import WorkbenchOS.MadtTable
import WorkbenchOS.ProcessStack
import WorkbenchOS.ElfLoader
import WorkbenchOS.ElfTermination
import WorkbenchOS.ElfBuffer
import WorkbenchOS.EfiMemoryMap
import WorkbenchOS.DeviceReaders
import WorkbenchOS.RamdiskFiles
import WorkbenchOS.RamdiskDirectories
import WorkbenchOS.VirtioDetection
import WorkbenchOS.BootTableArea
import WorkbenchOS.BootGuardPages
import WorkbenchOS.KernelImage
import WorkbenchOS.ByteMoves
import WorkbenchOS.HeapAddresses
import WorkbenchOS.MemoryDevices
import WorkbenchOS.MemoryRegions
import WorkbenchOS.ConsoleDrawing
import WorkbenchOS.FramebufferLines
import WorkbenchOS.FormatSpecs
import WorkbenchOS.FormatStrings
import WorkbenchOS.FormatCalls
import WorkbenchOS.FormattedNumbers
import WorkbenchOS.KmallocDoubleFree
import WorkbenchOS.KmallocAlignment
import WorkbenchOS.KmallocSupply
import WorkbenchOS.KmallocDispatch
import WorkbenchOS.KmallocGrowth
import WorkbenchOS.PageFlags
import WorkbenchOS.KmallocLinks
import WorkbenchOS.SlabExhaustion
import WorkbenchOS.NumberConversion
import WorkbenchOS.CString
import WorkbenchOS.Vectors
import WorkbenchOS.InterruptGates
import WorkbenchOS.InterruptNesting
import WorkbenchOS.FrameOwnership
import WorkbenchOS.AddressSpaces
import WorkbenchOS.ProcessIsolation
import WorkbenchOS.VirtioDisk
import WorkbenchOS.VirtioRequests
import WorkbenchOS.VirtioService
import WorkbenchOS.ApplicationProcessors
import WorkbenchOS.ProcessorBoot
import WorkbenchOS.ProcessorRuns
import WorkbenchOS.Simulations
import WorkbenchOS.VirtioMemory
import WorkbenchOS.VirtioStores
import WorkbenchOS.VirtioPublication
import WorkbenchOS.VirtioRefinement
import WorkbenchOS.VirtioRingService
