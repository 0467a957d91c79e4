import Hcrtos.ForStd.Lts
import Hcrtos.Native.Completion
import Hcrtos.Native.WorkQueue
import Hcrtos.Native.Automount
import Hcrtos.Spec.CompletionCorrect
import Hcrtos.Spec.WorkQueueCorrect
import Hcrtos.Spec.AutomountStep
import Hcrtos.Spec.AutomountInvariant
import Hcrtos.Spec.AutomountLifetime
import Hcrtos.Spec.AutomountAgreement
import Hcrtos.ForStd.Ring
import Hcrtos.ForStd.LossyFifo
import Hcrtos.ForStd.FilledBuffer
import Hcrtos.ForStd.Word
import Hcrtos.ForStd.Memory
import Hcrtos.ForStd.IntrusiveList
import Hcrtos.ForStd.SortedRing
import Hcrtos.ForStd.MessageRing
import Hcrtos.Native.Fileuart
import Hcrtos.Spec.FileuartRing
import Hcrtos.Native.FileuartIsr
import Hcrtos.Spec.FileuartIsrCorrect
import Hcrtos.Native.Kshm
import Hcrtos.Spec.KshmLayout
import Hcrtos.Spec.KshmSeparation
import Hcrtos.Spec.KshmFifo
import Hcrtos.Spec.KshmStream
import Hcrtos.Spec.KshmRoom
import Hcrtos.Native.Alloc
import Hcrtos.Native.Mmz
import Hcrtos.Native.FileuartTasks
import Hcrtos.Spec.FileuartTasksCorrect
import Hcrtos.Spec.AutomountNotices
import Hcrtos.Spec.AutomountRetries
import Hcrtos.ForStd.Loop
import Hcrtos.Native.Smbr
import Hcrtos.Spec.SmbrCorrect
import Hcrtos.Spec.SmbrContainment
import Hcrtos.ForStd.Bits
import Hcrtos.Native.PortInterrupt
import Hcrtos.Native.GpioIrq
import Hcrtos.Spec.PortInterruptMasks
import Hcrtos.Spec.GpioIrqFanOut
import Hcrtos.Spec.GpioIrqLifetime
import Hcrtos.Spec.PortDispatchCorrect
import Hcrtos.ForStd.Circular
import Hcrtos.Native.PortDoIrq
import Hcrtos.Spec.PortDoIrqList
import Hcrtos.Spec.PortDoIrqCorrect
import Hcrtos.ForStd.CString
import Hcrtos.Native.Console
import Hcrtos.Spec.ConsoleAbbrev
import Hcrtos.Spec.ConsoleCompletion
import Hcrtos.ForStd.StringBuffer
import Hcrtos.Native.ConsoleLine
import Hcrtos.Spec.ConsoleLineCorrect
import Hcrtos.Spec.ConsoleWords
import Hcrtos.Native.ConsoleBytes
import Hcrtos.Spec.ConsoleBytesSafe
import Hcrtos.Spec.ConsoleQuoting
import Hcrtos.Spec.ConsoleDispatch
import Hcrtos.Native.ConsoleInit
import Hcrtos.Spec.ConsoleTree
import Hcrtos.Spec.ConsoleInitOrder
import Hcrtos.Spec.ConsoleInitCorrect
import Hcrtos.Spec.ConsoleLookup
import Hcrtos.ForStd.Chain
import Hcrtos.Native.ConsoleHeap
import Hcrtos.Spec.ConsoleHeapTree
import Hcrtos.Spec.ConsoleHeapUnlink
import Hcrtos.Spec.ConsoleHeapDelete
import Hcrtos.Spec.ConsoleHeapCorrect
import Hcrtos.ForStd.Raster
import Hcrtos.Native.Hcfb
import Hcrtos.Spec.HcfbContainment
import Hcrtos.Spec.HcfbFormat
import Hcrtos.ForStd.WordMemory
import Hcrtos.Spec.HcfbAtomic
import Hcrtos.Native.FbFile
import Hcrtos.Spec.FbFileTransfer
import Hcrtos.Native.FbCmap
import Hcrtos.Spec.FbCmapUpdate
import Hcrtos.Spec.HcfbScaleExact
import Hcrtos.Native.FbFilter
import Hcrtos.Spec.FbFilterTune
import Hcrtos.Spec.AllocTable
import Hcrtos.Spec.AllocHeap
import Hcrtos.Spec.AllocFrags
import Hcrtos.Spec.AllocFragEdits
import Hcrtos.Spec.AllocSound
import Hcrtos.Spec.AllocMalloc
import Hcrtos.Spec.AllocFree
import Hcrtos.Spec.AllocRealloc
import Hcrtos.Spec.AllocInit
import Hcrtos.Spec.AllocRuns
import Hcrtos.Spec.AllocSafety
import Hcrtos.Spec.AllocFreeList
import Hcrtos.Spec.AllocCounters
import Hcrtos.Spec.AllocCalls
import Hcrtos.Spec.AllocApiCorrect
import Hcrtos.Spec.AllocExtension
import Hcrtos.Spec.MmzTable
import Hcrtos.Native.CopyFrame
import Hcrtos.Spec.CopyFrameCorrect
import Hcrtos.Spec.CopyFrameSwapped
import Hcrtos.Native.UartReceive
import Hcrtos.Spec.UartReceiveCorrect
import Hcrtos.Spec.UartReadCount
import Hcrtos.Native.UartTransmit
import Hcrtos.Spec.UartTransmitCorrect
import Hcrtos.Native.UartOpen
import Hcrtos.Spec.UartOpenCorrect
import Hcrtos.Native.I2c
import Hcrtos.Spec.I2cIsolation
import Hcrtos.Spec.I2cHandler
import Hcrtos.Native.I2cRead
import Hcrtos.Spec.I2cReadComplete
import Hcrtos.Native.Spi
import Hcrtos.Spec.SpiChunks
import Hcrtos.Native.ClkGate
import Hcrtos.Spec.ClkGateCorrect
import Hcrtos.Native.Pwm
import Hcrtos.Spec.PwmIndependence
import Hcrtos.Spec.PwmDivider
import Hcrtos.ForStd.Nearest
import Hcrtos.Native.Backlight
import Hcrtos.Spec.BacklightMapping
import Hcrtos.Native.PortTimer
import Hcrtos.Spec.PortTimerMonotone
import Hcrtos.Spec.PortTimeSetCorrect
import Hcrtos.Native.PortTick
import Hcrtos.Spec.PortTickCorrect
import Hcrtos.Native.FdtApi
import Hcrtos.Spec.FdtApiBounds
import Hcrtos.Native.Gunzip
import Hcrtos.Spec.GunzipHeader
import Hcrtos.Native.Stacktrace
import Hcrtos.Spec.StacktraceEnds
import Hcrtos.Native.LzmaUtils
import Hcrtos.Spec.LzmaUtilsFraming
import Hcrtos.Native.WorkNotifier
import Hcrtos.Spec.WorkNotifierLists
import Hcrtos.Spec.WorkNotifierCorrect
import Hcrtos.Native.SndPoll
import Hcrtos.Spec.SndPollTasks
import Hcrtos.Spec.SndPollTeardown
import Hcrtos.Spec.SndPollWakeups
import Hcrtos.Native.SndCore
import Hcrtos.Spec.SndCoreAtomic
import Hcrtos.Native.Module
import Hcrtos.Spec.ModuleBookkeeping
import Hcrtos.Native.Input
import Hcrtos.Spec.InputNumbers
import Hcrtos.Native.Gpio
import Hcrtos.Spec.GpioBanks
import Hcrtos.Native.Fat32
import Hcrtos.Spec.Fat32Mounts
import Hcrtos.Spec.Fat32Forced
import Hcrtos.Spec.Fat32Refused
import Hcrtos.Native.Fat32Time
import Hcrtos.Spec.Fat32Stamps
import Hcrtos.Native.DiskIo
import Hcrtos.Spec.DiskIoAddressing
import Hcrtos.Native.Mtd
import Hcrtos.Spec.MtdIsolation
import Hcrtos.ForStd.LongDivision
import Hcrtos.ForStd.Fold
import Hcrtos.Native.LargeNum
import Hcrtos.Native.Calibration
import Hcrtos.Spec.LargeNumValue
import Hcrtos.Spec.LargeNumDivision
import Hcrtos.Spec.LargeNumShift
import Hcrtos.Spec.LargeNumBits
import Hcrtos.Spec.CalibrationSums
import Hcrtos.Spec.CalibrationMatrix
import Hcrtos.Spec.CalibrationScale
import Hcrtos.Spec.CalibrationResult
import Hcrtos.Native.Xpt2046
import Hcrtos.Spec.Xpt2046Debounce
import Hcrtos.Native.St7789v2
import Hcrtos.Spec.St7789v2Bus
import Hcrtos.Spec.St7789v2Framing
import Hcrtos.ForStd.Mealy
import Hcrtos.ForStd.SortedTable
import Hcrtos.Native.IrNec
import Hcrtos.Native.IrRaw
import Hcrtos.Native.RcMain
import Hcrtos.Spec.IrNecFrames
import Hcrtos.Spec.IrNecCorrect
import Hcrtos.Spec.IrReceiver
import Hcrtos.Spec.RcKeymap
import Hcrtos.Spec.RcKeys
