import MdsFormal.Library.LabelledRun
import MdsFormal.Storage.CrashSafety
import MdsFormal.Storage.SaveOutcome
import MdsFormal.Storage.TrueCopies
import MdsFormal.Storage.LoadRetries
import MdsFormal.Library.BitPowers
import MdsFormal.Library.BitWindow
import MdsFormal.Library.LinearFold
import MdsFormal.Storage.CrcBursts
import MdsFormal.Storage.CrcPolynomial
import MdsFormal.Storage.BoundedLog
import MdsFormal.Storage.BurstLoads
import MdsFormal.Storage.Integrity
import MdsFormal.Storage.BitErrors
import MdsFormal.Library.Transducer
import MdsFormal.Storage.TwoCopies
import MdsFormal.Storage.PowerLog
import MdsFormal.Ipc.Server
import MdsFormal.Ipc.SlotOwnership
import MdsFormal.Ipc.StoppedLoops
import MdsFormal.Ipc.ReplyLength
import MdsFormal.Ipc.Client
import MdsFormal.Ipc.ClientTimeout
import MdsFormal.Ipc.PortSockets
import MdsFormal.Ipc.Exchange
import MdsFormal.Ipc.ReplyMatching
import MdsFormal.Ipc.ClientDescriptors
import MdsFormal.Ipc.LoopArguments
import MdsFormal.Library.BoundedMap
import MdsFormal.Library.CString
import MdsFormal.Library.StoreTrace
import MdsFormal.Text.RemoveChars
import MdsFormal.Library.Occurrence
import MdsFormal.Text.Strnstr
import MdsFormal.Text.StrReplace
import MdsFormal.Text.ReadLine
import MdsFormal.Text.Itoa
import MdsFormal.Gps.Nmea
import MdsFormal.Storage.TimeLog
import MdsFormal.Time.NetworkTime
import MdsFormal.Time.ClockSync
import MdsFormal.Lights.LastCommand
import MdsFormal.Library.ShiftRegister
import MdsFormal.Library.SlotMap
import MdsFormal.Shm.PerApp
import MdsFormal.Shm.PerAppMap
import MdsFormal.Shm.PerAppRefinement
import MdsFormal.Shm.PerAppUpdates
import MdsFormal.Shm.FreeMarker
import MdsFormal.Library.Scan
import MdsFormal.Process.ProcFind
import MdsFormal.Process.ProcTable
import MdsFormal.Library.Lines
import MdsFormal.Process.ProcFiles
import MdsFormal.Mon.ProgStart
import MdsFormal.Mon.LaunchRetries
import MdsFormal.Mon.DaemonForks
import MdsFormal.Mon.CheckProg
import MdsFormal.Mon.PowerOff
import MdsFormal.Mon.ProbeLoop
import MdsFormal.Mon.ZombieParent
import MdsFormal.Mon.StackDump
import MdsFormal.Library.InPlace
import MdsFormal.Library.Retries
import MdsFormal.Crypto.Aes
import MdsFormal.Crypto.AesInverse
import MdsFormal.Crypto.AesModes
import MdsFormal.Library.BlockChain
import MdsFormal.Crypto.CbcInverse
import MdsFormal.Crypto.EcbBlocks
import MdsFormal.Crypto.KeySchedule
import MdsFormal.Crypto.Padding
import MdsFormal.Library.Regions
import MdsFormal.Crypto.CbcMemory
import MdsFormal.Crypto.DecryptBounds
import MdsFormal.Crypto.EncryptVariants
import MdsFormal.Crypto.FieldArithmetic
import MdsFormal.Crypto.Fips197
import MdsFormal.Crypto.FipsSchedule
import MdsFormal.Crypto.ChunkedCbc
import MdsFormal.Crypto.CbcErrors
import MdsFormal.Library.Buffer
import MdsFormal.Text.Base64
import MdsFormal.Text.Base64Arbitrary
import MdsFormal.Text.Base64Transport
import MdsFormal.Crypto.TextTransport
import MdsFormal.Text.CheckIp
import MdsFormal.Text.Validation
import MdsFormal.Uart.SizeRead
import MdsFormal.Uart.Session
import MdsFormal.Library.Fifo
import MdsFormal.Library.ListSegment
import MdsFormal.Queue.MdsList
import MdsFormal.Queue.FifoChain
import MdsFormal.Queue.SharedList
import MdsFormal.Library.IntMemory
import MdsFormal.Logd.Message
import MdsFormal.Library.Faults
import MdsFormal.Logd.PrintLog
import MdsFormal.Logd.Selection
import MdsFormal.Library.Tokens
import MdsFormal.Logd.Delivery
import MdsFormal.Adc.Battery
import MdsFormal.Mon.ReadIni
import MdsFormal.Mon.IniFaithful
import MdsFormal.Mon.StartService
import MdsFormal.Gpio.EdgeReports
import MdsFormal.Gpio.GpioEvt
import MdsFormal.Gpio.Sysfs
