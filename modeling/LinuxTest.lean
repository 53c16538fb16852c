import LinuxTest.Libc
import LinuxTest.Strtoul
import LinuxTest.Foundations.PartialRun
import LinuxTest.Foundations.Extremes
import LinuxTest.Foundations.Moments
import LinuxTest.Foundations.SignedWords
import LinuxTest.Foundations.FullPeriod
import LinuxTest.Foundations.WhileLoop
import LinuxTest.Foundations.DoWhile
import LinuxTest.Foundations.Arm
import LinuxTest.Foundations.FailStop
import LinuxTest.Foundations.EarlyExit
import LinuxTest.Foundations.Patterns
import LinuxTest.Foundations.Cleanup
import LinuxTest.Foundations.Alignment
import LinuxTest.Foundations.WordSearch
import LinuxTest.Foundations.ForLoop
import LinuxTest.Foundations.FaultyMemory
import LinuxTest.Foundations.DuplicateWindow
import LinuxTest.Foundations.OnesComplement
import LinuxTest.Foundations.SequenceCheck
import LinuxTest.Foundations.TextFields
import LinuxTest.Latency.QuantileEstimator
import LinuxTest.Latency.MarkerOrder
import LinuxTest.Latency.MarkerInvariant
import LinuxTest.Latency.MarkerTracking
import LinuxTest.Latency.MarkerHeights
import LinuxTest.Latency.AffineEquivariance
import LinuxTest.Latency.Reports
import LinuxTest.Latency.Quantiles
import LinuxTest.Latency.OnlineStats
import LinuxTest.Latency.Stats
import LinuxTest.Latency.Histogram
import LinuxTest.Latency.TimerThread
import LinuxTest.Uboot.Myrand
import LinuxTest.Uboot.Creatf
import LinuxTest.Uboot.Crtinit
import LinuxTest.Uboot.Division
import LinuxTest.Uboot.TftpTest
import LinuxTest.Ethernet.IPAddress
import LinuxTest.Ethernet.AddressText
import LinuxTest.Ethernet.Options
import LinuxTest.Ethernet.Startup
import LinuxTest.Ethernet.Locality
import LinuxTest.Ethernet.Throughput
import LinuxTest.Ethernet.Receive
import LinuxTest.Ethernet.Recvmc
import LinuxTest.Ethernet.Rawrecv
import LinuxTest.Ethernet.LinkState
import LinuxTest.Sysid.SysidTest
import LinuxTest.Qspi.MtdTests
import LinuxTest.Eeprom.EepromTest
import LinuxTest.Spi.Loopback
import LinuxTest.Watchdog.WatchdogTest
import LinuxTest.Memtool.Memtool
import LinuxTest.SpiAdc.SpiAdcTest
import LinuxTest.Ecc.EccTest
import LinuxTest.MemoryTest.Tests
import LinuxTest.MemoryTest.Passes
import LinuxTest.MemoryTest.Allocation
import LinuxTest.MemoryTest.Memtester
import LinuxTest.Can.Cansequence
import LinuxTest.Can.Candump
import LinuxTest.Ping.CheckPing
import LinuxTest.Ping.Checksum
import LinuxTest.Ping.Statistics
import LinuxTest.Schedstat.Latency
import LinuxTest.Can.Frame
