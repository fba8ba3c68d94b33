import DsdOrsoc.Schemes.Machine
import DsdOrsoc.Schemes.Bits
import DsdOrsoc.Schemes.WriteBack
import DsdOrsoc.Schemes.Progress
import DsdOrsoc.Schemes.RoundRobin
import DsdOrsoc.Schemes.SyncRam
import DsdOrsoc.Schemes.Ring
import DsdOrsoc.Schemes.Lanes
import DsdOrsoc.Schemes.NorFlash
import DsdOrsoc.Schemes.ShiftSubtract
import DsdOrsoc.Schemes.CarrySave
import DsdOrsoc.Schemes.PrefixAdder
import DsdOrsoc.Yadmc.Cache
import DsdOrsoc.Yadmc.FlatMemory
import DsdOrsoc.Yadmc.Coherence
import DsdOrsoc.Yadmc.Sdram16
import DsdOrsoc.Yadmc.Legality
import DsdOrsoc.Yadmc.Pace
import DsdOrsoc.Yadmc.Chip
import DsdOrsoc.Yadmc.Transfer
import DsdOrsoc.Yadmc.LineTransfer
import DsdOrsoc.Yadmc.Restore
import DsdOrsoc.Yadmc.Crossing
import DsdOrsoc.Yadmc.Delivery
import DsdOrsoc.Yadmc.Assembly
import DsdOrsoc.Yadmc.EndToEnd
import DsdOrsoc.Yadmc.Config
import DsdOrsoc.Conmax.SlaveIf
import DsdOrsoc.Conmax.Ownership
import DsdOrsoc.Conmax.Matrix
import DsdOrsoc.Conmax.Routing
import DsdOrsoc.Conmax.Arbiter
import DsdOrsoc.Or1200.WbBiu
import DsdOrsoc.Or1200.Exchange
import DsdOrsoc.Or1200.Frontend
import DsdOrsoc.Or1200.Stream
import DsdOrsoc.Or1200.Operands
import DsdOrsoc.Or1200.ZeroRegister
import DsdOrsoc.Or1200.Icache
import DsdOrsoc.Or1200.Invalidation
import DsdOrsoc.Or1200.Tlb
import DsdOrsoc.Or1200.Immu
import DsdOrsoc.Or1200.Lsu
import DsdOrsoc.Or1200.DataMemory
import DsdOrsoc.Or1200.Dmmu
import DsdOrsoc.Or1200.Except
import DsdOrsoc.Or1200.Sprs
import DsdOrsoc.Or1200.Privilege
import DsdOrsoc.Or1200.Core
import DsdOrsoc.Or1200.Handler
import DsdOrsoc.Or1200.Provenance
import DsdOrsoc.Or1200.Restart
import DsdOrsoc.Or1200.MultMac
import DsdOrsoc.Or1200.Pipeline
import DsdOrsoc.Or1200.LoadStore
import DsdOrsoc.Or1200.Mac
import DsdOrsoc.Or1200.Division
import DsdOrsoc.Or1200.Multiplication
import DsdOrsoc.Or1200.Amultp2
import DsdOrsoc.Or1200.AsicMultiplier
import DsdOrsoc.Or1200.Isa
import DsdOrsoc.Or1200.Alu
import DsdOrsoc.Or1200.Control
import DsdOrsoc.Or1200.Processor
import DsdOrsoc.Or1200.Composition
import DsdOrsoc.Or1200.Execution
import DsdOrsoc.Or1200.Retirement
import DsdOrsoc.Uart.Fifo
import DsdOrsoc.Uart.ErrorBit
import DsdOrsoc.Uart.Frame
import DsdOrsoc.Uart.Regs
import DsdOrsoc.Uart.Flags
import DsdOrsoc.Uart.WbAccess
import DsdOrsoc.Uart.Transmitter
import DsdOrsoc.Uart.Receiver
import DsdOrsoc.Uart.Loopback
import DsdOrsoc.Uart.Waveform
import DsdOrsoc.FlashIf.Bridge
import DsdOrsoc.FlashIf.Access
import DsdOrsoc.FlashIf.Pins
import DsdOrsoc.FlashIf.Timing
import DsdOrsoc.Top.Boot
import DsdOrsoc.UBoot.WriteBuff
import DsdOrsoc.Or1200.Assembly
import DsdOrsoc.Sw.FlashBoot
import DsdOrsoc.Top.SharedMemory
