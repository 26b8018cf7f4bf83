import KopalniaOS.Library.Program
import KopalniaOS.Library.Interrupts
import KopalniaOS.Library.Rely
import KopalniaOS.Library.Client
import KopalniaOS.Library.Tiling
import KopalniaOS.Library.Ring
import KopalniaOS.Library.Terminal
import KopalniaOS.Library.ByteMemory
import KopalniaOS.Library.OnesComplement
import KopalniaOS.Library.CString
import KopalniaOS.Library.Numeral
import KopalniaOS.Library.Ledger
import KopalniaOS.Library.Lifetimes
import KopalniaOS.Library.FirstFit
import KopalniaOS.Library.BinaryRemainder
import KopalniaOS.Library.BitField
import KopalniaOS.Library.Runs
import KopalniaOS.Library.Word
import KopalniaOS.Library.Observation
import KopalniaOS.Library.Cpu
import KopalniaOS.Stdlib.Vector
import KopalniaOS.Stdlib.IntegerText
import KopalniaOS.Stdlib.StrToInt
import KopalniaOS.Stdlib.Printf
import KopalniaOS.Stdlib.FormatString
import KopalniaOS.Stdlib.PrintfAgreement
import KopalniaOS.Stdlib.NumBuf
import KopalniaOS.Stdlib.ObjectVector
import KopalniaOS.Stdlib.VectorLifetimes
import KopalniaOS.Stdlib.VectorFailure
import KopalniaOS.Stdlib.MemCommon
import KopalniaOS.Stdlib.RingBuffer
import KopalniaOS.Heap.Model
import KopalniaOS.Heap.Representation
import KopalniaOS.Heap.Malloc
import KopalniaOS.Heap.Free
import KopalniaOS.Heap.Invariant
import KopalniaOS.Heap.BlockList
import KopalniaOS.Heap.Canonical
import KopalniaOS.Heap.UsableSize
import KopalniaOS.Heap.Preemption
import KopalniaOS.Heap.Boundary
import KopalniaOS.Heap.FailedBoundary
import KopalniaOS.Heap.FirstFit
import KopalniaOS.Heap.Client
import KopalniaOS.Paging.Model
import KopalniaOS.Paging.Tree
import KopalniaOS.Paging.Mapping
import KopalniaOS.Paging.Requests
import KopalniaOS.Paging.Translation
import KopalniaOS.Paging.KernelMap
import KopalniaOS.Paging.Exhaustion
import KopalniaOS.Boot.HeapPlacement
import KopalniaOS.Network.Model
import KopalniaOS.Network.Bounds
import KopalniaOS.Network.Responder
import KopalniaOS.Network.Writes
import KopalniaOS.Network.Checksum
import KopalniaOS.Network.Echo
import KopalniaOS.Rtl8139.Send
import KopalniaOS.Rtl8139.Transmission
import KopalniaOS.Rtl8139.Receive
import KopalniaOS.Rtl8139.PacketRing
import KopalniaOS.Rtl8139.Reception
import KopalniaOS.Rtl8139.InStep
import KopalniaOS.Rtl8139.Ethernet
import KopalniaOS.Rtl8139.Reply
import KopalniaOS.Rtl8139.Answers
import KopalniaOS.Rtl8139.Buffer
import KopalniaOS.Ahci.Model
import KopalniaOS.Ahci.Handler
import KopalniaOS.Ahci.Assertions
import KopalniaOS.Ahci.Completion
import KopalniaOS.Ahci.Transfer
import KopalniaOS.Ahci.Programming
import KopalniaOS.Ahci.Command
import KopalniaOS.Ahci.Device
import KopalniaOS.Ahci.ReadBytes
import KopalniaOS.Ahci.RequestSize
import KopalniaOS.Ahci.Causes
import KopalniaOS.Ahci.Slots
import KopalniaOS.Xhci.Rings
import KopalniaOS.Xhci.RingDelivery
import KopalniaOS.Xhci.EventDelivery
import KopalniaOS.Xhci.Driver
import KopalniaOS.Xhci.Completion
import KopalniaOS.Xhci.Draining
import KopalniaOS.Xhci.ExtendedCapabilities
import KopalniaOS.Xhci.PortReset
import KopalniaOS.Xhci.Scratchpads
import KopalniaOS.Gpt.Model
import KopalniaOS.Gpt.Bounds
import KopalniaOS.Gpt.Crc
import KopalniaOS.Gpt.Exits
import KopalniaOS.Gpt.Listing
import KopalniaOS.Gpt.OnHeap
import KopalniaOS.Gpt.Discovery
import KopalniaOS.Gpu.Framebuffer
import KopalniaOS.Gpu.Terminal
import KopalniaOS.Gpu.Render
import KopalniaOS.Gpu.Coherence
import KopalniaOS.Keyboard.Model
import KopalniaOS.Keyboard.Delivery
import KopalniaOS.Ps2.Model
import KopalniaOS.Ps2.AnyController
import KopalniaOS.Ps2.Controller
import KopalniaOS.Ps2.Exchange
import KopalniaOS.Ps2.Views
import KopalniaOS.Ps2.Probe
import KopalniaOS.Ps2.SetUp
import KopalniaOS.Ps2.Typing
import KopalniaOS.Shell.Model
import KopalniaOS.Shell.Parse
import KopalniaOS.Shell.Tokens
import KopalniaOS.Shell.Bounds
import KopalniaOS.Shell.Typing
import KopalniaOS.Shell.History
import KopalniaOS.Shell.Console
import KopalniaOS.Hpet.Model
import KopalniaOS.Hpet.Assignment
import KopalniaOS.Hpet.Timers
import KopalniaOS.Hpet.Sleep
import KopalniaOS.Hpet.Wakeup
import KopalniaOS.Idt.Gates
import KopalniaOS.Idt.Stubs
import KopalniaOS.Idt.Entry
import KopalniaOS.UserSpace.Model
import KopalniaOS.UserSpace.Enter
import KopalniaOS.UserSpace.Syscall
import KopalniaOS.UserSpace.Session
import KopalniaOS.Idt.Model
import KopalniaOS.Idt.Dispatch
import KopalniaOS.Apic.Model
import KopalniaOS.Apic.Table
import KopalniaOS.Apic.Routing
import KopalniaOS.Pci.Model
import KopalniaOS.Pci.Space
import KopalniaOS.Pci.SubWord
import KopalniaOS.Pci.Msi
import KopalniaOS.Pci.Enumeration
import KopalniaOS.Ahci.Attach
import KopalniaOS.Ahci.BringUp
