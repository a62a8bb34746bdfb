import BharatOS.Cap.Lifetime
import BharatOS.Cap.Untouched
import BharatOS.Cap.Acks
import BharatOS.Cap.Attenuation
import BharatOS.Cap.Handles
import BharatOS.Cap.Usable
import BharatOS.Cap.Pins
import BharatOS.Ipc.References
import BharatOS.Fabric.Legacy
import BharatOS.Fabric.DrainOrder
import BharatOS.Fabric.Replies
import BharatOS.Fabric.Tables
import BharatOS.Ipc.Incarnation
import BharatOS.Ipc.Delivery
import BharatOS.Ipc.WaitQueue
import BharatOS.Ipc.Rpc
import BharatOS.Mm.Zones
import BharatOS.Mm.DoubleFrees
import BharatOS.Mm.EarlyAlloc
import BharatOS.Tlb.Safety
import BharatOS.Tlb.Reclaim
import BharatOS.Vm.DeviceFaults
import BharatOS.Vm.UserRange
import BharatOS.Sched.Admission
import BharatOS.Sched.Inheritance
import BharatOS.Sched.MigrationProgress
import BharatOS.Sched.Wakeups
import BharatOS.Sched.Acknowledged
import BharatOS.Sched.Stacks
import BharatOS.Sched.OutboundSlots
import BharatOS.Services.NameService
import BharatOS.Services.ServiceManager
import BharatOS.Storage.ConfigStore
import BharatOS.Storage.Cache
import BharatOS.Storage.Ramfs
