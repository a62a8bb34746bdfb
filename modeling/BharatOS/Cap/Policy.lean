import BharatOS.Cap.Types

/-! # Which rights a capability of each type may carry (`cap_policy.c`) -/

namespace BharatOS

def kCapValidRightsEndpoint : CapRightsMask :=
  capRightEndpointSend ||| capRightEndpointReceive ||| capRightDelegate

def kCapValidRightsMemory : CapRightsMask :=
  capRightMemoryMap ||| capRightMemoryUnmap ||| capRightMemoryShare ||| capRightDelegate

def kCapValidRightsCryptoDevice : CapRightsMask := capRightCryptAdmin ||| capRightDelegate

def kCapValidRightsCryptoKey : CapRightsMask :=
  capRightCryptUse ||| capRightCryptDerive ||| capRightCryptSign ||| capRightCryptDecrypt |||
    capRightCryptExportWrapped ||| capRightDelegate

def kCapValidRightsCryptoSimple : CapRightsMask := capRightCryptUse ||| capRightDelegate

def kCapValidRightsNetdev : CapRightsMask := capRightDelegate

def kCapValidRightsAccelDevice : CapRightsMask := capRightDelegate

def kCapValidRightsAccelQueue : CapRightsMask :=
  capRightEnqueue ||| capRightCancel ||| capRightQuery ||| capRightAccelSubmit ||| capRightDelegate

def kCapValidRightsAccelBuffer : CapRightsMask :=
  capRightMemoryMap ||| capRightBind ||| capRightMemoryShare ||| capRightSyncCpu |||
    capRightSyncDev ||| capRightDelegate

def kCapValidRightsAccelTelemetry : CapRightsMask :=
  capRightReadStats ||| capRightReadFaults ||| capRightDelegate

def kCapValidRightsAccelAdmin : CapRightsMask :=
  capRightReset ||| capRightPartition ||| capRightFwLoad ||| capRightDelegate

def kCapValidRightsDmaGrant : CapRightsMask :=
  capRightDmaMap ||| capRightDeviceDma ||| capRightMemoryUnmap ||| capRightDelegate

def kCapValidRightsDmaDomain : CapRightsMask := capRightDelegate

def kCapValidRightsProcess : CapRightsMask :=
  capRightProcessManage ||| capRightDelegate ||| capRightResourceAlloc

def kCapValidRightsThread : CapRightsMask := capRightSchedule ||| capRightDelegate

def kCapValidRightsHmem : CapRightsMask :=
  capRightHmemCreate ||| capRightHmemMapCpu ||| capRightHmemMapDevice ||| capRightHmemPin |||
    capRightHmemShare ||| capRightHmemMigrate ||| capRightHmemQuery ||| capRightHmemDestroy |||
    capRightDelegate

def kCapValidRightsBootstrap : CapRightsMask :=
  capRightBootstrapLaunch ||| capRightBootstrapBind ||| capRightDelegate

/-- The rights a type allows; 0 for a type that is not transferable. -/
def capValidRightsForType : CapType → CapRightsMask
  | .endpoint | .cryptoEndpoint | .netQueue => kCapValidRightsEndpoint
  | .memory | .netBuffer => kCapValidRightsMemory ||| capRightVmmManage
  | .cryptoDevice => kCapValidRightsCryptoDevice
  | .cryptoKey => kCapValidRightsCryptoKey
  | .rng | .sealer => kCapValidRightsCryptoSimple
  | .netdev => kCapValidRightsNetdev
  | .accelDevice => kCapValidRightsAccelDevice
  | .accelQueue => kCapValidRightsAccelQueue
  | .accelBuffer => kCapValidRightsAccelBuffer
  | .accelTelemetry => kCapValidRightsAccelTelemetry
  | .accelAdmin => kCapValidRightsAccelAdmin
  | .dmaGrant => kCapValidRightsDmaGrant
  | .dmaDomain => kCapValidRightsDmaDomain
  | .sched => kCapValidRightsThread
  | .thread => kCapValidRightsThread
  | .bootstrap => kCapValidRightsBootstrap
  | .process => kCapValidRightsProcess
  | .hmem => kCapValidRightsHmem
  | .vmSpace => capRightMemoryMap ||| capRightMemoryUnmap ||| capRightVmmManage ||| capRightQuery
  | .none | .importedProxy => 0

def capTransferRightsValid (type : CapType) (requested : CapRightsMask) : Bool :=
  let allowed := capValidRightsForType type
  if allowed = 0 then false else requested &&& ~~~allowed == 0

def capCanTransfer (type : CapType) (srcRights requested : CapRightsMask) : Bool :=
  if !capTransferRightsValid type requested then false
  else if requested &&& ~~~srcRights ≠ 0 then false
  else true

/-- `cap_rights_valid` is the transfer check under another name. -/
def capRightsValid (type : CapType) (rights : CapRightsMask) : Bool :=
  capTransferRightsValid type rights

end BharatOS
