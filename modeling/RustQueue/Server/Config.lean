import RustQueue.Storage.Compatibility
import RustQueue.Storage.Record

/-!
# The limits of a server

`Config` holds the fields that `validate_protocol_limits` reads, and `validateProtocolLimits` is that
check, with the texts of its errors.  What the other modules use of an accepted configuration is
stated in `validateProtocolLimits_eq_ok`: the bounds of a record and of a delivery.
-/

namespace RustQueue.Server

open Lib Storage

def maxMpubMessages : ℕ := 65536
def maxSupportedMessageBytes : ℕ := 100 * 1024 * 1024
def maxSupportedBatchBytes : ℕ := 128 * 1024 * 1024

/-- The largest signed word, as a size. -/
def i64MaxWord : ℕ := 2 ^ 63 - 1

structure Limits where
  maxBodyBytes : ℕ
  connectionPublishInflightBytes : ℕ
  nodePublishInflightBytes : ℕ
  connectionDeliveryInflightBytes : ℕ
  nodeDeliveryInflightBytes : ℕ
  clientHandshakeTimeoutMs : ℕ
  tcpCommandTimeoutMs : ℕ
  authCacheMaxEntries : ℕ
  authMemoryBytes : ℕ
  maxConnections : ℕ
  maxRdyCount : ℕ
  authResponseBytes : ℕ
  authTimeoutMs : ℕ
  authMaxTtlSeconds : ℕ
  httpBodyTimeoutMs : ℕ
  heartbeatIntervalMs : ℕ
  maxHeartbeatIntervalMs : ℕ
  outputBufferSize : ℕ
  maxOutputBufferSize : ℕ
  minOutputBufferTimeoutMs : ℕ
  outputBufferTimeoutMs : ℕ
  maxOutputBufferTimeoutMs : ℕ
  deriving DecidableEq, Repr

structure Config where
  limits : Limits
  maxMessageBytes : ℕ
  featureLevel : ℕ
  deriving DecidableEq, Repr

/-- The limits of a configuration that sets none. -/
def Limits.default : Limits where
  maxBodyBytes := 64 * 1024 * 1024
  connectionPublishInflightBytes := 80 * 1024 * 1024
  nodePublishInflightBytes := 512 * 1024 * 1024
  connectionDeliveryInflightBytes := 32 * 1024 * 1024
  nodeDeliveryInflightBytes := 512 * 1024 * 1024
  clientHandshakeTimeoutMs := 5000
  tcpCommandTimeoutMs := 30000
  authCacheMaxEntries := 10000
  authMemoryBytes := 256 * 1024 * 1024
  maxConnections := 10000
  maxRdyCount := 2500
  authResponseBytes := 1024 * 1024
  authTimeoutMs := 5000
  authMaxTtlSeconds := 3600
  httpBodyTimeoutMs := 30000
  heartbeatIntervalMs := 30000
  maxHeartbeatIntervalMs := 60000
  outputBufferSize := 16 * 1024
  maxOutputBufferSize := 64 * 1024
  minOutputBufferTimeoutMs := 25
  outputBufferTimeoutMs := 250
  maxOutputBufferTimeoutMs := 30000

def Config.default : Config where
  limits := Limits.default
  maxMessageBytes := 20 * 1024 * 1024
  featureLevel := baseStorageFeatureLevel

/-! ### Admission -/

def permitBytes : ℕ := 4096
def recordFixedBytes : ℕ := headerLen + 4
def messageWorkingBytes : ℕ := 128

/-- The largest number of permits of a semaphore of the runtime. -/
def maxPermits : ℕ := usizeMax / 8

inductive PublishShape where
  | single
  | multi
  deriving DecidableEq, Repr

def units (bytes : ℕ) : ℕ := (max bytes 1 + (permitBytes - 1)) / permitBytes

def capacityIsSupported (bytes : ℕ) : Bool :=
  decide (bytes ≤ i64MaxWord ∧ units bytes ≤ maxPermits ∧ units bytes ≤ u32Max)

def workingSetBytes (bytes : ℕ) (shape : PublishShape) : ℕ :=
  let messages := match shape with
    | .single => 1
    | .multi => maxMpubMessages
  satAdd usizeMax (satAdd usizeMax bytes recordFixedBytes)
    (satMul usizeMax messages messageWorkingBytes)

namespace Config

variable (config : Config)

def publishWorkingSet : ℕ :=
  max (workingSetBytes config.limits.maxBodyBytes .multi)
    (workingSetBytes config.maxMessageBytes .single)

/-- The largest payload of a record that the limits are meant to allow. -/
def maximumRecordPayload : ℕ :=
  max (satAdd usizeMax config.maxMessageBytes 24)
    (satAdd usizeMax config.limits.maxBodyBytes (16 * maxMpubMessages))

/-- The largest message that may be in the log. -/
def retainedMessageBound : ℕ :=
  if 2 ≤ config.featureLevel then maxSupportedMessageBytes else config.maxMessageBytes

/-- One check: the configuration is refused with a reason. -/
def bail (refused : Prop) [Decidable refused] (reason : String) : Except String Unit :=
  if refused then .error reason else .ok ()

def validateProtocolLimits : Except String Unit := do
  let limits := config.limits
  bail (limits.maxBodyBytes = 0 ∨ maxSupportedBatchBytes < limits.maxBodyBytes)
    s!"limits.max_body_bytes must be in 1..={maxSupportedBatchBytes}"
  bail (¬capacityIsSupported limits.connectionPublishInflightBytes ∨
      ¬capacityIsSupported limits.nodePublishInflightBytes)
    "publish inflight limits exceed the runtime semaphore or metrics capacity"
  bail (limits.connectionPublishInflightBytes < config.publishWorkingSet ∨
      limits.nodePublishInflightBytes < limits.connectionPublishInflightBytes)
    "publish inflight limits must fit the encoded working set and satisfy connection <= node"
  bail (maxRecordBytes < config.maximumRecordPayload)
    "configured publish limits can exceed the durable record contract"
  bail (legacyMaxRecordBytes < config.maximumRecordPayload ∧ config.featureLevel < 2)
    "publish limits above the v7 legacy record bound require storage.feature_level = 2"
  bail (limits.connectionDeliveryInflightBytes < config.retainedMessageBound ∨
      usizeMax < limits.connectionDeliveryInflightBytes * 2 ∨
      limits.nodeDeliveryInflightBytes < limits.connectionDeliveryInflightBytes * 2 ∨
      u32Max < limits.nodeDeliveryInflightBytes)
    "delivery inflight limits must fit every readable durable message plus the payload-read working set and fit u32"
  bail (limits.clientHandshakeTimeoutMs = 0 ∨ limits.tcpCommandTimeoutMs = 0 ∨
      limits.authCacheMaxEntries = 0 ∨ limits.authMemoryBytes = 0 ∨ limits.maxConnections = 0 ∨
      limits.maxRdyCount = 0 ∨ limits.authResponseBytes = 0 ∨ limits.authTimeoutMs = 0 ∨
      limits.authMaxTtlSeconds = 0 ∨ limits.httpBodyTimeoutMs = 0)
    "limits connection, RDY, auth, TCP and HTTP timeouts/sizes must be greater than zero"
  bail (¬capacityIsSupported limits.authMemoryBytes ∨
      limits.authMemoryBytes / 4 < limits.authResponseBytes)
    "limits.auth_memory_bytes must fit the runtime semaphore and be at least four times auth_response_bytes"
  bail (limits.heartbeatIntervalMs < 1000 ∨
      limits.maxHeartbeatIntervalMs < limits.heartbeatIntervalMs ∨
      i64MaxWord < limits.maxHeartbeatIntervalMs)
    "limits heartbeat interval must fit 1000..=max_heartbeat_interval_ms"
  bail (limits.outputBufferSize < 64 ∨ limits.maxOutputBufferSize < limits.outputBufferSize ∨
      i64MaxWord < limits.maxOutputBufferSize)
    "limits output_buffer_size must fit 64..=max_output_buffer_size"
  bail (limits.minOutputBufferTimeoutMs = 0 ∨
      limits.outputBufferTimeoutMs < limits.minOutputBufferTimeoutMs ∨
      limits.maxOutputBufferTimeoutMs < limits.outputBufferTimeoutMs ∨
      i64MaxWord < limits.maxOutputBufferTimeoutMs)
    "limits output buffer timeout must fit min..=default..=max"

/-! ### Accepted configurations -/

variable {config}

theorem bail_eq_ok {refused : Prop} [Decidable refused] {reason : String} {result : Unit}
    (h : bail refused reason = .ok result) : ¬refused := by
  unfold bail at h
  split_ifs at h with hrefused
  exact hrefused

/-- What the check says about the sizes of publishes and deliveries. -/
theorem validateProtocolLimits_eq_ok (h : config.validateProtocolLimits = .ok ()) :
    config.limits.maxBodyBytes ≤ maxSupportedBatchBytes ∧
      config.maximumRecordPayload ≤ maxRecordBytes ∧
      (config.featureLevel < 2 → config.maximumRecordPayload ≤ legacyMaxRecordBytes) ∧
      config.retainedMessageBound ≤ config.limits.connectionDeliveryInflightBytes ∧
      config.limits.connectionDeliveryInflightBytes * 2 ≤ config.limits.nodeDeliveryInflightBytes ∧
      config.limits.nodeDeliveryInflightBytes ≤ u32Max := by
  obtain ⟨_, hbody, h⟩ := bind_eq_ok.1 h
  obtain ⟨_, -, h⟩ := bind_eq_ok.1 h
  obtain ⟨_, -, h⟩ := bind_eq_ok.1 h
  obtain ⟨_, hrecord, h⟩ := bind_eq_ok.1 h
  obtain ⟨_, hlegacy, h⟩ := bind_eq_ok.1 h
  obtain ⟨_, hdelivery, -⟩ := bind_eq_ok.1 h
  have hbody := bail_eq_ok hbody
  have hrecord := bail_eq_ok hrecord
  have hlegacy := bail_eq_ok hlegacy
  have hdelivery := bail_eq_ok hdelivery
  simp only [not_or, not_and, not_lt] at hbody hrecord hlegacy hdelivery
  exact ⟨hbody.2, hrecord, fun hlevel => not_lt.1 fun hlarge => absurd (hlegacy hlarge) (by omega),
    hdelivery.1, hdelivery.2.2.1, hdelivery.2.2.2⟩

theorem validateProtocolLimits_default : default.validateProtocolLimits = .ok () := by
  decide

end Config

end RustQueue.Server
