import ServiceVm.Host.Reply

/-! # Calls of privileged services -/
namespace ServiceVm.Host

/-- Service ids of four bytes each. -/
def decodeServiceIds (data : Bytes) : Array ServiceId :=
  (data.chunks 4).map fun chunk => chunk.toWord.toUInt32

/-- Service ids of four bytes, each followed by an amount of gas of eight bytes. The last entry of a
service wins. -/
def decodeGasMap (data : Bytes) : Std.TreeMap ServiceId UInt64 :=
  (data.chunks 12).foldl
    (fun entries chunk =>
      entries.insert chunk.toWord.toUInt32 (chunk.drop 4).toWord) ∅

/-- The manager sets the privileged services. -/
def bless (config : Config) : HostAction Unit := do
  let s ← get
  let assigners ← s.readBytes s.r8 (4 * config.params.cores.toUInt64)
  if UInt64.size ≤ s.r11.toNat * 12 then
    throw .badMemory
  let always ← s.readBytes s.r10 (s.r11 * 12)
  let c ← s.accumulation
  let x := c.current
  if x.service ≠ x.state.manager then
    throw .huh
  let manager ← require (toUInt32? s.r7) .who
  let delegator ← require (toUInt32? s.r9) .who
  let _ ← require (toUInt32? s.r8) .who
  updateCurrent fun x =>
    { x with state := { x.state with
        manager
        delegator
        assigners := decodeServiceIds assigners
        alwaysAccumulate := decodeGasMap always } }
  reply replyOk

/-- Sets entry `core`, after empty queues for the cores before it that have none. -/
def setQueue (queues : Array (Array Hash)) (core : Nat) (queue : Array Hash) :
    Array (Array Hash) :=
  (queues ++ Array.replicate (core + 1 - queues.size) #[]).setIfInBounds core queue

/-- The assigner of a core sets its authorizer queue and its next assigner. -/
def assign (config : Config) : HostAction Unit := do
  let s ← get
  let queue ← s.readBytes s.r8 (UInt64.ofNat (32 * authQueueSize))
  let c ← s.accumulation
  let x := c.current
  let core := s.r7.toNat
  if config.params.cores.toNat ≤ core then
    throw .core
  if x.state.assigners[core]? ≠ some x.service then
    throw .huh
  let assigner ← require (toUInt32? s.r9) .who
  let queue := (queue.chunks 32).map Hash.ofBytes
  updateCurrent fun x =>
    { x with state := { x.state with authQueue := setQueue x.state.authQueue core queue } }
  updateCurrent fun x =>
    { x with state := { x.state with
        assigners := x.state.assigners.setIfInBounds core assigner } }
  reply replyOk

/-- The delegator sets the keys of the next validators. -/
def designate (config : Config) : HostAction Unit := do
  let s ← get
  let len := UInt64.ofNat validatorKeySize * config.params.validators.toUInt64
  let keys ← s.readBytes s.r7 len
  let c ← s.accumulation
  let x := c.current
  if x.service ≠ x.state.delegator then
    throw .huh
  let stagingSet := (keys.chunks validatorKeySize).map ValidatorKey.ofBytes
  updateCurrent fun x => { x with state := { x.state with stagingSet } }
  reply replyOk

end ServiceVm.Host
