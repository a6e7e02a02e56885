import Mathlib.Logic.Function.Basic
import ZephyrOS.Net.TcpSegment
import ZephyrOS.Lib.Loop

/-!
# TCP connections

The connection table of `tcp.c` and every call on it. A connection has at most one segment
of its own on the way (the *pending* one), takes no segment but the next in order, and tells
its consumer what happened through events.

`Env` is what a call meets: the clock, the local address, what becomes of each segment that
is sent and what the consumer answers to each event. The state carries a record of both,
`sent` and `events`, which no call reads but to ask `Env` for the next answer. The counters
of `tcp_status_t` are left out, but for the number of connections.
-/

namespace ZephyrOS.Tcp

def connectionCapacity : Nat := 16
def defaultReceiveWindow : Nat := 4096
def handleGenerationMax : UInt32 := 0x00FFFFFF
def initialRtoSeconds : Nat := 1
def maxRtoSeconds : Nat := 60
def idleTimeoutSeconds : Nat := 30
def timeWaitSeconds : Nat := 30
def maxRetransmissions : Nat := 3
def maxSafeTicks : Nat := 0x7FFFFFFF
def isnSalt : UInt32 := 0x91E10DA5
def isnIncrement : UInt32 := 0x01010101

/-- `tcp_state_t`. -/
inductive TcpState where
  | closed | synSent | established | finWait1 | finWait2 | closing | closeWait | lastAck
  | timeWait | failed | listen
  deriving DecidableEq, Repr

/-- `tcp_event_t`. -/
inductive Event where
  | connected | data | writable | eof | closed | error
  deriving DecidableEq, Repr

/-- `tcp_connection_t`; `callback` is whether there is one. -/
structure Connection where
  active : Bool
  pendingActive : Bool
  pendingSent : Bool
  pendingRetransmitted : Bool
  closeRequested : Bool
  retransmissions : Nat
  localPort : Nat
  remotePort : Nat
  localWindow : Nat
  remoteWindow : Nat
  remoteMss : Nat
  pendingFlags : UInt8
  pendingPayload : List UInt8
  generation : UInt32
  remoteIp : UInt32
  sendUnacknowledged : UInt32
  sendNext : UInt32
  receiveNext : UInt32
  pendingSequence : UInt32
  pendingSentTick : UInt32
  lastActivityTick : UInt32
  timeWaitTick : UInt32
  rtoTicks : UInt32
  srttTicks : UInt32
  rttvarTicks : UInt32
  state : TcpState
  callback : Bool
  lastError : Option Err

/-- A connection after `kmemset`. -/
def Connection.zero : Connection :=
  { active := false, pendingActive := false, pendingSent := false, pendingRetransmitted := false
    closeRequested := false, retransmissions := 0, localPort := 0, remotePort := 0
    localWindow := 0, remoteWindow := 0, remoteMss := 0, pendingFlags := 0, pendingPayload := []
    generation := 0, remoteIp := 0, sendUnacknowledged := 0, sendNext := 0, receiveNext := 0
    pendingSequence := 0, pendingSentTick := 0, lastActivityTick := 0, timeWaitTick := 0
    rtoTicks := 0, srttTicks := 0, rttvarTicks := 0, state := .closed, callback := false
    lastError := none }

/-- An event that was handed to a consumer, and its answer. -/
structure Emission where
  handle : UInt32
  event : Event
  data : List UInt8
  error : Option Err
  accepted : Bool

structure Env where
  ticks : UInt32
  frequency : UInt32
  /-- The local address, once IPv4 is configured. -/
  localIp : Option UInt32
  /-- What becomes of the `n`th segment: an error, or whether it went out. -/
  ipv4Send : Nat → Except Err Bool
  /-- The answer to the `n`th event. -/
  answer : Nat → Except Err Unit

structure State where
  initialized : Bool
  connectionCount : Nat
  connections : Nat → Connection
  generations : Nat → UInt32
  isnCounter : UInt32
  events : List Emission
  sent : List (UInt32 × List UInt8)

def State.setConnection (t : State) (index : Nat) (c : Connection) : State :=
  { t with connections := Function.update t.connections index c }

/-- Change a connection in place. -/
def State.modify (t : State) (index : Nat) (f : Connection → Connection) : State :=
  t.setConnection index (f (t.connections index))

def State.logEvent (t : State) (e : Emission) : State := { t with events := t.events ++ [e] }

/-! ### Helpers -/

/-- `tcp_seconds_to_ticks`. -/
def secondsToTicks (seconds : Nat) (frequency : UInt32) : UInt32 :=
  if seconds = 0 ∨ frequency = 0 then 0
  else if maxSafeTicks / frequency.toNat < seconds then UInt32.ofNat maxSafeTicks
  else UInt32.ofNat (seconds * frequency.toNat)

/-- `tcp_elapsed`. -/
def elapsed (now start interval : UInt32) : Bool := interval != 0 && interval ≤ now - start

/-- `tcp_make_handle`. -/
def State.makeHandle (t : State) (index : Nat) : UInt32 :=
  (t.connections index).generation <<< 8 ||| UInt32.ofNat (index + 1)

/-- `tcp_find_handle`. -/
def State.findHandle (t : State) (handle : UInt32) : Option Nat :=
  let slot := handle.toNat % 256
  let generation := handle >>> 8
  if slot = 0 ∨ connectionCapacity < slot ∨ generation = 0 then none
  else if !(t.connections (slot - 1)).active
      ∨ (t.connections (slot - 1)).generation ≠ generation then none
  else some (slot - 1)

def Connection.matchesTuple (c : Connection) (remoteIp : UInt32) (localPort remotePort : Nat) :
    Bool :=
  c.active && c.remoteIp == remoteIp && c.localPort == localPort && c.remotePort == remotePort

/-- `tcp_find_tuple`. -/
def State.findTuple (t : State) (remoteIp : UInt32) (localPort remotePort : Nat) : Option Nat :=
  (List.range connectionCapacity).find? fun index =>
    (t.connections index).matchesTuple remoteIp localPort remotePort

/-- `tcp_emit`. -/
def emit (env : Env) (index : Nat) (event : Event) (data : List UInt8) (error : Option Err)
    (t : State) : Except Err Unit × State :=
  if !(t.connections index).callback then (.error .state, t)
  else
    let answer := env.answer t.events.length
    (answer, t.logEvent ⟨t.makeHandle index, event, data, error, answer.isOk⟩)

/-- `tcp_clear_connection`. -/
def clearConnection (env : Env) (index : Nat) (notify : Bool) (t : State) : State :=
  if !(t.connections index).active then t
  else
    let handle := t.makeHandle index
    let callback := (t.connections index).callback
    let t := { t.setConnection index Connection.zero with
      connectionCount := t.connectionCount - 1 }
    if notify && callback then
      t.logEvent ⟨handle, .closed, [], none, (env.answer t.events.length).isOk⟩
    else t

/-- `tcp_fail`. -/
def fail (env : Env) (index : Nat) (error : Err) (t : State) : State :=
  if !(t.connections index).active ∨ (t.connections index).state = .failed then t
  else
    let t := t.modify index fun c =>
      { c with state := .failed, lastError := some error, pendingActive := false }
    (emit env index .error [] (some error) t).2

/-! ### Sending -/

/-- `tcp_transmit`, without the time it notes in the connection: whether the segment went
out. -/
def transmit (env : Env) (c : Connection) (sequence : UInt32) (flags : UInt8)
    (payload : List UInt8) (t : State) : Except Err Bool × State :=
  match env.localIp with
  | none => (.error .state, t)
  | some localIp =>
    let segment := buildSegment localIp c.remoteIp c.localPort c.remotePort sequence
      (if hasFlag flags flagAck then c.receiveNext else 0) flags c.localWindow payload
    (env.ipv4Send t.sent.length, { t with sent := t.sent ++ [(c.remoteIp, segment)] })

/-- `tcp_transmit` on a connection of the table. -/
def transmitOn (env : Env) (index : Nat) (sequence : UInt32) (flags : UInt8)
    (payload : List UInt8) (t : State) : Except Err Bool × State :=
  match transmit env (t.connections index) sequence flags payload t with
  | (.ok true, t) =>
    (.ok true, t.modify index fun c => { c with lastActivityTick := env.ticks })
  | r => r

/-- `tcp_send_ack`. -/
def sendAck (env : Env) (index : Nat) (t : State) : Except Err Unit × State :=
  match transmitOn env index (t.connections index).sendNext flagAck [] t with
  | (.error e, t) => (.error e, t)
  | (.ok _, t) => (.ok (), t)

/-- `tcp_try_send_pending`. -/
def trySendPending (env : Env) (index : Nat) (t : State) : Except Err Unit × State :=
  let c := t.connections index
  if !c.pendingActive ∨ c.pendingSent then (.ok (), t)
  else
    match transmitOn env index c.pendingSequence c.pendingFlags c.pendingPayload t with
    | (.error e, t) => (.error e, t)
    | (.ok false, t) => (.ok (), t)
    | (.ok true, t) =>
      (.ok (), t.modify index fun c =>
        { c with pendingSent := true, pendingSentTick := env.ticks })

/-- The sequence numbers a segment takes up. -/
def consumed (flags : UInt8) (length : Nat) : Nat :=
  length + (if hasFlag flags flagSyn then 1 else 0) + (if hasFlag flags flagFin then 1 else 0)

/-- `tcp_pending_end`. -/
def Connection.pendingEnd (c : Connection) : UInt32 :=
  c.pendingSequence + UInt32.ofNat (consumed c.pendingFlags c.pendingPayload.length)

/-- `tcp_queue_tracked`. -/
def queueTracked (env : Env) (index : Nat) (flags : UInt8) (payload : List UInt8) (t : State) :
    Except Err Unit × State :=
  if (t.connections index).pendingActive then (.error .state, t)
  else if localMss < payload.length then (.error .invalid, t)
  else
    trySendPending env index (t.modify index fun c =>
      { c with
        pendingActive := true
        pendingSent := false
        pendingRetransmitted := false
        retransmissions := 0
        pendingSequence := c.sendNext
        pendingFlags := flags
        pendingPayload := payload
        sendNext := c.sendNext + UInt32.ofNat (consumed flags payload.length) })

/-- `tcp_absolute_difference`. -/
def absoluteDifference (first second : UInt32) : UInt32 :=
  if second < first then first - second else second - first

/-- `tcp_update_rto`. -/
def Connection.updateRto (c : Connection) (sample frequency : UInt32) : Connection :=
  if sample = 0 ∨ frequency = 0 then c
  else
    let srtt := if c.srttTicks = 0 then sample else (7 * c.srttTicks + sample) / 8
    let rttvar := if c.srttTicks = 0 then sample / 2
      else (3 * c.rttvarTicks + absoluteDifference c.srttTicks sample) / 4
    let variation := if 4 * rttvar < 1 then 1 else 4 * rttvar
    let rto := srtt + variation
    let rto := if rto < secondsToTicks initialRtoSeconds frequency then
      secondsToTicks initialRtoSeconds frequency else rto
    let rto := if secondsToTicks maxRtoSeconds frequency < rto then
      secondsToTicks maxRtoSeconds frequency else rto
    { c with srttTicks := srtt, rttvarTicks := rttvar, rtoTicks := rto }

/-- `tcp_clear_pending`. -/
def Connection.clearPending (env : Env) (c : Connection) : Connection :=
  let c := if c.pendingSent && !c.pendingRetransmitted then
    c.updateRto (env.ticks - c.pendingSentTick) env.frequency else c
  { c with
    pendingActive := false
    pendingSent := false
    pendingPayload := []
    pendingFlags := 0
    retransmissions := 0 }

/-- `tcp_send_raw_reset`. -/
def sendRawReset (env : Env) (packet : Packet) (segment : Segment) (t : State) : State :=
  let acknowledgment := segment.sequence + UInt32.ofNat (consumed segment.flags
    segment.payload.length)
  let temporary := { Connection.zero with
    remoteIp := packet.sourceIp
    localPort := segment.destinationPort
    remotePort := segment.sourcePort }
  if hasFlag segment.flags flagRst then t
  else if hasFlag segment.flags flagAck then
    (transmit env temporary segment.acknowledgment flagRst [] t).2
  else
    (transmit env { temporary with receiveNext := acknowledgment } 0 (flagRst ||| flagAck) [] t).2

/-! ### Receiving -/

/-- `tcp_process_syn_sent`. -/
def processSynSent (env : Env) (index : Nat) (segment : Segment) (t : State) : State :=
  let c := t.connections index
  if hasFlag segment.flags flagRst then
    if hasFlag segment.flags flagAck ∧ segment.acknowledgment = c.sendNext then
      fail env index .unavailable t
    else t
  else if !(hasFlag segment.flags flagSyn && hasFlag segment.flags flagAck)
      ∨ segment.acknowledgment ≠ c.sendNext ∨ segment.payload ≠ [] then t
  else
    let t := t.modify index fun c =>
      { ({ c with sendUnacknowledged := segment.acknowledgment }).clearPending env with
        receiveNext := segment.sequence + 1
        remoteWindow := segment.window
        remoteMss := if segment.mss < localMss then segment.mss else localMss
        state := .established
        lastActivityTick := env.ticks }
    let t := (sendAck env index t).2
    let t := (emit env index .connected [] none t).2
    (emit env index .writable [] none t).2

/-- The state a close goes to. -/
def closingState : TcpState → Option TcpState
  | .established => some .finWait1
  | .closeWait => some .lastAck
  | _ => none

/-- `tcp_begin_close`. -/
def beginClose (env : Env) (index : Nat) (t : State) : Except Err Unit × State :=
  let c := t.connections index
  if c.pendingActive then (.ok (), t)
  else
    match closingState c.state with
    | none => (.ok (), t)
    | some next =>
      let t := t.modify index fun c => { c with state := next }
      match queueTracked env index (flagFin ||| flagAck) [] t with
      | (.error e, t) => (.error e, fail env index e t)
      | (.ok _, t) => (.ok (), t)

/-- What an acknowledgment of our own FIN does to the state; `none` ends the connection. -/
def finAcknowledged (env : Env) (c : Connection) : Option Connection :=
  match c.state with
  | .finWait1 => some { c with state := .finWait2 }
  | .closing => some { c with state := .timeWait, timeWaitTick := env.ticks }
  | .lastAck => none
  | _ => some c

/-- The end of `tcp_process_ack`. -/
def afterAck (env : Env) (index : Nat) (completed : Bool) (t : State) : Except Err Bool × State :=
  let t := if completed then (emit env index .writable [] none t).2 else t
  let c := t.connections index
  if c.closeRequested && !c.pendingActive then
    match beginClose env index t with
    | (.error e, t) => (.error e, t)
    | (.ok _, t) => (.ok false, t)
  else (.ok false, t)

/-- The acknowledgment covers the pending segment. -/
def Connection.completes (c : Connection) (acknowledgment : UInt32) : Bool :=
  sequenceLess c.sendUnacknowledged acknowledgment && c.pendingActive
    && !sequenceLess acknowledgment c.pendingEnd

/-- What `tcp_process_ack` notes of an acceptable acknowledgment. -/
def noteAck (env : Env) (segment : Segment) (completed : Bool) (c : Connection) : Connection :=
  let c' := { c with
    remoteWindow := segment.window
    sendUnacknowledged :=
      if sequenceLess c.sendUnacknowledged segment.acknowledgment then segment.acknowledgment
      else c.sendUnacknowledged }
  if completed then c'.clearPending env else c'

/-- `tcp_process_ack`; the value is `out_closed`. -/
def processAck (env : Env) (index : Nat) (segment : Segment) (t : State) :
    Except Err Bool × State :=
  let c := t.connections index
  if !hasFlag segment.flags flagAck then (.ok false, t)
  else if !sequenceBetween segment.acknowledgment c.sendUnacknowledged c.sendNext then
    (.ok false, (sendAck env index t).2)
  else
    let completed := c.completes segment.acknowledgment
    let t := t.modify index (noteAck env segment completed)
    if completed && hasFlag c.pendingFlags flagFin then
      match finAcknowledged env (t.connections index) with
      | none => (.ok true, clearConnection env index true t)
      | some c => afterAck env index completed (t.setConnection index c)
    else afterAck env index completed t

/-- `tcp_accept_payload`. -/
def acceptPayload (env : Env) (index : Nat) (segment : Segment) (t : State) :
    Except Err Unit × State :=
  let c := t.connections index
  if segment.payload = [] then (.ok (), t)
  else if segment.sequence ≠ c.receiveNext then (.ok (), (sendAck env index t).2)
  else if c.localWindow < segment.payload.length then (.ok (), (sendAck env index t).2)
  else
    match emit env index .data segment.payload none t with
    | (.error _, t) => (.error .overflow, fail env index .overflow t)
    | (.ok _, t) =>
      let t := t.modify index fun c =>
        { c with
          receiveNext := c.receiveNext + UInt32.ofNat segment.payload.length
          localWindow := c.localWindow - segment.payload.length }
      (.ok (), (sendAck env index t).2)

/-- The state after a FIN of the other side. -/
def finReceived (env : Env) (c : Connection) : Connection :=
  match c.state with
  | .established => { c with state := .closeWait }
  | .finWait1 =>
    if c.pendingActive then { c with state := .closing }
    else { c with state := .timeWait, timeWaitTick := env.ticks }
  | .finWait2 => { c with state := .timeWait, timeWaitTick := env.ticks }
  | _ => c

/-- `tcp_accept_fin`. -/
def acceptFin (env : Env) (index : Nat) (segment : Segment) (t : State) : State :=
  let finSequence := segment.sequence + UInt32.ofNat segment.payload.length
  if !hasFlag segment.flags flagFin then t
  else if finSequence ≠ (t.connections index).receiveNext then (sendAck env index t).2
  else
    let t := t.modify index fun c => { c with receiveNext := c.receiveNext + 1 }
    let t := (sendAck env index t).2
    let t := (emit env index .eof [] none t).2
    t.modify index (finReceived env)

/-- What `tcp_process_connection` does with a segment that is the next in order. -/
def processInOrder (env : Env) (index : Nat) (segment : Segment) (t : State) : State :=
  if hasFlag segment.flags flagRst then fail env index .unavailable t
  else if hasFlag segment.flags flagSyn then fail env index .state t
  else if !hasFlag segment.flags flagAck then (sendAck env index t).2
  else
    match processAck env index segment t with
    | (.error _, t) => t
    | (.ok true, t) => t
    | (.ok false, t) =>
      match acceptPayload env index segment t with
      | (.error _, t) => t
      | (.ok _, t) => acceptFin env index segment t

/-- `tcp_process_connection`. -/
def processConnection (env : Env) (index : Nat) (segment : Segment) (t : State) : State :=
  let t := t.modify index fun c => { c with lastActivityTick := env.ticks }
  let c := t.connections index
  if c.state = .synSent then processSynSent env index segment t
  else if c.state = .timeWait then
    if hasFlag segment.flags flagFin
        ∧ segment.sequence + UInt32.ofNat segment.payload.length + 1 = c.receiveNext then
      (sendAck env index t).2.modify index fun c => { c with timeWaitTick := env.ticks }
    else t
  else if segment.sequence ≠ c.receiveNext then (sendAck env index t).2
  else processInOrder env index segment t

/-- `tcp_handle_ipv4`. -/
def handleIpv4 (env : Env) (packet : Packet) (t : State) : State :=
  match parseSegment packet with
  | .error _ => t
  | .ok segment =>
    if checksum packet.sourceIp packet.destinationIp packet.payload ≠ 0 then t
    else
      match t.findTuple packet.sourceIp segment.destinationPort segment.sourcePort with
      | none => sendRawReset env packet segment t
      | some index => processConnection env index segment t

/-! ### Calls -/

/-- `ipv4_address_is_unicast`. -/
def isUnicast (ip : UInt32) : Bool :=
  let first := ip.toNat / 16777216
  ip != 0 && ip != 0xFFFFFFFF && first != 127 && (first < 224 || 239 < first)

/-- `tcp_initial_sequence`, with the counter after it. -/
def initialSequence (env : Env) (counter remoteIp : UInt32) (localPort remotePort : Nat) :
    UInt32 × UInt32 :=
  let counter := counter + isnIncrement
  let sequence := env.ticks ^^^ remoteIp ^^^ UInt32.ofNat (localPort * 65536)
    ^^^ UInt32.ofNat remotePort ^^^ isnSalt ^^^ counter
  (if sequence = 0 then 1 else sequence, counter)

/-- The generation of the next connection in a slot. -/
def nextGeneration (generation : UInt32) : UInt32 :=
  if generation + 1 = 0 ∨ handleGenerationMax < generation + 1 then 1 else generation + 1

/-- The connection `tcp_connect` starts with. -/
def newConnection (env : Env) (generation sequence remoteIp : UInt32)
    (localPort remotePort receiveWindow : Nat) : Connection :=
  { Connection.zero with
    active := true
    generation := generation
    state := .synSent
    localPort := localPort
    remotePort := remotePort
    remoteIp := remoteIp
    localWindow := receiveWindow
    remoteMss := localMss
    sendUnacknowledged := sequence
    sendNext := sequence
    rtoTicks := secondsToTicks initialRtoSeconds env.frequency
    lastActivityTick := env.ticks
    callback := true }

/-- `tcp_connect`, with a callback and a place for the handle. -/
def connect (env : Env) (localPort : Nat) (remoteIp : UInt32) (remotePort receiveWindow : Nat)
    (t : State) : Except Err UInt32 × State :=
  if !t.initialized then (.error .state, t)
  else if localPort = 0 ∨ remotePort = 0 ∨ receiveWindow = 0
      ∨ defaultReceiveWindow < receiveWindow ∨ env.frequency = 0 ∨ !isUnicast remoteIp
      ∨ (t.findTuple remoteIp localPort remotePort).isSome then (.error .invalid, t)
  else
    match (List.range connectionCapacity).find? fun index => !(t.connections index).active with
    | none => (.error .overflow, t)
    | some index =>
      let generation := nextGeneration (t.generations index)
      let (sequence, counter) := initialSequence env t.isnCounter remoteIp localPort remotePort
      let t := { t.setConnection index (newConnection env generation sequence remoteIp localPort
          remotePort receiveWindow) with
        generations := Function.update t.generations index generation
        isnCounter := counter
        connectionCount := t.connectionCount + 1 }
      let handle := t.makeHandle index
      match queueTracked env index flagSyn [] t with
      | (.error e, t) => (.error e, clearConnection env index false t)
      | (.ok _, t) => (.ok handle, t)

/-- How much of `data` `tcp_send` takes. -/
def Connection.acceptedLength (c : Connection) (length : Nat) : Nat :=
  min (min (min length localMss) c.remoteMss) c.remoteWindow

/-- `tcp_send`; the value is how many bytes were taken. -/
def send (env : Env) (handle : UInt32) (data : List UInt8) (t : State) : Except Err Nat × State :=
  if !t.initialized then (.error .state, t)
  else
    match t.findHandle handle with
    | none => (.error .invalid, t)
    | some index =>
      let c := t.connections index
      if (c.state ≠ .established ∧ c.state ≠ .closeWait) ∨ c.pendingActive ∨ data = []
          ∨ c.remoteWindow = 0 then (.ok 0, t)
      else
        let accepted := c.acceptedLength data.length
        match queueTracked env index (flagAck ||| flagPsh) (data.take accepted) t with
        | (.error e, t) => (.error e, fail env index e t)
        | (.ok _, t) =>
          (.ok accepted, t.modify index fun c =>
            { c with remoteWindow := c.remoteWindow - accepted })

/-- `tcp_set_receive_window`. -/
def setReceiveWindow (env : Env) (handle : UInt32) (receiveWindow : Nat) (t : State) :
    Except Err Unit × State :=
  if !t.initialized then (.error .state, t)
  else if defaultReceiveWindow < receiveWindow then (.error .invalid, t)
  else
    match t.findHandle handle with
    | none => (.error .invalid, t)
    | some index =>
      let previous := (t.connections index).localWindow
      let t := t.modify index fun c => { c with localWindow := receiveWindow }
      if (t.connections index).state = .established ∧ previous < receiveWindow
          ∧ (previous = 0 ∨ localMss ≤ receiveWindow - previous) then sendAck env index t
      else (.ok (), t)

/-- `tcp_close`. -/
def close (env : Env) (handle : UInt32) (t : State) : Except Err Unit × State :=
  if !t.initialized then (.error .state, t)
  else
    match t.findHandle handle with
    | none => (.error .invalid, t)
    | some index =>
      let c := t.connections index
      if c.state = .synSent ∨ c.state = .failed then (.ok (), clearConnection env index true t)
      else beginClose env index (t.modify index fun c => { c with closeRequested := true })

/-- `tcp_abort`. -/
def abort (env : Env) (handle : UInt32) (t : State) : Except Err Unit × State :=
  if !t.initialized then (.error .state, t)
  else
    match t.findHandle handle with
    | none => (.error .invalid, t)
    | some index =>
      let c := t.connections index
      let t := if c.state ≠ .synSent ∧ c.state ≠ .failed ∧ c.state ≠ .timeWait then
        (transmitOn env index c.sendNext (flagRst ||| flagAck) [] t).2 else t
      (.ok (), clearConnection env index false t)

/-- `tcp_maintain_pending`. -/
def maintainPending (env : Env) (index : Nat) (maximumRto : UInt32) (t : State) : State :=
  let c := t.connections index
  if !c.pendingActive then t
  else if !c.pendingSent then
    match trySendPending env index t with
    | (.error e, t) => fail env index e t
    | (.ok _, t) => t
  else if !elapsed env.ticks c.pendingSentTick c.rtoTicks then t
  else if maxRetransmissions ≤ c.retransmissions then fail env index .timeout t
  else
    let t := t.modify index fun c =>
      { c with
        retransmissions := c.retransmissions + 1
        pendingRetransmitted := true
        pendingSent := false
        rtoTicks := if maximumRto / 2 < c.rtoTicks then maximumRto else c.rtoTicks * 2 }
    match trySendPending env index t with
    | (.error e, t) =>
      if e ≠ .timeout then t.modify index fun c => { c with lastError := some e } else t
    | (.ok _, t) => t

/-- `tcp_maintain_connection`. -/
def maintainConnection (env : Env) (index : Nat) (t : State) : State :=
  let c := t.connections index
  if c.state = .timeWait then
    if elapsed env.ticks c.timeWaitTick (secondsToTicks timeWaitSeconds env.frequency) then
      clearConnection env index true t
    else t
  else if c.state = .failed then t
  else
    let t := maintainPending env index (secondsToTicks maxRtoSeconds env.frequency) t
    let c := t.connections index
    if c.state = .failed ∨ (c.pendingActive ∧ !c.pendingSent) then t
    else if elapsed env.ticks c.lastActivityTick
        (secondsToTicks idleTimeoutSeconds env.frequency) then fail env index .timeout t
    else if c.active && c.closeRequested && !c.pendingActive then (beginClose env index t).2
    else t

/-- `tcp_maintain`. -/
def maintain (env : Env) (t : State) : Except Err Unit × State :=
  if !t.initialized then (.error .state, t)
  else if env.frequency = 0 then (.error .state, t)
  else
    (.ok (), Lib.forRange 0 (fun index t =>
      if (t.connections index).active then maintainConnection env index t else t)
      connectionCapacity t)

/-- `tcp_reset`. -/
def reset (env : Env) (t : State) : Except Err Unit × State :=
  if !t.initialized then (.error .state, t)
  else
    (.ok (), { Lib.forRange 0 (fun index t => clearConnection env index true t)
      connectionCapacity t with connectionCount := 0 })

/-- The state `tcp_init` leaves. -/
def State.fresh : State :=
  { initialized := true, connectionCount := 0, connections := fun _ => Connection.zero
    generations := fun _ => 0, isnCounter := 0, events := [], sent := [] }

end ZephyrOS.Tcp
