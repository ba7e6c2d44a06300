import Otservpp.EventSystem
import Otservpp.FrameReads
import Otservpp.OutMessage

/-! # The connection and its asynchronous operations

`Connection` with the parts of asio it depends on. Handlers run one at a time in the strand.
An asynchronous operation is outstanding until its handler is delivered; its result is fixed
when asio completes it. Cancelling or closing completes what is still in progress with
`operation_aborted` and does not touch what was already completed. The socket calls that throw
on failure consume one outcome each of `sys`. The log records what the proofs speak about. -/
namespace Connection

open ProgramLogic EventSystem

inductive ErrorCode where
  | success
  | operationAborted
  | other (value : ℕ)
  deriving DecidableEq, Repr

/-- The result of an operation on a socket that is not open. -/
def ErrorCode.badDescriptor : ErrorCode := .other 9

/-- The continuation given to `trySendOrEnqueueThen`. -/
inductive AfterSend where
  | keepSending
  | stop
  deriving DecidableEq, Repr

inductive HandlerKind where
  | first
  | subsequent
  deriving DecidableEq, Repr

inductive Phase where
  | header
  | body
  deriving DecidableEq, Repr

structure ReadOp where
  id : ℕ
  handler : HandlerKind
  phase : Phase
  buffer : InMessage.Buffer
  result : Option ErrorCode
  deriving DecidableEq, Repr

structure WriteOp where
  id : ℕ
  afterSend : AfterSend
  result : Option ErrorCode
  deriving DecidableEq, Repr

/-- An `async_wait` armed for the operation `op`: pending, or with the code it completed with. -/
structure Wait where
  op : ℕ
  result : Option ErrorCode
  deriving DecidableEq, Repr

structure Queued (M : Type) where
  id : ℕ
  msg : M

structure Socket where
  isOpen : Bool
  connected : Bool
  deriving DecidableEq, Repr

/-- `accepted` notes the continuation of the write that was in flight at the call. -/
inductive Action where
  | accepted (id : ℕ) (afterSend : AfterSend) (inFlight : Option AfterSend)
  | encode (id : ℕ)
  | writeStarted (id : ℕ)
  | written (id : ℕ)
  | popped (id : ℕ)
  | stopBegan
  | stopped
  | receivingStopped
  | sendingStopped
  | connectionLost
  | nullAbort
  | callback (kind : HandlerKind)
  | nullCallback
  | wrappedRun
  | nullConnection
  deriving DecidableEq, Repr

/-- What a protocol callback finds: the bytes consumed from the stream so far and the message. -/
structure Call where
  consumed : ℕ
  msg : InMessage.Message

/-- Messages are numbered in the order of their acceptance, reads in the order of their start. A
write has the number of its message. -/
structure State (M : Type) where
  inMsg : InMessage.Message
  outMsgQueue : List (Queued M)
  protocol : Bool
  readClosed : Bool
  writeClosed : Bool
  peer : Socket
  readWaits : List Wait
  writeWaits : List Wait
  reads : List ReadOp
  writes : List WriteOp
  attached : Bool
  started : Bool
  crashed : Bool
  nextId : ℕ
  nextRead : ℕ
  sysCalls : ℕ
  consumed : ℕ
  calls : List Call
  log : List Action

inductive Fault where
  | exception
  | crash
  deriving DecidableEq, Repr

/-- `encode` is that of the protocol's outgoing message, `sys n` the outcome of the `n`-th call
of the socket, `vlog` whether verbose logging is on. -/
structure Config (M : Type) where
  encode : M → Except Fault M
  sys : ℕ → Bool
  ndebug : Bool
  vlog : Bool

abbrev ConnM (M : Type) := EStateM Fault (State M)

section Asio

variable {M : Type} (cfg : Config M)

def record (a : Action) : ConnM M Unit := modify fun s => { s with log := s.log ++ [a] }

/-- The outcome of the next socket call. -/
def sysCall : ConnM M Bool := do
  let s ← get
  modify fun s => { s with sysCalls := s.sysCalls + 1 }
  pure (cfg.sys s.sysCalls)

/-- A call that needs a connected socket and throws `system_error` on failure. -/
def connectedCall : ConnM M Unit := do
  let ok ← sysCall cfg
  let s ← get
  if s.peer.isOpen && s.peer.connected && ok then pure () else throw .exception

def shutdown : ConnM M Unit := connectedCall cfg

def remoteEndpoint : ConnM M Unit := connectedCall cfg

def complete (e : ErrorCode) (r : Option ErrorCode) : Option ErrorCode := some (r.getD e)

def cancelWaits (ws : List Wait) : List Wait :=
  ws.map fun w => { w with result := complete .operationAborted w.result }

/-- The socket is closed and what was in progress on it is cancelled. -/
def closed (s : State M) : State M :=
  { s with
    peer := { s.peer with isOpen := false }
    reads := s.reads.map fun op => { op with result := complete .operationAborted op.result }
    writes := s.writes.map fun op => { op with result := complete .operationAborted op.result } }

/-- The descriptor is closed even when `close` reports an error. -/
def close : ConnM M Unit := do
  let s ← get
  if s.peer.isOpen then
    let ok ← sysCall cfg
    modify closed
    if ok then pure () else throw .exception

/-- Operations started on a socket that is not open complete at once. -/
def initialResult (s : State M) : Option ErrorCode :=
  if s.peer.isOpen then none else some .badDescriptor

def asyncReadOp (handler : HandlerKind) (phase : Phase) (buffer : InMessage.Buffer) :
    ConnM M Unit :=
  modify fun s => { s with
    reads := s.reads ++ [⟨s.nextRead, handler, phase, buffer, initialResult s⟩]
    nextRead := s.nextRead + 1 }

def asyncWriteOp (id : ℕ) (afterSend : AfterSend) : ConnM M Unit :=
  modify fun s => { s with writes := s.writes ++ [⟨id, afterSend, initialResult s⟩] }

def cancelReadTimer : ConnM M Unit :=
  modify fun s => { s with readWaits := cancelWaits s.readWaits }

def cancelWriteTimer : ConnM M Unit :=
  modify fun s => { s with writeWaits := cancelWaits s.writeWaits }

/-- `expires_from_now` cancels the waits in progress, `async_wait` adds a new one. It is armed for
the read that is started next. -/
def updateReadTimer : ConnM M Unit :=
  modify fun s => { s with readWaits := cancelWaits s.readWaits ++ [⟨s.nextRead, none⟩] }

/-- The message at the front of the queue, which is written next. -/
def frontId (s : State M) : ℕ := (s.outMsgQueue.head?.map (·.id)).getD s.nextId

def updateWriteTimer : ConnM M Unit :=
  modify fun s => { s with writeWaits := cancelWaits s.writeWaits ++ [⟨frontId s, none⟩] }

/-- Every log line names the peer. -/
def logInfo : ConnM M Unit := remoteEndpoint cfg

def droppingLogInfo : ConnM M Unit := logInfo cfg

def vlogInfo : ConnM M Unit := if cfg.vlog then logInfo cfg else pure ()

def dvlogInfo : ConnM M Unit := if !cfg.ndebug && cfg.vlog then logInfo cfg else pure ()

def dlogInfo : ConnM M Unit := if !cfg.ndebug then logInfo cfg else pure ()

end Asio

def isReceiving {M : Type} (s : State M) : Bool := !s.readClosed

def isSendind {M : Type} (s : State M) : Bool := !s.writeClosed

def isStopped {M : Type} (s : State M) : Bool := s.readClosed || s.writeClosed

def isAlive {M : Type} (s : State M) : Bool := !isStopped s && s.peer.isOpen

section Lifecycle

variable {M : Type} (cfg : Config M)

def stop : ConnM M Unit := do
  modify fun s => { s with readClosed := true, writeClosed := true, log := s.log ++ [.stopBegan] }
  vlogInfo cfg
  cancelReadTimer
  cancelWriteTimer
  shutdown cfg
  close cfg
  modify fun s => { s with protocol := false, log := s.log ++ [.stopped] }

def stopReceiving : ConnM M Unit := do
  modify fun s => { s with readClosed := true, log := s.log ++ [.receivingStopped] }
  shutdown cfg

def stopSending : ConnM M Unit := do
  modify fun s => { s with writeClosed := true, log := s.log ++ [.sendingStopped] }
  shutdown cfg

/-- `connectionLost` detaches the connection from its protocol. -/
def abort : ConnM M Unit := do
  let s ← get
  if s.protocol then
    modify fun s => { s with attached := false, log := s.log ++ [.connectionLost] }
    stop cfg
  else
    record .nullAbort
    throw .crash

def abortWith (e : ErrorCode) : ConnM M Unit :=
  if e ≠ .operationAborted then abort cfg else pure ()

end Lifecycle

section Sending

variable {M : Type} (cfg : Config M)

/-- The part of `doSend` after `encode`. -/
def writeEncoded (q : Queued M) (rest : List (Queued M)) (afterSend : AfterSend) :
    Except Fault M → ConnM M Unit
  | .error .exception => do
    droppingLogInfo cfg
    abort cfg
  | .error .crash => throw .crash
  | .ok msg => do
    modify fun s => { s with outMsgQueue := ⟨q.id, msg⟩ :: rest }
    record (.writeStarted q.id)
    asyncWriteOp q.id afterSend

/-- `front()` of an empty queue is undefined. -/
def doSend (afterSend : AfterSend) : ConnM M Unit := do
  updateWriteTimer
  let s ← get
  match s.outMsgQueue with
  | [] => throw .crash
  | q :: rest =>
    record (.encode q.id)
    writeEncoded cfg q rest afterSend (cfg.encode q.msg)

def keepSending : ConnM M Unit := do
  let s ← get
  if s.outMsgQueue.isEmpty then cancelWriteTimer else doSend cfg .keepSending

def inFlight (s : State M) : Option AfterSend := s.writes.head?.map (·.afterSend)

def trySendOrEnqueueThen (msg : M) (afterSend : AfterSend) : ConnM M Unit := do
  let s ← get
  if isSendind s then
    modify fun s => { s with
      outMsgQueue := s.outMsgQueue ++ [⟨s.nextId, msg⟩]
      nextId := s.nextId + 1
      log := s.log ++ [.accepted s.nextId afterSend (inFlight s)] }
    if s.outMsgQueue.isEmpty then doSend cfg afterSend

def send (msg : M) : ConnM M Unit := trySendOrEnqueueThen cfg msg .keepSending

def sendAndStop (msg : M) : ConnM M Unit := trySendOrEnqueueThen cfg msg .stop

def popFront : ConnM M Unit := do
  let s ← get
  match s.outMsgQueue with
  | [] => throw .crash
  | q :: rest => modify fun s => { s with outMsgQueue := rest, log := s.log ++ [.popped q.id] }

def afterSendAction : AfterSend → ConnM M Unit
  | .keepSending => keepSending cfg
  | .stop => stop cfg

/-- The completion handler of `async_write`. -/
def writeHandler (op : WriteOp) (e : ErrorCode) : ConnM M Unit :=
  if e = .success then do
    record (.written op.id)
    dvlogInfo cfg
    popFront
    afterSendAction cfg op.afterSend
  else do
    if e ≠ .operationAborted then dlogInfo cfg
    abortWith cfg e

end Sending

section Protocol

/-- What a protocol does with its connection and message while it handles something. -/
inductive Act (M : Type) where
  | read (op : FrameReads.Op)
  | send (msg : M)
  | sendAndStop (msg : M)
  | stop
  | stopReceiving
  | stopSending

/-- A handler body. Exceptions of the single actions may be caught by the protocol; whether one
leaves the handler in the end is `throws`. -/
structure Script (M : Type) where
  acts : List (Act M)
  throws : Bool

variable {M : Type} (cfg : Config M)

def onInMsg {α : Type} (x : InMessage.InM α) : ConnM M α := fun s =>
  match x s.inMsg with
  | .ok a m => .ok a { s with inMsg := m }
  | .error .packetException m => .error .exception { s with inMsg := m }
  | .error .assertion m => .error .crash { s with inMsg := m }

/-- A member call through the protocol's connection pointer. -/
def viaConnection (x : ConnM M Unit) : ConnM M Unit := do
  let s ← get
  if s.attached then x
  else
    record .nullConnection
    throw .crash

def Act.exec : Act M → ConnM M Unit
  | .read op => do let _ ← onInMsg (op.exec cfg.ndebug)
  | .send msg => viaConnection (Connection.send cfg msg)
  | .sendAndStop msg => viaConnection (Connection.sendAndStop cfg msg)
  | .stop => viaConnection (Connection.stop cfg)
  | .stopReceiving => viaConnection (Connection.stopReceiving cfg)
  | .stopSending => viaConnection (Connection.stopSending cfg)

/-- Catches `std::exception`; a crash is not caught. -/
def catchException (x : ConnM M Unit) (handler : ConnM M Unit) : ConnM M Unit :=
  tryCatch x fun
    | .exception => handler
    | .crash => throw .crash

def runActs : List (Act M) → ConnM M Unit
  | [] => pure ()
  | act :: acts => do
    catchException (act.exec cfg) (pure ())
    runActs acts

def Script.run (script : Script M) : ConnM M Unit := do
  runActs cfg script.acts
  if script.throws then throw .exception

/-- `WrappedHandler::operator()`; `handlePacketException` does what the other catch does. -/
def wrappedHandler (script : Script M) : ConnM M Unit := do
  let s ← get
  if s.attached then
    if isAlive s then
      record .wrappedRun
      catchException (script.run cfg) do
        viaConnection (droppingLogInfo cfg)
        viaConnection (Connection.stop cfg)
    else viaConnection (Connection.stop cfg)
  else
    record .nullConnection
    throw .crash

end Protocol

section Receiving

variable {M : Type} (cfg : Config M)

def parseIncomingMessage (kind : HandlerKind) : ConnM M Unit := do
  updateReadTimer
  asyncReadOp kind .header (InMessage.getHeaderBuffer InMessage.standardHeaderSize)

def start : ConnM M Unit := do
  modify fun s => { s with protocol := true, started := true }
  dvlogInfo cfg
  parseIncomingMessage .first

/-- `handleFirstMessage` or `handleMessage` through the protocol pointer. -/
def sendInMsg (kind : HandlerKind) (script : Script M) : ConnM M Unit := do
  let s ← get
  if s.protocol then
    modify fun s => { s with
      calls := s.calls ++ [⟨s.consumed, s.inMsg⟩]
      log := s.log ++ [.callback kind] }
    script.run cfg
  else
    record .nullCallback
    throw .crash

def headerRead (kind : HandlerKind) : ConnM M Unit := do
  updateReadTimer
  catchException
    (do
      let buffer ← onInMsg (InMessage.parseHeaderAndGetBodyBuffer cfg.ndebug)
      asyncReadOp kind .body buffer)
    (do
      droppingLogInfo cfg
      abort cfg)

/-- The handler's exception is caught first; `abort` runs outside of the try block. -/
def bodyRead (kind : HandlerKind) (script : Script M) : ConnM M Unit := do
  cancelReadTimer
  dvlogInfo cfg
  let threw ← tryCatch (do sendInMsg cfg kind script; pure false) fun
    | .exception => pure true
    | .crash => throw .crash
  if threw then
    droppingLogInfo cfg
    abort cfg
  else
    let s ← get
    if isReceiving s then parseIncomingMessage .subsequent

/-- The completion handler that `asyncRead` wraps around both bodies. -/
def readHandler (op : ReadOp) (e : ErrorCode) (script : Script M) : ConnM M Unit :=
  if e = .success then do
    let s ← get
    if isReceiving s then
      dvlogInfo cfg
      match op.phase with
      | .header => headerRead cfg op.handler
      | .body => bodyRead cfg op.handler script
  else do
    if e ≠ .operationAborted then vlogInfo cfg
    abortWith cfg e

def timerHandler (e : ErrorCode) : ConnM M Unit := do
  if e ≠ .operationAborted then dlogInfo cfg
  abortWith cfg e

end Receiving

/-- `complete...` and `expire...` are asio finishing an operation, `deliver...` the strand
running its handler. A protocol callback behaves as the given script. -/
inductive Event (M : Type) where
  | start
  | send (msg : M)
  | sendAndStop (msg : M)
  | stop
  | stopReceiving
  | stopSending
  | wrapped (script : Script M)
  | peerDisconnected
  | completeRead (i : ℕ) (e : ErrorCode) (data : List UInt8)
  | completeWrite (i : ℕ) (e : ErrorCode)
  | expireRead (i : ℕ) (e : ErrorCode)
  | expireWrite (i : ℕ) (e : ErrorCode)
  | deliverRead (i : ℕ) (script : Script M)
  | deliverWrite (i : ℕ)
  | deliverReadWait (i : ℕ)
  | deliverWriteWait (i : ℕ)

section System

variable {M : Type} (cfg : Config M)

def initial (uninitialised : ByteMemory.Memory) : State M where
  inMsg := InMessage.standardInMessage uninitialised
  outMsgQueue := []
  protocol := false
  readClosed := false
  writeClosed := false
  peer := ⟨true, true⟩
  readWaits := []
  writeWaits := []
  reads := []
  writes := []
  attached := true
  started := false
  crashed := false
  nextId := 0
  nextRead := 0
  sysCalls := 0
  consumed := 0
  calls := []
  log := []

/-- A timer is only completed with `operation_aborted` by a cancellation. -/
def Enabled (s : State M) (event : Event M) : Prop :=
  s.crashed = false ∧ match event with
  | .start => s.started = false
  | .completeRead i e data => ∃ op ∈ s.reads[i]?, op.result = none ∧
      (e = .success → data.length = op.buffer.size)
  | .completeWrite i _ => ∃ op ∈ s.writes[i]?, op.result = none
  | .expireRead i e => (∃ w ∈ s.readWaits[i]?, w.result = none) ∧ e ≠ .operationAborted
  | .expireWrite i e => (∃ w ∈ s.writeWaits[i]?, w.result = none) ∧ e ≠ .operationAborted
  | .deliverRead i _ => ∃ op ∈ s.reads[i]?, op.result.isSome
  | .deliverWrite i => ∃ op ∈ s.writes[i]?, op.result.isSome
  | .deliverReadWait i => ∃ w ∈ s.readWaits[i]?, w.result.isSome
  | .deliverWriteWait i => ∃ w ∈ s.writeWaits[i]?, w.result.isSome
  | _ => True

/-- An exception that leaves a handler ends that handler only. -/
def finish (x : ConnM M Unit) (s : State M) : State M :=
  match x s with
  | .ok _ t => t
  | .error .exception t => t
  | .error .crash t => { t with crashed := true }

def readCompleted (s : State M) (i : ℕ) (op : ReadOp) (e : ErrorCode) (data : List UInt8) :
    State M :=
  if e = .success then
    { s with
      reads := s.reads.set i { op with result := some e }
      inMsg := FrameReads.fill op.buffer data s.inMsg
      consumed := s.consumed + data.length }
  else { s with reads := s.reads.set i { op with result := some e } }

def next (s : State M) : Event M → State M
  | .start => finish (start cfg) s
  | .send msg => finish (Connection.send cfg msg) s
  | .sendAndStop msg => finish (Connection.sendAndStop cfg msg) s
  | .stop => finish (Connection.stop cfg) s
  | .stopReceiving => finish (Connection.stopReceiving cfg) s
  | .stopSending => finish (Connection.stopSending cfg) s
  | .wrapped script => finish (wrappedHandler cfg script) s
  | .peerDisconnected => { s with peer := { s.peer with connected := false } }
  | .completeRead i e data =>
    match s.reads[i]? with
    | some op => readCompleted s i op e data
    | none => s
  | .completeWrite i e =>
    match s.writes[i]? with
    | some op => { s with writes := s.writes.set i { op with result := some e } }
    | none => s
  | .expireRead i e =>
    { s with readWaits := s.readWaits.modify i fun w => { w with result := some e } }
  | .expireWrite i e =>
    { s with writeWaits := s.writeWaits.modify i fun w => { w with result := some e } }
  | .deliverRead i script =>
    match s.reads[i]? with
    | some ⟨id, handler, phase, buffer, some e⟩ =>
      finish (readHandler cfg ⟨id, handler, phase, buffer, some e⟩ e script)
        { s with reads := s.reads.eraseIdx i }
    | _ => s
  | .deliverWrite i =>
    match s.writes[i]? with
    | some ⟨id, afterSend, some e⟩ =>
      finish (writeHandler cfg ⟨id, afterSend, some e⟩ e) { s with writes := s.writes.eraseIdx i }
    | _ => s
  | .deliverReadWait i =>
    match s.readWaits[i]? with
    | some ⟨_, some e⟩ => finish (timerHandler cfg e) { s with readWaits := s.readWaits.eraseIdx i }
    | _ => s
  | .deliverWriteWait i =>
    match s.writeWaits[i]? with
    | some ⟨_, some e⟩ => finish (timerHandler cfg e) { s with writeWaits := s.writeWaits.eraseIdx i }
    | _ => s

def system : System (State M) (Event M) := ⟨Enabled, next cfg⟩

/-- `encode` of the outgoing message that `ProtocolTraits` gives every protocol; what fails in it
is an assertion. -/
def standardConfig (sys : ℕ → Bool) (ndebug vlog : Bool) : Config OutMessage.Message where
  encode m :=
    match OutMessage.encode ndebug m with
    | .ok _ m' => .ok m'
    | .error _ _ => .error .crash
  sys := sys
  ndebug := ndebug
  vlog := vlog

instance (s : State M) (event : Event M) : Decidable (Enabled s event) := by
  unfold Enabled
  cases event <;> simp only [Option.mem_def] <;> infer_instance

instance (s : State M) (event : Event M) : Decidable ((system cfg).Enabled s event) :=
  inferInstanceAs (Decidable (Enabled s event))

/-- A run of a connection from its construction. -/
def Reachable (es : List (Event M)) (s : State M) : Prop :=
  ∃ uninitialised, Run (system cfg) (initial uninitialised) es s

end System

end Connection
