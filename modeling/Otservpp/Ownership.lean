import Otservpp.Instrumented
import Otservpp.ReceiveLoop

/-! # Who owns a connection and its protocol

Both live as long as some shared pointer holds them. The protocol holds the connection and the
connection the protocol; of the handlers only that of a write holds the connection, those of reads
and timers carry a bare pointer to it. A continuation that the protocol handed out may hold the
protocol. Here the programs of the connection run on objects that are destroyed when their last
owner lets go, which can happen while a member function is running. -/
namespace Ownership

open ProgramLogic EventSystem Lifecycle Instrumented

inductive Fault where
  | dangling
  | unstopped
  deriving DecidableEq, Repr

/-- `frames` counts the running functions that hold the connection, `keepers` the continuations
that hold the protocol; the one who created the two is among both until `start` has returned. -/
structure State (M : Type) where
  conn : Connection.State M
  connAlive : Bool
  protAlive : Bool
  frames : ℕ
  keepers : ℕ
  fault : Option Fault

abbrev LifeM (M : Type) := EStateM (Connection.Fault ⊕ Fault) (State M)

/-- What a protocol does while it handles something; `share` hands out a pointer to itself. -/
inductive Act (M : Type) where
  | act (act : Connection.Act M)
  | share

structure Script (M : Type) where
  acts : List (Act M)
  throws : Bool

section Pointers

variable {M : Type} (cfg : Connection.Config M)

def connOwners (s : State M) : ℕ :=
  (s.protAlive && s.conn.attached).toNat + s.conn.writes.length + s.frames

def protOwners (s : State M) : ℕ := (s.connAlive && s.conn.protocol).toNat + s.keepers

def setConn (s : State M) (c : Connection.State M) : State M := { s with conn := c }

/-- Something done to the members of the connection. -/
def member {α : Type} (x : Connection.ConnM M α) : LifeM M α :=
  guarded State.conn setConn State.connAlive .dangling x

/-- Something done to the members of the protocol. -/
def ofProtocol {α : Type} (x : Connection.ConnM M α) : LifeM M α :=
  guarded State.conn setConn State.protAlive .dangling x

/-- Something noted that touches neither. -/
def noted {α : Type} (x : Connection.ConnM M α) : LifeM M α :=
  guarded State.conn setConn (fun _ => true) .dangling x

def dropProtocol (s : State M) : State M :=
  if protOwners s = 0 then { s with protAlive := false } else s

/-- The destructor asserts that the connection is stopped. -/
def dropConnection : LifeM M Unit := fun s =>
  if s.connAlive = true ∧ connOwners s = 0 then
    if cfg.ndebug || Connection.isStopped s.conn then .ok () { s with connAlive := false }
    else .error (.inr .unstopped) s
  else .ok () s

/-- After an owner let go: the protocol's end may be that of the connection, and the other way
round. -/
def collect : LifeM M Unit := do
  modify dropProtocol
  dropConnection cfg
  modify dropProtocol

/-- The end of a scope that owned something. -/
def letGo (f : State M → State M) : LifeM M Unit := do
  modify f
  collect cfg

/-- Leaves the scope however `x` ends. -/
def ending (x : LifeM M Unit) (f : State M → State M) : LifeM M Unit := do
  catching x fun e => do
    letGo cfg f
    throw (.inl e)
  letGo cfg f

def leave (s : State M) : State M := { s with frames := s.frames - 1 }

/-- A function with `auto sthis = shared_from_this()`. -/
def holding (x : LifeM M Unit) : LifeM M Unit := do
  member (pure ())
  modify fun s => { s with frames := s.frames + 1 }
  ending cfg x leave

end Pointers

section Lifecycle

variable {M : Type} (cfg : Connection.Config M)

/-- `protocol.reset()` -/
def resetProtocol : LifeM M Unit := do
  member (modify fun s => { s with protocol := false, log := s.log ++ [.stopped] })
  collect cfg

def stop : LifeM M Unit := do
  member (modify fun s =>
    { s with readClosed := true, writeClosed := true, log := s.log ++ [.stopBegan] })
  member (Connection.vlogInfo cfg)
  member Connection.cancelReadTimer
  member Connection.cancelWriteTimer
  member (Connection.shutdown cfg)
  member (Connection.close cfg)
  resetProtocol cfg

/-- `protocol->connectionLost()` -/
def detachConnection : LifeM M Unit := do
  member (modify fun s => { s with attached := false, log := s.log ++ [.connectionLost] })
  collect cfg

def abort : LifeM M Unit := do
  let s ← member get
  if s.protocol then
    detachConnection cfg
    stop cfg
  else
    member (Connection.record .nullAbort)
    throw (.inl .crash)

/-- With `operation_aborted` nothing of the connection is looked at. -/
def abortWith (e : Connection.ErrorCode) : LifeM M Unit :=
  if e ≠ .operationAborted then abort cfg else pure ()

end Lifecycle

section Sending

variable {M : Type} (cfg : Connection.Config M)

def writeEncoded (q : Connection.Queued M) (rest : List (Connection.Queued M))
    (afterSend : Connection.AfterSend) : Except Connection.Fault M → LifeM M Unit
  | .error .exception => do
    member (Connection.droppingLogInfo cfg)
    abort cfg
  | .error .crash => throw (.inl .crash)
  | .ok msg => do
    member (modify fun s => { s with outMsgQueue := ⟨q.id, msg⟩ :: rest })
    member (Connection.record (.writeStarted q.id))
    member (Connection.asyncWriteOp q.id afterSend)

/-- The part of `doSend` that holds the connection. -/
def encodeFront (afterSend : Connection.AfterSend) : LifeM M Unit := do
  let s ← member get
  match s.outMsgQueue with
  | [] => throw (.inl .crash)
  | q :: rest =>
    member (Connection.record (.encode q.id))
    writeEncoded cfg q rest afterSend (cfg.encode q.msg)

def doSend (afterSend : Connection.AfterSend) : LifeM M Unit := do
  member Connection.updateWriteTimer
  holding cfg (encodeFront cfg afterSend)

def keepSending : LifeM M Unit := do
  let s ← member get
  if s.outMsgQueue.isEmpty then member Connection.cancelWriteTimer else doSend cfg .keepSending

def trySendOrEnqueueThen (msg : M) (afterSend : Connection.AfterSend) : LifeM M Unit := do
  let s ← member get
  if Connection.isSendind s then
    member (modify fun s => { s with
      outMsgQueue := s.outMsgQueue ++ [⟨s.nextId, msg⟩]
      nextId := s.nextId + 1
      log := s.log ++ [.accepted s.nextId afterSend (Connection.inFlight s)] })
    if s.outMsgQueue.isEmpty then doSend cfg afterSend

def afterSendAction : Connection.AfterSend → LifeM M Unit
  | .keepSending => keepSending cfg
  | .stop => stop cfg

def writeHandler (op : Connection.WriteOp) (e : Connection.ErrorCode) : LifeM M Unit :=
  if e = .success then do
    member (Connection.record (.written op.id))
    member (Connection.dvlogInfo cfg)
    member Connection.popFront
    afterSendAction cfg op.afterSend
  else do
    if e ≠ .operationAborted then member (Connection.dlogInfo cfg)
    abortWith cfg e

end Sending

section Protocol

variable {M : Type} (cfg : Connection.Config M)

/-- A member call through the pointer that is a member of the protocol. -/
def viaConnection (x : LifeM M Unit) : LifeM M Unit := do
  let s ← ofProtocol get
  if s.attached then x
  else
    noted (Connection.record .nullConnection)
    throw (.inl .crash)

/-- The message that a protocol reads is a member of the connection. -/
def Act.exec : Act M → LifeM M Unit
  | .act (.read op) => member (Connection.Act.exec cfg (.read op))
  | .act (.send msg) => viaConnection (trySendOrEnqueueThen cfg msg .keepSending)
  | .act (.sendAndStop msg) => viaConnection (trySendOrEnqueueThen cfg msg .stop)
  | .act .stop => viaConnection (stop cfg)
  | .act .stopReceiving => viaConnection (member (Connection.stopReceiving cfg))
  | .act .stopSending => viaConnection (member (Connection.stopSending cfg))
  | .share => do
    ofProtocol (pure ())
    modify fun s => { s with keepers := s.keepers + 1 }

def catchException (x : LifeM M Unit) (handler : LifeM M Unit) : LifeM M Unit :=
  catching x fun
    | .exception => handler
    | .crash => throw (.inl .crash)

def runActs : List (Act M) → LifeM M Unit
  | [] => pure ()
  | act :: acts => do
    catchException (act.exec cfg) (pure ())
    runActs acts

def Script.run (script : Script M) : LifeM M Unit := do
  runActs cfg script.acts
  if script.throws then throw (.inl .exception)

/-- The wrapper has a bare pointer to the protocol; what it wraps holds it. -/
def wrappedHandler (script : Script M) : LifeM M Unit := do
  let s ← ofProtocol get
  if s.attached then
    if Connection.isAlive s then
      noted (Connection.record .wrappedRun)
      catchException (script.run cfg) do
        viaConnection (member (Connection.droppingLogInfo cfg))
        viaConnection (stop cfg)
    else viaConnection (stop cfg)
  else
    noted (Connection.record .nullConnection)
    throw (.inl .crash)

end Protocol

section Receiving

variable {M : Type} (cfg : Connection.Config M)

def sendInMsg (kind : Connection.HandlerKind) (script : Script M) : LifeM M Unit := do
  let s ← member get
  if s.protocol then
    member (modify fun s => { s with
      calls := s.calls ++ [⟨s.consumed, s.inMsg⟩]
      log := s.log ++ [.callback kind] })
    script.run cfg
  else
    member (Connection.record .nullCallback)
    throw (.inl .crash)

def headerRead (kind : Connection.HandlerKind) : LifeM M Unit := do
  member Connection.updateReadTimer
  catchException
    (do
      let buffer ← member (Connection.onInMsg (InMessage.parseHeaderAndGetBodyBuffer cfg.ndebug))
      member (Connection.asyncReadOp kind .body buffer))
    (do
      member (Connection.droppingLogInfo cfg)
      abort cfg)

def bodyRead (kind : Connection.HandlerKind) (script : Script M) : LifeM M Unit := do
  member Connection.cancelReadTimer
  member (Connection.dvlogInfo cfg)
  let threw ← catching (do sendInMsg cfg kind script; pure false) fun
    | .exception => pure true
    | .crash => throw (.inl .crash)
  if threw then
    member (Connection.droppingLogInfo cfg)
    abort cfg
  else
    let s ← member get
    if Connection.isReceiving s then member (Connection.parseIncomingMessage .subsequent)

def readHandler (op : Connection.ReadOp) (e : Connection.ErrorCode) (script : Script M) :
    LifeM M Unit :=
  if e = .success then do
    let s ← member get
    if Connection.isReceiving s then
      member (Connection.dvlogInfo cfg)
      match op.phase with
      | .header => headerRead cfg op.handler
      | .body => bodyRead cfg op.handler script
  else do
    if e ≠ .operationAborted then member (Connection.vlogInfo cfg)
    abortWith cfg e

def timerHandler (e : Connection.ErrorCode) : LifeM M Unit := do
  if e ≠ .operationAborted then member (Connection.dlogInfo cfg)
  abortWith cfg e

end Receiving

section Owners

variable {M : Type} {cfg : Connection.Config M} {s t : State M}

/-- Whatever has an owner is alive. -/
structure Held (s : State M) : Prop where
  conn : 0 < connOwners s → s.connAlive = true
  prot : 0 < protOwners s → s.protAlive = true
  cycle : s.conn.attached = true → s.conn.protocol = true → s.connAlive = true

/-- Nothing is alive without an owner either. -/
structure Owned (s : State M) : Prop extends Held s where
  conn_owned : s.connAlive = true → 0 < connOwners s
  prot_owned : s.protAlive = true → 0 < protOwners s

/-- Destruction changes nothing but what is alive. -/
structure Same (s t : State M) : Prop where
  conn : t.conn = s.conn
  frames : t.frames = s.frames
  keepers : t.keepers = s.keepers
  fault : t.fault = s.fault
  dead : s.connAlive = false → t.connAlive = false

theorem Same.trans {u : State M} (h : Same s t) (k : Same t u) : Same s u :=
  ⟨k.conn.trans h.conn, k.frames.trans h.frames, k.keepers.trans h.keepers, k.fault.trans h.fault,
    fun hs => k.dead (h.dead hs)⟩

theorem dropProtocol_same (s : State M) : Same s (dropProtocol s) := by
  unfold dropProtocol
  split
  · exact ⟨rfl, rfl, rfl, rfl, id⟩
  · exact ⟨rfl, rfl, rfl, rfl, id⟩

theorem dropProtocol_held (h : Held s) : Held (dropProtocol s) := by
  unfold dropProtocol
  split
  · next hnone =>
    refine ⟨fun hconn => h.conn ?_, fun hprot => absurd hnone (Nat.ne_of_gt hprot), h.cycle⟩
    simp only [connOwners, Bool.false_and, Bool.toNat_false] at hconn ⊢
    omega
  · exact h

theorem dropProtocol_owned (s : State M) :
    (dropProtocol s).protAlive = true → 0 < protOwners (dropProtocol s) := by
  unfold dropProtocol
  split
  · intro h
    cases h
  · next hsome =>
    intro _
    exact Nat.pos_of_ne_zero hsome

theorem dropProtocol_of_owned (h : 0 < protOwners s) : dropProtocol s = s :=
  if_neg (Nat.ne_of_gt h)

theorem dropConnection_of_owned (h : 0 < connOwners s) : dropConnection cfg s = .ok () s :=
  if_neg fun hnone => Nat.ne_of_gt h hnone.2

/-- Where both have an owner, nothing happens. -/
theorem collect_of_owned (hconn : 0 < connOwners s) (hprot : 0 < protOwners s) :
    collect cfg s = .ok () s := by
  change (dropConnection cfg >>= fun _ => modify dropProtocol) (dropProtocol s) = _
  rw [dropProtocol_of_owned hprot, bind_ok (dropConnection_of_owned hconn), modify_run,
    dropProtocol_of_owned hprot]

/-- What is left when the connection is destroyed. -/
theorem destroyed_owned (h : Held s) (hnone : connOwners s = 0) : Owned (dropProtocol { s with connAlive := false }) := by
  simp only [connOwners] at hnone
  have hcycle : s.conn.attached = true → s.conn.protocol = true → False := by
    intro hattached hprotocol
    have howned : 0 < protOwners s := by
      rw [protOwners, h.cycle hattached hprotocol, hprotocol]
      exact Nat.add_pos_left Nat.one_pos _
    simp [hattached, h.prot howned] at hnone
  unfold dropProtocol
  split
  · next hzero =>
    refine ⟨⟨fun hconn => ?_, fun hpos => ?_, fun ha hp => (hcycle ha hp).elim⟩, nofun, nofun⟩
    · simp only [connOwners, Bool.false_and, Bool.toNat_false] at hconn
      omega
    · exact absurd hzero (Nat.ne_of_gt hpos)
  · next hsome =>
    have hkeepers : 0 < s.keepers := by
      simp only [protOwners, Bool.false_and, Bool.toNat_false] at hsome
      omega
    have halive : s.protAlive = true := h.prot (Nat.add_pos_right _ hkeepers)
    refine ⟨⟨fun hconn => ?_, fun _ => halive, fun ha hp => (hcycle ha hp).elim⟩, nofun, ?_⟩
    · simp only [connOwners] at hconn
      omega
    · intro _
      exact Nat.add_pos_right _ hkeepers

variable (cfg) in
/-- `collect` ends with what is owned, or with the assertion of the destructor. -/
theorem collect_cases (s : State M) :
    (∃ t, collect cfg s = .ok () t ∧ Same s t ∧ (Held s → Owned t)) ∨
      ∃ t, collect cfg s = .error (.inr .unstopped) t ∧ Same s t ∧ (Held s → Held t) ∧
        t.connAlive = true ∧ connOwners t = 0 ∧ Connection.isStopped t.conn = false := by
  have hcollect : collect cfg s =
      (dropConnection cfg >>= fun _ => modify dropProtocol) (dropProtocol s) := rfl
  have hheld (h : Held s) := dropProtocol_held h
  have howned := dropProtocol_owned s
  have hsame := dropProtocol_same s
  generalize dropProtocol s = t at hcollect hheld howned hsame
  rw [hcollect]
  by_cases hnone : t.connAlive = true ∧ connOwners t = 0
  · by_cases hstopped : (cfg.ndebug || Connection.isStopped t.conn) = true
    · have hrun : dropConnection cfg t = .ok () { t with connAlive := false } :=
        (if_pos hnone).trans (if_pos hstopped)
      rw [bind_ok hrun]
      refine Or.inl ⟨_, rfl, hsame.trans (Same.trans ?_ (dropProtocol_same _)), fun h => ?_⟩
      · exact ⟨rfl, rfl, rfl, rfl, fun _ => rfl⟩
      · exact destroyed_owned (hheld h) hnone.2
    · have hrun : dropConnection cfg t = .error (.inr .unstopped) t :=
        (if_pos hnone).trans (if_neg hstopped)
      have hrunning : Connection.isStopped t.conn = false := by
        simp only [Bool.or_eq_true, not_or, Bool.not_eq_true] at hstopped
        exact hstopped.2
      exact Or.inr ⟨t, bind_error hrun _, hsame, hheld, hnone.1, hnone.2, hrunning⟩
  · have hrun : dropConnection cfg t = .ok () t := if_neg hnone
    have hkept : dropProtocol t = t := by
      unfold dropProtocol
      split
      · next hzero =>
        have hdead : t.protAlive = false := by
          by_contra hne
          exact absurd hzero (Nat.ne_of_gt (howned (by simpa using hne)))
        rw [← hdead]
      · rfl
    rw [bind_ok hrun, modify_run, hkept]
    refine Or.inl ⟨t, rfl, hsame, fun h => ⟨hheld h, fun halive => ?_, howned⟩⟩
    exact Nat.pos_of_ne_zero fun hzero => hnone ⟨halive, hzero⟩

end Owners

end Ownership
