import Otservpp.Teardown

/-! # The account login

`AccountLoginProtocol` with the bases it inherits from, over the connection that feeds it. RSA is
a function on blocks; the crypto service runs its job some time after `rsaDecrypt` asked for it,
and whatever happens on the connection may happen in between. -/
namespace Login

open ByteMemory Connection InMessage Lifecycle ProgramLogic EventSystem Teardown

/-- `PacketException` is caught apart from other exceptions. -/
inductive Fault where
  | packetException
  | exception
  | crash
  deriving DecidableEq, Repr

/-- `pending` is the block that the crypto service was asked to decrypt, `continued` the
connection's log at each run of the continuation. -/
structure Protocol (M : Type) where
  conn : State M
  xtea : Crypto.Xtea
  pending : Option ℤ
  continued : List (List Action)

/-- `RSA_private_decrypt` of a block, `none` for -1. -/
abbrev Rsa := List UInt8 → Option (List UInt8)

/-- `continuation` is what follows a decrypted login, `errorHookThrows` whether the script that
words an error fails. -/
structure LoginData (M : Type) where
  rsa : Rsa
  continuation : Script M
  errorHookThrows : Bool

abbrev LoginM (M : Type) := EStateM Fault (Protocol M)

section Lifting

variable {M α : Type}

def onMsg (x : InM α) : LoginM M α := fun s =>
  match x s.conn.inMsg with
  | .ok a m => .ok a { s with conn := { s.conn with inMsg := m } }
  | .error .packetException m => .error .packetException { s with conn := { s.conn with inMsg := m } }
  | .error .assertion m => .error .crash { s with conn := { s.conn with inMsg := m } }

def onConn (x : ConnM M α) : LoginM M α := fun s =>
  match x s.conn with
  | .ok a c => .ok a { s with conn := c }
  | .error .exception c => .error .exception { s with conn := c }
  | .error .crash c => .error .crash { s with conn := c }

end Lifting

section BasicProtocol

variable {M : Type} (cfg : Config M)

def dropConnection : LoginM M Unit := onConn do
  viaConnection (droppingLogInfo cfg)
  viaConnection (Connection.stop cfg)

def handlePacketException : LoginM M Unit := dropConnection cfg

/-- What the wrapper does with an exception of its handler. -/
def wrappedCatch : Fault → LoginM M Unit
  | .packetException => handlePacketException cfg
  | .exception => dropConnection cfg
  | .crash => throw .crash

/-- `WrappedHandler::operator()` -/
def wrapHandler (h : LoginM M Unit) : LoginM M Unit := do
  let s ← get
  if s.conn.attached then
    if isAlive s.conn then tryCatch h (wrappedCatch cfg)
    else onConn (viaConnection (Connection.stop cfg))
  else onConn do
    record .nullConnection
    throw .crash

end BasicProtocol

def rsaBlockSize : ℕ := 128

section BasicLoginProtocol

variable {M : Type} (cfg : Config M) (data : LoginData M)

/-- `StandardInMessage::rsaDecrypt` up to the job it hands to the crypto service. -/
def rsaDecrypt : LoginM M Unit := do
  let p ← onMsg (peekRawChunckAs rsaBlockSize)
  modify fun s => { s with pending := some p }

/-- The rest of `rsaDecrypt` once `Rsa::decrypt` returned `newSize`. -/
def rsaDecrypted (newSize : Option ℕ) (handler : Bool → LoginM M Unit) : LoginM M Unit :=
  match newSize with
  | some n => do
    onMsg (setRemainingSize cfg.ndebug standardMaxBodySize n)
    let b ← onMsg getByte
    handler (b == 0)
  | none => handler false

/-- `Rsa::decrypt` writes over the block it reads. -/
def decryptBlock (p : ℤ) : LoginM M (Option ℕ) := do
  let s ← get
  match data.rsa (slice s.conn.inMsg.buffer p rsaBlockSize) with
  | some bs =>
    modify fun s => { s with conn := { s.conn with inMsg :=
      { s.conn.inMsg with buffer := write s.conn.inMsg.buffer p bs } } }
    pure (some bs.length)
  | none => pure none

def setXtea (xtea : Crypto.Xtea) : LoginM M Unit := modify fun s => { s with xtea := xtea }

def runContinuation : LoginM M Unit := do
  modify fun s => { s with continued := s.continued ++ [s.conn.log] }
  onConn (data.continuation.run cfg)

/-- The handler that `decryptMessageAndSetXta` wraps. -/
def decrypted (success : Bool) : LoginM M Unit :=
  if success then do
    let xtea ← onMsg getXtea
    setXtea xtea
    runContinuation cfg data
  else dropConnection cfg

def decryptMessageAndSetXta : LoginM M Unit := rsaDecrypt

/-- The job of the crypto service. -/
def completion (p : ℤ) : LoginM M Unit := do
  let newSize ← decryptBlock data p
  rsaDecrypted cfg newSize fun success => wrapHandler cfg (decrypted cfg data success)

def validateIpAndVersion : LoginM M Bool := do
  onMsg (skipBytes 3)
  let _version ← onMsg getU16
  pure true

end BasicLoginProtocol

section AccountLoginProtocol

variable {M : Type} (cfg : Config M) (data : LoginData M)

/-- The hook's answer is not sent. -/
def closeWithError : LoginM M Unit :=
  onConn <| catchException
    (do
      viaConnection (remoteEndpoint cfg)
      if data.errorHookThrows then throw .exception)
    (do
      viaConnection (droppingLogInfo cfg)
      viaConnection (Connection.stop cfg))

def onFirstMessage : LoginM M Unit := do
  onConn (viaConnection (Connection.stopReceiving cfg))
  let valid ← validateIpAndVersion
  if valid then
    onMsg (skipBytes 12)
    decryptMessageAndSetXta
  else closeWithError cfg data

/-- What `handleFirstMessage` does with an exception. -/
def firstMessageCatch : Fault → LoginM M Unit
  | .packetException => handlePacketException cfg
  | .exception => throw .exception
  | .crash => throw .crash

def handleFirstMessage : LoginM M Unit :=
  tryCatch
    (do
      onMsg (doChecksum cfg.ndebug)
      onFirstMessage cfg data)
    (firstMessageCatch cfg)

end AccountLoginProtocol

section System

variable {M : Type} (cfg : Config M) (data : LoginData M)

/-- `decrypted` is the crypto service running the job it was given. -/
inductive Event (M : Type) where
  | connection (event : Connection.Event M)
  | decrypted

def Enabled (s : Protocol M) : Event M → Prop
  | .connection event => Connection.Enabled s.conn event
  | .decrypted => s.pending.isSome

def next (s : Protocol M) : Event M → Protocol M
  | .connection event => { s with conn := Connection.next cfg s.conn event }
  | .decrypted =>
    match s.pending with
    | some p => after (completion cfg data p) { s with pending := none }
    | none => s

def system : System (Protocol M) (Event M) := ⟨Enabled, next cfg data⟩

/-- What follows once the connection handed the first message over. -/
def LoginRun (s : Protocol M) (es : List (Event M)) (t : Protocol M) : Prop :=
  Run (system cfg data) (after (handleFirstMessage cfg data) s) es t

/-- The four words after the first byte of a block. -/
def blockXtea (block : List UInt8) : Crypto.Xtea :=
  ⟨fun i => UInt32.ofNat (decodeLE ((block.drop (1 + 4 * i)).take 4))⟩

/-- Where the block is once the checksum, the version and the files checksum are behind. -/
def blockOffset (m : Message) : ℕ := m.pos + 4 + (3 + 2 + 12)

/-- The connection as `start` left it: the first frame arrived, nobody closed anything and no
call on the socket fails. -/
structure ValidLogin (s : Protocol M) (block : List UInt8) : Prop where
  received : ∃ uninitialised header body,
    FrameReads.receive cfg.ndebug uninitialised header body = some s.conn.inMsg
  checksum : ∃ m, doChecksum cfg.ndebug s.conn.inMsg = .ok () m
  long : blockOffset s.conn.inMsg + rsaBlockSize ≤ s.conn.inMsg.size
  rsa : ∀ bs cs, bs.length = rsaBlockSize → data.rsa bs = some cs → cs.length = rsaBlockSize
  decrypts : data.rsa (slice s.conn.inMsg.buffer (blockOffset s.conn.inMsg) rsaBlockSize) =
    some block
  zero : block.head? = some 0
  alive : s.conn.attached = true ∧ s.conn.protocol = true ∧ s.conn.readClosed = false ∧
    s.conn.writeClosed = false ∧ s.conn.crashed = false ∧ s.conn.peer = ⟨true, true⟩
  notStopped : .stopBegan ∉ s.conn.log
  answers : ∀ n, cfg.sys n = true
  fresh : s.pending = none ∧ s.continued = []

/-- The key is the one the client sent, and the continuation ran once, on a connection that was
not told to stop. -/
def Processed (block : List UInt8) (t : Protocol M) : Prop :=
  t.xtea = blockXtea block ∧ ∃ log, t.continued = [log] ∧ .stopBegan ∉ log

end System

section Frame

variable {M : Type} {s t u : Protocol M}

/-- What everything keeps that does not run the continuation or ask for a decryption. -/
structure Stays (s t : Protocol M) : Prop where
  continued : t.continued = s.continued
  pending : t.pending = s.pending
  readClosed : s.conn.readClosed = true → t.conn.readClosed = true

/-- What everything keeps that neither reads on, nor hands a message over, nor sends, nor gives
the crypto service a job. -/
structure Calm (s t : Protocol M) : Prop where
  conn : Quiet true s.conn t.conn
  pending : t.pending = s.pending
  xtea : t.xtea = s.xtea
  continued : t.continued = s.continued

instance : IsPreorder (Protocol M) Calm where
  refl s := ⟨refl s.conn, rfl, rfl, rfl⟩
  trans _ _ _ h k := ⟨h.conn.trans k.conn, k.pending.trans h.pending, k.xtea.trans h.xtea,
    k.continued.trans h.continued⟩

theorem Calm.stays (h : Calm s t) : Stays s t := ⟨h.continued, h.pending, h.conn.1.readClosed⟩

theorem onMsg_calm {α : Type} (x : InM α) : Evolves Calm (onMsg x : LoginM M α) := by
  intro s
  have hmsg (m : Message) : Calm s { s with conn := { s.conn with inMsg := m } } :=
    ⟨Quiet.of_eq rfl rfl, rfl, rfl, rfl⟩
  unfold after onMsg
  cases x s.conn.inMsg with
  | ok a m => exact hmsg m
  | error e m => cases e <;> exact hmsg m

/-- What happens to the connection is what the operation does to it on its own. -/
theorem onConn_after {α : Type} (x : ConnM M α) (s : Protocol M) :
    after (onConn x) s = { s with conn := after x s.conn } := by
  unfold after onConn
  cases x s.conn with
  | ok a c => rfl
  | error e c => cases e <;> rfl

theorem onConn_triple {α : Type} {x : ConnM M α} {P E : Protocol M → Prop}
    {Q : α → Protocol M → Prop}
    (h : ∀ s : Protocol M, Triple (fun c => P { s with conn := c }) x
      (fun a c => Q a { s with conn := c }) (fun c => E { s with conn := c })) :
    Triple P (onConn x) Q E := by
  intro s hs
  have hx := h s s.conn hs
  unfold onConn
  cases hrun : x s.conn with
  | ok a c =>
    rw [hrun] at hx
    exact hx
  | error e c =>
    rw [hrun] at hx
    cases e <;> exact hx

theorem onConn_calm {α : Type} {x : ConnM M α} (h : Evolves (Quiet true) x) :
    Evolves Calm (onConn x : LoginM M α) := by
  intro s
  rw [onConn_after]
  exact ⟨h s.conn, rfl, rfl, rfl⟩

theorem silent_quiet {α : Type} {x : ConnM M α} (h : Evolves Silent x) :
    Evolves (Quiet true) x := h.mono fun _ _ => Silent.quiet

theorem via_quiet {x : ConnM M Unit} (h : Evolves (Quiet true) x) :
    Evolves (Quiet true) (viaConnection x) :=
  viaConnection_evolves (fun _ _ h => ⟨h.1.weaken, h.2⟩) h

variable (cfg : Config M)

theorem drop_quiet : Evolves (Quiet true)
    (do viaConnection (droppingLogInfo cfg); viaConnection (Connection.stop cfg)) := by
  refine Evolves.bind (via_quiet ?_) fun _ => via_quiet (stop_quiet cfg)
  exact silent_quiet (droppingLogInfo_silent cfg)

theorem validateIpAndVersion_calm : Evolves Calm (validateIpAndVersion : LoginM M Bool) :=
  (onMsg_calm _).bind fun _ => (onMsg_calm _).bind fun _ => evolves_pure _

theorem closeWithError_calm (data : LoginData M) : Evolves Calm (closeWithError cfg data) := by
  refine onConn_calm (catchException_evolves ?_ (drop_quiet cfg))
  refine (via_quiet (silent_quiet (connectedCall_silent cfg))).bind fun _ => ?_
  exact Evolves.ite (fun _ => evolves_throw _) fun _ => evolves_pure _

theorem decryptBlock_calm (data : LoginData M) (p : ℤ) : Evolves Calm (decryptBlock data p) := by
  refine Evolves.bind evolves_get fun s => ?_
  cases data.rsa (slice s.conn.inMsg.buffer p rsaBlockSize) with
  | none => exact evolves_pure _
  | some bs =>
    refine Evolves.bind (evolves_modify fun _ => ?_) fun _ => evolves_pure _
    exact ⟨Quiet.of_eq rfl rfl, rfl, rfl, rfl⟩

end Frame

section NeverProcessed

variable {M : Type} (cfg : Config M) (data : LoginData M) {s t : Protocol M}

/-- A login that waits for its decryption has already closed the receiving side. -/
structure HalfClosed (s : Protocol M) : Prop where
  continued : s.continued = []
  readClosed : s.pending.isSome → s.conn.readClosed = true

theorem HalfClosed.stays (h : HalfClosed s) (k : Stays s t) : HalfClosed t := by
  refine ⟨k.continued.trans h.continued, fun hp => k.readClosed (h.readClosed ?_)⟩
  rwa [← k.pending]

/-- The connection is closed for receiving, and nothing was continued. -/
def Closing (s : Protocol M) : Prop := s.continued = [] ∧ s.conn.readClosed = true

theorem Closing.stays (h : Closing s) (k : Stays s t) : Closing t :=
  ⟨k.continued.trans h.1, k.readClosed h.2⟩

theorem Closing.halfClosed (h : Closing s) : HalfClosed s := ⟨h.1, fun _ => h.2⟩

theorem stopReceiving_closes : Triple (fun _ => True) (viaConnection (Connection.stopReceiving cfg))
    (fun _ c => c.readClosed = true) (fun _ => True) := by
  refine Triple.bind triple_get fun c => Triple.ite (fun _ => ?_) fun _ _ _ => trivial
  refine Triple.bind (Q := fun _ c => c.readClosed = true) (triple_modify ?_) fun _ => ?_
  · intro _ _
    rfl
  have hkept : Triple (fun c : State M => c.readClosed = true) (shutdown cfg)
      (fun _ c => c.readClosed = true) (fun c => c.readClosed = true) := by
    refine (connectedCall_silent cfg).triple fun c d h hc => ?_
    have hframe : LoopFrame false c d := LoopFrame.of_eq h.1
    exact hframe.readClosed hc
  exact hkept.conseq (fun _ => id) (fun _ _ => id) fun _ _ => trivial

theorem closing_triple {α : Type} {x : LoginM M α} (h : Evolves Calm x) :
    Triple Closing x (fun _ => Closing) HalfClosed :=
  Triple.conseq (h.triple fun _ _ k hs => hs.stays k.stays) (fun _ => id) (fun _ _ => id)
    fun _ => Closing.halfClosed

theorem halfClosed_triple {α : Type} {x : LoginM M α} (h : Evolves Calm x) :
    Triple HalfClosed x (fun _ => HalfClosed) HalfClosed :=
  h.triple fun _ _ k hs => hs.stays k.stays

theorem stopReceiving_closing :
    Triple HalfClosed (onConn (viaConnection (Connection.stopReceiving cfg)))
      (fun _ => Closing) HalfClosed := by
  have hkept : Triple HalfClosed (onConn (viaConnection (Connection.stopReceiving cfg)))
      (fun _ => HalfClosed) HalfClosed :=
    halfClosed_triple (onConn_calm (via_quiet (stopReceiving_quiet cfg)))
  have hcloses : Triple (fun _ => True) (onConn (viaConnection (Connection.stopReceiving cfg)))
      (fun _ s => s.conn.readClosed = true) (fun _ => True) :=
    onConn_triple fun _ => stopReceiving_closes cfg
  exact (hkept.and hcloses).conseq (fun _ hs => ⟨hs, trivial⟩) (fun _ _ h => ⟨h.1.continued, h.2⟩)
    fun _ => And.left

theorem onFirstMessage_triple :
    Triple HalfClosed (onFirstMessage cfg data) (fun _ => HalfClosed) HalfClosed := by
  refine Triple.bind (stopReceiving_closing cfg) fun _ => ?_
  refine Triple.bind (closing_triple validateIpAndVersion_calm) fun valid => ?_
  refine Triple.ite (fun _ => ?_) fun _ => ?_
  · refine Triple.bind (closing_triple (onMsg_calm _)) fun _ => ?_
    refine Triple.bind (closing_triple (onMsg_calm _)) fun p => ?_
    exact triple_modify fun s hs => ⟨hs.1, fun _ => hs.2⟩
  · exact Triple.conseq (closing_triple (closeWithError_calm cfg data)) (fun _ => id)
      (fun _ _ => Closing.halfClosed) fun _ => id

theorem handleFirstMessage_triple :
    Triple HalfClosed (handleFirstMessage cfg data) (fun _ => HalfClosed) HalfClosed := by
  refine Triple.tryCatch (E := HalfClosed) ?_ fun e => ?_
  · exact Triple.bind (halfClosed_triple (onMsg_calm _)) fun _ => onFirstMessage_triple cfg data
  · cases e with
    | packetException => exact halfClosed_triple (onConn_calm (drop_quiet cfg))
    | exception => exact triple_throw _
    | crash => exact triple_throw _

/-- On a half closed connection the wrapper stops the connection in place of its handler. -/
theorem wrapHandler_closing (h : LoginM M Unit) :
    Triple Closing (wrapHandler cfg h) (fun _ => Closing) HalfClosed := by
  refine Triple.bind triple_get fun s => Triple.ite (fun _ => Triple.ite (fun halive => ?_) fun _ => ?_)
    fun _ => ?_
  · rintro u ⟨hclosing, rfl⟩
    simp [isAlive, isStopped, hclosing.2] at halive
  · exact Triple.conseq (closing_triple (onConn_calm (via_quiet (stop_quiet cfg)))) (fun _ => And.left)
      (fun _ _ => id) fun _ => id
  · rintro u ⟨hclosing, -⟩
    have hcrashed : HalfClosed
        { u with conn := { u.conn with log := u.conn.log ++ [.nullConnection] } } :=
      ⟨hclosing.1, fun _ => hclosing.2⟩
    exact hcrashed

theorem completion_triple (p : ℤ) :
    Triple Closing (completion cfg data p) (fun _ => Closing) HalfClosed := by
  refine Triple.bind (closing_triple (decryptBlock_calm data p)) fun newSize => ?_
  cases newSize with
  | none => exact wrapHandler_closing cfg _
  | some n =>
    refine Triple.bind (closing_triple (onMsg_calm _)) fun _ => ?_
    exact Triple.bind (closing_triple (onMsg_calm _)) fun b => wrapHandler_closing cfg _

/-- No event of the connection opens its receiving side again. -/
theorem connection_readClosed {c : State M} {event : Connection.Event M}
    (he : Connection.Enabled c event) (hc : c.readClosed = true) :
    (Connection.next cfg c event).readClosed = true := by
  by_cases hstart : event = .start
  · subst hstart
    exact (closeFrame_finish (start_close cfg c)).readClosed hc
  · exact (next_close cfg he hstart).readClosed hc

theorem next_halfClosed (h : HalfClosed s) {e : Event M} (he : Enabled s e) :
    HalfClosed (next cfg data s e) := by
  cases e with
  | connection event =>
    exact ⟨h.continued, fun hp => connection_readClosed cfg he (h.readClosed hp)⟩
  | decrypted =>
    obtain ⟨p, hp⟩ := Option.isSome_iff_exists.mp he
    have hclosing : Closing { s with pending := none } := ⟨h.continued, h.readClosed he⟩
    have hafter := triple_iff_after.mp (Triple.conseq (completion_triple cfg data p) (fun _ => id)
      (fun _ _ => Closing.halfClosed) fun _ => id) _ hclosing
    simpa only [next, hp] using hafter

theorem login_halfClosed {es : List (Event M)} (hs : HalfClosed s)
    (hrun : LoginRun cfg data s es t) : HalfClosed t :=
  hrun.invariant (fun _ _ h he => next_halfClosed cfg data h he)
    (triple_iff_after.mp (handleFirstMessage_triple cfg data) s hs)

/-- The shortest run after which the completion has been executed. -/
theorem completed_run (h : (after (handleFirstMessage cfg data) s).pending.isSome) :
    LoginRun cfg data s [.decrypted] (next cfg data (after (handleFirstMessage cfg data) s) .decrypted) :=
  Run.tail .refl h

/-- For every valid login and whatever happens on the connection: the continuation is never
executed. -/
theorem valid_login_never_processed {block : List UInt8} (h : ValidLogin cfg data s block)
    {es : List (Event M)} (hrun : LoginRun cfg data s es t) : ¬ Processed block t := by
  rintro ⟨-, log, hcontinued, -⟩
  have hfresh : HalfClosed s := ⟨h.fresh.2, by simp [h.fresh.1]⟩
  have hend := login_halfClosed cfg data hfresh hrun
  simp [hend.continued] at hcontinued

end NeverProcessed

section Witness

/-- A checksummed frame of zeros. A block of zeros decrypts to itself under every RSA key. -/
def zeroBody : List UInt8 := [1, 0, 0x91, 0] ++ List.replicate 145 0

def zeroMessage : Message :=
  ⟨write (write (fun _ => 0) 0 (encodeLE 2 zeroBody.length)) 2 zeroBody, 2, 2 + zeroBody.length⟩

def zeroBlock : List UInt8 := List.replicate rsaBlockSize 0

def loginConfig : Config OutMessage.Message := standardConfig (fun _ => true) true false

def loginData : LoginData OutMessage.Message := ⟨some, ⟨[], false⟩, false⟩

def loginState : Protocol OutMessage.Message where
  conn := { initial (fun _ => 0) with inMsg := zeroMessage, protocol := true, started := true }
  xtea := ⟨fun _ => 1⟩
  pending := none
  continued := []

theorem zeroMessage_valid : ValidLogin loginConfig loginData loginState zeroBlock where
  received := ⟨fun _ => 0, _, _, FrameReads.receive_eq true (fun _ => 0) zeroBody
    (by decide +kernel) (by decide +kernel) (Or.inl rfl)⟩
  checksum := by
    have hrun := doChecksum_run (m := zeroMessage) (by decide +kernel) (by decide +kernel)
    rw [if_neg (by decide +kernel), if_neg (by decide +kernel)] at hrun
    exact ⟨_, hrun⟩
  long := by decide +kernel
  rsa bs cs hlength h := by
    cases h
    exact hlength
  decrypts := congrArg some (show slice zeroMessage.buffer 23 128 = zeroBlock by decide +kernel)
  zero := by decide +kernel
  alive := ⟨rfl, rfl, rfl, rfl, rfl, rfl⟩
  notStopped := by decide
  answers _ := rfl
  fresh := ⟨rfl, rfl⟩

def loginEnd : Protocol OutMessage.Message :=
  next loginConfig loginData (after (handleFirstMessage loginConfig loginData) loginState) .decrypted

theorem zeroMessage_run : LoginRun loginConfig loginData loginState [.decrypted] loginEnd := by
  refine completed_run loginConfig loginData ?_
  decide +kernel

theorem valid_login_never_processed_zero : ¬ Processed zeroBlock loginEnd :=
  valid_login_never_processed loginConfig loginData zeroMessage_valid zeroMessage_run

/-- The decryption succeeded and its completion ran, but it only stopped the connection. -/
theorem zero_login_stopped : ValidLogin loginConfig loginData loginState zeroBlock ∧
    LoginRun loginConfig loginData loginState [.decrypted] loginEnd ∧
    .stopBegan ∈ loginEnd.conn.log ∧ ¬ Processed zeroBlock loginEnd := by
  refine ⟨zeroMessage_valid, zeroMessage_run, by decide +kernel, ?_⟩
  rintro ⟨-, log, hcontinued, -⟩
  have hnone : loginEnd.continued = [] := by decide +kernel
  rw [hnone] at hcontinued
  cases hcontinued

end Witness

end Login
