import Otservpp.Login

/-! # The account server

The account login on its connection, from the start of the connection on. The callbacks of the
connection are those of `AccountLoginProtocol`, and nobody but the protocol uses the connection. -/
namespace AccountLogin

open InMessage Lifecycle ProgramLogic EventSystem Login

section Handlers

variable {M : Type} (cfg : Connection.Config M) (data : LoginData M)

/-- The placeholder for protocols of one message, which asserts `false`. -/
def onMessage : LoginM M Unit := onMsg (InMessage.assert cfg.ndebug false)

def handleMessage : LoginM M Unit :=
  tryCatch
    (do
      onMsg (doChecksum cfg.ndebug)
      let s ← get
      onMsg (xteaDecrypt cfg.ndebug s.xtea)
      onMessage cfg)
    (firstMessageCatch cfg)

def handle : Connection.HandlerKind → LoginM M Unit
  | .first => handleFirstMessage cfg data
  | .subsequent => handleMessage cfg

/-- What a callback finds is noted in the state of the connection. -/
def called (kind : Connection.HandlerKind) : Connection.ConnM M Unit :=
  modify fun c => { c with
    calls := c.calls ++ [⟨c.consumed, c.inMsg⟩]
    log := c.log ++ [.callback kind] }

def sendInMsg (kind : Connection.HandlerKind) : LoginM M Unit := do
  let s ← get
  if s.conn.protocol then
    onConn (called kind)
    handle cfg data kind
  else onConn do
    Connection.record .nullCallback
    throw .crash

/-- A `PacketException` is a `std::exception`. -/
def bodyRead (kind : Connection.HandlerKind) : LoginM M Unit := do
  onConn Connection.cancelReadTimer
  onConn (Connection.dvlogInfo cfg)
  let threw ← tryCatch (do sendInMsg cfg data kind; pure false) fun
    | .crash => throw .crash
    | _ => pure true
  if threw then onConn do
    Connection.droppingLogInfo cfg
    Connection.abort cfg
  else
    let s ← get
    if Connection.isReceiving s.conn then onConn (Connection.parseIncomingMessage .subsequent)

def readHandler (op : Connection.ReadOp) (e : Connection.ErrorCode) : LoginM M Unit :=
  if e = .success then do
    let s ← get
    if Connection.isReceiving s.conn then
      onConn (Connection.dvlogInfo cfg)
      match op.phase with
      | .header => onConn (Connection.headerRead cfg op.handler)
      | .body => bodyRead cfg data op.handler
  else onConn do
    if e ≠ .operationAborted then Connection.vlogInfo cfg
    Connection.abortWith cfg e

end Handlers

section System

variable {M : Type} (cfg : Connection.Config M) (data : LoginData M)

/-- The protocol is constructed with a key that nobody set. -/
def initial (uninitialised : ByteMemory.Memory) (key : Crypto.Xtea) : Protocol M where
  conn := Connection.initial uninitialised
  xtea := key
  pending := none
  continued := []

/-- Calls on the connection. -/
def isCall : Connection.Event M → Bool
  | .send _ | .sendAndStop _ | .stop | .stopReceiving | .stopSending | .wrapped _ => true
  | _ => false

def Enabled (s : Protocol M) : Login.Event M → Prop
  | .connection event => isCall event = false ∧ Connection.Enabled s.conn event
  | .decrypted => s.conn.crashed = false ∧ s.pending.isSome

def finish (x : LoginM M Unit) (s : Protocol M) : Protocol M :=
  match x s with
  | .ok _ t => t
  | .error .crash t => { t with conn := { t.conn with crashed := true } }
  | .error _ t => t

def deliverRead (i : ℕ) (s : Protocol M) : Protocol M :=
  match s.conn.reads[i]? with
  | some ⟨id, handler, phase, buffer, some e⟩ =>
    finish (readHandler cfg data ⟨id, handler, phase, buffer, some e⟩ e)
      { s with conn := { s.conn with reads := s.conn.reads.eraseIdx i } }
  | _ => s

def next (s : Protocol M) : Login.Event M → Protocol M
  | .connection (.deliverRead i _) => deliverRead cfg data i s
  | .connection event => { s with conn := Connection.next cfg s.conn event }
  | .decrypted =>
    match s.pending with
    | some p => finish (completion cfg data p) { s with pending := none }
    | none => s

def system : System (Protocol M) (Login.Event M) := ⟨Enabled, next cfg data⟩

/-- Nothing was sent or is to be sent, the key is still `key`, and no login was continued. -/
structure Unanswered (key : Crypto.Xtea) (s : Protocol M) : Prop where
  unsent : ∀ a ∈ s.conn.log, isSend a = false
  outMsgQueue : s.conn.outMsgQueue = []
  writes : s.conn.writes = []
  xtea : s.xtea = key
  continued : s.continued = []

end System

section Invariant

variable {M : Type} {key : Crypto.Xtea} {s t : Protocol M}

/-- How far the receive loop got: whether it was started, its reads and its callbacks. -/
def progress (c : Connection.State M) :
    Bool × List (Connection.HandlerKind × Connection.Phase) × List Connection.Action :=
  (c.started, c.reads.map readKey, c.log.filter isCallback)

inductive Stage :
    Bool × List (Connection.HandlerKind × Connection.Phase) × List Connection.Action → Prop where
  | fresh : Stage (false, [], [])
  | reading (phase : Connection.Phase) : Stage (true, [(.first, phase)], [])
  | idle : Stage (true, [], [])
  | handled : Stage (true, [], [.callback .first])

/-- A login that waits for its decryption has closed the receiving side. -/
structure Invariant (key : Crypto.Xtea) (s : Protocol M) : Prop extends Unanswered key s where
  stage : Stage (progress s.conn)
  protocol : s.conn.started = true → s.conn.protocol = true ∨ s.conn.readClosed = true
  closing : s.pending.isSome → s.conn.readClosed = true

/-- The receiving side is closed. -/
def Closed (key : Crypto.Xtea) (s : Protocol M) : Prop :=
  Invariant key s ∧ s.conn.readClosed = true

/-- Nothing is being read and nothing was handed over. -/
def Idle (key : Crypto.Xtea) (s : Protocol M) : Prop :=
  Invariant key s ∧ progress s.conn = (true, [], [])

/-- A message may be handed over. -/
def Ready (key : Crypto.Xtea) (s : Protocol M) : Prop := Idle key s ∧ s.conn.readClosed = false

theorem progress_calm (k : Calm s t) : progress t.conn = progress s.conn := by
  obtain ⟨ext, hext⟩ := k.conn.1.appended
  have hnone : ext.filter isCallback = [] := by
    apply List.filter_eq_nil_iff.mpr
    intro a ha hcallback
    rw [hext.noCallback a ha] at hcallback
    cases hcallback
  unfold progress
  rw [k.conn.1.started, k.conn.1.reads, hext.log, List.filter_append, hnone, List.append_nil]

theorem Unanswered.calm (h : Unanswered key s) (k : Calm s t) : Unanswered key t := by
  obtain ⟨ext, hlog, hquiet⟩ := k.conn.2.noSend
  have hwrites : t.conn.writes.map writeKey = [] := by
    rw [k.conn.2.writes, h.writes]
    rfl
  refine ⟨?_, k.conn.2.outMsgQueue.trans h.outMsgQueue, List.map_eq_nil_iff.mp hwrites,
    k.xtea.trans h.xtea, k.continued.trans h.continued⟩
  intro a ha
  rw [hlog] at ha
  rcases List.mem_append.mp ha with hold | hnew
  · exact h.unsent a hold
  · exact hquiet a hnew

theorem Invariant.calm (h : Invariant key s) (k : Calm s t) : Invariant key t := by
  refine ⟨h.toUnanswered.calm k, ?_, ?_, ?_⟩
  · rw [progress_calm k]
    exact h.stage
  · intro hstarted
    rw [k.conn.1.started] at hstarted
    rcases k.conn.1.protocol with hsame | ⟨-, hclosed, -⟩
    · rcases h.protocol hstarted with hattached | hclosed
      · exact Or.inl (hsame.trans hattached)
      · exact Or.inr (k.conn.1.readClosed hclosed)
    · exact Or.inr hclosed
  · intro hpending
    rw [k.pending] at hpending
    exact k.conn.1.readClosed (h.closing hpending)

theorem Closed.calm (h : Closed key s) (k : Calm s t) : Closed key t :=
  ⟨h.1.calm k, k.conn.1.readClosed h.2⟩

theorem Idle.calm (h : Idle key s) (k : Calm s t) : Idle key t :=
  ⟨h.1.calm k, (progress_calm k).trans h.2⟩

/-- A read of the first message begins. -/
theorem Idle.read (h : Idle key s) {op : Connection.ReadOp} (hop : op.handler = .first) (n : ℕ) :
    Invariant key { s with conn := { s.conn with
      reads := s.conn.reads ++ [op]
      nextRead := n } } := by
  have hprogress := h.2
  simp only [progress, Prod.mk.injEq] at hprogress
  obtain ⟨hstarted, hreads, hcallbacks⟩ := hprogress
  refine ⟨⟨h.1.unsent, h.1.outMsgQueue, h.1.writes, h.1.xtea, h.1.continued⟩, ?_, h.1.protocol,
    h.1.closing⟩
  have hread : progress { s.conn with reads := s.conn.reads ++ [op], nextRead := n } =
      (true, [(.first, op.phase)], []) := by
    simp only [progress, List.map_append, hstarted, hreads, hcallbacks, List.map_cons, List.map_nil,
      List.nil_append, readKey, hop]
  rw [hread]
  exact Stage.reading op.phase

/-- The first message is handed over. -/
theorem Ready.called (h : Ready key s) : Invariant key { s with conn := { s.conn with
    calls := s.conn.calls ++ [⟨s.conn.consumed, s.conn.inMsg⟩]
    log := s.conn.log ++ [.callback .first] } } := by
  have hprogress := h.1.2
  simp only [progress, Prod.mk.injEq] at hprogress
  obtain ⟨hstarted, hreads, hcallbacks⟩ := hprogress
  have hinv := h.1.1
  refine ⟨⟨?_, hinv.outMsgQueue, hinv.writes, hinv.xtea, hinv.continued⟩, ?_, hinv.protocol,
    hinv.closing⟩
  · intro a ha
    rcases List.mem_append.mp ha with hold | hnew
    · exact hinv.unsent a hold
    · rw [List.mem_singleton.mp hnew]
      rfl
  · simp only [progress, List.filter_append, hstarted, hreads, hcallbacks]
    exact Stage.handled

end Invariant

section Triples

variable {M : Type} {key : Crypto.Xtea}

theorem calm_triple {α : Type} {x : LoginM M α} (h : Evolves Calm x) :
    Triple (Invariant key) x (fun _ => Invariant key) (Invariant key) :=
  h.triple fun _ _ k hs => hs.calm k

theorem closed_triple {α : Type} {x : LoginM M α} (h : Evolves Calm x) :
    Triple (Closed key) x (fun _ => Closed key) (Invariant key) :=
  Triple.conseq (h.triple fun _ _ k hs => hs.calm k) (fun _ => id) (fun _ _ => id) fun _ => And.left

theorem ready_triple {α : Type} {x : Connection.ConnM M α} (h : Evolves Silent x) :
    Triple (Ready key) (onConn x : LoginM M α) (fun _ => Ready key) (Invariant key) := by
  refine Triple.conseq (E := Ready key) (onConn_triple fun s => ?_) (fun _ => id) (fun _ _ => id)
    fun _ h => h.1.1
  refine h.triple ?_
  intro c d k hready
  have hopen : d.readClosed = c.readClosed := congrArg (fun v => v.2.2.1) k.1
  exact ⟨hready.1.calm ⟨k.quiet, rfl, rfl, rfl⟩, hopen.trans hready.2⟩

/-- What leaves the receiving side closed whenever it returns. -/
theorem closing_triple {x : Connection.ConnM M Unit} (h : Evolves (Quiet true) x)
    (hcloses : Triple (fun _ => True) x (fun _ c => c.readClosed = true) (fun _ => True)) :
    Triple (Invariant key) (onConn x : LoginM M Unit) (fun _ => Closed key) (Invariant key) := by
  have hclosed : Triple (fun _ => True) (onConn x : LoginM M Unit)
      (fun _ s => s.conn.readClosed = true) (fun _ => True) := onConn_triple fun _ => hcloses
  exact Triple.conseq ((calm_triple (onConn_calm h)).and hclosed) (fun _ hs => ⟨hs, trivial⟩)
    (fun _ _ => id) fun _ => And.left

variable (cfg : Connection.Config M) (data : LoginData M)

theorem drop_closes : Triple (fun _ => True) (do
    Connection.viaConnection (Connection.droppingLogInfo cfg)
    Connection.viaConnection (Connection.stop cfg))
    (fun _ c => c.readClosed = true) (fun _ => True) := by
  refine Triple.bind (Q := fun _ _ => True) ?_ fun _ => ?_
  · intro c _
    cases Connection.viaConnection (Connection.droppingLogInfo cfg) c <;> trivial
  · refine Triple.bind triple_get fun c => Triple.ite (fun _ => ?_) fun _ _ _ => trivial
    have hstop : Triple (fun _ => True) (Connection.stop cfg) (fun _ c => c.readClosed = true)
        (fun c => c.readClosed = true) :=
      triple_iff_after.mpr fun d _ => (stop_flags cfg d).1
    exact hstop.conseq (fun _ _ => trivial) (fun _ _ => id) fun _ _ => trivial

theorem stopReceiving_triple : Triple (Invariant key)
    (onConn (Connection.viaConnection (Connection.stopReceiving cfg)) : LoginM M Unit)
    (fun _ => Closed key) (Invariant key) :=
  closing_triple (via_quiet (stopReceiving_quiet cfg)) (stopReceiving_closes cfg)

theorem firstMessageCatch_triple (e : Login.Fault) : Triple (Invariant key)
    (firstMessageCatch cfg e) (fun _ => Closed key) (Invariant key) := by
  cases e with
  | packetException => exact closing_triple (drop_quiet cfg) (drop_closes cfg)
  | exception => exact triple_throw _
  | crash => exact triple_throw _

theorem rsaDecrypt_triple : Triple (Closed key) (rsaDecrypt : LoginM M Unit)
    (fun _ => Closed key) (Invariant key) := by
  refine Triple.bind (closed_triple (onMsg_calm _)) fun p => triple_modify fun s hs => ?_
  exact ⟨⟨⟨hs.1.unsent, hs.1.outMsgQueue, hs.1.writes, hs.1.xtea, hs.1.continued⟩, hs.1.stage,
    hs.1.protocol, fun _ => hs.2⟩, hs.2⟩

theorem onFirstMessage_triple : Triple (Invariant key) (onFirstMessage cfg data)
    (fun _ => Closed key) (Invariant key) := by
  refine Triple.bind (stopReceiving_triple cfg) fun _ => ?_
  refine Triple.bind (closed_triple validateIpAndVersion_calm) fun valid => ?_
  refine Triple.ite (fun _ => ?_) fun _ => ?_
  · exact Triple.bind (closed_triple (onMsg_calm _)) fun _ => rsaDecrypt_triple
  · exact closed_triple (closeWithError_calm cfg data)

/-- Once the first message is handled, the receiving side is closed or the handler threw. -/
theorem firstMessage_triple : Triple (Invariant key) (handle cfg data .first)
    (fun _ => Closed key) (Invariant key) := by
  refine Triple.tryCatch (E := Invariant key) ?_ fun e => firstMessageCatch_triple cfg e
  exact Triple.bind (calm_triple (onMsg_calm _)) fun _ => onFirstMessage_triple cfg data

theorem sendInMsg_triple : Triple (Ready key) (sendInMsg cfg data .first) (fun _ => Closed key)
    (Invariant key) := by
  refine Triple.bind triple_get fun s => Triple.ite (fun _ => ?_) fun hnull => ?_
  · refine Triple.bind (Q := fun _ => Invariant key) (onConn_triple fun s => ?_) fun _ =>
      firstMessage_triple cfg data
    exact triple_modify fun c hc => hc.1.called
  · rintro u ⟨hready, rfl⟩
    have hstarted : s.conn.started = true := congrArg Prod.fst hready.1.2
    rcases hready.1.1.protocol hstarted with hattached | hclosed
    · exact absurd hattached hnull
    · rw [hready.2] at hclosed
      cases hclosed

theorem bodyRead_triple : Triple (Ready key) (bodyRead cfg data .first)
    (fun _ => Invariant key) (Invariant key) := by
  refine Triple.bind (ready_triple cancelReadTimer_silent) fun _ => ?_
  refine Triple.bind (ready_triple (dvlogInfo_silent cfg)) fun _ => ?_
  refine Triple.bind
    (Q := fun threw s => Invariant key s ∧ (threw = false → s.conn.readClosed = true)) ?_
    fun threw => Triple.ite (fun _ => ?_) fun hreturned => ?_
  · refine Triple.tryCatch (E := Invariant key) ?_ fun e => ?_
    · refine Triple.bind (sendInMsg_triple cfg data) fun _ s hs => ?_
      exact ⟨hs.1, fun _ => hs.2⟩
    · have hthrew (s : Protocol M) (hs : Invariant key s) :
          Invariant key s ∧ (true = false → s.conn.readClosed = true) :=
        ⟨hs, fun h => by cases h⟩
      cases e with
      | packetException => exact hthrew
      | exception => exact hthrew
      | crash => exact triple_throw _
  · refine Triple.conseq (calm_triple (onConn_calm (dropped_quiet cfg))) (fun _ => And.left)
      (fun _ _ => id) fun _ => id
  · refine Triple.bind triple_get fun s => Triple.ite (fun hreceiving => ?_) fun _ _ h => h.1.1
    rintro u ⟨⟨-, hclosed⟩, rfl⟩
    -- there is nothing left to receive
    rw [Connection.isReceiving, hclosed (by simpa using hreturned)] at hreceiving
    cases hreceiving

theorem idle_kept {α : Type} {x : Connection.ConnM M α} (h : Evolves (Quiet true) x)
    (s : Protocol M) : Triple (fun c => Idle key { s with conn := c }) x
      (fun _ c => Idle key { s with conn := c }) (fun c => Idle key { s with conn := c }) :=
  h.triple fun _ _ k hc => hc.calm ⟨k, rfl, rfl, rfl⟩

theorem idle_triple {α : Type} {x : Connection.ConnM M α} (h : Evolves (Quiet true) x)
    (s : Protocol M) : Triple (fun c => Idle key { s with conn := c }) x
      (fun _ c => Idle key { s with conn := c }) (fun c => Invariant key { s with conn := c }) :=
  (idle_kept h s).conseq (fun _ => id) (fun _ _ => id) fun _ => And.left

theorem asyncRead_triple (phase : Connection.Phase) (buffer : Buffer) (s : Protocol M)
    {E : Connection.State M → Prop} : Triple (fun c => Idle key { s with conn := c })
      (Connection.asyncReadOp .first phase buffer)
      (fun _ c => Invariant key { s with conn := c }) E :=
  triple_modify fun _ hc => hc.read rfl _

theorem parse_triple (s : Protocol M) : Triple (fun c => Idle key { s with conn := c })
    (Connection.parseIncomingMessage .first : Connection.ConnM M Unit)
    (fun _ c => Invariant key { s with conn := c }) (fun c => Invariant key { s with conn := c }) :=
  Triple.bind (idle_triple (silent_quiet updateReadTimer_silent) s) fun _ => asyncRead_triple _ _ s

theorem headerRead_triple (s : Protocol M) : Triple (fun c => Idle key { s with conn := c })
    (Connection.headerRead cfg .first) (fun _ c => Invariant key { s with conn := c })
    (fun c => Invariant key { s with conn := c }) := by
  refine Triple.bind (idle_triple (silent_quiet updateReadTimer_silent) s) fun _ => ?_
  refine Triple.tryCatch (E := fun c => Idle key { s with conn := c }) ?_ fun e => ?_
  · refine Triple.bind (idle_kept (silent_quiet (onInMsg_silent _)) s) fun buffer => ?_
    exact asyncRead_triple _ buffer s
  · cases e with
    | exception =>
      exact (idle_triple (dropped_quiet cfg) s).conseq (fun _ => id) (fun _ _ => And.left) fun _ => id
    | crash => exact fun _ hc => hc.1

theorem readHandler_triple (op : Connection.ReadOp) (hop : op.handler = .first)
    (e : Connection.ErrorCode) : Triple (Idle key) (readHandler cfg data op e)
      (fun _ => Invariant key) (Invariant key) := by
  refine Triple.ite (fun _ => ?_) fun he => ?_
  · refine Triple.bind triple_get fun s => Triple.ite (fun hreceiving => ?_) fun _ _ h => h.1.1
    refine Triple.bind (Q := fun _ => Ready key) ?_ fun _ => ?_
    · refine Triple.conseq (ready_triple (dvlogInfo_silent cfg)) ?_ (fun _ _ => id) fun _ => id
      rintro u ⟨hidle, rfl⟩
      exact ⟨hidle, by simpa [Connection.isReceiving] using hreceiving⟩
    · rw [hop]
      cases op.phase with
      | header =>
        exact Triple.conseq (onConn_triple fun s => headerRead_triple cfg s) (fun _ => And.left)
          (fun _ _ => id) fun _ => id
      | body => exact bodyRead_triple cfg data
  · have hfailed : Evolves (Quiet true) (do
        if e ≠ .operationAborted then Connection.vlogInfo cfg
        Connection.abortWith cfg e) := by
      have hread := readHandler_error cfg he op (⟨[], false⟩ : Connection.Script M)
      unfold Connection.readHandler at hread
      rw [if_neg he] at hread
      rw [hread]
      exact failed_quiet cfg cfg.vlog e
    exact Triple.conseq (calm_triple (onConn_calm hfailed)) (fun _ => And.left) (fun _ _ => id)
      fun _ => id

/-- On a half closed connection the wrapper stops the connection in place of its handler. -/
theorem wrapHandler_triple (h : LoginM M Unit) : Triple (Closed key) (wrapHandler cfg h)
    (fun _ => Invariant key) (Invariant key) := by
  have hstop : Triple (Closed key)
      (onConn (Connection.viaConnection (Connection.stop cfg)) : LoginM M Unit)
      (fun _ => Invariant key) (Invariant key) :=
    Triple.conseq (calm_triple (onConn_calm (via_quiet (stop_quiet cfg)))) (fun _ => And.left)
      (fun _ _ => id) fun _ => id
  refine Triple.bind triple_get fun s => ?_
  refine Triple.ite (fun _ => Triple.ite (fun halive => ?_) fun _ => ?_) fun _ => ?_
  · rintro u ⟨hclosed, rfl⟩
    simp [Connection.isAlive, Connection.isStopped, hclosed.2] at halive
  · exact hstop.conseq (fun _ => And.left) (fun _ _ => id) fun _ => id
  · have hnull : Evolves (Quiet true) (do
        Connection.record .nullConnection
        throw .crash : Connection.ConnM M Unit) :=
      (record_evolves (fun _ _ h => ⟨h.1.weaken, h.2⟩) rfl rfl rfl rfl (by simp)).bind fun _ =>
        evolves_throw _
    exact Triple.conseq (calm_triple (onConn_calm hnull)) (fun _ h => h.1.1) (fun _ _ => id)
      fun _ => id

theorem completion_triple (p : ℤ) : Triple (Closed key) (completion cfg data p)
    (fun _ => Invariant key) (Invariant key) := by
  refine Triple.bind (closed_triple (decryptBlock_calm data p)) fun newSize => ?_
  cases newSize with
  | none => exact wrapHandler_triple cfg _
  | some n =>
    refine Triple.bind (closed_triple (onMsg_calm _)) fun _ => ?_
    exact Triple.bind (closed_triple (onMsg_calm _)) fun b => wrapHandler_triple cfg _

/-- `start` sets the pointer and begins the first read. -/
theorem start_triple (s : Protocol M) : Triple
    (fun c => Invariant key { s with conn := c } ∧ progress c = (false, [], []))
    (Connection.start cfg) (fun _ c => Invariant key { s with conn := c })
    (fun c => Invariant key { s with conn := c }) := by
  refine Triple.bind (Q := fun _ c => Idle key { s with conn := c }) (triple_modify ?_) fun _ => ?_
  · rintro c ⟨hc, hprogress⟩
    have hstarted : progress { c with protocol := true, started := true } = (true, [], []) := by
      simp only [progress, Prod.mk.injEq] at hprogress ⊢
      exact ⟨trivial, hprogress.2⟩
    refine ⟨⟨⟨hc.unsent, hc.outMsgQueue, hc.writes, hc.xtea, hc.continued⟩, ?_, ?_, hc.closing⟩,
      hstarted⟩
    · rw [hstarted]
      exact Stage.idle
    · intro _
      exact Or.inl rfl
  · exact Triple.bind (idle_triple (silent_quiet (dvlogInfo_silent cfg)) s) fun _ => parse_triple s

end Triples

section Steps

variable {M : Type} {cfg : Connection.Config M} {data : LoginData M} {key : Crypto.Xtea}
  {s t : Protocol M} {c : Connection.State M}

theorem finish_eq (x : LoginM M Unit) (s : Protocol M) :
    ∃ b, finish x s = { after x s with conn := { (after x s).conn with crashed := b } } := by
  unfold finish after
  cases x s with
  | ok a t => exact ⟨t.conn.crashed, rfl⟩
  | error e t =>
    cases e with
    | packetException => exact ⟨t.conn.crashed, rfl⟩
    | exception => exact ⟨t.conn.crashed, rfl⟩
    | crash => exact ⟨true, rfl⟩

theorem Invariant.crashed (h : Invariant key s) (b : Bool) :
    Invariant key { s with conn := { s.conn with crashed := b } } :=
  h.calm ⟨Quiet.of_eq rfl rfl, rfl, rfl, rfl⟩

theorem finish_invariant {P : Protocol M → Prop} {x : LoginM M Unit}
    (h : Triple P x (fun _ => Invariant key) (Invariant key)) (hs : P s) :
    Invariant key (finish x s) := by
  have hafter : Invariant key (after x s) := triple_iff_after.mp h s hs
  obtain ⟨b, hb⟩ := finish_eq x s
  rw [hb]
  exact hafter.crashed b

/-- A connection on which nothing is being sent goes on quietly, its start, its reads and calls on
it apart. -/
theorem next_quiet {event : Connection.Event M} (he : Connection.Enabled c event)
    (hcall : isCall event = false) (hwrites : c.writes = []) (hstart : event ≠ .start)
    (hread : ∀ i script, event ≠ .deliverRead i script) :
    Quiet true c (Connection.next cfg c event) := by
  have hexpired (d : Connection.State M) (e : Connection.ErrorCode) (h : Quiet true c d) :
      Quiet true c (Connection.finish (Connection.timerHandler cfg e) d) := by
    obtain ⟨b, hb⟩ := Lifecycle.finish_eq (Connection.timerHandler cfg e) d
    rw [hb]
    exact (h.trans (failed_quiet cfg (!cfg.ndebug) e d)).trans (Quiet.of_eq rfl rfl)
  cases event with
  | start => exact absurd rfl hstart
  | send msg => cases hcall
  | sendAndStop msg => cases hcall
  | stop => cases hcall
  | stopReceiving => cases hcall
  | stopSending => cases hcall
  | wrapped script => cases hcall
  | peerDisconnected => exact Quiet.of_eq rfl rfl
  | completeRead i e data =>
    obtain ⟨op, hop, -, hnext⟩ := completeRead_next cfg he
    have hkeys : (c.reads.set i { op with result := some e }).map readKey = c.reads.map readKey :=
      map_set_key readKey hop rfl
    rw [hnext, Connection.readCompleted]
    split <;> exact Quiet.of_eq (by simp only [loopView, hkeys]) rfl
  | completeWrite i e =>
    obtain ⟨op, hop, -⟩ := completeWrite_next cfg he
    rw [hwrites] at hop
    cases hop
  | expireRead i e => exact Quiet.of_eq rfl rfl
  | expireWrite i e => exact Quiet.of_eq rfl rfl
  | deliverRead i script => exact absurd rfl (hread i script)
  | deliverWrite i =>
    obtain ⟨op, e, hop, -⟩ := deliverWrite_next cfg he
    rw [hwrites] at hop
    cases hop
  | deliverReadWait i =>
    obtain ⟨-, e, -, hnext⟩ := deliverReadWait_next cfg he
    rw [hnext]
    exact hexpired _ e (Quiet.of_eq rfl rfl)
  | deliverWriteWait i =>
    obtain ⟨-, e, -, hnext⟩ := deliverWriteWait_next cfg he
    rw [hnext]
    exact hexpired _ e (Quiet.of_eq rfl rfl)

theorem start_invariant (h : Invariant key s) (hstarted : s.conn.started = false) :
    Invariant key { s with conn := Connection.finish (Connection.start cfg) s.conn } := by
  have hfresh : progress s.conn = (false, [], []) := by
    have hstage := h.stage
    have hflag : (progress s.conn).1 = false := hstarted
    generalize progress s.conn = v at hstage hflag ⊢
    cases hstage with
    | fresh => rfl
    | reading phase => cases hflag
    | idle => cases hflag
    | handled => cases hflag
  have hafter : Invariant key { s with conn := after (Connection.start cfg) s.conn } :=
    triple_iff_after.mp (start_triple cfg s) s.conn ⟨h, hfresh⟩
  obtain ⟨b, hb⟩ := Lifecycle.finish_eq (Connection.start cfg) s.conn
  rw [hb]
  exact hafter.crashed b

/-- The read that completed was the only one, and it was of the first message. -/
theorem Invariant.taken (h : Invariant key s) {i : ℕ} {op : Connection.ReadOp}
    (hop : s.conn.reads[i]? = some op) : op.handler = .first ∧
      Idle key { s with conn := { s.conn with reads := s.conn.reads.eraseIdx i } } := by
  have hmem : readKey op ∈ (progress s.conn).2.1 :=
    List.mem_map_of_mem (List.mem_of_getElem? hop)
  obtain ⟨phase, hprogress⟩ : ∃ phase, progress s.conn = (true, [(.first, phase)], []) := by
    have hstage := h.stage
    generalize progress s.conn = v at hstage hmem ⊢
    cases hstage with
    | fresh => cases hmem
    | reading phase => exact ⟨phase, rfl⟩
    | idle => cases hmem
    | handled => cases hmem
  rw [hprogress] at hmem
  simp only [progress, Prod.mk.injEq] at hprogress
  obtain ⟨hstarted, hreads, hcallbacks⟩ := hprogress
  obtain ⟨only, honly, -⟩ := List.map_eq_singleton_iff.mp hreads
  have hempty : s.conn.reads.eraseIdx i = [] := by
    rw [honly] at hop ⊢
    cases i with
    | zero => rfl
    | succ n => cases hop
  have htaken : progress { s.conn with reads := s.conn.reads.eraseIdx i } = (true, [], []) := by
    simp only [progress, hempty, hstarted, hcallbacks, List.map_nil]
  refine ⟨congrArg Prod.fst (List.mem_singleton.mp hmem), ?_, htaken⟩
  refine ⟨⟨h.unsent, h.outMsgQueue, h.writes, h.xtea, h.continued⟩, ?_, h.protocol, h.closing⟩
  rw [htaken]
  exact Stage.idle

theorem deliverRead_invariant (h : Invariant key s) {i : ℕ} {script : Connection.Script M}
    (he : Connection.Enabled s.conn (.deliverRead i script)) :
    Invariant key (deliverRead cfg data i s) := by
  obtain ⟨-, ⟨id, handler, phase, buffer, result⟩, hop, hresult⟩ := he
  obtain ⟨e, rfl⟩ := Option.isSome_iff_exists.mp hresult
  obtain ⟨hfirst, htaken⟩ := h.taken hop
  have hhandler := finish_invariant
    (readHandler_triple cfg data ⟨id, handler, phase, buffer, some e⟩ hfirst e) htaken
  simpa only [deliverRead, Option.mem_def.mp hop] using hhandler

theorem decrypted_invariant (h : Invariant key s) (hpending : s.pending.isSome) :
    Invariant key (next cfg data s .decrypted) := by
  obtain ⟨p, hp⟩ := Option.isSome_iff_exists.mp hpending
  have hclosed : Closed key { s with pending := none } := by
    refine ⟨⟨⟨h.unsent, h.outMsgQueue, h.writes, h.xtea, h.continued⟩, h.stage, h.protocol, ?_⟩,
      h.closing hpending⟩
    intro hnone
    cases hnone
  have hcompletion := finish_invariant (completion_triple cfg data p) hclosed
  simpa only [next, hp] using hcompletion

theorem next_invariant (h : Invariant key s) {e : Login.Event M} (he : Enabled s e) :
    Invariant key (next cfg data s e) := by
  cases e with
  | decrypted => exact decrypted_invariant h he.2
  | connection event =>
    by_cases hread : ∃ i script, event = .deliverRead i script
    · obtain ⟨i, script, rfl⟩ := hread
      exact deliverRead_invariant h he.2
    · have hother (i : ℕ) (script : Connection.Script M) : event ≠ .deliverRead i script := by
        intro heq
        exact hread ⟨i, script, heq⟩
      have hnext : next cfg data s (.connection event) =
          { s with conn := Connection.next cfg s.conn event } := by
        cases event with
        | deliverRead i script => exact absurd rfl (hother i script)
        | _ => rfl
      rw [hnext]
      by_cases hstart : event = .start
      · subst hstart
        exact start_invariant h he.2.2
      · exact h.calm ⟨next_quiet he.2 he.1 h.writes hstart hother, rfl, rfl, rfl⟩

theorem initial_invariant (uninitialised : ByteMemory.Memory) (key : Crypto.Xtea) :
    Invariant key (initial uninitialised key : Protocol M) := by
  refine ⟨⟨?_, rfl, rfl, rfl, rfl⟩, Stage.fresh, ?_, ?_⟩
  · intro a ha
    cases ha
  · intro hstarted
    cases hstarted
  · intro hpending
    cases hpending

theorem run_invariant {uninitialised : ByteMemory.Memory} {es : List (Login.Event M)}
    (h : Run (system cfg data) (initial uninitialised key) es t) : Invariant key t :=
  h.invariant (fun _ _ hs he => next_invariant hs he) (initial_invariant uninitialised key)

/-- Whatever a client sends to the account server and however its connection ends: the server
never sends anything back, never takes over the client's key and never continues a login. -/
theorem never_answers {uninitialised : ByteMemory.Memory} {es : List (Login.Event M)}
    (h : Run (system cfg data) (initial uninitialised key) es t) : Unanswered key t :=
  (run_invariant h).toUnanswered

/-- A protocol of one message: the connection hands over the first message at most, and the
placeholder for the others is never called. -/
theorem one_message {uninitialised : ByteMemory.Memory} {es : List (Login.Event M)}
    (h : Run (system cfg data) (initial uninitialised key) es t) :
    t.conn.log.filter isCallback = [] ∨ t.conn.log.filter isCallback = [.callback .first] := by
  have hstage := (run_invariant h).stage
  change (progress t.conn).2.2 = [] ∨ (progress t.conn).2.2 = [.callback .first]
  generalize progress t.conn = v at hstage ⊢
  cases hstage with
  | fresh => exact Or.inl rfl
  | reading phase => exact Or.inl rfl
  | idle => exact Or.inl rfl
  | handled => exact Or.inr rfl

end Steps

section Witness

instance (s : Protocol OutMessage.Message) :
    (e : Login.Event OutMessage.Message) → Decidable (Enabled s e)
  | .connection event =>
    inferInstanceAs (Decidable (isCall event = false ∧ Connection.Enabled s.conn event))
  | .decrypted => inferInstanceAs (Decidable (s.conn.crashed = false ∧ s.pending.isSome))

instance (cfg : Connection.Config OutMessage.Message) (data : LoginData OutMessage.Message)
    (s : Protocol OutMessage.Message) (e : Login.Event OutMessage.Message) :
    Decidable ((system cfg data).Enabled s e) := inferInstanceAs (Decidable (Enabled s e))

/-- The login of zeros, from the start of its connection. -/
def zeroLogin : List (Login.Event OutMessage.Message) :=
  [.connection .start,
   .connection (.completeRead 0 .success (ByteMemory.encodeLE 2 zeroBody.length)),
   .connection (.deliverRead 0 ⟨[], false⟩),
   .connection (.completeRead 0 .success zeroBody),
   .connection (.deliverRead 0 ⟨[], false⟩),
   .decrypted]

def zeroAnswer : Protocol OutMessage.Message :=
  runTrace (system loginConfig loginData) (initial (fun _ => 0) ⟨fun _ => 1⟩) zeroLogin

theorem zeroLogin_valid : ValidTrace (system loginConfig loginData)
    (initial (fun _ => 0) ⟨fun _ => 1⟩) zeroLogin := by
  decide +kernel

theorem never_answers_zero :
    .stopBegan ∈ zeroAnswer.conn.log ∧ Unanswered ⟨fun _ => 1⟩ zeroAnswer := by
  constructor
  · decide +kernel
  · exact never_answers (valid_trace_run zeroLogin_valid)

theorem one_message_zero : .callback .first ∈ zeroAnswer.conn.log ∧
    (zeroAnswer.conn.log.filter isCallback = [] ∨
      zeroAnswer.conn.log.filter isCallback = [.callback .first]) := by
  constructor
  · decide +kernel
  · exact one_message (valid_trace_run zeroLogin_valid)

end Witness

end AccountLogin
