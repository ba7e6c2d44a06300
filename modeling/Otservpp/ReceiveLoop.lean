import Otservpp.SendQueue

/-! # One turn of the receive loop

`Untouched` is what everything outside of the receive loop keeps: the bytes consumed, the calls
made and the message; a read in progress may be cancelled. The handlers of a header and of a
body are followed to their ends, with a protocol that reads its message and sends replies. -/
namespace ReceiveLoop

open Connection InMessage Lifecycle ProgramLogic SendQueue

section Handlers

variable {M : Type} (cfg : Config M)

/-- A handler that neither throws nor stops reads from its message and sends replies. -/
def Reading : Act M → Prop
  | .read _ => True
  | .send msg => ∃ encoded, cfg.encode msg = .ok encoded
  | _ => False

/-- The message after a handler, unless an assertion fails in it. -/
def leave : List (Act M) → Message → Option Message
  | [], m => some m
  | .read op :: acts, m =>
    match op.exec cfg.ndebug m with
    | .ok _ m' => leave acts m'
    | .error .packetException m' => leave acts m'
    | .error .assertion _ => none
  | _ :: acts, m => leave acts m

end Handlers

section Kept

variable {M : Type}

def cancelRead (op : ReadOp) : ReadOp := { op with result := complete .operationAborted op.result }

/-- What everything but the receive loop keeps of it, up to cancellation. -/
structure Kept (s t : State M) : Prop where
  consumed : t.consumed = s.consumed
  calls : t.calls = s.calls
  started : t.started = s.started
  reads : t.reads = s.reads ∨ t.reads = s.reads.map cancelRead

/-- The message is kept too. -/
structure Untouched (s t : State M) : Prop extends Kept s t where
  inMsg : t.inMsg = s.inMsg

variable {s t u : State M}

theorem Kept.trans (h : Kept s t) (k : Kept t u) : Kept s u := by
  refine ⟨k.consumed.trans h.consumed, k.calls.trans h.calls, k.started.trans h.started, ?_⟩
  have htwice : (s.reads.map cancelRead).map cancelRead = s.reads.map cancelRead := by
    simp [cancelRead, complete]
  rcases h.reads with h | h <;> rcases k.reads with k | k
  · exact Or.inl (k.trans h)
  · exact Or.inr (h ▸ k)
  · exact Or.inr (k.trans h)
  · exact Or.inr (by rw [k, h, htwice])

instance : IsPreorder (State M) Kept where
  refl _ := ⟨rfl, rfl, rfl, Or.inl rfl⟩
  trans _ _ _ := Kept.trans

theorem Untouched.trans (h : Untouched s t) (k : Untouched t u) : Untouched s u :=
  ⟨h.toKept.trans k.toKept, k.inMsg.trans h.inMsg⟩

instance : IsPreorder (State M) Untouched where
  refl s := ⟨refl s, rfl⟩
  trans _ _ _ := Untouched.trans

def receiveView (s : State M) := (s.consumed, s.calls, s.started, s.reads, s.inMsg)

theorem Untouched.of_eq (h : receiveView t = receiveView s) : Untouched s t := by
  simp only [receiveView, Prod.mk.injEq] at h
  obtain ⟨hconsumed, hcalls, hstarted, hreads, hmsg⟩ := h
  exact ⟨⟨hconsumed, hcalls, hstarted, Or.inl hreads⟩, hmsg⟩

variable (cfg : Config M)

omit cfg in
theorem untouched_modify {f : State M → State M} (h : ∀ s, receiveView (f s) = receiveView s) :
    Evolves Untouched (modify f : ConnM M Unit) :=
  evolves_modify fun s => Untouched.of_eq (h s)

theorem connectedCall_untouched : Evolves Untouched (connectedCall cfg) := by
  intro s
  have hcalled : Untouched s (called s) := Untouched.of_eq rfl
  unfold after
  rw [connectedCall_run]
  split_ifs
  · exact hcalled
  · exact hcalled

theorem logWhen_untouched (logs : Bool) : Evolves Untouched (logWhen cfg logs) :=
  Evolves.ite (fun _ => connectedCall_untouched cfg) (fun _ => evolves_pure ())

theorem dvlogInfo_untouched : Evolves Untouched (dvlogInfo cfg) :=
  logWhen_untouched cfg (!cfg.ndebug && cfg.vlog)

theorem stop_untouched : Evolves Untouched (stop cfg) := by
  intro s
  have hlogged : Untouched s (logged cfg s) := by
    unfold logged
    split_ifs
    · exact Untouched.of_eq rfl
    · exact Untouched.of_eq rfl
  have hcancelled : Untouched s (called (cancelled (logged cfg s))) :=
    hlogged.trans (Untouched.of_eq rfl)
  have hclosed : Untouched s (closed (called (called (cancelled (logged cfg s))))) :=
    hcancelled.trans ⟨⟨rfl, rfl, rfl, Or.inr rfl⟩, rfl⟩
  unfold after
  rw [stop_run]
  split_ifs
  · exact hlogged
  · exact hcancelled
  · exact hclosed
  · exact hclosed.trans (Untouched.of_eq rfl)

theorem abort_untouched : Evolves Untouched (abort cfg) := by
  refine Evolves.bind evolves_get fun _ => Evolves.ite (fun _ => ?_) (fun _ => ?_)
  · exact Evolves.bind (untouched_modify fun _ => rfl) fun _ => stop_untouched cfg
  · exact Evolves.bind (untouched_modify fun _ => rfl) fun _ => evolves_throw _

theorem dropped_untouched : Evolves Untouched (do droppingLogInfo cfg; abort cfg) :=
  (connectedCall_untouched cfg).bind fun _ => abort_untouched cfg

theorem abortWith_untouched (e : ErrorCode) : Evolves Untouched (abortWith cfg e) :=
  Evolves.ite (fun _ => abort_untouched cfg) (fun _ => evolves_pure ())

theorem failed_untouched (logs : Bool) (e : ErrorCode) : Evolves Untouched (failed cfg logs e) :=
  Evolves.ite (fun _ => (logWhen_untouched cfg logs).bind fun _ => abortWith_untouched cfg e)
    (fun _ => abortWith_untouched cfg e)

theorem writeEncoded_untouched (q : Queued M) (rest : List (Queued M)) (a : AfterSend)
    (result : Except Connection.Fault M) : Evolves Untouched (writeEncoded cfg q rest a result) := by
  match result with
  | .error .exception => exact dropped_untouched cfg
  | .error .crash => exact evolves_throw _
  | .ok msg =>
    exact Evolves.bind (untouched_modify fun _ => rfl) fun _ => Evolves.bind (untouched_modify fun _ => rfl) fun _ =>
      untouched_modify fun _ => rfl

theorem doSend_untouched (a : AfterSend) : Evolves Untouched (doSend cfg a) := by
  refine Evolves.bind (untouched_modify fun _ => rfl) fun _ => Evolves.bind evolves_get fun s => ?_
  match s.outMsgQueue with
  | [] => exact evolves_throw _
  | q :: rest =>
    exact Evolves.bind (untouched_modify fun _ => rfl) fun _ => writeEncoded_untouched cfg q rest a _

theorem trySendOrEnqueueThen_untouched (msg : M) (a : AfterSend) :
    Evolves Untouched (trySendOrEnqueueThen cfg msg a) := by
  refine Evolves.bind evolves_get fun s => Evolves.ite (fun _ => ?_) (fun _ => evolves_pure _)
  refine Evolves.bind (untouched_modify fun _ => rfl) fun _ => ?_
  exact Evolves.ite (fun _ => doSend_untouched cfg a) (fun _ => evolves_pure _)

theorem writeHandler_untouched (op : WriteOp) (e : ErrorCode) :
    Evolves Untouched (writeHandler cfg op e) := by
  have hpop : Evolves Untouched (popFront : ConnM M Unit) := by
    refine Evolves.bind evolves_get fun s => ?_
    match s.outMsgQueue with
    | [] => exact evolves_throw _
    | q :: rest => exact untouched_modify fun _ => rfl
  have hkeep : Evolves Untouched (keepSending cfg) :=
    Evolves.bind evolves_get fun s => Evolves.ite (fun _ => untouched_modify fun _ => rfl)
      (fun _ => doSend_untouched cfg .keepSending)
  by_cases he : e = .success
  · subst he
    refine Evolves.bind (untouched_modify fun _ => rfl) fun _ => (dvlogInfo_untouched cfg).bind fun _ =>
      hpop.bind fun _ => ?_
    cases op.afterSend with
    | keepSending => exact hkeep
    | stop => exact stop_untouched cfg
  · rw [writeHandler_error cfg he]
    exact failed_untouched cfg _ e

end Kept

section Scripts

variable {M : Type} (cfg : Config M)

theorem stopReceiving_untouched : Evolves Untouched (stopReceiving cfg) :=
  Evolves.bind (untouched_modify fun _ => rfl) fun _ => connectedCall_untouched cfg

theorem stopSending_untouched : Evolves Untouched (stopSending cfg) :=
  Evolves.bind (untouched_modify fun _ => rfl) fun _ => connectedCall_untouched cfg

/-- A handler that has no message to read. -/
theorem untouched_rules : ScriptRules cfg (fun _ => False) Untouched where
  nullConnection := untouched_modify fun _ => rfl
  wrappedRun := untouched_modify fun _ => rfl
  read _ := False.elim
  log := connectedCall_untouched cfg
  stop := stop_untouched cfg
  stopReceiving := stopReceiving_untouched cfg
  stopSending := stopSending_untouched cfg
  send := trySendOrEnqueueThen_untouched cfg

omit cfg in
theorem caught_cases (x : ConnM M Unit) (s : State M) :
    catchException x (pure ()) s = .ok () (after x s) ∨
      catchException x (pure ()) s = .error .crash (after x s) := by
  unfold catchException after
  rw [tryCatch_run]
  cases x s with
  | ok a t => exact Or.inl rfl
  | error e t =>
    cases e with
    | exception => exact Or.inl rfl
    | crash => exact Or.inr rfl

/-- A read of the message ends the handler only where an assertion fails. -/
theorem caught_read (op : FrameReads.Op) (s : State M) :
    catchException ((Act.read op).exec cfg) (pure ()) s =
      match op.exec cfg.ndebug s.inMsg with
      | .ok _ m => .ok () { s with inMsg := m }
      | .error .packetException m => .ok () { s with inMsg := m }
      | .error .assertion m => .error .crash { s with inMsg := m } := by
  change tryCatch (onInMsg (op.exec cfg.ndebug) >>= fun _ => pure ()) _ s = _
  rw [tryCatch_run, bind_run, onInMsg]
  cases op.exec cfg.ndebug s.inMsg with
  | ok bytes m => rfl
  | error e m => cases e <;> rfl

omit cfg in
theorem kept_inMsg (s : State M) (m : Message) : Kept s { s with inMsg := m } :=
  ⟨rfl, rfl, rfl, Or.inl rfl⟩

/-- What a reading handler leaves behind, unless it crashes. -/
def Left (acts : List (Act M)) (s : State M) : EStateM.Result Connection.Fault (State M) Unit → Prop
  | .ok _ t => Kept s t ∧ leave cfg acts s.inMsg = some t.inMsg
  | .error e t => Kept s t ∧ e = .crash

theorem runActs_left {acts : List (Act M)} (h : ∀ act ∈ acts, Reading cfg act) (s : State M) :
    Left cfg acts s (runActs cfg acts s) := by
  induction acts generalizing s with
  | nil => exact ⟨refl s, rfl⟩
  | cons act acts ih =>
    have hrest := ih fun act hact => h act (List.mem_cons_of_mem _ hact)
    have hthen {t : State M} (hcaught : catchException (act.exec cfg) (pure ()) s = .ok () t)
        (hkept : Kept s t) (hleave : leave cfg (act :: acts) s.inMsg = leave cfg acts t.inMsg) :
        Left cfg (act :: acts) s (runActs cfg (act :: acts) s) := by
      rw [runActs, bind_ok hcaught]
      have hleft := hrest t
      cases hrun : runActs cfg acts t with
      | ok a u =>
        rw [hrun] at hleft
        exact ⟨hkept.trans hleft.1, hleave.trans hleft.2⟩
      | error e u =>
        rw [hrun] at hleft
        exact ⟨hkept.trans hleft.1, hleft.2⟩
    have hcrash {t : State M}
        (hcaught : catchException (act.exec cfg) (pure ()) s = .error .crash t) (hkept : Kept s t) :
        Left cfg (act :: acts) s (runActs cfg (act :: acts) s) := by
      rw [runActs, bind_error hcaught]
      exact ⟨hkept, rfl⟩
    cases act with
    | read op =>
      have hcaught := caught_read cfg op s
      cases hop : op.exec cfg.ndebug s.inMsg with
      | ok bytes m =>
        rw [hop] at hcaught
        exact hthen hcaught (kept_inMsg s m) (by rw [leave, hop])
      | error e m =>
        rw [hop] at hcaught
        cases e with
        | packetException => exact hthen hcaught (kept_inMsg s m) (by rw [leave, hop])
        | assertion => exact hcrash hcaught (kept_inMsg s m)
    | send msg =>
      have hkept := (untouched_rules cfg).act (show ∀ op, Act.send msg ≠ .read op by simp) s
      rcases caught_cases ((Act.send msg).exec cfg) s with hcaught | hcaught
      · exact hthen hcaught hkept.toKept (by rw [leave, hkept.inMsg]; simp)
      · exact hcrash hcaught hkept.toKept
    | sendAndStop msg => exact (h _ List.mem_cons_self).elim
    | stop => exact (h _ List.mem_cons_self).elim
    | stopReceiving => exact (h _ List.mem_cons_self).elim
    | stopSending => exact (h _ List.mem_cons_self).elim

end Scripts

section Loop

variable {M : Type} (cfg : Config M) {s : State M} {kind : HandlerKind} {acts : List (Act M)}

/-- The state after the next read was started, with its timer. -/
def awaiting (s : State M) (kind : HandlerKind) (phase : Phase) (buffer : Buffer) : State M :=
  { s with
    readWaits := cancelWaits s.readWaits ++ [⟨s.nextRead, none⟩]
    reads := s.reads ++ [⟨s.nextRead, kind, phase, buffer, initialResult s⟩]
    nextRead := s.nextRead + 1 }

/-- The state in which the handler of a message begins. -/
def dispatched (s : State M) (kind : HandlerKind) : State M :=
  { s with
    calls := s.calls ++ [⟨s.consumed, s.inMsg⟩]
    log := s.log ++ [.callback kind] }

def withMsg (s : State M) (m : Message) : State M := { s with inMsg := m }

def headerBuffer : Buffer := getHeaderBuffer standardHeaderSize

/-- The state in which a header is parsed or a message has arrived. -/
def rescheduled (s : State M) (waits : List Wait) : State M := { s with readWaits := waits }

theorem headerRead_run (s : State M) (kind : HandlerKind) :
    headerRead cfg kind s = match parseHeaderAndGetBodyBuffer cfg.ndebug s.inMsg with
      | .ok buffer m => .ok () (awaiting (withMsg s m) kind .body buffer)
      | .error .packetException m => (do droppingLogInfo cfg; abort cfg : ConnM M Unit)
          (withMsg (rescheduled s (cancelWaits s.readWaits ++ [⟨s.nextRead, none⟩])) m)
      | .error .assertion m => .error .crash
          (withMsg (rescheduled s (cancelWaits s.readWaits ++ [⟨s.nextRead, none⟩])) m) := by
  change tryCatch (onInMsg (parseHeaderAndGetBodyBuffer cfg.ndebug) >>= fun buffer =>
    asyncReadOp kind .body buffer) _ (rescheduled s (cancelWaits s.readWaits ++ [⟨s.nextRead, none⟩])) = _
  have hmsg : (rescheduled s (cancelWaits s.readWaits ++ [⟨s.nextRead, none⟩])).inMsg = s.inMsg := rfl
  rw [tryCatch_run, bind_run, onInMsg, hmsg]
  cases parseHeaderAndGetBodyBuffer cfg.ndebug s.inMsg with
  | ok buffer m => rfl
  | error e m => cases e <;> rfl

/-- A header that does not parse is the end of the loop. -/
theorem headerRead_error {e : InMessage.Fault} {m : Message}
    (h : parseHeaderAndGetBodyBuffer cfg.ndebug s.inMsg = .error e m) :
    Kept s (after (headerRead cfg kind) s) := by
  have hrun := headerRead_run cfg s kind
  let t : State M := withMsg (rescheduled s (cancelWaits s.readWaits ++ [⟨s.nextRead, none⟩])) m
  have hkept : Kept s t := ⟨rfl, rfl, rfl, Or.inl rfl⟩
  rw [h] at hrun
  cases e with
  | packetException =>
    have hdropped := dropped_untouched cfg t
    unfold after at hdropped ⊢
    rw [hrun]
    exact hkept.trans hdropped.toKept
  | assertion =>
    rw [after_error hrun]
    exact hkept

/-- How `bodyRead` ends after the handler it called has ended. -/
def resumed : EStateM.Result Connection.Fault (State M) Unit →
    EStateM.Result Connection.Fault (State M) Unit
  | .ok _ t => .ok () (if t.readClosed = true then t
      else awaiting t .subsequent .header headerBuffer)
  | .error .exception t => (do droppingLogInfo cfg; abort cfg : ConnM M Unit) t
  | .error .crash t => .error .crash t

/-- The rest of `bodyRead` after its log line. -/
theorem bodyRead_run (kind : HandlerKind) (acts : List (Act M)) {u : State M}
    (hlog : dvlogInfo cfg (rescheduled s (cancelWaits s.readWaits)) = .ok () u)
    (hp : u.protocol = true) :
    bodyRead cfg kind ⟨acts, false⟩ s = resumed cfg (runActs cfg acts (dispatched u kind)) := by
  have hsend : sendInMsg cfg kind ⟨acts, false⟩ u =
      (runActs cfg acts >>= fun _ => pure ()) (dispatched u kind) := by
    change (if u.protocol = true then _ else _ : ConnM M Unit) u = _
    rw [if_pos hp]
    rfl
  change (dvlogInfo cfg >>= fun _ => tryCatch (sendInMsg cfg kind ⟨acts, false⟩ >>= fun _ => pure false)
    _ >>= fun threw => _) (rescheduled s (cancelWaits s.readWaits)) = _
  rw [bind_ok hlog, bind_run, tryCatch_run, bind_run, hsend, bind_run]
  cases runActs cfg acts (dispatched u kind) with
  | ok a t =>
    change (if isReceiving t = true then parseIncomingMessage .subsequent else pure () : ConnM M Unit) t
      = _
    cases hr : t.readClosed with
    | true => simp [isReceiving, resumed, hr]
    | false =>
      simp only [isReceiving, resumed, hr, Bool.not_false, if_true, Bool.false_eq_true, if_false]
      rfl
  | error e t => cases e <;> rfl

/-- Without a protocol there is no call. -/
theorem bodyRead_null {u : State M} {script : Script M}
    (hlog : dvlogInfo cfg (rescheduled s (cancelWaits s.readWaits)) = .ok () u)
    (hp : u.protocol = false) :
    bodyRead cfg kind script s = .error .crash { u with log := u.log ++ [.nullCallback] } := by
  have hsend : sendInMsg cfg kind script u =
      .error .crash { u with log := u.log ++ [.nullCallback] } := by
    change (if u.protocol = true then _ else _ : ConnM M Unit) u = _
    rw [if_neg (by simp [hp])]
    rfl
  change (dvlogInfo cfg >>= fun _ => tryCatch (sendInMsg cfg kind script >>= fun _ => pure false)
    _ >>= fun threw => _) (rescheduled s (cancelWaits s.readWaits)) = _
  rw [bind_ok hlog, bind_run, tryCatch_run, bind_error hsend]
  rfl

theorem calledTo_untouched (s : State M) (n : ℕ) : Untouched s (calledTo s n) := Untouched.of_eq rfl

/-- The handler of a read ends before the message is looked at or goes on with it. -/
theorem readHandler_cases (op : ReadOp) (script : Script M) (s : State M) :
    Untouched s (after (readHandler cfg op .success script) s) ∨
      ∃ t, Untouched s t ∧ after (readHandler cfg op .success script) s =
        after (received cfg op script) t := by
  have hrun := readHandler_success cfg op script s
  by_cases hr : s.readClosed = true
  · rw [if_pos hr] at hrun
    rw [after_ok hrun]
    exact Or.inl (refl s)
  rw [if_neg hr] at hrun
  rcases dvlogInfo_cases cfg s with ⟨n, hlog⟩ | ⟨n, hlog⟩
  · rw [bind_ok hlog] at hrun
    refine Or.inr ⟨calledTo s n, calledTo_untouched s n, ?_⟩
    unfold after
    rw [hrun]
  · rw [bind_error hlog] at hrun
    rw [after_error hrun]
    exact Or.inl (calledTo_untouched s n)

/-- A body leads to no call, to a call that ends the loop, or to a call and the read of the next
header. -/
theorem bodyRead_cases (hacts : ∀ act ∈ acts, Reading cfg act) (s : State M) :
    Untouched s (after (bodyRead cfg kind ⟨acts, false⟩) s) ∨ ∃ u, Untouched s u ∧
      (Kept (dispatched u kind) (after (bodyRead cfg kind ⟨acts, false⟩) s) ∨
        ∃ v, Kept (dispatched u kind) v ∧ leave cfg acts s.inMsg = some v.inMsg ∧
          after (bodyRead cfg kind ⟨acts, false⟩) s = awaiting v .subsequent .header headerBuffer) := by
  have htimer : Untouched s (rescheduled s (cancelWaits s.readWaits)) := Untouched.of_eq rfl
  rcases dvlogInfo_cases cfg (rescheduled s (cancelWaits s.readWaits)) with ⟨n, hlog⟩ | ⟨n, hlog⟩
  · have hu := htimer.trans (calledTo_untouched _ n)
    cases hp : (calledTo (rescheduled s (cancelWaits s.readWaits)) n).protocol with
    | false =>
      rw [after_error (bodyRead_null cfg hlog hp)]
      exact Or.inl (hu.trans (Untouched.of_eq rfl))
    | true =>
      have hrun := bodyRead_run cfg kind acts hlog hp
      have hleft := runActs_left cfg hacts
        (dispatched (calledTo (rescheduled s (cancelWaits s.readWaits)) n) kind)
      refine Or.inr ⟨_, hu, ?_⟩
      cases hscript : runActs cfg acts
          (dispatched (calledTo (rescheduled s (cancelWaits s.readWaits)) n) kind) with
      | ok a v =>
        rw [hscript] at hrun hleft
        rw [after_ok hrun]
        split_ifs
        · exact Or.inl hleft.1
        · exact Or.inr ⟨v, hleft.1, hleft.2, rfl⟩
      | error e v =>
        rw [hscript] at hrun hleft
        obtain ⟨hkept, rfl⟩ := hleft
        rw [after_error hrun]
        exact Or.inl hkept
  · have hrun : bodyRead cfg kind ⟨acts, false⟩ s = .error .exception _ := bind_error hlog _
    rw [after_error hrun]
    exact Or.inl (htimer.trans (calledTo_untouched _ n))

end Loop

end ReceiveLoop
