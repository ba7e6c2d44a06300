import Otservpp.ReceiveLoop
import Otservpp.Teardown

/-! # A timeout for every outstanding operation

Both timers are armed again before each operation and cancelled after it. `Watched` is what their
waits look like while an operation is outstanding: the last of them was armed for it. What a handler
does outside of its own loop leaves the waits of that loop alone or begins `stop`. -/
namespace TimeoutCoverage

open Connection Lifecycle ProgramLogic SendQueue ReceiveLoop Teardown EventSystem

section Waits

/-- The waits of a timer in the order in which they were armed: those before the last have been
cancelled or have expired; the last was armed for the operation, and is pending or has expired. -/
def Watched (op : ℕ) (ws : List Wait) : Prop :=
  ∃ front r, ws = front ++ [Wait.mk op r] ∧ (∀ w ∈ front, w.result.isSome) ∧
    r ≠ some .operationAborted

variable {ws : List Wait} {op i : ℕ} {e : ErrorCode}

theorem watched_update (op : ℕ) (ws : List Wait) : Watched op (cancelWaits ws ++ [⟨op, none⟩]) := by
  refine ⟨cancelWaits ws, none, rfl, fun w hw => ?_, by simp⟩
  obtain ⟨old, -, rfl⟩ := List.mem_map.mp hw
  rfl

theorem Watched.expire (h : Watched op ws) (hi : ∃ w ∈ ws[i]?, w.result = none)
    (he : e ≠ .operationAborted) : Watched op (ws.modify i fun w => { w with result := some e }) := by
  obtain ⟨front, r, rfl, hfront, -⟩ := h
  obtain ⟨w, hw, hpending⟩ := hi
  have hlast : i = front.length := by
    by_contra hne
    have hlt : i < (front ++ [Wait.mk op r]).length := (List.getElem?_eq_some_iff.mp hw).1
    simp only [List.length_append, List.length_singleton] at hlt
    rw [List.getElem?_append_left (by omega)] at hw
    have hsome := hfront w (List.mem_of_getElem? hw)
    rw [hpending] at hsome
    cases hsome
  subst hlast
  refine ⟨front, some e, ?_, hfront, by simpa using he⟩
  rw [List.modify_eq_take_cons_drop (by simp)]
  simp

/-- Only the wait that was armed last matters. -/
theorem Watched.erase (h : Watched op ws) (hi : i + 1 < ws.length) :
    Watched op (ws.eraseIdx i) := by
  obtain ⟨front, r, rfl, hfront, hr⟩ := h
  simp only [List.length_append, List.length_singleton] at hi
  refine ⟨front.eraseIdx i, r, List.eraseIdx_append_of_lt_length (by omega) _, ?_, hr⟩
  exact fun v hv => hfront v (List.mem_of_mem_eraseIdx hv)

theorem Watched.last {w : ℕ} (h : Watched op ws) (hi : i + 1 = ws.length)
    (hw : ws[i]? = some ⟨w, some e⟩) : e ≠ .operationAborted := by
  obtain ⟨front, r, rfl, -, hlast⟩ := h
  obtain rfl : i = front.length := by simpa using hi
  rw [List.getElem?_concat_length] at hw
  cases hw
  simpa using hlast

/-- An operation that completes remains the one its timer was armed for. -/
theorem watched_set {α : Type} {ops : List α} {id : α → ℕ} {a b : α}
    (h : ∀ op ∈ ops, Watched (id op) ws) (ha : ops[i]? = some a) (hb : id b = id a) :
    ∀ op ∈ ops.set i b, Watched (id op) ws := by
  intro op hop
  rcases List.mem_or_eq_of_mem_set hop with hold | rfl
  · exact h op hold
  · rw [hb]
    exact h a (List.mem_of_getElem? ha)

/-- Delivering a wait leaves the timer of an outstanding operation watched, or it was the expiry of
the last wait. -/
theorem watched_deliver {α : Type} {ops : List α} {id : α → ℕ} {w : ℕ}
    (h : ∀ op ∈ ops, Watched (id op) ws) (hw : ws[i]? = some ⟨w, some e⟩) :
    (∀ op ∈ ops, Watched (id op) (ws.eraseIdx i)) ∨
      ops ≠ [] ∧ i + 1 = ws.length ∧ e ≠ .operationAborted := by
  cases ops with
  | nil => exact Or.inl fun op hop => by cases hop
  | cons first rest =>
    have hlt := (List.getElem?_eq_some_iff.mp hw).1
    by_cases hlast : i + 1 = ws.length
    · exact Or.inr ⟨List.cons_ne_nil _ _, hlast, (h first List.mem_cons_self).last hlast hw⟩
    · exact Or.inl fun op hop => (h op hop).erase (by omega)

end Waits

section Attending

variable {M : Type}

def readView (s : State M) := (s.reads, s.nextRead, s.readWaits, s.protocol, s.started)

def writeView (s : State M) := (s.outMsgQueue, s.writes, s.writeWaits)

/-- While `stop` has not begun an outstanding read is watched, and a started connection has its
protocol. -/
def ReadWatched (s : State M) : Prop :=
  .stopBegan ∈ s.log ∨
    (∀ op ∈ s.reads, Watched op.id s.readWaits) ∧ (s.protocol = false → s.started = false)

/-- A write in flight is watched, and its message is in the queue. -/
def WriteWatched (s : State M) : Prop :=
  .stopBegan ∈ s.log ∨
    (∀ op ∈ s.writes, Watched op.id s.writeWaits) ∧ (s.outMsgQueue = [] → s.writes = [])

/-- What everything but the receive loop keeps of it. -/
structure ReadKept (s t : State M) : Prop where
  stops : .stopBegan ∈ s.log → .stopBegan ∈ t.log
  reading : .stopBegan ∈ t.log ∨ readView t = readView s

/-- What everything but the receive loop keeps of both timers. -/
structure Attends (s t : State M) : Prop extends ReadKept s t where
  writing : WriteWatched s → WriteWatched t

variable {s t u : State M}

theorem ReadKept.trans (h : ReadKept s t) (k : ReadKept t u) : ReadKept s u := by
  refine ⟨fun hs => k.stops (h.stops hs), ?_⟩
  rcases k.reading with hstop | hsame
  · exact Or.inl hstop
  · rcases h.reading with hstop | hfirst
    · exact Or.inl (k.stops hstop)
    · exact Or.inr (hsame.trans hfirst)

instance : IsPreorder (State M) ReadKept where
  refl _ := ⟨id, Or.inr rfl⟩
  trans _ _ _ := ReadKept.trans

theorem Attends.trans (h : Attends s t) (k : Attends t u) : Attends s u :=
  ⟨h.toReadKept.trans k.toReadKept, fun hs => k.writing (h.writing hs)⟩

instance : IsPreorder (State M) Attends where
  refl s := ⟨refl s, id⟩
  trans _ _ _ := Attends.trans

theorem attends_of_stop (h : .stopBegan ∈ t.log) : Attends s t :=
  ⟨⟨fun _ => h, Or.inl h⟩, fun _ => Or.inl h⟩

theorem readKept_of_view (hlog : s.log <+: t.log) (h : readView t = readView s) : ReadKept s t :=
  ⟨fun hs => hlog.subset hs, Or.inr h⟩

theorem attends_of_view (hlog : s.log <+: t.log) (hread : readView t = readView s)
    (hwrite : writeView t = writeView s) : Attends s t := by
  refine ⟨readKept_of_view hlog hread, ?_⟩
  simp only [writeView, Prod.mk.injEq] at hwrite
  obtain ⟨hqueue, hwrites, hwaits⟩ := hwrite
  unfold WriteWatched
  rw [hqueue, hwrites, hwaits]
  exact Or.imp_left fun hs => hlog.subset hs

theorem ReadWatched.kept (h : ReadWatched s) (k : ReadKept s t) : ReadWatched t := by
  rcases h with hstop | hwatched
  · exact Or.inl (k.stops hstop)
  · rcases k.reading with hstop | hsame
    · exact Or.inl hstop
    · simp only [readView, Prod.mk.injEq] at hsame
      obtain ⟨hreads, -, hwaits, hprotocol, hstarted⟩ := hsame
      unfold ReadWatched
      rw [hreads, hwaits, hprotocol, hstarted]
      exact Or.inr hwatched

variable (cfg : Config M)

theorem record_attends (a : Action) : Evolves Attends (record a : ConnM M Unit) :=
  evolves_modify fun _ => attends_of_view (List.prefix_append _ _) rfl rfl

theorem connectedCall_attends : Evolves Attends (connectedCall cfg) := by
  intro s
  have hcalled : Attends s (called s) := attends_of_view List.prefix_rfl rfl rfl
  unfold after
  rw [connectedCall_run]
  split_ifs
  · exact hcalled
  · exact hcalled

theorem logWhen_attends (logs : Bool) : Evolves Attends (logWhen cfg logs) :=
  Evolves.ite (fun _ => connectedCall_attends cfg) (fun _ => evolves_pure ())

theorem dvlogInfo_attends : Evolves Attends (dvlogInfo cfg) :=
  logWhen_attends cfg (!cfg.ndebug && cfg.vlog)

theorem stop_begins (s : State M) : .stopBegan ∈ (after (stop cfg) s).log := by
  have hframe : LoopFrame false (halted s) (after (stop cfg) s) := (halted_stop_quiet cfg s).1
  obtain ⟨ext, hext⟩ := hframe.appended
  rw [hext.log]
  simp [halted]

theorem stop_attends : Evolves Attends (stop cfg) := fun s => attends_of_stop (stop_begins cfg s)

theorem abort_begins (hp : s.protocol = true) : .stopBegan ∈ (after (abort cfg) s).log := by
  rw [after_abort cfg hp]
  exact stop_begins cfg (lost s)

theorem abort_attends : Evolves Attends (abort cfg) := by
  intro s
  cases hp : s.protocol with
  | true => exact attends_of_stop (abort_begins cfg hp)
  | false =>
    rw [after_error (abort_null cfg hp)]
    exact attends_of_view (List.prefix_append _ _) rfl rfl

theorem dropped_attends : Evolves Attends (do droppingLogInfo cfg; abort cfg) :=
  (connectedCall_attends cfg).bind fun _ => abort_attends cfg

theorem failed_attends (logs : Bool) (e : ErrorCode) : Evolves Attends (failed cfg logs e) := by
  have habort : Evolves Attends (abortWith cfg e) :=
    Evolves.ite (fun _ => abort_attends cfg) (fun _ => evolves_pure ())
  exact Evolves.ite (fun _ => (logWhen_attends cfg logs).bind fun _ => habort) (fun _ => habort)

theorem stopReceiving_attends : Evolves Attends (stopReceiving cfg) :=
  Evolves.bind (evolves_modify fun _ => attends_of_view (List.prefix_append _ _) rfl rfl) fun _ =>
    connectedCall_attends cfg

theorem stopSending_attends : Evolves Attends (stopSending cfg) :=
  Evolves.bind (evolves_modify fun _ => attends_of_view (List.prefix_append _ _) rfl rfl) fun _ =>
    connectedCall_attends cfg

omit cfg in
theorem onInMsg_attends {α : Type} (x : InMessage.InM α) :
    Evolves Attends (onInMsg x : ConnM M α) := by
  intro s
  unfold after onInMsg
  cases hx : x s.inMsg with
  | ok a m => exact attends_of_view List.prefix_rfl rfl rfl
  | error e m => cases e <;> exact attends_of_view List.prefix_rfl rfl rfl

end Attending

section Sending

variable {M : Type} (cfg : Config M) {s : State M}

/-- No write is in flight, as between two writes. -/
def Resting (s : State M) : Prop := .stopBegan ∈ s.log ∨ s.writes = []

theorem Resting.watched (h : Resting s) : WriteWatched s :=
  h.imp_right fun hwrites => ⟨by simp [hwrites], fun _ => hwrites⟩

theorem WriteWatched.resting (h : WriteWatched s) (hq : s.outMsgQueue = []) : Resting s :=
  h.imp_right fun hwatched => hwatched.2 hq

theorem doSend_attends (h : Resting s) (a : AfterSend) : Attends s (after (doSend cfg a) s) := by
  cases hq : s.outMsgQueue with
  | nil =>
    rw [after_error (doSend_empty cfg hq a)]
    have hresting : Resting (timed s) := h
    exact ⟨readKept_of_view List.prefix_rfl rfl, fun _ => hresting.watched⟩
  | cons q rest =>
    have hrun := doSend_run cfg hq a
    have hresting : Resting (encoding (timed s) q.id) :=
      h.imp_left fun hstop => List.mem_append_left _ hstop
    have hencoding : Attends s (encoding (timed s) q.id) :=
      ⟨readKept_of_view (List.prefix_append _ _) rfl, fun _ => hresting.watched⟩
    cases hencode : cfg.encode q.msg with
    | ok msg =>
      rw [hencode, writeEncoded_run cfg hq] at hrun
      have hlaunched : after (doSend cfg a) s = launched s q rest msg a := after_ok hrun
      have hlog : s.log <+: (launched s q rest msg a).log := by
        simp only [launched, List.append_assoc]
        exact List.prefix_append _ _
      rw [hlaunched]
      refine ⟨readKept_of_view hlog rfl, fun _ => ?_⟩
      rcases h with hstop | hwrites
      · exact Or.inl (hlog.subset hstop)
      · refine Or.inr ⟨fun op hop => ?_, fun hempty => by cases hempty⟩
        -- the write that is launched is the only one
        obtain rfl : op = ⟨q.id, a, initialResult s⟩ := by simpa [launched, hwrites] using hop
        exact watched_update _ _
    | error fault =>
      rw [hencode] at hrun
      cases fault with
      | crash =>
        rw [after_error hrun]
        exact hencoding
      | exception =>
        have hdropped := dropped_attends cfg (encoding (timed s) q.id)
        unfold after at hdropped ⊢
        rw [hrun]
        exact hencoding.trans hdropped

theorem doSend_readKept (a : AfterSend) : Evolves ReadKept (doSend cfg a) := by
  refine Evolves.bind (evolves_modify fun _ => readKept_of_view List.prefix_rfl rfl) fun _ =>
    Evolves.bind evolves_get fun s => ?_
  have hrecord (action : Action) : Evolves ReadKept (record action : ConnM M Unit) :=
    Evolves.mono (fun _ _ h => h.toReadKept) (record_attends action)
  match s.outMsgQueue with
  | [] => exact evolves_throw _
  | q :: rest =>
    refine (hrecord _).bind fun _ => ?_
    match cfg.encode q.msg with
    | .error .exception => exact Evolves.mono (fun _ _ h => h.toReadKept) (dropped_attends cfg)
    | .error .crash => exact evolves_throw _
    | .ok msg =>
      exact Evolves.bind (evolves_modify fun _ => readKept_of_view List.prefix_rfl rfl) fun _ =>
        (hrecord _).bind fun _ => evolves_modify fun _ => readKept_of_view List.prefix_rfl rfl

theorem trySendOrEnqueueThen_attends (msg : M) (a : AfterSend) :
    Evolves Attends (trySendOrEnqueueThen cfg msg a) := by
  intro s
  have hrun := trySendOrEnqueueThen_run cfg msg a s
  have henqueued : ReadKept s (enqueued s msg a) :=
    readKept_of_view (List.prefix_append _ _) rfl
  by_cases hw : s.writeClosed = true
  · rw [if_pos hw] at hrun
    rw [after_ok hrun]
    exact refl s
  rw [if_neg hw] at hrun
  by_cases hq : s.outMsgQueue = []
  · rw [if_pos hq] at hrun
    have hafter : after (trySendOrEnqueueThen cfg msg a) s =
        after (doSend cfg a) (enqueued s msg a) := by
      unfold after
      rw [hrun]
    rw [hafter]
    refine ⟨henqueued.trans (doSend_readKept cfg a _), fun hs => ?_⟩
    have hresting : Resting (enqueued s msg a) :=
      (hs.resting hq).imp_left fun hstop => List.mem_append_left _ hstop
    exact (doSend_attends cfg hresting a).writing hresting.watched
  · rw [if_neg hq] at hrun
    rw [after_ok hrun]
    refine ⟨henqueued, fun hs => ?_⟩
    rcases hs with hstop | ⟨hwatched, -⟩
    · exact Or.inl (henqueued.stops hstop)
    · exact Or.inr ⟨hwatched, fun hempty => by simp [enqueued] at hempty⟩

/-- The handler of a write runs after its write was taken out. -/
theorem writeHandler_attends (h : Resting s) (op : WriteOp) (e : ErrorCode) :
    Attends s (after (writeHandler cfg op e) s) := by
  by_cases he : e = .success
  swap
  · rw [writeHandler_error cfg he]
    exact failed_attends cfg _ e s
  subst he
  rcases written_cases cfg op s with ⟨n, hstuck, -⟩ | ⟨n, q, rest, -, hdone⟩
  · rw [hstuck]
    exact attends_of_view (List.prefix_append _ _) rfl rfl
  · have hlog : s.log <+: (popped (calledTo s n) op.id q rest).log := by
      simp only [popped, calledTo, List.append_assoc]
      exact List.prefix_append _ _
    have hresting : Resting (popped (calledTo s n) op.id q rest) :=
      h.imp_left fun hstop => hlog.subset hstop
    have hpopped : Attends s (popped (calledTo s n) op.id q rest) :=
      ⟨readKept_of_view hlog rfl, fun _ => hresting.watched⟩
    rw [hdone]
    refine hpopped.trans ?_
    cases op.afterSend with
    | stop => exact stop_attends cfg _
    | keepSending =>
      cases rest with
      | nil => exact ⟨readKept_of_view List.prefix_rfl rfl, fun _ => Resting.watched hresting⟩
      | cons r more => exact doSend_attends cfg hresting .keepSending

end Sending

section Scripts

variable {M : Type} (cfg : Config M)

theorem attends_rules : ScriptRules cfg (fun _ => True) Attends where
  nullConnection := record_attends .nullConnection
  wrappedRun := record_attends .wrappedRun
  read op _ := onInMsg_attends (op.exec cfg.ndebug)
  log := connectedCall_attends cfg
  stop := stop_attends cfg
  stopReceiving := stopReceiving_attends cfg
  stopSending := stopSending_attends cfg
  send := trySendOrEnqueueThen_attends cfg

theorem sendInMsg_attends (kind : HandlerKind) (script : Script M) :
    Evolves Attends (sendInMsg cfg kind script) := by
  refine Evolves.bind evolves_get fun s => Evolves.ite (fun _ => ?_) (fun _ => ?_)
  · have hcall (s : State M) : Attends s (dispatched s kind) :=
      attends_of_view (List.prefix_append _ _) rfl rfl
    exact Evolves.bind (evolves_modify hcall) fun _ =>
      (attends_rules cfg).script fun _ _ => trivial
  · exact (record_attends .nullCallback).bind fun _ => evolves_throw _

end Scripts

section Receiving

variable {M : Type} (cfg : Config M) {s t : State M}

def Attended (s : State M) : Prop := ReadWatched s ∧ WriteWatched s

/-- No read is outstanding, as between a read and the next one. -/
def BetweenReads (s : State M) : Prop :=
  (.stopBegan ∈ s.log ∨ s.reads = [] ∧ (s.protocol = false → s.started = false)) ∧ WriteWatched s

theorem Attended.keep (h : Attended s) (k : Attends s t) : Attended t :=
  ⟨h.1.kept k.toReadKept, k.writing h.2⟩

theorem BetweenReads.keep (h : BetweenReads s) (k : Attends s t) : BetweenReads t := by
  refine ⟨?_, k.writing h.2⟩
  rcases h.1 with hstop | ⟨hreads, hnull⟩
  · exact Or.inl (k.stops hstop)
  · rcases k.reading with hstop | hsame
    · exact Or.inl hstop
    · simp only [readView, Prod.mk.injEq] at hsame
      obtain ⟨hsameReads, -, -, hprotocol, hstarted⟩ := hsame
      rw [← hsameReads] at hreads
      rw [← hprotocol, ← hstarted] at hnull
      exact Or.inr ⟨hreads, hnull⟩

theorem BetweenReads.attended (h : BetweenReads s) : Attended s :=
  ⟨h.1.imp_right fun hidle => ⟨by simp [hidle.1], hidle.2⟩, h.2⟩

/-- The timer was armed for the read before it was started. -/
theorem BetweenReads.awaiting (h : BetweenReads s) (kind : HandlerKind) (phase : Phase)
    (buffer : InMessage.Buffer) : Attended (awaiting s kind phase buffer) := by
  refine ⟨?_, h.2⟩
  rcases h.1 with hstop | ⟨hidle, hnull⟩
  · exact Or.inl hstop
  · refine Or.inr ⟨fun op hop => ?_, hnull⟩
    obtain rfl : op = ⟨s.nextRead, kind, phase, buffer, initialResult s⟩ := by
      simpa [ReceiveLoop.awaiting, initialResult, hidle] using hop
    exact watched_update _ _

theorem headerRead_attended (h : BetweenReads s) (kind : HandlerKind) :
    Attended (after (headerRead cfg kind) s) := by
  have hrun := headerRead_run cfg s kind
  have hmsg (waits : List Wait) (m : InMessage.Message) :
      BetweenReads (withMsg (rescheduled s waits) m) := h
  cases hparse : InMessage.parseHeaderAndGetBodyBuffer cfg.ndebug s.inMsg with
  | ok buffer m =>
    rw [hparse] at hrun
    have hbefore : BetweenReads (withMsg s m) := h
    rw [after_ok hrun]
    exact hbefore.awaiting kind .body buffer
  | error e m =>
    rw [hparse] at hrun
    have hrest := hmsg (cancelWaits s.readWaits ++ [⟨s.nextRead, none⟩]) m
    cases e with
    | assertion =>
      rw [after_error hrun]
      exact hrest.attended
    | packetException =>
      have hdropped := hrest.keep (dropped_attends cfg _)
      unfold after at hdropped ⊢
      rw [hrun]
      exact hdropped.attended

/-- The timer is cancelled while no read is outstanding, and armed again before the next one. -/
theorem bodyRead_attended (kind : HandlerKind) (script : Script M) :
    Triple BetweenReads (bodyRead cfg kind script) (fun _ => Attended) Attended := by
  have hkeep {α : Type} {x : ConnM M α} (hx : Evolves Attends x) :
      Triple BetweenReads x (fun _ => BetweenReads) Attended :=
    (hx.triple fun _ _ k h => h.keep k).conseq (fun _ h => h) (fun _ _ h => h)
      (fun _ h => h.attended)
  have hcancel : Triple BetweenReads (cancelReadTimer : ConnM M Unit) (fun _ => BetweenReads)
      Attended := triple_modify fun _ h => h
  have hdrop : Triple BetweenReads (do droppingLogInfo cfg; abort cfg : ConnM M Unit)
      (fun _ => Attended) Attended :=
    (hkeep (dropped_attends cfg)).conseq (fun _ h => h) (fun _ _ h => h.attended) (fun _ h => h)
  have hagain : Triple BetweenReads (parseIncomingMessage .subsequent : ConnM M Unit)
      (fun _ => Attended) Attended := fun _ h => h.awaiting .subsequent .header headerBuffer
  refine hcancel.bind fun _ => (hkeep (dvlogInfo_attends cfg)).bind fun _ =>
    Triple.bind (Q := fun _ => BetweenReads) ?_ fun threw =>
      Triple.ite (fun _ => hdrop) (fun _ => ?_)
  · have hsend : Evolves Attends (sendInMsg cfg kind script >>= fun _ => pure false) :=
      (sendInMsg_attends cfg kind script).bind fun _ => evolves_pure _
    refine Triple.tryCatch (hsend.triple fun _ _ k h => h.keep k) fun e => ?_
    cases e with
    | exception => exact fun _ h => h
    | crash => exact (triple_throw _).conseq (fun _ h => h.attended) (fun _ _ h => h) (fun _ h => h)
  · refine Triple.bind triple_get fun r => Triple.ite (fun _ => ?_) (fun _ => ?_)
    · exact hagain.conseq (fun _ h => h.1) (fun _ _ h => h) (fun _ h => h)
    · exact (triple_pure _).conseq (fun _ h => h.1.attended) (fun _ _ h => h) (fun _ h => h)

/-- The handler of a read runs after its read was taken out. -/
theorem readHandler_attended (h : BetweenReads s) (op : ReadOp) (e : ErrorCode)
    (script : Script M) : Attended (after (readHandler cfg op e script) s) := by
  by_cases he : e = .success
  swap
  · rw [readHandler_error cfg he]
    exact (h.keep (failed_attends cfg _ e s)).attended
  subst he
  have hrun := readHandler_success cfg op script s
  by_cases hr : s.readClosed = true
  · rw [if_pos hr] at hrun
    rw [after_ok hrun]
    exact h.attended
  rw [if_neg hr] at hrun
  have hbefore := h.keep (dvlogInfo_attends cfg s)
  rcases dvlogInfo_cases cfg s with ⟨n, hlog⟩ | ⟨n, hlog⟩
  · rw [after_ok hlog] at hbefore
    rw [bind_ok hlog] at hrun
    have hafter : after (readHandler cfg op .success script) s =
        after (received cfg op script) (calledTo s n) := by
      unfold after
      rw [hrun]
    rw [hafter]
    unfold received
    cases op.phase with
    | header => exact headerRead_attended cfg hbefore op.handler
    | body =>
      exact triple_iff_after.mp (bodyRead_attended cfg op.handler script) _ hbefore
  · rw [after_error hlog] at hbefore
    rw [bind_error hlog] at hrun
    rw [after_error hrun]
    exact hbefore.attended

end Receiving

section Runs

variable {M : Type} (cfg : Config M) {s t : State M} {es : List (Event M)}

/-- At most one operation of each kind is outstanding, and its timer is armed for it. -/
structure Covered (s : State M) : Prop where
  oneRead : s.reads.length ≤ 1
  oneWrite : s.writes.length ≤ 1
  reads : ∀ op ∈ s.reads, Watched op.id s.readWaits
  writes : ∀ op ∈ s.writes, Watched op.id s.writeWaits

def Coverage (s : State M) : Prop :=
  s.started = true → .stopBegan ∉ s.log → Covered s

/-- Where the handler of an expiry is all that an outstanding operation has left, its log line, if
compiled in, finds the remote endpoint. -/
def Reports (s : State M) : Event M → Prop
  | .deliverReadWait i => .stopBegan ∉ s.log → s.reads ≠ [] → i + 1 = s.readWaits.length →
      cfg.ndebug = false → answers cfg s = true
  | .deliverWriteWait i => .stopBegan ∉ s.log → s.writes ≠ [] → i + 1 = s.writeWaits.length →
      cfg.ndebug = false → answers cfg s = true
  | _ => True

/-- Before `start` an expired write ends in a crash. -/
def Tended (s : State M) : Prop := s.crashed = true ∧ s.started = false ∨ Attended s

structure Invariant (s : State M) : Prop where
  dispatch : Dispatch.Invariant s
  sending : SendLoop.Invariant (outbox s)
  tended : Tended s

omit cfg in
theorem Attended.finish {x : ConnM M Unit} (h : Attended (after x t)) :
    Tended (Connection.finish x t) := by
  obtain ⟨b, hfinish⟩ := finish_eq x t
  rw [hfinish]
  exact Or.inr h

theorem start_attended (h : BetweenReads (begun s)) : Attended (after (start cfg) s) := by
  have hrun : start cfg s = (dvlogInfo cfg >>= fun _ => parseIncomingMessage .first) (begun s) := rfl
  have hbefore := h.keep (dvlogInfo_attends cfg (begun s))
  rcases dvlogInfo_cases cfg (begun s) with ⟨n, hlog⟩ | ⟨n, hlog⟩
  · rw [after_ok hlog] at hbefore
    rw [bind_ok hlog] at hrun
    rw [after_ok hrun]
    exact hbefore.awaiting .first .header headerBuffer
  · rw [after_error hlog] at hbefore
    rw [bind_error hlog] at hrun
    rw [after_error hrun]
    exact hbefore.attended

/-- An expiry that is reported begins `stop`, or crashes where no protocol was given yet. -/
theorem timerHandler_tended {e : ErrorCode} (ha : Aborts cfg (!cfg.ndebug) t e)
    (hnull : t.protocol = false → t.started = false) :
    Tended (finish (timerHandler cfg e) t) := by
  obtain ⟨n, hrun⟩ := failed_run cfg ha
  rw [← timerHandler_eq] at hrun
  cases hp : t.protocol with
  | true =>
    have hafter : after (timerHandler cfg e) t = after (abort cfg) (calledTo t n) := by
      unfold after
      rw [hrun]
    have hbegun : .stopBegan ∈ (after (abort cfg) (calledTo t n)).log := abort_begins cfg hp
    refine Attended.finish ?_
    rw [hafter]
    exact ⟨Or.inl hbegun, Or.inl hbegun⟩
  | false =>
    rw [abort_null cfg (show (calledTo t n).protocol = false from hp)] at hrun
    refine Or.inl ?_
    unfold finish
    rw [hrun]
    exact ⟨rfl, hnull hp⟩

theorem timerHandler_attended (h : Attended t) (e : ErrorCode) :
    Tended (finish (timerHandler cfg e) t) :=
  Attended.finish (h.keep (failed_attends cfg (!cfg.ndebug) e t))

theorem readWait_tended (h : Attended s) {i : ℕ} {e : ErrorCode}
    {w : ℕ}
    (hw : s.readWaits[i]? = some ⟨w, some e⟩) (hr : Reports cfg s (.deliverReadWait i)) :
    Tended (finish (timerHandler cfg e) { s with readWaits := s.readWaits.eraseIdx i }) := by
  by_cases hstop : .stopBegan ∈ s.log
  · have hkept : Attended { s with readWaits := s.readWaits.eraseIdx i } := ⟨Or.inl hstop, h.2⟩
    exact timerHandler_attended cfg hkept e
  obtain ⟨hwatched, hnull⟩ := h.1.resolve_left hstop
  rcases watched_deliver hwatched hw with herased | ⟨hne, hlast, haborts⟩
  · have hkept : Attended { s with readWaits := s.readWaits.eraseIdx i } :=
      ⟨Or.inr ⟨herased, hnull⟩, h.2⟩
    exact timerHandler_attended cfg hkept e
  · have ha : Aborts cfg (!cfg.ndebug) { s with readWaits := s.readWaits.eraseIdx i } e :=
      ⟨haborts, fun hlogs => hr hstop hne hlast (by simpa using hlogs)⟩
    exact timerHandler_tended cfg ha hnull

theorem writeWait_tended (h : Attended s) {i : ℕ} {e : ErrorCode}
    {w : ℕ}
    (hw : s.writeWaits[i]? = some ⟨w, some e⟩) (hr : Reports cfg s (.deliverWriteWait i)) :
    Tended (finish (timerHandler cfg e) { s with writeWaits := s.writeWaits.eraseIdx i }) := by
  by_cases hstop : .stopBegan ∈ s.log
  · have hkept : Attended { s with writeWaits := s.writeWaits.eraseIdx i } := ⟨h.1, Or.inl hstop⟩
    exact timerHandler_attended cfg hkept e
  obtain ⟨hwatched, hqueue⟩ := h.2.resolve_left hstop
  rcases watched_deliver hwatched hw with herased | ⟨hne, hlast, haborts⟩
  · have hkept : Attended { s with writeWaits := s.writeWaits.eraseIdx i } :=
      ⟨h.1, Or.inr ⟨herased, hqueue⟩⟩
    exact timerHandler_attended cfg hkept e
  · have ha : Aborts cfg (!cfg.ndebug) { s with writeWaits := s.writeWaits.eraseIdx i } e :=
      ⟨haborts, fun hlogs => hr hstop hne hlast (by simpa using hlogs)⟩
    exact timerHandler_tended cfg ha (h.1.resolve_left hstop).2

omit cfg in
theorem eraseIdx_single {α : Type} {l : List α} {i : ℕ} {a : α} (h : l.length ≤ 1)
    (hi : l[i]? = some a) : l.eraseIdx i = [] := by
  have hlt := (List.getElem?_eq_some_iff.mp hi).1
  rw [← List.length_eq_zero_iff, List.length_eraseIdx_of_lt hlt]
  omega

theorem next_tended (h : Invariant s) {e : Event M} (he : Enabled s e) (hr : Reports cfg s e) :
    Tended (next cfg s e) := by
  have hattended : Attended s := by
    rcases h.tended with ⟨hcrashed, -⟩ | hattended
    · rw [he.1] at hcrashed
      cases hcrashed
    · exact hattended
  obtain ⟨hread, hwrite⟩ := hattended
  have hcall {x : ConnM M Unit} (hx : Evolves Attends x) : Tended (finish x s) :=
    Attended.finish (Attended.keep ⟨hread, hwrite⟩ (hx s))
  cases e with
  | start =>
    have hidle : s.reads = [] := (h.dispatch.unstarted he.2).1
    have hbetween : BetweenReads (begun s) := ⟨Or.inr ⟨hidle, fun hnull => by cases hnull⟩, hwrite⟩
    exact Attended.finish (start_attended cfg hbetween)
  | send msg => exact hcall (trySendOrEnqueueThen_attends cfg msg .keepSending)
  | sendAndStop msg => exact hcall (trySendOrEnqueueThen_attends cfg msg .stop)
  | stop => exact hcall (stop_attends cfg)
  | stopReceiving => exact hcall (stopReceiving_attends cfg)
  | stopSending => exact hcall (stopSending_attends cfg)
  | wrapped script => exact hcall ((attends_rules cfg).wrapped fun _ _ => trivial)
  | peerDisconnected => exact Or.inr ⟨hread, hwrite⟩
  | completeRead i e data =>
    obtain ⟨op, hop, -, hnext⟩ := completeRead_next cfg he
    have hwatched : .stopBegan ∈ s.log ∨
        (∀ new ∈ s.reads.set i { op with result := some e }, Watched new.id s.readWaits) ∧
          (s.protocol = false → s.started = false) :=
      hread.imp_right fun hwatched => ⟨watched_set hwatched.1 hop rfl, hwatched.2⟩
    rw [hnext, readCompleted]
    split
    · exact Or.inr ⟨hwatched, hwrite⟩
    · exact Or.inr ⟨hwatched, hwrite⟩
  | completeWrite i e =>
    obtain ⟨op, hop, hnext⟩ := completeWrite_next cfg he
    have hne : s.writes ≠ [] := List.ne_nil_of_mem (List.mem_of_getElem? hop)
    rw [hnext]
    refine Or.inr ⟨hread, hwrite.imp_right fun hwatched => ⟨watched_set hwatched.1 hop rfl, ?_⟩⟩
    exact fun hq => absurd (hwatched.2 hq) hne
  | expireRead i e =>
    obtain ⟨-, hw, hne⟩ := he
    refine Or.inr ⟨hread.imp_right fun hwatched => ⟨?_, hwatched.2⟩, hwrite⟩
    exact fun op hop => (hwatched.1 op hop).expire hw hne
  | expireWrite i e =>
    obtain ⟨-, hw, hne⟩ := he
    refine Or.inr ⟨hread, hwrite.imp_right fun hwatched => ⟨?_, hwatched.2⟩⟩
    exact fun op hop => (hwatched.1 op hop).expire hw hne
  | deliverRead i script =>
    obtain ⟨op, e, hop, -, hnext⟩ := deliverRead_next cfg he
    have hidle : s.reads.eraseIdx i = [] := eraseIdx_single h.dispatch.oneRead hop
    have hbetween : BetweenReads { s with reads := s.reads.eraseIdx i } :=
      ⟨hread.imp_right fun hwatched => ⟨hidle, hwatched.2⟩, hwrite⟩
    rw [hnext]
    exact Attended.finish (readHandler_attended cfg hbetween op e script)
  | deliverWrite i =>
    obtain ⟨op, e, hop, -, hnext⟩ := deliverWrite_next cfg he
    have hidle : s.writes.eraseIdx i = [] :=
      eraseIdx_single (atFront_of_invariant h.sending).1 hop
    have hresting : Resting { s with writes := s.writes.eraseIdx i } := Or.inr hidle
    have hlanded : Attended { s with writes := s.writes.eraseIdx i } := ⟨hread, hresting.watched⟩
    rw [hnext]
    exact Attended.finish (hlanded.keep (writeHandler_attends cfg hresting op e))
  | deliverReadWait i =>
    obtain ⟨w, e, hw, hnext⟩ := deliverReadWait_next cfg he
    rw [hnext]
    exact readWait_tended cfg ⟨hread, hwrite⟩ hw hr
  | deliverWriteWait i =>
    obtain ⟨w, e, hw, hnext⟩ := deliverWriteWait_next cfg he
    rw [hnext]
    exact writeWait_tended cfg ⟨hread, hwrite⟩ hw hr

theorem next_invariant (h : Invariant s) {e : Event M} (he : Enabled s e) (hr : Reports cfg s e) :
    Invariant (next cfg s e) := by
  have hsends : Sends false s (next cfg s e) := next_sends cfg he (by simp)
  exact ⟨Dispatch.next_invariant cfg h.dispatch he,
    SendLoop.steps_preserve_invariant h.sending hsends, next_tended cfg h he hr⟩

omit cfg in
theorem Invariant.coverage (h : Invariant s) : Coverage s := by
  intro hstarted hstop
  obtain ⟨hread, hwrite⟩ : Attended s := by
    rcases h.tended with ⟨-, hunstarted⟩ | hattended
    · rw [hstarted] at hunstarted
      cases hunstarted
    · exact hattended
  refine ⟨h.dispatch.oneRead, (atFront_of_invariant h.sending).1, ?_, ?_⟩
  · exact (hread.resolve_left hstop).1
  · exact (hwrite.resolve_left hstop).1

omit cfg in
theorem initial_invariant (uninitialised : ByteMemory.Memory) :
    Invariant (initial uninitialised : State M) := by
  refine ⟨Dispatch.initial_invariant uninitialised, SendLoop.empty_invariant, Or.inr ⟨?_, ?_⟩⟩
  · exact Or.inr ⟨by simp [initial], fun _ => rfl⟩
  · exact Or.inr ⟨by simp [initial], fun _ => rfl⟩

theorem run_invariant {uninitialised : ByteMemory.Memory}
    (h : Run ((system cfg).restrict (Reports cfg)) (initial uninitialised) es s) : Invariant s := by
  refine h.invariant ?_ (initial_invariant uninitialised)
  rintro t e hi ⟨he, hr⟩
  exact next_invariant cfg hi he hr

/-- Without log lines that are compiled in, every reachable state is covered. -/
theorem release_coverage (hndebug : cfg.ndebug = true) (h : Reachable cfg es s) :
    Coverage s := by
  obtain ⟨uninitialised, hrun⟩ := h
  have hreports (t : State M) (e : Event M) : Reports cfg t e := by
    cases e with
    | deliverReadWait i =>
      intro _ _ _ hdebug
      rw [hndebug] at hdebug
      cases hdebug
    | deliverWriteWait i =>
      intro _ _ _ hdebug
      rw [hndebug] at hdebug
      cases hdebug
    | _ => trivial
  have hinvariant : Invariant s :=
    hrun.invariant (fun t e hi he => next_invariant cfg hi he (hreports t e))
      (initial_invariant uninitialised)
  exact hinvariant.coverage

variable {cfg}

/-- In every run in which the handlers of expiries reach `abort`, a started connection on which
`stop` has not begun has a timeout for each outstanding operation. -/
theorem timeout_coverage {uninitialised : ByteMemory.Memory}
    (h : Run ((system cfg).restrict (Reports cfg)) (initial uninitialised) es s) :
    Coverage s := (run_invariant cfg h).coverage

/-- A debug build; the socket calls succeed while the peer is connected. -/
def debugConfig : Config ℕ where
  encode m := .ok m
  sys _ := true
  ndebug := false
  vlog := false

def debugRun (es : List (Event ℕ)) : State ℕ :=
  runTrace (system debugConfig) (initial fun _ => 0) es

instance (s : State M) (e : Event M) : Decidable (Reports cfg s e) :=
  match e with
  | .deliverReadWait i => inferInstanceAs (Decidable (.stopBegan ∉ s.log → s.reads ≠ [] →
      i + 1 = s.readWaits.length → cfg.ndebug = false → answers cfg s = true))
  | .deliverWriteWait i => inferInstanceAs (Decidable (.stopBegan ∉ s.log → s.writes ≠ [] →
      i + 1 = s.writeWaits.length → cfg.ndebug = false → answers cfg s = true))
  | .start | .send _ | .sendAndStop _ | .stop | .stopReceiving | .stopSending | .wrapped _
  | .peerDisconnected | .completeRead .. | .completeWrite .. | .expireRead .. | .expireWrite ..
  | .deliverRead .. | .deliverWrite _ => isTrue trivial

instance (s : State M) (e : Event M) :
    Decidable (((system cfg).restrict (Reports cfg)).Enabled s e) :=
  inferInstanceAs (Decidable (Enabled s e ∧ Reports cfg s e))

/-- A read and a write are outstanding; the timer of the read has expired. -/
def expiredRead : List (Event ℕ) := [.start, .send 10, .expireRead 0 .success]

theorem timeout_coverage_expired_read :
    Coverage (debugRun expiredRead) ∧ (debugRun expiredRead).reads ≠ [] ∧
      (debugRun expiredRead).writes ≠ [] ∧ .stopBegan ∉ (debugRun expiredRead).log := by
  have hvalid : ValidTrace ((system debugConfig).restrict (Reports debugConfig))
      (initial fun _ => 0) expiredRead := by decide
  exact ⟨timeout_coverage (valid_trace_run hvalid), by decide, by decide, by decide⟩

/-- The peer is gone when the expiry is delivered. -/
def lostExpiry : List (Event ℕ) :=
  [.start, .peerDisconnected, .expireRead 0 .success, .deliverReadWait 0]

/-- The log line throws before `abort`, and the read is left without a wait. -/
theorem lost_expiry_uncovers_read :
    Reachable debugConfig lostExpiry (debugRun lostExpiry) ∧
      (debugRun lostExpiry).readWaits = [] ∧ ¬ Coverage (debugRun lostExpiry) := by
  have hvalid : ValidTrace (system debugConfig) (initial fun _ => 0) lostExpiry := by decide
  refine ⟨⟨_, valid_trace_run hvalid⟩, by decide, ?_⟩
  intro h
  obtain ⟨op, hop⟩ : ∃ op, op ∈ (debugRun lostExpiry).reads := List.exists_mem_of_ne_nil _ (by decide)
  obtain ⟨front, r, hwaits, -⟩ := (h (by decide) (by decide)).reads op hop
  have hempty : (debugRun lostExpiry).readWaits = [] := by decide
  rw [hempty] at hwaits
  simp at hwaits

end Runs

end TimeoutCoverage
