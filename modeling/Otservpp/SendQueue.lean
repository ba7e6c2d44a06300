import Mathlib.Data.List.InsertIdx
import Otservpp.SendLoop

/-! # The connection refines the send loop

Every handler, script and call of a connection is a sequence of steps of the abstract send
loop, so what holds in every state of that loop holds in every state of a connection. -/
namespace SendQueue

open Connection Lifecycle ProgramLogic SendLoop EventSystem

section Refinement

variable {M : Type} (cfg : Config M)

def outbox (s : State M) : Outbox where
  queue := s.outMsgQueue.map (·.id)
  nextId := s.nextId
  flight := s.writes.map writeKey
  log := s.log

/-- From `s` to `t` the send loop made steps. -/
def Sends (lines : Bool) (s t : State M) : Prop := Steps lines (outbox s) (outbox t)

variable {lines : Bool}

instance : IsPreorder (State M) (Sends lines) where
  refl _ := .refl
  trans _ _ _ := .trans

variable {s t : State M}

theorem sends_of_frame (h : SendFrame s t) : Sends lines s t := by
  obtain ⟨ext, hlog, hext⟩ := h.noSend
  have hstep : Step lines (outbox s) ((outbox s).append ext) := .quiet ext hext
  have houtbox : outbox t = (outbox s).append ext := by
    simp only [outbox, Outbox.append, h.outMsgQueue, h.nextId, h.writes, hlog]
  exact .single (houtbox ▸ hstep)

theorem sends_of_quiet {aborts : Bool} (h : Quiet aborts s t) : Sends lines s t :=
  sends_of_frame h.2

/-- The state in which `encode` of the front of the queue is called. -/
def encoding (s : State M) (i : ℕ) : State M := { s with log := s.log ++ [.encode i] }

/-- The state in which `doSend` has started the write. -/
def launched (s : State M) (q : Queued M) (rest : List (Queued M)) (msg : M) (a : AfterSend) :
    State M :=
  { s with
    writeWaits := cancelWaits s.writeWaits ++ [⟨q.id, none⟩]
    outMsgQueue := ⟨q.id, msg⟩ :: rest
    writes := s.writes ++ [⟨q.id, a, initialResult s⟩]
    log := s.log ++ [.encode q.id] ++ [.writeStarted q.id] }

def timed (s : State M) : State M :=
  { s with writeWaits := cancelWaits s.writeWaits ++ [⟨frontId s, none⟩] }

private theorem doSend_eq (a : AfterSend) (s : State M) :
    doSend cfg a s = (match s.outMsgQueue with
      | [] => throw .crash
      | q :: rest => do
        record (.encode q.id)
        writeEncoded cfg q rest a (cfg.encode q.msg) : ConnM M Unit) (timed s) := rfl

theorem doSend_run {q : Queued M} {rest : List (Queued M)} (hq : s.outMsgQueue = q :: rest)
    (a : AfterSend) :
    doSend cfg a s =
      writeEncoded cfg q rest a (cfg.encode q.msg) (encoding (timed s) q.id) := by
  rw [doSend_eq, hq]
  rfl

theorem doSend_empty (hq : s.outMsgQueue = []) (a : AfterSend) :
    doSend cfg a s = .error .crash (timed s) := by
  rw [doSend_eq, hq]
  rfl

/-- The timer was armed for the write that is started. -/
theorem writeEncoded_run {q : Queued M} {rest : List (Queued M)} (hq : s.outMsgQueue = q :: rest)
    (a : AfterSend) (msg : M) :
    writeEncoded cfg q rest a (.ok msg) (encoding (timed s) q.id) =
      .ok () (launched s q rest msg a) := by
  have hfront : frontId s = q.id := by simp [frontId, hq]
  rw [timed, hfront]
  rfl

/-- `abort` is reached from `doSend` only where `encode` can throw. -/
theorem doSend_cases {q : Queued M} {rest : List (Queued M)} (hq : s.outMsgQueue = q :: rest)
    (a : AfterSend) {aborts : Bool}
    (hthrow : aborts = false → ∀ m, cfg.encode m ≠ .error .exception) :
    (∃ msg, after (doSend cfg a) s = launched s q rest msg a) ∨
      Quiet aborts (encoding s q.id) (after (doSend cfg a) s) := by
  have htimed : Quiet aborts (encoding s q.id) (encoding (timed s) q.id) := Quiet.of_eq rfl rfl
  have hrun := doSend_run cfg hq a
  cases hencode : cfg.encode q.msg with
  | ok msg =>
    rw [hencode, writeEncoded_run cfg hq] at hrun
    exact Or.inl ⟨msg, after_ok hrun⟩
  | error fault =>
    rw [hencode] at hrun
    right
    cases fault with
    | crash =>
      rw [after_error hrun]
      exact htimed
    | exception =>
      cases aborts with
      | false => exact absurd hencode (hthrow rfl q.msg)
      | true =>
        have hfailed := dropped_quiet cfg (encoding (timed s) q.id)
        unfold after at hfailed ⊢
        rw [hrun]
        exact htimed.trans hfailed

/-- The state after the message is put into the queue. -/
def enqueued (s : State M) (msg : M) (a : AfterSend) : State M :=
  { s with
    outMsgQueue := s.outMsgQueue ++ [⟨s.nextId, msg⟩]
    nextId := s.nextId + 1
    log := s.log ++ [.accepted s.nextId a (inFlight s)] }

theorem outbox_enqueued (s : State M) (msg : M) (a : AfterSend) :
    outbox (enqueued s msg a) = (outbox s).accept a := by
  simp only [outbox, enqueued, Outbox.accept, inFlight, List.map_append, List.head?_map,
    Option.map_map, List.map_cons, List.map_nil]
  rfl

theorem trySendOrEnqueueThen_run (msg : M) (a : AfterSend) (s : State M) :
    trySendOrEnqueueThen cfg msg a s =
      if s.writeClosed = true then .ok () s
      else if s.outMsgQueue = [] then doSend cfg a (enqueued s msg a)
      else .ok () (enqueued s msg a) := by
  change (if isSendind s = true then _ else _ : ConnM M Unit) s = _
  cases hw : s.writeClosed with
  | true => rw [if_neg (by simp [isSendind, hw]), if_pos rfl]; rfl
  | false =>
    rw [if_pos (by simp [isSendind, hw]), if_neg Bool.false_ne_true]
    change (if s.outMsgQueue.isEmpty = true then doSend cfg a else pure () : ConnM M Unit)
      (enqueued s msg a) = _
    cases hq : s.outMsgQueue with
    | nil => rfl
    | cons q rest => rfl

theorem outbox_launched (s : State M) (q : Queued M) (rest : List (Queued M)) (msg : M)
    (a : AfterSend) (hq : s.outMsgQueue = q :: rest) :
    outbox (launched s q rest msg a) = (outbox s).launch true q.id a := by
  simp only [outbox, launched, Outbox.launch, hq, List.map_append, List.map_cons, List.map_nil,
    List.append_assoc, if_true]
  rfl

/-- Whatever `doSend` does, it is the launch of the front, followed by a teardown if the message
could not be encoded. -/
theorem doSend_launch {q : Queued M} {rest : List (Queued M)} (hq : s.outMsgQueue = q :: rest)
    (a : AfterSend) :
    ∃ encoded, Steps lines ((outbox s).launch encoded q.id a) (outbox (after (doSend cfg a) s)) := by
  rcases doSend_cases cfg hq a (show true = false → _ by simp) with ⟨msg, hsent⟩ | hquiet
  · rw [hsent, outbox_launched s q rest msg a hq]
    exact ⟨true, .refl⟩
  · exact ⟨false, sends_of_quiet hquiet⟩

theorem trySendOrEnqueueThen_sends (msg : M) (a : AfterSend) :
    Evolves (Sends lines) (trySendOrEnqueueThen cfg msg a) := by
  intro s
  have hrun := trySendOrEnqueueThen_run cfg msg a s
  by_cases hw : s.writeClosed = true
  · rw [if_pos hw] at hrun
    rw [after_ok hrun]
    exact refl s
  rw [if_neg hw] at hrun
  by_cases hq : s.outMsgQueue = []
  · rw [if_pos hq] at hrun
    have hqueue : (enqueued s msg a).outMsgQueue = [⟨s.nextId, msg⟩] := by simp [enqueued, hq]
    obtain ⟨encoded, hsteps⟩ := doSend_launch cfg hqueue a
    rw [outbox_enqueued] at hsteps
    have hsubmit : Step lines (outbox s) (((outbox s).accept a).launch encoded s.nextId a) :=
      .submit a encoded (by simp [outbox, hq])
    have hafter : after (trySendOrEnqueueThen cfg msg a) s = after (doSend cfg a) (enqueued s msg a) := by
      unfold after
      rw [hrun]
    rw [hafter]
    exact Relation.ReflTransGen.head hsubmit hsteps
  · rw [if_neg hq] at hrun
    rw [after_ok hrun]
    have henqueue : Step lines (outbox s) ((outbox s).accept a) := .enqueue a (by simpa [outbox] using hq)
    exact .single (outbox_enqueued s msg a ▸ henqueue)

end Refinement

section Completion

variable {M : Type} (cfg : Config M) {lines : Bool} {s : State M} {k : ℕ} {op : WriteOp}

/-- The state in which the handler of the `k`-th write runs. -/
def landed (s : State M) (k : ℕ) : State M := { s with writes := s.writes.eraseIdx k }

theorem outbox_landed (s : State M) (k : ℕ) : outbox (landed s k) = (outbox s).land k := by
  simp only [outbox, landed, Outbox.land, List.eraseIdx_map]

theorem flight_of_write (h : s.writes[k]? = some op) :
    (outbox s).flight[k]? = some (op.id, op.afterSend) := by
  simp only [outbox, List.getElem?_map, h]
  rfl

def calledTo (s : State M) (n : ℕ) : State M := { s with sysCalls := n }

def written (s : State M) (i : ℕ) : State M := { s with log := s.log ++ [.written i] }

/-- The log line of a completion, if it is compiled in and switched on, finds the remote endpoint. -/
def LineWritten (s : State M) : Prop := cfg.ndebug = false → cfg.vlog = true → answers cfg s = true

theorem dvlogInfo_written (h : LineWritten cfg s) : ∃ n, dvlogInfo cfg s = .ok () (calledTo s n) := by
  unfold dvlogInfo
  split
  · next hlogs =>
    simp only [Bool.and_eq_true, Bool.not_eq_true'] at hlogs
    rw [logInfo_run, if_pos (h hlogs.1 hlogs.2)]
    exact ⟨_, rfl⟩
  · exact ⟨s.sysCalls, rfl⟩

/-- The log line of a completion changes nothing that a loop depends on. -/
theorem dvlogInfo_cases (s : State M) :
    (∃ n, dvlogInfo cfg s = .ok () (calledTo s n)) ∨
      ∃ n, dvlogInfo cfg s = .error .exception (calledTo s n) := by
  unfold dvlogInfo
  split
  · rw [logInfo_run]
    split
    · exact Or.inl ⟨_, rfl⟩
    · exact Or.inr ⟨_, rfl⟩
  · exact Or.inl ⟨s.sysCalls, rfl⟩

/-- The state after the written message is removed. -/
def popped (s : State M) (i : ℕ) (q : Queued M) (rest : List (Queued M)) : State M :=
  { s with outMsgQueue := rest, log := s.log ++ [.written i] ++ [.popped q.id] }

theorem outbox_popped (s : State M) (i : ℕ) (q : Queued M) (rest : List (Queued M)) :
    outbox (popped s i q rest) = (outbox s).pop i q.id (rest.map (·.id)) := by
  simp only [outbox, popped, Outbox.pop, List.append_assoc]
  rfl

theorem popFront_nil (h : s.outMsgQueue = []) : popFront s = .error .crash s := by
  change (match s.outMsgQueue with
    | [] => throw .crash
    | q :: rest => _ : ConnM M Unit) s = _
  rw [h]
  rfl

theorem popFront_cons {q : Queued M} {rest : List (Queued M)} (h : s.outMsgQueue = q :: rest) :
    popFront s = .ok () { s with outMsgQueue := rest, log := s.log ++ [.popped q.id] } := by
  change (match s.outMsgQueue with
    | [] => throw .crash
    | q :: rest => modify fun s => { s with
        outMsgQueue := rest, log := s.log ++ [.popped q.id] } : ConnM M Unit) s = _
  rw [h]
  rfl

/-- The handler of a successful write ends at its log line, finds an empty queue, or removes the
message and goes on with the continuation of the write. -/
theorem written_cases (op : WriteOp) (s : State M) :
    (∃ n, after (writeHandler cfg op .success) s = calledTo (written s op.id) n ∧
      (LineWritten cfg s → s.outMsgQueue = [])) ∨
    ∃ n q rest, s.outMsgQueue = q :: rest ∧ after (writeHandler cfg op .success) s =
      after (afterSendAction cfg op.afterSend) (popped (calledTo s n) op.id q rest) := by
  have hrun : writeHandler cfg op .success s =
      (dvlogInfo cfg >>= fun _ => popFront >>= fun _ => afterSendAction cfg op.afterSend)
        (written s op.id) := rfl
  rcases dvlogInfo_cases cfg (written s op.id) with ⟨n, hlog⟩ | ⟨n, hlog⟩
  · rw [bind_ok hlog] at hrun
    by_cases hq : s.outMsgQueue = []
    · rw [bind_error (popFront_nil (s := calledTo (written s op.id) n) hq)] at hrun
      exact Or.inl ⟨n, after_error hrun, fun _ => hq⟩
    · obtain ⟨q, rest, hcons⟩ := List.exists_cons_of_ne_nil hq
      rw [bind_ok (popFront_cons (s := calledTo (written s op.id) n) hcons)] at hrun
      refine Or.inr ⟨n, q, rest, hcons, ?_⟩
      unfold after
      rw [hrun]
      rfl
  · rw [bind_error hlog] at hrun
    refine Or.inl ⟨n, after_error hrun, fun hline => ?_⟩
    obtain ⟨m, hok⟩ := dvlogInfo_written cfg (s := written s op.id) hline
    rw [hok] at hlog
    cases hlog

theorem finished_stop_sends (h : s.writes[k]? = some op) (ha : op.afterSend = .stop)
    {q : Queued M} {rest : List (Queued M)} (hq : s.outMsgQueue = q :: rest) :
    Sends lines s (after (stop cfg) (popped (landed s k) op.id q rest)) := by
  have hstep : Step lines (outbox s)
      ((((outbox s).land k).pop op.id q.id (rest.map (·.id))).append [.stopBegan]) :=
    .finishedStop (ha ▸ flight_of_write h) (by simp [outbox, hq])
  have houtbox : outbox (halted (popped (landed s k) op.id q rest)) =
      (((outbox s).land k).pop op.id q.id (rest.map (·.id))).append [.stopBegan] := by
    rw [← outbox_landed, ← outbox_popped]
    rfl
  have hquiet : Quiet false (halted (popped (landed s k) op.id q rest)) _ :=
    halted_stop_quiet cfg (popped (landed s k) op.id q rest)
  exact Relation.ReflTransGen.head (houtbox ▸ hstep) (sends_of_quiet hquiet)

theorem finished_send_sends (h : s.writes[k]? = some op) (ha : op.afterSend = .keepSending)
    {q : Queued M} {rest : List (Queued M)} (hq : s.outMsgQueue = q :: rest) :
    Sends lines s (after (keepSending cfg) (popped (landed s k) op.id q rest)) := by
  have hrun : keepSending cfg (popped (landed s k) op.id q rest) =
      (if rest.isEmpty = true then cancelWriteTimer else doSend cfg .keepSending : ConnM M Unit)
        (popped (landed s k) op.id q rest) := rfl
  have hflight := ha ▸ flight_of_write h
  cases rest with
  | nil =>
    have hstep : Step lines (outbox s) (((outbox s).land k).pop op.id q.id []) :=
      .finishedIdle hflight (by simp [outbox, hq])
    rw [after_ok hrun]
    refine .single ?_
    rw [← outbox_landed] at hstep
    exact outbox_popped (landed s k) op.id q [] ▸ hstep
  | cons r more =>
    have hafter : after (keepSending cfg) (popped (landed s k) op.id q (r :: more)) =
        after (doSend cfg .keepSending) (popped (landed s k) op.id q (r :: more)) := rfl
    obtain ⟨encoded, hsteps⟩ := doSend_launch cfg
      (show (popped (landed s k) op.id q (r :: more)).outMsgQueue = r :: more from rfl) .keepSending
    have hstep : Step lines (outbox s) ((((outbox s).land k).pop op.id q.id
        (r.id :: more.map (·.id))).launch encoded r.id .keepSending) :=
      .finishedNext encoded hflight (by simp [outbox, hq])
    rw [outbox_popped, outbox_landed] at hsteps
    rw [hafter]
    exact Relation.ReflTransGen.head hstep hsteps

theorem writeHandler_sends (h : s.writes[k]? = some op) (e : ErrorCode)
    (hlines : lines = true → op.afterSend = .stop → e = .success →
      LineWritten cfg s ∧ s.outMsgQueue ≠ []) :
    Sends lines s (after (writeHandler cfg op e) (landed s k)) := by
  have hflight := flight_of_write h
  by_cases he : e = .success
  · subst he
    rcases written_cases cfg op (landed s k) with ⟨n, hstuck, hempty⟩ | ⟨n, q, rest, hq, hdone⟩
    · have hkeeps : lines = true → op.afterSend = .keepSending := by
        intro htrue
        cases ha : op.afterSend with
        | keepSending => rfl
        | stop =>
          obtain ⟨hline, hqueue⟩ := hlines htrue ha rfl
          exact absurd (hempty hline) hqueue
      have hstep : Step lines (outbox s) (((outbox s).land k).append [.written op.id]) :=
        .written hflight hkeeps
      rw [hstuck]
      rw [← outbox_landed] at hstep
      exact .single hstep
    · rw [hdone]
      cases ha : op.afterSend with
      | stop =>
        have hcalled : (calledTo s n).writes[k]? = some op := h
        exact finished_stop_sends cfg hcalled ha hq
      | keepSending =>
        have hcalled : (calledTo s n).writes[k]? = some op := h
        exact finished_send_sends cfg hcalled ha hq
  · have hfailed : Evolves (Quiet true) (writeHandler cfg op e) := by
      rw [writeHandler_error cfg he]
      exact failed_quiet cfg _ e
    have hstep : Step lines (outbox s) ((outbox s).land k) := .landed hflight
    rw [← outbox_landed] at hstep
    exact Relation.ReflTransGen.head hstep (sends_of_quiet (hfailed (landed s k)))

end Completion

section Runs

variable {M : Type} (cfg : Config M) {lines : Bool}

theorem reads_sends (s : State M) (ops : List ReadOp) (n : ℕ) :
    Sends lines s { s with reads := ops, nextRead := n } :=
  sends_of_frame (SendFrame.of_eq rfl)

theorem start_sends : Evolves (Sends lines) (start cfg) := by
  have hlog : Evolves (Sends lines) (dvlogInfo cfg) :=
    Evolves.mono (fun _ _ h => sends_of_frame (SendFrame.of_eq h.2)) (dvlogInfo_silent cfg)
  refine Evolves.bind (evolves_modify fun s => ?_) fun _ => hlog.bind fun _ => ?_
  · exact sends_of_frame (SendFrame.of_eq rfl)
  · exact parseIncomingMessage_evolves (fun _ _ => sends_of_quiet) reads_sends .first

/-- Where the handler of a write runs that `stop` is to follow, its line is written. -/
def Logged (s : State M) : Event M → Prop
  | .deliverWrite i => ∀ op ∈ s.writes[i]?, op.afterSend = .stop → op.result = some .success →
      LineWritten cfg s
  | _ => True

theorem next_sends {s : State M} {e : Event M} (he : Enabled s e)
    (hlines : lines = true → Logged cfg s e ∧ SendLoop.Invariant (outbox s)) :
    Sends lines s (next cfg s e) := by
  by_cases hstart : e = .start
  · subst hstart
    obtain ⟨b, hfinish⟩ := finish_eq (start cfg) s
    rw [next, hfinish]
    exact start_sends cfg s
  · refine next_evolves cfg (fun _ _ => sends_of_quiet) reads_sends ?_ ?_
      (trySendOrEnqueueThen_sends cfg) he hstart ?_
    · intro s calls kind
      exact sends_of_frame (SendFrame.append [.callback kind] (by simp [isSend]) rfl)
    · intro s
      exact sends_of_frame (SendFrame.append [.nullCallback] (by simp [isSend]) rfl)
    · rintro i op r rfl hop hresult
      refine writeHandler_sends cfg hop r ?_
      rintro htrue hstop rfl
      obtain ⟨hlogged, hinvariant⟩ := hlines htrue
      obtain ⟨rest, hfront, -⟩ := hinvariant.landing (flight_of_write hop)
      refine ⟨hlogged op hop hstop hresult, ?_⟩
      intro hempty
      simp [outbox, hempty] at hfront

/-- A run of a connection is a run of the send loop. -/
theorem run_sends {s t : State M} {es : List (Event M)} (h : Run (system cfg) s es t) :
    Sends false s t := by
  induction h with
  | refl => exact .refl
  | tail _ he ih => exact ih.trans (next_sends cfg he (by simp))

variable {cfg}

theorem reachable_sends {s : State M} {es : List (Event M)} (h : Reachable cfg es s) :
    Steps false empty (outbox s) := by
  obtain ⟨uninitialised, hrun⟩ := h
  exact run_sends cfg hrun

/-- The same where the lines before `stop` are written. -/
theorem logged_sends {uninitialised : ByteMemory.Memory} {s : State M} {es : List (Event M)}
    (h : Run ((system cfg).restrict (Logged cfg)) (initial uninitialised) es s) :
    Steps true empty (outbox s) := by
  induction h with
  | refl => exact .refl
  | tail _ he ih =>
    have hinvariant := steps_preserve_invariant empty_invariant ih
    exact ih.trans (next_sends cfg he.1 fun _ => ⟨he.2, hinvariant⟩)

end Runs

section Safety

variable {M : Type} {cfg : Config M} {es : List (Event M)} {s : State M}

/-- At most one write is in flight, for the front of the queue. Its message was encoded once,
right before. The writes were started in the order of acceptance, without gaps. -/
structure SendSafe (s : State M) : Prop where
  oneWrite : s.writes.length ≤ 1
  atFront : ∀ w ∈ s.writes, ∃ q rest, s.outMsgQueue = q :: rest ∧ w.id = q.id
  encodedBefore : EncodedBefore s.log
  encodedOnce : ∀ i, .writeStarted i ∈ s.log → s.log.count (.encode i) = 1
  inOrder : startedIds s.log <+: acceptedIds s.log
  distinct : (acceptedIds s.log).Nodup

theorem atFront_of_invariant (h : Invariant (outbox s)) :
    s.writes.length ≤ 1 ∧ ∀ w ∈ s.writes, ∃ q rest, s.outMsgQueue = q :: rest ∧ w.id = q.id := by
  rcases h.flight with hnone | ⟨i, ids, a, hqueue, hflight, -⟩
  · have hempty : s.writes = [] := List.map_eq_nil_iff.mp hnone
    simp [hempty]
  · obtain ⟨w, hw, hkey⟩ : ∃ w, s.writes = [w] ∧ writeKey w = (i, a) := by
      simpa [outbox, List.map_eq_singleton_iff] using hflight
    obtain ⟨q, rest, hcons, hid, -⟩ := List.map_eq_cons_iff.mp hqueue
    refine ⟨by simp [hw], ?_⟩
    intro v hv
    rw [hw] at hv
    obtain rfl := List.mem_singleton.mp hv
    exact ⟨q, rest, hcons, (congrArg Prod.fst hkey).trans hid.symm⟩

/-- The send queue is safe in every run, for every order of calls, completions, expiries and
stops, whatever the socket answers and the protocol does. -/
theorem send_queue_safe (h : Reachable cfg es s) : SendSafe s := by
  have hinv : Invariant (outbox s) := steps_preserve_invariant empty_invariant (reachable_sends h)
  obtain ⟨hone, hfront⟩ := atFront_of_invariant hinv
  refine ⟨hone, hfront, hinv.encodedBefore, fun i hi => hinv.encoded_once hi, hinv.started_prefix, ?_⟩
  rw [show acceptedIds s.log = List.range s.nextId from hinv.accepted]
  exact List.nodup_range

/-- Messages that encode to themselves on a socket that never fails. -/
def plainConfig : Config ℕ where
  encode m := .ok m
  sys _ := true
  ndebug := true
  vlog := false

def plainRun (es : List (Event ℕ)) : State ℕ :=
  runTrace (system plainConfig) (initial fun _ => 0) es

def twoSends : List (Event ℕ) :=
  [.start, .send 10, .send 20, .completeWrite 0 .success, .deliverWrite 0]

theorem send_queue_safe_two_sends :
    SendSafe (plainRun twoSends) ∧ startedIds (plainRun twoSends).log = [0, 1] := by
  have hvalid : ValidTrace (system plainConfig) (initial fun _ => 0) twoSends := by decide
  exact ⟨send_queue_safe ⟨_, valid_trace_run hvalid⟩, by decide⟩

instance (s : State M) (e : Event M) : Decidable (Logged cfg s e) :=
  match e with
  | .deliverWrite i => inferInstanceAs (Decidable (∀ op ∈ s.writes[i]?, op.afterSend = .stop →
      op.result = some .success → cfg.ndebug = false → cfg.vlog = true → answers cfg s = true))
  | .start | .send _ | .sendAndStop _ | .stop | .stopReceiving | .stopSending | .wrapped _
  | .peerDisconnected | .completeRead .. | .completeWrite .. | .expireRead .. | .expireWrite ..
  | .deliverRead .. | .deliverReadWait _ | .deliverWriteWait _ => isTrue trivial

instance (s : State M) (e : Event M) :
    Decidable (((system cfg).restrict (Logged cfg)).Enabled s e) :=
  inferInstanceAs (Decidable (Enabled s e ∧ Logged cfg s e))

/-- In every run in which no `sendAndStop` is behind a `send` in flight and the lines before `stop`
are written, `stop` begins once such a message is written. -/
theorem sendAndStop_stops {uninitialised : ByteMemory.Memory}
    (h : Run ((system cfg).restrict (Logged cfg)) (initial uninitialised) es s)
    (hcalls : NoneBehindSend s.log) : StopsAfter s.log := by
  have hsteps := logged_sends h
  exact (steps_preserve_stopInvariant empty_stopInvariant empty_invariant hsteps hcalls).stops

/-- A debug build with verbose logging. -/
def verboseConfig : Config ℕ := { plainConfig with ndebug := false, vlog := true }

def verboseRun (es : List (Event ℕ)) : State ℕ :=
  runTrace (system verboseConfig) (initial fun _ => 0) es

def lastSend : List (Event ℕ) :=
  [.start, .send 10, .completeWrite 0 .success, .deliverWrite 0, .sendAndStop 20, .send 30,
    .completeWrite 0 .success, .deliverWrite 0]

theorem sendAndStop_stops_after_idle :
    StopsAfter (verboseRun lastSend).log ∧ .written 1 ∈ (verboseRun lastSend).log := by
  have hvalid : ValidTrace ((system verboseConfig).restrict (Logged verboseConfig))
      (initial fun _ => 0) lastSend := by decide
  have hcalls : NoneBehindSend (verboseRun lastSend).log := by
    intro i hi
    have hlog : (verboseRun lastSend).log =
        [.accepted 0 .keepSending none, .encode 0, .writeStarted 0, .written 0, .popped 0,
          .accepted 1 .stop none, .encode 1, .writeStarted 1,
          .accepted 2 .keepSending (some .stop), .written 1, .popped 1, .stopBegan, .stopped] := by
      decide
    simp [hlog] at hi
  exact ⟨sendAndStop_stops (valid_trace_run hvalid) hcalls, by decide⟩

def stopBehindSend : List (Event ℕ) :=
  [.start, .send 10, .sendAndStop 20, .send 30, .completeWrite 0 .success, .deliverWrite 0,
    .completeWrite 0 .success, .deliverWrite 0]

/-- The continuation of `sendAndStop` is dropped when the queue is not empty: its message is
written and the next one follows. -/
theorem sendAndStop_behind_send_keeps_sending :
    Reachable plainConfig stopBehindSend (plainRun stopBehindSend) ∧
      ¬ StopsAfter (plainRun stopBehindSend).log := by
  have hvalid : ValidTrace (system plainConfig) (initial fun _ => 0) stopBehindSend := by decide
  refine ⟨⟨_, valid_trace_run hvalid⟩, ?_⟩
  intro h
  have hlog : (plainRun stopBehindSend).log =
      [.accepted 0 .keepSending none, .encode 0, .writeStarted 0,
        .accepted 1 .stop (some .keepSending), .accepted 2 .keepSending (some .keepSending),
        .written 0, .popped 0, .encode 1, .writeStarted 1] ++
      .written 1 :: [.popped 1, .encode 2, .writeStarted 2] := by
    decide
  exact (h _ 1 _ hlog ⟨some .keepSending, by simp⟩).2

def lostLine : List (Event ℕ) :=
  [.start, .sendAndStop 10, .completeWrite 0 .success, .peerDisconnected, .deliverWrite 0]

/-- Where the line of the completion throws, `stop` is never reached. -/
theorem unlogged_sendAndStop_never_stops :
    Reachable verboseConfig lostLine (verboseRun lostLine) ∧
      NoneBehindSend (verboseRun lostLine).log ∧ ¬ StopsAfter (verboseRun lostLine).log := by
  have hvalid : ValidTrace (system verboseConfig) (initial fun _ => 0) lostLine := by decide
  have hlog : (verboseRun lostLine).log =
      [.accepted 0 .stop none, .encode 0, .writeStarted 0] ++ .written 0 :: [] := by decide
  refine ⟨⟨_, valid_trace_run hvalid⟩, ?_, ?_⟩
  · intro i hi
    simp [hlog] at hi
  · intro h
    have hstop := (h _ 0 _ hlog ⟨none, by simp⟩).1
    cases hstop

end Safety

end SendQueue
