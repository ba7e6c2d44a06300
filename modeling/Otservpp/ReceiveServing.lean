import Otservpp.ReceiveFraming

/-! # Streams that are served to their end

On a connection whose peer answers, the stream of frames is served as far as the cursor is where
the next header is. A header that is parsed elsewhere gives a wrong call or none. -/
namespace ReceiveServing

open ByteMemory Connection InMessage Lifecycle ProgramLogic SendQueue EventSystem ReceiveLoop
  ReceiveFraming

section Serving

variable {M : Type} {cfg : Config M} {s : State M}

/-- The connection is alive and its peer answers. -/
structure Serving (s : State M) : Prop where
  attached : s.attached = true
  protocol : s.protocol = true
  readClosed : s.readClosed = false
  crashed : s.crashed = false
  peer : s.peer = ⟨true, true⟩

def liveView (s : State M) := (s.attached, s.protocol, s.readClosed, s.crashed, s.peer)

theorem Serving.of_eq {t : State M} (h : Serving s) (k : liveView t = liveView s) : Serving t := by
  simp only [liveView, Prod.mk.injEq] at k
  obtain ⟨hattached, hprotocol, hclosed, hcrashed, hpeer⟩ := k
  exact ⟨hattached.trans h.attached, hprotocol.trans h.protocol, hclosed.trans h.readClosed,
    hcrashed.trans h.crashed, hpeer.trans h.peer⟩

variable (hsys : ∀ n, cfg.sys n = true)
include hsys

theorem dvlogInfo_serving (h : Serving s) : ∃ n, dvlogInfo cfg s = .ok () (calledTo s n) := by
  have hanswers : answers cfg s = true := by simp [answers, h.peer, hsys]
  have hlog := (logInfo_run cfg s).trans (if_pos hanswers)
  unfold dvlogInfo
  split
  · exact ⟨_, hlog⟩
  · exact ⟨s.sysCalls, rfl⟩

omit hsys in
theorem send_serving (h : Serving s) {msg : M} (hencode : ∃ encoded, cfg.encode msg = .ok encoded) :
    ∃ t, (Act.send msg).exec cfg s = .ok () t ∧ Serving t := by
  obtain ⟨encoded, hencode⟩ := hencode
  have hvia : (Act.send msg).exec cfg s = trySendOrEnqueueThen cfg msg .keepSending s := by
    change (if s.attached = true then _ else _ : ConnM M Unit) s = _
    rw [if_pos h.attached]
    rfl
  rw [hvia, trySendOrEnqueueThen_run]
  split_ifs with hw hq
  · exact ⟨s, rfl, h⟩
  · have hqueue : (enqueued s msg .keepSending).outMsgQueue = [⟨s.nextId, msg⟩] := by
      simp [enqueued, hq]
    rw [doSend_run cfg hqueue, hencode]
    exact ⟨_, rfl, h.of_eq rfl⟩
  · exact ⟨_, rfl, h.of_eq rfl⟩

omit hsys in
/-- A reading handler runs to its end unless an assertion fails. -/
theorem runActs_serving {acts : List (Act M)} (hacts : ∀ act ∈ acts, Reading cfg act)
    (h : Serving s) : match leave cfg acts s.inMsg with
      | some _ => ∃ t, runActs cfg acts s = .ok () t ∧ Serving t
      | none => ∃ t, runActs cfg acts s = .error .crash t := by
  induction acts generalizing s with
  | nil => exact ⟨s, rfl, h⟩
  | cons act acts ih =>
    have hrest {t : State M} (ht : Serving t) := ih (fun a ha => hacts a (List.mem_cons_of_mem _ ha)) ht
    cases act with
    | read op =>
      have hcaught := caught_read cfg op s
      have hmsg (m : Message) : Serving { s with inMsg := m } := h.of_eq rfl
      rw [leave, runActs]
      cases hop : op.exec cfg.ndebug s.inMsg with
      | ok bytes m =>
        rw [hop] at hcaught
        rw [bind_ok hcaught]
        exact hrest (hmsg m)
      | error e m =>
        rw [hop] at hcaught
        cases e with
        | packetException =>
          rw [bind_ok hcaught]
          exact hrest (hmsg m)
        | assertion =>
          rw [bind_error hcaught]
          exact ⟨_, rfl⟩
    | send msg =>
      obtain ⟨t, hsend, ht⟩ := send_serving h (hacts _ List.mem_cons_self)
      have hcaught : catchException ((Act.send msg).exec cfg) (pure ()) s = .ok () t := by
        rw [catchException, tryCatch_run, hsend]
      have hkept := (untouched_rules cfg).act (show ∀ op, Act.send msg ≠ .read op by simp) s
      rw [after_ok hsend] at hkept
      rw [leave, runActs, bind_ok hcaught, ← hkept.inMsg]
      · exact hrest ht
      · simp
    | sendAndStop msg => exact (hacts _ List.mem_cons_self).elim
    | stop => exact (hacts _ List.mem_cons_self).elim
    | stopReceiving => exact (hacts _ List.mem_cons_self).elim
    | stopSending => exact (hacts _ List.mem_cons_self).elim

theorem readHandler_serving (h : Serving s) (op : ReadOp)
    (script : Script M) : ∃ n, readHandler cfg op .success script s =
      received cfg op script (calledTo s n) := by
  obtain ⟨n, hlog⟩ := dvlogInfo_serving hsys h
  have hrun := readHandler_success cfg op script s
  rw [if_neg (by simp [h.readClosed]), bind_ok hlog] at hrun
  exact ⟨n, hrun⟩

end Serving

section Serve

variable {M : Type} {cfg : Config M} {frames : List (Frame cfg)} {s : State M} {op : ReadOp}

/-- The state in which the handler of a completed read runs. -/
def filled (s : State M) (op : ReadOp) (data : List UInt8) : State M :=
  { s with
    reads := []
    inMsg := FrameReads.fill op.buffer data s.inMsg
    consumed := s.consumed + data.length }

def served (frames : List (Frame cfg)) (s : State M) (op : ReadOp) (data : List UInt8) : State M :=
  finish (readHandler cfg { op with result := some .success } .success
    (handlerAt frames s.calls.length)) (filled s op data)

theorem serve_eq (hreads : s.reads = [op]) (fuel : ℕ) :
    serve frames (fuel + 1) s =
      if s.crashed = false ∧ op.result = none ∧
          op.buffer.size ≤ (unread frames s).length then
        serve frames fuel (served frames s op ((unread frames s).take op.buffer.size))
      else s := by
  have hcomplete (data : List UInt8) : next cfg s (.completeRead 0 .success data) =
      readCompleted s 0 op .success data := by simp [next, hreads]
  have hdeliver (data : List UInt8) : next cfg (readCompleted s 0 op .success data)
      (.deliverRead 0 (handlerAt frames s.calls.length)) = served frames s op data := by
    simp [next, readCompleted, hreads, served, filled]
  rw [serve, hreads]
  simp only [hcomplete, hdeliver]

theorem serve_nil (h : s.reads = []) (fuel : ℕ) : serve frames fuel s = s := by
  cases fuel with
  | zero => rfl
  | succ fuel => rw [serve, h]

theorem serve_crashed (h : s.crashed = true) (fuel : ℕ) : serve frames fuel s = s := by
  cases fuel with
  | zero => rfl
  | succ fuel =>
    rw [serve]
    split
    · rw [if_neg (by simp [h])]
    · rfl

theorem serve_step {data more : List UInt8} (hreads : s.reads = [op]) (hcrashed : s.crashed = false)
    (hresult : op.result = none) (hdata : unread frames s = data ++ more)
    (hlength : data.length = op.buffer.size) (fuel : ℕ) :
    serve frames (fuel + 1) s = serve frames fuel (served frames s op data) := by
  have hsize : op.buffer.size ≤ (unread frames s).length := by
    rw [hdata, List.length_append]
    omega
  rw [serve_eq hreads, if_pos ⟨hcrashed, hresult, hsize⟩, hdata, ← hlength, List.take_left]

theorem serve_run (frames : List (Frame cfg)) (fuel : ℕ) (s : State M) :
    ∃ es, Run (framed cfg frames) s es (serve frames fuel s) := by
  induction fuel generalizing s with
  | zero => exact ⟨[], .refl⟩
  | succ fuel ih =>
    rw [serve]
    split
    · next op hreads =>
      split_ifs with hready
      · obtain ⟨hcrashed, hresult, hsize⟩ := hready
        let data := (unread frames s).take op.buffer.size
        have hnext : next cfg s (.completeRead 0 .success data) = readCompleted s 0 op .success data := by
          simp [next, hreads]
        have hcomplete : (framed cfg frames).Enabled s (.completeRead 0 .success data) :=
          ⟨⟨hcrashed, op, by simp [hreads], hresult, fun _ => List.length_take_of_le hsize⟩,
            List.take_prefix _ _⟩
        have hdeliver : (framed cfg frames).Enabled (next cfg s (.completeRead 0 .success data))
            (.deliverRead 0 (handlerAt frames s.calls.length)) := by
          rw [hnext]
          refine ⟨⟨hcrashed, { op with result := some .success }, ?_, rfl⟩, rfl⟩
          simp [readCompleted, hreads]
        obtain ⟨es, hrest⟩ := ih _
        exact ⟨_, ((Run.tail .refl hcomplete).tail hdeliver).trans hrest⟩
      · exact ⟨[], .refl⟩
    · exact ⟨[], .refl⟩

variable {done rest : List (Frame cfg)} {m : Message}

/-- The connection is alive and asks for the header after the frames that are done. -/
structure Waiting (done : List (Frame cfg)) (m : Message) (s : State M) : Prop extends Serving s where
  reads : ∃ id kind, s.reads = [⟨id, kind, .header, headerBuffer, none⟩]
  consumed : s.consumed = (stream done).length
  calls : s.calls.length = done.length
  inMsg : s.inMsg = m

theorem Waiting.unread (h : Waiting done m s) (rest : List (Frame cfg)) :
    unread (done ++ rest) s = stream rest := by
  have hdrop := drop_stream done rest 0
  rwa [Nat.add_zero, ← h.consumed] at hdrop

theorem awaiting_reads (h : Serving s) (hreads : s.reads = []) (kind : HandlerKind) (phase : Phase)
    (buffer : Buffer) :
    (awaiting s kind phase buffer).reads = [⟨s.nextRead, kind, phase, buffer, none⟩] := by
  simp [awaiting, initialResult, hreads, h.peer]

variable (hsys : ∀ n, cfg.sys n = true)
include hsys

theorem serve_header {f : Frame cfg} (h : Waiting done m s) (hm : Rewound m) (fuel : ℕ) :
    ∃ t id kind, serve (done ++ f :: rest) (fuel + 1) s = serve (done ++ f :: rest) fuel t ∧
      Serving t ∧ t.reads = [⟨id, kind, .body, ⟨2, f.body.length⟩, none⟩] ∧
      t.consumed = (stream done).length + 2 ∧ t.calls = s.calls ∧ t.inMsg = opened m f.body := by
  obtain ⟨id, kind, hreads⟩ := h.reads
  have hdata := h.unread (f :: rest)
  rw [stream_cons] at hdata
  have hstep := serve_step hreads h.crashed rfl hdata (length_encodeLE 2 _) fuel
  let u : State M := filled s ⟨id, kind, .header, headerBuffer, none⟩ (encodeLE 2 f.body.length)
  have hu : Serving u := h.toServing.of_eq rfl
  obtain ⟨n, hrun⟩ := readHandler_serving hsys hu ⟨id, kind, .header, headerBuffer, some .success⟩
    (handlerAt (done ++ f :: rest) s.calls.length)
  have hmsg : (calledTo u n).inMsg = headed m f.body := by
    rw [← fill_header, ← h.inMsg]
    rfl
  rw [received_header, headerRead_run, hmsg, parse_headed hm f] at hrun
  let v : State M := withMsg (calledTo u n) (opened m f.body)
  have hv : Serving v := h.toServing.of_eq rfl
  have hserved : served (done ++ f :: rest) s ⟨id, kind, .header, headerBuffer, none⟩
      (encodeLE 2 f.body.length) = awaiting v kind .body ⟨2, f.body.length⟩ := by
    unfold served finish
    rw [hrun]
  rw [hserved] at hstep
  refine ⟨_, _, kind, hstep, hv.of_eq rfl, awaiting_reads hv rfl _ _ _, ?_, rfl, rfl⟩
  change s.consumed + _ = _
  rw [h.consumed, length_encodeLE]

/-- The body of the next frame goes to its handler, which begins in the state `w`. -/
theorem body_arrives {f : Frame cfg} {id : ℕ} {kind : HandlerKind} (rest : List (Frame cfg)) (h : Serving s)
    (hcalls : s.calls.length = done.length) (hmsg : s.inMsg = opened m f.body) :
    ∃ c w : State M, served (done ++ f :: rest) s ⟨id, kind, .body, ⟨2, f.body.length⟩, none⟩ f.body =
        finish (bodyRead cfg kind ⟨f.handler, false⟩) c ∧
      bodyRead cfg kind ⟨f.handler, false⟩ c = resumed cfg (runActs cfg f.handler w) ∧
      Serving w ∧ w.inMsg = arrived m f.body ∧ w.calls.length = done.length + 1 ∧
      w.consumed = s.consumed + f.body.length ∧ w.reads = [] := by
  let u : State M := filled s ⟨id, kind, .body, ⟨2, f.body.length⟩, none⟩ f.body
  have hu : Serving u := h.of_eq rfl
  obtain ⟨n, hrun⟩ := readHandler_serving hsys hu ⟨id, kind, .body, ⟨2, f.body.length⟩, some .success⟩
    ⟨f.handler, false⟩
  let v : State M := rescheduled (calledTo u n) (cancelWaits u.readWaits)
  have hv : Serving v := h.of_eq rfl
  obtain ⟨k, hlog⟩ := dvlogInfo_serving hsys hv
  let w : State M := dispatched (calledTo v k) kind
  have hwmsg : w.inMsg = arrived m f.body := by
    rw [← fill_body, ← hmsg]
    rfl
  have hbody : bodyRead cfg kind ⟨f.handler, false⟩ (calledTo u n) =
      resumed cfg (runActs cfg f.handler w) := bodyRead_run cfg kind f.handler hlog hv.protocol
  have hserved : served (done ++ f :: rest) s ⟨id, kind, .body, ⟨2, f.body.length⟩, none⟩ f.body =
      finish (bodyRead cfg kind ⟨f.handler, false⟩) (calledTo u n) := by
    unfold served finish
    rw [hcalls, handlerAt_next, hrun, received_body]
  have hwcalls : w.calls.length = done.length + 1 := by
    rw [← hcalls]
    exact List.length_append
  exact ⟨_, w, hserved, hbody, h.of_eq rfl, hwmsg, hwcalls, rfl, rfl⟩

/-- The next header is asked for unless the handler of the body crashes. -/
theorem serve_body {f : Frame cfg} {id : ℕ} {kind : HandlerKind} (h : Serving s)
    (hreads : s.reads = [⟨id, kind, .body, ⟨2, f.body.length⟩, none⟩])
    (hconsumed : s.consumed = (stream done).length + 2) (hcalls : s.calls.length = done.length)
    (hmsg : s.inMsg = opened m f.body) (fuel : ℕ) :
    ∃ t, serve (done ++ f :: rest) (fuel + 1) s = serve (done ++ f :: rest) fuel t ∧
      t.calls.length = done.length + 1 ∧
      match leave cfg f.handler (arrived m f.body) with
      | some m' => Waiting (done ++ [f]) m' t
      | none => t.crashed = true := by
  have hdata : unread (done ++ f :: rest) s = f.body ++ stream rest := by
    rw [unread, hconsumed, drop_stream, stream_cons, List.drop_left' (length_encodeLE 2 _)]
  have hstep := serve_step hreads h.crashed rfl hdata rfl fuel
  obtain ⟨c, w, hserved, hbody, hw, hwmsg, hwcalls, hwconsumed, hwreads⟩ :=
    body_arrives hsys rest h hcalls hmsg
  rw [hserved] at hstep
  refine ⟨_, hstep, ?_⟩
  have hleft := runActs_left cfg f.reading w
  have hlast := runActs_serving f.reading hw
  rw [hwmsg] at hlast
  cases hleave : leave cfg f.handler (arrived m f.body) with
  | some m' =>
    rw [hleave] at hlast
    obtain ⟨t, hacts, ht⟩ := hlast
    rw [hacts] at hbody hleft
    obtain ⟨hkept, hsome⟩ := hleft
    have hlength : t.calls.length = done.length + 1 := by rw [hkept.calls, hwcalls]
    rw [hwmsg, hleave] at hsome
    have hfinish : finish (bodyRead cfg kind ⟨f.handler, false⟩) c =
        awaiting t .subsequent .header headerBuffer := by
      unfold finish
      rw [hbody, resumed]
      simp [ht.readClosed]
    rw [hfinish]
    refine ⟨hlength, ht.of_eq rfl, ?_, ?_, ?_, (Option.some.inj hsome).symm⟩
    · exact ⟨_, .subsequent, awaiting_reads ht (kept_reads_nil hwreads hkept) _ _ _⟩
    · change t.consumed = _
      rw [hkept.consumed, hwconsumed, hconsumed, stream_append]
      simp [stream, length_bytes, Nat.add_assoc]
    · rw [List.length_append]
      exact hlength
  | none =>
    rw [hleave] at hlast
    obtain ⟨t, hacts⟩ := hlast
    rw [hacts] at hbody hleft
    have hlength : t.calls.length = done.length + 1 := by rw [hleft.1.calls, hwcalls]
    have hfinish : finish (bodyRead cfg kind ⟨f.handler, false⟩) c = { t with crashed := true } := by
      unfold finish
      rw [hbody, resumed]
    rw [hfinish]
    exact ⟨hlength, rfl⟩

theorem serve_frame (h : Waiting done m s) (hm : Rewound m) (f : Frame cfg)
    (rest : List (Frame cfg)) (fuel : ℕ) :
    ∃ t, serve (done ++ f :: rest) (fuel + 2) s = serve (done ++ f :: rest) fuel t ∧
      t.calls.length = done.length + 1 ∧
      match leave cfg f.handler (arrived m f.body) with
      | some m' => Waiting (done ++ [f]) m' t
      | none => t.crashed = true := by
  obtain ⟨t, id, kind, hheader, ht, hreads, hconsumed, hcalls, hmsg⟩ := serve_header hsys h hm (fuel + 1)
  obtain ⟨u, hbody, hu⟩ := serve_body hsys ht hreads hconsumed (hcalls ▸ h.calls) hmsg fuel
  exact ⟨u, hheader.trans hbody, hu⟩

omit hsys in
theorem serve_done (h : Waiting done m s) (fuel : ℕ) : serve (done ++ []) fuel s = s := by
  cases fuel with
  | zero => rfl
  | succ fuel =>
    obtain ⟨id, kind, hreads⟩ := h.reads
    rw [serve_eq hreads, h.unread [], if_neg]
    rintro ⟨-, -, hsize⟩
    cases hsize

theorem serve_all (h : Waiting done m s) (hm : rest ≠ [] → Rewound m) (hrewinds : Rewinds m rest)
    {fuel : ℕ} (hfuel : 2 * rest.length ≤ fuel) :
    (serve (done ++ rest) fuel s).calls.length = (done ++ rest).length := by
  induction rest generalizing done m s fuel with
  | nil =>
    rw [serve_done h, h.calls, List.append_nil]
  | cons f rest ih =>
    obtain ⟨fuel, rfl⟩ : ∃ k, fuel = k + 2 := ⟨fuel - 2, by rw [List.length_cons] at hfuel; omega⟩
    have henough : 2 * rest.length ≤ fuel := by
      rw [List.length_cons] at hfuel
      omega
    obtain ⟨t, hserve, hcount, ht⟩ := serve_frame hsys h (hm (by simp)) f rest fuel
    rw [hserve]
    cases hleave : leave cfg f.handler (arrived m f.body) with
    | some m' =>
      rw [hleave] at ht
      obtain ⟨hrewound, hrest⟩ := hrewinds.next hleave
      have hlater := ih ht hrewound hrest henough
      rwa [List.append_assoc] at hlater
    | none =>
      rw [hleave] at ht
      rw [serve_crashed ht, hcount]
      cases rest with
      | nil => simp
      | cons g rest =>
        obtain ⟨m', hsome, -⟩ := hrewinds
        rw [hleave] at hsome
        cases hsome

end Serve

section Necessity

variable {M : Type} {cfg : Config M} {frames done rest : List (Frame cfg)} {s : State M} {op : ReadOp}
  {m : Message}

theorem leave_cursor {M : Type} {cfg : Config M} {acts : List (Act M)} {m m' : Message}
    (h : leave cfg acts m = some m') (hm : m.pos < 2 ^ 32) : m'.pos < 2 ^ 32 := by
  induction acts generalizing m with
  | nil =>
    obtain rfl := Option.some.inj h
    exact hm
  | cons act acts ih =>
    cases act with
    | read op =>
      have hop := FrameReads.exec_cursor cfg.ndebug op m hm
      rw [leave] at h
      unfold after at hop
      cases hexec : op.exec cfg.ndebug m with
      | ok bytes t =>
        rw [hexec] at h hop
        exact ih h hop
      | error e t =>
        rw [hexec] at h hop
        cases e with
        | packetException => exact ih h hop
        | assertion => cases h
    | _ => exact ih h hm

theorem handlerAt_reading (frames : List (Frame cfg)) (k : ℕ) :
    ∃ acts, handlerAt frames k = ⟨acts, false⟩ ∧ ∀ act ∈ acts, Reading cfg act := by
  refine ⟨(frames.map Frame.handler).getD k [], rfl, ?_⟩
  rw [List.getD_eq_getElem?_getD, List.getElem?_map]
  cases frames[k]? with
  | none => simp
  | some f => exact f.reading

theorem header_outcome {id : ℕ} {kind : HandlerKind} {buffer : Buffer}
    {result : Option ErrorCode} {script : Script M} {t : State M} (hreads : s.reads = [])
    (ht : after (readHandler cfg ⟨id, kind, .header, buffer, result⟩ .success script) s = t) :
    t.calls = s.calls ∧ (t.reads = [] ∨ ∃ bodyBuffer new,
      parseHeaderAndGetBodyBuffer cfg.ndebug s.inMsg = .ok bodyBuffer t.inMsg ∧
        t.reads = [new] ∧ new.phase = .body) := by
  have hended {u : State M} (hu : Kept s u) : u.calls = s.calls ∧ u.reads = [] :=
    ⟨hu.calls, kept_reads_nil hreads hu⟩
  rcases readHandler_cases cfg ⟨id, kind, .header, buffer, result⟩ script s with hsame | ⟨u, hu, hafter⟩
  · obtain ⟨hcalls, hnone⟩ := hended (ht ▸ hsame.toKept)
    exact ⟨hcalls, Or.inl hnone⟩
  obtain ⟨hcalls, hnone⟩ := hended hu.toKept
  rw [ht, received_header] at hafter
  cases hparse : parseHeaderAndGetBodyBuffer cfg.ndebug u.inMsg with
  | error e m' =>
    obtain ⟨hcalls, hnone⟩ := hended (hu.toKept.trans (headerRead_error cfg hparse))
    exact ⟨hafter ▸ hcalls, Or.inl (hafter ▸ hnone)⟩
  | ok bodyBuffer m' =>
    have hrun := headerRead_run cfg u kind
    rw [hparse] at hrun
    rw [hafter, after_ok hrun]
    rw [hu.inMsg] at hparse
    refine ⟨hcalls, Or.inr ⟨bodyBuffer, ⟨u.nextRead, kind, .body, bodyBuffer, initialResult u⟩, hparse, ?_, rfl⟩⟩
    change u.reads ++ _ = _
    rw [hnone]
    rfl

theorem body_outcome {id : ℕ} {kind : HandlerKind} {buffer : Buffer}
    {result : Option ErrorCode} {acts : List (Act M)} (hacts : ∀ act ∈ acts, Reading cfg act) {t : State M} (hreads : s.reads = [])
    (ht : after (readHandler cfg ⟨id, kind, .body, buffer, result⟩ .success ⟨acts, false⟩) s = t) :
    t.calls = s.calls ∧ t.reads = [] ∨ ∃ consumed, t.calls = s.calls ++ [⟨consumed, s.inMsg⟩] := by
  have hended {u : State M} (hu : Untouched s u) : u.calls = s.calls ∧ u.reads = [] :=
    ⟨hu.calls, kept_reads_nil hreads hu.toKept⟩
  rcases readHandler_cases cfg ⟨id, kind, .body, buffer, result⟩ ⟨acts, false⟩ s with hsame | ⟨u, hu, hafter⟩
  · exact Or.inl (hended (ht ▸ hsame))
  rw [ht, received_body] at hafter
  rcases bodyRead_cases cfg hacts u with hsame | ⟨v, hv, hcall⟩
  · exact Or.inl (hended (hafter ▸ hu.trans hsame))
  have hsv := hu.trans hv
  have hnew : (dispatched v kind).calls = s.calls ++ [⟨v.consumed, s.inMsg⟩] := by
    rw [← hsv.calls, ← hsv.inMsg]
    rfl
  right
  refine ⟨v.consumed, ?_⟩
  rcases hcall with hend | ⟨w, hw, -, hnext⟩
  · rw [hafter]
    exact hend.calls.trans hnew
  · rw [hafter]
    refine (congrArg State.calls hnext).trans ?_
    exact hw.calls.trans hnew

theorem served_eq (frames : List (Frame cfg)) (s : State M) (op : ReadOp) (data : List UInt8) :
    ∃ b, served frames s op data = { after (readHandler cfg { op with result := some .success }
      .success (handlerAt frames s.calls.length)) (filled s op data) with crashed := b } :=
  finish_eq _ _

theorem served_header (frames : List (Frame cfg)) (s : State M) (hphase : op.phase = .header) (data : List UInt8) :
    (served frames s op data).calls = s.calls ∧ ((served frames s op data).reads = [] ∨
      ∃ bodyBuffer new, parseHeaderAndGetBodyBuffer cfg.ndebug (filled s op data).inMsg =
          .ok bodyBuffer (served frames s op data).inMsg ∧
        (served frames s op data).reads = [new] ∧ new.phase = .body) := by
  obtain ⟨b, hserved⟩ := served_eq frames s op data
  obtain ⟨id, kind, phase, buffer, result⟩ := op
  obtain rfl : phase = .header := hphase
  rw [hserved]
  exact header_outcome rfl rfl

theorem served_body (frames : List (Frame cfg)) (s : State M) (hphase : op.phase = .body) (data : List UInt8) :
    (served frames s op data).calls = s.calls ∧ (served frames s op data).reads = [] ∨
      ∃ call, call.msg.pos = s.inMsg.pos ∧ (served frames s op data).calls = s.calls ++ [call] := by
  obtain ⟨b, hserved⟩ := served_eq frames s op data
  obtain ⟨acts, hscript, hacts⟩ := handlerAt_reading frames s.calls.length
  obtain ⟨id, kind, phase, buffer, result⟩ := op
  obtain rfl : phase = .body := hphase
  rw [hserved, hscript]
  generalize ht : after (readHandler cfg _ _ _) _ = t
  rcases body_outcome hacts rfl ht with hended | ⟨consumed, hcalls⟩
  · exact Or.inl hended
  · exact Or.inr ⟨_, rfl, hcalls⟩

theorem served_grows (frames : List (Frame cfg)) (s : State M) (op : ReadOp) (data : List UInt8) :
    s.calls <+: (served frames s op data).calls := by
  cases hphase : op.phase with
  | header =>
    exact (served_header frames s hphase data).1 ▸ List.prefix_rfl
  | body =>
    rcases served_body frames s hphase data with ⟨hcalls, -⟩ | ⟨call, -, hcalls⟩
    · exact hcalls ▸ List.prefix_rfl
    · exact hcalls ▸ List.prefix_append _ _

theorem serve_grows (frames : List (Frame cfg)) (fuel : ℕ) (s : State M) :
    s.calls <+: (serve frames fuel s).calls := by
  induction fuel generalizing s with
  | zero => exact List.prefix_rfl
  | succ fuel ih =>
    by_cases hone : ∃ op, s.reads = [op]
    · obtain ⟨op, hreads⟩ := hone
      rw [serve_eq hreads]
      split_ifs
      · exact (served_grows frames s op _).trans (ih _)
      · exact List.prefix_rfl
    · rw [serve]
      split
      · next op hreads => exact absurd ⟨op, hreads⟩ hone
      · exact List.prefix_rfl

/-- A header that parses leaves the cursor behind it only if it was found at the start. -/
theorem rewound_of_parse {bodyBuffer : Buffer} {m' : Message} {body : List UInt8}
    (hcursor : m.pos < 2 ^ 32)
    (h : parseHeaderAndGetBodyBuffer cfg.ndebug (headed m body) = .ok bodyBuffer m')
    (hpos : m'.pos = 2) : Rewound m := by
  obtain ⟨hmoved, hsize⟩ := FrameReads.parse_cursor (m := headed m body) hcursor h
  change m'.pos = u32 (m.pos + 2) at hmoved
  change u32 (m.pos + 2) ≤ m.size at hsize
  rw [← hmoved, hpos] at hsize
  refine ⟨?_, hsize⟩
  rw [hpos, u32] at hmoved
  omega

/-- A body that is read with the cursor elsewhere makes a wrong call, or none and ends the loop. -/
theorem serve_misplaced (hreads : s.reads = [op]) (hphase : op.phase = .body)
    (hcalls : s.calls.length = done.length) (hpos : s.inMsg.pos ≠ 2) {fuel : ℕ}
    (horder : InOrder 0 (done ++ rest) (serve (done ++ rest) fuel s).calls) :
    (serve (done ++ rest) fuel s).calls.length = done.length := by
  cases fuel with
  | zero => exact hcalls
  | succ fuel =>
    rw [serve_eq hreads] at horder ⊢
    split_ifs at horder ⊢
    · rcases served_body (done ++ rest) s hphase ((unread (done ++ rest) s).take op.buffer.size) with
        ⟨hsame, hnone⟩ | ⟨call, hcall, hnew⟩
      · rw [serve_nil hnone, hsame, hcalls]
      · obtain ⟨more, hmore⟩ := serve_grows (done ++ rest) fuel
          (served (done ++ rest) s op ((unread (done ++ rest) s).take op.buffer.size))
        rw [← hmore, hnew, List.append_assoc] at horder
        exact absurd (hcall.symm.trans (horder.cursor hcalls)) hpos
    · exact hcalls

/-- A frame whose header is not found at the cursor gets no call in order. -/
theorem serve_lost {g : Frame cfg} (h : Waiting done m s) (hcursor : m.pos < 2 ^ 32)
    (hm : ¬ Rewound m) {fuel : ℕ}
    (horder : InOrder 0 (done ++ g :: rest) (serve (done ++ g :: rest) fuel s).calls) :
    (serve (done ++ g :: rest) fuel s).calls.length = done.length := by
  cases fuel with
  | zero => exact h.calls
  | succ fuel =>
    obtain ⟨id, kind, hreads⟩ := h.reads
    have hdata := h.unread (g :: rest)
    rw [stream_cons] at hdata
    rw [serve_step hreads h.crashed rfl hdata (length_encodeLE 2 _)] at horder ⊢
    have hheaded : (filled s ⟨id, kind, .header, headerBuffer, none⟩ (encodeLE 2 g.body.length)).inMsg =
        headed m g.body := by
      rw [← fill_header, ← h.inMsg]
      rfl
    have hphase : ReadOp.phase ⟨id, kind, .header, headerBuffer, none⟩ = .header := rfl
    obtain ⟨hcalls, hended⟩ := served_header (done ++ g :: rest) s hphase (encodeLE 2 g.body.length)
    rcases hended with hnone | ⟨bodyBuffer, new, hparse, hnew, hphase⟩
    · rw [serve_nil hnone, hcalls, h.calls]
    · rw [hheaded] at hparse
      refine serve_misplaced hnew hphase (hcalls ▸ h.calls) (fun hpos => ?_) horder
      exact hm (rewound_of_parse hcursor hparse hpos)

variable (hsys : ∀ n, cfg.sys n = true)
include hsys

theorem rewinds_of_served (h : Waiting done m s) (hm : rest ≠ [] → Rewound m) {fuel : ℕ}
    (hfuel : 2 * rest.length ≤ fuel)
    (horder : InOrder 0 (done ++ rest) (serve (done ++ rest) fuel s).calls)
    (hall : (serve (done ++ rest) fuel s).calls.length = (done ++ rest).length) : Rewinds m rest := by
  induction rest generalizing done m s fuel with
  | nil => trivial
  | cons f rest ih =>
    cases rest with
    | nil => trivial
    | cons g rest =>
      obtain ⟨fuel, rfl⟩ : ∃ k, fuel = k + 2 :=
        ⟨fuel - 2, by simp only [List.length_cons] at hfuel; omega⟩
      have henough : 2 * (g :: rest).length ≤ fuel := by
        simp only [List.length_cons] at hfuel ⊢
        omega
      obtain ⟨t, hserve, hcount, ht⟩ := serve_frame hsys h (hm (by simp)) f (g :: rest) fuel
      have hsplit : done ++ f :: g :: rest = (done ++ [f]) ++ g :: rest := by simp
      rw [hserve] at horder hall
      cases hleave : leave cfg f.handler (arrived m f.body) with
      | none =>
        rw [hleave] at ht
        rw [serve_crashed ht, hcount] at hall
        simp at hall
      | some m' =>
        rw [hleave] at ht
        rw [hsplit] at horder hall
        by_cases hm' : Rewound m'
        · exact ⟨m', hleave, hm', ih ht (fun _ => hm') henough horder hall⟩
        · have hcursor := leave_cursor hleave (show 2 < 2 ^ 32 by decide)
          rw [serve_lost ht hcursor hm' horder] at hall
          simp at hall

end Necessity

section Framing

variable {M : Type} {cfg : Config M}

theorem length_stream (frames : List (Frame cfg)) : 2 * frames.length ≤ (stream frames).length := by
  induction frames with
  | nil => exact le_rfl
  | cons f frames ih =>
    rw [stream_cons, List.length_append, length_encodeLE, List.length_append, List.length_cons]
    omega

theorem start_waiting (hsys : ∀ n, cfg.sys n = true) (uninitialised : Memory) :
    Waiting ([] : List (Frame cfg)) (standardInMessage uninitialised)
      (next cfg (initial uninitialised) .start) := by
  let begun : State M := { initial uninitialised with protocol := true, started := true }
  have hbegun : Serving begun := ⟨rfl, rfl, rfl, rfl, rfl⟩
  obtain ⟨n, hlog⟩ := dvlogInfo_serving hsys hbegun
  have hrun : start cfg (initial uninitialised) =
      (dvlogInfo cfg >>= fun _ => parseIncomingMessage .first) begun := rfl
  rw [bind_ok hlog] at hrun
  have hnext : next cfg (initial uninitialised) .start =
      awaiting (calledTo begun n) .first .header headerBuffer := by
    rw [next, finish, hrun]
    rfl
  rw [hnext]
  exact ⟨hbegun.of_eq rfl, ⟨_, .first, rfl⟩, rfl, rfl, rfl⟩

theorem receive_run (uninitialised : Memory) (frames : List (Frame cfg)) :
    ∃ es, Run (framed cfg frames) (initial uninitialised) es (receive uninitialised frames) := by
  obtain ⟨es, hrun⟩ := serve_run frames (stream frames).length (next cfg (initial uninitialised) .start)
  have hfirst : (framed cfg frames).Enabled (initial uninitialised) .start := ⟨⟨rfl, rfl⟩, trivial⟩
  exact ⟨_, (Run.tail .refl hfirst).trans hrun⟩

/-- The calls are in order, and all are made, exactly when every handler but the last rewinds its
message for the next header. -/
theorem framing_iff (hsys : ∀ n, cfg.sys n = true) (uninitialised : Memory)
    (frames : List (Frame cfg)) :
    Framing uninitialised frames ↔ Rewinds (standardInMessage uninitialised) frames := by
  have hstart := start_waiting hsys uninitialised
  have hrewound : frames ≠ [] → Rewound (standardInMessage uninitialised) := fun _ =>
    standard_rewound uninitialised
  constructor
  · intro h
    obtain ⟨es, hrun⟩ := receive_run uninitialised frames
    have horder := h.inOrder es _ hrun
    exact rewinds_of_served hsys hstart hrewound (length_stream frames) horder h.served
  · intro h
    exact ⟨fun es s hrun => run_inOrder h hrun, serve_all hsys hstart hrewound h (length_stream frames)⟩

def plainFrame (handler : List (Act ℕ)) (h : ∀ act ∈ handler, Reading plainConfig act) :
    Frame plainConfig where
  body := [8, 0, 0, 0, 0, 0, 0, 0]
  low := by decide
  high := by decide
  handler := handler
  reading := h

/-- A handler that moves the cursor around the whole 32-bit range back to the start. -/
def rewindingFrame : Frame plainConfig :=
  plainFrame [.read .getByte, .read (.skipBytes 4294967293)] (by simp [Reading])

theorem framing_iff_rewinding :
    Rewinds (standardInMessage fun _ => 0) [rewindingFrame, rewindingFrame, rewindingFrame] ∧
      Framing (fun _ => 0) [rewindingFrame, rewindingFrame, rewindingFrame] := by
  have hrewinds : Rewinds (standardInMessage fun _ => 0)
      [rewindingFrame, rewindingFrame, rewindingFrame] :=
    ⟨_, rfl, ⟨rfl, by decide⟩, _, rfl, ⟨rfl, by decide⟩, trivial⟩
  exact ⟨hrewinds, (framing_iff (fun _ => rfl) _ _).mpr hrewinds⟩

def readingFrame : Frame plainConfig := plainFrame [] (by simp)

/-- The second header is looked for in the body of the first frame: ten bytes are asked for
where eight are left of the second one, and the call is made four bytes into the message. -/
theorem second_header_misplaced :
    (∃ es, Run (framed plainConfig [readingFrame, readingFrame, readingFrame])
      (initial fun _ => 0) es (receive (fun _ => 0) [readingFrame, readingFrame, readingFrame])) ∧
    ((receive (fun _ => 0) [readingFrame, readingFrame, readingFrame]).calls.map
      fun call => (call.consumed, call.msg.pos)) = [(10, 2), (22, 4)] ∧
    ¬ Framing (fun _ => 0) [readingFrame, readingFrame, readingFrame] := by
  have hrun := receive_run (fun _ => 0) [readingFrame, readingFrame, readingFrame]
  have hcalls : (receive (fun _ => 0) [readingFrame, readingFrame, readingFrame]).calls.map
      (fun call => (call.consumed, call.msg.pos)) = [(10, 2), (22, 4)] := by
    decide +kernel
  refine ⟨hrun, hcalls, ?_⟩
  intro h
  have hlength := congrArg List.length hcalls
  rw [List.length_map, h.served] at hlength
  cases hlength

end Framing

end ReceiveServing
