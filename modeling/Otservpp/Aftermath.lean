import Otservpp.Destruction

/-! # Handlers without a pointer

What the handlers of reads and of timers are told of, other than cancellations, leads to a connection
that is alive or to its use after its destruction. A failure destroys the connection under its
handler unless a write is in progress; what is delivered to a connection that is gone is harmless if
it was cancelled; what nothing refers to is gone or stays forever. -/
namespace Aftermath

open EventSystem Ownership ProgramLogic Instrumented Lifecycle Lifetime Destruction

section Failing

variable {M : Type} {cfg : Connection.Config M} {s t : State M}

/-- How a handler ends whose connection is destroyed under it: the destructor asserts that the
connection is stopped, and what comes after it uses the connection. -/
def destroyedFault (cfg : Connection.Config M) (c : Connection.State M) : Fault :=
  if cfg.ndebug || Connection.isStopped c then .dangling else .unstopped

variable (cfg) in
/-- Where nothing else holds it, the connection is destroyed when the protocol is told, and is
stopped after that. -/
theorem detach_destroys (halive : s.connAlive = true) (hwrites : s.conn.writes = [])
    (hframes : s.frames = 0) : ∃ u, (do detachConnection cfg; stop cfg : LifeM M Unit) s =
      .error (.inr (destroyedFault cfg s.conn)) u := by
  let t := setConn s { s.conn with attached := false, log := s.conn.log ++ [.connectionLost] }
  have hrun : detachConnection cfg s = collect cfg t := by
    rw [detachConnection, bind_run, member, guarded, if_pos halive]
    rfl
  have hcollect : collect cfg t =
      (dropConnection cfg >>= fun _ => modify dropProtocol) (dropProtocol t) := rfl
  have hsame := dropProtocol_same t
  have hattached : (dropProtocol t).conn.attached = false := by rw [hsame.conn]; rfl
  have hlength : (dropProtocol t).conn.writes.length = 0 := by
    rw [hsame.conn]
    exact congrArg List.length hwrites
  have hnone : connOwners (dropProtocol t) = 0 := by
    have hnoFrames : t.frames = 0 := hframes
    simp [connOwners, hattached, hlength, hsame.frames, hnoFrames]
  have hlive : (dropProtocol t).connAlive = true := by
    unfold dropProtocol
    split
    · exact halive
    · exact halive
  have hdrop : dropConnection cfg (dropProtocol t) =
      if (cfg.ndebug || Connection.isStopped s.conn) = true then
        .ok () { dropProtocol t with connAlive := false }
      else .error (.inr .unstopped) (dropProtocol t) := by
    have hstopped : Connection.isStopped (dropProtocol t).conn = Connection.isStopped s.conn := by
      rw [hsame.conn]
      rfl
    rw [dropConnection, if_pos ⟨hlive, hnone⟩, hstopped]
  unfold destroyedFault
  split
  · next hallowed =>
    rw [if_pos hallowed] at hdrop
    let u := dropProtocol { dropProtocol t with connAlive := false }
    have hcollected : collect cfg t = .ok () u := hcollect.trans (bind_ok hdrop _)
    have hdead : u.connAlive = false := (dropProtocol_same _).dead rfl
    refine ⟨u, ?_⟩
    rw [bind_ok (hrun.trans hcollected), Ownership.stop, bind_run, member, guarded,
      if_neg (by simp [hdead])]
  · next hrefused =>
    rw [if_neg hrefused] at hdrop
    exact ⟨_, bind_error (hrun.trans (hcollect.trans (bind_error hdrop _))) _⟩

variable (cfg) in
theorem abort_faults_iff (halive : s.connAlive = true) (hframes : s.frames = 0)
    (hnone : s.fault = none) (f : Fault) : (finish (abort cfg) s).fault = some f ↔
      (s.conn.protocol = true ∧ s.conn.writes = []) ∧ destroyedFault cfg s.conn = f := by
  have hget : member get s = .ok s.conn s := by
    rw [member, guarded, if_pos halive]
    rfl
  by_cases hsafe : s.conn.protocol = true ∧ s.conn.writes = []
  · obtain ⟨hprotocol, hwrites⟩ := hsafe
    obtain ⟨u, hu⟩ := detach_destroys cfg halive hwrites hframes
    have hrun : abort cfg s = .error (.inr (destroyedFault cfg s.conn)) u := by
      rw [abort, bind_ok hget, if_pos hprotocol]
      exact hu
    have hfault : (finish (abort cfg) s).fault = some (destroyedFault cfg s.conn) := by
      rw [finish, hrun]
    rw [hfault]
    exact ⟨fun h => ⟨⟨hprotocol, hwrites⟩, Option.some.inj h⟩, fun h => congrArg some h.2⟩
  · suffices hquiet : (finish (abort cfg) s).fault = none by
      rw [hquiet]
      exact iff_of_false (by simp) fun h => hsafe h.1
    cases hprotocol : s.conn.protocol with
    | true =>
      have hwrites : 0 < s.conn.writes.length :=
        List.length_pos_of_ne_nil fun hnil => hsafe ⟨hprotocol, hnil⟩
      have hsturdy : Sturdy s := ⟨halive, Nat.add_pos_left hwrites _⟩
      refine finish_unfaulted ((safe_keeps (abort_runs cfg) (abort_sturdy cfg s hsturdy)).mono ?_)
      exact fun u hu => hu.2.1.fault.trans hnone
    | false =>
      have hrecord : member (Connection.record .nullAbort) s =
          .ok () (setConn s { s.conn with log := s.conn.log ++ [.nullAbort] }) := by
        rw [member, guarded, if_pos halive]
        rfl
      refine finish_unfaulted ?_
      rw [abort, bind_ok hget, if_neg (by simp [hprotocol]), bind_ok hrecord]
      exact hnone

def logLine (cfg : Connection.Config M) (logs : Bool) : Connection.ConnM M Unit :=
  if logs then Connection.logInfo cfg else pure ()

/-- The protocol is told of the failure, and no write in progress holds the connection. -/
def Unheld (cfg : Connection.Config M) (logs : Bool) (c : Connection.State M) : Prop :=
  c.protocol = true ∧ c.writes = [] ∧ (logs = true → answers cfg c = true)

instance (logs : Bool) (c : Connection.State M) : Decidable (Unheld cfg logs c) :=
  inferInstanceAs (Decidable (_ ∧ _ ∧ _))

theorem failed_finish_iff (halive : s.connAlive = true) (hframes : s.frames = 0)
    (hnone : s.fault = none) (logs : Bool) {e : Connection.ErrorCode}
    (he : e ≠ .operationAborted) (f : Fault) :
    (finish (do
        if e ≠ .operationAborted then member (logLine cfg logs)
        abortWith cfg e) s).fault = some f ↔
      Unheld cfg logs s.conn ∧ destroyedFault cfg s.conn = f := by
  let x : LifeM M Unit := do member (logLine cfg logs); abort cfg
  have hx : (do
        if e ≠ .operationAborted then member (logLine cfg logs)
        abortWith cfg e : LifeM M Unit) = x := by
    simp only [x, if_pos he, abortWith]
  rw [hx]
  by_cases hlog : logs = true → answers cfg s.conn = true
  · have hline : ∃ c, logLine cfg logs s.conn = .ok () c ∧ (c = s.conn ∨ c = called s.conn) := by
      cases logs with
      | false => exact ⟨s.conn, rfl, Or.inl rfl⟩
      | true => exact ⟨called s.conn, (logInfo_run cfg s.conn).trans (if_pos (hlog rfl)), Or.inr rfl⟩
    obtain ⟨c, hc, hconn⟩ := hline
    have hstep : member (logLine cfg logs) s = .ok () (setConn s c) := by
      rw [member, guarded, if_pos halive, hc]
    have hrun : x s = abort cfg (setConn s c) := bind_ok hstep _
    have hfinish : finish x s = finish (abort cfg) (setConn s c) := by
      unfold finish
      rw [hrun]
    have hsame : c.protocol = s.conn.protocol ∧ c.writes = s.conn.writes ∧
        destroyedFault cfg c = destroyedFault cfg s.conn := by
      rcases hconn with rfl | rfl
      · exact ⟨rfl, rfl, rfl⟩
      · exact ⟨rfl, rfl, rfl⟩
    have hiff := abort_faults_iff cfg (s := setConn s c) halive hframes hnone f
    rw [hfinish, hiff]
    simp only [setConn, hsame.1, hsame.2.1, hsame.2.2]
    exact ⟨fun h => ⟨⟨h.1.1, h.1.2, hlog⟩, h.2⟩, fun h => ⟨⟨h.1.1, h.1.2.1⟩, h.2⟩⟩
  · have hlogs : logs = true ∧ ¬ answers cfg s.conn = true := Classical.not_imp.mp hlog
    have hstep : member (logLine cfg logs) s =
        .error (.inl .exception) (setConn s (called s.conn)) := by
      rw [member, guarded, if_pos halive, hlogs.1, logLine, if_pos rfl, logInfo_run, if_neg hlogs.2]
    have hquiet : (finish x s).fault = none := by
      refine finish_unfaulted ?_
      rw [show x s = _ from bind_error hstep _]
      exact hnone
    rw [hquiet]
    exact iff_of_false (by simp) fun h => hlog h.1.2.2

/-- The delivery of a failure that is not a cancellation, and whether a line of the log comes
first. -/
inductive Failing (cfg : Connection.Config M) (s : State M) : Event M → Bool → Prop
  | read (i : ℕ) (script : Script M) {op e} : s.conn.reads[i]? = some op → op.result = some e →
      e ≠ .success → e ≠ .operationAborted → Failing cfg s (.deliverRead i script) cfg.vlog
  | readWait (i : ℕ) {op e} : s.conn.readWaits[i]? = some ⟨op, some e⟩ → e ≠ .operationAborted →
      Failing cfg s (.deliverReadWait i) (!cfg.ndebug)
  | writeWait (i : ℕ) {op e} : s.conn.writeWaits[i]? = some ⟨op, some e⟩ → e ≠ .operationAborted →
      Failing cfg s (.deliverWriteWait i) (!cfg.ndebug)

variable {es : List (Event M)} {e : Event M} {logs : Bool}

theorem failure_fault_iff (h : Reachable cfg es s) (he : Enabled s e) (hfail : Failing cfg s e logs)
    (halive : s.connAlive = true) (f : Fault) : (next cfg s e).fault = some f ↔
      Unheld cfg logs s.conn ∧ destroyedFault cfg s.conn = f := by
  have hinvariant := reachable_invariant h he.1
  cases hfail with
  | read i script hop hresult hbad habort =>
    have hstarted := hinvariant.started (Or.inl (ne_nil_of_getElem? hop))
    obtain ⟨op', e', hop', hresult', hnext, -⟩ := deliverRead_next cfg he
    obtain rfl := Option.some.inj (hop.symm.trans hop')
    obtain rfl := Option.some.inj (hresult.symm.trans hresult')
    rw [hnext, readHandler, if_neg hbad]
    exact failed_finish_iff (s := setConn s { s.conn with reads := s.conn.reads.eraseIdx i })
      halive (hinvariant.frames hstarted) he.1 cfg.vlog habort f
  | readWait i hwait habort =>
    have hstarted := hinvariant.started (Or.inr (Or.inr (Or.inl (ne_nil_of_getElem? hwait))))
    obtain ⟨op', e', hwait', hnext, -⟩ := deliverReadWait_next cfg he
    cases Option.some.inj (hwait.symm.trans hwait')
    rw [hnext]
    exact failed_finish_iff (s := setConn s { s.conn with readWaits := s.conn.readWaits.eraseIdx i })
      halive (hinvariant.frames hstarted) he.1 (!cfg.ndebug) habort f
  | writeWait i hwait habort =>
    have hstarted := hinvariant.started (Or.inr (Or.inr (Or.inr (ne_nil_of_getElem? hwait))))
    obtain ⟨op', e', hwait', hnext, -⟩ := deliverWriteWait_next cfg he
    cases Option.some.inj (hwait.symm.trans hwait')
    rw [hnext]
    exact failed_finish_iff (s := setConn s { s.conn with writeWaits := s.conn.writeWaits.eraseIdx i })
      halive (hinvariant.frames hstarted) he.1 (!cfg.ndebug) habort f

end Failing

section Surviving

variable {M : Type} {cfg : Connection.Config M} {s : State M}

structure Live (s : State M) : Prop where
  owned : Owned s
  connAlive : s.connAlive = true

structure Detached (s : State M) : Prop where
  owned : Owned s
  attached : s.conn.attached = false

/-- Where an exception leaves a handler, the connection is alive. -/
def Raised : Connection.Fault → State M → Prop
  | .exception => Live
  | .crash => fun _ => True

theorem Live.raised (h : Live s) (e : Connection.Fault) : Raised e s := by
  cases e with
  | exception => exact h
  | crash => trivial

theorem member_ensures {α : Type} {x : Connection.ConnM M α} {P Q : State M → Prop}
    (hx : Evolves Steady x)
    (hput : ∀ s c, P s → s.connAlive = true → Steady s.conn c → Q (setConn s c)) :
    Ensures P (member x) Q fun _ => Q := by
  intro s hs
  have hsteady := hx s.conn
  unfold after at hsteady
  rw [member, guarded]
  by_cases halive : s.connAlive = true
  · rw [if_pos halive]
    cases hrun : x s.conn with
    | ok a c =>
      rw [hrun] at hsteady
      exact hput s c hs halive hsteady
    | error e c =>
      rw [hrun] at hsteady
      exact hput s c hs halive hsteady
  · rw [if_neg halive]
    trivial

theorem member_live {α : Type} {x : Connection.ConnM M α} (hx : Evolves Steady x) :
    Ensures Owned (member x) Live Raised :=
  (member_ensures (Q := Live) hx fun _ _ hs halive hc => ⟨setConn_owned hc halive hs, halive⟩).conseq
    (fun _ => id) (fun _ => id) fun e _ hs => hs.raised e

theorem of_live {α : Type} {x : LifeM M α} {Q : State M → Prop} (hx : Ensures Owned x Q Raised) :
    Ensures Live x Q Raised := fun s hs => hx s hs.owned

theorem member_detached {α : Type} {x : Connection.ConnM M α} (hx : Evolves Steady x) :
    Ensures Detached (member x) Detached Raised :=
  (member_ensures (Q := fun t => Live t ∧ Detached t) hx fun _ _ hs halive hc =>
    ⟨⟨setConn_owned hc halive hs.owned, halive⟩, setConn_owned hc halive hs.owned,
      hc.attached.trans hs.attached⟩).conseq
    (fun _ => id) (fun _ hs => hs.2) fun e _ hs => hs.1.raised e

variable (cfg)

theorem resetProtocol_detached : Ensures Detached (resetProtocol cfg) Live Raised := by
  intro s hs
  let t := setConn s { s.conn with protocol := false, log := s.conn.log ++ [.stopped] }
  by_cases halive : s.connAlive = true
  · have hrun : resetProtocol cfg s = collect cfg t := by
      rw [resetProtocol, bind_run, member, guarded, if_pos halive]
      rfl
    have hpos := hs.owned.conn_owned halive
    have hheld : Held t := by
      refine ⟨fun _ => halive, fun hprot => hs.owned.prot (hprot.trans_le ?_),
        fun _ h => by cases h⟩
      simp [protOwners, t, setConn]
    rw [hrun]
    rcases collect_cases cfg t with ⟨u, hu, hsame, howned⟩ | ⟨u, hu, -⟩
    · rw [hu]
      refine ⟨howned hheld, (howned hheld).conn (hpos.trans_le ?_)⟩
      simp [connOwners, hs.attached, hsame.conn, hsame.frames, t, setConn]
    · rw [hu]
      trivial
  · rw [resetProtocol, bind_run, member, guarded, if_neg halive]
    trivial

theorem stop_detached : Ensures Detached (stop cfg) Live Raised := by
  have hsilent {x : Connection.ConnM M Unit} (hx : Evolves Silent x) :
      Ensures Detached (member x) Detached Raised := member_detached (steady_of_silent hx)
  have hflags : Ensures Detached (member (modify fun s => { s with
      readClosed := true, writeClosed := true, log := s.log ++ [.stopBegan] }) : LifeM M Unit)
      Detached Raised :=
    member_detached (evolves_modify fun _ => ⟨rfl, rfl, rfl, le_rfl, fun _ => rfl⟩)
  refine hflags.bind fun _ => (hsilent (vlogInfo_silent cfg)).bind fun _ => ?_
  refine (hsilent cancelReadTimer_silent).bind fun _ => ?_
  refine (hsilent cancelWriteTimer_silent).bind fun _ => ?_
  refine (hsilent (connectedCall_silent cfg)).bind fun _ => ?_
  exact (member_detached (close_steady cfg)).bind fun _ => resetProtocol_detached cfg

theorem detachConnection_detached :
    Ensures Live (detachConnection cfg : LifeM M Unit) Detached Raised := by
  intro s hs
  let t := setConn s { s.conn with attached := false, log := s.conn.log ++ [.connectionLost] }
  have hrun : detachConnection cfg s = collect cfg t := by
    rw [detachConnection, bind_run, member, guarded, if_pos hs.connAlive]
    rfl
  have hheld : Held t := ⟨fun _ => hs.connAlive, hs.owned.prot, fun h => by cases h⟩
  rw [hrun]
  rcases collect_cases cfg t with ⟨u, hu, hsame, howned⟩ | ⟨u, hu, -⟩
  · rw [hu]
    exact ⟨howned hheld, congrArg (·.attached) hsame.conn⟩
  · rw [hu]
    trivial

theorem abort_live : Ensures Owned (abort cfg) Live Raised := by
  have hget : Ensures Owned (member get : LifeM M (Connection.State M)) Live Raised :=
    member_live fun s => refl s
  have hrecord : Ensures Owned (member (Connection.record .nullAbort) : LifeM M Unit) Live Raised :=
    member_live (evolves_modify fun _ => ⟨rfl, rfl, rfl, le_rfl, id⟩)
  refine hget.bind fun _ => Ensures.ite (fun _ => ?_) fun _ => ?_
  · exact (detachConnection_detached cfg).bind fun _ => stop_detached cfg
  · refine Ensures.bind (of_live hrecord) fun _ => ?_
    exact ensures_throw _ fun _ _ => trivial

theorem failed_live {log : Connection.ConnM M Unit} (hlog : Evolves Silent log)
    {e : Connection.ErrorCode} (he : e ≠ .operationAborted) :
    Ensures Owned (do
      if e ≠ .operationAborted then member log
      abortWith cfg e) Live Raised := by
  have hrun : (do
      if e ≠ .operationAborted then member log
      abortWith cfg e : LifeM M Unit) = (do member log; abort cfg) := by
    simp only [if_pos he, abortWith]
  rw [hrun]
  exact (member_live (steady_of_silent hlog)).bind fun _ => of_live (abort_live cfg)

theorem dropped_live : Ensures Owned (do member (Connection.droppingLogInfo cfg); abort cfg) Live Raised :=
  (member_live (steady_of_silent (droppingLogInfo_silent cfg))).bind fun _ => of_live (abort_live cfg)

theorem headerRead_live (kind : Connection.HandlerKind) :
    Ensures Owned (headerRead cfg kind) Live Raised := by
  have hread (buffer : InMessage.Buffer) : Ensures Owned
      (member (Connection.asyncReadOp kind .body buffer) : LifeM M Unit) Live Raised :=
    member_live (evolves_modify fun _ => ⟨rfl, rfl, rfl, le_rfl, id⟩)
  have hparse : Ensures Owned (member (Connection.onInMsg
      (InMessage.parseHeaderAndGetBodyBuffer cfg.ndebug)) : LifeM M InMessage.Buffer) Live Raised :=
    member_live (steady_of_silent (onInMsg_silent _))
  refine (member_live (steady_of_silent updateReadTimer_silent)).bind fun _ => of_live ?_
  refine Ensures.catching (hparse.bind fun buffer => of_live (hread buffer)) fun e => ?_
  cases e with
  | exception => exact of_live (dropped_live cfg)
  | crash => exact ensures_throw _ fun _ _ => trivial

theorem bodyRead_live (kind : Connection.HandlerKind) (script : Script M) :
    Ensures Owned (bodyRead cfg kind script) Live Raised := by
  have hsend : Ensures Owned (sendInMsg cfg kind script) Owned fun _ => Owned :=
    (sendInMsg_runs cfg kind script).ensures fun _ _ hk => hk.owned
  have hget : Ensures Owned (member get : LifeM M (Connection.State M)) Live Raised :=
    member_live fun s => refl s
  have hparse : Ensures Owned (member (Connection.parseIncomingMessage .subsequent) : LifeM M Unit)
      Live Raised := by
    refine member_live ((steady_of_silent updateReadTimer_silent).bind fun _ => ?_)
    exact evolves_modify fun _ => ⟨rfl, rfl, rfl, le_rfl, id⟩
  refine (member_live (steady_of_silent cancelReadTimer_silent)).bind fun _ => of_live ?_
  refine (member_live (steady_of_silent (dvlogInfo_silent cfg))).bind fun _ => of_live ?_
  refine Ensures.bind (Q := Owned) ?_ fun _ => Ensures.ite (fun _ => dropped_live cfg) fun _ => ?_
  · refine Ensures.catching (hsend.bind fun _ => ensures_pure _) fun e => ?_
    cases e with
    | exception => exact ensures_pure _
    | crash => exact ensures_throw _ fun _ _ => trivial
  · exact hget.bind fun _ => Ensures.ite (fun _ => of_live hparse) fun _ => ensures_pure _

theorem readHandler_live (op : Connection.ReadOp) (script : Script M) {e : Connection.ErrorCode}
    (he : e ≠ .operationAborted) : Ensures Owned (readHandler cfg op e script) Live Raised := by
  refine Ensures.ite (fun _ => ?_) fun _ => failed_live cfg (vlogInfo_silent cfg) he
  have hget : Ensures Owned (member get : LifeM M (Connection.State M)) Live Raised :=
    member_live fun s => refl s
  refine hget.bind fun _ => Ensures.ite (fun _ => ?_) fun _ => ensures_pure _
  refine (of_live (member_live (steady_of_silent (dvlogInfo_silent cfg)))).bind fun _ => ?_
  cases op.phase with
  | header => exact of_live (headerRead_live cfg op.handler)
  | body => exact of_live (bodyRead_live cfg op.handler script)

variable {cfg}

theorem finish_live {x : LifeM M Unit} (hx : Ensures Owned x Live Raised) (hs : Owned s)
    (hnone : (finish x s).fault = none) (hcrashed : (finish x s).conn.crashed = false) :
    (finish x s).connAlive = true := by
  have hend := hx s hs
  have hsettled {t : State M} (ht : Live t) : (settled t).connAlive = true := by
    rw [settled_of_alive ht.connAlive]
    exact ht.connAlive
  cases hrun : x s with
  | ok a t =>
    rw [hrun] at hend
    rw [finish, hrun]
    exact hsettled hend
  | error e t =>
    rw [hrun] at hend
    rw [finish, hrun] at hnone hcrashed ⊢
    cases e with
    | inl e =>
      cases e with
      | exception => exact hsettled hend
      | crash =>
        simp only [settled_crashed] at hcrashed
        cases hcrashed
    | inr f => cases hnone

inductive Told (s : State M) : Event M → Prop
  | read (i : ℕ) (script : Script M) {op e} : s.conn.reads[i]? = some op → op.result = some e →
      e ≠ .operationAborted → Told s (.deliverRead i script)
  | readWait (i : ℕ) {op e} : s.conn.readWaits[i]? = some ⟨op, some e⟩ → e ≠ .operationAborted →
      Told s (.deliverReadWait i)
  | writeWait (i : ℕ) {op e} : s.conn.writeWaits[i]? = some ⟨op, some e⟩ → e ≠ .operationAborted →
      Told s (.deliverWriteWait i)

variable {es : List (Event M)} {e : Event M}

/-- The handler of a read or of a timer that is told of anything but a cancellation ends with its
connection alive or has used it after its destruction. -/
theorem told_survives (h : Reachable cfg es s) (he : Enabled s e) (htold : Told s e)
    (hnone : (next cfg s e).fault = none) (hcrashed : (next cfg s e).conn.crashed = false) :
    (next cfg s e).connAlive = true := by
  have hinvariant := reachable_invariant h he.1
  cases htold with
  | read i script hop hresult habort =>
    have hresting := hinvariant.resting (hinvariant.started (Or.inl (ne_nil_of_getElem? hop)))
    obtain ⟨op', e', hop', hresult', hnext, -⟩ := deliverRead_next cfg he
    obtain rfl := Option.some.inj (hop.symm.trans hop')
    obtain rfl := Option.some.inj (hresult.symm.trans hresult')
    rw [hnext] at hnone hcrashed ⊢
    exact finish_live (readHandler_live cfg _ script habort)
      (hresting.read (s.conn.reads.eraseIdx i)).owned hnone hcrashed
  | readWait i hwait habort =>
    have hstarted := hinvariant.started (Or.inr (Or.inr (Or.inl (ne_nil_of_getElem? hwait))))
    obtain ⟨op', e', hwait', hnext, -⟩ := deliverReadWait_next cfg he
    cases Option.some.inj (hwait.symm.trans hwait')
    rw [hnext] at hnone hcrashed ⊢
    exact finish_live (failed_live cfg (dlogInfo_silent cfg) habort)
      ((hinvariant.resting hstarted).readWait (s.conn.readWaits.eraseIdx i)).owned hnone hcrashed
  | writeWait i hwait habort =>
    have hstarted := hinvariant.started (Or.inr (Or.inr (Or.inr (ne_nil_of_getElem? hwait))))
    obtain ⟨op', e', hwait', hnext, -⟩ := deliverWriteWait_next cfg he
    cases Option.some.inj (hwait.symm.trans hwait')
    rw [hnext] at hnone hcrashed ⊢
    exact finish_live (failed_live cfg (dlogInfo_silent cfg) habort)
      ((hinvariant.resting hstarted).writeWait (s.conn.writeWaits.eraseIdx i)).owned hnone hcrashed

theorem told_survives_header :
    (next SendQueue.plainConfig headerReceived (.deliverRead 0 ⟨[], false⟩)).connAlive = true :=
  have hread : headerReceived.conn.reads[0]? = some ⟨0, .first, .header, ⟨0, 2⟩, some .success⟩ := by
    decide +kernel
  told_survives headerReceived_reachable (by decide +kernel) (.read 0 _ hread rfl (by decide))
    (by decide +kernel) (by decide +kernel)

end Surviving

section Destroyed

variable {M : Type} {cfg : Connection.Config M} {s t : State M} {e : Event M} {es : List (Event M)}

structure Aborted (c : Connection.State M) : Prop where
  reads : ∀ op ∈ c.reads, op.result = some .operationAborted
  readWaits : ∀ w ∈ c.readWaits, w.result = some .operationAborted
  writeWaits : ∀ w ∈ c.writeWaits, w.result = some .operationAborted

theorem Aborted.subset {c d : Connection.State M} (h : Aborted c) (hreads : d.reads ⊆ c.reads)
    (hreadWaits : d.readWaits ⊆ c.readWaits) (hwriteWaits : d.writeWaits ⊆ c.writeWaits) :
    Aborted d :=
  ⟨fun op hop => h.reads op (hreads hop), fun w hw => h.readWaits w (hreadWaits hw),
    fun w hw => h.writeWaits w (hwriteWaits hw)⟩

theorem destroyed_aborted {c : Connection.State M} (h : Aborted c) : Aborted (destroyed c) := by
  have hwaits {ws : List Connection.Wait} (hws : ∀ w ∈ ws, w.result = some .operationAborted) :
      ∀ w ∈ Connection.cancelWaits ws, w.result = some .operationAborted := by
    intro w hw
    obtain ⟨old, hold, rfl⟩ := List.mem_map.mp hw
    change some (old.result.getD .operationAborted) = _
    rw [hws old hold]
    rfl
  refine ⟨fun op hop => ?_, hwaits h.readWaits, hwaits h.writeWaits⟩
  obtain ⟨old, hold, rfl⟩ := List.mem_map.mp hop
  change some (old.result.getD .operationAborted) = _
  rw [h.reads old hold]
  rfl

/-- Nothing was used after its destruction, and nothing that is left will. -/
structure Quiet (s : State M) : Prop where
  fault : s.fault = none
  aborted : Aborted s.conn

theorem finish_quiet {x : LifeM M Unit} (h : Safe Quiet (x s)) : Quiet (finish x s) := by
  refine finish_safe h (fun t ht => ⟨(settled_fault t).trans ht.fault, ?_⟩) fun t ht => ?_
  · unfold settled
    split
    · exact ht.aborted
    · exact destroyed_aborted ht.aborted
  · exact ⟨ht.fault, ht.aborted.reads, ht.aborted.readWaits, ht.aborted.writeWaits⟩

theorem member_dead {α : Type} (hdead : s.connAlive = false) (x : Connection.ConnM M α) :
    member x s = .error (.inr .dangling) s := by
  rw [member, guarded, if_neg (by simp [hdead])]

theorem readHandler_dead (hdead : s.connAlive = false) (op : Connection.ReadOp) (script : Script M)
    {e : Connection.ErrorCode} (he : e ≠ .operationAborted) :
    (finish (readHandler cfg op e script) s).fault ≠ none := by
  have hrun : readHandler cfg op e script s = .error (.inr .dangling) s := by
    by_cases hsuccess : e = .success
    · rw [readHandler, if_pos hsuccess]
      exact bind_error (member_dead hdead _) _
    · rw [readHandler, if_neg hsuccess, if_pos he]
      exact bind_error (member_dead hdead _) _
  rw [finish, hrun]
  intro h
  cases h

theorem timerHandler_dead (hdead : s.connAlive = false) {e : Connection.ErrorCode}
    (he : e ≠ .operationAborted) : (finish (timerHandler cfg e) s).fault ≠ none := by
  have hrun : timerHandler cfg e s = .error (.inr .dangling) s := by
    rw [timerHandler, if_pos he]
    exact bind_error (member_dead hdead _) _
  rw [finish, hrun]
  intro h
  cases h

theorem readHandler_aborted (op : Connection.ReadOp) (script : Script M) (hs : Quiet s) :
    Quiet (finish (readHandler cfg op .operationAborted script) s) := by
  have hrun : readHandler cfg op .operationAborted script s = .ok () s := by
    rw [readHandler, if_neg (by decide), if_neg (by decide)]
    rfl
  refine finish_quiet ?_
  rw [hrun]
  exact hs

theorem timerHandler_aborted (hs : Quiet s) :
    Quiet (finish (timerHandler cfg .operationAborted) s) := by
  have hrun : timerHandler cfg .operationAborted s = .ok () s := by
    rw [timerHandler, if_neg (by decide)]
    rfl
  refine finish_quiet ?_
  rw [hrun]
  exact hs

theorem collect_dead (hdead : s.connAlive = false) (hs : Quiet s) : Safe Quiet (collect cfg s) := by
  rcases collect_cases cfg s with ⟨t, ht, hsame, -⟩ | ⟨t, -, hsame, -, halive, -⟩
  · rw [ht]
    exact ⟨hsame.fault.trans hs.fault, hsame.conn ▸ hs.aborted⟩
  · exact absurd (halive.symm.trans (hsame.dead hdead)) (by simp)

theorem Invariant.gone (h : Invariant s) (hdead : s.connAlive = false) :
    s.conn.started = true ∧ s.conn.writes = [] ∧ (0 < s.keepers → s.conn.attached = false) := by
  have hnone : connOwners s = 0 := by
    by_contra hne
    exact absurd ((h.owned.conn (Nat.pos_of_ne_zero hne)).symm.trans hdead) (by simp)
  refine ⟨?_, ?_, fun hkeepers => ?_⟩
  · by_contra hnot
    exact absurd ((h.fresh (by simpa using hnot)).connAlive.symm.trans hdead) (by simp)
  · unfold connOwners at hnone
    exact List.length_eq_zero_iff.mp (by omega)
  · have hprot : s.protAlive = true := h.owned.prot (Nat.add_pos_right _ hkeepers)
    by_contra hattached
    simp only [Bool.not_eq_false] at hattached
    simp [connOwners, hprot, hattached] at hnone

theorem quiet_next (h : Invariant s) (he : Enabled s e) (hdead : s.connAlive = false)
    (hs : Quiet s) : Quiet (next cfg s e) := by
  obtain ⟨hstarted, hwrites, hlost⟩ := Invariant.gone h hdead
  have hprot (hkeepers : 0 < s.keepers) : s.protAlive = true :=
    h.owned.prot (Nat.add_pos_right _ hkeepers)
  cases e with
  | start => exact absurd ((plain_enabled he rfl).2.symm.trans hstarted) (by simp)
  | call act =>
    obtain ⟨-, hkeepers, hattached, -⟩ := he.2.2.2
    exact absurd (hattached.symm.trans (hlost hkeepers)) (by simp)
  | wrapped script =>
    obtain ⟨-, hkeepers⟩ := he.2.2.2
    let u := setConn s { s.conn with log := s.conn.log ++ [.nullConnection] }
    have hrun : wrappedHandler cfg script s = .error (.inl .crash) u := by
      have hget : ofProtocol get s = .ok s.conn s := by
        rw [ofProtocol, guarded, if_pos (hprot hkeepers)]
        rfl
      rw [wrappedHandler, bind_ok hget, if_neg (by simp [hlost hkeepers])]
      rfl
    refine finish_quiet (ending_safe (P := fun t => t.connAlive = false ∧ Quiet t) cfg ?_ ?_)
    · rw [hrun]
      exact ⟨hdead, hs.fault, hs.aborted.reads, hs.aborted.readWaits, hs.aborted.writeWaits⟩
    · exact fun t ht => collect_dead ht.1 ⟨ht.2.fault, ht.2.aborted⟩
  | release =>
    rw [release_next]
    refine finish_quiet (ending_safe (P := fun t => t.connAlive = false ∧ Quiet t) cfg ⟨hdead, hs⟩ ?_)
    exact fun t ht => collect_dead ht.1 ⟨ht.2.fault, ht.2.aborted⟩
  | asio e =>
    have hbusy : Spent s.conn := h.spent hdead
    have hasio : isAsio e = true := he.2.2.2
    have he := plain_enabled he rfl
    cases e with
    | peerDisconnected =>
      exact ⟨hs.fault, hs.aborted.reads, hs.aborted.readWaits, hs.aborted.writeWaits⟩
    | completeRead i e data =>
      obtain ⟨op, hop, hresult, -⟩ := completeRead_next cfg he
      exact absurd (hbusy.reads op (List.mem_of_getElem? hop)) (by simp [hresult])
    | completeWrite i e =>
      obtain ⟨op, hop, -⟩ := completeWrite_next cfg he
      exact absurd hwrites (ne_nil_of_getElem? hop)
    | expireRead i e =>
      obtain ⟨-, ⟨w, hw, hpending⟩, -⟩ := he
      exact absurd (hbusy.readWaits w (List.mem_of_getElem? hw)) (by simp [hpending])
    | expireWrite i e =>
      obtain ⟨-, ⟨w, hw, hpending⟩, -⟩ := he
      exact absurd (hbusy.writeWaits w (List.mem_of_getElem? hw)) (by simp [hpending])
    | _ => cases hasio
  | deliverRead i script =>
    obtain ⟨op, e, hop, hresult, hnext, -⟩ := deliverRead_next cfg he
    have haborted := hs.aborted.reads op (List.mem_of_getElem? hop)
    obtain rfl := Option.some.inj (hresult.symm.trans haborted)
    rw [hnext]
    exact readHandler_aborted op script ⟨hs.fault,
      hs.aborted.subset List.eraseIdx_subset (List.Subset.refl _) (List.Subset.refl _)⟩
  | deliverWrite i =>
    obtain ⟨op, e, hop, -⟩ := deliverWrite_next cfg he
    exact absurd hwrites (ne_nil_of_getElem? hop)
  | deliverReadWait i =>
    obtain ⟨op, e, hwait, hnext, -⟩ := deliverReadWait_next cfg he
    obtain rfl := Option.some.inj (hs.aborted.readWaits _ (List.mem_of_getElem? hwait))
    rw [hnext]
    exact timerHandler_aborted ⟨hs.fault,
      hs.aborted.subset (List.Subset.refl _) List.eraseIdx_subset (List.Subset.refl _)⟩
  | deliverWriteWait i =>
    obtain ⟨op, e, hwait, hnext, -⟩ := deliverWriteWait_next cfg he
    obtain rfl := Option.some.inj (hs.aborted.writeWaits _ (List.mem_of_getElem? hwait))
    rw [hnext]
    exact timerHandler_aborted ⟨hs.fault,
      hs.aborted.subset (List.Subset.refl _) (List.Subset.refl _) List.eraseIdx_subset⟩

/-- What happens after the connection is destroyed is harmless exactly when everything that is still
to be delivered was cancelled. -/
theorem destroyed_quiet_iff (h : Reachable cfg es s) (hfault : s.fault = none)
    (hcrashed : s.conn.crashed = false) (hdead : s.connAlive = false) :
    (∀ fs t, Run (system cfg) s fs t → t.fault = none) ↔ Aborted s.conn := by
  have hinvariant := reachable_invariant h hfault
  constructor
  · intro hquiet
    have hstep {e : Event M} (he : Enabled s e) : (next cfg s e).fault = none :=
      hquiet _ _ (Run.refl.tail he)
    have hspent := hinvariant.spent hdead
    refine ⟨fun op hop => ?_, fun w hw => ?_, fun w hw => ?_⟩
    · by_contra hne
      obtain ⟨i, hi⟩ := List.getElem?_of_mem hop
      have he : Enabled s (.deliverRead i ⟨[], false⟩) := by
        refine ⟨hfault, hcrashed, ?_, trivial⟩
        rintro b ⟨⟩
        exact ⟨hcrashed, op, hi, hspent.reads op hop⟩
      obtain ⟨op', e, hop', hresult, hnext, -⟩ := deliverRead_next cfg he
      obtain rfl := Option.some.inj (hi.symm.trans hop')
      have hrun := hstep he
      rw [hnext] at hrun
      refine absurd hrun (readHandler_dead ?_ op _ ?_)
      · exact hdead
      · exact fun heq => hne (heq ▸ hresult)
    · by_contra hne
      obtain ⟨i, hi⟩ := List.getElem?_of_mem hw
      have he : Enabled s (.deliverReadWait i) := by
        refine ⟨hfault, hcrashed, ?_, trivial⟩
        rintro b ⟨⟩
        exact ⟨hcrashed, w, hi, hspent.readWaits w hw⟩
      obtain ⟨op, e, hwait, hnext, -⟩ := deliverReadWait_next cfg he
      have hrun := hstep he
      rw [hnext] at hrun
      refine absurd hrun (timerHandler_dead ?_ ?_)
      · exact hdead
      · exact fun heq => hne (Option.some.inj (hi.symm.trans hwait) ▸ congrArg some heq)
    · by_contra hne
      obtain ⟨i, hi⟩ := List.getElem?_of_mem hw
      have he : Enabled s (.deliverWriteWait i) := by
        refine ⟨hfault, hcrashed, ?_, trivial⟩
        rintro b ⟨⟩
        exact ⟨hcrashed, w, hi, hspent.writeWaits w hw⟩
      obtain ⟨op, e, hwait, hnext, -⟩ := deliverWriteWait_next cfg he
      have hrun := hstep he
      rw [hnext] at hrun
      refine absurd hrun (timerHandler_dead ?_ ?_)
      · exact hdead
      · exact fun heq => hne (Option.some.inj (hi.symm.trans hwait) ▸ congrArg some heq)
  · intro haborted fs t hrun
    have hkept : Quiet t ∧ t.connAlive = false ∧ Invariant t := by
      refine hrun.invariant (I := fun t => Quiet t ∧ t.connAlive = false ∧ Invariant t)
        (fun t e ht he => ?_) ⟨⟨hfault, haborted⟩, hdead, hinvariant⟩
      obtain ⟨hquiet, hdead, hinvariant⟩ := ht
      have hnext : Quiet (next cfg t e) := quiet_next hinvariant he hdead hquiet
      have hstepped := next_stepped hinvariant he hnext.fault
      exact ⟨hnext, hstepped.dead hdead, hstepped.invariant⟩
    exact hkept.1.fault

def firstMessage (script : Script ℕ) : List (Event ℕ) :=
  [.start, .asio (.completeRead 0 .success [8, 0]), .deliverRead 0 ⟨[], false⟩,
    .asio (.completeRead 0 .success (List.replicate 8 0)), .deliverRead 0 script]

def failedWrite : List (Event ℕ) :=
  firstMessage ⟨[.act (.send 7)], false⟩ ++
    [.asio (.completeWrite 0 (.other 32)), .deliverWrite 0]

theorem destroyed_quiet_iff_failed_write :
    (∀ fs t, Run (system SendQueue.plainConfig) (plainLife failedWrite) fs t → t.fault = none) ↔
      Aborted (plainLife failedWrite).conn := by
  have hvalid : ValidTrace (system SendQueue.plainConfig) (initial fun _ => 0) failedWrite := by
    decide +kernel
  exact destroyed_quiet_iff ⟨_, valid_trace_run hvalid⟩ (by decide +kernel) (by decide +kernel)
    (by decide +kernel)

end Destroyed

section Idle

variable {M : Type} {cfg : Connection.Config M} {s : State M} {e : Event M} {es : List (Event M)}

structure Idle (s : State M) : Prop where
  started : s.conn.started = true
  reads : s.conn.reads = []
  writes : s.conn.writes = []
  readWaits : s.conn.readWaits = []
  writeWaits : s.conn.writeWaits = []
  keepers : s.keepers = 0

theorem Idle.next (h : Idle s) (he : Enabled s e) :
    Owning e ∧ Idle (next cfg s e) ∧ (next cfg s e).conn.attached = s.conn.attached ∧
      (next cfg s e).conn.protocol = s.conn.protocol := by
  have hkeepers : ¬ 0 < s.keepers := by simp [h.keepers]
  cases e with
  | start => exact absurd ((plain_enabled he rfl).2.symm.trans h.started) (by simp)
  | call act => exact absurd he.2.2.2.2.1 hkeepers
  | wrapped script => exact absurd he.2.2.2.2 hkeepers
  | release => exact absurd he.2.2.2.2 hkeepers
  | asio e =>
    have hasio : isAsio e = true := he.2.2.2
    have he := plain_enabled he rfl
    cases e with
    | peerDisconnected =>
      exact ⟨trivial, ⟨h.started, h.reads, h.writes, h.readWaits, h.writeWaits, h.keepers⟩, rfl, rfl⟩
    | completeRead i e data =>
      obtain ⟨op, hop, -⟩ := completeRead_next cfg he
      exact absurd h.reads (ne_nil_of_getElem? hop)
    | completeWrite i e =>
      obtain ⟨op, hop, -⟩ := completeWrite_next cfg he
      exact absurd h.writes (ne_nil_of_getElem? hop)
    | expireRead i e =>
      obtain ⟨-, ⟨w, hw, -⟩, -⟩ := he
      exact absurd h.readWaits (ne_nil_of_getElem? hw)
    | expireWrite i e =>
      obtain ⟨-, ⟨w, hw, -⟩, -⟩ := he
      exact absurd h.writeWaits (ne_nil_of_getElem? hw)
    | _ => cases hasio
  | deliverRead i script =>
    obtain ⟨op, e, hop, -⟩ := deliverRead_next cfg he
    exact absurd h.reads (ne_nil_of_getElem? hop)
  | deliverWrite i =>
    obtain ⟨op, e, hop, -⟩ := deliverWrite_next cfg he
    exact absurd h.writes (ne_nil_of_getElem? hop)
  | deliverReadWait i =>
    obtain ⟨op, e, hwait, -⟩ := deliverReadWait_next cfg he
    exact absurd h.readWaits (ne_nil_of_getElem? hwait)
  | deliverWriteWait i =>
    obtain ⟨op, e, hwait, -⟩ := deliverWriteWait_next cfg he
    exact absurd h.writeWaits (ne_nil_of_getElem? hwait)

/-- Two objects that nothing refers to any more are destroyed if one of them let go of the other;
else they stay forever. -/
theorem leaked_iff (h : Reachable cfg es s) (hfault : s.fault = none) (hidle : Idle s) :
    (s.connAlive = false ∧ s.protAlive = false ↔
        ¬ (s.conn.attached = true ∧ s.conn.protocol = true)) ∧
      ((∀ fs t, Run (system cfg) s fs t → t.connAlive = true ∧ t.protAlive = true) ↔
        s.conn.attached = true ∧ s.conn.protocol = true) := by
  have hinvariant := reachable_invariant h hfault
  have howned := hinvariant.owned
  have hconn : s.connAlive = true → s.protAlive = true ∧ s.conn.attached = true := by
    intro halive
    have hpos := howned.conn_owned halive
    rw [connOwners, hidle.writes, hinvariant.frames hidle.started] at hpos
    simpa [Nat.pos_iff_ne_zero] using hpos
  have hprot : s.protAlive = true → s.connAlive = true ∧ s.conn.protocol = true := by
    intro halive
    have hpos := howned.prot_owned halive
    rw [protOwners, hidle.keepers] at hpos
    simpa [Nat.pos_iff_ne_zero] using hpos
  have hcycle (t : State M) (ht : Invariant t) (ha : t.conn.attached = true)
      (hp : t.conn.protocol = true) : t.connAlive = true ∧ t.protAlive = true := by
    have halive := ht.owned.cycle ha hp
    refine ⟨halive, ht.owned.prot ?_⟩
    rw [protOwners, halive, hp]
    exact Nat.add_pos_left Nat.one_pos _
  refine ⟨⟨fun hdead hboth => ?_, fun hnot => ?_⟩, fun hall => ?_, fun hboth fs t hrun => ?_⟩
  · exact absurd ((hcycle s hinvariant hboth.1 hboth.2).1.symm.trans hdead.1) (by simp)
  · have hgone : s.connAlive = false := by
      by_contra hne
      have halive : s.connAlive = true := by simpa using hne
      exact hnot ⟨(hconn halive).2, (hprot (hconn halive).1).2⟩
    refine ⟨hgone, ?_⟩
    by_contra hne
    exact absurd ((hprot (by simpa using hne)).1.symm.trans hgone) (by simp)
  · obtain ⟨halive, hprotAlive⟩ := hall [] s .refl
    exact ⟨(hconn halive).2, (hprot hprotAlive).2⟩
  · have hkept := hrun.invariant (I := fun t => t.fault = none ∧ Invariant t ∧ Idle t ∧
      t.conn.attached = true ∧ t.conn.protocol = true)
      (fun t e ht he => ?_) ⟨hfault, hinvariant, hidle, hboth⟩
    · exact hcycle t hkept.2.1 hkept.2.2.2.1 hkept.2.2.2.2
    · obtain ⟨hnone, hinvariant, hidle, hattached, hprotocol⟩ := ht
      have he : Enabled t e := he
      obtain ⟨howning, hidle', hattached', hprotocol'⟩ : Owning e ∧ Idle (next cfg t e) ∧ _ ∧ _ :=
        hidle.next he
      have hnone' : (Lifetime.next cfg t e).fault = none := owning_next hinvariant he howning
      exact ⟨hnone', (next_stepped hinvariant he hnone').invariant, hidle', hattached'.trans hattached,
        hprotocol'.trans hprotocol⟩

/-- A connection whose `stop` fails on a peer that went away. -/
def lostPeer : List (Event ℕ) :=
  firstMessage ⟨[.share], false⟩ ++
    [.asio .peerDisconnected, .call .stop, .release, .deliverReadWait 0, .deliverReadWait 0,
      .deliverReadWait 0, .asio (.completeRead 0 .success [8, 0]), .deliverRead 0 ⟨[], false⟩]

theorem leaked_iff_lost_peer :
    ((plainLife lostPeer).connAlive = false ∧ (plainLife lostPeer).protAlive = false ↔
        ¬ ((plainLife lostPeer).conn.attached = true ∧ (plainLife lostPeer).conn.protocol = true)) ∧
      ((∀ fs t, Run (system SendQueue.plainConfig) (plainLife lostPeer) fs t →
          t.connAlive = true ∧ t.protAlive = true) ↔
        (plainLife lostPeer).conn.attached = true ∧ (plainLife lostPeer).conn.protocol = true) := by
  have hvalid : ValidTrace (system SendQueue.plainConfig) (initial fun _ => 0) lostPeer := by
    decide +kernel
  refine leaked_iff ⟨_, valid_trace_run hvalid⟩ (by decide +kernel) ⟨?_, ?_, ?_, ?_, ?_, ?_⟩
  all_goals decide +kernel

end Idle

end Aftermath
