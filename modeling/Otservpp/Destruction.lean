import Otservpp.Lifetime

/-! # Which handlers outlive their object

A handler that holds a pointer to what it uses, uses nothing after its destruction: neither that of
a write nor those of the continuations of a protocol. The handlers of reads and of timers hold none,
and are safe where both objects still have an owner at their end. -/
namespace Destruction

open EventSystem Ownership ProgramLogic Instrumented Lifecycle Lifetime

section Sturdy

variable {M : Type} (cfg : Connection.Config M)

/-- A write or a running function holds the connection. -/
structure Sturdy (s : State M) : Prop where
  connAlive : s.connAlive = true
  held : 0 < s.conn.writes.length + s.frames

variable {s : State M}

theorem Sturdy.connOwners (h : Sturdy s) : 0 < Ownership.connOwners s := by
  have hheld := h.held
  unfold Ownership.connOwners
  omega

theorem member_sturdy {α : Type} {x : Connection.ConnM M α} (hx : Evolves Steady x) :
    Secure Sturdy (member x) := by
  refine secure_guarded hx (fun _ hs => hs.connAlive) fun s c hs hc => ⟨hs.connAlive, ?_⟩
  exact hs.held.trans_le (Nat.add_le_add_right hc.writes _)

theorem silent_sturdy {α : Type} {x : Connection.ConnM M α} (hx : Evolves Silent x) :
    Secure Sturdy (member x) := member_sturdy (steady_of_silent hx)

theorem modify_sturdy {f : Connection.State M → Connection.State M} (h : ∀ c, Steady c (f c)) :
    Secure Sturdy (member (modify f)) := member_sturdy (evolves_modify h)

theorem record_sturdy (a : Connection.Action) :
    Secure Sturdy (member (Connection.record a) : LifeM M Unit) :=
  modify_sturdy fun _ => ⟨rfl, rfl, rfl, le_rfl, id⟩

theorem get_sturdy : Secure Sturdy (member get : LifeM M (Connection.State M)) :=
  member_sturdy fun s => refl s

/-- Whatever else ends, the connection stays. -/
theorem collect_sturdy : Secure Sturdy (collect cfg) := by
  have hdrop : Secure Sturdy (modify dropProtocol : LifeM M Unit) := by
    refine secure_modify fun s hs => ?_
    unfold dropProtocol
    split
    · exact ⟨hs.connAlive, hs.held⟩
    · exact hs
  have hkeep : Secure Sturdy (dropConnection cfg) := fun s hs => by
    rw [dropConnection_of_owned hs.connOwners]
    exact hs
  exact hdrop.bind fun _ => hkeep.bind fun _ => hdrop

theorem letGo_sturdy {f : Connection.State M → Connection.State M}
    (hf : ∀ c, (f c).writes.length = c.writes.length) :
    Secure Sturdy (do member (modify f); collect cfg : LifeM M Unit) := by
  refine Secure.bind ?_ fun _ => collect_sturdy cfg
  refine secure_guarded (E := fun c d => d.writes.length = c.writes.length) (fun c => hf c)
    (fun _ hs => hs.connAlive) fun s c hs hc => ⟨hs.connAlive, ?_⟩
  exact hs.held.trans_eq (congrArg (· + s.frames) hc.symm)

/-- What the members of the connection keep, and the end of the protocol, `stop` does. -/
theorem stop_secure {P : State M → Prop}
    (hmember : ∀ x : Connection.ConnM M Unit, Evolves Steady x → Secure P (member x))
    (hreset : Secure P (resetProtocol cfg)) : Secure P (stop cfg) := by
  have hsilent {x : Connection.ConnM M Unit} (hx : Evolves Silent x) : Secure P (member x) :=
    hmember x (steady_of_silent hx)
  have hflags : Secure P (member (modify fun s => { s with
      readClosed := true, writeClosed := true, log := s.log ++ [.stopBegan] }) : LifeM M Unit) :=
    hmember _ (evolves_modify fun _ => ⟨rfl, rfl, rfl, le_rfl, fun _ => rfl⟩)
  refine hflags.bind fun _ => (hsilent (vlogInfo_silent cfg)).bind fun _ => ?_
  refine (hsilent cancelReadTimer_silent).bind fun _ => ?_
  refine (hsilent cancelWriteTimer_silent).bind fun _ => ?_
  refine (hsilent (connectedCall_silent cfg)).bind fun _ => ?_
  exact (hmember _ (close_steady cfg)).bind fun _ => hreset

theorem stop_sturdy : Secure Sturdy (stop cfg) :=
  stop_secure cfg (fun _ => member_sturdy) (letGo_sturdy cfg fun _ => rfl)

theorem abort_sturdy : Secure Sturdy (abort cfg) := by
  have hdetach : Secure Sturdy (detachConnection cfg) := letGo_sturdy cfg fun _ => rfl
  refine get_sturdy.bind fun _ => Secure.ite (fun _ => ?_) fun _ => ?_
  · exact hdetach.bind fun _ => stop_sturdy cfg
  · exact (record_sturdy _).bind fun _ => secure_throw _

theorem abortWith_sturdy (e : Connection.ErrorCode) : Secure Sturdy (abortWith cfg e) :=
  Secure.ite (fun _ => abort_sturdy cfg) fun _ => secure_pure ()

theorem failed_sturdy {log : Connection.ConnM M Unit} (hlog : Evolves Silent log)
    (e : Connection.ErrorCode) :
    Secure Sturdy (do
      if e ≠ .operationAborted then member log
      abortWith cfg e) :=
  Secure.ite (fun _ => (silent_sturdy hlog).bind fun _ => abortWith_sturdy cfg e)
    fun _ => abortWith_sturdy cfg e

/-- What a program does without fault, it does as any run of it. -/
theorem safe_keeps {α : Type} {x : LifeM M α} {y : Connection.ConnM M α} {P : State M → Prop}
    (h : Runs x y) (hx : Safe P (x s)) :
    Safe (fun t => P t ∧ Keeps s t ∧ Decays s.conn t.conn) (x s) := by
  have hagrees := h.agrees s
  have hkeeps := h.keeps s
  have hdecays := h.evolves s.conn
  cases hrun : x s with
  | ok a t =>
    rw [hrun] at hx hagrees hkeeps
    have hconn : after y s.conn = t.conn := after_ok hagrees
    exact ⟨hx, hkeeps, hconn ▸ hdecays⟩
  | error e t =>
    rw [hrun] at hx hagrees hkeeps
    cases e with
    | inl e =>
      have hconn : after y s.conn = t.conn := after_error hagrees
      exact ⟨hx, hkeeps, hconn ▸ hdecays⟩
    | inr f => exact hx.elim

/-- A scope that is left without a destructor's complaint. -/
theorem ending_safe {x : LifeM M Unit} {f : State M → State M} {P Q : State M → Prop}
    (hx : Safe P (x s)) (hf : ∀ t, P t → Safe Q (collect cfg (f t))) :
    Safe Q (ending cfg x f s) := by
  rw [ending_run]
  cases hrun : x s with
  | ok a t =>
    rw [hrun] at hx
    exact hf t hx
  | error e t =>
    rw [hrun] at hx
    cases e with
    | inl e => exact (hf t hx).rethrow e
    | inr f => exact hx.elim

theorem entered_sturdy (h : s.connAlive = true) : Sturdy (entered s) := ⟨h, Nat.succ_pos _⟩

theorem holding_sturdy {x : LifeM M Unit} {y : Connection.ConnM M Unit} (h : Runs x y)
    (hx : Secure Sturdy x) : Secure Sturdy (holding cfg x) := by
  intro s hs
  rw [holding_run, if_pos hs.connAlive]
  refine ending_safe cfg (safe_keeps h (hx _ (entered_sturdy hs.connAlive))) fun t ht => ?_
  obtain ⟨hsturdy, hkeeps, -⟩ := ht
  refine collect_sturdy cfg _ ⟨hsturdy.connAlive, ?_⟩
  have hframes : t.frames = s.frames + 1 := hkeeps.frames
  have hwrites : s.conn.writes.length ≤ t.conn.writes.length := hkeeps.writes
  have hheld := hs.held
  simp only [leave]
  omega

theorem writeEncoded_sturdy (q : Connection.Queued M) (rest : List (Connection.Queued M))
    (a : Connection.AfterSend) (result : Except Connection.Fault M) :
    Secure Sturdy (writeEncoded cfg q rest a result) := by
  match result with
  | .error .exception =>
    exact (silent_sturdy (droppingLogInfo_silent cfg)).bind fun _ => abort_sturdy cfg
  | .error .crash => exact secure_throw _
  | .ok msg =>
    have hqueue : Secure Sturdy (member (modify fun s => { s with
        outMsgQueue := ⟨q.id, msg⟩ :: rest }) : LifeM M Unit) :=
      modify_sturdy fun _ => ⟨rfl, rfl, rfl, le_rfl, id⟩
    have hwrite : Secure Sturdy (member (Connection.asyncWriteOp q.id a) : LifeM M Unit) :=
      modify_sturdy fun _ => ⟨rfl, rfl, rfl, by simp, id⟩
    exact hqueue.bind fun _ => (record_sturdy _).bind fun _ => hwrite

theorem encodeFront_sturdy (a : Connection.AfterSend) : Secure Sturdy (encodeFront cfg a) := by
  refine get_sturdy.bind fun s => ?_
  match s.outMsgQueue with
  | [] => exact secure_throw _
  | q :: rest => exact (record_sturdy _).bind fun _ => writeEncoded_sturdy cfg q rest a _

theorem doSend_sturdy (a : Connection.AfterSend) : Secure Sturdy (doSend cfg a) :=
  (silent_sturdy updateWriteTimer_silent).bind fun _ =>
    holding_sturdy cfg (encodeFront_runs cfg a) (encodeFront_sturdy cfg a)

theorem keepSending_sturdy : Secure Sturdy (keepSending cfg) :=
  get_sturdy.bind fun _ => Secure.ite (fun _ => silent_sturdy cancelWriteTimer_silent)
    fun _ => doSend_sturdy cfg _

/-- The handler of a write holds the connection. -/
theorem writeHandler_sturdy (op : Connection.WriteOp) (e : Connection.ErrorCode) :
    Secure Sturdy (writeHandler cfg op e) := by
  refine Secure.ite (fun _ => ?_) fun _ => failed_sturdy cfg (dlogInfo_silent cfg) e
  refine (record_sturdy _).bind fun _ => (silent_sturdy (dvlogInfo_silent cfg)).bind fun _ => ?_
  refine (member_sturdy popFront_steady).bind fun _ => ?_
  cases op.afterSend with
  | keepSending => exact keepSending_sturdy cfg
  | stop => exact stop_sturdy cfg

end Sturdy

section Kept

variable {M : Type} {cfg : Connection.Config M} {s : State M}

/-- With every call that is not used after its end: the connection can only be destroyed once it
was stopped. -/
theorem collect_marked (h : Held s) (hmarked : Marked s.conn) :
    Safe (fun t => Same s t ∧ Owned t) (collect cfg s) := by
  rcases collect_cases cfg s with ⟨t, ht, hsame, howned⟩ | ⟨t, ht, hsame, hheld, halive, hnone, hrun⟩
  · rw [ht]
    exact ⟨hsame, howned h⟩
  · exfalso
    rw [hsame.conn] at hrun
    simp only [connOwners, hsame.conn] at hnone
    have hattached : s.conn.attached = true := by
      by_contra hlost
      exact absurd ((hmarked.lost (by simpa using hlost)).symm.trans hrun) (by simp)
    have hprotocol : t.conn.protocol = true := by
      rw [hsame.conn]
      by_contra hreset
      exact absurd ((hmarked.reset (by simpa using hreset)).symm.trans hrun) (by simp)
    have hprot : t.protAlive = true := by
      refine (hheld h).prot ?_
      simp only [protOwners, halive, hprotocol, Bool.and_self, Bool.toNat_true]
      omega
    simp [hattached, hprot] at hnone

theorem holding_marked {x : LifeM M Unit} {y : Connection.ConnM M Unit} (h : Runs x y)
    (hx : Secure Sturdy x) (hs : Owned s) (halive : s.connAlive = true) (hmarked : Marked s.conn) :
    Safe (fun _ => True) (holding cfg x s) := by
  rw [holding_run, if_pos halive]
  refine ending_safe cfg (safe_keeps h (hx _ (entered_sturdy halive))) fun t ht => ?_
  obtain ⟨-, hkeeps, hdecays⟩ := ht
  have hheld : Held (leave t) := leave_held (hkeeps.owned (entered_owned hs halive))
  have hlast : Marked (leave t).conn := hmarked.decays hdecays
  exact (collect_marked hheld hlast).mono fun _ _ => trivial

/-- The protocol is held, and holds the connection. -/
structure Anchored (s : State M) : Prop where
  owned : Owned s
  attached : s.conn.attached = true
  keepers : 0 < s.keepers

theorem Anchored.protAlive (h : Anchored s) : s.protAlive = true :=
  h.owned.prot (Nat.add_pos_right _ h.keepers)

theorem Anchored.connOwners (h : Anchored s) : 0 < Ownership.connOwners s := by
  simp only [Ownership.connOwners, h.protAlive, h.attached, Bool.and_self, Bool.toNat_true]
  omega

theorem Anchored.connAlive (h : Anchored s) : s.connAlive = true := h.owned.conn h.connOwners

theorem member_anchored {α : Type} {x : Connection.ConnM M α} (hx : Evolves Steady x) :
    Secure Anchored (member x) :=
  secure_guarded hx (fun _ hs => hs.connAlive) fun _ _ hs hc =>
    ⟨setConn_owned hc hs.connAlive hs.owned, hc.attached.trans hs.attached, hs.keepers⟩

variable (cfg) in
theorem stop_anchored : Secure Anchored (stop cfg : LifeM M Unit) := by
  refine stop_secure cfg (fun _ => member_anchored) fun s hs => ?_
  let t := setConn s { s.conn with protocol := false, log := s.conn.log ++ [.stopped] }
  have hrun : resetProtocol cfg s = collect cfg t := by
    rw [resetProtocol, bind_run, member, guarded, if_pos hs.connAlive]
    rfl
  have hconn : 0 < Ownership.connOwners t := hs.connOwners
  have hprot : 0 < protOwners t := Nat.add_pos_right _ hs.keepers
  have howned : Owned t :=
    ⟨⟨fun _ => hs.connAlive, fun _ => hs.protAlive, fun _ h => by cases h⟩, fun _ => hconn,
      fun _ => hprot⟩
  rw [hrun, collect_of_owned hconn hprot]
  exact ⟨howned, hs.attached, hs.keepers⟩

/-- What holds between the actions of a protocol that is held. -/
structure Kept (s : State M) : Prop where
  owned : Owned s
  marked : Marked s.conn
  keepers : 0 < s.keepers

theorem Kept.protAlive (h : Kept s) : s.protAlive = true :=
  h.owned.prot (Nat.add_pos_right _ h.keepers)

theorem Kept.anchored (h : Kept s) (hattached : s.conn.attached = true) : Anchored s :=
  ⟨h.owned, hattached, h.keepers⟩

theorem secure_kept {α : Type} {x : LifeM M α} {y : Connection.ConnM M α} (h : Runs x y)
    (hx : ∀ s, Kept s → Safe (fun _ => True) (x s)) : Secure Kept x := fun s hs =>
  (safe_keeps h (hx s hs)).mono fun _ ht =>
    ⟨ht.2.1.owned hs.owned, hs.marked.decays ht.2.2, hs.keepers.trans_le ht.2.1.keepers⟩

variable (cfg)

theorem viaConnection_kept {x : LifeM M Unit} {y : Connection.ConnM M Unit} (h : Runs x y)
    (hx : ∀ s, Anchored s → Marked s.conn → Safe (fun _ => True) (x s)) :
    Secure Kept (viaConnection x) := by
  refine secure_kept (viaConnection_runs h) fun s hs => ?_
  have hget : ofProtocol get s = .ok s.conn s := by
    rw [ofProtocol, guarded, if_pos hs.protAlive]
    rfl
  rw [viaConnection, bind_ok hget]
  split
  · next hattached => exact hx s (hs.anchored hattached) hs.marked
  · trivial

/-- A message may be sent through a protocol that is held: where the connection is destroyed in it,
this is the last that happens. -/
theorem trySendOrEnqueueThen_safe (msg : M) (a : Connection.AfterSend) (s : State M)
    (hs : Anchored s) (hmarked : Marked s.conn) :
    Safe (fun _ => True) (trySendOrEnqueueThen cfg msg a s) := by
  have hmember {α : Type} {x : Connection.ConnM M α} (hx : Evolves Steady x) :
      Secure (fun t => Anchored t ∧ Marked t.conn) (member x) :=
    secure_guarded hx (fun _ ht => ht.1.connAlive) fun _ _ ht hc =>
      ⟨⟨setConn_owned hc ht.1.connAlive ht.1.owned, hc.attached.trans ht.1.attached, ht.1.keepers⟩,
        ht.2.decays hc.decays⟩
  refine (hmember (fun s => refl s) s ⟨hs, hmarked⟩).bind (fun _ _ => trivial) fun c t ht => ?_
  split
  · refine (hmember (evolves_modify fun _ => ?_) t ht).bind (fun _ _ => trivial) fun _ u hu => ?_
    · exact ⟨rfl, rfl, rfl, le_rfl, id⟩
    · split
      · refine (hmember (steady_of_silent updateWriteTimer_silent) u hu).bind (fun _ _ => trivial)
          fun _ v hv => ?_
        exact holding_marked (encodeFront_runs cfg a) (encodeFront_sturdy cfg a) hv.1.owned
          hv.1.connAlive hv.2
      · trivial
  · trivial

theorem stop_kept : Secure Kept (viaConnection (stop cfg)) :=
  viaConnection_kept (stop_runs cfg) fun s hs _ => (stop_anchored cfg s hs).mono fun _ _ => trivial

/-- An action through the pointer of the protocol. -/
def ofPointer : Act M → Bool
  | .act (.read _) => false
  | _ => true

theorem act_kept (act : Act M) (hact : ofPointer act = true) : Secure Kept (act.exec cfg) := by
  have hmember {y : Connection.ConnM M Unit} (hy : Evolves Steady y) :
      Secure Kept (viaConnection (member y)) :=
    viaConnection_kept (member_simulates (fun _ _ => Steady.decays) hy) fun s hs _ =>
      (member_anchored hy s hs).mono fun _ _ => trivial
  match act, hact with
  | .act (.send msg), _ =>
    exact viaConnection_kept (trySendOrEnqueueThen_runs cfg msg .keepSending)
      (trySendOrEnqueueThen_safe cfg msg .keepSending)
  | .act (.sendAndStop msg), _ =>
    exact viaConnection_kept (trySendOrEnqueueThen_runs cfg msg .stop)
      (trySendOrEnqueueThen_safe cfg msg .stop)
  | .act .stop, _ => exact stop_kept cfg
  | .act .stopReceiving, _ => exact hmember (stopReceiving_steady cfg)
  | .act .stopSending, _ => exact hmember (stopSending_steady cfg)
  | .share, _ =>
    refine secure_kept (share_runs cfg) fun s hs => ?_
    have hpure : ofProtocol (pure ()) s = .ok () s := by
      rw [ofProtocol, guarded, if_pos hs.protAlive]
      rfl
    rw [Act.exec, bind_ok hpure]
    trivial

theorem runActs_kept (acts : List (Act M)) (hacts : ∀ act ∈ acts, ofPointer act = true) :
    Secure Kept (runActs cfg acts) := by
  induction acts with
  | nil => exact secure_pure ()
  | cons act acts ih =>
    have hact := act_kept cfg act (hacts act (.head _))
    have hcaught : Secure Kept (catchException (act.exec cfg) (pure ())) :=
      hact.catching fun e => by
        cases e with
        | exception => exact secure_pure ()
        | crash => exact secure_throw _
    exact hcaught.bind fun _ => ih fun act h => hacts act (.tail _ h)

/-- The wrapped handler of a protocol that is held. -/
theorem wrappedHandler_kept (script : Script M) (hacts : ∀ act ∈ script.acts, ofPointer act = true) :
    Secure Kept (wrappedHandler cfg script) := by
  have hget : Secure Kept (ofProtocol get : LifeM M (Connection.State M)) := by
    refine secure_kept (guarded_simulates (fun _ _ => Steady.decays) still_get
      fun _ _ hs => hs.protAlive) fun s hs => ?_
    rw [ofProtocol, guarded, if_pos hs.protAlive]
    trivial
  have hnoted (a : Connection.Action) : Secure Kept (noted (Connection.record a) : LifeM M Unit) :=
    secure_kept (guarded_simulates (fun _ _ => Steady.decays)
      (evolves_modify fun _ => ⟨⟨rfl, rfl, rfl, le_rfl, id⟩, rfl⟩) fun _ _ _ => rfl) fun _ _ => trivial
  have hlog : Secure Kept (viaConnection (member (Connection.droppingLogInfo cfg))) :=
    viaConnection_kept (silent_runs (droppingLogInfo_silent cfg)) fun s hs _ =>
      (member_anchored (steady_of_silent (droppingLogInfo_silent cfg)) s hs).mono fun _ _ => trivial
  have hscript : Secure Kept (script.run cfg) :=
    (runActs_kept cfg script.acts hacts).bind fun _ =>
      Secure.ite (fun _ => secure_throw _) fun _ => secure_pure ()
  refine hget.bind fun c => Secure.ite (fun _ => Secure.ite (fun _ => ?_) fun _ => stop_kept cfg) fun _ => ?_
  · refine (hnoted _).bind fun _ => hscript.catching fun e => ?_
    cases e with
    | exception => exact hlog.bind fun _ => stop_kept cfg
    | crash => exact secure_throw _
  · exact (hnoted _).bind fun _ => secure_throw _

end Kept

section Owning

variable {M : Type} {cfg : Connection.Config M} {s t : State M} {e : Event M} {es : List (Event M)}

/-- The events in which what runs holds what it uses. A wrapped handler that looks at the message of
the connection is not among them. -/
def Owning : Event M → Prop
  | .wrapped script => ∀ act ∈ script.acts, ofPointer act = true
  | .deliverRead .. | .deliverReadWait _ | .deliverWriteWait _ => False
  | _ => True

theorem finish_safe {x : LifeM M Unit} {Q : State M → Prop} (h : Safe Q (x s))
    (hsettled : ∀ t, Q t → Q (settled t)) (hcrashed : ∀ t, Q t → Q (crashed t)) : Q (finish x s) := by
  unfold finish
  cases hrun : x s with
  | ok a t =>
    rw [hrun] at h
    exact hsettled t h
  | error e t =>
    rw [hrun] at h
    cases e with
    | inl e =>
      cases e with
      | exception => exact hsettled t h
      | crash => exact hsettled _ (hcrashed t h)
    | inr f => exact h.elim

theorem settled_crashed (s : State M) : (settled s).conn.crashed = s.conn.crashed := by
  unfold settled
  split
  · rfl
  · rfl

theorem settled_fault (s : State M) : (settled s).fault = s.fault := by
  unfold settled
  split
  · rfl
  · rfl

theorem finish_unfaulted {x : LifeM M Unit} (h : Safe (fun t => t.fault = none) (x s)) :
    (finish x s).fault = none :=
  finish_safe h (fun t ht => (settled_fault t).trans ht) fun _ ht => ht

theorem kept_of_resting (h : Resting s) (hkeepers : 0 < s.keepers) : Kept s :=
  ⟨h.owned, h.marked, hkeepers⟩

/-- A handler that lets go of its pointer in the end. -/
theorem ending_unfaulted {x : LifeM M Unit} {y : Connection.ConnM M Unit} {P : State M → Prop}
    (h : Runs x y) (hx : Safe P (x s)) {f : State M → State M} (hf : ∀ t, Owned t → Held (f t))
    (hconn : ∀ t, (f t).conn = t.conn) (hfault : ∀ t, (f t).fault = t.fault) (hs : Resting s)
    (hnone : s.fault = none) : (finish (ending cfg x f) s).fault = none := by
  refine finish_unfaulted (ending_safe cfg (safe_keeps h hx) fun t ht => ?_)
  obtain ⟨-, hkeeps, hdecays⟩ := ht
  have hmarked : Marked (f t).conn := by
    rw [hconn]
    exact hs.marked.decays hdecays
  refine (collect_marked (hf t (hkeeps.owned hs.owned)) hmarked).mono fun u hu => ?_
  exact hu.1.fault.trans ((hfault t).trans (hkeeps.fault.trans hnone))

theorem owning_next (h : Invariant s) (he : Enabled s e) (howning : Owning e) :
    (next cfg s e).fault = none := by
  have hnone : s.fault = none := he.1
  cases e with
  | start =>
    rw [start_next (h.fresh (plain_enabled he rfl).2)]
    exact hnone
  | call act =>
    obtain ⟨hstarted, hkeepers, -, hcall⟩ := he.2.2.2
    have hact : ofPointer (.act act) = true := by
      cases act with
      | read op => cases hcall
      | _ => rfl
    have hkept := act_kept cfg _ hact s (kept_of_resting (h.resting hstarted) hkeepers)
    refine finish_unfaulted ((safe_keeps (act_runs cfg act) hkept).mono fun t ht => ?_)
    exact ht.2.1.fault.trans hnone
  | wrapped script =>
    obtain ⟨hstarted, hkeepers⟩ := he.2.2.2
    have hresting := h.resting hstarted
    have hkept := wrappedHandler_kept cfg script howning s (kept_of_resting hresting hkeepers)
    exact ending_unfaulted (f := letGoProtocol) (wrappedHandler_runs cfg script) hkept
      (fun _ => letGoProtocol_held) (fun _ => rfl) (fun _ => rfl) hresting hnone
  | release =>
    obtain ⟨hstarted, -⟩ := he.2.2.2
    rw [release_next]
    exact ending_unfaulted (f := letGoProtocol) (P := fun _ => True) (simulates_pure ()) trivial
      (fun _ => letGoProtocol_held) (fun _ => rfl) (fun _ => rfl) (h.resting hstarted) hnone
  | asio e => exact hnone
  | deliverWrite i =>
    obtain ⟨op, e, hop, -, hnext, -⟩ := deliverWrite_next cfg he
    have hstarted := h.started (Or.inr (Or.inl (ne_nil_of_getElem? hop)))
    have hresting := (h.resting hstarted).movedOut hop
    have hframes : 0 < (movedOut s i).frames := Nat.succ_pos _
    have hsturdy : Sturdy (movedOut s i) :=
      ⟨hresting.owned.conn (Nat.add_pos_right _ hframes), Nat.add_pos_right _ hframes⟩
    rw [hnext]
    exact ending_unfaulted (f := leave) (writeHandler_runs cfg op e)
      (writeHandler_sturdy cfg op e _ hsturdy) (fun _ => leave_held) (fun _ => rfl) (fun _ => rfl)
      hresting hnone
  | deliverRead i script => exact howning.elim
  | deliverReadWait i => exact howning.elim
  | deliverWriteWait i => exact howning.elim

/-- Something is used after its destruction only in the handler of a read or of a timer, or in a
wrapped handler that looks at the message of the connection. -/
theorem fault_not_owning (h : Reachable cfg es s) (hfault : s.fault ≠ none) :
    ∃ fs e t, es = fs ++ [e] ∧ Reachable cfg fs t ∧ Enabled t e ∧ s = next cfg t e ∧ ¬ Owning e := by
  obtain ⟨uninitialised, hrun⟩ := h
  cases hrun with
  | refl => exact absurd rfl hfault
  | @tail fs t e hrun he =>
    have he : Enabled t e := he
    refine ⟨fs, e, t, rfl, ⟨uninitialised, hrun⟩, he, rfl, fun howning => hfault ?_⟩
    exact owning_next (reachable_invariant ⟨uninitialised, hrun⟩ he.1) he howning

/-- A read timer that expires while nothing is written. -/
def idleTimeout : List (Event ℕ) :=
  [.start, .asio (.expireRead 0 .success), .deliverReadWait 0]

theorem fault_not_owning_timeout : ∃ fs e t, idleTimeout = fs ++ [e] ∧
    Reachable SendQueue.plainConfig fs t ∧ Enabled t e ∧
      plainLife idleTimeout = next SendQueue.plainConfig t e ∧ ¬ Owning e := by
  have hvalid : ValidTrace (system SendQueue.plainConfig) (initial fun _ => 0) idleTimeout := by
    decide
  exact fault_not_owning ⟨_, valid_trace_run hvalid⟩ (by decide)

end Owning

section Backed

variable {M : Type} {cfg : Connection.Config M} {s : State M} {e : Event M} {es : List (Event M)}
  {x : LifeM M Unit} {y : Connection.ConnM M Unit}

theorem good_of_owned (hs : Owned s) {c : Connection.State M} (hd : Decays s.conn c)
    (hconn : c.attached = true ∨ 0 < s.conn.writes.length + s.frames)
    (hprot : c.protocol = true ∨ 0 < s.keepers) : Good c s := by
  have hheld (h : 0 < s.conn.writes.length + s.frames) : s.connAlive = true := by
    refine hs.conn (h.trans_le ?_)
    unfold connOwners
    omega
  rcases hprot with hprotocol | hkeepers
  · have halive : s.connAlive = true := by
      rcases hconn with hattached | hwrites
      · exact hs.cycle (hd.attached hattached) (hd.protocol hprotocol)
      · exact hheld hwrites
    have hprotAlive : s.protAlive = true := by
      refine hs.prot ?_
      rw [protOwners, halive, hd.protocol hprotocol]
      exact Nat.add_pos_left Nat.one_pos _
    exact ⟨⟨halive, hprotAlive, hconn, Or.inl hprotocol⟩, hs⟩
  · have hprotAlive : s.protAlive = true := hs.prot (Nat.add_pos_right _ hkeepers)
    have halive : s.connAlive = true := by
      rcases hconn with hattached | hwrites
      · refine hs.conn ?_
        rw [connOwners, hprotAlive, hd.attached hattached]
        exact Nat.add_pos_left (Nat.add_pos_left Nat.one_pos _) _
      · exact hheld hwrites
    exact ⟨⟨halive, hprotAlive, hconn, Or.inr hkeepers⟩, hs⟩

/-- A program at whose end both have an owner. -/
theorem backed_program (h : Runs x y) (hs : Owned s)
    (hconn : (Connection.finish y s.conn).attached = true ∨ 0 < s.conn.writes.length + s.frames)
    (hprot : (Connection.finish y s.conn).protocol = true ∨ 0 < s.keepers) :
    Safe (Good (after y s.conn)) (x s) := by
  obtain ⟨b, hb⟩ := finish_eq y s.conn
  rw [hb] at hconn hprot
  exact h.good s _ (good_of_owned hs (h.evolves s.conn) hconn hprot) (refl _)

theorem backed_handler (h : Runs x y) (hs : Owned s) (hnone : s.fault = none)
    (hconn : (Connection.finish y s.conn).attached = true ∨ 0 < s.conn.writes.length + s.frames)
    (hprot : (Connection.finish y s.conn).protocol = true ∨ 0 < s.keepers) :
    (finish x s).fault = none :=
  finish_unfaulted ((safe_keeps h (backed_program h hs hconn hprot)).mono fun _ ht =>
    ht.2.1.fault.trans hnone)

/-- Whatever the protocol does in it, a step uses nothing after its destruction if both objects have
an owner at its end. -/
theorem backed_safe (h : Reachable cfg es s) (he : Enabled s e)
    (hconn : (plainNext cfg s.conn e).attached = true ∨ s.conn.writes ≠ [])
    (hprot : (plainNext cfg s.conn e).protocol = true ∨ 0 < s.keepers) :
    (next cfg s e).fault = none := by
  have hinvariant := reachable_invariant h he.1
  have hheld : (plainNext cfg s.conn e).attached = true ∨ 0 < s.conn.writes.length + s.frames :=
    hconn.imp_right fun hwrites => Nat.add_pos_left (List.length_pos_of_ne_nil hwrites) _
  cases e with
  | wrapped script =>
    obtain ⟨hstarted, -⟩ := he.2.2.2
    have hresting := hinvariant.resting hstarted
    exact ending_unfaulted (f := letGoProtocol) (wrappedHandler_runs cfg script)
      (backed_program (wrappedHandler_runs cfg script) hresting.owned hheld hprot)
      (fun _ => letGoProtocol_held) (fun _ => rfl) (fun _ => rfl) hresting he.1
  | deliverRead i script =>
    obtain ⟨op, e, hop, -, hnext, hplain⟩ := deliverRead_next cfg he
    have hresting := hinvariant.resting (hinvariant.started (Or.inl (ne_nil_of_getElem? hop)))
    rw [hplain] at hheld hprot
    rw [hnext]
    exact backed_handler (readHandler_runs cfg op e script)
      (hresting.read (s.conn.reads.eraseIdx i)).owned he.1 hheld hprot
  | deliverReadWait i =>
    obtain ⟨w, e, hw, hnext, hplain⟩ := deliverReadWait_next cfg he
    have hstarted := hinvariant.started (Or.inr (Or.inr (Or.inl (ne_nil_of_getElem? hw))))
    rw [hplain] at hheld hprot
    rw [hnext]
    exact backed_handler (timerHandler_runs cfg e)
      ((hinvariant.resting hstarted).readWait (s.conn.readWaits.eraseIdx i)).owned he.1 hheld hprot
  | deliverWriteWait i =>
    obtain ⟨w, e, hw, hnext, hplain⟩ := deliverWriteWait_next cfg he
    have hstarted := hinvariant.started (Or.inr (Or.inr (Or.inr (ne_nil_of_getElem? hw))))
    rw [hplain] at hheld hprot
    rw [hnext]
    exact backed_handler (timerHandler_runs cfg e)
      ((hinvariant.resting hstarted).writeWait (s.conn.writeWaits.eraseIdx i)).owned he.1 hheld hprot
  | start | call act | release | asio e | deliverWrite i => exact owning_next hinvariant he trivial

/-- A connection that received the header of its first message. -/
def headerReceived : State ℕ := plainLife [.start, .asio (.completeRead 0 .success [8, 0])]

theorem headerReceived_reachable : Reachable SendQueue.plainConfig
    [.start, .asio (.completeRead 0 .success [8, 0])] headerReceived :=
  ⟨_, valid_trace_run (by decide +kernel)⟩

theorem backed_safe_header :
    (next SendQueue.plainConfig headerReceived (.deliverRead 0 ⟨[], false⟩)).fault = none :=
  backed_safe headerReceived_reachable (by decide +kernel) (by decide +kernel) (by decide +kernel)

end Backed

end Destruction
