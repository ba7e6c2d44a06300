import Otservpp.OwnedRuns

/-! # What is used after its destruction

Runs of a connection and its protocol as objects that end. As long as the connection is alive and
nothing was used after its end, its state is that of a run of the connection on its own, so that
everything said about those runs is said about the object. Where an object is used after its end
the run is over: nothing can be said about what follows. -/
namespace Lifetime

open EventSystem Ownership ProgramLogic Instrumented Lifecycle

/-- Calls and wrapped handlers come from continuations, of which `release` destroys one. -/
inductive Event (M : Type) where
  | start
  | call (act : Connection.Act M)
  | wrapped (script : Script M)
  | release
  | asio (e : Connection.Event M)
  | deliverRead (i : ℕ) (script : Script M)
  | deliverWrite (i : ℕ)
  | deliverReadWait (i : ℕ)
  | deliverWriteWait (i : ℕ)

section System

variable {M : Type} (cfg : Connection.Config M)

/-- The end of an operation, or of the peer. -/
def isAsio : Connection.Event M → Bool
  | .peerDisconnected | .completeRead .. | .completeWrite .. | .expireRead .. | .expireWrite .. =>
    true
  | _ => false

def ofCall : Connection.Act M → Option (Connection.Event M)
  | .read _ => none
  | .send msg => some (.send msg)
  | .sendAndStop msg => some (.sendAndStop msg)
  | .stop => some .stop
  | .stopReceiving => some .stopReceiving
  | .stopSending => some .stopSending

/-- What the connection on its own would do. -/
def plain : Event M → Option (Connection.Event M)
  | .start => some .start
  | .call act => ofCall act
  | .wrapped script => some (.wrapped script.plain)
  | .release => none
  | .asio e => some e
  | .deliverRead i script => some (.deliverRead i script.plain)
  | .deliverWrite i => some (.deliverWrite i)
  | .deliverReadWait i => some (.deliverReadWait i)
  | .deliverWriteWait i => some (.deliverWriteWait i)

/-- The one who creates the two objects starts the connection and lets go of both. -/
def initial (uninitialised : ByteMemory.Memory) : State M where
  conn := Connection.initial uninitialised
  connAlive := true
  protAlive := true
  frames := 1
  keepers := 1
  fault := none

def Enabled (s : State M) (e : Event M) : Prop :=
  s.fault = none ∧ s.conn.crashed = false ∧ (∀ b ∈ plain e, Connection.Enabled s.conn b) ∧
    match e with
    | .call act => s.conn.started = true ∧ 0 < s.keepers ∧ s.conn.attached = true ∧
        (ofCall act).isSome
    | .wrapped _ | .release => s.conn.started = true ∧ 0 < s.keepers
    | .asio e => isAsio e = true
    | _ => True

/-- The destructor closes the socket, which cancels what is in progress. -/
def destroyed (c : Connection.State M) : Connection.State M :=
  Connection.closed (Lifecycle.cancelled c)

/-- What a destruction cancels is delivered later, so it is accounted for at the end of a step. -/
def settled (s : State M) : State M :=
  if s.connAlive then s else { s with conn := destroyed s.conn }

def finish (x : LifeM M Unit) (s : State M) : State M :=
  match x s with
  | .ok _ t => settled t
  | .error (.inl .exception) t => settled t
  | .error (.inl .crash) t => settled { t with conn := { t.conn with crashed := true } }
  | .error (.inr f) t => { t with fault := some f }

def letGoBoth (s : State M) : State M :=
  { s with frames := s.frames - 1, keepers := s.keepers - 1 }

def letGoProtocol (s : State M) : State M := { s with keepers := s.keepers - 1 }

def onConn (s : State M) (f : Connection.State M → Connection.State M) : State M :=
  { s with conn := f s.conn }

/-- The handler of a write is moved out of its operation, and with it the pointer it holds. -/
def movedOut (s : State M) (i : ℕ) : State M :=
  entered (onConn s fun c => { c with writes := c.writes.eraseIdx i })

def next (s : State M) : Event M → State M
  | .start => finish (ending cfg (member (Connection.start cfg)) letGoBoth) s
  | .call act => finish ((Act.act act).exec cfg) s
  | .wrapped script => finish (ending cfg (wrappedHandler cfg script) letGoProtocol) s
  | .release => finish (letGo cfg letGoProtocol) s
  | .asio e => onConn s (Connection.next cfg · e)
  | .deliverRead i script =>
    match s.conn.reads[i]? with
    | some ⟨id, handler, phase, buffer, some e⟩ =>
      finish (readHandler cfg ⟨id, handler, phase, buffer, some e⟩ e script)
        (onConn s fun c => { c with reads := c.reads.eraseIdx i })
    | _ => s
  | .deliverWrite i =>
    match s.conn.writes[i]? with
    | some ⟨id, afterSend, some e⟩ =>
      finish (ending cfg (writeHandler cfg ⟨id, afterSend, some e⟩ e) leave) (movedOut s i)
    | _ => s
  | .deliverReadWait i =>
    match s.conn.readWaits[i]? with
    | some ⟨_, some e⟩ =>
      finish (timerHandler cfg e) (onConn s fun c => { c with readWaits := c.readWaits.eraseIdx i })
    | _ => s
  | .deliverWriteWait i =>
    match s.conn.writeWaits[i]? with
    | some ⟨_, some e⟩ =>
      finish (timerHandler cfg e) (onConn s fun c => { c with writeWaits := c.writeWaits.eraseIdx i })
    | _ => s

def system : System (State M) (Event M) := ⟨Enabled, next cfg⟩

instance (s : State M) (e : Event M) : Decidable (Enabled s e) := by
  unfold Enabled
  cases e <;> infer_instance

instance (s : State M) (e : Event M) : Decidable ((system cfg).Enabled s e) :=
  inferInstanceAs (Decidable (Enabled s e))

def Reachable (es : List (Event M)) (s : State M) : Prop :=
  ∃ uninitialised, Run (system cfg) (initial uninitialised) es s

end System

section Finish

variable {M : Type} {cfg : Connection.Config M} {s t : State M} {c d : Connection.State M}

/-- Nothing in progress is left of a connection that was destroyed. -/
structure Spent (c : Connection.State M) : Prop where
  reads : ∀ op ∈ c.reads, op.result.isSome = true
  readWaits : ∀ w ∈ c.readWaits, w.result.isSome = true
  writeWaits : ∀ w ∈ c.writeWaits, w.result.isSome = true

theorem destroyed_spent (c : Connection.State M) : Spent (destroyed c) := by
  refine ⟨?_, ?_, ?_⟩
  · intro op hop
    obtain ⟨old, -, rfl⟩ := List.mem_map.mp hop
    rfl
  · intro w hw
    obtain ⟨old, -, rfl⟩ := List.mem_map.mp hw
    rfl
  · intro w hw
    obtain ⟨old, -, rfl⟩ := List.mem_map.mp hw
    rfl

theorem settled_of_alive (h : s.connAlive = true) : settled s = s := if_pos h

theorem settled_of_dead (h : s.connAlive = false) :
    settled s = { s with conn := destroyed s.conn } := if_neg (by simp [h])

theorem destroyed_owned (h : Owned s) : Owned { s with conn := destroyed s.conn } := by
  have hconn : connOwners { s with conn := destroyed s.conn } = connOwners s := by
    simp [connOwners, destroyed, Connection.closed, Lifecycle.cancelled]
  exact ⟨⟨hconn ▸ h.conn, h.prot, h.cycle⟩, hconn ▸ h.conn_owned, h.prot_owned⟩

variable {x : LifeM M Unit} {y : Connection.ConnM M Unit}

def crashed (s : State M) : State M := onConn s fun c => { c with crashed := true }

theorem crashed_owned (h : Owned s) : Owned (crashed s) :=
  ⟨⟨h.conn, h.prot, h.cycle⟩, h.conn_owned, h.prot_owned⟩

theorem crashed_keeps (h : Keeps s t) : Keeps s (crashed t) :=
  ⟨fun hs => crashed_owned (h.owned hs), h.frames, h.keepers, h.fault, h.writes, h.dead⟩

theorem finish_decays (h : Evolves Decays y) (c : Connection.State M) :
    Decays c (Connection.finish y c) := by
  obtain ⟨b, hb⟩ := finish_eq y c
  have hdecays := h c
  rw [hb]
  exact ⟨hdecays.attached, hdecays.protocol, hdecays.started, hdecays.writes, hdecays.halted,
    hdecays.lost, hdecays.reset⟩

/-- A step ends with a fault or as the connection on its own would. -/
theorem finish_cases (h : Runs x y) (s : State M) :
    (∃ f, (finish x s).fault = some f) ∨
      ∃ t, Keeps s t ∧ t.conn = Connection.finish y s.conn ∧ finish x s = settled t := by
  have hagrees := h.agrees s
  have hkeeps := h.keeps s
  unfold finish Connection.finish
  match x s, hagrees, hkeeps with
  | .ok _ t, hagrees, hkeeps =>
    have hplain : y s.conn = .ok _ t.conn := hagrees
    rw [hplain]
    exact Or.inr ⟨t, hkeeps, rfl, rfl⟩
  | .error (.inl .exception) t, hagrees, hkeeps =>
    have hplain : y s.conn = .error _ t.conn := hagrees
    rw [hplain]
    exact Or.inr ⟨t, hkeeps, rfl, rfl⟩
  | .error (.inl .crash) t, hagrees, hkeeps =>
    have hplain : y s.conn = .error _ t.conn := hagrees
    rw [hplain]
    exact Or.inr ⟨crashed t, crashed_keeps hkeeps, rfl, rfl⟩
  | .error (.inr f) t, _, _ => exact Or.inl ⟨f, rfl⟩

variable (cfg) in
/-- The same where a pointer is let go of in the end, by a function `f` of the counts. -/
theorem ending_cases (h : Runs x y) {f : State M → State M}
    (hf : ∀ s, f (crashed s) = crashed (f s)) (s : State M) :
    (∃ e, (finish (ending cfg x f) s).fault = some e) ∨
      ∃ t u, Keeps s t ∧ t.conn = Connection.finish y s.conn ∧ Same (f t) u ∧
        (Held (f t) → Owned u) ∧ finish (ending cfg x f) s = settled u := by
  have hagrees := h.agrees s
  have hkeeps := h.keeps s
  rcases Ownership.ending_cases cfg x f s with
    ⟨t, u, ht, hu, hsame, howned⟩ | ⟨e, t, u, ht, hu, hsame, howned⟩ | ⟨e, u, hu⟩
  · rw [ht] at hagrees hkeeps
    have hplain : y s.conn = .ok () t.conn := hagrees
    exact Or.inr ⟨t, u, hkeeps, by rw [Connection.finish, hplain], hsame, howned, by rw [finish, hu]⟩
  · rw [ht] at hagrees hkeeps
    have hplain : y s.conn = .error e t.conn := hagrees
    cases e with
    | exception =>
      exact Or.inr ⟨t, u, hkeeps, by rw [Connection.finish, hplain], hsame, howned,
        by rw [finish, hu]⟩
    | crash =>
      refine Or.inr ⟨crashed t, crashed u, crashed_keeps hkeeps, ?_, ?_, ?_, by rw [finish, hu]; rfl⟩
      · rw [Connection.finish, hplain]
        rfl
      · rw [hf]
        exact ⟨by simp only [crashed, onConn, hsame.conn], hsame.frames, hsame.keepers, hsame.fault,
          hsame.dead⟩
      · rw [hf]
        exact fun hheld => crashed_owned (howned ⟨hheld.conn, hheld.prot, hheld.cycle⟩)
  · exact Or.inl ⟨e, by rw [finish, hu]⟩

end Finish

section Invariant

variable {M : Type} {cfg : Connection.Config M} {s t : State M}

structure Fresh (s : State M) : Prop where
  frames : s.frames = 1
  keepers : s.keepers = 1
  connAlive : s.connAlive = true
  protAlive : s.protAlive = true
  attached : s.conn.attached = true
  reads : s.conn.reads = []
  writes : s.conn.writes = []
  readWaits : s.conn.readWaits = []
  writeWaits : s.conn.writeWaits = []

/-- What holds of the two objects between the steps of a run without fault. -/
structure Invariant (s : State M) : Prop where
  owned : Owned s
  frames : s.conn.started = true → s.frames = 0
  fresh : s.conn.started = false → Fresh s
  lost : s.conn.attached = false → Connection.isStopped s.conn = true
  reset : s.conn.started = true → s.conn.protocol = false → Connection.isStopped s.conn = true
  spent : s.connAlive = false → Spent s.conn

theorem initial_invariant (uninitialised : ByteMemory.Memory) :
    Invariant (initial uninitialised : State M) := by
  refine ⟨⟨⟨fun _ => rfl, fun _ => rfl, fun _ _ => rfl⟩, fun _ => ?_, fun _ => ?_⟩, nofun,
    fun _ => ⟨rfl, rfl, rfl, rfl, rfl, rfl, rfl, rfl, rfl⟩, nofun, nofun, nofun⟩
  · exact Nat.succ_pos _
  · exact Nat.succ_pos _

/-- The connection is not let go of before it is stopped. -/
structure Marked (c : Connection.State M) : Prop where
  lost : c.attached = false → Connection.isStopped c = true
  reset : c.protocol = false → Connection.isStopped c = true

theorem Marked.decays {c d : Connection.State M} (h : Marked c) (hd : Decays c d) : Marked d := by
  constructor
  · intro hlost
    cases hc : c.attached with
    | false => exact hd.halted (h.lost hc)
    | true =>
      rcases hd.lost hc with hattached | hhalted
      · rw [hlost] at hattached
        cases hattached
      · exact hhalted
  · intro hreset
    cases hc : c.protocol with
    | false => exact hd.halted (h.reset hc)
    | true =>
      rcases hd.reset hc with hprotocol | hhalted
      · rw [hreset] at hprotocol
        cases hprotocol
      · exact hhalted

theorem started_invariant (howned : Owned t) (hstarted : t.conn.started = true)
    (hframes : t.frames = 0) (hmarked : Marked t.conn) : Invariant (settled t) := by
  cases halive : t.connAlive with
  | true =>
    rw [settled_of_alive halive]
    exact ⟨howned, fun _ => hframes, fun h => absurd (hstarted.symm.trans h) (by simp), hmarked.lost,
      fun _ => hmarked.reset, fun h => absurd (halive.symm.trans h) (by simp)⟩
  | false =>
    rw [settled_of_dead halive]
    exact ⟨destroyed_owned howned, fun _ => hframes,
      fun h => absurd (hstarted.symm.trans h) (by simp), hmarked.lost, fun _ => hmarked.reset,
      fun _ => destroyed_spent t.conn⟩

/-- What a step that faults nowhere has done; `c` is what the connection on its own would be. -/
structure Stepped (s : State M) (c : Connection.State M) (t : State M) : Prop where
  invariant : Invariant t
  dead : s.connAlive = false → t.connAlive = false
  conn : t.connAlive = true → t.conn = c

/-- What is done to the lists of the connection first does not matter. -/
theorem Stepped.of_same {r : State M} {c : Connection.State M} (h : Stepped s c t)
    (hr : r.connAlive = s.connAlive) : Stepped r c t :=
  ⟨h.invariant, fun hdead => h.dead (hr ▸ hdead), h.conn⟩

variable {x : LifeM M Unit} {y : Connection.ConnM M Unit}

/-- Between the steps of a started connection, while no function of it runs. -/
structure Resting (s : State M) : Prop where
  owned : Owned s
  started : s.conn.started = true
  marked : Marked s.conn

theorem Invariant.resting (h : Invariant s) (hstarted : s.conn.started = true) : Resting s :=
  ⟨h.owned, hstarted, h.lost, h.reset hstarted⟩

theorem settled_conn (h : (settled t).connAlive = true) : (settled t).conn = t.conn := by
  cases halive : t.connAlive with
  | true => rw [settled_of_alive halive]
  | false =>
    rw [settled_of_dead halive] at h
    exact absurd (halive.symm.trans h) (by simp)

theorem settled_dead (h : t.connAlive = false) : (settled t).connAlive = false := by
  rw [settled_of_dead h]
  exact h

theorem handler_stepped (h : Runs x y) (hs : Resting s) (hframes : s.frames = 0)
    (hfault : (finish x s).fault = none) : Stepped s (Connection.finish y s.conn) (finish x s) := by
  rcases finish_cases h s with ⟨f, hf⟩ | ⟨t, hkeeps, hconn, hfinish⟩
  · rw [hfault] at hf
    cases hf
  · have hdecays : Decays s.conn t.conn := hconn ▸ finish_decays h.evolves s.conn
    rw [hfinish]
    refine ⟨?_, fun hdead => settled_dead (hkeeps.dead hdead), fun halive => ?_⟩
    · exact started_invariant (hkeeps.owned hs.owned) (hdecays.started.trans hs.started)
        (hkeeps.frames.trans hframes) (hs.marked.decays hdecays)
    · exact (settled_conn halive).trans hconn

theorem ending_stepped (h : Runs x y) {f : State M → State M}
    (hf : ∀ s, f (crashed s) = crashed (f s)) (hconn : ∀ s, (f s).conn = s.conn)
    (hdead : ∀ s, (f s).connAlive = s.connAlive) (hheld : ∀ s, Owned s → Held (f s))
    (hs : Resting s) (hframes : ∀ t, t.frames = s.frames → (f t).frames = 0)
    (hfault : (finish (ending cfg x f) s).fault = none) :
    Stepped s (Connection.finish y s.conn) (finish (ending cfg x f) s) := by
  rcases ending_cases cfg h hf s with ⟨e, he⟩ | ⟨t, u, hkeeps, hplain, hsame, howned, hfinish⟩
  · rw [hfault] at he
    cases he
  · have hend : u.conn = Connection.finish y s.conn := (hsame.conn.trans (hconn t)).trans hplain
    have hdecays : Decays s.conn u.conn := hend ▸ finish_decays h.evolves s.conn
    rw [hfinish]
    refine ⟨?_, fun hs => settled_dead (hsame.dead ((hdead t).trans (hkeeps.dead hs))),
      fun halive => (settled_conn halive).trans hend⟩
    exact started_invariant (howned (hheld t (hkeeps.owned hs.owned)))
      (hdecays.started.trans hs.started) (hsame.frames.trans (hframes t hkeeps.frames))
      (hs.marked.decays hdecays)

variable (cfg) in
theorem start_conn (c : Connection.State M) (h : c.attached = true) :
    (Connection.next cfg c .start).attached = true ∧ (Connection.next cfg c .start).protocol = true ∧
      (Connection.next cfg c .start).started = true := by
  let begun : Connection.State M := { c with protocol := true, started := true }
  have hrest : Evolves Steady (do Connection.dvlogInfo cfg; Connection.parseIncomingMessage .first) := by
    refine (steady_of_silent (dvlogInfo_silent cfg)).bind fun _ =>
      (steady_of_silent updateReadTimer_silent).bind fun _ => evolves_modify fun _ => ?_
    exact ⟨rfl, rfl, rfl, le_rfl, id⟩
  have hsteady := hrest begun
  obtain ⟨b, hb⟩ := finish_eq (Connection.start cfg) c
  rw [Connection.next, hb]
  exact ⟨hsteady.attached.trans h, hsteady.protocol, hsteady.started⟩

theorem cycle_owners (hconn : s.connAlive = true) (hprot : s.protAlive = true)
    (hattached : s.conn.attached = true) (hprotocol : s.conn.protocol = true) :
    0 < connOwners s ∧ 0 < protOwners s := by
  simp only [connOwners, protOwners, hconn, hprot, hattached, hprotocol, Bool.and_self,
    Bool.toNat_true]
  omega

theorem start_next (h : Fresh s) : next cfg s .start =
    letGoBoth (setConn s (Connection.next cfg s.conn .start)) := by
  obtain ⟨hattached, hprotocol, -⟩ := start_conn cfg s.conn h.attached
  have hboth (c : Connection.State M) (ha : c.attached = true) (hp : c.protocol = true) :
      collect cfg (letGoBoth (setConn s c)) = .ok () (letGoBoth (setConn s c)) := by
    have howners : 0 < connOwners (letGoBoth (setConn s c)) ∧ 0 < protOwners (letGoBoth (setConn s c)) :=
      cycle_owners h.connAlive h.protAlive ha hp
    exact collect_of_owned howners.1 howners.2
  rw [Connection.next, Connection.finish] at hattached hprotocol ⊢
  rw [next, finish, ending_run]
  cases hrun : Connection.start cfg s.conn with
  | ok a c =>
    have hmember : member (Connection.start cfg) s = .ok a (setConn s c) := by
      rw [member, guarded, if_pos h.connAlive]
      simp only [hrun]
    rw [hrun] at hattached hprotocol
    rw [hmember]
    simp only [hboth c hattached hprotocol]
    exact settled_of_alive h.connAlive
  | error e c =>
    have hmember : member (Connection.start cfg) s = .error (.inl e) (setConn s c) := by
      rw [member, guarded, if_pos h.connAlive]
      simp only [hrun]
    rw [hrun] at hattached hprotocol
    rw [hmember]
    cases e with
    | exception =>
      simp only [bind_ok (hboth c hattached hprotocol)]
      exact settled_of_alive h.connAlive
    | crash =>
      simp only [bind_ok (hboth c hattached hprotocol)]
      exact settled_of_alive h.connAlive

theorem start_stepped (h : Fresh s) :
    Stepped s (Connection.next cfg s.conn .start) (next cfg s .start) := by
  obtain ⟨hattached, hprotocol, hstarted⟩ := start_conn cfg s.conn h.attached
  rw [start_next h]
  have howners : 0 < connOwners (letGoBoth (setConn s (Connection.next cfg s.conn .start))) ∧
      0 < protOwners (letGoBoth (setConn s (Connection.next cfg s.conn .start))) :=
    cycle_owners h.connAlive h.protAlive hattached hprotocol
  have howned : Owned (letGoBoth (setConn s (Connection.next cfg s.conn .start))) :=
    ⟨⟨fun _ => h.connAlive, fun _ => h.protAlive, fun _ _ => h.connAlive⟩, fun _ => howners.1,
      fun _ => howners.2⟩
  refine ⟨⟨howned, fun _ => ?_, ?_, ?_, ?_, ?_⟩, ?_, fun _ => rfl⟩
  · simp [letGoBoth, setConn, h.frames]
  · intro hnot
    exact absurd (hstarted.symm.trans hnot) (by simp)
  · intro hnot
    exact absurd (hattached.symm.trans hnot) (by simp)
  · intro _ hnot
    exact absurd (hprotocol.symm.trans hnot) (by simp)
  · intro hdead
    exact absurd (h.connAlive.symm.trans hdead) (by simp)
  · intro hdead
    exact absurd (h.connAlive.symm.trans hdead) (by simp)

end Invariant

section Steps

variable {M : Type} {cfg : Connection.Config M} {s t : State M} {e : Event M}

theorem plain_enabled {b : Connection.Event M} (he : Enabled s e) (hb : plain e = some b) :
    Connection.Enabled s.conn b := he.2.2.1 b hb

variable (cfg) in
/-- What the connection on its own would be after the step. -/
def plainNext (c : Connection.State M) (e : Event M) : Connection.State M :=
  match plain e with
  | some b => Connection.next cfg c b
  | none => c

/-- What the end of an operation leaves as it is. -/
structure AsioFrame (c d : Connection.State M) : Prop where
  attached : d.attached = c.attached
  protocol : d.protocol = c.protocol
  started : d.started = c.started
  stopped : Connection.isStopped d = Connection.isStopped c
  reads : d.reads.length = c.reads.length
  writes : d.writes.length = c.writes.length
  readWaits : d.readWaits.length = c.readWaits.length
  writeWaits : d.writeWaits.length = c.writeWaits.length
  spent : Spent c → Spent d

theorem asio_frame {c : Connection.State M} {e : Connection.Event M} (hasio : isAsio e = true)
    (he : Connection.Enabled c e) : AsioFrame c (Connection.next cfg c e) := by
  cases e with
  | peerDisconnected => exact ⟨rfl, rfl, rfl, rfl, rfl, rfl, rfl, rfl, fun h => ⟨h.reads, h.readWaits, h.writeWaits⟩⟩
  | completeRead i e data =>
    obtain ⟨op, hop, hresult, hnext⟩ := completeRead_next cfg he
    rw [hnext, Connection.readCompleted]
    have hspent (h : Spent c) : False := by
      have hdone := h.reads op (List.mem_of_getElem? hop)
      rw [hresult] at hdone
      cases hdone
    split
    · exact ⟨rfl, rfl, rfl, rfl, List.length_set, rfl, rfl, rfl, fun h => (hspent h).elim⟩
    · exact ⟨rfl, rfl, rfl, rfl, List.length_set, rfl, rfl, rfl, fun h => (hspent h).elim⟩
  | completeWrite i e =>
    obtain ⟨op, -, hnext⟩ := completeWrite_next cfg he
    rw [hnext]
    exact ⟨rfl, rfl, rfl, rfl, rfl, List.length_set, rfl, rfl, fun h => ⟨h.reads, h.readWaits, h.writeWaits⟩⟩
  | expireRead i e =>
    obtain ⟨-, ⟨w, hw, hpending⟩, -⟩ := he
    have hspent (h : Spent c) : False := by
      have hdone := h.readWaits w (List.mem_of_getElem? hw)
      rw [hpending] at hdone
      cases hdone
    exact ⟨rfl, rfl, rfl, rfl, rfl, rfl, List.length_modify .., rfl, fun h => (hspent h).elim⟩
  | expireWrite i e =>
    obtain ⟨-, ⟨w, hw, hpending⟩, -⟩ := he
    have hspent (h : Spent c) : False := by
      have hdone := h.writeWaits w (List.mem_of_getElem? hw)
      rw [hpending] at hdone
      cases hdone
    exact ⟨rfl, rfl, rfl, rfl, rfl, rfl, rfl, List.length_modify .., fun h => (hspent h).elim⟩
  | _ => cases hasio

theorem asio_stepped {d : Connection.State M} (h : Invariant s) (hd : AsioFrame s.conn d) :
    Stepped s d (setConn s d) := by
  have hconn : connOwners (setConn s d) = connOwners s := by
    simp only [connOwners, setConn, hd.attached, hd.writes]
  have hprot : protOwners (setConn s d) = protOwners s := by
    simp only [protOwners, setConn, hd.protocol]
  have howned : Owned (setConn s d) := by
    refine ⟨⟨hconn ▸ h.owned.conn, hprot ▸ h.owned.prot, fun ha hp => h.owned.cycle ?_ ?_⟩,
      hconn ▸ h.owned.conn_owned, hprot ▸ h.owned.prot_owned⟩
    · exact hd.attached ▸ ha
    · exact hd.protocol ▸ hp
  refine ⟨⟨howned, ?_, ?_, ?_, ?_, fun hdead => hd.spent (h.spent hdead)⟩, id, fun _ => rfl⟩
  · intro hstarted
    exact h.frames (hd.started ▸ hstarted)
  · intro hstarted
    obtain ⟨hf, hk, hc, hp, ha, hr, hw, hrw, hww⟩ := h.fresh (hd.started ▸ hstarted)
    have hnil {α : Type} {l l' : List α} (hl : l.length = l'.length) (hl' : l' = []) : l = [] :=
      List.length_eq_zero_iff.mp (hl.trans (by rw [hl']; rfl))
    exact ⟨hf, hk, hc, hp, hd.attached.trans ha, hnil hd.reads hr, hnil hd.writes hw,
      hnil hd.readWaits hrw, hnil hd.writeWaits hww⟩
  · intro hlost
    rw [show Connection.isStopped (setConn s d).conn = Connection.isStopped d from rfl, hd.stopped]
    exact h.lost (hd.attached ▸ hlost)
  · intro hstarted hreset
    rw [show Connection.isStopped (setConn s d).conn = Connection.isStopped d from rfl, hd.stopped]
    exact h.reset (hd.started ▸ hstarted) (hd.protocol ▸ hreset)

theorem viaConnection_attached {c : Connection.State M} (h : c.attached = true)
    (y : Connection.ConnM M Unit) : Connection.viaConnection y c = y c := by
  change (if c.attached = true then y else _ : Connection.ConnM M Unit) c = _
  rw [if_pos h]

/-- A call through the protocol is a call of the connection while the pointer is set. -/
theorem call_next {c : Connection.State M} (h : c.attached = true) {act : Connection.Act M}
    {b : Connection.Event M} (hb : ofCall act = some b) :
    Connection.finish (act.exec cfg) c = Connection.next cfg c b := by
  have hvia (y : Connection.ConnM M Unit) :
      Connection.finish (Connection.viaConnection y) c = Connection.finish y c := by
    unfold Connection.finish
    rw [viaConnection_attached h]
  cases act with
  | read op => cases hb
  | send msg => cases hb; exact hvia _
  | sendAndStop msg => cases hb; exact hvia _
  | stop => cases hb; exact hvia _
  | stopReceiving => cases hb; exact hvia _
  | stopSending => cases hb; exact hvia _

theorem Invariant.started (h : Invariant s) (hbusy : s.conn.reads ≠ [] ∨ s.conn.writes ≠ [] ∨
    s.conn.readWaits ≠ [] ∨ s.conn.writeWaits ≠ []) : s.conn.started = true := by
  by_contra hnot
  obtain ⟨-, -, -, -, -, hr, hw, hrw, hww⟩ := h.fresh (by simpa using hnot)
  rcases hbusy with hne | hne | hne | hne
  · exact hne hr
  · exact hne hw
  · exact hne hrw
  · exact hne hww

/-- An operation that is taken out of the lists of the connection changes no owner. -/
theorem Resting.still {d : Connection.State M} (h : Resting s) (hd : Still s.conn d) :
    Resting (setConn s d) := by
  have hwrites : d.writes.length = s.conn.writes.length := hd.2
  have hconn : connOwners (setConn s d) = connOwners s := by
    simp only [connOwners, setConn, hd.1.attached, hwrites]
  have hprot : protOwners (setConn s d) = protOwners s := by
    simp only [protOwners, setConn, hd.1.protocol]
  refine ⟨⟨⟨hconn ▸ h.owned.conn, hprot ▸ h.owned.prot, fun ha hp => h.owned.cycle ?_ ?_⟩,
    hconn ▸ h.owned.conn_owned, hprot ▸ h.owned.prot_owned⟩, hd.1.started.trans h.started,
    h.marked.decays hd.1.decays⟩
  · exact hd.1.attached ▸ ha
  · exact hd.1.protocol ▸ hp

theorem ne_nil_of_getElem? {α : Type} {l : List α} {i : ℕ} {a : α} (h : l[i]? = some a) : l ≠ [] := by
  rintro rfl
  cases h

/-- The pointer that the operation of a write held is now that of its handler. -/
theorem Resting.movedOut {i : ℕ} {op : Connection.WriteOp} (h : Resting s)
    (hop : s.conn.writes[i]? = some op) : Resting (movedOut s i) := by
  have hlength : (s.conn.writes.eraseIdx i).length + 1 = s.conn.writes.length := by
    obtain ⟨hlt, -⟩ := List.getElem?_eq_some_iff.mp hop
    rw [List.length_eraseIdx_of_lt hlt]
    omega
  have hconn : connOwners (Lifetime.movedOut s i) = connOwners s := by
    simp only [connOwners, Lifetime.movedOut, entered, onConn]
    omega
  exact ⟨⟨⟨hconn ▸ h.owned.conn, h.owned.prot, h.owned.cycle⟩, hconn ▸ h.owned.conn_owned,
    h.owned.prot_owned⟩, h.started, h.marked.lost, h.marked.reset⟩

section Deliveries

variable (cfg) {i : ℕ}

theorem deliverRead_next {script : Script M} (he : Enabled s (.deliverRead i script)) :
    ∃ op e, s.conn.reads[i]? = some op ∧ op.result = some e ∧
      next cfg s (.deliverRead i script) = finish (readHandler cfg op e script)
        (setConn s { s.conn with reads := s.conn.reads.eraseIdx i }) ∧
      plainNext cfg s.conn (.deliverRead i script) =
        Connection.finish (Connection.readHandler cfg op e script.plain)
          { s.conn with reads := s.conn.reads.eraseIdx i } := by
  obtain ⟨-, ⟨id, handler, phase, buffer, result⟩, hop, hresult⟩ := plain_enabled he rfl
  obtain ⟨e, rfl⟩ := Option.isSome_iff_exists.mp hresult
  refine ⟨_, e, hop, rfl, ?_, ?_⟩
  · simp only [next, Option.mem_def.mp hop]
    rfl
  · simp only [plainNext, plain, Connection.next, Option.mem_def.mp hop]

theorem deliverWrite_next (he : Enabled s (.deliverWrite i)) :
    ∃ op e, s.conn.writes[i]? = some op ∧ op.result = some e ∧
      next cfg s (.deliverWrite i) =
        finish (ending cfg (writeHandler cfg op e) leave) (movedOut s i) ∧
      plainNext cfg s.conn (.deliverWrite i) =
        Connection.finish (Connection.writeHandler cfg op e)
          { s.conn with writes := s.conn.writes.eraseIdx i } := by
  obtain ⟨-, ⟨id, afterSend, result⟩, hop, hresult⟩ := plain_enabled he rfl
  obtain ⟨e, rfl⟩ := Option.isSome_iff_exists.mp hresult
  refine ⟨_, e, hop, rfl, ?_, ?_⟩
  · simp only [next, Option.mem_def.mp hop]
  · simp only [plainNext, plain, Connection.next, Option.mem_def.mp hop]

theorem deliverReadWait_next (he : Enabled s (.deliverReadWait i)) :
    ∃ op e, s.conn.readWaits[i]? = some ⟨op, some e⟩ ∧
      next cfg s (.deliverReadWait i) = finish (timerHandler cfg e)
        (setConn s { s.conn with readWaits := s.conn.readWaits.eraseIdx i }) ∧
      plainNext cfg s.conn (.deliverReadWait i) = Connection.finish (Connection.timerHandler cfg e)
        { s.conn with readWaits := s.conn.readWaits.eraseIdx i } := by
  obtain ⟨-, ⟨op, result⟩, hw, hsome⟩ := plain_enabled he rfl
  obtain ⟨e, rfl⟩ := Option.isSome_iff_exists.mp hsome
  refine ⟨op, e, hw, ?_, ?_⟩
  · simp only [next, Option.mem_def.mp hw]
    rfl
  · simp only [plainNext, plain, Connection.next, Option.mem_def.mp hw]

theorem deliverWriteWait_next (he : Enabled s (.deliverWriteWait i)) :
    ∃ op e, s.conn.writeWaits[i]? = some ⟨op, some e⟩ ∧
      next cfg s (.deliverWriteWait i) = finish (timerHandler cfg e)
        (setConn s { s.conn with writeWaits := s.conn.writeWaits.eraseIdx i }) ∧
      plainNext cfg s.conn (.deliverWriteWait i) = Connection.finish (Connection.timerHandler cfg e)
        { s.conn with writeWaits := s.conn.writeWaits.eraseIdx i } := by
  obtain ⟨-, ⟨op, result⟩, hw, hsome⟩ := plain_enabled he rfl
  obtain ⟨e, rfl⟩ := Option.isSome_iff_exists.mp hsome
  refine ⟨op, e, hw, ?_, ?_⟩
  · simp only [next, Option.mem_def.mp hw]
    rfl
  · simp only [plainNext, plain, Connection.next, Option.mem_def.mp hw]

end Deliveries

theorem letGoProtocol_held (h : Owned s) : Held (letGoProtocol s) := by
  refine ⟨h.conn, fun hprot => h.prot (hprot.trans_le ?_), h.cycle⟩
  simp only [protOwners, letGoProtocol]
  omega

theorem Resting.read (h : Resting s) (ops : List Connection.ReadOp) :
    Resting (setConn s { s.conn with reads := ops }) :=
  h.still ⟨⟨rfl, rfl, rfl, le_rfl, id⟩, rfl⟩

theorem Resting.readWait (h : Resting s) (ws : List Connection.Wait) :
    Resting (setConn s { s.conn with readWaits := ws }) :=
  h.still ⟨⟨rfl, rfl, rfl, le_rfl, id⟩, rfl⟩

theorem Resting.writeWait (h : Resting s) (ws : List Connection.Wait) :
    Resting (setConn s { s.conn with writeWaits := ws }) :=
  h.still ⟨⟨rfl, rfl, rfl, le_rfl, id⟩, rfl⟩

variable (cfg s) in
theorem release_next :
    next cfg s .release = finish (ending cfg (pure ()) letGoProtocol) s := by
  rw [next, finish, finish, ending_run]
  rfl

/-- A step without fault keeps the invariant, and while the connection is alive it is a step of the
connection on its own. -/
theorem next_stepped (h : Invariant s) (he : Enabled s e) (hfault : (next cfg s e).fault = none) :
    Stepped s (plainNext cfg s.conn e) (next cfg s e) := by
  cases e with
  | start => exact start_stepped (h.fresh (plain_enabled he rfl).2)
  | call act =>
    obtain ⟨hstarted, -, hattached, hcall⟩ := he.2.2.2
    obtain ⟨b, hb⟩ := Option.isSome_iff_exists.mp hcall
    have hplain : plainNext cfg s.conn (.call act) = Connection.next cfg s.conn b := by
      rw [plainNext, plain, hb]
    rw [hplain, ← call_next hattached hb]
    exact handler_stepped (act_runs cfg act) (h.resting hstarted) (h.frames hstarted) hfault
  | wrapped script =>
    obtain ⟨hstarted, -⟩ := he.2.2.2
    exact ending_stepped (f := letGoProtocol) (wrappedHandler_runs cfg script) (fun _ => rfl) (fun _ => rfl)
      (fun _ => rfl) (fun _ => letGoProtocol_held) (h.resting hstarted)
      (fun t ht => ht.trans (h.frames hstarted)) hfault
  | release =>
    obtain ⟨hstarted, -⟩ := he.2.2.2
    rw [release_next] at hfault ⊢
    exact ending_stepped (f := letGoProtocol) (simulates_pure ()) (fun _ => rfl) (fun _ => rfl)
      (fun _ => rfl) (fun _ => letGoProtocol_held) (h.resting hstarted)
      (fun t ht => ht.trans (h.frames hstarted)) hfault
  | asio e => exact asio_stepped h (asio_frame he.2.2.2 (plain_enabled he rfl))
  | deliverRead i script =>
    obtain ⟨op, e, hop, -, hnext, hplain⟩ := deliverRead_next cfg he
    have hstarted := h.started (Or.inl (ne_nil_of_getElem? hop))
    rw [hnext] at hfault ⊢
    rw [hplain]
    exact (handler_stepped (readHandler_runs cfg op e script)
      ((h.resting hstarted).read (s.conn.reads.eraseIdx i)) (h.frames hstarted) hfault).of_same rfl
  | deliverWrite i =>
    obtain ⟨op, e, hop, -, hnext, hplain⟩ := deliverWrite_next cfg he
    have hstarted := h.started (Or.inr (Or.inl (ne_nil_of_getElem? hop)))
    have hleave (t : State M) (ht : t.frames = (movedOut s i).frames) : (leave t).frames = 0 := by
      have hone : t.frames = s.frames + 1 := ht
      change t.frames - 1 = 0
      rw [hone, h.frames hstarted]
    rw [hnext] at hfault ⊢
    rw [hplain]
    exact (ending_stepped (f := leave) (writeHandler_runs cfg op e) (fun _ => rfl) (fun _ => rfl)
      (fun _ => rfl) (fun _ => leave_held) ((h.resting hstarted).movedOut hop) hleave hfault).of_same
        rfl
  | deliverReadWait i =>
    obtain ⟨w, e, hw, hnext, hplain⟩ := deliverReadWait_next cfg he
    have hstarted := h.started (Or.inr (Or.inr (Or.inl (ne_nil_of_getElem? hw))))
    rw [hnext] at hfault ⊢
    rw [hplain]
    exact (handler_stepped (timerHandler_runs cfg e)
      ((h.resting hstarted).readWait (s.conn.readWaits.eraseIdx i)) (h.frames hstarted)
      hfault).of_same rfl
  | deliverWriteWait i =>
    obtain ⟨w, e, hw, hnext, hplain⟩ := deliverWriteWait_next cfg he
    have hstarted := h.started (Or.inr (Or.inr (Or.inr (ne_nil_of_getElem? hw))))
    rw [hnext] at hfault ⊢
    rw [hplain]
    exact (handler_stepped (timerHandler_runs cfg e)
      ((h.resting hstarted).writeWait (s.conn.writeWaits.eraseIdx i)) (h.frames hstarted)
      hfault).of_same rfl

end Steps

section Runs

variable {M : Type} {cfg : Connection.Config M} {s : State M} {es : List (Event M)}

theorem run_invariant {uninitialised : ByteMemory.Memory}
    (h : Run (system cfg) (initial uninitialised) es s) (hfault : s.fault = none) :
    Invariant s ∧ (s.connAlive = true →
      Run (Connection.system cfg) (Connection.initial uninitialised) (es.filterMap plain) s.conn) := by
  induction h with
  | refl => exact ⟨initial_invariant uninitialised, fun _ => .refl⟩
  | @tail es t e _ he ih =>
    have hbefore : t.fault = none := he.1
    obtain ⟨hinvariant, hrun⟩ := ih hbefore
    have hstepped : Stepped t (plainNext cfg t.conn e) (next cfg t e) :=
      next_stepped hinvariant he hfault
    refine ⟨hstepped.invariant, fun halive => ?_⟩
    have hsame : (next cfg t e).conn = plainNext cfg t.conn e := hstepped.conn halive
    have hprevious : t.connAlive = true := by
      by_contra hdead
      have hgone := hstepped.dead (by simpa using hdead)
      exact absurd (halive.symm.trans hgone) (by simp)
    have hplain := hrun hprevious
    change Run _ _ _ (next cfg t e).conn
    rw [List.filterMap_append, hsame, plainNext]
    cases hb : plain e with
    | some b =>
      rw [List.filterMap_cons_some hb]
      exact hplain.tail (plain_enabled he hb)
    | none =>
      rw [List.filterMap_cons_none hb, List.filterMap_nil, List.append_nil]
      exact hplain

theorem reachable_invariant (h : Reachable cfg es s) (hfault : s.fault = none) : Invariant s := by
  obtain ⟨uninitialised, hrun⟩ := h
  exact (run_invariant hrun hfault).1

/-- As long as nothing was used after its destruction, each object is alive exactly while it has an
owner, and while the connection is alive its state is that of a run of the connection on its own. -/
theorem lifetime_refines (h : Reachable cfg es s) (hfault : s.fault = none) :
    (s.connAlive = true ↔ 0 < connOwners s) ∧ (s.protAlive = true ↔ 0 < protOwners s) ∧
      (s.connAlive = true → Connection.Reachable cfg (es.filterMap plain) s.conn) := by
  obtain ⟨uninitialised, hrun⟩ := h
  obtain ⟨hinvariant, hplain⟩ := run_invariant hrun hfault
  obtain ⟨hheld, hconn, hprot⟩ := hinvariant.owned
  exact ⟨⟨hconn, hheld.conn⟩, ⟨hprot, hheld.prot⟩, fun halive => ⟨uninitialised, hplain halive⟩⟩

def plainLife (es : List (Event ℕ)) : State ℕ :=
  runTrace (system SendQueue.plainConfig) (initial fun _ => 0) es

/-- The first message is answered and the connection stopped, while a continuation holds the
protocol, which then lets go of it. -/
def lettingGo : List (Event ℕ) :=
  [.start, .asio (.completeRead 0 .success [8, 0]), .deliverRead 0 ⟨[], false⟩,
    .asio (.completeRead 0 .success [0, 0, 0, 0, 0, 0, 0, 0]),
    .deliverRead 0 ⟨[.share, .act (.send 10), .act .stop], false⟩, .release]

/-- The protocol has ended with its last owner; the write still holds the connection. -/
theorem lifetime_refines_lettingGo :
    0 < connOwners (plainLife lettingGo) ∧ ¬ (plainLife lettingGo).protAlive = true ∧
      Connection.Reachable SendQueue.plainConfig (lettingGo.filterMap plain)
        (plainLife lettingGo).conn := by
  have hvalid : ValidTrace (system SendQueue.plainConfig) (initial fun _ => 0) lettingGo := by
    decide +kernel
  have halive : (plainLife lettingGo).connAlive = true := by decide +kernel
  have hnone : ¬ 0 < protOwners (plainLife lettingGo) := by decide +kernel
  obtain ⟨hconn, hprot, hplain⟩ := lifetime_refines ⟨_, valid_trace_run hvalid⟩
    (show (plainLife lettingGo).fault = none by decide +kernel)
  exact ⟨hconn.mp halive, fun h => hnone (hprot.mp h), hplain halive⟩

end Runs

end Lifetime
