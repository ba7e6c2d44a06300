import Otservpp.Ownership

/-! # The programs of the two objects are those of the connection

Run on objects that can end, each program of the connection does what it does on its own, until
something is used after its destruction; where both objects have an owner at its end, nothing is. -/
namespace Ownership

open ProgramLogic EventSystem Lifecycle Instrumented

section Simulation

variable {M : Type} {cfg : Connection.Config M}

/-- What a program that lets go of nothing does to the connection. -/
structure Steady (c d : Connection.State M) : Prop where
  attached : d.attached = c.attached
  protocol : d.protocol = c.protocol
  started : d.started = c.started
  writes : c.writes.length ≤ d.writes.length
  halted : Connection.isStopped c = true → Connection.isStopped d = true

/-- What every program of the connection does to it. Nothing is let go of before it is stopped. -/
structure Decays (c d : Connection.State M) : Prop where
  attached : d.attached = true → c.attached = true
  protocol : d.protocol = true → c.protocol = true
  started : d.started = c.started
  writes : c.writes.length ≤ d.writes.length
  halted : Connection.isStopped c = true → Connection.isStopped d = true
  lost : c.attached = true → d.attached = true ∨ Connection.isStopped d = true
  reset : c.protocol = true → d.protocol = true ∨ Connection.isStopped d = true

/-- The part of it that also holds within `stop` and `abort`. -/
structure LetsGo (c d : Connection.State M) : Prop where
  attached : d.attached = true → c.attached = true
  protocol : d.protocol = true → c.protocol = true
  writes : c.writes.length ≤ d.writes.length

instance : IsPreorder (Connection.State M) Steady where
  refl _ := ⟨rfl, rfl, rfl, le_rfl, id⟩
  trans _ _ _ h k := ⟨k.attached.trans h.attached, k.protocol.trans h.protocol,
    k.started.trans h.started, h.writes.trans k.writes, fun hs => k.halted (h.halted hs)⟩

instance : IsPreorder (Connection.State M) LetsGo where
  refl _ := ⟨id, id, le_rfl⟩
  trans _ _ _ h k := ⟨fun hu => h.attached (k.attached hu), fun hu => h.protocol (k.protocol hu),
    h.writes.trans k.writes⟩

instance : IsPreorder (Connection.State M) Decays where
  refl _ := ⟨id, id, rfl, le_rfl, id, Or.inl, Or.inl⟩
  trans _ _ _ h k := by
    refine ⟨fun hu => h.attached (k.attached hu), fun hu => h.protocol (k.protocol hu),
      k.started.trans h.started, h.writes.trans k.writes, fun hs => k.halted (h.halted hs), ?_, ?_⟩
    · intro hs
      rcases h.lost hs with ht | ht
      · exact k.lost ht
      · exact Or.inr (k.halted ht)
    · intro hs
      rcases h.reset hs with ht | ht
      · exact k.reset ht
      · exact Or.inr (k.halted ht)

variable {c d : Connection.State M} {s t : State M}

theorem Steady.decays (h : Steady c d) : Decays c d :=
  ⟨fun hd => h.attached ▸ hd, fun hd => h.protocol ▸ hd, h.started, h.writes, h.halted,
    fun hc => Or.inl (h.attached.trans hc), fun hc => Or.inl (h.protocol.trans hc)⟩

theorem Decays.letsGo (h : Decays c d) : LetsGo c d := ⟨h.attached, h.protocol, h.writes⟩

theorem Steady.letsGo (h : Steady c d) : LetsGo c d := h.decays.letsGo

/-- Nothing is started either that would hold the connection. -/
def Still (c d : Connection.State M) : Prop := Steady c d ∧ d.writes.length = c.writes.length

theorem still_of_silent (h : Silent c d) : Still c d := by
  obtain ⟨hloop, hsend⟩ := h
  simp only [loopView, sendView, Prod.mk.injEq] at hloop hsend
  obtain ⟨-, hstarted, hread, hwrite, -, hattached, hprotocol, -⟩ := hloop
  have hwrites := congrArg List.length hsend.2.2.1
  simp only [List.length_map] at hwrites
  refine ⟨⟨hattached, hprotocol, hstarted, hwrites.ge, ?_⟩, hwrites⟩
  unfold Connection.isStopped
  rw [hread, hwrite]
  exact id

/-- What every program does to the two objects. -/
structure Keeps (s t : State M) : Prop where
  owned : Owned s → Owned t
  frames : t.frames = s.frames
  keepers : s.keepers ≤ t.keepers
  fault : t.fault = s.fault
  writes : s.conn.writes.length ≤ t.conn.writes.length
  dead : s.connAlive = false → t.connAlive = false

instance : IsPreorder (State M) Keeps where
  refl _ := ⟨id, rfl, le_rfl, rfl, le_rfl, id⟩
  trans _ _ _ h k := ⟨fun hs => k.owned (h.owned hs), k.frames.trans h.frames,
    h.keepers.trans k.keepers, k.fault.trans h.fault, h.writes.trans k.writes,
    fun hs => k.dead (h.dead hs)⟩

/-- Both are alive, and have an owner also at the end `c` of the program. -/
structure Backed (c : Connection.State M) (s : State M) : Prop where
  connAlive : s.connAlive = true
  protAlive : s.protAlive = true
  conn : c.attached = true ∨ 0 < s.conn.writes.length + s.frames
  prot : c.protocol = true ∨ 0 < s.keepers

structure Good (c : Connection.State M) (s : State M) : Prop extends Backed c s where
  owned : Owned s

variable (M) in
def discipline : Discipline (State M) (Connection.State M) := ⟨State.conn, Keeps, Good⟩

instance : IsPreorder (State M) (discipline M).Keeps := inferInstanceAs (IsPreorder (State M) Keeps)

/-- A program of the two objects and the program of the connection that it is. -/
abbrev Runs {α : Type} (x : LifeM M α) (y : Connection.ConnM M α) : Prop :=
  Simulates (discipline M) Decays x y

theorem setConn_owned (h : Steady s.conn c) (halive : s.connAlive = true) (hs : Owned s) :
    Owned (setConn s c) := by
  have hconn : connOwners s ≤ connOwners (setConn s c) := by
    have hwrites := h.writes
    simp only [connOwners, setConn, h.attached]
    omega
  have hprot : protOwners (setConn s c) = protOwners s := by
    simp only [protOwners, setConn, h.protocol]
  refine ⟨⟨fun _ => halive, ?_, fun _ _ => halive⟩, fun ha => (hs.conn_owned ha).trans_le hconn, ?_⟩
  · rw [hprot]
    exact hs.prot
  · rw [hprot]
    exact hs.prot_owned

theorem setConn_backed (hwrites : s.conn.writes.length ≤ c.writes.length) (hs : Backed d s) :
    Backed d (setConn s c) := by
  refine ⟨hs.connAlive, hs.protAlive, ?_, hs.prot⟩
  rcases hs.conn with hd | hd
  · exact Or.inl hd
  · right
    simp only [setConn]
    omega

theorem setConn_good (h : Steady s.conn c) (hs : Good d s) : Good d (setConn s c) :=
  ⟨setConn_backed h.writes hs.toBacked, setConn_owned h hs.connAlive hs.owned⟩

/-- What lets go of nothing that is needed to the end leaves an owner to both. -/
theorem Backed.good (hs : Backed d s) (hheld : Held s) (h : LetsGo s.conn d) : Good d s := by
  refine ⟨hs, hheld, fun _ => ?_, fun _ => ?_⟩
  · unfold connOwners
    rcases hs.conn with hd | hd
    · simp only [hs.protAlive, h.attached hd, Bool.and_self, Bool.toNat_true]
      omega
    · omega
  · unfold protOwners
    rcases hs.prot with hd | hd
    · simp only [hs.connAlive, h.protocol hd, Bool.and_self, Bool.toNat_true]
      omega
    · omega

theorem Good.collect (h : Good d s) : collect cfg s = .ok () s :=
  collect_of_owned (h.owned.conn_owned h.connAlive) (h.owned.prot_owned h.protAlive)

theorem setConn_keeps (h : Steady s.conn c) (halive : s.connAlive = true) : Keeps s (setConn s c) :=
  ⟨setConn_owned h halive, rfl, le_rfl, rfl, h.writes, id⟩

section Members

variable {D : Connection.State M → Connection.State M → Prop} {α : Type} {x : Connection.ConnM M α}
  (hD : ∀ c d, Steady c d → D c d)
include hD

theorem member_simulates (hx : Evolves Steady x) : Simulates (discipline M) D (member x) x :=
  simulates_guarded (fun _ _ => rfl) hx hD (fun _ _ halive h => setConn_keeps h halive)
    fun _ _ _ hs h => ⟨hs.connAlive, setConn_good h hs⟩

theorem guarded_simulates {p : State M → Bool} (hx : Evolves Still x)
    (hp : ∀ d s, Good d s → p s = true) :
    Simulates (discipline M) D (guarded State.conn setConn p .dangling x : LifeM M α) x := by
  refine simulates_guarded (fun _ _ => rfl) hx (fun c d h => hD c d h.1) ?_ ?_
  · intro s c _ h
    have hwrites : c.writes.length = s.conn.writes.length := h.2
    have hconn : connOwners (setConn s c) = connOwners s := by
      simp only [connOwners, setConn, hwrites, h.1.attached]
      rfl
    have hprot : protOwners (setConn s c) = protOwners s := by
      simp only [protOwners, setConn, h.1.protocol]
      rfl
    refine ⟨fun hs => ?_, rfl, le_rfl, rfl, hwrites.ge, id⟩
    refine ⟨⟨hconn ▸ hs.conn, hprot ▸ hs.prot, fun ha hr => hs.cycle ?_ ?_⟩, hconn ▸ hs.conn_owned,
      hprot ▸ hs.prot_owned⟩
    · exact h.1.attached ▸ ha
    · exact h.1.protocol ▸ hr
  · intro s c d hs h
    exact ⟨hp d s hs, setConn_good h.1 hs⟩

end Members

/-- A pointer is reset, and what it held may be destroyed. -/
theorem letGo_simulates {f : Connection.State M → Connection.State M} (hf : ∀ c, LetsGo c (f c)) :
    Simulates (discipline M) LetsGo (do member (modify f); collect cfg : LifeM M Unit) (modify f) := by
  have hrun (s : State M) : (do member (modify f); collect cfg : LifeM M Unit) s =
      if s.connAlive = true then collect cfg (setConn s (f s.conn))
      else .error (.inr .dangling) s := by
    rw [bind_run, member, guarded]
    by_cases halive : s.connAlive = true
    · rw [if_pos halive, if_pos halive]
      rfl
    · rw [if_neg halive, if_neg halive]
  have hheld {s : State M} (hs : Owned s) (halive : s.connAlive = true) :
      Held (setConn s (f s.conn)) := by
    refine ⟨fun _ => halive, fun hprot => hs.prot (hprot.trans_le ?_), fun _ _ => halive⟩
    cases hp : (f s.conn).protocol with
    | false => simp [protOwners, setConn, hp]
    | true => simp [protOwners, setConn, hp, (hf s.conn).protocol hp]
  refine ⟨evolves_modify hf, fun s => ?_, fun s => ?_, fun s c hs hc => ?_⟩
  · rw [hrun]
    split
    · rcases collect_cases cfg (setConn s (f s.conn)) with ⟨t, ht, hsame, -⟩ | ⟨t, ht, -⟩
      · rw [ht]
        exact congrArg _ hsame.conn.symm
      · rw [ht]
        trivial
    · trivial
  · rw [hrun]
    split
    · next halive =>
      rcases collect_cases cfg (setConn s (f s.conn)) with ⟨t, ht, hsame, howned⟩ | ⟨t, ht, -⟩
      · rw [ht]
        refine ⟨fun hs => howned (hheld hs halive), hsame.frames, hsame.keepers.ge, hsame.fault, ?_,
          hsame.dead⟩
        rw [hsame.conn]
        exact (hf s.conn).writes
      · rw [ht]
        trivial
    · trivial
  · have hs : Good c s := hs
    have hbacked := setConn_backed (hf s.conn).writes hs.toBacked
    have hgood : Good c (setConn s (f s.conn)) :=
      hbacked.good (hheld hs.owned hs.connAlive) hc
    rw [hrun, if_pos hs.connAlive, hgood.collect]
    exact hgood

theorem ending_run (x : LifeM M Unit) (f : State M → State M) (s : State M) :
    ending cfg x f s = match x s with
      | .ok _ t => collect cfg (f t)
      | .error (.inl e) t => (collect cfg >>= fun _ => throw (.inl e)) (f t)
      | .error (.inr e) t => .error (.inr e) t := by
  rw [ending, bind_run, catching, tryCatch_run]
  cases x s with
  | ok a t => rfl
  | error e t =>
    cases e with
    | inl e =>
      have hrun : (do letGo cfg f; throw (.inl e) : LifeM M Unit) t =
          (collect cfg >>= fun _ => throw (.inl e)) (f t) := rfl
      simp only [hrun]
      rcases collect_cases cfg (f t) with ⟨u, hu, -⟩ | ⟨u, hu, -⟩
      · rw [bind_ok hu]
        rfl
      · rw [bind_error hu]
    | inr e => rfl

variable (cfg) in
/-- How a program ends that lets go of something in the end. -/
theorem ending_cases (x : LifeM M Unit) (f : State M → State M) (s : State M) :
    (∃ t u, x s = .ok () t ∧ ending cfg x f s = .ok () u ∧ Same (f t) u ∧ (Held (f t) → Owned u)) ∨
    (∃ e t u, x s = .error (.inl e) t ∧ ending cfg x f s = .error (.inl e) u ∧ Same (f t) u ∧
      (Held (f t) → Owned u)) ∨
    ∃ e u, ending cfg x f s = .error (.inr e) u := by
  rw [ending_run]
  match x s with
  | .ok _ t =>
    rcases collect_cases cfg (f t) with ⟨u, hu, hsame, howned⟩ | ⟨u, hu, -⟩
    · exact Or.inl ⟨t, u, rfl, hu, hsame, howned⟩
    · exact Or.inr (Or.inr ⟨_, u, hu⟩)
  | .error (.inl e) t =>
    rcases collect_cases cfg (f t) with ⟨u, hu, hsame, howned⟩ | ⟨u, hu, -⟩
    · exact Or.inr (Or.inl ⟨e, t, u, rfl, bind_ok hu _, hsame, howned⟩)
    · exact Or.inr (Or.inr ⟨_, u, bind_error hu _⟩)
  | .error (.inr e) t => exact Or.inr (Or.inr ⟨e, t, rfl⟩)

section Holding

variable {D : Connection.State M → Connection.State M → Prop} {x : LifeM M Unit}
  {y : Connection.ConnM M Unit} (h : Simulates (discipline M) D x y)

def entered (s : State M) : State M := { s with frames := s.frames + 1 }

theorem holding_run (x : LifeM M Unit) (s : State M) :
    holding cfg x s = if s.connAlive = true then ending cfg x leave (entered s)
      else .error (.inr .dangling) s := by
  rw [holding, bind_run, member, guarded]
  by_cases halive : s.connAlive = true
  · rw [if_pos halive, if_pos halive]
    rfl
  · rw [if_neg halive, if_neg halive]

theorem entered_owned {s : State M} (hs : Owned s) (halive : s.connAlive = true) :
    Owned (entered s) :=
  ⟨⟨fun _ => halive, hs.prot, hs.cycle⟩, fun _ => Nat.succ_pos _, hs.prot_owned⟩

theorem leave_held {s : State M} (hs : Owned s) : Held (leave s) := by
  refine ⟨fun hconn => hs.conn (hconn.trans_le ?_), hs.prot, hs.cycle⟩
  simp only [connOwners, leave]
  omega

/-- Entering and leaving are an even exchange. -/
theorem holding_keeps {s t u : State M} (halive : s.connAlive = true) (ht : Keeps (entered s) t)
    (hsame : Same (leave t) u) (howned : Held (leave t) → Owned u) : Keeps s u := by
  refine ⟨fun hs => howned (leave_held (ht.owned (entered_owned hs halive))), ?_, ?_,
    hsame.fault.trans ht.fault, ?_, fun hs => hsame.dead (ht.dead hs)⟩
  · rw [hsame.frames, leave, ht.frames]
    rfl
  · exact ht.keepers.trans hsame.keepers.ge
  · exact ht.writes.trans (congrArg (·.writes.length) hsame.conn).ge

theorem leave_good {s t : State M} (hs : Good c s) (ht : Good c t) (hk : Keeps (entered s) t)
    (hd : LetsGo t.conn c) : Good c (leave t) := by
  have hframes : t.frames - 1 = s.frames := by
    rw [hk.frames]
    rfl
  have hwrites : s.conn.writes.length ≤ t.conn.writes.length := hk.writes
  have hbacked : Backed c (leave t) := by
    refine ⟨ht.connAlive, ht.protAlive, ?_, ht.prot⟩
    rcases hs.conn with hd | hd
    · exact Or.inl hd
    · right
      simp only [leave, hframes]
      omega
  exact hbacked.good (leave_held ht.owned) hd

include h in
theorem holding_simulates (hD : ∀ c d, D c d → LetsGo c d) :
    Simulates (discipline M) D (holding cfg x) y := by
  refine ⟨h.evolves, fun s => ?_, fun s => ?_, fun s c hs hc => ?_⟩
  · have hagrees := h.agrees (entered s)
    rw [holding_run]
    split
    · rcases ending_cases cfg x leave (entered s) with
        ⟨t, u, ht, hu, hsame, -⟩ | ⟨e, t, u, ht, hu, hsame, -⟩ | ⟨e, u, hu⟩
      · rw [ht] at hagrees
        rw [hu]
        exact hagrees.trans (congrArg _ hsame.conn.symm)
      · rw [ht] at hagrees
        rw [hu]
        exact hagrees.trans (congrArg _ hsame.conn.symm)
      · rw [hu]
        trivial
    · trivial
  · have hkeeps := h.keeps (entered s)
    rw [holding_run]
    split
    · next halive =>
      rcases ending_cases cfg x leave (entered s) with
        ⟨t, u, ht, hu, hsame, howned⟩ | ⟨e, t, u, ht, hu, hsame, howned⟩ | ⟨e, u, hu⟩
      · rw [ht] at hkeeps
        rw [hu]
        exact holding_keeps halive hkeeps hsame howned
      · rw [ht] at hkeeps
        rw [hu]
        exact holding_keeps halive hkeeps hsame howned
      · rw [hu]
        trivial
    · trivial
  · have hs : Good c s := hs
    have hbegun : Good c (entered s) :=
      ⟨⟨hs.connAlive, hs.protAlive, Or.inr (Nat.succ_pos _), hs.prot⟩,
        entered_owned hs.owned hs.connAlive⟩
    have hagrees := h.agrees (entered s)
    have hkeeps := h.keeps (entered s)
    have hgood := h.good _ c hbegun hc
    have hlets : LetsGo (after y s.conn) c := hD _ _ hc
    rw [holding_run, if_pos hs.connAlive, ending_run]
    cases hrun : x (entered s) with
    | ok a t =>
      rw [hrun] at hagrees hkeeps hgood
      have hconn : after y s.conn = t.conn := after_ok hagrees
      have hlast := leave_good hs hgood hkeeps (hconn ▸ hlets)
      simp only [hlast.collect]
      exact hlast
    | error e t =>
      rw [hrun] at hagrees hkeeps hgood
      cases e with
      | inl e =>
        have hconn : after y s.conn = t.conn := after_error hagrees
        have hlast := leave_good hs hgood hkeeps (hconn ▸ hlets)
        simp only [bind_ok hlast.collect]
        exact hlast
      | inr f => exact hgood.elim

end Holding

end Simulation

section Programs

variable {M : Type} (cfg : Connection.Config M)

theorem steady_of_silent {α : Type} {x : Connection.ConnM M α} (h : Evolves Silent x) :
    Evolves Steady x := Evolves.mono (fun _ _ h => (still_of_silent h).1) h

theorem still_get : Evolves Still (get : Connection.ConnM M (Connection.State M)) :=
  fun s => ⟨refl s, rfl⟩

theorem get_runs : Runs (member get : LifeM M (Connection.State M)) get :=
  member_simulates (fun _ _ => Steady.decays) fun s => refl s

theorem silent_runs {α : Type} {x : Connection.ConnM M α} (h : Evolves Silent x) :
    Runs (member x) x :=
  member_simulates (fun _ _ => Steady.decays) (steady_of_silent h)

theorem modify_runs {f : Connection.State M → Connection.State M} (h : ∀ c, Steady c (f c)) :
    Runs (member (modify f)) (modify f : Connection.ConnM M Unit) :=
  member_simulates (fun _ _ => Steady.decays) h

theorem record_runs (a : Connection.Action) :
    Runs (member (Connection.record a)) (Connection.record a : Connection.ConnM M Unit) :=
  modify_runs fun _ => ⟨rfl, rfl, rfl, le_rfl, id⟩

theorem dlogInfo_silent : Evolves Silent (Connection.dlogInfo cfg) :=
  Evolves.ite (fun _ => connectedCall_silent cfg) fun _ => evolves_pure ()

theorem vlogInfo_silent : Evolves Silent (Connection.vlogInfo cfg) :=
  Evolves.ite (fun _ => connectedCall_silent cfg) fun _ => evolves_pure ()

theorem close_steady : Evolves Steady (Connection.close cfg) := by
  have hclosed : Evolves Steady (modify Connection.closed : Connection.ConnM M Unit) :=
    evolves_modify fun c => ⟨rfl, rfl, rfl, by simp [Connection.closed], id⟩
  refine Evolves.bind evolves_get fun _ => Evolves.ite (fun _ => ?_) fun _ => evolves_pure ()
  refine Evolves.bind ?_ fun _ => hclosed.bind fun _ =>
    Evolves.ite (fun _ => evolves_pure ()) fun _ => evolves_throw _
  exact Evolves.bind evolves_get fun _ => Evolves.bind (evolves_modify fun _ =>
    ⟨rfl, rfl, rfl, le_rfl, id⟩) fun _ => evolves_pure _

theorem stop_simulates : Simulates (discipline M) LetsGo (stop cfg) (Connection.stop cfg) := by
  have hsilent {α : Type} {x : Connection.ConnM M α} (h : Evolves Silent x) :
      Simulates (discipline M) LetsGo (member x) x :=
    member_simulates (fun _ _ => Steady.letsGo) (steady_of_silent h)
  have hflags : Evolves Steady (modify fun s => { s with
      readClosed := true, writeClosed := true, log := s.log ++ [.stopBegan] } :
        Connection.ConnM M Unit) :=
    evolves_modify fun _ => ⟨rfl, rfl, rfl, le_rfl, fun _ => rfl⟩
  refine (member_simulates (fun _ _ => Steady.letsGo) hflags).bind fun _ => ?_
  refine (hsilent (vlogInfo_silent cfg)).bind fun _ => ?_
  refine (hsilent cancelReadTimer_silent).bind fun _ => ?_
  refine (hsilent cancelWriteTimer_silent).bind fun _ => ?_
  refine (hsilent (connectedCall_silent cfg)).bind fun _ => ?_
  refine (member_simulates (fun _ _ => Steady.letsGo) (close_steady cfg)).bind fun _ => ?_
  exact letGo_simulates fun _ => ⟨id, nofun, le_rfl⟩

/-- What ends with both flags set. -/
theorem decays_of_halted {aborts : Bool} {c d : Connection.State M} (h : Quiet aborts c d)
    (hflags : d.readClosed = true ∧ d.writeClosed = true) : Decays c d := by
  have hhalted : Connection.isStopped d = true := by
    simp [Connection.isStopped, hflags.1]
  have hwrites := congrArg List.length h.2.writes
  simp only [List.length_map] at hwrites
  refine ⟨fun hd => ?_, fun hd => ?_, h.1.started, hwrites.ge, fun _ => hhalted,
    fun _ => Or.inr hhalted, fun _ => Or.inr hhalted⟩
  · by_contra hne
    rw [h.1.attached (by simpa using hne)] at hd
    cases hd
  · rcases h.1.protocol with hp | ⟨hp, -⟩
    · exact hp ▸ hd
    · rw [hp] at hd
      cases hd

theorem stop_decays : Evolves Decays (Connection.stop cfg) := by
  intro s
  have hquiet : Quiet false s (after (Connection.stop cfg) s) := stop_quiet cfg s
  exact decays_of_halted hquiet (stop_flags cfg s)

theorem stop_runs : Runs (stop cfg) (Connection.stop cfg) :=
  (stop_simulates cfg).strengthen (fun _ _ => Decays.letsGo) (stop_decays cfg)

theorem abort_decays : Evolves Decays (Connection.abort cfg) := by
  intro s
  cases hp : s.protocol with
  | true =>
    have hquiet : Quiet true s (after (Connection.abort cfg) s) := abort_quiet cfg s
    have hafter : after (Connection.abort cfg) s = after (Connection.stop cfg) (lost s) := by
      unfold after
      rw [abort_attached cfg hp]
    exact decays_of_halted hquiet (hafter ▸ stop_flags cfg (lost s))
  | false =>
    rw [after_error (abort_null cfg hp)]
    exact Steady.decays ⟨rfl, rfl, rfl, le_rfl, id⟩

theorem abort_simulates : Simulates (discipline M) LetsGo (abort cfg) (Connection.abort cfg) := by
  have hlost : Simulates (discipline M) LetsGo (detachConnection cfg)
      (modify fun s => { s with attached := false, log := s.log ++ [.connectionLost] }) :=
    letGo_simulates fun _ => ⟨nofun, id, le_rfl⟩
  have hnull : Evolves Steady (Connection.record .nullAbort : Connection.ConnM M Unit) :=
    evolves_modify fun _ => ⟨rfl, rfl, rfl, le_rfl, id⟩
  refine (member_simulates (fun _ _ => Steady.letsGo) fun s => refl s).bind fun s =>
    Simulates.ite (fun _ => ?_) fun _ => ?_
  · exact hlost.bind fun _ => stop_simulates cfg
  · exact (member_simulates (fun _ _ => Steady.letsGo) hnull).bind fun _ => simulates_throw _

theorem abort_runs : Runs (abort cfg) (Connection.abort cfg) :=
  (abort_simulates cfg).strengthen (fun _ _ => Decays.letsGo) (abort_decays cfg)

theorem dropped_runs : Runs (do member (Connection.droppingLogInfo cfg); abort cfg)
    (do Connection.droppingLogInfo cfg; Connection.abort cfg) :=
  (silent_runs (droppingLogInfo_silent cfg)).bind fun _ => abort_runs cfg

theorem abortWith_runs (e : Connection.ErrorCode) :
    Runs (abortWith cfg e) (Connection.abortWith cfg e) :=
  Simulates.ite (fun _ => abort_runs cfg) fun _ => simulates_pure ()

theorem writeEncoded_runs (q : Connection.Queued M) (rest : List (Connection.Queued M))
    (a : Connection.AfterSend) (result : Except Connection.Fault M) :
    Runs (writeEncoded cfg q rest a result) (Connection.writeEncoded cfg q rest a result) := by
  match result with
  | .error .exception => exact dropped_runs cfg
  | .error .crash => exact simulates_throw _
  | .ok msg =>
    have hstarted : Runs (member (Connection.asyncWriteOp q.id a))
        (Connection.asyncWriteOp q.id a : Connection.ConnM M Unit) :=
      modify_runs fun c => ⟨rfl, rfl, rfl, by simp, id⟩
    refine Simulates.bind ?_ fun _ => (record_runs _).bind fun _ => hstarted
    exact modify_runs fun _ => ⟨rfl, rfl, rfl, le_rfl, id⟩

theorem updateWriteTimer_silent : Evolves Silent (Connection.updateWriteTimer : Connection.ConnM M Unit) :=
  evolves_modify fun _ => ⟨rfl, rfl⟩

theorem encodeFront_runs (a : Connection.AfterSend) :
    Runs (encodeFront cfg a) (do
      let s ← get
      match s.outMsgQueue with
      | [] => throw .crash
      | q :: rest =>
        Connection.record (.encode q.id)
        Connection.writeEncoded cfg q rest a (cfg.encode q.msg)) := by
  refine get_runs.bind fun s => ?_
  match s.outMsgQueue with
  | [] => exact simulates_throw _
  | q :: rest => exact (record_runs _).bind fun _ => writeEncoded_runs cfg q rest a _

theorem doSend_runs (a : Connection.AfterSend) : Runs (doSend cfg a) (Connection.doSend cfg a) :=
  (silent_runs updateWriteTimer_silent).bind fun _ =>
    holding_simulates (encodeFront_runs cfg a) fun _ _ => Decays.letsGo

theorem keepSending_runs : Runs (keepSending cfg) (Connection.keepSending cfg) :=
  get_runs.bind fun _ => Simulates.ite (fun _ => silent_runs cancelWriteTimer_silent)
    fun _ => doSend_runs cfg _

theorem trySendOrEnqueueThen_runs (msg : M) (a : Connection.AfterSend) :
    Runs (trySendOrEnqueueThen cfg msg a) (Connection.trySendOrEnqueueThen cfg msg a) := by
  refine get_runs.bind fun s => Simulates.ite (fun _ => ?_) fun _ => simulates_pure _
  refine Simulates.bind ?_ fun _ =>
    Simulates.ite (fun _ => doSend_runs cfg a) fun _ => simulates_pure _
  exact modify_runs fun _ => ⟨rfl, rfl, rfl, le_rfl, id⟩

theorem popFront_steady : Evolves Steady (Connection.popFront : Connection.ConnM M Unit) := by
  refine Evolves.bind evolves_get fun s => ?_
  match s.outMsgQueue with
  | [] => exact evolves_throw _
  | q :: rest => exact evolves_modify fun _ => ⟨rfl, rfl, rfl, le_rfl, id⟩

theorem afterSendAction_runs (a : Connection.AfterSend) :
    Runs (afterSendAction cfg a) (Connection.afterSendAction cfg a) := by
  cases a with
  | keepSending => exact keepSending_runs cfg
  | stop => exact stop_runs cfg

/-- The error path of a completion handler. -/
theorem failed_runs {log : Connection.ConnM M Unit} (hlog : Evolves Silent log)
    (e : Connection.ErrorCode) :
    Runs (do
        if e ≠ .operationAborted then member log
        abortWith cfg e)
      (do
        if e ≠ .operationAborted then log
        Connection.abortWith cfg e) :=
  Simulates.ite (fun _ => (silent_runs hlog).bind fun _ => abortWith_runs cfg e)
    fun _ => abortWith_runs cfg e

theorem writeHandler_runs (op : Connection.WriteOp) (e : Connection.ErrorCode) :
    Runs (writeHandler cfg op e) (Connection.writeHandler cfg op e) := by
  refine Simulates.ite (fun _ => ?_) fun _ => ?_
  · refine (record_runs _).bind fun _ => (silent_runs (dvlogInfo_silent cfg)).bind fun _ => ?_
    have hpop : Runs (member Connection.popFront) (Connection.popFront : Connection.ConnM M Unit) :=
      member_simulates (fun _ _ => Steady.decays) popFront_steady
    exact hpop.bind fun _ => afterSendAction_runs cfg op.afterSend
  · exact failed_runs cfg (dlogInfo_silent cfg) e

theorem viaConnection_runs {x : LifeM M Unit} {y : Connection.ConnM M Unit} (h : Runs x y) :
    Runs (viaConnection x) (Connection.viaConnection y) := by
  have hget : Runs (ofProtocol get) (get : Connection.ConnM M (Connection.State M)) :=
    guarded_simulates (fun _ _ => Steady.decays) still_get fun _ _ hs => hs.protAlive
  have hnoted : Runs (noted (Connection.record .nullConnection))
      (Connection.record .nullConnection : Connection.ConnM M Unit) :=
    guarded_simulates (fun _ _ => Steady.decays)
      (evolves_modify fun _ => ⟨⟨rfl, rfl, rfl, le_rfl, id⟩, rfl⟩) fun _ _ _ => rfl
  exact hget.bind fun _ => Simulates.ite (fun _ => h) fun _ =>
    hnoted.bind fun _ => simulates_throw _

/-- Handing out a pointer is no action of the connection. -/
def plainActs : List (Act M) → List (Connection.Act M)
  | [] => []
  | .act a :: acts => a :: plainActs acts
  | .share :: acts => plainActs acts

def Script.plain (script : Script M) : Connection.Script M :=
  ⟨plainActs script.acts, script.throws⟩

theorem catchException_runs {x handler : LifeM M Unit} {y handler' : Connection.ConnM M Unit}
    (h : Runs x y) (hh : Runs handler handler') :
    Runs (catchException x handler) (Connection.catchException y handler') := by
  refine Simulates.catching h fun e => ?_
  cases e with
  | exception => exact hh
  | crash => exact simulates_throw _

theorem read_runs (op : FrameReads.Op) :
    Runs (member (Connection.Act.exec cfg (.read op))) (Connection.Act.exec cfg (.read op)) :=
  silent_runs ((onInMsg_silent (op.exec cfg.ndebug)).bind fun _ => evolves_pure ())

theorem stopReceiving_steady : Evolves Steady (Connection.stopReceiving cfg) := by
  refine Evolves.bind (evolves_modify fun _ => ?_) fun _ => steady_of_silent (connectedCall_silent cfg)
  exact ⟨rfl, rfl, rfl, le_rfl, fun _ => rfl⟩

theorem stopSending_steady : Evolves Steady (Connection.stopSending cfg) := by
  refine Evolves.bind (evolves_modify fun _ => ?_) fun _ => steady_of_silent (connectedCall_silent cfg)
  exact ⟨rfl, rfl, rfl, le_rfl, fun _ => Bool.or_true _⟩

theorem act_runs (act : Connection.Act M) :
    Runs ((Act.act act).exec cfg) (Connection.Act.exec cfg act) := by
  cases act with
  | read op => exact read_runs cfg op
  | send msg => exact viaConnection_runs (trySendOrEnqueueThen_runs cfg msg .keepSending)
  | sendAndStop msg => exact viaConnection_runs (trySendOrEnqueueThen_runs cfg msg .stop)
  | stop => exact viaConnection_runs (stop_runs cfg)
  | stopReceiving => exact viaConnection_runs (member_simulates (fun _ _ => Steady.decays) (stopReceiving_steady cfg))
  | stopSending => exact viaConnection_runs (member_simulates (fun _ _ => Steady.decays) (stopSending_steady cfg))

/-- One more owner changes nothing for the connection. -/
theorem share_runs : Runs ((Act.share : Act M).exec cfg) (pure ()) := by
  have hrun (s : State M) : (Act.share : Act M).exec cfg s =
      if s.protAlive = true then .ok () { s with keepers := s.keepers + 1 }
      else .error (.inr .dangling) s := by
    rw [Act.exec, bind_run, ofProtocol, guarded]
    by_cases halive : s.protAlive = true
    · rw [if_pos halive, if_pos halive]
      rfl
    · rw [if_neg halive, if_neg halive]
  have howned {s : State M} (hs : Owned s) (halive : s.protAlive = true) :
      Owned { s with keepers := s.keepers + 1 } :=
    ⟨⟨hs.conn, fun _ => halive, hs.cycle⟩, hs.conn_owned, fun _ => Nat.succ_pos _⟩
  refine ⟨evolves_pure (), fun s => ?_, fun s => ?_, fun s c hs _ => ?_⟩
  · rw [hrun]
    split
    · rfl
    · trivial
  · rw [hrun]
    split
    · next halive => exact ⟨fun hs => howned hs halive, rfl, Nat.le_succ _, rfl, le_rfl, id⟩
    · trivial
  · have hs : Good c s := hs
    rw [hrun, if_pos hs.protAlive]
    exact ⟨⟨hs.connAlive, hs.protAlive, hs.conn, Or.inr (Nat.succ_pos _)⟩, howned hs.owned hs.protAlive⟩

theorem runActs_runs (acts : List (Act M)) :
    Runs (runActs cfg acts) (Connection.runActs cfg (plainActs acts)) := by
  induction acts with
  | nil => exact simulates_pure ()
  | cons act acts ih =>
    cases act with
    | act a => exact (catchException_runs (act_runs cfg a) (simulates_pure ())).bind fun _ => ih
    | share => exact (catchException_runs (share_runs cfg) (simulates_pure ())).bind fun _ => ih

theorem script_runs (script : Script M) : Runs (script.run cfg) (script.plain.run cfg) :=
  (runActs_runs cfg script.acts).bind fun _ =>
    Simulates.ite (fun _ => simulates_throw _) fun _ => simulates_pure _

theorem wrappedHandler_runs (script : Script M) :
    Runs (wrappedHandler cfg script) (Connection.wrappedHandler cfg script.plain) := by
  have hget : Runs (ofProtocol get) (get : Connection.ConnM M (Connection.State M)) :=
    guarded_simulates (fun _ _ => Steady.decays) still_get fun _ _ hs => hs.protAlive
  have hnoted {a : Connection.Action} : Runs (noted (Connection.record a))
      (Connection.record a : Connection.ConnM M Unit) :=
    guarded_simulates (fun _ _ => Steady.decays)
      (evolves_modify fun _ => ⟨⟨rfl, rfl, rfl, le_rfl, id⟩, rfl⟩) fun _ _ _ => rfl
  refine hget.bind fun _ => Simulates.ite (fun _ => Simulates.ite (fun _ => ?_) fun _ => ?_) fun _ => ?_
  · refine hnoted.bind fun _ => catchException_runs (script_runs cfg script) ?_
    exact (viaConnection_runs (silent_runs (droppingLogInfo_silent cfg))).bind fun _ =>
      viaConnection_runs (stop_runs cfg)
  · exact viaConnection_runs (stop_runs cfg)
  · exact hnoted.bind fun _ => simulates_throw _

theorem sendInMsg_runs (kind : Connection.HandlerKind) (script : Script M) :
    Runs (sendInMsg cfg kind script) (Connection.sendInMsg cfg kind script.plain) := by
  refine get_runs.bind fun s => Simulates.ite (fun _ => ?_) fun _ => ?_
  · refine Simulates.bind ?_ fun _ => script_runs cfg script
    exact modify_runs fun _ => ⟨rfl, rfl, rfl, le_rfl, id⟩
  · exact (record_runs _).bind fun _ => simulates_throw _

theorem headerRead_runs (kind : Connection.HandlerKind) :
    Runs (headerRead cfg kind) (Connection.headerRead cfg kind) := by
  have hread (buffer : InMessage.Buffer) : Runs (member (Connection.asyncReadOp kind .body buffer))
      (Connection.asyncReadOp kind .body buffer : Connection.ConnM M Unit) :=
    modify_runs fun _ => ⟨rfl, rfl, rfl, le_rfl, id⟩
  refine (silent_runs updateReadTimer_silent).bind fun _ => catchException_runs ?_ (dropped_runs cfg)
  exact (silent_runs (onInMsg_silent _)).bind hread

theorem parseIncomingMessage_runs (kind : Connection.HandlerKind) :
    Runs (member (Connection.parseIncomingMessage kind))
      (Connection.parseIncomingMessage kind : Connection.ConnM M Unit) := by
  refine member_simulates (fun _ _ => Steady.decays) ?_
  refine (steady_of_silent updateReadTimer_silent).bind fun _ => evolves_modify fun _ => ?_
  exact ⟨rfl, rfl, rfl, le_rfl, id⟩

theorem bodyRead_runs (kind : Connection.HandlerKind) (script : Script M) :
    Runs (bodyRead cfg kind script) (Connection.bodyRead cfg kind script.plain) := by
  refine (silent_runs cancelReadTimer_silent).bind fun _ =>
    (silent_runs (dvlogInfo_silent cfg)).bind fun _ => ?_
  refine Simulates.bind ?_ fun threw => Simulates.ite (fun _ => dropped_runs cfg) fun _ => ?_
  · refine Simulates.catching ((sendInMsg_runs cfg kind script).bind fun _ => simulates_pure _) fun e => ?_
    cases e with
    | exception => exact simulates_pure _
    | crash => exact simulates_throw _
  · exact get_runs.bind fun _ => Simulates.ite (fun _ => parseIncomingMessage_runs _)
      fun _ => simulates_pure _

theorem readHandler_runs (op : Connection.ReadOp) (e : Connection.ErrorCode) (script : Script M) :
    Runs (readHandler cfg op e script) (Connection.readHandler cfg op e script.plain) := by
  refine Simulates.ite (fun _ => ?_) fun _ => failed_runs cfg (vlogInfo_silent cfg) e
  refine get_runs.bind fun _ => Simulates.ite (fun _ => ?_) fun _ => simulates_pure _
  refine (silent_runs (dvlogInfo_silent cfg)).bind fun _ => ?_
  cases op.phase with
  | header => exact headerRead_runs cfg op.handler
  | body => exact bodyRead_runs cfg op.handler script

theorem timerHandler_runs (e : Connection.ErrorCode) :
    Runs (timerHandler cfg e) (Connection.timerHandler cfg e) :=
  failed_runs cfg (dlogInfo_silent cfg) e

end Programs

end Ownership
