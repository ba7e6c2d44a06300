import Mathlib.Data.List.Sort
import Otservpp.EventSystem

/-! # The service manager

Services are registered under their port and started in the order of the ports. From then on each
has an accept in progress, whose handler hands the connection to the service and asks for the next
one. Clients that connect to a port wait in the backlog of its acceptor; what the services do with
a connection is left open, except that it may end with an exception. -/
namespace ServiceManager

open EventSystem

/-- What a call that starts listening can meet. -/
inductive Listening where
  | succeeds
  | openFails
  | bindFails
  deriving DecidableEq, Repr

/-- An `async_accept` in progress, or how it completed. -/
abbrev Accept := Option (Except ℕ ℕ)

/-- `arrived` are the clients that connected, in order, `incoming` those handed to the service, and
`failures` counts the handlers that ended with an exception. -/
structure PrivateService (S : Type) where
  service : S
  isOpen : Bool
  isListening : Bool
  accepts : List Accept
  backlog : List ℕ
  arrived : List ℕ
  incoming : List ℕ
  failures : ℕ
  deriving DecidableEq, Repr

/-- `dangling` says that a service was used after its destruction. -/
structure State (S : Type) where
  serviceMap : List (ℕ × PrivateService S)
  dangling : Bool
  deriving DecidableEq, Repr

inductive Event (S : Type) where
  | registerService (svc : S)
  | start (listening : ℕ → Listening)
  | connect (port client : ℕ)
  | accept (port i : ℕ) (error : Option ℕ)
  | handle (port i : ℕ) (throws : Bool)

section System

variable {S : Type} (getPort : S → ℕ)

def initial : State S := ⟨[], false⟩

def ports (s : State S) : List ℕ := s.serviceMap.map Prod.fst

def privateService (svc : S) : PrivateService S := ⟨svc, false, false, [], [], [], [], 0⟩

/-- The order of the map. -/
def byPort (a b : ℕ × PrivateService S) : Prop := a.1 ≤ b.1

instance : DecidableRel (byPort (S := S)) := fun a b => inferInstanceAs (Decidable (a.1 ≤ b.1))

instance : IsTrans (ℕ × PrivateService S) byPort := ⟨fun _ _ _ h k => Nat.le_trans h k⟩

instance : Std.Total (byPort (S := S)) := ⟨fun a b => Nat.le_total a.1 b.1⟩

/-- Where the port is taken, the pair that was not inserted is destroyed with the service, and the
message of the exception asks the service for its name. -/
def registerService (svc : S) (s : State S) : State S :=
  if getPort svc ∈ ports s then { s with dangling := true }
  else { s with serviceMap :=
    s.serviceMap.orderedInsert byPort (getPort svc, privateService svc) }

def acceptMore (svc : PrivateService S) : PrivateService S :=
  { svc with accepts := svc.accepts ++ [none] }

/-- One turn of the loop of `start`, and whether it ended without an exception. -/
def listen (listening : Listening) (svc : PrivateService S) : Bool × PrivateService S :=
  if svc.isOpen then (false, svc)
  else
    match listening with
    | .openFails => (false, svc)
    | .bindFails => (false, { svc with isOpen := true })
    | .succeeds => (true, acceptMore { svc with isOpen := true, isListening := true })

/-- An exception ends the loop. -/
def startLoop (listening : ℕ → Listening) :
    List (ℕ × PrivateService S) → List (ℕ × PrivateService S)
  | [] => []
  | (port, svc) :: rest =>
    let started := listen (listening port) svc
    (port, started.2) :: if started.1 then startLoop listening rest else rest

def start (listening : ℕ → Listening) (s : State S) : State S :=
  { s with serviceMap := startLoop listening s.serviceMap }

def connect (client : ℕ) (svc : PrivateService S) : PrivateService S :=
  { svc with backlog := svc.backlog ++ [client], arrived := svc.arrived ++ [client] }

/-- An accept that succeeds takes the client that waited longest. -/
def accept (i : ℕ) (error : Option ℕ) (svc : PrivateService S) : PrivateService S :=
  match error, svc.backlog with
  | some e, _ => { svc with accepts := svc.accepts.set i (some (.error e)) }
  | none, client :: rest =>
    { svc with accepts := svc.accepts.set i (some (.ok client)), backlog := rest }
  | none, [] => svc

/-- The handler of an accept; `throws` says whether `incomingConnection` does. -/
def acceptHandler (result : Except ℕ ℕ) (throws : Bool) (svc : PrivateService S) :
    PrivateService S :=
  match result with
  | .ok client =>
    if throws then
      { svc with incoming := svc.incoming ++ [client], failures := svc.failures + 1 }
    else acceptMore { svc with incoming := svc.incoming ++ [client] }
  | .error _ => { svc with failures := svc.failures + 1 }

def handle (i : ℕ) (throws : Bool) (svc : PrivateService S) : PrivateService S :=
  match svc.accepts[i]? with
  | some (some result) => acceptHandler result throws { svc with accepts := svc.accepts.eraseIdx i }
  | _ => svc

/-- Something that happens to the service of one port. -/
def onPort (port : ℕ) (f : PrivateService S → PrivateService S) (s : State S) : State S :=
  { s with serviceMap := s.serviceMap.map fun e => if e.1 = port then (e.1, f e.2) else e }

/-- What an event asks of the service of its port. -/
def Ready (svc : PrivateService S) : Event S → Prop
  | .registerService _ | .start _ => True
  | .connect _ _ => svc.isListening = true
  | .accept _ i error => svc.accepts[i]? = some none ∧ (error = none → svc.backlog ≠ [])
  | .handle _ i _ => ∃ result, svc.accepts[i]? = some (some result)

/-- The port an event is about. -/
def Event.port : Event S → Option ℕ
  | .registerService _ | .start _ => none
  | .connect port _ | .accept port _ _ | .handle port _ _ => some port

def Enabled (s : State S) (e : Event S) : Prop :=
  s.dangling = false ∧ ∀ port ∈ e.port, ∃ svc, (port, svc) ∈ s.serviceMap ∧ Ready svc e

instance (svc : PrivateService S) : (e : Event S) → Decidable (Ready svc e)
  | .registerService _ | .start _ => isTrue trivial
  | .connect _ _ => inferInstanceAs (Decidable (_ = _))
  | .accept _ i _ => inferInstanceAs (Decidable (svc.accepts[i]? = some none ∧ _))
  | .handle _ i _ =>
    match h : svc.accepts[i]? with
    | some (some result) => isTrue ⟨result, h⟩
    | some none => isFalse fun ⟨_, hr⟩ => nomatch h.symm.trans hr
    | none => isFalse fun ⟨_, hr⟩ => nomatch h.symm.trans hr

instance (s : State S) (e : Event S) : Decidable (Enabled s e) :=
  decidable_of_iff (s.dangling = false ∧ ∀ port ∈ e.port,
      ∃ entry ∈ s.serviceMap, entry.1 = port ∧ Ready entry.2 e) <|
    and_congr_right fun _ => forall₂_congr fun port _ =>
      ⟨fun ⟨entry, hentry, hport, hready⟩ => ⟨entry.2, hport ▸ hentry, hready⟩,
        fun ⟨svc, hsvc, hready⟩ => ⟨(port, svc), hsvc, rfl, hready⟩⟩

def next (s : State S) : Event S → State S
  | .registerService svc => registerService getPort svc s
  | .start listening => start listening s
  | .connect port client => onPort port (connect client) s
  | .accept port i error => onPort port (accept i error) s
  | .handle port i throws => onPort port (handle i throws) s

def system : System (State S) (Event S) := ⟨Enabled, next getPort⟩

instance (s : State S) (e : Event S) : Decidable ((system getPort).Enabled s e) :=
  inferInstanceAs (Decidable (Enabled s e))

def Reachable (es : List (Event S)) (s : State S) : Prop := Run (system getPort) initial es s

end System

section Ports

variable {S : Type} {svc : PrivateService S}

/-- The client of an accept that succeeded and was not handled. -/
def inHand (accepts : List Accept) : List ℕ :=
  accepts.filterMap fun
    | some (.ok client) => some client
    | _ => none

/-- What holds of every service between the steps of a run. -/
structure PortInvariant (svc : PrivateService S) : Prop where
  count : svc.accepts.length + svc.failures = svc.isListening.toNat
  order : svc.incoming ++ inHand svc.accepts ++ svc.backlog = svc.arrived
  quiet : svc.isListening = false → svc.arrived = []
  isOpen : svc.isListening = true → svc.isOpen = true

theorem privateService_invariant (svc : S) : PortInvariant (privateService svc) :=
  ⟨rfl, rfl, fun _ => rfl, nofun⟩

/-- There is never more than one accept. -/
theorem PortInvariant.single (h : PortInvariant svc) {i : ℕ} {a : Accept}
    (ha : svc.accepts[i]? = some a) :
    svc.accepts = [a] ∧ i = 0 ∧ svc.failures = 0 ∧ svc.isListening = true := by
  have hcount := h.count
  have hle : svc.isListening.toNat ≤ 1 := Bool.toNat_le _
  match haccepts : svc.accepts with
  | [] =>
    rw [haccepts] at ha
    cases ha
  | [b] =>
    rw [haccepts] at ha hcount
    simp only [List.length_singleton] at hcount
    obtain ⟨hi, rfl⟩ : i = 0 ∧ b = a := by
      cases i with
      | zero => exact ⟨rfl, Option.some.inj ha⟩
      | succ i => cases ha
    refine ⟨rfl, hi, by omega, ?_⟩
    by_contra hnot
    simp only [Bool.not_eq_true] at hnot
    simp only [hnot, Bool.toNat_false] at hcount
    omega
  | _ :: _ :: _ =>
    rw [haccepts] at hcount
    simp only [List.length_cons] at hcount
    omega

theorem connect_invariant (h : PortInvariant svc) (hlistening : svc.isListening = true)
    (client : ℕ) : PortInvariant (connect client svc) := by
  refine ⟨h.count, ?_, fun hnot => absurd (hlistening.symm.trans hnot) (by simp), h.isOpen⟩
  change svc.incoming ++ inHand svc.accepts ++ (svc.backlog ++ [client]) = svc.arrived ++ [client]
  rw [← List.append_assoc, h.order]

theorem accept_invariant (h : PortInvariant svc) {i : ℕ} (hi : svc.accepts[i]? = some none)
    (error : Option ℕ) : PortInvariant (accept i error svc) := by
  obtain ⟨haccepts, rfl, -, -⟩ := h.single hi
  have horder := h.order
  have hcount := h.count
  rw [haccepts] at horder hcount
  unfold accept
  split
  · refine ⟨?_, ?_, h.quiet, h.isOpen⟩
    · simpa [haccepts] using hcount
    · simpa [haccepts, inHand] using horder
  · next client rest hbacklog =>
    refine ⟨?_, ?_, h.quiet, h.isOpen⟩
    · simpa [haccepts] using hcount
    · simpa [haccepts, hbacklog, inHand] using horder
  · exact h

theorem handle_invariant (h : PortInvariant svc) {i : ℕ} {result : Except ℕ ℕ}
    (hi : svc.accepts[i]? = some (some result)) (throws : Bool) :
    PortInvariant (handle i throws svc) := by
  obtain ⟨haccepts, rfl, hfailures, hlistening⟩ := h.single hi
  have horder := h.order
  have hcount := h.count
  rw [haccepts] at horder hcount
  have hquiet {P : Prop} (hnot : svc.isListening = false) : P :=
    absurd (hlistening.symm.trans hnot) (by simp)
  rw [handle, hi]
  cases result with
  | ok client =>
    cases throws with
    | true =>
      refine ⟨?_, ?_, hquiet, h.isOpen⟩
      · simpa [acceptHandler, haccepts, Nat.add_comm] using hcount
      · simpa [acceptHandler, haccepts, inHand] using horder
    | false =>
      refine ⟨?_, ?_, hquiet, h.isOpen⟩
      · simpa [acceptHandler, acceptMore, haccepts] using hcount
      · simpa [acceptHandler, acceptMore, haccepts, inHand] using horder
  | error e =>
    refine ⟨?_, ?_, hquiet, h.isOpen⟩
    · simpa [acceptHandler, haccepts, Nat.add_comm] using hcount
    · simpa [acceptHandler, haccepts, inHand] using horder

theorem listen_invariant (h : PortInvariant svc) (listening : Listening) :
    PortInvariant (listen listening svc).2 := by
  unfold listen
  split
  · exact h
  · next hclosed =>
    have hnot : svc.isListening = false := by
      by_contra hne
      exact hclosed (h.isOpen (by simpa using hne))
    have hempty := h.order.trans (h.quiet hnot)
    simp only [List.append_eq_nil_iff] at hempty
    have hcount := h.count
    rw [hnot] at hcount
    simp only [Bool.toNat_false, Nat.add_eq_zero_iff, List.length_eq_zero_iff] at hcount
    cases listening with
    | succeeds =>
      refine ⟨?_, ?_, nofun, fun _ => rfl⟩
      · simp [acceptMore, hcount.1, hcount.2]
      · simp [acceptMore, hcount.1, inHand, hempty.1.1, hempty.2, h.quiet hnot]
    | openFails => exact h
    | bindFails => exact ⟨h.count, h.order, h.quiet, fun _ => rfl⟩

end Ports

section Runs

variable {S : Type} {getPort : S → ℕ} {s t : State S} {e : Event S} {es : List (Event S)}

/-- The services that were registered, in order. -/
def registered (es : List (Event S)) : List S :=
  es.filterMap fun
    | .registerService svc => some svc
    | _ => none

/-- The clients that connected to a port, in order. -/
def connected (port : ℕ) (es : List (Event S)) : List ℕ :=
  es.filterMap fun
    | .connect p client => if p = port then some client else none
    | _ => none

theorem mem_onPort {p port : ℕ} {f : PrivateService S → PrivateService S} {svc : PrivateService S} :
    (port, svc) ∈ (onPort p f s).serviceMap ↔
      ∃ old, (port, old) ∈ s.serviceMap ∧ svc = if port = p then f old else old := by
  simp only [onPort, List.mem_map, Prod.exists]
  constructor
  · rintro ⟨q, old, hold, heq⟩
    split at heq
    · next hq =>
      cases heq
      exact ⟨old, hold, (if_pos hq).symm⟩
    · next hq =>
      cases heq
      exact ⟨_, hold, (if_neg hq).symm⟩
  · rintro ⟨old, hold, rfl⟩
    refine ⟨port, old, hold, ?_⟩
    split <;> rfl

theorem ports_onPort (p : ℕ) (f : PrivateService S → PrivateService S) :
    ports (onPort p f s) = ports s := by
  simp only [ports, onPort, List.map_map]
  refine List.map_congr_left fun e _ => ?_
  simp only [Function.comp]
  split <;> rfl

theorem services_onPort {p : ℕ} {f : PrivateService S → PrivateService S}
    (hf : ∀ svc, (f svc).service = svc.service) :
    (onPort p f s).serviceMap.map (·.2.service) = s.serviceMap.map (·.2.service) := by
  simp only [onPort, List.map_map]
  refine List.map_congr_left fun e _ => ?_
  simp only [Function.comp]
  split
  · exact hf e.2
  · rfl

theorem map_startLoop {α : Type} (f : ℕ × PrivateService S → α)
    (hf : ∀ port svc listening, f (port, (listen listening svc).2) = f (port, svc))
    (listening : ℕ → Listening) (m : List (ℕ × PrivateService S)) :
    (startLoop listening m).map f = m.map f := by
  induction m with
  | nil => rfl
  | cons e rest ih =>
    simp only [startLoop, List.map_cons, hf]
    split
    · rw [ih]
    · rfl

theorem mem_startLoop {listening : ℕ → Listening} {m : List (ℕ × PrivateService S)}
    {e : ℕ × PrivateService S} (he : e ∈ startLoop listening m) :
    ∃ old, (e.1, old) ∈ m ∧ (e.2 = old ∨ e.2 = (listen (listening e.1) old).2) := by
  induction m with
  | nil => cases he
  | cons first rest ih =>
    simp only [startLoop, List.mem_cons] at he
    rcases he with rfl | he
    · exact ⟨first.2, .head _, Or.inr rfl⟩
    · split at he
      · obtain ⟨old, hold, hcase⟩ := ih he
        exact ⟨old, .tail _ hold, hcase⟩
      · exact ⟨e.2, .tail _ he, Or.inl rfl⟩

theorem listen_keeps (listening : Listening) (svc : PrivateService S) :
    (listen listening svc).2.service = svc.service ∧
      (listen listening svc).2.arrived = svc.arrived := by
  unfold listen
  split
  · exact ⟨rfl, rfl⟩
  · cases listening <;> exact ⟨rfl, rfl⟩

theorem accept_keeps (i : ℕ) (error : Option ℕ) (svc : PrivateService S) :
    (accept i error svc).service = svc.service ∧ (accept i error svc).arrived = svc.arrived := by
  unfold accept
  split <;> exact ⟨rfl, rfl⟩

theorem handle_keeps (i : ℕ) (throws : Bool) (svc : PrivateService S) :
    (handle i throws svc).service = svc.service ∧ (handle i throws svc).arrived = svc.arrived := by
  unfold handle
  split
  · next result _ =>
    cases result with
    | ok client => cases throws <;> exact ⟨rfl, rfl⟩
    | error e => exact ⟨rfl, rfl⟩
  · exact ⟨rfl, rfl⟩

/-- What holds of the map after a run in which every service was used while it existed. -/
structure Invariant (getPort : S → ℕ) (es : List (Event S)) (s : State S) : Prop where
  entries : ∀ port svc, (port, svc) ∈ s.serviceMap →
    PortInvariant svc ∧ svc.arrived = connected port es
  absent : ∀ port, port ∉ ports s → connected port es = []
  sorted : s.serviceMap.Pairwise byPort
  nodup : (ports s).Nodup
  services : (s.serviceMap.map (·.2.service)).Perm (registered es)
  keyed : ∀ e ∈ s.serviceMap, e.1 = getPort e.2.service

theorem Invariant.unique (h : Invariant getPort es s) {port : ℕ} {svc svc' : PrivateService S}
    (hsvc : (port, svc) ∈ s.serviceMap) (hsvc' : (port, svc') ∈ s.serviceMap) : svc = svc' := by
  have heq := List.inj_on_of_nodup_map h.nodup hsvc hsvc' rfl
  exact (Prod.mk.inj heq).2

theorem initial_invariant : Invariant getPort [] (initial : State S) :=
  ⟨nofun, fun _ _ => rfl, .nil, .nil, .nil, nofun⟩

theorem Invariant.registered_iff (h : Invariant getPort es s) (port : ℕ) :
    port ∈ ports s ↔ port ∈ (registered es).map getPort := by
  rw [← (h.services.map getPort).mem_iff, List.map_map, ports, List.map_congr_left h.keyed]
  rfl

theorem register_invariant (h : Invariant getPort es s) {svc : S} (hnew : getPort svc ∉ ports s) :
    Invariant getPort (es ++ [.registerService svc]) (registerService getPort svc s) := by
  let inserted := s.serviceMap.orderedInsert byPort (getPort svc, privateService svc)
  have hmap : (registerService getPort svc s).serviceMap = inserted := by
    rw [registerService, if_neg hnew]
  have hperm : inserted.Perm ((getPort svc, privateService svc) :: s.serviceMap) :=
    List.perm_orderedInsert _ _ _
  have hregistered : registered (es ++ [.registerService svc]) = registered es ++ [svc] := by
    simp [registered]
  have hconnected (port : ℕ) : connected port (es ++ [.registerService svc]) = connected port es := by
    simp [connected]
  refine ⟨?_, ?_, ?_, ?_, ?_, ?_⟩
  · intro port x hx
    rw [hmap, hperm.mem_iff] at hx
    rw [hconnected]
    rcases List.mem_cons.mp hx with heq | hx
    · obtain ⟨rfl, rfl⟩ := Prod.mk.inj heq
      exact ⟨privateService_invariant svc, (h.absent _ hnew).symm⟩
    · exact h.entries port x hx
  · intro port hport
    rw [hconnected]
    refine h.absent port fun hold => hport ?_
    rw [ports, hmap, (hperm.map Prod.fst).mem_iff]
    exact .tail _ hold
  · rw [hmap]
    exact h.sorted.orderedInsert _ _
  · rw [ports, hmap, (hperm.map Prod.fst).nodup_iff]
    exact List.nodup_cons.mpr ⟨hnew, h.nodup⟩
  · rw [hmap, hregistered]
    refine (hperm.map _).trans ?_
    exact (h.services.cons svc).trans (List.perm_append_singleton svc _).symm
  · intro e he
    rw [hmap, hperm.mem_iff] at he
    rcases List.mem_cons.mp he with rfl | he
    · rfl
    · exact h.keyed e he

theorem connected_append (port : ℕ) (es fs : List (Event S)) :
    connected port (es ++ fs) = connected port es ++ connected port fs := List.filterMap_append

theorem registered_append (es fs : List (Event S)) :
    registered (es ++ fs) = registered es ++ registered fs := List.filterMap_append

/-- A step of the service of one port. -/
theorem onPort_invariant (h : Invariant getPort es s) {p : ℕ}
    {f : PrivateService S → PrivateService S} (hregistered : registered [e] = [])
    (hother : ∀ port, port ≠ p → connected port [e] = []) (hp : p ∈ ports s)
    (hservice : ∀ svc, (f svc).service = svc.service)
    (hf : ∀ svc, (p, svc) ∈ s.serviceMap → PortInvariant svc →
      PortInvariant (f svc) ∧ (f svc).arrived = svc.arrived ++ connected p [e]) :
    Invariant getPort (es ++ [e]) (onPort p f s) := by
  refine ⟨fun port svc hsvc => ?_, fun port hport => ?_, ?_, ?_, ?_, ?_⟩
  · obtain ⟨old, hold, rfl⟩ := mem_onPort.mp hsvc
    obtain ⟨hinvariant, harrived⟩ := h.entries port old hold
    rw [connected_append, ← harrived]
    by_cases heq : port = p
    · subst heq
      rw [if_pos rfl]
      exact hf old hold hinvariant
    · rw [if_neg heq, hother port heq, List.append_nil]
      exact ⟨hinvariant, rfl⟩
  · rw [ports_onPort] at hport
    have hne : port ≠ p := fun heq => hport (heq ▸ hp)
    rw [connected_append, h.absent port hport, hother port hne]
    rfl
  · rw [onPort, List.pairwise_map]
    refine h.sorted.imp fun {a b} hab => ?_
    simp only [byPort] at hab ⊢
    split <;> split <;> exact hab
  · rw [ports_onPort]
    exact h.nodup
  · rw [services_onPort hservice, registered_append, hregistered, List.append_nil]
    exact h.services
  · rintro ⟨port, svc⟩ hsvc
    obtain ⟨old, hold, rfl⟩ := mem_onPort.mp hsvc
    have hkeyed : port = getPort old.service := h.keyed _ hold
    change port = getPort (if port = p then f old else old).service
    split
    · rw [hservice]
      exact hkeyed
    · exact hkeyed

theorem start_invariant (h : Invariant getPort es s) (listening : ℕ → Listening) :
    Invariant getPort (es ++ [.start listening]) (start listening s) := by
  have hservices : (start listening s).serviceMap.map (·.2.service) =
      s.serviceMap.map (·.2.service) :=
    map_startLoop _ (fun _ svc l => (listen_keeps l svc).1) listening _
  have hports : ports (start listening s) = ports s :=
    map_startLoop _ (fun _ _ _ => rfl) listening _
  have hconnected (port : ℕ) : connected port (es ++ [.start listening]) = connected port es := by
    simp [connected]
  have hregistered : registered (es ++ [.start listening]) = registered es := by
    simp [registered]
  refine ⟨fun port svc hsvc => ?_, fun port hport => ?_, ?_, ?_, ?_, fun e he => ?_⟩
  · obtain ⟨old, hold, hcase⟩ := mem_startLoop hsvc
    obtain ⟨hinvariant, harrived⟩ := h.entries port old hold
    rw [hconnected]
    rcases hcase with hsame | hlisten
    · exact (show svc = old from hsame) ▸ ⟨hinvariant, harrived⟩
    · rw [show svc = (listen (listening port) old).2 from hlisten]
      exact ⟨listen_invariant hinvariant _, (listen_keeps _ old).2.trans harrived⟩
  · rw [hconnected]
    rw [hports] at hport
    exact h.absent port hport
  · have hsorted : (ports (start listening s)).Pairwise (· ≤ ·) := by
      rw [hports, ports, List.pairwise_map]
      exact h.sorted
    rw [ports, List.pairwise_map] at hsorted
    exact hsorted
  · rw [hports]
    exact h.nodup
  · rw [hservices, hregistered]
    exact h.services
  · obtain ⟨old, hold, hcase⟩ := mem_startLoop he
    have hkeyed : e.1 = getPort old.service := h.keyed _ hold
    rcases hcase with heq | heq
    · rw [heq]
      exact hkeyed
    · rw [heq, (listen_keeps _ old).1]
      exact hkeyed

/-- A step without use of what is gone keeps the invariant. -/
theorem next_invariant (h : Invariant getPort es s) (he : Enabled s e)
    (hnone : (next getPort s e).dangling = false) :
    Invariant getPort (es ++ [e]) (next getPort s e) := by
  have hport {p : ℕ} {svc : PrivateService S} (hsvc : (p, svc) ∈ s.serviceMap) : p ∈ ports s :=
    List.mem_map_of_mem hsvc
  cases e with
  | registerService svc =>
    refine register_invariant h fun htaken => ?_
    rw [next, registerService, if_pos htaken] at hnone
    cases hnone
  | start listening => exact start_invariant h listening
  | connect p client =>
    obtain ⟨svc, hsvc, hready⟩ := he.2 p rfl
    refine onPort_invariant h rfl (fun q hq => ?_) (hport hsvc) (fun _ => rfl) fun old hold hinv => ?_
    · simp [connected, Ne.symm hq]
    · obtain rfl := h.unique hsvc hold
      exact ⟨connect_invariant hinv hready client, by simp [connect, connected]⟩
  | accept p i error =>
    obtain ⟨svc, hsvc, hready, -⟩ := he.2 p rfl
    refine onPort_invariant h rfl (fun _ _ => rfl) (hport hsvc)
      (fun svc => (accept_keeps i error svc).1) fun old hold hinv => ?_
    obtain rfl := h.unique hsvc hold
    exact ⟨accept_invariant hinv hready error,
      (accept_keeps i error svc).2.trans (List.append_nil _).symm⟩
  | handle p i throws =>
    obtain ⟨svc, hsvc, result, hready⟩ := he.2 p rfl
    refine onPort_invariant h rfl (fun _ _ => rfl) (hport hsvc)
      (fun svc => (handle_keeps i throws svc).1) fun old hold hinv => ?_
    obtain rfl := h.unique hsvc hold
    exact ⟨handle_invariant hinv hready throws,
      (handle_keeps i throws svc).2.trans (List.append_nil _).symm⟩

theorem Invariant.registered_nodup (h : Invariant getPort es s) :
    ((registered es).map getPort).Nodup := by
  have hports : ports s = (s.serviceMap.map (·.2.service)).map getPort := by
    rw [List.map_map, ports, List.map_congr_left h.keyed]
    rfl
  exact (h.services.map getPort).nodup_iff.mp (hports ▸ h.nodup)

theorem dangling_next_iff (h : Invariant getPort es s) (he : Enabled s e) :
    (next getPort s e).dangling = false ↔ ((registered (es ++ [e])).map getPort).Nodup := by
  have hnone : s.dangling = false := he.1
  cases e with
  | registerService svc =>
    have hlist : (registered (es ++ [.registerService svc])).map getPort =
        (registered es).map getPort ++ [getPort svc] := by
      simp [registered]
    have hnodup := h.registered_nodup
    rw [hlist, List.nodup_append_comm, List.singleton_append, List.nodup_cons,
      ← h.registered_iff, next, registerService]
    split
    · next htaken => simp [htaken]
    · next hfree => exact iff_of_true hnone ⟨hfree, hnodup⟩
  | start listening =>
    have hlist : registered (es ++ [.start listening]) = registered es := by simp [registered]
    exact iff_of_true hnone (hlist ▸ h.registered_nodup)
  | connect p client =>
    have hlist : registered (es ++ [.connect p client]) = registered es := by simp [registered]
    exact iff_of_true hnone (hlist ▸ h.registered_nodup)
  | accept p i error =>
    have hlist : registered (es ++ [.accept p i error]) = registered es := by simp [registered]
    exact iff_of_true hnone (hlist ▸ h.registered_nodup)
  | handle p i throws =>
    have hlist : registered (es ++ [.handle p i throws]) = registered es := by simp [registered]
    exact iff_of_true hnone (hlist ▸ h.registered_nodup)

/-- A service is used after its destruction, instead of an exception, exactly in the runs that
register a port twice; in the others the map holds every service under its port. -/
theorem dangling_iff (h : Reachable getPort es s) :
    (s.dangling = false ↔ ((registered es).map getPort).Nodup) ∧
      (s.dangling = false → Invariant getPort es s) := by
  induction h with
  | refl => exact ⟨iff_of_true rfl .nil, fun _ => initial_invariant⟩
  | @tail es t e _ he ih =>
    have hinvariant : Invariant getPort es t := ih.2 he.1
    exact ⟨dangling_next_iff hinvariant he, next_invariant hinvariant he⟩

/-- Two services of which only the first could listen, and two of its clients. -/
def servingEvents : List (Event ℕ) :=
  [.registerService 7172, .registerService 7171,
    .start fun port => if port = 7171 then .succeeds else .bindFails,
    .connect 7171 4, .accept 7171 0 none, .connect 7171 5, .handle 7171 0 false]

def servingState : State ℕ := runTrace (system id) initial servingEvents

theorem serving_reachable : Reachable id servingEvents servingState :=
  valid_trace_run (by decide)

theorem dangling_iff_serving : ((registered servingEvents).map id).Nodup :=
  (dangling_iff serving_reachable).1.mp (by decide)

/-- Every client that connected to a port was handed to its service once, in order, or still waits;
there is one accept in progress as long as no handler ended with an exception, and none after. -/
theorem clients_in_order (h : Reachable getPort es s) (hnone : s.dangling = false) {port : ℕ}
    {svc : PrivateService S} (hsvc : (port, svc) ∈ s.serviceMap) :
    svc.incoming ++ inHand svc.accepts ++ svc.backlog = connected port es ∧
      svc.accepts.length + svc.failures = svc.isListening.toNat := by
  obtain ⟨hport, harrived⟩ := ((dangling_iff h).2 hnone).entries port svc hsvc
  exact ⟨hport.order.trans harrived, hport.count⟩

/-- The service that listens, after its first client. -/
def servingService : PrivateService ℕ := ⟨7171, true, true, [none], [5], [4, 5], [4], 0⟩

theorem clients_in_order_serving : [4] ++ inHand [none] ++ [5] = connected 7171 servingEvents ∧
    1 + 0 = true.toNat :=
  have hsvc : (7171, servingService) ∈ servingState.serviceMap := by decide
  clients_in_order serving_reachable (by decide) hsvc

theorem listen_succeeds_iff (listening : Listening) (svc : PrivateService S) :
    (listen listening svc).1 = true ↔ svc.isOpen = false ∧ listening = .succeeds := by
  unfold listen
  split
  · next hopen => simp [hopen]
  · next hclosed => cases listening <;> simp [hclosed]

theorem listen_isListening_iff (listening : Listening) (svc : PrivateService S) :
    (listen listening svc).2.isListening = true ↔
      svc.isListening = true ∨ (listen listening svc).1 = true := by
  unfold listen
  split
  · simp
  · cases listening <;> simp [acceptMore]

/-- The loop comes to the services whose predecessors all started. -/
theorem mem_startLoop_iff (listening : ℕ → Listening) {m : List (ℕ × PrivateService S)}
    (hsorted : (m.map Prod.fst).Pairwise (· < ·)) {port : ℕ} {svc : PrivateService S}
    (hsvc : (port, svc) ∈ m) :
    ∃ after, (port, after) ∈ startLoop listening m ∧ (after.isListening = true ↔
      svc.isListening = true ∨
        ∀ e ∈ m, e.1 ≤ port → (listen (listening e.1) e.2).1 = true) := by
  induction m with
  | nil => cases hsvc
  | cons first rest ih =>
    obtain ⟨p, old⟩ := first
    rw [List.map_cons, List.pairwise_cons] at hsorted
    simp only [startLoop]
    rcases List.mem_cons.mp hsvc with heq | hrest
    · obtain ⟨rfl, rfl⟩ := Prod.mk.inj heq
      refine ⟨_, .head _, ?_⟩
      rw [listen_isListening_iff]
      refine or_congr_right ⟨fun hstarted e he hle => ?_, fun hall => hall _ (.head _) le_rfl⟩
      rcases List.mem_cons.mp he with rfl | he
      · exact hstarted
      · exact absurd (hsorted.1 e.1 (List.mem_map_of_mem he)) (Nat.not_lt.mpr hle)
    · have hlt : p < port := hsorted.1 port (List.mem_map_of_mem hrest)
      cases hstarted : (listen (listening p) old).1 with
      | true =>
        obtain ⟨after, hafter, hiff⟩ := ih hsorted.2 hrest
        refine ⟨after, .tail _ hafter, hiff.trans (or_congr_right ?_)⟩
        simp only [List.forall_mem_cons, hstarted, implies_true, true_and]
      | false =>
        refine ⟨svc, .tail _ hrest, (or_iff_left fun hall => ?_).symm⟩
        rw [hall (p, old) (.head _) (Nat.le_of_lt hlt)] at hstarted
        cases hstarted

theorem Invariant.strictly_sorted (h : Invariant getPort es s) : (ports s).Pairwise (· < ·) := by
  have hle : (ports s).Pairwise (· ≤ ·) := by
    rw [ports, List.pairwise_map]
    exact h.sorted
  exact (hle.and h.nodup).imp fun hab => Nat.lt_of_le_of_ne hab.1 hab.2

/-- A start makes a service listen exactly where every service up to its port was closed and could
listen; those behind the first failure stay closed, and the others keep what they were. -/
theorem listening_iff (h : Reachable getPort es s) (hnone : s.dangling = false)
    (listening : ℕ → Listening) {port : ℕ} {svc : PrivateService S}
    (hsvc : (port, svc) ∈ s.serviceMap) :
    ∃ after, (port, after) ∈ (start listening s).serviceMap ∧ (after.isListening = true ↔
      svc.isListening = true ∨ ∀ q x, (q, x) ∈ s.serviceMap → q ≤ port →
        x.isOpen = false ∧ listening q = .succeeds) := by
  have hinvariant := (dangling_iff h).2 hnone
  obtain ⟨after, hafter, hiff⟩ :=
    mem_startLoop_iff listening hinvariant.strictly_sorted hsvc
  refine ⟨after, hafter, hiff.trans (or_congr_right ?_)⟩
  rw [Prod.forall]
  exact forall₂_congr fun q x => imp_congr_right fun _ => imp_congr_right fun _ =>
    listen_succeeds_iff (listening q) x

theorem listening_iff_serving : ∃ after : PrivateService ℕ,
    (7171, after) ∈ (start (fun _ => .succeeds) servingState).serviceMap ∧
      (after.isListening = true ↔ true = true ∨ ∀ q x, (q, x) ∈ servingState.serviceMap →
        q ≤ 7171 → x.isOpen = false ∧ Listening.succeeds = .succeeds) :=
  have hsvc : (7171, servingService) ∈ servingState.serviceMap := by decide
  listening_iff serving_reachable (by decide) _ hsvc

/-- The service of a port takes no client any more. -/
structure Silent (port : ℕ) (incoming : List ℕ) (s : State S) : Prop where
  present : port ∈ ports s
  quiet : ∀ svc, (port, svc) ∈ s.serviceMap → svc.isOpen = true ∧ svc.incoming = incoming ∧
    ∀ a ∈ svc.accepts, ∃ e, a = some (.error e)

theorem onPort_silent {port p : ℕ} {incoming : List ℕ} {f : PrivateService S → PrivateService S}
    (h : Silent port incoming s)
    (hf : ∀ svc, (p, svc) ∈ s.serviceMap → p = port → svc.isOpen = true →
      (∀ a ∈ svc.accepts, ∃ e, a = some (.error e)) → (f svc).isOpen = true ∧
        (f svc).incoming = svc.incoming ∧ ∀ a ∈ (f svc).accepts, ∃ e, a = some (.error e)) :
    Silent port incoming (onPort p f s) := by
  refine ⟨?_, fun svc hsvc => ?_⟩
  · rw [ports_onPort]
    exact h.present
  · obtain ⟨old, hold, rfl⟩ := mem_onPort.mp hsvc
    obtain ⟨hopen, hincoming, haccepts⟩ := h.quiet old hold
    split
    · next heq =>
      subst heq
      obtain ⟨hopen', hincoming', haccepts'⟩ := hf old hold rfl hopen haccepts
      exact ⟨hopen', hincoming'.trans hincoming, haccepts'⟩
    · exact ⟨hopen, hincoming, haccepts⟩

/-- An accept that failed is not repeated, and neither is `start`. -/
theorem silent_next {port : ℕ} {incoming : List ℕ} (h : Silent port incoming s)
    (he : Enabled s e) : Silent port incoming (next getPort s e) := by
  cases e with
  | registerService svc =>
    rw [next, registerService]
    split
    · exact ⟨h.present, h.quiet⟩
    · next hfree =>
      have hperm : (s.serviceMap.orderedInsert byPort (getPort svc, privateService svc)).Perm
          ((getPort svc, privateService svc) :: s.serviceMap) := List.perm_orderedInsert _ _ _
      refine ⟨((hperm.map Prod.fst).mem_iff).mpr (.tail _ h.present), fun x hx => ?_⟩
      rcases List.mem_cons.mp (hperm.mem_iff.mp hx) with heq | hx
      · exact absurd ((Prod.mk.inj heq).1 ▸ h.present) hfree
      · exact h.quiet x hx
  | start listening =>
    have hports : ports (start listening s) = ports s :=
      map_startLoop _ (fun _ _ _ => rfl) listening _
    refine ⟨hports ▸ h.present, fun x hx => ?_⟩
    obtain ⟨old, hold, hcase⟩ := mem_startLoop hx
    have hquiet := h.quiet old hold
    rcases hcase with hsame | hlisten
    · exact (show x = old from hsame) ▸ hquiet
    · simp only [listen, hquiet.1, if_true] at hlisten
      exact hlisten ▸ hquiet
  | connect p client =>
    exact onPort_silent h fun svc _ _ hopen haccepts => ⟨hopen, rfl, haccepts⟩
  | accept p i error =>
    refine onPort_silent h fun svc _ heq _ _ => ?_
    obtain ⟨ready, hready, hpending, -⟩ := he.2 p rfl
    obtain ⟨e, he⟩ := (h.quiet ready (heq ▸ hready)).2.2 _ (List.mem_of_getElem? hpending)
    cases he
  | handle p i throws =>
    refine onPort_silent h fun svc _ _ hopen haccepts => ?_
    rw [handle]
    split
    · next result hi =>
      obtain ⟨e, he⟩ := haccepts _ (List.mem_of_getElem? hi)
      cases he
      exact ⟨hopen, rfl, fun a ha => haccepts a (List.mem_of_mem_eraseIdx ha)⟩
    · exact ⟨hopen, rfl, haccepts⟩

theorem ready_run (hnone : s.dangling = false) {port : ℕ} {svc : PrivateService S}
    (hsvc : (port, svc) ∈ s.serviceMap) (hport : e.port = some port) (hready : Ready svc e) :
    Run (system getPort) s [e] (next getPort s e) := by
  refine Run.tail .refl ⟨hnone, fun p hp => ⟨svc, ?_, hready⟩⟩
  rw [hport] at hp
  exact Option.some.inj hp ▸ hsvc

/-- A client that connects is accepted and handed to the service. -/
theorem taken (h : Invariant getPort es s) (hnone : s.dangling = false) {port : ℕ}
    {svc : PrivateService S} (hsvc : (port, svc) ∈ s.serviceMap) {a : Accept}
    (ha : a ∈ svc.accepts) (hgood : ∀ e, a ≠ some (.error e)) :
    ∃ fs t after client, Run (system getPort) s fs t ∧ (port, after) ∈ t.serviceMap ∧
      after.incoming = svc.incoming ++ [client] := by
  obtain ⟨i, hi⟩ := List.mem_iff_getElem?.mp ha
  obtain ⟨haccepts, rfl, -, hlistening⟩ := (h.entries port svc hsvc).1.single hi
  have hon {u : State S} {x : PrivateService S} (hx : (port, x) ∈ u.serviceMap)
      (f : PrivateService S → PrivateService S) : (port, f x) ∈ (onPort port f u).serviceMap :=
    mem_onPort.mpr ⟨x, hx, (if_pos rfl).symm⟩
  match a with
  | some (.error e) => exact absurd rfl (hgood e)
  | some (.ok client) =>
    have hrun : Run (system getPort) s [.handle port 0 false] _ :=
      ready_run hnone hsvc rfl ⟨_, hi⟩
    exact ⟨_, _, _, client, hrun, hon hsvc _, by
      simp [handle, haccepts, acceptHandler, acceptMore]⟩
  | none =>
    obtain ⟨client, rest, hbacklog⟩ : ∃ client rest, svc.backlog ++ [0] = client :: rest :=
      List.exists_cons_of_ne_nil (by simp)
    have hconnect : Run (system getPort) s [.connect port 0] _ :=
      ready_run hnone hsvc rfl hlistening
    have hconnected := hon hsvc (connect 0)
    have haccept : Run (system getPort) (onPort port (connect 0) s) [.accept port 0 none] _ :=
      ready_run hnone hconnected rfl ⟨hi, fun _ => by simp [connect]⟩
    have haccepted := hon hconnected (accept 0 none)
    have hdone : accept 0 none (connect 0 svc) =
        { connect 0 svc with accepts := [some (.ok client)], backlog := rest } := by
      simp [accept, connect, hbacklog, haccepts]
    have hhandle : Run (system getPort) _ [.handle port 0 false] _ :=
      ready_run (s := onPort port (accept 0 none) (onPort port (connect 0) s)) hnone haccepted rfl
        ⟨.ok client, by rw [hdone]; rfl⟩
    exact ⟨_, _, _, client, (hconnect.trans haccept).trans hhandle, hon haccepted _, by
      rw [hdone]
      simp [handle, acceptHandler, acceptMore, connect]⟩

/-- A service that listens gets no client in any continuation exactly when the accept it waits for
failed, or there is none any more. -/
theorem silent_iff (h : Reachable getPort es s) (hnone : s.dangling = false) {port : ℕ}
    {svc : PrivateService S} (hsvc : (port, svc) ∈ s.serviceMap) (hopen : svc.isListening = true) :
    (∀ fs t after, Run (system getPort) s fs t → (port, after) ∈ t.serviceMap →
      after.incoming = svc.incoming) ↔ ∀ a ∈ svc.accepts, ∃ e, a = some (.error e) := by
  have hinvariant := (dangling_iff h).2 hnone
  constructor
  · intro hsilent a ha
    by_contra hgood
    obtain ⟨fs, t, after, client, hrun, hafter, hincoming⟩ :=
      taken hinvariant hnone hsvc ha fun e he => hgood ⟨e, he⟩
    have hsame := hsilent fs t after hrun hafter
    simp [hincoming] at hsame
  · intro hfailed fs t after hrun hafter
    have hquiet : Silent port svc.incoming s := by
      refine ⟨List.mem_map_of_mem hsvc, fun x hx => ?_⟩
      obtain rfl := hinvariant.unique hsvc hx
      exact ⟨(hinvariant.entries port svc hsvc).1.isOpen hopen, rfl, hfailed⟩
    have hend : Silent port svc.incoming t :=
      hrun.invariant (fun t e hs he => silent_next hs he) hquiet
    exact (hend.quiet after hafter).2.1

theorem silent_iff_serving : (∀ fs t after, Run (system id) servingState fs t →
    (7171, after) ∈ t.serviceMap → after.incoming = [4]) ↔
      ∀ a ∈ [(none : Accept)], ∃ e, a = some (.error e) :=
  have hsvc : (7171, servingService) ∈ servingState.serviceMap := by decide
  silent_iff serving_reachable (by decide) hsvc rfl

end Runs

end ServiceManager
