import Mathlib.Data.List.Nodup
import Otservpp.Lifecycle

/-! # The send loop as an abstract machine

What is left of a connection when only its outgoing messages are looked at: the ids in the
queue, the write in flight and the log. Each step is one visit of the send loop, with the
actions it appends to the log. -/
namespace SendLoop

open Connection Lifecycle EventSystem

structure Outbox where
  queue : List ℕ
  nextId : ℕ
  flight : List (ℕ × AfterSend)
  log : List Action

section Steps

def empty : Outbox := ⟨[], 0, [], []⟩

def Outbox.append (o : Outbox) (ext : List Action) : Outbox := { o with log := o.log ++ ext }

def Outbox.accept (o : Outbox) (a : AfterSend) : Outbox :=
  { o with
    queue := o.queue ++ [o.nextId]
    nextId := o.nextId + 1
    log := o.log ++ [.accepted o.nextId a (o.flight.head?.map (·.2))] }

/-- The message at the front is encoded and, if that succeeds, its write is started. -/
def Outbox.launch (o : Outbox) (encoded : Bool) (i : ℕ) (a : AfterSend) : Outbox :=
  if encoded then
    { o with flight := o.flight ++ [(i, a)], log := o.log ++ [.encode i, .writeStarted i] }
  else { o with log := o.log ++ [.encode i] }

def Outbox.land (o : Outbox) (k : ℕ) : Outbox := { o with flight := o.flight.eraseIdx k }

def Outbox.pop (o : Outbox) (i q : ℕ) (rest : List ℕ) : Outbox :=
  { o with queue := rest, log := o.log ++ [.written i, .popped q] }

/-- `written` alone is a completion whose log line throws before the message is removed; `lines`
excludes it for writes that `stop` is to follow. -/
inductive Step (lines : Bool) : Outbox → Outbox → Prop where
  | quiet {o} (ext) (h : ∀ a ∈ ext, isSend a = false) : Step lines o (o.append ext)
  | enqueue {o} (a) (h : o.queue ≠ []) : Step lines o (o.accept a)
  | submit {o} (a encoded) (h : o.queue = []) :
      Step lines o ((o.accept a).launch encoded o.nextId a)
  | landed {o k w} (h : o.flight[k]? = some w) : Step lines o (o.land k)
  | written {o k i a} (h : o.flight[k]? = some (i, a)) (ha : lines = true → a = .keepSending) :
      Step lines o ((o.land k).append [.written i])
  | finishedStop {o k i q rest} (h : o.flight[k]? = some (i, .stop)) (hq : o.queue = q :: rest) :
      Step lines o (((o.land k).pop i q rest).append [.stopBegan])
  | finishedIdle {o k i q} (h : o.flight[k]? = some (i, .keepSending)) (hq : o.queue = [q]) :
      Step lines o ((o.land k).pop i q [])
  | finishedNext {o k i q r rest} (encoded) (h : o.flight[k]? = some (i, .keepSending))
      (hq : o.queue = q :: r :: rest) :
      Step lines o (((o.land k).pop i q (r :: rest)).launch encoded r .keepSending)

abbrev Steps (lines : Bool) : Outbox → Outbox → Prop := Relation.ReflTransGen (Step lines)

end Steps

section Traces

def acceptedIds (log : List Action) : List ℕ :=
  log.filterMap fun | .accepted i _ _ => some i | _ => none

def encodedIds (log : List Action) : List ℕ :=
  log.filterMap fun | .encode i => some i | _ => none

def startedIds (log : List Action) : List ℕ :=
  log.filterMap fun | .writeStarted i => some i | _ => none

def poppedIds (log : List Action) : List ℕ :=
  log.filterMap fun | .popped i => some i | _ => none

/-- Every write is started right after its message was encoded. -/
def EncodedBefore (log : List Action) : Prop :=
  ∀ pre i post, log = pre ++ .writeStarted i :: post → ∃ init, pre = init ++ [.encode i]

variable {log ext : List Action}

@[simp] theorem acceptedIds_append :
    acceptedIds (log ++ ext) = acceptedIds log ++ acceptedIds ext := List.filterMap_append

@[simp] theorem encodedIds_append :
    encodedIds (log ++ ext) = encodedIds log ++ encodedIds ext := List.filterMap_append

@[simp] theorem startedIds_append :
    startedIds (log ++ ext) = startedIds log ++ startedIds ext := List.filterMap_append

@[simp] theorem poppedIds_append :
    poppedIds (log ++ ext) = poppedIds log ++ poppedIds ext := List.filterMap_append

theorem quiet_ids (h : ∀ a ∈ ext, isSend a = false) :
    acceptedIds ext = [] ∧ encodedIds ext = [] ∧ startedIds ext = [] ∧ poppedIds ext = [] := by
  simp only [acceptedIds, encodedIds, startedIds, poppedIds, List.filterMap_eq_nil_iff]
  refine ⟨?_, ?_, ?_, ?_⟩ <;>
  · intro a ha
    have := h a ha
    cases a <;> first | rfl | cases this

theorem mem_startedIds {i : ℕ} : i ∈ startedIds log ↔ .writeStarted i ∈ log := by
  simp only [startedIds, List.mem_filterMap]
  constructor
  · rintro ⟨a, ha, hi⟩
    cases a <;> cases hi
    exact ha
  · intro h
    exact ⟨_, h, rfl⟩

theorem count_encodedIds (i : ℕ) : log.count (.encode i) = (encodedIds log).count i := by
  induction log with
  | nil => rfl
  | cons a log ih =>
    cases a <;> simp [encodedIds, List.count_cons] at ih ⊢ <;> exact ih

theorem EncodedBefore.append (h : EncodedBefore log) (hext : startedIds ext = []) :
    EncodedBefore (log ++ ext) := by
  intro pre i post hlog
  rcases append_split hlog with ⟨mid, hold, -⟩ | ⟨mid, -, hnew⟩
  · exact h pre i mid hold
  · have hmem : i ∈ startedIds ext := mem_startedIds.mpr (by rw [hnew]; simp)
    rw [hext] at hmem
    cases hmem

theorem EncodedBefore.launch (h : EncodedBefore log) (i : ℕ) :
    EncodedBefore (log ++ [.encode i, .writeStarted i]) := by
  intro pre j post hlog
  rcases append_split hlog with ⟨mid, hold, -⟩ | ⟨mid, hpre, hnew⟩
  · exact h pre j mid hold
  · match mid, hnew with
    | [], hnew => cases hnew
    | [_], hnew =>
      cases hnew
      exact ⟨log, hpre⟩
    | _ :: _ :: _, hnew => simp at hnew

end Traces

section Invariant

/-- The ids are those of the messages already removed, or these and the front of the queue. -/
def UpToFront (o : Outbox) (ids : List ℕ) : Prop :=
  ids = poppedIds o.log ∨ ∃ q rest, o.queue = q :: rest ∧ ids = poppedIds o.log ++ [q]

/-- A write in flight is the only one and is for the front of the queue. -/
def FlightAtFront (o : Outbox) : Prop :=
  o.flight = [] ∨ ∃ q rest a, o.queue = q :: rest ∧ o.flight = [(q, a)] ∧
    startedIds o.log = poppedIds o.log ++ [q] ∧ encodedIds o.log = poppedIds o.log ++ [q]

structure Invariant (o : Outbox) : Prop where
  accepted : acceptedIds o.log = List.range o.nextId
  queued : poppedIds o.log ++ o.queue = List.range o.nextId
  flight : FlightAtFront o
  started : UpToFront o (startedIds o.log)
  encoded : UpToFront o (encodedIds o.log)
  encodedBefore : EncodedBefore o.log

variable {o p : Outbox} {lines : Bool}

theorem empty_invariant : Invariant empty := by
  refine ⟨rfl, rfl, Or.inl rfl, Or.inl rfl, Or.inl rfl, ?_⟩
  intro pre i post h
  simp [empty] at h

/-- With nothing queued, every accepted message has been written and removed. -/
theorem Invariant.idle (h : Invariant o) (hq : o.queue = []) :
    o.flight = [] ∧ startedIds o.log = poppedIds o.log ∧ encodedIds o.log = poppedIds o.log := by
  refine ⟨?_, ?_, ?_⟩
  · rcases h.flight with hnone | ⟨q, rest, a, hcons, -⟩
    · exact hnone
    · rw [hq] at hcons
      cases hcons
  · rcases h.started with hsame | ⟨q, rest, hcons, -⟩
    · exact hsame
    · rw [hq] at hcons
      cases hcons
  · rcases h.encoded with hsame | ⟨q, rest, hcons, -⟩
    · exact hsame
    · rw [hq] at hcons
      cases hcons

theorem Invariant.landing {k i : ℕ} {a : AfterSend} (h : Invariant o)
    (hk : o.flight[k]? = some (i, a)) :
    ∃ rest, o.queue = i :: rest ∧ o.flight = [(i, a)] ∧ o.flight.eraseIdx k = [] ∧
      startedIds o.log = poppedIds o.log ++ [i] ∧ encodedIds o.log = poppedIds o.log ++ [i] := by
  rcases h.flight with hnone | ⟨q, rest, b, hcons, hflight, hstarted, hencoded⟩
  · rw [hnone] at hk
    cases hk
  · rw [hflight] at hk ⊢
    cases k with
    | zero =>
      cases hk
      exact ⟨rest, hcons, rfl, rfl, hstarted, hencoded⟩
    | succ k => cases hk

theorem Invariant.append {ext : List Action} (h : Invariant o) (ha : acceptedIds ext = [])
    (he : encodedIds ext = []) (hs : startedIds ext = []) (hp : poppedIds ext = []) :
    Invariant (o.append ext) := by
  constructor <;>
    simp only [Outbox.append, FlightAtFront, UpToFront, acceptedIds_append, encodedIds_append,
      startedIds_append, poppedIds_append, ha, he, hs, hp, List.append_nil]
  · exact h.accepted
  · exact h.queued
  · exact h.flight
  · exact h.started
  · exact h.encoded
  · exact h.encodedBefore.append hs

theorem Invariant.landed {k : ℕ} {w : ℕ × AfterSend} (h : Invariant o)
    (hk : o.flight[k]? = some w) : Invariant (o.land k) := by
  obtain ⟨rest, -, -, herase, -⟩ := h.landing hk
  exact ⟨h.accepted, h.queued, Or.inl herase, h.started, h.encoded, h.encodedBefore⟩

theorem Invariant.enqueue (h : Invariant o) (hq : o.queue ≠ []) (a : AfterSend) :
    Invariant (o.accept a) := by
  obtain ⟨q, rest, hcons⟩ := List.exists_cons_of_ne_nil hq
  have hkeep (ids : List ℕ) (hids : UpToFront o ids) :
      ids = poppedIds o.log ∨
        ∃ r more, (o.accept a).queue = r :: more ∧ ids = poppedIds o.log ++ [r] := by
    rcases hids with hsame | ⟨r, more, hr, hfront⟩
    · exact Or.inl hsame
    · exact Or.inr ⟨r, more ++ [o.nextId], by simp [Outbox.accept, hr], hfront⟩
  have hlog : poppedIds (o.accept a).log = poppedIds o.log ∧
      startedIds (o.accept a).log = startedIds o.log ∧
      encodedIds (o.accept a).log = encodedIds o.log := by
    simp [Outbox.accept, poppedIds, startedIds, encodedIds]
  obtain ⟨hpopped, hstarted, hencoded⟩ := hlog
  constructor
  · simp only [Outbox.accept, acceptedIds_append, h.accepted, List.range_succ]
    rfl
  · rw [hpopped]
    simp only [Outbox.accept, ← List.append_assoc, h.queued, List.range_succ]
  · unfold FlightAtFront
    rw [hpopped, hstarted, hencoded]
    rcases h.flight with hnone | ⟨r, more, b, hr, hflight, hs, he⟩
    · exact Or.inl hnone
    · exact Or.inr ⟨r, more ++ [o.nextId], b, by simp [Outbox.accept, hr], hflight, hs, he⟩
  · unfold UpToFront
    rw [hpopped, hstarted]
    exact hkeep _ h.started
  · unfold UpToFront
    rw [hpopped, hencoded]
    exact hkeep _ h.encoded
  · exact h.encodedBefore.append (by rfl)

/-- Nothing is in flight and the front of the queue has not been touched yet. -/
structure Ready (o : Outbox) : Prop where
  accepted : acceptedIds o.log = List.range o.nextId
  queued : poppedIds o.log ++ o.queue = List.range o.nextId
  flight : o.flight = []
  started : startedIds o.log = poppedIds o.log
  encoded : encodedIds o.log = poppedIds o.log
  encodedBefore : EncodedBefore o.log

theorem Ready.invariant (h : Ready o) : Invariant o :=
  ⟨h.accepted, h.queued, Or.inl h.flight, Or.inl h.started, Or.inl h.encoded, h.encodedBefore⟩

theorem Invariant.accept_ready (h : Invariant o) (hq : o.queue = []) (a : AfterSend) :
    Ready (o.accept a) := by
  obtain ⟨hflight, hstarted, hencoded⟩ := h.idle hq
  have hqueued := h.queued
  rw [hq] at hqueued
  constructor
  · simp only [Outbox.accept, acceptedIds_append, h.accepted, List.range_succ]
    rfl
  · simp only [Outbox.accept, hq, List.nil_append, List.range_succ, ← hqueued]
    simp [poppedIds]
  · exact hflight
  · simpa [Outbox.accept, startedIds, poppedIds] using hstarted
  · simpa [Outbox.accept, encodedIds, poppedIds] using hencoded
  · exact h.encodedBefore.append rfl

theorem Invariant.pop_ready {k i q : ℕ} {a : AfterSend} {rest : List ℕ} (h : Invariant o)
    (hk : o.flight[k]? = some (i, a)) (hq : o.queue = q :: rest) :
    Ready ((o.land k).pop i q rest) := by
  obtain ⟨rest', hcons, -, herase, hstarted, hencoded⟩ := h.landing hk
  obtain ⟨rfl, rfl⟩ := List.cons_eq_cons.mp (hq.symm.trans hcons)
  have hqueued := h.queued
  rw [hq] at hqueued
  constructor
  · simpa [Outbox.pop, Outbox.land, acceptedIds] using h.accepted
  · simpa [Outbox.pop, Outbox.land, poppedIds] using hqueued
  · exact herase
  · simpa [Outbox.pop, Outbox.land, startedIds, poppedIds] using hstarted
  · simpa [Outbox.pop, Outbox.land, encodedIds, poppedIds] using hencoded
  · exact h.encodedBefore.append rfl

theorem Ready.launch {q : ℕ} {rest : List ℕ} (h : Ready o) (hq : o.queue = q :: rest)
    (encoded : Bool) (a : AfterSend) : Invariant (o.launch encoded q a) := by
  cases encoded with
  | false =>
    refine ⟨?_, ?_, Or.inl h.flight, Or.inl ?_, Or.inr ⟨q, rest, hq, ?_⟩, ?_⟩
    · simpa [Outbox.launch, acceptedIds] using h.accepted
    · simpa [Outbox.launch, poppedIds] using h.queued
    · simpa [Outbox.launch, startedIds, poppedIds] using h.started
    · simpa [Outbox.launch, encodedIds, poppedIds] using h.encoded
    · exact h.encodedBefore.append rfl
  | true =>
    have hstarted : startedIds (o.launch true q a).log = poppedIds (o.launch true q a).log ++ [q] := by
      simpa [Outbox.launch, startedIds, poppedIds] using h.started
    have hencoded : encodedIds (o.launch true q a).log = poppedIds (o.launch true q a).log ++ [q] := by
      simpa [Outbox.launch, encodedIds, poppedIds] using h.encoded
    refine ⟨?_, ?_, Or.inr ⟨q, rest, a, hq, ?_, hstarted, hencoded⟩, Or.inr ⟨q, rest, hq, hstarted⟩,
      Or.inr ⟨q, rest, hq, hencoded⟩, ?_⟩
    · simpa [Outbox.launch, acceptedIds] using h.accepted
    · simpa [Outbox.launch, poppedIds] using h.queued
    · simp [Outbox.launch, h.flight]
    · exact h.encodedBefore.launch q

theorem step_preserves_invariant (h : Invariant o) (hs : Step lines o p) : Invariant p := by
  cases hs with
  | quiet ext hext =>
    obtain ⟨ha, he, hst, hp⟩ := quiet_ids hext
    exact h.append ha he hst hp
  | enqueue a hq => exact h.enqueue hq a
  | submit a encoded hq =>
    have hqueue : (o.accept a).queue = [o.nextId] := by simp [Outbox.accept, hq]
    exact (h.accept_ready hq a).launch hqueue encoded a
  | landed hk => exact h.landed hk
  | written hk _ => exact (h.landed hk).append rfl rfl rfl rfl
  | finishedStop hk hq => exact (h.pop_ready hk hq).invariant.append rfl rfl rfl rfl
  | finishedIdle hk hq => exact (h.pop_ready hk hq).invariant
  | finishedNext encoded hk hq => exact (h.pop_ready hk hq).launch rfl encoded .keepSending

theorem steps_preserve_invariant (h : Invariant o) (hs : Steps lines o p) : Invariant p := by
  induction hs with
  | refl => exact h
  | tail _ hstep ih => exact step_preserves_invariant ih hstep

/-- What is started was encoded once, and is a prefix of what was accepted. -/
theorem Invariant.started_prefix (h : Invariant o) : startedIds o.log <+: acceptedIds o.log := by
  rw [h.accepted, ← h.queued]
  rcases h.started with hs | ⟨q, rest, hq, hs⟩
  · rw [hs]
    exact List.prefix_append _ _
  · rw [hs, hq]
    exact ⟨rest, by simp⟩

theorem Invariant.encoded_nodup (h : Invariant o) : (encodedIds o.log).Nodup := by
  have hshort : encodedIds o.log <+: List.range o.nextId := by
    rw [← h.queued]
    rcases h.encoded with hs | ⟨q, rest, hq, hs⟩
    · rw [hs]
      exact List.prefix_append _ _
    · rw [hs, hq]
      exact ⟨rest, by simp⟩
  exact hshort.sublist.nodup List.nodup_range

theorem Invariant.encoded_once (h : Invariant o) {i : ℕ} (hi : .writeStarted i ∈ o.log) :
    o.log.count (.encode i) = 1 := by
  obtain ⟨pre, post, hlog⟩ := List.append_of_mem hi
  obtain ⟨init, hinit⟩ := h.encodedBefore pre i post hlog
  have hmem : i ∈ encodedIds o.log := by
    rw [hlog, hinit]
    simp [encodedIds]
  rw [count_encodedIds]
  exact List.count_eq_one_of_mem h.encoded_nodup hmem

end Invariant

section StopAfterSend

/-- The message was given to `sendAndStop`. -/
def StopAccepted (log : List Action) (i : ℕ) : Prop := ∃ f, .accepted i .stop f ∈ log

/-- No `sendAndStop` was accepted while a write of `send` was in flight. -/
def NoneBehindSend (log : List Action) : Prop := ∀ i, .accepted i .stop (some .keepSending) ∉ log

/-- No write is started or completed before `stop` begins. -/
def QuietUntilStop : List Action → Prop
  | [] => True
  | .stopBegan :: _ => True
  | .writeStarted _ :: _ => False
  | .written _ :: _ => False
  | _ :: rest => QuietUntilStop rest

/-- Once a message given to `sendAndStop` is written, `stop` begins, and no write is started or
completed before. -/
def StopsAfter (log : List Action) : Prop :=
  ∀ pre i post, log = pre ++ .written i :: post → StopAccepted pre i →
    .stopBegan ∈ post ∧ QuietUntilStop post

variable {o p : Outbox} {log post ext : List Action} {lines : Bool}

theorem quietUntilStop_append_left (h : .stopBegan ∈ post) (hq : QuietUntilStop post) :
    QuietUntilStop (post ++ ext) := by
  induction post with
  | nil => cases h
  | cons a post ih =>
    cases a with
    | stopBegan => trivial
    | writeStarted i => exact hq
    | written i => exact hq
    | _ => exact ih (by simpa using h) hq

/-- `queued`: behind or at a `sendAndStop` message no `send` is in flight. -/
structure StopInvariant (o : Outbox) : Prop where
  queued : ∀ i ∈ o.queue, StopAccepted o.log i → ∀ w ∈ o.flight, w.2 = .stop
  stops : StopsAfter o.log

theorem empty_stopInvariant : StopInvariant empty := by
  constructor
  · intro i hi
    cases hi
  · intro pre i post h
    simp [empty] at h

/-- What is appended to a log leaves what it says of the writes completed before. -/
theorem StopInvariant.extend (h : StopInvariant o) (hlog : p.log = o.log ++ ext)
    (hqueued : ∀ i ∈ p.queue, StopAccepted p.log i → ∀ w ∈ p.flight, w.2 = .stop)
    (hwritten : ∀ mid i post, ext = mid ++ .written i :: post → StopAccepted (o.log ++ mid) i →
      .stopBegan ∈ post ∧ QuietUntilStop post) : StopInvariant p := by
  refine ⟨hqueued, ?_⟩
  intro pre i post heq hi
  rcases append_split (hlog.symm.trans heq) with ⟨mid, hold, rfl⟩ | ⟨mid, rfl, hnew⟩
  · obtain ⟨hstop, hquiet⟩ := h.stops pre i mid hold hi
    exact ⟨List.mem_append_left _ hstop, quietUntilStop_append_left hstop hquiet⟩
  · exact hwritten mid i post hnew hi

/-- Actions that accept nothing do not change what was given to `sendAndStop`. -/
theorem StopAccepted.of_append {i : ℕ} (h : StopAccepted (log ++ ext) i)
    (hext : acceptedIds ext = []) : StopAccepted log i := by
  obtain ⟨f, hf⟩ := h
  rcases List.mem_append.mp hf with hf | hf
  · exact ⟨f, hf⟩
  · have hmem : i ∈ acceptedIds ext := List.mem_filterMap.mpr ⟨_, hf, rfl⟩
    rw [hext] at hmem
    cases hmem

theorem StopAccepted.lt_nextId {i : ℕ} (hi : StopAccepted o.log i) (h : Invariant o) :
    i < o.nextId := by
  obtain ⟨f, hf⟩ := hi
  have hmem : i ∈ acceptedIds o.log := List.mem_filterMap.mpr ⟨_, hf, rfl⟩
  rw [h.accepted] at hmem
  exact List.mem_range.mp hmem

def launchActions (encoded : Bool) (i : ℕ) : List Action :=
  if encoded then [.encode i, .writeStarted i] else [.encode i]

theorem launch_log (encoded : Bool) (i : ℕ) (a : AfterSend) :
    (o.launch encoded i a).log = o.log ++ launchActions encoded i := by
  cases encoded <;> rfl

theorem launch_queue (encoded : Bool) (i : ℕ) (a : AfterSend) :
    (o.launch encoded i a).queue = o.queue := by
  cases encoded <;> rfl

theorem launch_flight {encoded : Bool} {i : ℕ} {a : AfterSend} {w : ℕ × AfterSend}
    (h : w ∈ (o.launch encoded i a).flight) : w ∈ o.flight ∨ w = (i, a) := by
  cases encoded with
  | false => exact Or.inl h
  | true => simpa [Outbox.launch] using h

theorem launchActions_accepted (encoded : Bool) (i : ℕ) :
    acceptedIds (launchActions encoded i) = [] := by
  cases encoded <;> rfl

theorem mem_launchActions {encoded : Bool} {i : ℕ} {a : Action} (h : a ∈ launchActions encoded i) :
    a = .encode i ∨ a = .writeStarted i := by
  cases encoded with
  | false => exact Or.inl (by simpa [launchActions] using h)
  | true => simpa [launchActions] using h

/-- The same for steps in which no write completes. -/
theorem StopInvariant.extend_silent (h : StopInvariant o) (hlog : p.log = o.log ++ ext)
    (hqueued : ∀ i ∈ p.queue, StopAccepted p.log i → ∀ w ∈ p.flight, w.2 = .stop)
    (hwritten : ∀ i, .written i ∉ ext) : StopInvariant p := by
  refine h.extend hlog hqueued ?_
  rintro mid i post rfl
  exact absurd (by simp) (hwritten i)

theorem StopInvariant.quiet_step (h : StopInvariant o) (hext : ∀ a ∈ ext, isSend a = false) :
    StopInvariant (o.append ext) := by
  refine h.extend_silent rfl ?_ ?_
  · intro i hi hstop
    exact h.queued i hi (hstop.of_append (quiet_ids hext).1)
  · intro i hmem
    cases hext _ hmem

theorem StopInvariant.enqueue_step (h : StopInvariant o) (hi : Invariant o) {a : AfterSend}
    (hnone : NoneBehindSend (o.accept a).log) : StopInvariant (o.accept a) := by
  refine h.extend_silent rfl ?_ ?_
  · intro i hmem hstop w hw
    obtain ⟨f, hf⟩ := hstop
    rcases List.mem_append.mp hf with hf | hf
    · rcases List.mem_append.mp hmem with hmem | hmem
      · exact h.queued i hmem ⟨f, hf⟩ w hw
      · have hlt := StopAccepted.lt_nextId ⟨f, hf⟩ hi
        rw [List.mem_singleton.mp hmem] at hlt
        exact absurd hlt (lt_irrefl _)
    · -- the new message: the continuation in flight is the one its acceptance recorded
      obtain ⟨rfl, rfl, rfl⟩ : i = o.nextId ∧ .stop = a ∧ f = o.flight.head?.map (·.2) := by
        simpa using hf
      rcases hi.flight with hempty | ⟨q, rest, b, -, hflight, -⟩
      · change w ∈ o.flight at hw
        rw [hempty] at hw
        cases hw
      · change w ∈ o.flight at hw
        rw [hflight] at hw
        obtain rfl := List.mem_singleton.mp hw
        cases b with
        | stop => rfl
        | keepSending =>
          refine absurd ?_ (hnone o.nextId)
          simp [Outbox.accept, hflight]
  · simp

theorem StopInvariant.submit_step (h : StopInvariant o) (hi : Invariant o) (hq : o.queue = [])
    (a : AfterSend) (encoded : Bool) :
    StopInvariant ((o.accept a).launch encoded o.nextId a) := by
  have hlog : ((o.accept a).launch encoded o.nextId a).log =
      o.log ++ (.accepted o.nextId a (o.flight.head?.map (·.2)) :: launchActions encoded o.nextId) :=
    (launch_log encoded o.nextId a).trans (List.append_assoc o.log _ _)
  refine h.extend_silent hlog ?_ ?_
  · intro i hmem hstop w hw
    have hnew : i = o.nextId := by
      rw [launch_queue] at hmem
      simpa [Outbox.accept, hq] using hmem
    rcases launch_flight hw with hw | rfl
    · change w ∈ o.flight at hw
      rw [(hi.idle hq).1] at hw
      cases hw
    · rw [launch_log] at hstop
      obtain ⟨f, hf⟩ := hstop.of_append (launchActions_accepted encoded _)
      rcases List.mem_append.mp hf with hf | hf
      · have hlt := StopAccepted.lt_nextId ⟨f, hf⟩ hi
        rw [hnew] at hlt
        exact absurd hlt (lt_irrefl _)
      · have haccepted : i = o.nextId ∧ .stop = a ∧ f = o.flight.head?.map (·.2) := by
          simpa using hf
        exact haccepted.2.1.symm
  · intro i hmem
    rcases List.mem_cons.mp hmem with hmem | hmem
    · cases hmem
    · rcases mem_launchActions hmem with hmem | hmem <;> cases hmem

theorem StopInvariant.landed_step {k : ℕ} {w : ℕ × AfterSend} (h : StopInvariant o)
    (hi : Invariant o) (hk : o.flight[k]? = some w) : StopInvariant (o.land k) := by
  obtain ⟨rest, -, -, herase, -⟩ := hi.landing hk
  refine h.extend_silent (List.append_nil _).symm ?_ (by simp)
  intro i _ _ w hw
  change w ∈ o.flight.eraseIdx k at hw
  rw [herase] at hw
  cases hw

/-- While a write of `send` is in flight, nothing in the queue came from `sendAndStop`. -/
theorem StopInvariant.none_queued {k i : ℕ} (h : StopInvariant o)
    (hk : o.flight[k]? = some (i, .keepSending)) {j : ℕ} (hj : j ∈ o.queue) :
    ¬ StopAccepted o.log j := by
  intro hstop
  cases h.queued j hj hstop (i, .keepSending) (List.mem_of_getElem? hk)

/-- Only a write of `send` ends without its line. -/
theorem StopInvariant.written_step {k i : ℕ} (h : StopInvariant o) (hi : Invariant o)
    (hk : o.flight[k]? = some (i, .keepSending)) :
    StopInvariant ((o.land k).append [.written i]) := by
  obtain ⟨rest, hq, -, herase, -⟩ := hi.landing hk
  refine h.extend rfl ?_ ?_
  · intro j _ _ w hw
    change w ∈ o.flight.eraseIdx k at hw
    rw [herase] at hw
    cases hw
  · intro mid j post hext hstop
    obtain ⟨rfl, rfl⟩ : mid = [] ∧ j = i := by
      rcases mid with _ | ⟨_, _ | _⟩ <;> simp_all
    have hfront : j ∈ o.queue := by
      rw [hq]
      exact List.mem_cons_self
    have hold : StopAccepted o.log j := hstop.of_append rfl
    exact absurd hold (h.none_queued hk hfront)

theorem StopInvariant.finishedStop_step {k i q : ℕ} {rest : List ℕ} (h : StopInvariant o)
    (hi : Invariant o) (hk : o.flight[k]? = some (i, .stop)) :
    StopInvariant (((o.land k).pop i q rest).append [.stopBegan]) := by
  obtain ⟨_, -, -, herase, -⟩ := hi.landing hk
  refine h.extend (List.append_assoc o.log _ _) ?_ ?_
  · intro j _ _ w hw
    change w ∈ o.flight.eraseIdx k at hw
    rw [herase] at hw
    cases hw
  · intro mid j post hext _
    rcases mid with _ | ⟨_, _ | ⟨_, _ | _⟩⟩ <;> simp at hext
    rw [← hext.2]
    exact ⟨by simp, trivial⟩

/-- Covers both ways `keepSending` goes on: with the next message, or with none. -/
theorem StopInvariant.finishedSend_step {k i q : ℕ} {rest : List ℕ} (h : StopInvariant o)
    (ext : List Action) (hi : Invariant o) (hk : o.flight[k]? = some (i, .keepSending)) (hq : o.queue = q :: rest)
    (hlog : p.log = o.log ++ (.written i :: .popped q :: ext)) (hqueue : p.queue = rest)
    (hext : ∀ a ∈ ext, ∃ r, a = .encode r ∨ a = .writeStarted r) : StopInvariant p := by
  obtain ⟨_, hfront, -, -, -⟩ := hi.landing hk
  obtain ⟨rfl, rfl⟩ := List.cons_eq_cons.mp (hq.symm.trans hfront)
  have haccepts : acceptedIds (.written q :: .popped q :: ext) = [] := by
    rw [acceptedIds, List.filterMap_eq_nil_iff]
    intro a ha
    rcases List.mem_cons.mp ha with rfl | ha
    · rfl
    rcases List.mem_cons.mp ha with rfl | ha
    · rfl
    obtain ⟨r, rfl | rfl⟩ := hext a ha <;> rfl
  have hshort (mid : List Action) (tail : List Action)
      (hmid : .written q :: .popped q :: ext = mid ++ tail) : acceptedIds mid = [] := by
    rw [hmid, acceptedIds_append] at haccepts
    exact (List.append_eq_nil_iff.mp haccepts).1
  refine h.extend hlog ?_ ?_
  · intro j hj hstop
    rw [hlog] at hstop
    refine absurd (hstop.of_append haccepts) (h.none_queued hk ?_)
    rw [hq, ← hqueue]
    exact List.mem_cons_of_mem _ hj
  · intro mid j post hmid hstop
    have hj : j = q := by
      have hmem : Action.written j ∈ Action.written q :: .popped q :: ext := by rw [hmid]; simp
      rcases List.mem_cons.mp hmem with hmem | hmem
      · exact Action.written.inj hmem
      rcases List.mem_cons.mp hmem with hmem | hmem
      · cases hmem
      obtain ⟨r, hr | hr⟩ := hext _ hmem <;> cases hr
    rw [hj] at hstop
    exact absurd (hstop.of_append (hshort mid _ hmid)) (h.none_queued hk (by simp [hq]))

theorem step_preserves_stopInvariant (h : StopInvariant o) (hi : Invariant o) (hs : Step true o p)
    (hnone : NoneBehindSend p.log) : StopInvariant p := by
  cases hs with
  | quiet ext hext => exact h.quiet_step hext
  | enqueue a _ => exact h.enqueue_step hi hnone
  | submit a encoded hq => exact h.submit_step hi hq a encoded
  | landed hk => exact h.landed_step hi hk
  | written hk ha =>
    obtain rfl := ha rfl
    exact h.written_step hi hk
  | finishedStop hk _ => exact h.finishedStop_step hi hk
  | finishedIdle hk hq => exact h.finishedSend_step [] hi hk hq rfl rfl (by simp)
  | @finishedNext k i q r rest encoded hk hq =>
    refine h.finishedSend_step (launchActions encoded r) hi hk hq ?_ (launch_queue ..) ?_
    · rw [launch_log]
      exact List.append_assoc o.log _ _
    · intro a ha
      exact ⟨r, mem_launchActions ha⟩

theorem step_log_grows (hs : Step lines o p) : o.log <+: p.log := by
  cases hs with
  | quiet ext _ => exact List.prefix_append _ _
  | enqueue a _ => exact List.prefix_append _ _
  | submit a encoded _ =>
    rw [launch_log]
    exact (List.prefix_append _ _).trans (List.prefix_append _ _)
  | landed _ => exact List.prefix_rfl
  | written _ _ => exact List.prefix_append _ _
  | finishedStop _ _ => exact (List.prefix_append _ _).trans (List.prefix_append _ _)
  | finishedIdle _ _ => exact List.prefix_append _ _
  | finishedNext encoded _ _ =>
    rw [launch_log]
    exact (List.prefix_append _ _).trans (List.prefix_append _ _)

theorem steps_preserve_stopInvariant (h : StopInvariant o) (hi : Invariant o) (hs : Steps true o p)
    (hnone : NoneBehindSend p.log) : StopInvariant p := by
  induction hs with
  | refl => exact h
  | tail hsteps hstep ih =>
    have hbefore := ih fun i hmem => hnone i ((step_log_grows hstep).subset hmem)
    exact step_preserves_stopInvariant hbefore (steps_preserve_invariant hi hsteps) hstep hnone

end StopAfterSend

end SendLoop
