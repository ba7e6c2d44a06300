import Mathlib.Data.List.Nodup
import Otservpp.TimerWaits

/-! # Deferred tasks

`DeferredTask` with its deadline timer and its owners: the pointers that clients hold, the handlers
that were not dispatched and the functions that have not ended. As long as a function runs it may
use the pointer it was given. -/
namespace DeferredTask

open EventSystem TimerWaits
open Connection (ErrorCode)

/-- The handler of each wait is given a function. -/
abbrev Wait := TimerWaits.Wait ℕ

/-- `aborted i` is a wait found in progress, `cancelled` what `cancel` returned. -/
inductive Action where
  | aborted (i : ℕ)
  | called (i : ℕ) (e : ErrorCode)
  | cancelled (result : Bool)
  deriving DecidableEq, Repr

structure State where
  expiresIn : ℤ
  waits : List Wait
  running : List ℕ
  handles : ℕ
  log : List Action
  deriving DecidableEq, Repr

inductive Event where
  | start (millisec : ℤ) (func : ℕ)
  | cancel
  | expire (e : ErrorCode)
  | dispatch (i : ℕ)
  | finish (j : ℕ)
  | copy
  | drop
  deriving DecidableEq, Repr

section Task

/-- `make_shared` gave the task to its first owner. -/
def initial : State := ⟨0, [], [], 1, []⟩

/-- The waits in progress, by number. -/
def pendingWaits (s : State) : List ℕ := pending s.waits

def abortPending (s : State) : State :=
  { s with
    waits := s.waits.map (Wait.complete .operationAborted)
    log := s.log ++ (pendingWaits s).map .aborted }

def expiresFromNow (ms : ℤ) (s : State) : State := { abortPending s with expiresIn := ms }

def asyncWait (func : ℕ) (s : State) : State := { s with waits := s.waits ++ [⟨func, .pending⟩] }

def schedule (ms : ℤ) (func : ℕ) (s : State) : State := asyncWait func (expiresFromNow ms s)

def start (millisec : ℤ) (func : ℕ) (s : State) : State := schedule millisec func s

def cancel (s : State) : State :=
  { abortPending s with log := (abortPending s).log ++ [.cancelled (0 < (pendingWaits s).length)] }

def expire (e : ErrorCode) (s : State) : State := { s with waits := s.waits.map (Wait.complete e) }

/-- The handler of a wait calls its function. -/
def dispatch (i : ℕ) (s : State) : State :=
  match s.waits[i]? with
  | some ⟨func, .queued e⟩ =>
    { s with
      waits := s.waits.set i ⟨func, .dispatched e⟩
      running := s.running ++ [i]
      log := s.log ++ [.called i e] }
  | _ => s

/-- Who owns the task. -/
def owners (s : State) : ℕ :=
  s.handles + s.waits.countP (fun w => !isDispatched w.stage) + s.running.length

/-- The task can be reached, by a client or through the pointer that a function was given. -/
def Held (s : State) : Prop := 0 < s.handles ∨ s.running ≠ []

def Enabled (s : State) : Event → Prop
  | .start .. | .cancel | .copy => Held s
  | .expire e => pendingWaits s ≠ [] ∧ e ≠ .operationAborted
  | .dispatch i => ∃ w ∈ s.waits[i]?, isQueued w.stage = true
  | .finish j => j < s.running.length
  | .drop => 0 < s.handles

def next (s : State) : Event → State
  | .start millisec func => start millisec func s
  | .cancel => cancel s
  | .expire e => expire e s
  | .dispatch i => dispatch i s
  | .finish j => { s with running := s.running.eraseIdx j }
  | .copy => { s with handles := s.handles + 1 }
  | .drop => { s with handles := s.handles - 1 }

def system : System State Event := ⟨Enabled, next⟩

def Reachable (es : List Event) (s : State) : Prop := Run system initial es s

instance (s : State) : (e : Event) → Decidable (Enabled s e)
  | .start .. | .cancel | .copy => inferInstanceAs (Decidable (0 < s.handles ∨ s.running ≠ []))
  | .expire e => inferInstanceAs (Decidable (pendingWaits s ≠ [] ∧ e ≠ .operationAborted))
  | .dispatch i => inferInstanceAs (Decidable (∃ w ∈ s.waits[i]?, isQueued w.stage = true))
  | .finish j => inferInstanceAs (Decidable (j < s.running.length))
  | .drop => inferInstanceAs (Decidable (0 < s.handles))

instance (s : State) (e : Event) : Decidable (system.Enabled s e) :=
  inferInstanceAs (Decidable (Enabled s e))

end Task

section Calls

variable {s t : State} {e : Event} {es : List Event} {i : ℕ} {w : Wait} {c : ErrorCode}

/-- The functions that were given to `start`, in order. -/
def starts (es : List Event) : List ℕ :=
  es.filterMap fun
    | .start _ func => some func
    | _ => none

/-- The waits whose functions were called, in order. -/
def calls (log : List Action) : List ℕ :=
  log.filterMap fun
    | .called i _ => some i
    | _ => none

/-- What the timer and the log know of the waits. -/
structure Invariant (es : List Event) (s : State) : Prop where
  funcs : s.waits.map Wait.given = starts es
  single : ∀ i w, s.waits[i]? = some w → w.stage = .pending → i + 1 = s.waits.length
  called : ∀ i c, .called i c ∈ s.log ↔ ∃ w, s.waits[i]? = some w ∧ w.stage = .dispatched c
  aborted : ∀ i, .aborted i ∈ s.log ↔
    ∃ w, s.waits[i]? = some w ∧ verdict w.stage = some .operationAborted
  once : (calls s.log).Nodup

theorem calls_append (log ext : List Action) : calls (log ++ ext) = calls log ++ calls ext :=
  List.filterMap_append

/-- Completing what is in progress, with the waits that it finds in the log where it aborts them. -/
theorem complete_invariant (h : Invariant es s) {ext : List Action}
    (hcalls : calls ext = []) (hcalled : ∀ i c', .called i c' ∉ ext)
    (hext : ∀ i, .aborted i ∈ ext ↔ i ∈ pendingWaits s ∧ c = .operationAborted) :
    Invariant es { s with waits := s.waits.map (Wait.complete c), log := s.log ++ ext } := by
  refine ⟨(map_complete_given c s.waits).trans h.funcs, ?_, ?_, ?_, ?_⟩
  · intro i w hw hpending
    exact absurd hpending (none_pending (List.mem_of_getElem? hw))
  · intro i c'
    simp only [List.mem_append, hcalled, or_false, h.called, getElem?_complete]
    constructor
    · rintro ⟨w, hw, hstage⟩
      exact ⟨_, ⟨w, hw, rfl⟩, complete_dispatched.mpr hstage⟩
    · rintro ⟨_, ⟨w, hw, rfl⟩, hstage⟩
      exact ⟨w, hw, complete_dispatched.mp hstage⟩
  · intro i
    simp only [List.mem_append, hext, h.aborted, pendingWaits, mem_pending, getElem?_complete]
    constructor
    · rintro (⟨w, hw, hverdict⟩ | ⟨⟨w, hw, hpending⟩, hc⟩)
      · exact ⟨_, ⟨w, hw, rfl⟩, complete_verdict.mpr (Or.inl hverdict)⟩
      · exact ⟨_, ⟨w, hw, rfl⟩, complete_verdict.mpr (Or.inr ⟨hpending, hc⟩)⟩
    · rintro ⟨_, ⟨w, hw, rfl⟩, hverdict⟩
      rcases complete_verdict.mp hverdict with hold | ⟨hpending, hc⟩
      · exact Or.inl ⟨w, hw, hold⟩
      · exact Or.inr ⟨⟨w, hw, hpending⟩, hc⟩
  · change (calls (s.log ++ ext)).Nodup
    rw [calls_append, hcalls, List.append_nil]
    exact h.once

theorem calls_aborted (is : List ℕ) : calls (is.map .aborted) = [] := by
  simp [calls, List.filterMap_map]

theorem abortPending_invariant (h : Invariant es s) : Invariant es (abortPending s) := by
  refine complete_invariant h (calls_aborted _) (by simp) fun i => ?_
  simp

theorem getElem?_concat {α : Type} {xs : List α} {x y : α} :
    (xs ++ [y])[i]? = some x ↔ xs[i]? = some x ∨ i = xs.length ∧ x = y := by
  rcases Nat.lt_trichotomy i xs.length with hlt | rfl | hgt
  · rw [List.getElem?_append_left hlt]
    exact (or_iff_left fun heq => Nat.ne_of_lt hlt heq.1).symm
  · simp [eq_comm]
  · have hnone : xs[i]? = none := List.getElem?_eq_none hgt.le
    have hout : (xs ++ [y])[i]? = none :=
      List.getElem?_eq_none (by rw [List.length_append]; exact hgt)
    simp [hnone, hout, hgt.ne']

/-- A new wait is the last one, and the only one in progress where the others are aborted. -/
theorem asyncWait_invariant (h : Invariant es s) (hnone : ∀ w ∈ s.waits, w.stage ≠ .pending)
    (ms : ℤ) (func : ℕ) : Invariant (es ++ [.start ms func]) (asyncWait func s) := by
  refine ⟨?_, ?_, ?_, ?_, h.once⟩
  · rw [starts, List.filterMap_append]
    have hwaits : (asyncWait func s).waits.map Wait.given = s.waits.map Wait.given ++ [func] :=
      List.map_append
    rw [hwaits, h.funcs]
    rfl
  · intro i w hw hpending
    rcases getElem?_concat.mp hw with hold | ⟨rfl, -⟩
    · exact absurd hpending (hnone w (List.mem_of_getElem? hold))
    · simp [asyncWait]
  · intro i c
    refine (h.called i c).trans ⟨fun ⟨w, hw, hstage⟩ => ?_, fun ⟨w, hw, hstage⟩ => ?_⟩
    · exact ⟨w, getElem?_concat.mpr (Or.inl hw), hstage⟩
    · rcases getElem?_concat.mp hw with hold | ⟨-, rfl⟩
      · exact ⟨w, hold, hstage⟩
      · cases hstage
  · intro i
    refine (h.aborted i).trans ⟨fun ⟨w, hw, hverdict⟩ => ?_, fun ⟨w, hw, hverdict⟩ => ?_⟩
    · exact ⟨w, getElem?_concat.mpr (Or.inl hw), hverdict⟩
    · rcases getElem?_concat.mp hw with hold | ⟨-, rfl⟩
      · exact ⟨w, hold, hverdict⟩
      · cases hverdict

theorem start_invariant (h : Invariant es s) (ms : ℤ) (func : ℕ) :
    Invariant (es ++ [.start ms func]) (start ms func s) := by
  have haborted := abortPending_invariant h
  have hexpires : Invariant es (expiresFromNow ms s) :=
    ⟨haborted.funcs, haborted.single, haborted.called, haborted.aborted, haborted.once⟩
  exact asyncWait_invariant hexpires (fun w hw => none_pending hw) ms func

/-- Entries about neither calls nor aborted waits. -/
theorem log_invariant (h : Invariant es s) {ext : List Action} (hcalled : ∀ i c, .called i c ∉ ext)
    (haborted : ∀ i, .aborted i ∉ ext) : Invariant es { s with log := s.log ++ ext } := by
  have hcalls : calls ext = [] := by
    refine List.filterMap_eq_nil_iff.mpr fun a ha => ?_
    cases a with
    | called i c => exact absurd ha (hcalled i c)
    | aborted | cancelled => rfl
  refine ⟨h.funcs, h.single, fun i c => ?_, fun i => ?_, ?_⟩
  · simpa [hcalled] using h.called i c
  · simpa [haborted] using h.aborted i
  · change (calls (s.log ++ ext)).Nodup
    rw [calls_append, hcalls, List.append_nil]
    exact h.once

theorem cancel_invariant (h : Invariant es s) : Invariant es (cancel s) :=
  log_invariant (abortPending_invariant h) (by simp) (by simp)

theorem expire_invariant (h : Invariant es s) (hc : c ≠ .operationAborted) :
    Invariant es (expire c s) := by
  have hstep : Invariant es
      { s with waits := s.waits.map (Wait.complete c), log := s.log ++ [] } :=
    complete_invariant h rfl (fun _ _ => List.not_mem_nil) (by simp [hc])
  rw [List.append_nil] at hstep
  exact hstep

theorem getElem?_set {α : Type} {xs : List α} {j : ℕ} {u v x : α} (hi : xs[i]? = some u) :
    (xs.set i v)[j]? = some x ↔ j = i ∧ x = v ∨ j ≠ i ∧ xs[j]? = some x := by
  obtain ⟨hlt, -⟩ := List.getElem?_eq_some_iff.mp hi
  by_cases hj : j = i
  · subst hj
    rw [List.getElem?_set_self hlt]
    simp [eq_comm]
  · rw [List.getElem?_set_ne (Ne.symm hj)]
    simp [hj]

theorem mem_calls {log : List Action} : i ∈ calls log ↔ ∃ c, .called i c ∈ log := by
  simp only [calls, List.mem_filterMap]
  constructor
  · rintro ⟨a, ha, hsome⟩
    cases a with
    | called j c => exact ⟨c, Option.some.inj hsome ▸ ha⟩
    | aborted | cancelled => cases hsome
  · rintro ⟨c, hc⟩
    exact ⟨_, hc, rfl⟩

/-- A handler is dispatched once. -/
theorem dispatch_invariant (h : Invariant es s) {func : ℕ}
    (hi : s.waits[i]? = some ⟨func, .queued c⟩) : Invariant es (dispatch i s) := by
  have hnot : i ∉ calls s.log := by
    intro hmem
    obtain ⟨c', hc'⟩ := mem_calls.mp hmem
    obtain ⟨w, hw, hstage⟩ := (h.called i c').mp hc'
    rw [Option.some.inj (hw.symm.trans hi)] at hstage
    cases hstage
  rw [dispatch, hi]
  refine ⟨?_, ?_, ?_, ?_, ?_⟩
  · rw [← h.funcs]
    change (s.waits.set i _).map Wait.given = _
    obtain ⟨hlt, hget⟩ := List.getElem?_eq_some_iff.mp hi
    have hbound : i < (s.waits.map Wait.given).length := by simpa using hlt
    have hfunc : (s.waits.map Wait.given)[i] = func := by simp [hget]
    rw [List.map_set]
    conv_lhs => rw [show (⟨func, .dispatched c⟩ : Wait).given = _ from hfunc.symm]
    exact List.set_getElem_self hbound
  · intro j w hw hpending
    rw [List.length_set]
    rcases (getElem?_set hi).mp hw with ⟨-, rfl⟩ | ⟨-, hold⟩
    · cases hpending
    · exact h.single j w hold hpending
  · intro j c'
    simp only [List.mem_append, List.mem_singleton, Action.called.injEq, h.called, getElem?_set hi]
    constructor
    · rintro (⟨w, hw, hstage⟩ | ⟨rfl, rfl⟩)
      · refine ⟨w, Or.inr ⟨?_, hw⟩, hstage⟩
        rintro rfl
        rw [Option.some.inj (hw.symm.trans hi)] at hstage
        cases hstage
      · exact ⟨_, Or.inl ⟨rfl, rfl⟩, rfl⟩
    · rintro ⟨w, ⟨rfl, rfl⟩ | ⟨-, hold⟩, hstage⟩
      · exact Or.inr ⟨rfl, (Stage.dispatched.inj hstage).symm⟩
      · exact Or.inl ⟨w, hold, hstage⟩
  · intro j
    simp only [List.mem_append, List.mem_singleton, reduceCtorEq, or_false, h.aborted,
      getElem?_set hi]
    constructor
    · rintro ⟨w, hw, hverdict⟩
      by_cases hj : j = i
      · subst hj
        rw [Option.some.inj (hw.symm.trans hi)] at hverdict
        exact ⟨_, Or.inl ⟨rfl, rfl⟩, hverdict⟩
      · exact ⟨w, Or.inr ⟨hj, hw⟩, hverdict⟩
    · rintro ⟨w, ⟨rfl, rfl⟩ | ⟨-, hold⟩, hverdict⟩
      · exact ⟨_, hi, hverdict⟩
      · exact ⟨w, hold, hverdict⟩
  · change (calls (s.log ++ [.called i c])).Nodup
    rw [calls_append]
    change (calls s.log ++ [i]).Nodup
    rw [← List.concat_eq_append]
    exact h.once.concat hnot

/-- An event that is no start, and leaves the waits and the log as they are. -/
theorem same_invariant (h : Invariant es s) (hstarts : starts [e] = []) (hwaits : t.waits = s.waits)
    (hlog : t.log = s.log) : Invariant (es ++ [e]) t := by
  have hsame : starts (es ++ [e]) = starts es := by
    rw [starts, List.filterMap_append]
    exact (congrArg _ hstarts).trans (List.append_nil _)
  refine ⟨?_, ?_, ?_, ?_, ?_⟩
  · rw [hwaits, hsame]
    exact h.funcs
  · rw [hwaits]
    exact h.single
  · rw [hwaits, hlog]
    exact h.called
  · rw [hwaits, hlog]
    exact h.aborted
  · rw [hlog]
    exact h.once

theorem next_invariant (h : Invariant es s) (he : Enabled s e) :
    Invariant (es ++ [e]) (next s e) := by
  cases e with
  | start millisec func => exact start_invariant h millisec func
  | cancel => exact same_invariant (cancel_invariant h) rfl rfl rfl
  | expire c => exact same_invariant (expire_invariant h he.2) rfl rfl rfl
  | dispatch i =>
    obtain ⟨func, c, hi⟩ := queued_of_isQueued he
    exact same_invariant (dispatch_invariant h hi) rfl rfl rfl
  | finish | copy | drop => exact same_invariant h rfl rfl rfl

theorem reachable_invariant (h : Reachable es s) : Invariant es s := by
  induction h with
  | refl =>
    exact ⟨rfl, fun i w hw => (by cases hw), fun i c => (by simp [initial]),
      fun i => (by simp [initial]), .nil⟩
  | tail _ he ih => exact next_invariant ih he

/-- The task is destroyed when nobody owns it. -/
def Destroyed (s : State) : Prop := owners s = 0

theorem Destroyed.dispatched (h : Destroyed s) (hw : w ∈ s.waits) :
    ∃ c, w.stage = .dispatched c := by
  have hzero : s.waits.countP (fun w => !isDispatched w.stage) = 0 := by
    simp only [Destroyed, owners] at h
    omega
  have hnot := List.countP_eq_zero.mp hzero w hw
  cases hstage : w.stage with
  | dispatched c => exact ⟨c, rfl⟩
  | pending | queued => simp [hstage, isDispatched] at hnot

/-- Every function given to `start` is called at most once, with `operation_aborted` exactly if a
`cancel` or another `start` found its wait in progress, and only the last may be in progress; when
the task is destroyed all of them have been called. -/
theorem called_once (h : Reachable es s) :
    (calls s.log).Nodup ∧
      (∀ i c, .called i c ∈ s.log → i < (starts es).length ∧
        (c = .operationAborted ↔ .aborted i ∈ s.log)) ∧
      (∀ i ∈ pendingWaits s, i + 1 = (starts es).length) ∧
      (Destroyed s → (calls s.log).Perm (List.range (starts es).length)) := by
  have hinv := reachable_invariant h
  have hlength : s.waits.length = (starts es).length := by
    rw [← hinv.funcs, List.length_map]
  refine ⟨hinv.once, fun i c hcalled => ?_, fun i hi => ?_, fun hdestroyed => ?_⟩
  · obtain ⟨w, hw, hstage⟩ := (hinv.called i c).mp hcalled
    refine ⟨hlength ▸ (List.getElem?_eq_some_iff.mp hw).1, ?_⟩
    rw [hinv.aborted]
    constructor
    · rintro rfl
      exact ⟨w, hw, by rw [hstage]; rfl⟩
    · rintro ⟨v, hv, hverdict⟩
      rw [Option.some.inj (hv.symm.trans hw), hstage] at hverdict
      exact Option.some.inj hverdict
  · obtain ⟨w, hw, hpending⟩ := mem_pending.mp hi
    exact hlength ▸ hinv.single i w hw hpending
  · refine (List.perm_ext_iff_of_nodup hinv.once List.nodup_range).mpr fun i => ?_
    rw [mem_calls, List.mem_range, ← hlength]
    constructor
    · rintro ⟨c, hc⟩
      obtain ⟨w, hw, -⟩ := (hinv.called i c).mp hc
      exact (List.getElem?_eq_some_iff.mp hw).1
    · intro hlt
      obtain ⟨c, hstage⟩ := hdestroyed.dispatched (List.getElem_mem hlt)
      exact ⟨c, (hinv.called i c).mpr ⟨_, List.getElem?_eq_getElem hlt, hstage⟩⟩

end Calls

/-- A task that is cancelled in time and whose owner lets go of it. -/
def cancelledEvents : List Event := [.start 3 7, .cancel, .drop, .dispatch 0, .finish 0]

def cancelledState : State := runTrace system initial cancelledEvents

theorem called_once_cancelled :
    [0].Nodup ∧ (∀ i c, .called i c ∈ cancelledState.log →
      i < 1 ∧ (c = .operationAborted ↔ .aborted i ∈ cancelledState.log)) ∧
      (∀ i ∈ pendingWaits cancelledState, i + 1 = 1) ∧
      (Destroyed cancelledState → [0].Perm (List.range 1)) :=
  have h : Reachable cancelledEvents cancelledState := valid_trace_run (by decide)
  called_once h

section CallAfter

variable {s t : State} {e : Event} {es : List Event} {i : ℕ} {w : Wait} {c : ErrorCode}

/-- What the scheduler's wrapper makes of a call. -/
inductive Outcome where
  | ran
  | threw
  | nothing
  deriving DecidableEq, Repr

def wrapper (e : ErrorCode) : Outcome :=
  if e = .success then .ran
  else if e ≠ .operationAborted then .threw
  else .nothing

/-- The task that `callAfter` returns. -/
def callAfter (millisec : ℤ) (func : ℕ) : State := start millisec func initial

/-- Nobody starts the task again. -/
def StartedOnce (_ : State) : Event → Prop
  | .start .. => False
  | _ => True

/-- How often `cancel` returned true is what the wait knows. -/
structure Single (s : State) (w : Wait) : Prop where
  waits : s.waits = [w]
  cancels : s.log.countP (· = .cancelled true) =
    if verdict w.stage = some .operationAborted then 1 else 0

theorem wrapper_nothing_iff : wrapper c = .nothing ↔ c = .operationAborted := by
  cases c <;> simp [wrapper]

theorem pendingWaits_single (h : s.waits = [w]) :
    pendingWaits s = if w.stage = .pending then [0] else [] := by
  rw [pendingWaits, h, pending]
  cases hstage : w.stage <;> simp [hstage]

theorem cancel_single (h : Single s w) : Single (cancel s) (w.complete .operationAborted) := by
  have hlog : (cancel s).log.countP (· = .cancelled true) =
      s.log.countP (· = .cancelled true) + if w.stage = .pending then 1 else 0 := by
    simp only [cancel, abortPending, pendingWaits_single h.waits, List.countP_append]
    split <;> simp
  refine ⟨by rw [cancel, abortPending, h.waits]; rfl, ?_⟩
  rw [hlog, h.cancels, Wait.complete]
  obtain ⟨func, stage⟩ := w
  cases stage <;> simp [verdict]

theorem next_single (h : Single s w) (he : Enabled s e) (hstart : StartedOnce s e) :
    ∃ v, Single (next s e) v := by
  cases e with
  | start => exact hstart.elim
  | cancel => exact ⟨_, cancel_single h⟩
  | expire c =>
    refine ⟨w.complete c, ?_, ?_⟩
    · rw [next, expire, h.waits]
      rfl
    · have hc : c ≠ .operationAborted := he.2
      refine h.cancels.trans ?_
      rw [Wait.complete]
      obtain ⟨func, stage⟩ := w
      cases stage <;> simp [verdict, hc]
  | dispatch i =>
    obtain ⟨func, c, hi⟩ := queued_of_isQueued he
    have hzero : i = 0 ∧ w = ⟨func, .queued c⟩ := by
      rw [h.waits] at hi
      cases i with
      | zero => exact ⟨rfl, Option.some.inj hi⟩
      | succ i => cases hi
    obtain ⟨rfl, rfl⟩ := hzero
    refine ⟨⟨func, .dispatched c⟩, ?_, ?_⟩
    · rw [next, dispatch, hi, h.waits]
      rfl
    · have hcancels := h.cancels
      rw [next, dispatch, hi]
      simpa [List.countP_append, verdict] using hcancels
  | finish | copy | drop => exact ⟨w, h.waits, h.cancels⟩

theorem callAfter_reachable {millisec : ℤ} {func : ℕ}
    (h : Run (system.restrict StartedOnce) (callAfter millisec func) es s) :
    Reachable ([.start millisec func] ++ es) s := by
  have hfirst : Run system initial [.start millisec func] (callAfter millisec func) :=
    Run.tail .refl (Or.inl Nat.one_pos)
  exact hfirst.trans h.weaken

/-- What is called is the wrapped function, once at most. -/
theorem Single.one_call (h : Single s w) (hinv : Invariant es s) : calls s.log = [] ∨ calls s.log = [0] := by
  have hzero : ∀ i ∈ calls s.log, i = 0 := by
    intro i hi
    obtain ⟨c, hc⟩ := mem_calls.mp hi
    obtain ⟨v, hv, -⟩ := (hinv.called i c).mp hc
    have hlt := (List.getElem?_eq_some_iff.mp hv).1
    rw [h.waits] at hlt
    simpa using hlt
  have honce := hinv.once
  generalize calls s.log = is at hzero honce
  cases is with
  | nil => exact Or.inl rfl
  | cons i rest =>
    obtain rfl := hzero i List.mem_cons_self
    cases rest with
    | nil => exact Or.inr rfl
    | cons j rest =>
      obtain rfl := hzero j (List.mem_cons_of_mem _ List.mem_cons_self)
      exact absurd List.mem_cons_self (List.nodup_cons.mp honce).1

/-- For a task of `callAfter` that nobody starts again, `cancel` returns true at most once, and then
the wrapped function is never run; where it never did, the one call that comes runs the function or
throws the error of the timer. One of the two has happened when the task is destroyed. -/
theorem callAfter_verdict {millisec : ℤ} {func : ℕ}
    (h : Run (system.restrict StartedOnce) (callAfter millisec func) es s) :
    s.log.countP (· = .cancelled true) ≤ 1 ∧ (calls s.log = [] ∨ calls s.log = [0]) ∧
      (∀ c, .called 0 c ∈ s.log → (wrapper c = .nothing ↔ .cancelled true ∈ s.log)) ∧
      (Destroyed s → ∃ c, .called 0 c ∈ s.log) := by
  have hinv := reachable_invariant (callAfter_reachable h)
  obtain ⟨w, hsingle⟩ : ∃ w, Single s w := by
    refine h.invariant (I := fun t => ∃ w, Single t w) (fun t e ⟨w, hw⟩ he => ?_) ?_
    · exact next_single hw he.1 he.2
    · exact ⟨⟨func, .pending⟩, rfl, rfl⟩
  have hcancels := hsingle.cancels
  have hmem : .cancelled true ∈ s.log ↔ verdict w.stage = some .operationAborted := by
    have hpos : 0 < s.log.countP (· = .cancelled true) ↔ .cancelled true ∈ s.log := by
      rw [List.countP_pos_iff]
      simp
    rw [← hpos, hcancels]
    split <;> simp [*]
  have hzero : s.waits[0]? = some w := by rw [hsingle.waits]; rfl
  refine ⟨?_, hsingle.one_call hinv, fun c hcalled => ?_, fun hdestroyed => ?_⟩
  · rw [hcancels]
    split
    · exact le_rfl
    · exact Nat.zero_le 1
  · obtain ⟨v, hv, hstage⟩ := (hinv.called 0 c).mp hcalled
    obtain rfl := Option.some.inj (hv.symm.trans hzero)
    rw [wrapper_nothing_iff, hmem, hstage, verdict, Option.some.injEq]
  · obtain ⟨c, hstage⟩ := hdestroyed.dispatched (List.mem_of_getElem? hzero)
    exact ⟨c, (hinv.called 0 c).mpr ⟨w, hzero, hstage⟩⟩

instance (s : State) : (e : Event) → Decidable (StartedOnce s e)
  | .start .. => isFalse id
  | .cancel | .expire _ | .dispatch _ | .finish _ | .copy | .drop => isTrue trivial

instance (s : State) (e : Event) : Decidable ((system.restrict StartedOnce).Enabled s e) :=
  inferInstanceAs (Decidable (Enabled s e ∧ StartedOnce s e))

def droppedEvents : List Event := [.cancel, .drop, .dispatch 0, .finish 0]

theorem callAfter_verdict_dropped :
    ∃ c, .called 0 c ∈ (runTrace (system.restrict StartedOnce) (callAfter 3 7) droppedEvents).log :=
  (callAfter_verdict (valid_trace_run (by decide))).2.2.2 rfl

end CallAfter

end DeferredTask
