import Otservpp.Connection

/-! # The waits of a deadline timer

A wait is in progress until it completes, its handler is queued until it is dispatched, and a
completed wait keeps its code whatever happens to the timer. Waits are numbered in the order of
their registration and remember what was given with them. -/
namespace TimerWaits

open Connection (ErrorCode)

inductive Stage where
  | pending
  | queued (e : ErrorCode)
  | dispatched (e : ErrorCode)
  deriving DecidableEq, Repr

structure Wait (α : Type) where
  given : α
  stage : Stage
  deriving DecidableEq, Repr

def isQueued : Stage → Bool
  | .queued _ => true
  | _ => false

def isDispatched : Stage → Bool
  | .dispatched _ => true
  | _ => false

/-- The handler may still be called with another code than `operation_aborted`. -/
def Stage.live : Stage → Bool
  | .pending => true
  | .queued e => e ≠ .operationAborted
  | .dispatched _ => false

/-- How a wait ended. -/
def verdict : Stage → Option ErrorCode
  | .pending => none
  | .queued e | .dispatched e => some e

variable {α : Type}

def Wait.complete (e : ErrorCode) (w : Wait α) : Wait α :=
  if w.stage = .pending then { w with stage := .queued e } else w

/-- The waits in progress, by number. -/
def pending (ws : List (Wait α)) : List ℕ :=
  (List.range ws.length).filter fun i => (ws[i]?.map Wait.stage) = some .pending

variable {ws : List (Wait α)} {w : Wait α} {i : ℕ} {e e' : ErrorCode}

theorem mem_pending : i ∈ pending ws ↔ ∃ w, ws[i]? = some w ∧ w.stage = .pending := by
  simp only [pending, List.mem_filter, List.mem_range, decide_eq_true_eq, Option.map_eq_some_iff]
  constructor
  · exact And.right
  · rintro ⟨w, hw, hstage⟩
    exact ⟨(List.getElem?_eq_some_iff.mp hw).1, w, hw, hstage⟩

theorem complete_given (e : ErrorCode) (w : Wait α) : (w.complete e).given = w.given := by
  unfold Wait.complete
  split
  · rfl
  · rfl

/-- A completion leaves nothing in progress. -/
theorem none_pending (hw : w ∈ ws.map (Wait.complete e)) : w.stage ≠ .pending := by
  obtain ⟨v, -, rfl⟩ := List.mem_map.mp hw
  unfold Wait.complete
  split
  · simp
  · assumption

theorem complete_dispatched :
    (w.complete e).stage = .dispatched e' ↔ w.stage = .dispatched e' := by
  unfold Wait.complete
  split
  · next h => simp [h]
  · exact Iff.rfl

/-- Completing gives a verdict to the waits in progress and leaves the others. -/
theorem complete_verdict : verdict (w.complete e).stage = some e' ↔
    verdict w.stage = some e' ∨ w.stage = .pending ∧ e = e' := by
  unfold Wait.complete
  split
  · next h => simp [h, verdict]
  · next h => simp [h]

theorem complete_live (hw : w.stage.live = false) : (w.complete e).stage.live = false := by
  unfold Wait.complete
  split
  · rename_i hstage
    rw [hstage] at hw
    cases hw
  · exact hw

/-- A completion other than a cancellation keeps a wait live. -/
theorem complete_stays_live (he : e ≠ .operationAborted) (hw : w.stage.live = true) :
    (w.complete e).stage.live = true := by
  unfold Wait.complete
  split
  · simp [Stage.live, he]
  · exact hw

/-- Aborting makes nothing live, and leaves live only what was queued. -/
theorem live_aborted (hw : w ∈ ws.map (Wait.complete .operationAborted))
    (hlive : w.stage.live = true) : ∃ v ∈ ws, v.stage.live = true ∧ isQueued v.stage = true := by
  obtain ⟨v, hv, rfl⟩ := List.mem_map.mp hw
  unfold Wait.complete at hlive
  split at hlive
  · simp [Stage.live] at hlive
  · rename_i hstage
    refine ⟨v, hv, hlive, ?_⟩
    cases hvstage : v.stage with
    | pending => exact absurd hvstage hstage
    | queued e => rfl
    | dispatched e => simp [hvstage, Stage.live] at hlive

theorem getElem?_complete :
    (ws.map (Wait.complete e))[i]? = some w ↔ ∃ v, ws[i]? = some v ∧ v.complete e = w := by
  rw [List.getElem?_map, Option.map_eq_some_iff]

theorem map_complete_given (e : ErrorCode) (ws : List (Wait α)) :
    (ws.map (Wait.complete e)).map Wait.given = ws.map Wait.given := by
  rw [List.map_map]
  exact List.map_congr_left fun w _ => complete_given e w

/-- What is dispatched is the handler of a completed wait. -/
theorem queued_of_isQueued (h : ∃ w ∈ ws[i]?, isQueued w.stage = true) :
    ∃ given e, ws[i]? = some ⟨given, .queued e⟩ := by
  obtain ⟨⟨given, stage⟩, hi, hqueued⟩ := h
  cases stage with
  | queued e => exact ⟨given, e, hi⟩
  | pending => cases hqueued
  | dispatched e => cases hqueued

end TimerWaits
