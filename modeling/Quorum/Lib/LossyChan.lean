/-
A channel whose sender never waits: what is offered to a full channel is dropped. What comes out of it, and what still
waits in it, is a part of what was offered, in the same order; it is all of it exactly if no offer found the channel
full.
-/
import Quorum.Lib.Chan
import Quorum.Lib.Machine

namespace Quorum

namespace Chan

variable {α : Type}

/-- What the two ends of the channel do. -/
inductive Op (α : Type) where
  | offer (x : α)
  | take

/-- The value of an offer. -/
def Op.offered : Op α → Option α
  | .offer x => some x
  | .take => none

/-- The receiver takes a value, if there is one. -/
def takeStep (ch : Chan α) : Chan α × List α :=
  match ch.tryRecv with
  | none => (ch, [])
  | some (x, ch') => (ch', [x])

def lossyStep (ch : Chan α) : Op α → Chan α × List α
  | .offer x => (ch.trySend x, [])
  | .take => ch.takeStep

/-- The channel, with the values that are taken out of it. -/
def lossy : Machine (Chan α) (Op α) α := ⟨lossyStep⟩

/-- There is room for what is offered. -/
def HasRoom (ch : Chan α) : Op α → Prop
  | .offer _ => ch.buf.length < ch.cap
  | .take => True

theorem exec_take (ch : Chan α) : lossy.exec ch [.take] = ch.takeStep.1 := rfl

theorem trace_take (ch : Chan α) : lossy.trace ch [.take] = ch.takeStep.2 := List.append_nil _

theorem offered_cons (op : Op α) (ops : List (Op α)) :
    (op :: ops).filterMap Op.offered = op.offered.toList ++ ops.filterMap Op.offered := by
  cases op <;> rfl

theorem takeStep_buf (ch : Chan α) : ch.takeStep.2 ++ ch.takeStep.1.buf = ch.buf := by
  unfold takeStep
  cases hrecv : ch.tryRecv with
  | none => rfl
  | some p => exact (tryRecv_eq_some hrecv).symm

theorem lossyStep_room {ch : Chan α} {op : Op α} (h : ch.HasRoom op) :
    (ch.lossyStep op).2 ++ (ch.lossyStep op).1.buf = ch.buf ++ op.offered.toList := by
  cases op with
  | offer x => exact (buf_trySend ch x).trans (if_pos h)
  | take => exact (takeStep_buf ch).trans (List.append_nil _).symm

theorem lossyStep_full {ch : Chan α} {op : Op α} (h : ¬ ch.HasRoom op) :
    (ch.lossyStep op).2 ++ (ch.lossyStep op).1.buf = ch.buf ∧ op.offered.toList.length = 1 := by
  cases op with
  | offer x => exact ⟨(buf_trySend ch x).trans (if_neg h), rfl⟩
  | take => exact absurd trivial h

theorem lossyStep_sublist (ch : Chan α) (op : Op α) :
    ((ch.lossyStep op).2 ++ (ch.lossyStep op).1.buf).Sublist (ch.buf ++ op.offered.toList) := by
  by_cases h : ch.HasRoom op
  · rw [lossyStep_room h]
  · rw [(lossyStep_full h).1]
    exact List.sublist_append_left _ _

/-- What is taken, and then what waits, is a part of what waited and was offered, in that order. -/
theorem lossy_sublist (ch : Chan α) (ops : List (Op α)) :
    (lossy.trace ch ops ++ (lossy.exec ch ops).buf).Sublist (ch.buf ++ ops.filterMap Op.offered) := by
  induction ops generalizing ch with
  | nil => simp
  | cons op ops ih =>
    rw [Machine.trace_cons, Machine.exec_cons, List.append_assoc, offered_cons]
    have hstep := (lossyStep_sublist ch op).append_right (ops.filterMap Op.offered)
    rw [List.append_assoc, List.append_assoc] at hstep
    exact ((ih _).append_left _).trans hstep

/-- It is all of it exactly if there was room for every offer. -/
theorem lossy_complete_iff (ch : Chan α) (ops : List (Op α)) :
    lossy.trace ch ops ++ (lossy.exec ch ops).buf = ch.buf ++ ops.filterMap Op.offered ↔
      lossy.EveryStep (fun _ ch op => ch.HasRoom op) ch ops := by
  induction ops generalizing ch with
  | nil => simp
  | cons op ops ih =>
    rw [Machine.everyStep_cons, ← ih, Machine.trace_cons, Machine.exec_cons, List.append_assoc, offered_cons]
    change (ch.lossyStep op).2 ++
      (lossy.trace (ch.lossyStep op).1 ops ++ (lossy.exec (ch.lossyStep op).1 ops).buf) = _ ↔
        _ ∧ lossy.trace (ch.lossyStep op).1 ops ++ (lossy.exec (ch.lossyStep op).1 ops).buf = _
    by_cases h : ch.HasRoom op
    · rw [← List.append_assoc ch.buf, ← lossyStep_room h, List.append_assoc, List.append_cancel_left_eq]
      exact (and_iff_right h).symm
    · -- one value fewer comes out than goes in
      refine iff_of_false (fun heq => ?_) fun hboth => h hboth.1
      have hle := (lossy_sublist (ch.lossyStep op).1 ops).length_le
      have hlen := congrArg List.length heq
      have hfull := congrArg List.length (lossyStep_full h).1
      have hone := (lossyStep_full h).2
      simp only [List.length_append] at hle hlen hfull
      omega

end Chan

end Quorum
