/- FunWithDragonflyDB/Cdc/Acknowledge
   digest: A batch is acknowledged whatever becomes of its writes. -/

import FunWithDragonflyDB.Cdc.Items

set_option autoImplicit false
set_option relaxedAutoImplicit false

namespace FunWithDragonflyDB.Cdc.Acknowledge

open Lib.Chunks
open Listener Items

variable {std : GoStd}

section Flush

variable {outcome : ℕ → ExecOutcome}

/-- The command of the `j`-th write goes through. -/
def Succeeds (outcome : ℕ → ExecOutcome) (j : ℕ) : Prop :=
  (outcome (j / maxBatchSize)).succeeds (j % maxBatchSize) = true

theorem flushed_eq (outcome : ℕ → ExecOutcome) (writes : List PendingWrite) :
    flushed outcome writes = (writes.zipIdx.filter fun w =>
      (outcome (w.2 / maxBatchSize)).succeeds (w.2 % maxBatchSize)).map Prod.fst :=
  filter_chunks (by decide) (fun c i => (outcome c).succeeds i) writes

/-- Every write takes effect exactly if each of their commands goes through. -/
theorem flushed_all_iff (writes : List PendingWrite) :
    flushed outcome writes = writes ↔ ∀ j < writes.length, Succeeds outcome j := by
  rw [flushed_eq]
  constructor
  · intro h j hj
    have hlen := congrArg List.length h
    rw [List.length_map, ← List.length_zipIdx (l := writes) (i := 0)] at hlen
    have hall := List.length_filter_eq_length_iff.mp hlen
    exact hall (writes[j], j) (List.mk_mem_zipIdx_iff_getElem?.mpr (List.getElem?_eq_getElem hj))
  · intro h
    have hall : ∀ w ∈ writes.zipIdx,
        (outcome (w.2 / maxBatchSize)).succeeds (w.2 % maxBatchSize) = true := by
      intro w hw
      exact h w.2 (List.mem_zipIdx' hw).1
    rw [List.filter_eq_self.mpr hall]
    exact List.zipIdx_map_fst 0 writes

end Flush

section Reply

/-- The JSON.SETs that took effect are those of the eligible items, one for each, in order. -/
def AllWritten (std : GoStd) (outcome : ℕ → ExecOutcome) (payload : List PayloadItem) : Prop :=
  (payload.filter (Eligible std ·)).map (prepare std) =
    (flushed outcome (toWrite std payload)).map some

/-- A reply of 200 means that every eligible item was written, and any other outcome is answered
by an error status. -/
def HonestReply (std : GoStd) (outcome : ℕ → ExecOutcome) (payload : List PayloadItem)
    (cache : Cache) : Prop :=
  ((handle std outcome (.decoded payload) cache).1 = statusOK → AllWritten std outcome payload) ∧
    (¬AllWritten std outcome payload → 400 ≤ (handle std outcome (.decoded payload) cache).1)

/-- The reply to a well-formed request is honest exactly if no command for an eligible item
fails: the `j`-th one is command `j % 200` of chunk `j / 200`. -/
theorem honest_reply_iff {payload : List PayloadItem} (hmarshal : Encodes std payload)
    (outcome : ℕ → ExecOutcome) (cache : Cache) :
    HonestReply std outcome payload cache ↔
      ∀ j < (payload.filter (Eligible std ·)).length, Succeeds outcome j := by
  have hqueue := toWrite_eligible hmarshal
  have hlen : (payload.filter (Eligible std ·)).length = (toWrite std payload).length := by
    simpa using congrArg List.length hqueue
  have hall : AllWritten std outcome payload ↔
      ∀ j < (payload.filter (Eligible std ·)).length, Succeeds outcome j := by
    rw [AllWritten, hqueue, hlen, ← flushed_all_iff]
    constructor
    · intro h
      exact (List.map_injective_iff.mpr (Option.some_injective _) h).symm
    · intro h
      rw [h]
  rw [← hall]
  constructor
  · intro h
    exact h.1 rfl
  · intro h
    exact ⟨fun _ => h, fun hn => absurd h hn⟩

end Reply

section Lost

/-- Redis is down: the one row of the batch is lost, and the reply says 200. -/
theorem lost_batch_acknowledged :
    ¬HonestReply plainStd (fun _ => .failed) [userItem "rome".toList "7".toList] fun _ => none := by
  rw [honest_reply_iff (plainStd_encodes _)]
  intro h
  have hone : 0 < ([userItem "rome".toList "7".toList].filter (Eligible plainStd ·)).length := by
    decide +kernel
  exact Bool.false_ne_true (h 0 hone)

/-- With Redis up the same batch is acknowledged rightly. -/
theorem written_batch_acknowledged :
    HonestReply plainStd (fun _ => .replied fun _ => false)
      [userItem "rome".toList "7".toList] fun _ => none :=
  (honest_reply_iff (plainStd_encodes _) _ _).mpr fun _ _ => rfl

end Lost

end FunWithDragonflyDB.Cdc.Acknowledge
