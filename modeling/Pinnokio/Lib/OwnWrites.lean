import Pinnokio.Lib.Runs

/-!
# What is shown is no older than the own last write

A value that was read off a state at some point of a sequence of operations, since when none of the operations was a
write of one's own.  Writes of others may have come in between.

* `seenSince_now` — what is read now;
* `SeenSince.concat` — it stays so with every operation that is no write of one's own.
-/

namespace Pinnokio.OwnWrites

open Pinnokio.Runs

variable {S O V : Type*}

/-- The value was to be seen at some point since the last own write. -/
def SeenSince (step : S → O → S) (own : S → O → Bool) (view : S → V) (s : S) (ops : List O) (v : V) : Prop :=
  ∃ pre post, ops = pre ++ post ∧ Guarded step (fun s op => own s op = false) (run step s pre) post ∧
    v = view (run step s pre)

variable {step : S → O → S} {own : S → O → Bool} {view : S → V} {s : S} {ops : List O} {v : V} {op : O}

theorem seenSince_now : SeenSince step own view s ops (view (run step s ops)) :=
  ⟨ops, [], (List.append_nil ops).symm, trivial, rfl⟩

theorem SeenSince.concat (h : SeenSince step own view s ops v) (hop : own (run step s ops) op = false) :
    SeenSince step own view s (ops ++ [op]) v := by
  obtain ⟨pre, post, rfl, hpost, hv⟩ := h
  refine ⟨pre, post ++ [op], List.append_assoc pre post [op], ?_, hv⟩
  rw [guarded_concat]
  refine ⟨hpost, ?_⟩
  rw [run_append] at hop
  exact hop

end Pinnokio.OwnWrites
