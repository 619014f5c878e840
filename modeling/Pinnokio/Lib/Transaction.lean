import Mathlib.Data.Nat.Notation
import Mathlib.Tactic.Common

/-!
# Programs inside a database transaction

A program issues statements one after another; a statement that fails raises, and the program goes on in the handler it
has for that (or lets the exception through).  Inside a transaction a failed statement aborts it: every later statement
fails, whatever it is, and the commit at the end acts as a rollback.  Which statements fail on their own account is a
pattern over the statements in the order in which they are issued.

* `Program`, `Program.bind`, `Program.recover` — programs, with a statement's two continuations;
* `Program.run` — a run under a pattern of failures;
* `aborted_eq_false_iff` — **the transaction is not aborted** exactly when the pattern spares every statement of the
  run without failures; `run_eq_clean` — and then it is that run;
* `Program.onSnd` — a program that only sees the second part of the data.
-/

namespace Pinnokio.Transaction

/-- A program over data `D` that returns an `A` or raises an `E`. -/
inductive Program (D E A : Type) : Type 1 where
  | done (a : A)
  | raise (e : E)
  | statement {R : Type} (sql : D → D × R) (ok : R → Program D E A) (failed : Program D E A)

/-- A connection inside a transaction. -/
structure Conn (D : Type) where
  data : D
  aborted : Bool
  issued : ℕ

/-- The pattern without failures. -/
def clean : ℕ → Bool := fun _ => false

namespace Program

variable {D E A B M : Type}

/-- Go on with the result. -/
def bind : Program D E A → (A → Program D E B) → Program D E B
  | done a, k => k a
  | raise e, _ => raise e
  | statement sql ok failed, k => statement sql (fun r => bind (ok r) k) (bind failed k)

/-- `try … except Exception`. -/
def recover (handler : E → Program D E A) : Program D E A → Program D E A
  | done a => done a
  | raise e => handler e
  | statement sql ok failed => statement sql (fun r => recover handler (ok r)) (recover handler failed)

/-- The same program where the data has a first part that it does not see. -/
def onSnd : Program M E A → Program (D × M) E A
  | done a => done a
  | raise e => raise e
  | statement sql ok failed =>
      statement (fun d => ((d.1, (sql d.2).1), (sql d.2).2)) (fun r => onSnd (ok r)) (onSnd failed)

/-- Run a program on a connection. -/
def run (fails : ℕ → Bool) : Program D E A → Conn D → Conn D × Except E A
  | done a, c => (c, .ok a)
  | raise e, c => (c, .error e)
  | statement sql ok failed, c =>
      if c.aborted || fails c.issued then run fails failed ⟨c.data, true, c.issued + 1⟩
      else run fails (ok (sql c.data).2) ⟨(sql c.data).1, false, c.issued + 1⟩

variable {fails : ℕ → Bool}

theorem run_statement {R : Type} (sql : D → D × R) (ok : R → Program D E A) (failed : Program D E A) (c : Conn D) :
    run fails (statement sql ok failed) c =
      if c.aborted || fails c.issued then run fails failed ⟨c.data, true, c.issued + 1⟩
      else run fails (ok (sql c.data).2) ⟨(sql c.data).1, false, c.issued + 1⟩ := rfl

/-- A program and what comes after it. -/
theorem run_bind (p : Program D E A) (k : A → Program D E B) (c : Conn D) :
    run fails (p.bind k) c =
      match run fails p c with
      | (c', .ok a) => run fails (k a) c'
      | (c', .error e) => (c', .error e) := by
  induction p generalizing c with
  | done a => rfl
  | raise e => rfl
  | statement sql ok failed ihok ihfailed =>
      show run fails (statement sql (fun r => (ok r).bind k) (failed.bind k)) c = _
      rw [run_statement, run_statement]
      split
      · exact ihfailed _
      · exact ihok _ _

/-- A program whose exceptions are all turned into results returns. -/
theorem run_recover_ok (f : E → A) (p : Program D E A) (c : Conn D) :
    ∃ a, (run fails (p.recover fun e => done (f e)) c).2 = .ok a := by
  induction p generalizing c with
  | done a => exact ⟨a, rfl⟩
  | raise e => exact ⟨f e, rfl⟩
  | statement sql ok failed ihok ihfailed =>
      show ∃ a, (run fails (statement sql (fun r => (ok r).recover fun e => done (f e))
        (failed.recover fun e => done (f e))) c).2 = .ok a
      rw [run_statement]
      split
      · exact ihfailed _
      · exact ihok _ _

/-- What a program returns does not depend on the part it does not see. -/
theorem run_onSnd_snd (p : Program M E A) (c : Conn (D × M)) :
    (run fails p.onSnd c).2 = (run fails p ⟨c.data.2, c.aborted, c.issued⟩).2 := by
  induction p generalizing c with
  | done a => rfl
  | raise e => rfl
  | statement sql ok failed ihok ihfailed =>
      show (run fails (statement (fun d => ((d.1, (sql d.2).1), (sql d.2).2)) (fun r => (ok r).onSnd)
        failed.onSnd) c).2 = _
      rw [run_statement, run_statement]
      split
      · exact ihfailed _
      · exact ihok _ _

/-- A program that only sees the second part leaves the first. -/
theorem run_onSnd_fst (p : Program M E A) (c : Conn (D × M)) : (run fails p.onSnd c).1.data.1 = c.data.1 := by
  induction p generalizing c with
  | done a => rfl
  | raise e => rfl
  | statement sql ok failed ihok ihfailed =>
      show (run fails (statement (fun d => ((d.1, (sql d.2).1), (sql d.2).2)) (fun r => (ok r).onSnd)
        failed.onSnd) c).1.data.1 = _
      rw [run_statement]
      split
      · exact ihfailed _
      · exact ihok _ _

/-- A statement counts when it is issued. -/
theorem issued_le (p : Program D E A) (c : Conn D) : c.issued ≤ (run fails p c).1.issued := by
  induction p generalizing c with
  | done a => exact Nat.le_refl _
  | raise e => exact Nat.le_refl _
  | statement sql ok failed ihok ihfailed =>
      rw [run_statement]
      split
      · exact Nat.le_of_succ_le (ihfailed ⟨c.data, true, c.issued + 1⟩)
      · exact Nat.le_of_succ_le (ihok _ ⟨(sql c.data).1, false, c.issued + 1⟩)

/-- An aborted transaction stays aborted. -/
theorem aborted_of_aborted (p : Program D E A) {c : Conn D} (hc : c.aborted = true) :
    (run fails p c).1.aborted = true := by
  induction p generalizing c with
  | done a => exact hc
  | raise e => exact hc
  | statement sql ok failed ihok ihfailed =>
      rw [run_statement, hc, Bool.true_or, if_pos rfl]
      exact ihfailed rfl

/-- Without failures nothing is aborted. -/
theorem aborted_clean (p : Program D E A) {c : Conn D} (hc : c.aborted = false) :
    (run clean p c).1.aborted = false := by
  induction p generalizing c with
  | done a => exact hc
  | raise e => exact hc
  | statement sql ok failed ihok ihfailed =>
      rw [run_statement, hc, clean, Bool.false_or, if_neg Bool.false_ne_true]
      exact ihok _ rfl

/-- A pattern that spares the statements of the run without failures gives that run. -/
theorem run_eq_clean (p : Program D E A) {c : Conn D} (hc : c.aborted = false)
    (h : ∀ k, c.issued ≤ k → k < (run clean p c).1.issued → fails k = false) : run fails p c = run clean p c := by
  induction p generalizing c with
  | done a => rfl
  | raise e => rfl
  | statement sql ok failed ihok ihfailed =>
      have hstep : run clean (statement sql ok failed) c =
          run clean (ok (sql c.data).2) ⟨(sql c.data).1, false, c.issued + 1⟩ := by
        rw [run_statement, hc, clean, Bool.false_or, if_neg Bool.false_ne_true]
      rw [hstep] at h ⊢
      have hfirst : fails c.issued = false := h c.issued (Nat.le_refl _)
        (issued_le (ok (sql c.data).2) ⟨(sql c.data).1, false, c.issued + 1⟩)
      rw [run_statement, hc, hfirst, Bool.false_or, if_neg Bool.false_ne_true]
      exact ihok _ rfl fun k hk => h k (Nat.le_of_succ_le hk)

/-- **The transaction is not aborted** exactly when no statement of the run without failures fails. -/
theorem aborted_eq_false_iff (p : Program D E A) {c : Conn D} (hc : c.aborted = false) :
    (run fails p c).1.aborted = false ↔
      ∀ k, c.issued ≤ k → k < (run clean p c).1.issued → fails k = false := by
  constructor
  · intro h
    induction p generalizing c with
    | done a =>
        intro k hk hlt
        exact absurd hk (Nat.not_le.mpr hlt)
    | raise e =>
        intro k hk hlt
        exact absurd hk (Nat.not_le.mpr hlt)
    | statement sql ok failed ihok ihfailed =>
        rw [run_statement, hc, Bool.false_or] at h
        rw [run_statement, hc, clean, Bool.false_or, if_neg Bool.false_ne_true]
        split at h
        · rw [aborted_of_aborted failed rfl] at h
          cases h
        · next hfirst =>
          intro k hk hlt
          rcases Nat.eq_or_lt_of_le hk with rfl | hk
          · exact Bool.not_eq_true _ ▸ hfirst
          · exact ihok _ rfl h k hk hlt
  · intro h
    rw [run_eq_clean p hc h]
    exact aborted_clean p hc

end Program

end Pinnokio.Transaction
