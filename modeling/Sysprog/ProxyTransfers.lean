import Sysprog.ProxyModel

namespace Sysprog.Proxy

/-!
# What a transfer does to its buffer

The answers of `splice` decide how `move_data_in` and `move_data_out` end and how many
bytes they move.  The bytes go through the pipe in order, and as long as the counter of a
buffer is the number of bytes in its pipe, it stays that.
-/

/-- The input ends or fails before it would block. -/
def endsInput : List (Splice (List UInt8)) → Bool
  | [] => false
  | .moved data :: rest => decide (data = []) || endsInput rest
  | .again :: _ => false
  | .failed :: _ => true

/-- The bytes that arrive before the input ends, fails or would block. -/
def amountIn : List (Splice (List UInt8)) → Nat
  | .moved data :: rest => if data = [] then 0 else data.length + amountIn rest
  | _ => 0

/-- Writing fails while some of this many bytes are left. -/
def failsOutput : Int → List (Splice Nat) → Bool
  | _, [] => false
  | bytes, .moved n :: rest =>
      decide (0 < bytes) && decide (n ≠ 0) && failsOutput (bytes - n) rest
  | _, .again :: _ => false
  | bytes, .failed :: _ => decide (0 < bytes)

/-- The bytes the other side takes before writing fails or would block. -/
def amountOut : List (Splice Nat) → Nat
  | .moved n :: rest => if n = 0 then 0 else n + amountOut rest
  | _ => 0

/-- Writing only fails where `splice` does. -/
theorem failed_of_failsOutput
    {bytes : Int}
    {results : List (Splice Nat)}
    (fails : failsOutput bytes results = true) :
    Splice.failed ∈ results := by
  induction results generalizing bytes with
  | nil => simp [failsOutput] at fails
  | cons splice rest inductionHypothesis =>
      cases splice with
      | moved n =>
          exact List.mem_cons_of_mem _ (inductionHypothesis (Bool.and_eq_true_iff.mp fails).2)
      | again => simp [failsOutput] at fails
      | failed => exact List.mem_cons_self

section Transfers

variable {buf : Buffer} {transfer : Transfer}

/-- A counter that does not overflow counts what enters the pipe. -/
theorem gain_eq_some {data : List UInt8} {gained : Buffer} (counted : buf.gain data = some gained) :
    gained = { bytes := buf.bytes + data.length, content := buf.content ++ data } := by
  unfold Buffer.gain at counted
  split at counted
  · exact (Option.some.inj counted).symm
  · simp at counted

/-- What `move_data_in` does, in terms of the answers. -/
theorem moveDataIn_spec
    {results : List (Splice (List UInt8))}
    (called : moveDataIn buf results = some transfer) :
    transfer.result = !endsInput results ∧
      transfer.data.length = amountIn results ∧
      transfer.buf =
        { bytes := buf.bytes + transfer.data.length, content := buf.content ++ transfer.data } := by
  induction results generalizing buf transfer with
  | nil => simp [moveDataIn] at called
  | cons splice rest inductionHypothesis =>
      cases splice with
      | moved data =>
          simp only [moveDataIn] at called
          split at called
          · rename_i atEnd
            obtain rfl := Option.some.inj called
            simp [endsInput, amountIn, atEnd]
          · rename_i more
            split at called
            · obtain ⟨gained, counted, rest⟩ := Option.bind_eq_some_iff.mp called
              obtain rfl := gain_eq_some counted
              obtain ⟨onward, moved, same⟩ := Option.bind_eq_some_iff.mp rest
              obtain rfl := Option.some.inj same
              obtain ⟨result, amount, buffer⟩ := inductionHypothesis moved
              refine ⟨?_, ?_, ?_⟩
              · simp [Transfer.behind, endsInput, more, result]
              · simp [Transfer.behind, amountIn, more, amount]
              · simp [Transfer.behind, buffer, Int.add_assoc]
            · simp at called
      | again =>
          obtain rfl := Option.some.inj called
          simp [endsInput, amountIn]
      | failed =>
          obtain rfl := Option.some.inj called
          simp [endsInput, amountIn]

/-- What `move_data_out` does, in terms of the answers. -/
theorem moveDataOut_spec
    {results : List (Splice Nat)}
    (called : moveDataOut buf results = some transfer) :
    transfer.result = !failsOutput buf.bytes results ∧
      buf.content = transfer.data ++ transfer.buf.content ∧
      buf.bytes = transfer.data.length + transfer.buf.bytes ∧
      (transfer.buf.bytes ≤ 0 ↔ buf.bytes ≤ amountOut results) := by
  induction results generalizing buf transfer with
  | nil =>
      simp only [moveDataOut] at called
      split at called
      · simp at called
      · obtain rfl := Option.some.inj called
        simp [failsOutput, amountOut]
  | cons splice rest inductionHypothesis =>
      simp only [moveDataOut] at called
      split at called
      · rename_i positive
        cases splice with
        | moved n =>
            dsimp only at called
            split at called
            · rename_i zero
              obtain rfl := Option.some.inj called
              simp [failsOutput, amountOut, zero]
            · rename_i nonzero
              split at called
              · rename_i possible
                obtain ⟨onward, moved, same⟩ := Option.bind_eq_some_iff.mp called
                obtain rfl := Option.some.inj same
                obtain ⟨result, content, bytes, emptied⟩ := inductionHypothesis moved
                refine ⟨?_, ?_, ?_, ?_⟩
                · simp [Transfer.behind, failsOutput, positive, nonzero, result]
                · simp only [Transfer.behind]
                  rw [List.append_assoc, ← content]
                  exact (List.take_append_drop n buf.content).symm
                · simp only [Transfer.behind, List.length_append, List.length_take] at bytes ⊢
                  omega
                · simp only [Transfer.behind, amountOut, nonzero, if_false] at emptied ⊢
                  omega
              · simp at called
        | again =>
            obtain rfl := Option.some.inj called
            simp [failsOutput, amountOut]
        | failed =>
            obtain rfl := Option.some.inj called
            simp [failsOutput, amountOut, positive]
      · rename_i empty
        obtain rfl := Option.some.inj called
        refine ⟨?_, by simp, by simp, ?_⟩
        · cases splice <;> simp [failsOutput, empty]
        · dsimp only
          omega

end Transfers

end Sysprog.Proxy
