import AsyncPing.Core.HttpServer
import Mathlib.Data.List.TakeWhile

/-!
How a request body is put together from chunks. Every byte leaves the buffer; those
from the first NUL of a chunk to its end do not reach the text.
-/
namespace AsyncPing
namespace HttpHandler

/-- The loop ends with the buffer empty. What it appends has no NUL, and is the
whole buffer when that has none. -/
theorem recvLoop_ends (chunk : Nat) (positive : 0 < chunk) (fuel : Nat) (buf retData : List UInt8)
    (enough : buf.length < fuel) : ∃ text, recvLoop chunk fuel buf retData =
      some ([], retData ++ text) ∧ 0 ∉ text ∧ (0 ∉ buf → text = buf) := by
  induction fuel generalizing buf retData with
  | zero => cases enough
  | succ fuel ih =>
      cases buf with
      | nil => exact ⟨[], by rw [recvLoop, List.append_nil]; rfl, List.not_mem_nil, fun _ => rfl⟩
      | cons b buf =>
          have shorter : ((b :: buf).drop chunk).length < fuel := by
            rw [List.length_drop]
            simp only [List.length_cons] at enough ⊢
            omega
          obtain ⟨text, run, noNul, whole⟩ := ih ((b :: buf).drop chunk)
            (retData ++ ((b :: buf).take chunk).takeWhile (· ≠ 0)) shorter
          refine ⟨((b :: buf).take chunk).takeWhile (· ≠ 0) ++ text, ?_, ?_, ?_⟩
          · rw [recvLoop, List.isEmpty_cons, ← List.append_assoc]
            exact run
          · intro member
            cases List.mem_append.mp member with
            | inl inside =>
                have different := List.mem_takeWhile_imp inside
                simp at different
            | inr later => exact noNul later
          · intro clean
            have left : 0 ∉ (b :: buf).drop chunk := fun inside =>
              clean (List.mem_of_mem_drop inside)
            have taken : ((b :: buf).take chunk).takeWhile (· ≠ 0) = (b :: buf).take chunk := by
              apply List.takeWhile_eq_self_iff.mpr
              intro a inside
              have apart : a ≠ 0 := by
                intro same
                subst same
                exact clean (List.mem_of_mem_take inside)
              exact decide_eq_true apart
            rw [whole left, taken, List.take_append_drop]

theorem recvLoop_clean {chunk fuel : Nat} (positive : 0 < chunk) {buf : List UInt8}
    (clean : 0 ∉ buf) (enough : buf.length < fuel) :
    recvLoop chunk fuel buf [] = some ([], buf) := by
  obtain ⟨text, run, -, whole⟩ := recvLoop_ends chunk positive fuel buf [] enough
  rw [run, whole clean, List.nil_append]

theorem recvReqInput_clean {req : EvhttpRequest} (clean : 0 ∉ req.inputBuffer) :
    recvReqInput req = req.inputBuffer := by
  rw [recvReqInput, recvLoop_clean (by decide) clean (Nat.lt_succ_self _)]
  rfl

/-- The body of the request reaches both callers as it is, and the buffer is left
empty; chunks of another size would give the same. -/
structure Reassembled (req : EvhttpRequest) : Prop where
  json : ∀ (α : Type) (parse : List UInt8 → α) fuel, req.inputBuffer.length < fuel →
    recvReqInputJson parse fuel req = some ([], parse req.inputBuffer)
  parsed : recvReqInput req = req.inputBuffer
  text : ∀ retData fuel, req.inputBuffer.length < fuel →
    recvReqInputText fuel req retData = some ([], req.inputBuffer)
  chunks : ∀ chunk fuel, 0 < chunk → req.inputBuffer.length < fuel →
    recvLoop chunk fuel req.inputBuffer [] = some ([], req.inputBuffer)

end HttpHandler

open HttpHandler in
theorem body_reassembled_iff (req : EvhttpRequest) :
    Reassembled req ↔ 0 ∉ req.inputBuffer := by
  constructor
  · intro whole
    have ends := recvLoop_ends (RECV_BUF_SIZE - 1) (by decide)
      (req.inputBuffer.length + 1) req.inputBuffer [] (Nat.lt_succ_self _)
    obtain ⟨text, run, noNul, -⟩ := ends
    have same := whole.text [] (req.inputBuffer.length + 1) (Nat.lt_succ_self _)
    rw [recvReqInputText, run] at same
    have all : text = req.inputBuffer := by simpa using same
    rw [← all]
    exact noNul
  · intro clean
    have size : 0 < RECV_BUF_SIZE - 1 := by decide
    refine ⟨?_, recvReqInput_clean clean, fun _ _ => recvLoop_clean size clean,
      fun _ _ positive => recvLoop_clean positive clean⟩
    intro α parse fuel enough
    rw [recvReqInputJson, recvLoop_clean size clean enough]
    rfl

open HttpHandler in
/-- The text of `{}`, a NUL and an `x` is `{}`. -/
theorem nul_cuts_the_body : ¬ ∀ req, Reassembled req := by
  intro all
  have whole := (all ⟨0, .post, [123, 125, 0, 120]⟩).parsed
  exact absurd whole (by decide)

end AsyncPing
