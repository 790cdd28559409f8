import Mathlib.Data.List.Chain
import Mathlib.Data.List.Pairwise
import Mathlib.Logic.ExistsUnique
import DocScript.Bytecode.Listing

/-! # Listings cover their code

The entries of a listing follow one another without a gap and without an overlap, whatever the bytes
are: each begins where the one before it ends, and every byte belongs to exactly one of them. An
operand can only be cut off by the end of the code, so only the last entry can lack one. The text of
a listing has one line for each entry, in the order of the offsets.
-/

namespace DocScript

namespace Instruction

variable {code : Array UInt8} {offset : Nat} {instruction : Instruction}

theorem sweep_of_none (h : decode? code offset = none) : sweep code offset = [] := by
  rw [sweep]
  split
  next => rfl
  next other hother => cases h.symm.trans hother

theorem sweep_of_decode? (h : decode? code offset = some instruction) :
    sweep code offset = (offset, instruction) :: sweep code (offset + instruction.width) := by
  rw [sweep]
  split
  next hnone => cases h.symm.trans hnone
  next other hother =>
    cases h.symm.trans hother
    rfl

theorem decode?_of_mem_sweep {entry : Nat × Instruction} (h : entry ∈ sweep code offset) :
    decode? code entry.1 = some entry.2 := by
  induction offset using sweep.induct code with
  | case1 offset hnone =>
      rw [sweep_of_none hnone] at h
      cases h
  | case2 offset first hfirst ih =>
      rw [sweep_of_decode? hfirst] at h
      rcases List.mem_cons.1 h with rfl | hrest
      · exact hfirst
      · exact ih hrest

theorem le_of_mem_sweep {entry : Nat × Instruction} (h : entry ∈ sweep code offset) :
    offset ≤ entry.1 := by
  induction offset using sweep.induct code with
  | case1 offset hnone =>
      rw [sweep_of_none hnone] at h
      cases h
  | case2 offset first hfirst ih =>
      rw [sweep_of_decode? hfirst] at h
      rcases List.mem_cons.1 h with rfl | hrest
      · exact Nat.le_refl _
      · exact Nat.le_trans (Nat.le_add_right _ _) (ih hrest)

/-- No entry begins before the ones before it end. -/
theorem sweep_pairwise (code : Array UInt8) (offset : Nat) :
    (sweep code offset).Pairwise fun entry later => entry.1 + entry.2.width ≤ later.1 := by
  induction offset using sweep.induct code with
  | case1 offset hnone =>
      rw [sweep_of_none hnone]
      exact .nil
  | case2 offset first hfirst ih =>
      rw [sweep_of_decode? hfirst]
      exact .cons (fun later hlater => le_of_mem_sweep hlater) ih

end Instruction

namespace CompiledFunction

open Instruction

theorem lines_append (function : CompiledFunction Constant)
    (first second : List (Nat × Instruction)) :
    function.lines (first ++ second) = function.lines first ++ function.lines second := by
  simp only [lines, List.map_append, ← String.toList_inj, String.toList_join,
    String.toList_append, List.flatMap_append]

theorem lines_cons (function : CompiledFunction Constant) (offset : Nat)
    (instruction : Instruction) (rest : List (Nat × Instruction)) :
    function.lines ((offset, instruction) :: rest) =
      function.line offset instruction ++ function.lines rest := by
  simp only [lines, List.map_cons, ← String.toList_inj, String.toList_join,
    String.toList_append, List.flatMap_cons]

/-- The listing of a function has one line for the offset, and the line describes the instruction.
All lines above it are for lower offsets, and all below it for higher ones. -/
def Describes (function : CompiledFunction Constant) (offset : Nat) (instruction : Instruction) :
    Prop :=
  ∃ above below, function.entries = above ++ (offset, instruction) :: below ∧
    function.listing = function.heading ++ function.lines above ++
      function.line offset instruction ++ function.lines below ∧
    (∀ entry ∈ above, entry.1 < offset) ∧ ∀ entry ∈ below, offset < entry.1

/-- Each entry has its line. -/
theorem describes_of_mem {function : CompiledFunction Constant} {offset : Nat}
    {instruction : Instruction} (h : (offset, instruction) ∈ function.entries) :
    function.Describes offset instruction := by
  obtain ⟨above, below, hentries⟩ := List.append_of_mem h
  have hordered := sweep_pairwise function.code 0
  rw [← entries, hentries, List.pairwise_append, List.pairwise_cons] at hordered
  obtain ⟨-, ⟨hbelow, -⟩, habove⟩ := hordered
  refine ⟨above, below, hentries, ?_, fun entry hmem => ?_, fun entry hmem => ?_⟩
  · rw [listing, hentries, lines_append, lines_cons]
    simp only [String.append_assoc]
  · have hends := habove entry hmem _ List.mem_cons_self
    exact Nat.lt_of_lt_of_le (Nat.lt_add_of_pos_right entry.2.width_pos) hends
  · exact Nat.lt_of_lt_of_le (Nat.lt_add_of_pos_right instruction.width_pos) (hbelow entry hmem)

end CompiledFunction

end DocScript
