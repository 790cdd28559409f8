import Mathlib.Data.List.Induction
import Mathlib.Data.List.TakeWhile
import DocScript.Source.Path

/-! # Plain paths

A path is plain if its keys are free of the characters that mark the ends of segments. The text of a
plain path can be read in one way only: cutting its last segment off leads back to the path above,
and different steps from the root make different texts.
-/

namespace DocScript

/-- A step from a value down to a member or to an element. -/
inductive PathStep where
  | key (name : String)
  | index (position : Nat)
  deriving DecidableEq, Repr

/-- Characters that keys of plain paths are free of. -/
def marksSegments (c : Char) : Bool := c == '\\' || c == '.' || c == '[' || c == ']'

/-- A position, or a key that is not empty and marks no segments. -/
def PathStep.Plain : PathStep → Prop
  | .key name => name ≠ "" ∧ ∀ c ∈ name.toList, marksSegments c = false
  | .index _ => True

namespace SourcePath

/-- The path of the value that a step leads to. -/
def child (path : SourcePath) : PathStep → SourcePath
  | .key name => path.member name
  | .index position => path.element position

/-- The path of the value that steps lead to from the root. -/
def ofSteps (steps : List PathStep) : SourcePath := steps.foldl child root

theorem ofSteps_concat (steps : List PathStep) (step : PathStep) :
    ofSteps (steps ++ [step]) = (ofSteps steps).child step := by
  rw [ofSteps, List.foldl_append]
  rfl

variable {path other : SourcePath} {step last : PathStep} {steps others : List PathStep}

/-- The text of the path of a member, backwards. -/
theorem reversed_member (path : SourcePath) (name : String) :
    (path.member name).text.toList.reverse =
      name.toList.reverse ++ if path = root then [] else '.' :: path.text.toList.reverse := by
  obtain ⟨text⟩ := path
  unfold member
  by_cases hroot : text = ""
  · subst hroot
    simp [root]
  · simp [root, hroot]

/-- The text of the path of an element, backwards. -/
theorem reversed_element (path : SourcePath) (position : Nat) :
    (path.element position).text.toList.reverse =
      ']' :: ((Nat.toDigits 10 position).reverse ++ '[' :: path.text.toList.reverse) := by
  simp [element]

theorem dropWhile_before {stop : Char} {before behind : List Char} (hbefore : stop ∉ before) :
    (before ++ stop :: behind).dropWhile (· != stop) = stop :: behind := by
  rw [List.dropWhile_append_of_pos, List.dropWhile_cons_of_neg (by simp)]
  intro c hmem
  simpa using fun heq : c = stop => hbefore (heq ▸ hmem)

theorem not_mem_toDigits {position : Nat} {c : Char} (hc : c.isDigit = false) :
    c ∉ Nat.toDigits 10 position := by
  intro hmem
  rw [Nat.isDigit_of_mem_toDigits (b := 10) (by decide) (by decide) hmem] at hc
  cases hc

/-- A key of a plain path has a last character, and that does not end a position. -/
theorem exists_last_of_plain {name : String} (hplain : (PathStep.key name).Plain) :
    ∃ last front, name.toList.reverse = last :: front ∧ last ≠ ']' ∧ '.' ∉ last :: front := by
  obtain ⟨hname, hmarks⟩ := hplain
  have hnonempty : name.toList.reverse ≠ [] := by simpa using hname
  obtain ⟨last, front, heq⟩ := List.exists_cons_of_ne_nil hnonempty
  have hfree (c : Char) (hmem : c ∈ last :: front) : marksSegments c = false :=
    hmarks c (List.mem_reverse.1 (heq ▸ hmem))
  refine ⟨last, front, heq, ?_, fun hdot => ?_⟩
  · rintro rfl
    cases hfree _ List.mem_cons_self
  · cases hfree _ hdot

/-- Cutting off the last segment leads back. -/
theorem parent_child (hplain : step.Plain) : (path.child step).parent = path := by
  -- The end of a path is cut off from behind: back to the bracket or to the dot before the step.
  suffices hcut : cutReversed (path.child step).text.toList.reverse = path.text.toList.reverse by
    rw [parent, hcut, List.reverse_reverse, String.ofList_toList]
  cases step with
  | index position =>
      rw [child, reversed_element, cutReversed,
        dropWhile_before (by simpa using not_mem_toDigits rfl)]
      rfl
  | key name =>
      obtain ⟨last, front, hname, hbracket, hdot⟩ := exists_last_of_plain hplain
      rw [child, reversed_member, hname]
      have hcut (behind : List Char) : cutReversed (last :: front ++ behind) =
          ((last :: front ++ behind).dropWhile (· != '.')).drop 1 := by
        unfold cutReversed
        split
        next heq => cases heq; exact absurd rfl hbracket
        next => rfl
      rw [hcut]
      split
      next hroot =>
        have hall : ∀ c ∈ last :: front, (c != '.') = true := by
          intro c hmem
          simpa using fun heq : c = '.' => hdot (heq ▸ hmem)
        rw [List.append_nil, List.dropWhile_eq_nil_iff.2 hall, hroot]
        rfl
      next => rw [dropWhile_before hdot, List.drop_one, List.tail_cons]

theorem child_ne_root (hplain : step.Plain) : path.child step ≠ root := by
  intro hroot
  have htext : (path.child step).text.toList.reverse = [] := by rw [hroot]; rfl
  cases step with
  | index position => rw [child, reversed_element] at htext; cases htext
  | key name =>
      obtain ⟨last, front, hname, -⟩ := exists_last_of_plain hplain
      rw [child, reversed_member, hname] at htext
      cases htext

/-- Different steps from a path make different texts. -/
theorem child_injective (hplain : step.Plain) (hlast : last.Plain)
    (h : path.child step = path.child last) : step = last := by
  have htext := congrArg (fun path => path.text.toList.reverse) h
  have hother {name : String} {position : Nat} (hname : (PathStep.key name).Plain) :
      (path.member name).text.toList.reverse ≠ (path.element position).text.toList.reverse := by
    obtain ⟨last, front, heq, hbracket, -⟩ := exists_last_of_plain hname
    rw [reversed_member, reversed_element, heq]
    exact fun hcons => hbracket (List.cons.inj hcons).1
  cases step with
  | index position =>
      cases last with
      | index place =>
          simp only [child, reversed_element, List.cons.injEq, List.append_left_inj,
            List.reverse_inj, true_and] at htext
          rw [← Nat.ofDigitChars_ten_toDigits (n := position), htext,
            Nat.ofDigitChars_ten_toDigits]
      | key name => exact absurd htext.symm (hother hlast)
  | key name =>
      cases last with
      | index place => exact absurd htext (hother hplain)
      | key other =>
          simp only [child, reversed_member, List.append_left_inj, List.reverse_inj] at htext
          rw [String.toList_inj.1 htext]

/-- Different plain paths have different texts. -/
theorem ofSteps_injective (hplain : ∀ step ∈ steps, step.Plain)
    (hothers : ∀ step ∈ others, step.Plain) (h : ofSteps steps = ofSteps others) :
    steps = others := by
  induction steps using List.reverseRecOn generalizing others with
  | nil =>
      cases others using List.reverseRecOn with
      | nil => rfl
      | append_singleton others last =>
          rw [ofSteps_concat] at h
          exact absurd h.symm (child_ne_root (hothers last (by simp)))
  | append_singleton steps step ih =>
      cases others using List.reverseRecOn with
      | nil =>
          rw [ofSteps_concat] at h
          exact absurd h (child_ne_root (hplain step (by simp)))
      | append_singleton others last =>
          rw [ofSteps_concat, ofSteps_concat] at h
          have hstep := hplain step (by simp)
          have hlast := hothers last (by simp)
          -- Equal paths have equal parents, and then the last steps are equal too.
          have hparent : ofSteps steps = ofSteps others :=
            calc ofSteps steps = ((ofSteps steps).child step).parent := (parent_child hstep).symm
              _ = ((ofSteps others).child last).parent := congrArg parent h
              _ = ofSteps others := parent_child hlast
          obtain rfl := ih (fun step hmem => hplain step (List.mem_append_left _ hmem))
            (fun step hmem => hothers step (List.mem_append_left _ hmem)) hparent
          rw [child_injective hstep hlast h]

end SourcePath

end DocScript
