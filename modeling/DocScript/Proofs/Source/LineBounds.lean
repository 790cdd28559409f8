import DocScript.Proofs.Source.Scanner

/-! # Lines within a text

The line of a point and the newlines behind it always make the number of lines of the text. So
whatever is recorded lies on a line of the text, and so does what a path leads to: the walk up from
a path ends at the root, which stands on the first line if nothing is known of it.
-/

namespace DocScript

/-- The number of the last line of a text. -/
def lastLine (text : String) : Nat := 1 + text.toList.count '\n'

/-- A line of a text. -/
def LineOfText (text : String) (line : Nat) : Prop := 1 ≤ line ∧ line ≤ lastLine text

theorem LineOfText.first (text : String) : LineOfText text 1 := ⟨Nat.le_refl _, Nat.le_add_right ..⟩

/-! ### What a scan records -/

namespace ScanPoint

/-- The point is one of a text with the given last line, and only lines of the text are recorded. -/
structure Within (last : Nat) (point : ScanPoint) : Prop where
  positive : 1 ≤ point.line
  counts : point.line + point.rest.count '\n' = last
  lines : ∀ (key : String) (line : Nat), point.lines[key]? = some line → 1 ≤ line ∧ line ≤ last

namespace Within

variable {last : Nat} {point : ScanPoint}

theorem start (text : String) : (ScanPoint.start text).Within (lastLine text) where
  positive := Nat.le_refl _
  counts := rfl
  lines key line h := by
    rw [ScanPoint.start, Std.TreeMap.getElem?_emptyc] at h
    cases h

theorem line_le (h : point.Within last) : point.line ≤ last := by
  have hcounts := h.counts
  omega

theorem behind {line : Nat} {c : Char} {rest : List Char} {lines : LineTable}
    (h : (ScanPoint.mk (c :: rest) line lines).Within last) :
    (ScanPoint.mk rest (lineBehind line c) lines).Within last := by
  have hpositive : 1 ≤ line := h.positive
  have hcounts : line + (c :: rest).count '\n' = last := h.counts
  rw [List.count_cons] at hcounts
  unfold lineBehind
  split
  next hnewline =>
    rw [if_pos (beq_iff_eq.2 hnewline)] at hcounts
    exact ⟨Nat.le_succ_of_le hpositive, by dsimp only; omega, h.lines⟩
  next hother =>
    rw [if_neg (by simpa using hother)] at hcounts
    exact ⟨hpositive, hcounts, h.lines⟩

theorem bump (h : point.Within last) : point.bump.Within last := by
  obtain ⟨rest, line, lines⟩ := point
  cases rest with
  | nil => exact h
  | cons c rest => exact h.behind

theorem bumpIf (h : point.Within last) (c : Char) : (point.bumpIf c).Within last := by
  unfold ScanPoint.bumpIf
  split
  next => exact h.bump
  next => exact h

theorem pass (h : point.Within last) (belongs : Char → Bool) :
    (point.pass belongs).Within last := by
  obtain ⟨rest, line, lines⟩ := point
  rw [ScanPoint.pass]
  dsimp only
  induction rest generalizing line with
  | nil => exact h
  | cons c rest ih =>
      rw [passFrom]
      split
      next => exact ih _ h.behind
      next => exact h

theorem skipBlank (h : point.Within last) : point.skipBlank.Within last := h.pass _

theorem scalar (h : point.Within last) : point.scalar.Within last := by
  unfold ScanPoint.scalar
  split
  next => exact h.bump
  next => exact h.pass _

theorem quotedFrom {lines : LineTable} {rest : List Char} {line : Nat}
    (h : (ScanPoint.mk rest line lines).Within last) :
    (ScanPoint.quotedFrom lines rest line).2.Within last := by
  fun_induction ScanPoint.quotedFrom lines rest line with
  | case1 line => exact h
  | case2 line => exact h.behind
  | case3 rest line => exact h.behind
  | case4 c rest line behind ih => exact ih h.behind.behind
  | case5 c rest line _ _ _ behind ih => exact ih h.behind

theorem quoted (h : point.Within last) : point.quoted.2.Within last := by
  have hbump := h.bump
  obtain ⟨rest, line, lines⟩ := point
  cases rest <;> exact hbump.quotedFrom

/-- A line of the text can be recorded for any path. -/
theorem recordKey (h : point.Within last) (path : SourcePath) {line : Nat} (hpositive : 1 ≤ line)
    (hlast : line ≤ last) : (point.recordKey path line).Within last := by
  refine ⟨h.positive, h.counts, fun key other hkey => ?_⟩
  rw [ScanPoint.recordKey, Std.TreeMap.getElem?_insert] at hkey
  split at hkey
  next =>
    cases hkey
    exact ⟨hpositive, hlast⟩
  next => exact h.lines key other hkey

theorem recordValue (h : point.Within last) (path : SourcePath) :
    (point.recordValue path).Within last := by
  refine ⟨h.positive, h.counts, fun key line hkey => ?_⟩
  rw [ScanPoint.recordValue, Std.TreeMap.getElem?_insertIfNew] at hkey
  split at hkey
  next =>
    cases hkey
    exact ⟨h.positive, h.line_le⟩
  next => exact h.lines key line hkey

theorem pastColon (h : point.Within last) : point.pastColon.Within last :=
  (h.skipBlank.bumpIf ':').skipBlank

theorem pastComma (h : point.Within last) : point.pastComma.Within last := h.skipBlank.bumpIf ','

end Within

end ScanPoint

section Calls

variable {last : Nat}

mutual

theorem ScansValue.within {path : SourcePath} {point after : ScanPoint}
    (h : ScansValue path point after) (hpoint : point.Within last) : after.Within last := by
  match h with
  | .object _ hobject => exact hobject.within (hpoint.recordValue path)
  | .array _ harray => exact harray.within (hpoint.recordValue path)
  | .string _ => exact (hpoint.recordValue path).quoted
  | .scalar .. => exact (hpoint.recordValue path).scalar
  | .ended _ => exact hpoint.recordValue path

theorem ScansObject.within {path : SourcePath} {point after : ScanPoint}
    (h : ScansObject path point after) (hpoint : point.Within last) : after.Within last := by
  match h with
  | .opened hmembers => exact hmembers.within hpoint.bump

theorem ScansMembers.within {path : SourcePath} {point after : ScanPoint}
    (h : ScansMembers path point after) (hpoint : point.Within last) : after.Within last := by
  have hkey := hpoint.skipBlank
  match h with
  | .close _ => exact hkey.bump
  | .ended _ => exact hkey
  | .stray _ _ _ hmembers => exact hmembers.within hkey.bump
  | .member _ _ hvalue hmembers =>
      have hrecorded (place : SourcePath) := hkey.quoted.recordKey place hkey.positive hkey.line_le
      exact hmembers.within (hvalue.within (hrecorded _).pastColon).pastComma

theorem ScansArray.within {path : SourcePath} {point after : ScanPoint}
    (h : ScansArray path point after) (hpoint : point.Within last) : after.Within last := by
  match h with
  | .opened helements => exact helements.within hpoint.bump

theorem ScansElements.within {path : SourcePath} {position : Nat} {point after : ScanPoint}
    (h : ScansElements path position point after) (hpoint : point.Within last) :
    after.Within last := by
  match h with
  | .close _ => exact hpoint.skipBlank.bump
  | .ended _ => exact hpoint.skipBlank
  | .comma _ helements => exact helements.within hpoint.skipBlank.bump
  | .element _ _ _ hvalue helements => exact helements.within (hvalue.within hpoint.skipBlank)

end

end Calls

/-- Every recorded line is one of the text. -/
theorem LineIndex.lineOfText_of_recorded {text key : String} {line : Nat}
    (h : (LineIndex.build text).lines[key]? = some line) : LineOfText text line := by
  obtain ⟨after, hscan, hlines⟩ := exists_scan text
  rw [hlines] at h
  exact (hscan.within (ScanPoint.Within.start text).skipBlank).lines key line h

/-! ### The walk up from a path -/

namespace SourcePath

theorem length_cutReversed_lt {reversed : List Char} (h : reversed ≠ []) :
    (cutReversed reversed).length < reversed.length := by
  have hdrop (cut : List Char) (hle : cut.length ≤ reversed.length) :
      (cut.drop 1).length < reversed.length := by
    have hpositive := List.length_pos_iff.2 h
    rw [List.length_drop]
    omega
  have hback (cut : Char → Bool) (l : List Char) : (l.dropWhile cut).length ≤ l.length :=
    (List.dropWhile_suffix cut).length_le
  have hdot : (reversed.dropWhile (· != '.')).length ≤ reversed.length := hback ..
  unfold cutReversed
  split
  next rest =>
    dsimp only
    split
    next => exact hdrop _ hdot
    next => exact hdrop _ (Nat.le_succ_of_le (hback _ rest))
  next => exact hdrop _ hdot

/-- Each step up shortens the path. -/
theorem length_parent_lt {path : SourcePath} (h : path ≠ root) :
    path.parent.text.length < path.text.length := by
  have htext : path.text.toList ≠ [] := by
    intro hnil
    obtain ⟨text⟩ := path
    exact h (congrArg SourcePath.mk (String.toList_eq_nil_iff.1 hnil))
  have hcut := length_cutReversed_lt (List.reverse_ne_nil_iff.2 htext)
  rw [parent, ← String.length_toList, ← String.length_toList]
  simpa using hcut

end SourcePath

namespace LineIndex

variable (index : LineIndex)

theorem lookup_root (steps : Nat) :
    index.lookup steps .root = index.lines[SourcePath.root.text]?.getD 1 := by
  induction steps with
  | zero => rfl
  | succ steps ih =>
      rw [lookup]
      cases hroot : index.lines[SourcePath.root.text]? with
      | some line => rfl
      | none => exact ih.trans (by rw [hroot])

/-- More steps than characters do not change what is found. -/
theorem lookup_eq_lineOf (steps : Nat) (path : SourcePath) (h : path.text.length ≤ steps) :
    index.lookup steps path = index.lineOf path := by
  suffices hmore : ∀ more steps path, path.text.length ≤ steps → steps ≤ more →
      index.lookup more path = index.lookup steps path from
    hmore steps _ path (Nat.le_refl _) h
  intro more
  induction more with
  | zero =>
      intro steps path _ hsteps
      rw [Nat.le_zero.1 hsteps]
  | succ more ih =>
      intro steps path hlength hsteps
      by_cases hroot : path = .root
      · rw [hroot, lookup_root, lookup_root]
      · have hshorter := SourcePath.length_parent_lt hroot
        match steps with
        -- A path without a character would be the root.
        | 0 => omega
        | steps + 1 =>
            rw [lookup, lookup, ih steps path.parent (by omega) (Nat.le_of_succ_le_succ hsteps)]

theorem lineOf_of_recorded {path : SourcePath} {line : Nat}
    (h : index.lines[path.text]? = some line) : index.lineOf path = line := by
  rw [lineOf]
  cases path.text.length <;> simp [lookup, h]

/-- The walk goes on above a path that has no line. -/
theorem lineOf_of_not_recorded {path : SourcePath} (h : index.lines[path.text]? = none)
    (hroot : path ≠ .root) : index.lineOf path = index.lineOf path.parent := by
  have hshorter := SourcePath.length_parent_lt hroot
  rw [← index.lookup_eq_lineOf (path.text.length + 1) path (Nat.le_succ _), lookup, h]
  exact index.lookup_eq_lineOf _ _ (Nat.le_of_lt hshorter)

/-- A path leads to a recorded line, or to the first line. -/
theorem lineOf_recorded_or_first (path : SourcePath) :
    (∃ key : String, index.lines[key]? = some (index.lineOf path)) ∨ index.lineOf path = 1 := by
  rw [lineOf]
  generalize path.text.length = steps
  induction steps generalizing path with
  | zero =>
      rw [lookup]
      cases h : index.lines[path.text]? with
      | some line => exact .inl ⟨_, h⟩
      | none => exact .inr rfl
  | succ steps ih =>
      rw [lookup]
      cases h : index.lines[path.text]? with
      | some line => exact .inl ⟨_, h⟩
      | none => exact ih path.parent

end LineIndex

/-- Every path leads to a line of the text. -/
theorem LineIndex.lineOfText_lineOf (text : String) (path : SourcePath) :
    LineOfText text ((LineIndex.build text).lineOf path) := by
  rcases (LineIndex.build text).lineOf_recorded_or_first path with ⟨key, hkey⟩ | hfirst
  · exact lineOfText_of_recorded hkey
  · exact hfirst ▸ LineOfText.first text

end DocScript
