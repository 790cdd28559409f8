import Std.Data.TreeMap.Lemmas
import DocScript.Source.LineIndex

/-! # Scanning value by value

The scanner as calls that read one value, one object or one array and hand what is left to the rest.
Whatever the text is, every call comes to an end, and the calls record just the lines that are
recorded character by character.
-/

namespace DocScript

/-! ### Points -/

/-- A point of a scan: the characters that are left, the line of the first of them, and the lines
that have been recorded. -/
structure ScanPoint where
  rest : List Char
  line : Nat
  lines : LineTable

namespace ScanPoint

/-- The line behind a character. -/
def lineBehind (line : Nat) (c : Char) : Nat := if c = '\n' then line + 1 else line

/-- Before the first character of a text. -/
def start (text : String) : ScanPoint := ⟨text.toList, 1, {}⟩

/-- Passes one character, if there is one. -/
def bump : ScanPoint → ScanPoint
  | ⟨[], line, lines⟩ => ⟨[], line, lines⟩
  | ⟨c :: rest, line, lines⟩ => ⟨rest, lineBehind line c, lines⟩

/-- Passes the character if it is the next one. -/
def bumpIf (c : Char) (point : ScanPoint) : ScanPoint :=
  if point.rest.head? = some c then point.bump else point

/-- Passes characters as long as they belong to what is passed. -/
def passFrom (belongs : Char → Bool) (lines : LineTable) : List Char → (line : Nat) → ScanPoint
  | [], line => ⟨[], line, lines⟩
  | c :: rest, line =>
      if belongs c then passFrom belongs lines rest (lineBehind line c)
      else ⟨c :: rest, line, lines⟩

def pass (belongs : Char → Bool) (point : ScanPoint) : ScanPoint :=
  passFrom belongs point.lines point.rest point.line

def skipBlank (point : ScanPoint) : ScanPoint := point.pass Text.isBlank

/-- Passes a scalar; a character that ends scalars is one by itself if it stands first. -/
def scalar (point : ScanPoint) : ScanPoint :=
  if point.rest.head?.any LineScan.endsScalar then point.bump
  else point.pass fun c => !LineScan.endsScalar c

/-- The characters up to the next quote as they are written, and the point behind the quote. -/
def quotedFrom (lines : LineTable) : List Char → (line : Nat) → List Char × ScanPoint
  | [], line => ([], ⟨[], line, lines⟩)
  | ['\\'], line => ([], ⟨[], line, lines⟩)
  | '"' :: rest, line => ([], ⟨rest, line, lines⟩)
  | '\\' :: c :: rest, line =>
      let behind := quotedFrom lines rest (lineBehind line c)
      ('\\' :: c :: behind.1, behind.2)
  | c :: rest, line =>
      let behind := quotedFrom lines rest (lineBehind line c)
      (c :: behind.1, behind.2)

/-- A string from its opening quote on. -/
def quoted (point : ScanPoint) : List Char × ScanPoint :=
  quotedFrom point.lines point.bump.rest point.bump.line

/-- Records the line of the point for a value unless its path has a line already. -/
def recordValue (point : ScanPoint) (path : SourcePath) : ScanPoint :=
  { point with lines := point.lines.insertIfNew path.text point.line }

/-- Records the line of a key. -/
def recordKey (point : ScanPoint) (path : SourcePath) (line : Nat) : ScanPoint :=
  { point with lines := point.lines.insert path.text line }

/-- From behind a key to its value. -/
def pastColon (point : ScanPoint) : ScanPoint := (point.skipBlank.bumpIf ':').skipBlank

/-- From behind a member to the next one. -/
def pastComma (point : ScanPoint) : ScanPoint := point.skipBlank.bumpIf ','

end ScanPoint

/-! ### Calls -/

mutual

/-- A call that reads the value at a path. -/
inductive ScansValue : SourcePath → ScanPoint → ScanPoint → Prop where
  | object {path : SourcePath} {point after : ScanPoint} (hfirst : point.rest.head? = some '{')
      (h : ScansObject path (point.recordValue path) after) : ScansValue path point after
  | array {path : SourcePath} {point after : ScanPoint} (hfirst : point.rest.head? = some '[')
      (h : ScansArray path (point.recordValue path) after) : ScansValue path point after
  | string {path : SourcePath} {point : ScanPoint} (hfirst : point.rest.head? = some '"') :
      ScansValue path point (point.recordValue path).quoted.2
  | scalar {path : SourcePath} {point : ScanPoint} {c : Char} (hfirst : point.rest.head? = some c)
      (hobject : c ≠ '{') (harray : c ≠ '[') (hstring : c ≠ '"') :
      ScansValue path point (point.recordValue path).scalar
  | ended {path : SourcePath} {point : ScanPoint} (hend : point.rest = []) :
      ScansValue path point (point.recordValue path)

/-- A call that reads the object at a path from its brace on. -/
inductive ScansObject : SourcePath → ScanPoint → ScanPoint → Prop where
  | opened {path : SourcePath} {point after : ScanPoint} (h : ScansMembers path point.bump after) :
      ScansObject path point after

/-- A round of the loop over the members of an object, and those behind it. -/
inductive ScansMembers : SourcePath → ScanPoint → ScanPoint → Prop where
  | close {path : SourcePath} {point : ScanPoint} (hnext : point.skipBlank.rest.head? = some '}') :
      ScansMembers path point point.skipBlank.bump
  | ended {path : SourcePath} {point : ScanPoint} (hend : point.skipBlank.rest = []) :
      ScansMembers path point point.skipBlank
  | stray {path : SourcePath} {point after : ScanPoint} {c : Char}
      (hnext : point.skipBlank.rest.head? = some c) (hclose : c ≠ '}') (hkey : c ≠ '"')
      (h : ScansMembers path point.skipBlank.bump after) : ScansMembers path point after
  | member {path place : SourcePath} {point value after : ScanPoint}
      (hnext : point.skipBlank.rest.head? = some '"')
      (hplace : place = path.member (String.ofList point.skipBlank.quoted.1))
      (hvalue : ScansValue place
        (point.skipBlank.quoted.2.recordKey place point.skipBlank.line).pastColon value)
      (h : ScansMembers path value.pastComma after) : ScansMembers path point after

/-- A call that reads the array at a path from its bracket on. -/
inductive ScansArray : SourcePath → ScanPoint → ScanPoint → Prop where
  | opened {path : SourcePath} {point after : ScanPoint}
      (h : ScansElements path 0 point.bump after) : ScansArray path point after

/-- A round of the loop over the elements of an array from a position on, and those behind it. -/
inductive ScansElements : SourcePath → (position : Nat) → ScanPoint → ScanPoint → Prop where
  | close {path : SourcePath} {position : Nat} {point : ScanPoint}
      (hnext : point.skipBlank.rest.head? = some ']') :
      ScansElements path position point point.skipBlank.bump
  | ended {path : SourcePath} {position : Nat} {point : ScanPoint}
      (hend : point.skipBlank.rest = []) : ScansElements path position point point.skipBlank
  | comma {path : SourcePath} {position : Nat} {point after : ScanPoint}
      (hnext : point.skipBlank.rest.head? = some ',')
      (h : ScansElements path position point.skipBlank.bump after) :
      ScansElements path position point after
  | element {path : SourcePath} {position : Nat} {point value after : ScanPoint} {c : Char}
      (hnext : point.skipBlank.rest.head? = some c) (hclose : c ≠ ']') (hcomma : c ≠ ',')
      (hvalue : ScansValue (path.element position) point.skipBlank value)
      (h : ScansElements path (position + 1) value after) :
      ScansElements path position point after

end

/-! ### Every call passes what it begins with -/

namespace ScanPoint

variable (point : ScanPoint)

theorem rest_bump : point.bump.rest = point.rest.tail := by
  obtain ⟨rest, line, lines⟩ := point
  cases rest <;> rfl

theorem bump_suffix : point.bump.rest <:+ point.rest :=
  point.rest_bump ▸ List.tail_suffix _

theorem bumpIf_suffix (c : Char) : (point.bumpIf c).rest <:+ point.rest := by
  unfold bumpIf
  split
  next => exact point.bump_suffix
  next => exact List.suffix_rfl

theorem passFrom_suffix (belongs : Char → Bool) (lines : LineTable) (rest : List Char)
    (line : Nat) : (passFrom belongs lines rest line).rest <:+ rest := by
  induction rest generalizing line with
  | nil => exact List.suffix_rfl
  | cons c rest ih =>
      rw [passFrom]
      split
      next => exact (ih _).trans (List.suffix_cons _ _)
      next => exact List.suffix_rfl

theorem skipBlank_suffix : point.skipBlank.rest <:+ point.rest := passFrom_suffix ..

/-- A scalar has at least one character, whatever that is. -/
theorem scalar_suffix : point.scalar.rest <:+ point.rest.tail := by
  obtain ⟨rest, line, lines⟩ := point
  cases rest with
  | nil => exact List.suffix_rfl
  | cons c rest =>
      unfold scalar
      split
      next => exact List.suffix_rfl
      next hbelongs =>
        have hc : LineScan.endsScalar c = false := by simpa using hbelongs
        rw [pass, passFrom, hc]
        exact passFrom_suffix ..

theorem quotedFrom_suffix (lines : LineTable) (rest : List Char) (line : Nat) :
    (quotedFrom lines rest line).2.rest <:+ rest := by
  fun_induction quotedFrom lines rest line with
  | case1 => exact List.suffix_rfl
  | case2 => exact List.nil_suffix
  | case3 => exact List.suffix_cons _ _
  | case4 c rest line behind ih => exact ih.trans ⟨['\\', c], rfl⟩
  | case5 c rest line _ _ _ behind ih => exact ih.trans (List.suffix_cons _ _)

theorem quoted_suffix : point.quoted.2.rest <:+ point.rest.tail :=
  point.rest_bump ▸ quotedFrom_suffix ..

theorem pastColon_suffix : point.pastColon.rest <:+ point.rest :=
  (skipBlank_suffix _).trans ((bumpIf_suffix _ _).trans point.skipBlank_suffix)

theorem pastComma_suffix : point.pastComma.rest <:+ point.rest :=
  (bumpIf_suffix _ _).trans point.skipBlank_suffix

/-- What is left behind the first character is shorter. -/
theorem length_lt {point : ScanPoint} {c : Char} {rest : List Char}
    (hfirst : point.rest.head? = some c) (h : rest <:+ point.rest.tail) :
    rest.length < point.rest.length := by
  obtain ⟨_ | ⟨first, others⟩, line, lines⟩ := point
  next => cases hfirst
  next => exact Nat.lt_succ_of_le h.length_le

theorem length_bump_lt {point : ScanPoint} {c : Char} (hfirst : point.rest.head? = some c) :
    point.bump.rest.length < point.rest.length :=
  length_lt hfirst (point.rest_bump ▸ List.suffix_rfl)

end ScanPoint

section Progress

open ScanPoint

mutual

/-- A call passes at least one character if there is one. -/
theorem ScansValue.passes {path : SourcePath} {point after : ScanPoint}
    (h : ScansValue path point after) : after.rest <:+ point.rest.tail := by
  match h with
  | .object _ hobject => exact hobject.passes
  | .array _ harray => exact harray.passes
  | .string _ => exact quoted_suffix (point.recordValue path)
  | .scalar .. => exact scalar_suffix (point.recordValue path)
  | .ended hend =>
      have hsame : (point.recordValue path).rest = [] := hend
      exact hsame ▸ List.nil_suffix

theorem ScansObject.passes {path : SourcePath} {point after : ScanPoint}
    (h : ScansObject path point after) : after.rest <:+ point.rest.tail := by
  match h with
  | .opened hmembers => exact point.rest_bump ▸ hmembers.suffix

theorem ScansMembers.suffix {path : SourcePath} {point after : ScanPoint}
    (h : ScansMembers path point after) : after.rest <:+ point.rest := by
  have hskip := point.skipBlank_suffix
  match h with
  | .close _ => exact (bump_suffix _).trans hskip
  | .ended _ => exact hskip
  | .stray _ _ _ hmembers => exact hmembers.suffix.trans ((bump_suffix _).trans hskip)
  | .member _ _ hvalue hmembers =>
      have hkey := (quoted_suffix point.skipBlank).trans (List.tail_suffix _)
      have hcolon := hvalue.passes.trans ((List.tail_suffix _).trans (pastColon_suffix _))
      have hcomma := hmembers.suffix.trans (pastComma_suffix _)
      exact hcomma.trans (hcolon.trans (hkey.trans hskip))

theorem ScansArray.passes {path : SourcePath} {point after : ScanPoint}
    (h : ScansArray path point after) : after.rest <:+ point.rest.tail := by
  match h with
  | .opened helements => exact point.rest_bump ▸ helements.suffix

theorem ScansElements.suffix {path : SourcePath} {position : Nat} {point after : ScanPoint}
    (h : ScansElements path position point after) : after.rest <:+ point.rest := by
  have hskip := point.skipBlank_suffix
  match h with
  | .close _ => exact (bump_suffix _).trans hskip
  | .ended _ => exact hskip
  | .comma _ helements => exact helements.suffix.trans ((bump_suffix _).trans hskip)
  | .element _ _ _ hvalue helements =>
      exact helements.suffix.trans (hvalue.passes.trans ((List.tail_suffix _).trans hskip))

end

/-! ### Every call comes to an end -/

/-- All calls that can be made at a point come to an end. -/
structure ScanPoint.Ends (point : ScanPoint) : Prop where
  value : ∀ path, ∃ after, ScansValue path point after
  members : ∀ path, ∃ after, ScansMembers path point after
  elements : ∀ path position, ∃ after, ScansElements path position point after

variable {size : Nat} {point : ScanPoint}

theorem ScansValue.exists_of_shorter
    (hshorter : ∀ other : ScanPoint, other.rest.length < point.rest.length → other.Ends)
    (path : SourcePath) : ∃ after, ScansValue path point after := by
  cases hfirst : point.rest.head? with
  | none => exact ⟨_, .ended (List.head?_eq_none_iff.1 hfirst)⟩
  | some c =>
      have hpassed : (point.recordValue path).bump.rest.length < point.rest.length :=
        length_bump_lt hfirst
      have hinside := hshorter (point.recordValue path).bump hpassed
      by_cases hobject : c = '{'
      · obtain ⟨after, hmembers⟩ := hinside.members path
        exact ⟨after, .object (hobject ▸ hfirst) (.opened hmembers)⟩
      · by_cases harray : c = '['
        · obtain ⟨after, helements⟩ := hinside.elements path 0
          exact ⟨after, .array (harray ▸ hfirst) (.opened helements)⟩
        · by_cases hstring : c = '"'
          · exact ⟨_, .string (hstring ▸ hfirst)⟩
          · exact ⟨_, .scalar hfirst hobject harray hstring⟩

theorem ScansMembers.exists_of_shorter
    (hshorter : ∀ other : ScanPoint, other.rest.length < point.rest.length → other.Ends)
    (path : SourcePath) : ∃ after, ScansMembers path point after := by
  have hskip := point.skipBlank_suffix.length_le
  cases hnext : point.skipBlank.rest.head? with
  | none => exact ⟨_, .ended (List.head?_eq_none_iff.1 hnext)⟩
  | some c =>
      by_cases hclose : c = '}'
      · exact ⟨_, .close (hclose ▸ hnext)⟩
      · by_cases hkey : c = '"'
        · subst hkey
          have hquoted := length_lt hnext (quoted_suffix _)
          let place := path.member (String.ofList point.skipBlank.quoted.1)
          let key := point.skipBlank.quoted.2.recordKey place point.skipBlank.line
          have hcolon : key.pastColon.rest.length ≤ point.skipBlank.quoted.2.rest.length :=
            key.pastColon_suffix.length_le
          obtain ⟨value, hvalue⟩ := (hshorter key.pastColon (by omega)).value place
          have hcomma := value.pastComma_suffix.length_le
          have hpassed := (hvalue.passes.trans (List.tail_suffix _)).length_le
          obtain ⟨after, hmembers⟩ := (hshorter value.pastComma (by omega)).members path
          exact ⟨after, .member hnext rfl hvalue hmembers⟩
        · have hstray := length_bump_lt hnext
          obtain ⟨after, hmembers⟩ := (hshorter point.skipBlank.bump (by omega)).members path
          exact ⟨after, .stray hnext hclose hkey hmembers⟩

theorem ScansElements.exists_of_shorter
    (hshorter : ∀ other : ScanPoint, other.rest.length < point.rest.length → other.Ends)
    (path : SourcePath) (position : Nat) : ∃ after, ScansElements path position point after := by
  have hskip := point.skipBlank_suffix.length_le
  cases hnext : point.skipBlank.rest.head? with
  | none => exact ⟨_, .ended (List.head?_eq_none_iff.1 hnext)⟩
  | some c =>
      by_cases hclose : c = ']'
      · exact ⟨_, .close (hclose ▸ hnext)⟩
      · by_cases hcomma : c = ','
        · subst hcomma
          have hstray := length_bump_lt hnext
          obtain ⟨after, helements⟩ :=
            (hshorter point.skipBlank.bump (by omega)).elements path position
          exact ⟨after, .comma hnext helements⟩
        · obtain ⟨value, hvalue⟩ := ScansValue.exists_of_shorter
            (fun other hother => hshorter other (Nat.lt_of_lt_of_le hother hskip))
            (path.element position)
          have hpassed := length_lt hnext hvalue.passes
          obtain ⟨after, helements⟩ := (hshorter value (by omega)).elements path (position + 1)
          exact ⟨after, .element hnext hclose hcomma hvalue helements⟩

/-- Whatever is left at a point, a call at it comes to an end. -/
theorem ScanPoint.ends (point : ScanPoint) : point.Ends := by
  suffices hbelow : ∀ size, ∀ point : ScanPoint, point.rest.length < size → point.Ends from
    hbelow _ point (Nat.lt_succ_self _)
  intro size
  induction size with
  | zero => exact fun _ hlt => absurd hlt (Nat.not_lt_zero _)
  | succ size ih =>
      intro point hlt
      -- An element may begin where the loop stands, so its call is looked into one level deep.
      have hshorter (other : ScanPoint) (hother : other.rest.length < point.rest.length) :
          other.Ends := ih other (Nat.lt_of_lt_of_le hother (Nat.le_of_lt_succ hlt))
      exact ⟨ScansValue.exists_of_shorter hshorter, ScansMembers.exists_of_shorter hshorter,
        ScansElements.exists_of_shorter hshorter⟩

end Progress

/-! ### Character by character -/

namespace ScanPoint

variable {point : ScanPoint} {path : SourcePath} {c : Char}

/-- What is not passed does not belong to what is passed. -/
theorem head_pass {belongs : Char → Bool}
    (hnext : (point.pass belongs).rest.head? = some c) : belongs c = false := by
  obtain ⟨rest, line, table⟩ := point
  rw [pass] at hnext
  dsimp only at hnext
  induction rest generalizing line with
  | nil => cases hnext
  | cons first rest ih =>
      rw [passFrom] at hnext
      split at hnext
      next => exact ih _ hnext
      next hother =>
        cases hnext
        simpa using hother

theorem pass_of_head {belongs : Char → Bool} (hnext : point.rest.head? = some c)
    (hbelongs : belongs c = true) : point.pass belongs = point.bump.pass belongs := by
  obtain ⟨rest, line, table⟩ := point
  cases rest with
  | nil => cases hnext
  | cons first rest =>
      cases hnext
      rw [pass, passFrom, if_pos hbelongs]
      rfl

theorem lines_skipBlank : point.skipBlank.lines = point.lines := by
  obtain ⟨rest, line, table⟩ := point
  rw [skipBlank, pass]
  dsimp only
  induction rest generalizing line with
  | nil => rfl
  | cons c rest ih =>
      rw [passFrom]
      split
      next => exact ih _
      next => rfl

theorem bump_recordValue :
    { point.bump with lines := (point.recordValue path).lines } =
      (point.recordValue path).bump := by
  obtain ⟨rest, line, table⟩ := point
  cases rest <;> rfl

end ScanPoint

/-- A value whose path has a line already is recorded where its key is. -/
theorem LineTable.insertIfNew_of_mem {lines : LineTable} {key : String} (hmem : key ∈ lines)
    (line : Nat) : lines.insertIfNew key line = lines := by
  obtain ⟨⟨table, hwf⟩⟩ := lines
  have hcontains : table.contains key = true := hmem
  unfold Std.TreeMap.insertIfNew Std.DTreeMap.insertIfNew Std.DTreeMap.Internal.Impl.insertIfNew
  simp [hcontains]

namespace LineScan

/-- The lines that are recorded from a point on, with a mode and open containers. -/
def linesFrom (mode : ScanMode) (containers : List OpenContainer) (point : ScanPoint) : LineTable :=
  (point.rest.foldl step ⟨point.line, mode, containers, point.lines⟩).finish

/-- The mode behind a complete value. -/
def behindValue (containers : List OpenContainer) : ScanMode :=
  if containers.isEmpty then .done else .entry

variable {mode next : ScanMode} {containers others : List OpenContainer} {point : ScanPoint}
  {path : SourcePath} {c : Char} {lines : LineTable}

theorem linesFrom_ended (hend : point.rest = []) :
    linesFrom mode containers point =
      (LineScan.mk point.line mode containers point.lines).finish := by
  rw [linesFrom, hend]
  rfl

/-- One character read. -/
theorem linesFrom_read (hnext : point.rest.head? = some c)
    (hread : read ⟨point.line, mode, containers, point.lines⟩ c =
      ⟨point.line, next, others, lines⟩) :
    linesFrom mode containers point = linesFrom next others { point.bump with lines } := by
  obtain ⟨rest, line, table⟩ := point
  cases rest with
  | nil => cases hnext
  | cons first rest =>
      cases hnext
      have hstep : step ⟨line, mode, containers, table⟩ c =
          ⟨ScanPoint.lineBehind line c, next, others, lines⟩ := by
        rw [step, hread, ScanPoint.lineBehind]
        split <;> rfl
      simp only [linesFrom, List.foldl_cons, hstep, ScanPoint.bump]

/-- Two modes that read the next character in the same way lead to the same lines. -/
theorem linesFrom_congr (hnext : point.rest.head? = some c)
    (hread : read ⟨point.line, mode, containers, point.lines⟩ c =
      read ⟨point.line, next, others, point.lines⟩ c) :
    linesFrom mode containers point = linesFrom next others point := by
  obtain ⟨rest, line, table⟩ := point
  cases rest with
  | nil => cases hnext
  | cons first rest =>
      cases hnext
      simp only [linesFrom, List.foldl_cons, step, hread]

theorem linesFrom_bump (hnext : point.rest.head? = some c)
    (hread : read ⟨point.line, mode, containers, point.lines⟩ c =
      ⟨point.line, next, others, point.lines⟩) :
    linesFrom mode containers point = linesFrom next others point.bump := by
  rw [linesFrom_read hnext hread]
  congr 1
  obtain ⟨rest, line, table⟩ := point
  cases rest <;> rfl

/-- Characters that change nothing are passed. -/
theorem linesFrom_pass {belongs : Char → Bool}
    (hstay : ∀ line c, belongs c = true →
      read ⟨line, mode, containers, point.lines⟩ c = ⟨line, mode, containers, point.lines⟩) :
    linesFrom mode containers point = linesFrom mode containers (point.pass belongs) := by
  obtain ⟨rest, line, table⟩ := point
  rw [ScanPoint.pass]
  dsimp only at hstay ⊢
  induction rest generalizing line with
  | nil => rfl
  | cons c rest ih =>
      rw [ScanPoint.passFrom]
      split
      next hbelongs =>
        rw [linesFrom_bump rfl (hstay line c hbelongs)]
        exact ih _
      next => rfl

/-- Behind the value of the document nothing is recorded. -/
theorem linesFrom_done : linesFrom .done containers point = point.lines := by
  obtain ⟨rest, line, table⟩ := point
  induction rest generalizing line with
  | nil => rfl
  | cons c rest ih =>
      rw [linesFrom_bump rfl rfl]
      exact ih _

theorem linesFrom_skipBlank
    (hstay : ∀ line c, Text.isBlank c = true →
      read ⟨line, mode, containers, point.lines⟩ c = ⟨line, mode, containers, point.lines⟩) :
    linesFrom mode containers point = linesFrom mode containers point.skipBlank :=
  linesFrom_pass hstay

/-- A backslash would be followed by the end or by what it escapes. -/
theorem ne_backslash {rest : List Char} (hend : c = '\\' → rest = [] → False)
    (hescape : ∀ first others, c = '\\' → rest = first :: others → False) : c ≠ '\\' := by
  intro hslash
  cases rest with
  | nil => exact hend hslash rfl
  | cons first others => exact hescape first others hslash rfl

theorem read_value_blank (line : Nat) (hblank : Text.isBlank c = true) :
    read ⟨line, .value path, containers, lines⟩ c = ⟨line, .value path, containers, lines⟩ :=
  if_pos hblank

theorem read_colon_blank (line : Nat) (hblank : Text.isBlank c = true) :
    read ⟨line, .colon path, containers, lines⟩ c = ⟨line, .colon path, containers, lines⟩ :=
  if_pos hblank

theorem ne_of_isBlank {other : Char} (hblank : Text.isBlank c = true)
    (hother : Text.isBlank other = false) : c ≠ other := by
  rintro rfl
  cases hblank.symm.trans hother

theorem read_entry_blank (line : Nat) (hblank : Text.isBlank c = true) :
    read ⟨line, .entry, containers, lines⟩ c = ⟨line, .entry, containers, lines⟩ := by
  have hbrace : c ≠ '}' := ne_of_isBlank hblank (by decide)
  have hquote : c ≠ '"' := ne_of_isBlank hblank (by decide)
  have hbracket : c ≠ ']' := ne_of_isBlank hblank (by decide)
  match containers with
  | [] => rfl
  | .object _ :: _ =>
      simp only [read, entry]
  | .array _ _ :: _ => simp [read, entry, hbracket, hblank]

theorem finish_behindValue (containers : List OpenContainer) (line : Nat) (lines : LineTable) :
    (LineScan.mk line (behindValue containers) containers lines).finish = lines := by
  unfold behindValue
  split <;> rfl

/-- A scalar ends at a character that is read again behind it. -/
theorem linesFrom_scalar : linesFrom .scalar containers point =
    linesFrom (behindValue containers) containers (point.pass fun c => !endsScalar c) := by
  have hstay (line : Nat) (c : Char) (hbelongs : (!endsScalar c) = true) :
      read ⟨line, .scalar, containers, point.lines⟩ c =
        ⟨line, .scalar, containers, point.lines⟩ :=
    if_neg (by simpa using hbelongs)
  rw [linesFrom_pass hstay]
  cases hnext : (point.pass fun c => !endsScalar c).rest.head? with
  | none =>
      have hend := List.head?_eq_none_iff.1 hnext
      rw [linesFrom_ended hend, linesFrom_ended hend, finish_behindValue]
      rfl
  | some c =>
      have hends : endsScalar c = true := by simpa using ScanPoint.head_pass hnext
      refine linesFrom_congr hnext ?_
      cases containers <;> exact if_pos hends

/-- Behind the quote of a string its value is complete. -/
theorem linesFrom_string (rest : List Char) (line : Nat) :
    linesFrom .string containers ⟨rest, line, lines⟩ =
      linesFrom (behindValue containers) containers (ScanPoint.quotedFrom lines rest line).2 := by
  fun_induction ScanPoint.quotedFrom lines rest line with
  | case1 line =>
      rw [linesFrom_ended rfl, linesFrom_ended rfl, finish_behindValue]
      rfl
  | case2 line =>
      rw [linesFrom_bump rfl rfl, linesFrom_ended rfl, linesFrom_ended rfl, finish_behindValue]
      rfl
  | case3 rest line =>
      exact linesFrom_bump rfl rfl
  | case4 c rest line behind ih =>
      rw [linesFrom_bump rfl rfl, linesFrom_bump rfl rfl]
      exact ih
  | case5 c rest line hend hquote hescape behind ih =>
      have hslash : c ≠ '\\' := ne_backslash hend hescape
      have hread : read ⟨line, .string, containers, lines⟩ c =
          ⟨line, .string, containers, lines⟩ := by
        simp only [read]
      rw [linesFrom_bump rfl hread]
      exact ih

theorem linesFrom_quoted : linesFrom .string containers point.bump =
    linesFrom (behindValue containers) containers point.quoted.2 := by
  obtain ⟨rest, line, table⟩ := point
  cases rest <;> exact linesFrom_string _ _

/-- Behind the quote of a key its line is recorded. -/
theorem linesFrom_key (outer : List OpenContainer) (start : Nat) (reversed rest : List Char)
    (line : Nat) {place : SourcePath}
    (hplace : place = path.member (String.ofList
      (reversed.reverse ++ (ScanPoint.quotedFrom lines rest line).1))) :
    linesFrom (.key start reversed) (.object path :: outer) ⟨rest, line, lines⟩ =
      linesFrom (.colon place) (.object path :: outer)
        ((ScanPoint.quotedFrom lines rest line).2.recordKey place start) := by
  -- The scanner that goes by characters collects the key backwards while the other one reads it.
  fun_induction ScanPoint.quotedFrom lines rest line generalizing reversed with
  | case1 line =>
      rw [List.append_nil] at hplace
      subst hplace
      rfl
  | case2 line =>
      rw [List.append_nil] at hplace
      subst hplace
      rfl
  | case3 rest line =>
      rw [List.append_nil] at hplace
      subst hplace
      exact linesFrom_read rfl rfl
  | case4 c rest line behind ih =>
      rw [linesFrom_bump rfl rfl, linesFrom_bump rfl rfl]
      refine ih (c :: '\\' :: reversed) ?_
      simpa using hplace
  | case5 c rest line hend hquote hescape behind ih =>
      have hslash : c ≠ '\\' := ne_backslash hend hescape
      have hread : read ⟨line, .key start reversed, .object path :: outer, lines⟩ c =
          ⟨line, .key start (c :: reversed), .object path :: outer, lines⟩ := by
        simp only [read]
      rw [linesFrom_bump rfl hread]
      refine ih (c :: reversed) ?_
      simpa using hplace

theorem linesFrom_quotedKey (outer : List OpenContainer) (start : Nat) {place : SourcePath}
    (hplace : place = path.member (String.ofList point.quoted.1)) :
    linesFrom (.key start []) (.object path :: outer) point.bump =
      linesFrom (.colon place) (.object path :: outer) (point.quoted.2.recordKey place start) := by
  obtain ⟨rest, line, table⟩ := point
  cases rest <;> exact linesFrom_key outer start [] _ _ hplace

theorem beginValue_mode (line : Nat) (mode next : ScanMode) :
    (LineScan.mk line mode containers lines).beginValue path c =
      (LineScan.mk line next containers lines).beginValue path c := by
  unfold beginValue
  split
  next => rfl
  next => rfl
  next => rfl
  next => split <;> rfl

/-- Between a key and its value stands at most one colon. -/
theorem linesFrom_colon (hmem : path.text ∈ point.lines) :
    linesFrom (.colon path) containers point =
      linesFrom (.value path) containers point.pastColon := by
  rw [linesFrom_skipBlank fun line _ => read_colon_blank line, ScanPoint.pastColon,
    ← linesFrom_skipBlank fun line _ => read_value_blank line]
  rw [← ScanPoint.lines_skipBlank] at hmem
  have hhead (c : Char) (hnext : point.skipBlank.rest.head? = some c) :
      Text.isBlank c = false := ScanPoint.head_pass hnext
  generalize point.skipBlank = point at hmem hhead
  rw [ScanPoint.bumpIf]
  cases hnext : point.rest.head? with
  -- At the end of the text the value has no line of its own, and the line of its key is there.
  | none =>
      have hend := List.head?_eq_none_iff.1 hnext
      rw [if_neg nofun, linesFrom_ended hend, linesFrom_ended hend]
      exact (LineTable.insertIfNew_of_mem hmem _).symm
  | some c =>
      have hblank := hhead c hnext
      split
      next hcolon =>
        cases hcolon
        exact linesFrom_bump hnext rfl
      next hcolon =>
        have hother : c ≠ ':' := fun heq => hcolon (congrArg some heq)
        refine linesFrom_congr hnext ?_
        simp only [read, hblank, hother, if_false, Bool.false_eq_true]
        exact beginValue_mode ..

theorem read_entry_stray {outer : List OpenContainer} (line : Nat) (hclose : c ≠ '}')
    (hkey : c ≠ '"') :
    read ⟨line, .entry, .object path :: outer, lines⟩ c =
      ⟨line, .entry, .object path :: outer, lines⟩ := by
  simp only [read, entry]

/-- An element of an array begins with a character that neither ends the array nor stands between
elements. -/
theorem linesFrom_element {outer : List OpenContainer} {position : Nat}
    (hnext : point.rest.head? = some c) (hblank : Text.isBlank c = false) (hclose : c ≠ ']')
    (hcomma : c ≠ ',') :
    linesFrom .entry (.array path position :: outer) point =
      linesFrom (.value (path.element position)) (.array path (position + 1) :: outer) point := by
  refine linesFrom_congr hnext ?_
  simp only [read, entry, hclose, hcomma, hblank, or_self, Bool.false_eq_true, if_false]
  exact beginValue_mode ..

/-- Between members of an object stands at most one comma. -/
theorem linesFrom_comma (outer : List OpenContainer) :
    linesFrom .entry (.object path :: outer) point =
      linesFrom .entry (.object path :: outer) point.pastComma := by
  rw [linesFrom_skipBlank fun line _ => read_entry_blank line, ScanPoint.pastComma,
    ScanPoint.bumpIf]
  split
  next hcomma => exact linesFrom_bump hcomma rfl
  next => rfl

end LineScan

section Calls

open LineScan ScanPoint

/-- The first character of a value opens a container. -/
theorem LineScan.linesFrom_opened {path : SourcePath} {point : ScanPoint}
    {containers others : List OpenContainer} {c : Char} (hnext : point.rest.head? = some c)
    (hread : read ⟨point.line, .value path, containers, point.lines⟩ c =
      ⟨point.line, next, others, (point.recordValue path).lines⟩) :
    linesFrom (.value path) containers point =
      linesFrom next others (point.recordValue path).bump := by
  rw [linesFrom_read hnext hread, ScanPoint.bump_recordValue]

/-- A value that is no string and no bracket is a scalar. -/
theorem LineScan.linesFrom_scalarValue {path : SourcePath} {point : ScanPoint}
    {containers : List OpenContainer} {c : Char} (hnext : point.rest.head? = some c)
    (hblank : Text.isBlank c = false) (hobject : c ≠ '{') (harray : c ≠ '[') (hstring : c ≠ '"') :
    linesFrom (.value path) containers point =
      linesFrom (behindValue containers) containers (point.recordValue path).scalar := by
  have hread (line : Nat) (lines : LineTable) :
      read ⟨line, .value path, containers, lines⟩ c =
        ⟨line, if endsScalar c then behindValue containers else .scalar, containers,
          lines.insertIfNew path.text line⟩ := by
    simp only [LineScan.read, hblank, Bool.false_eq_true, if_false, beginValue]
    split <;> rfl
  rw [linesFrom_opened hnext (hread _ _), ScanPoint.scalar]
  have hsame : (point.recordValue path).rest.head? = some c := hnext
  rw [hsame, Option.any_some]
  split
  next => rfl
  next hbelongs =>
    rw [linesFrom_scalar, pass_of_head hsame (by simpa using hbelongs)]

mutual

/-- A call that reads a value records what is recorded from its first character on. -/
theorem ScansValue.linesFrom_eq {path : SourcePath} {point after : ScanPoint}
    (h : ScansValue path point after)
    (hfirst : ∀ c, point.rest.head? = some c → Text.isBlank c = false)
    (containers : List OpenContainer) :
    linesFrom (.value path) containers point =
      linesFrom (behindValue containers) containers after := by
  match h with
  | .object hnext hobject =>
      rw [linesFrom_opened hnext rfl]
      exact hobject.linesFrom_eq containers
  | .array hnext harray =>
      rw [linesFrom_opened hnext rfl]
      exact harray.linesFrom_eq containers
  | .string hnext =>
      rw [linesFrom_opened hnext rfl]
      exact linesFrom_quoted
  | .scalar hnext hobject harray hstring =>
      exact linesFrom_scalarValue hnext (hfirst _ hnext) hobject harray hstring
  | .ended hend =>
      have hsame : (point.recordValue path).rest = [] := hend
      rw [linesFrom_ended hend, linesFrom_ended hsame, finish_behindValue]
      rfl

theorem ScansObject.linesFrom_eq {path : SourcePath} {point after : ScanPoint}
    (h : ScansObject path point after) (outer : List OpenContainer) :
    linesFrom .entry (.object path :: outer) point.bump =
      linesFrom (behindValue outer) outer after := by
  match h with
  | .opened hmembers => exact hmembers.linesFrom_eq outer

theorem ScansMembers.linesFrom_eq {path : SourcePath} {point after : ScanPoint}
    (h : ScansMembers path point after) (outer : List OpenContainer) :
    linesFrom .entry (.object path :: outer) point = linesFrom (behindValue outer) outer after := by
  rw [linesFrom_skipBlank fun line _ => read_entry_blank line]
  match h with
  | .close hnext => exact linesFrom_bump hnext rfl
  | .ended hend =>
      rw [linesFrom_ended hend, linesFrom_ended hend, finish_behindValue]
      rfl
  | .stray hnext hclose hkey hmembers =>
      rw [linesFrom_bump hnext (read_entry_stray _ hclose hkey)]
      exact hmembers.linesFrom_eq outer
  | .member hnext hplace hvalue hmembers =>
      rw [linesFrom_bump hnext rfl, linesFrom_quotedKey outer _ hplace,
        linesFrom_colon Std.TreeMap.mem_insert_self]
      rw [hvalue.linesFrom_eq (fun c hc => head_pass hc)]
      exact (linesFrom_comma outer).trans (hmembers.linesFrom_eq outer)

theorem ScansArray.linesFrom_eq {path : SourcePath} {point after : ScanPoint}
    (h : ScansArray path point after) (outer : List OpenContainer) :
    linesFrom .entry (.array path 0 :: outer) point.bump =
      linesFrom (behindValue outer) outer after := by
  match h with
  | .opened helements => exact helements.linesFrom_eq outer

theorem ScansElements.linesFrom_eq {path : SourcePath} {position : Nat} {point after : ScanPoint}
    (h : ScansElements path position point after) (outer : List OpenContainer) :
    linesFrom .entry (.array path position :: outer) point =
      linesFrom (behindValue outer) outer after := by
  rw [linesFrom_skipBlank fun line _ => read_entry_blank line]
  match h with
  | .close hnext => exact linesFrom_bump hnext rfl
  | .ended hend =>
      rw [linesFrom_ended hend, linesFrom_ended hend, finish_behindValue]
      rfl
  | .comma hnext helements =>
      rw [linesFrom_bump hnext rfl]
      exact helements.linesFrom_eq outer
  | .element hnext hclose hcomma hvalue helements =>
      rw [linesFrom_element hnext (head_pass hnext) hclose hcomma,
        hvalue.linesFrom_eq fun _ hfirst => head_pass hfirst]
      exact helements.linesFrom_eq outer

end

variable {text : String} {after : ScanPoint}

/-- The call that reads the value of a text records the lines of the text. -/
theorem ScansValue.build_eq
    (h : ScansValue .root (ScanPoint.start text).skipBlank after) :
    (LineIndex.build text).lines = after.lines := by
  calc (LineIndex.build text).lines
      = linesFrom (.value .root) [] (ScanPoint.start text) := rfl
    _ = linesFrom (.value .root) [] (ScanPoint.start text).skipBlank :=
        linesFrom_skipBlank fun line _ => read_value_blank line
    _ = linesFrom .done [] after := h.linesFrom_eq (fun _ hnext => head_pass hnext) []
    _ = after.lines := linesFrom_done

end Calls

/-- The scan of a text ends, valid or not, and its lines are those that are recorded. -/
theorem exists_scan (text : String) :
    ∃ after, ScansValue .root (ScanPoint.start text).skipBlank after ∧
      (LineIndex.build text).lines = after.lines := by
  obtain ⟨after, h⟩ := (ScanPoint.start text).skipBlank.ends.value .root
  exact ⟨after, h, h.build_eq⟩

end DocScript
