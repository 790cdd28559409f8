import DocScript.Proofs.Source.LineBounds
import DocScript.Proofs.Source.WrittenParse

/-! # Looking up lines in documents

The scanner meets the nodes of a document in the order in which they are listed, and records each on
the line of its mark. In a clean document no two nodes share a path, so what is looked up at the
path of a node is its own line, and what is looked up below a node where nothing stands is the line
of that node.
-/

namespace DocScript

/-! ### Recording nodes -/

/-- Records a node: the key of a member anew, any other value unless its path has a line. -/
def LineTable.note (lines : LineTable) (node : DocumentNode) : LineTable :=
  match node.steps.getLast? with
  | some (.key _) => lines.insert node.path.text node.line
  | _ => lines.insertIfNew node.path.text node.line

/-- Records nodes in order. -/
def LineTable.noteAll (lines : LineTable) (nodes : List DocumentNode) : LineTable :=
  nodes.foldl note lines

namespace LineTable

variable {lines : LineTable} {nodes : List DocumentNode} {node : DocumentNode} {key : String}

theorem noteAll_append (lines : LineTable) (nodes others : List DocumentNode) :
    lines.noteAll (nodes ++ others) = (lines.noteAll nodes).noteAll others :=
  List.foldl_append

theorem getElem?_note_of_ne (hne : node.path.text ≠ key) :
    (lines.note node)[key]? = lines[key]? := by
  have hcompare : compare node.path.text key ≠ .eq := by simpa using hne
  unfold note
  split
  next => rw [Std.TreeMap.getElem?_insert, if_neg hcompare]
  next => rw [Std.TreeMap.getElem?_insertIfNew, if_neg fun h => hcompare h.1]

theorem getElem?_note_self (hnew : lines[node.path.text]? = none) :
    (lines.note node)[node.path.text]? = some node.line := by
  unfold note
  split
  next => exact Std.TreeMap.getElem?_insert_self
  next =>
    have hfresh : node.path.text ∉ lines := by
      rw [Std.TreeMap.mem_iff_isSome_getElem?, hnew]
      exact Bool.false_ne_true
    rw [Std.TreeMap.getElem?_insertIfNew, if_pos ⟨by simp, hfresh⟩]

/-- An element is noted, then what stands in it, then what stands behind it. -/
theorem noteAll_element (steps : List PathStep) (position : Nat) (before mark : List Char)
    (inside others : List DocumentNode) :
    lines.noteAll (⟨steps ++ [.index position], before, mark⟩ :: (inside ++ others)) =
      noteAll (noteAll (lines.insertIfNew ((SourcePath.ofSteps steps).element position).text
        (lineAfter before)) inside) others := by
  have hnote : lines.note ⟨steps ++ [.index position], before, mark⟩ =
      lines.insertIfNew (SourcePath.ofSteps (steps ++ [.index position])).text
        (lineAfter before) := by
    rw [note, List.getLast?_concat]
    rfl
  rw [noteAll, List.foldl_cons, ← noteAll, hnote, noteAll_append, SourcePath.ofSteps_concat]
  rfl

theorem noteAll_member (steps : List PathStep) (name : String) (before mark : List Char)
    (inside others : List DocumentNode) :
    lines.noteAll (⟨steps ++ [.key name], before, mark⟩ :: (inside ++ others)) =
      noteAll (noteAll (lines.insert ((SourcePath.ofSteps steps).member name).text
        (lineAfter before)) inside) others := by
  have hnote : lines.note ⟨steps ++ [.key name], before, mark⟩ =
      lines.insert (SourcePath.ofSteps (steps ++ [.key name])).text (lineAfter before) := by
    rw [note, List.getLast?_concat]
    rfl
  rw [noteAll, List.foldl_cons, ← noteAll, hnote, noteAll_append, SourcePath.ofSteps_concat]
  rfl

/-- A path that no node has is looked up as before. -/
theorem getElem?_noteAll_of_forall_ne (hne : ∀ node ∈ nodes, node.path.text ≠ key) :
    (lines.noteAll nodes)[key]? = lines[key]? := by
  induction nodes generalizing lines with
  | nil => rfl
  | cons node rest ih =>
      obtain ⟨hnode, hrest⟩ := List.forall_mem_cons.1 hne
      exact (ih hrest).trans (getElem?_note_of_ne hnode)

/-- Nodes of different paths that are new are all found. -/
theorem getElem?_noteAll_of_mem
    (hnodup : (nodes.map fun node => node.path.text).Nodup)
    (hnew : ∀ node ∈ nodes, lines[node.path.text]? = none) (hmem : node ∈ nodes) :
    (lines.noteAll nodes)[node.path.text]? = some node.line := by
  induction nodes generalizing lines with
  | nil => cases hmem
  | cons first rest ih =>
      obtain ⟨hfirst, hrest⟩ := List.nodup_cons.1 hnodup
      have hapart (other : DocumentNode) (hother : other ∈ rest) :
          other.path.text ≠ first.path.text := fun hsame =>
        hfirst (List.mem_map.2 ⟨other, hother, hsame⟩)
      obtain ⟨hnewFirst, hnewRest⟩ := List.forall_mem_cons.1 hnew
      rcases List.mem_cons.1 hmem with rfl | hlater
      · exact (getElem?_noteAll_of_forall_ne hapart).trans (getElem?_note_self hnewFirst)
      · refine ih hrest (fun other hother => ?_) hlater
        rw [getElem?_note_of_ne (hapart other hother).symm]
        exact hnewRest other hother

end LineTable

/-! ### Passing texts -/

theorem lineAfter_append (before text : List Char) :
    lineAfter (before ++ text) = lineAfter before + text.count '\n' := by
  rw [lineAfter, lineAfter, List.count_append, Nat.add_assoc]

namespace ScanPoint

/-- The point behind a text. -/
def behind (before rest : List Char) (lines : LineTable) : ScanPoint :=
  ⟨rest, lineAfter before, lines⟩

variable {before rest : List Char} {lines : LineTable}

theorem lineBehind_lineAfter (before : List Char) (c : Char) :
    lineBehind (lineAfter before) c = lineAfter (before ++ [c]) := by
  rw [lineAfter_append, lineBehind]
  split
  next hnewline => rw [hnewline]; rfl
  next hother => rw [List.count_singleton, if_neg (by simpa using hother), Nat.add_zero]

theorem recordValue_behind (path : SourcePath) : (behind before rest lines).recordValue path =
    behind before rest (lines.insertIfNew path.text (lineAfter before)) := rfl

theorem recordKey_behind (path : SourcePath) (line : Nat) :
    (behind before rest lines).recordKey path line =
      behind before rest (lines.insert path.text line) := rfl

theorem bump_behind (c : Char) :
    (behind before (c :: rest) lines).bump = behind (before ++ [c]) rest lines :=
  congrArg (ScanPoint.mk rest · lines) (lineBehind_lineAfter before c)

/-- What belongs to what is passed can be passed first. -/
theorem pass_append {belongs : Char → Bool} {text : List Char}
    (htext : ∀ c ∈ text, belongs c = true) :
    (behind before (text ++ rest) lines).pass belongs =
      (behind (before ++ text) rest lines).pass belongs := by
  induction text generalizing before with
  | nil => rw [List.append_nil, List.nil_append]
  | cons c text ih =>
      obtain ⟨hc, htext⟩ := List.forall_mem_cons.1 htext
      have hpass : (behind before (c :: text ++ rest) lines).pass belongs =
          (behind before (c :: text ++ rest) lines).bump.pass belongs :=
        pass_of_head rfl hc
      rw [hpass, List.cons_append, bump_behind, ih htext, List.append_assoc, List.singleton_append]

theorem pass_stops {belongs : Char → Bool}
    (hrest : ∀ c, rest.head? = some c → belongs c = false) :
    (behind before rest lines).pass belongs = behind before rest lines := by
  cases rest with
  | nil => rfl
  | cons c rest =>
      have hc : belongs c = false := hrest c rfl
      rw [pass, behind, passFrom, hc]
      rfl

theorem isBlank_of_isSpace {c : Char} (hspace : Json.Cursor.isSpace c = true) :
    Text.isBlank c = true := by
  simp only [Json.Cursor.isSpace, Bool.or_eq_true, beq_iff_eq] at hspace
  obtain ((rfl | rfl) | rfl) | rfl := hspace <;> decide

theorem skipBlank_gap (gap : Gap) : (behind before (gap.chars ++ rest) lines).skipBlank =
    (behind (before ++ gap.chars) rest lines).skipBlank :=
  pass_append fun c hc => isBlank_of_isSpace (gap.space c hc)

theorem skipBlank_stops {c : Char} (hblank : Text.isBlank c = false) :
    (behind before (c :: rest) lines).skipBlank = behind before (c :: rest) lines :=
  pass_stops fun _ hc => Option.some.inj hc ▸ hblank

/-- Space is skipped up to a character that is none. -/
theorem skipBlank_to (gap : Gap) {c : Char} (hblank : Text.isBlank c = false) :
    (behind before (gap.chars ++ c :: rest) lines).skipBlank =
      behind (before ++ gap.chars) (c :: rest) lines := by
  rw [skipBlank_gap, skipBlank_stops hblank]

theorem bumpIf_behind (c : Char) : (behind before (c :: rest) lines).bumpIf c =
    behind (before ++ [c]) rest lines := by
  have hnext : (behind before (c :: rest) lines).rest.head? = some c := rfl
  rw [bumpIf, if_pos hnext, bump_behind]

/-- The colon behind a key is passed together with the space around it. -/
theorem pastColon_behind (colon space : Gap) {c : Char} (hblank : Text.isBlank c = false) :
    (behind before (colon.chars ++ ':' :: (space.chars ++ c :: rest)) lines).pastColon =
      behind (before ++ colon.chars ++ [':'] ++ space.chars) (c :: rest) lines := by
  rw [pastColon, skipBlank_to colon rfl, bumpIf_behind, skipBlank_to space hblank]

/-- A string is read to its last quote. -/
theorem quoted_behind (string : WrittenString) :
    (behind before (string.text ++ rest) lines).quoted =
      (string.inner, behind (before ++ string.text) rest lines) := by
  -- By induction on the parts of the string, which are behind its opening quote.
  have hparts (parts : List StringPart) (before : List Char) :
      quotedFrom lines (parts.flatMap StringPart.text ++ '"' :: rest) (lineAfter before) =
        (parts.flatMap StringPart.text,
          behind (before ++ parts.flatMap StringPart.text ++ ['"']) rest lines) := by
    induction parts generalizing before with
    | nil =>
        have hquote : lineAfter (before ++ ['"']) = lineAfter before := by
          rw [lineAfter_append]
          rfl
        rw [List.flatMap_nil, List.nil_append, List.append_nil, behind, hquote]
        simp only [quotedFrom]
    | cons part parts ih =>
        cases part with
        | plain c hquote hslash =>
            have hread (rest : List Char) : quotedFrom lines (c :: rest) (lineAfter before) =
                (c :: (quotedFrom lines rest (lineAfter (before ++ [c]))).1,
                  (quotedFrom lines rest (lineAfter (before ++ [c]))).2) := by
              rw [← lineBehind_lineAfter, quotedFrom]
              · exact fun heq _ => hslash heq
              · exact hquote
              · exact fun _ _ heq _ => hslash heq
            rw [List.flatMap_cons, StringPart.text, List.append_assoc, List.singleton_append,
              hread, ih]
            simp
        | escape c =>
            have hread (rest : List Char) :
                quotedFrom lines ('\\' :: c :: rest) (lineAfter before) =
                  ('\\' :: c :: (quotedFrom lines rest (lineAfter (before ++ ['\\', c]))).1,
                    (quotedFrom lines rest (lineAfter (before ++ ['\\', c]))).2) := by
              have hline : lineAfter (before ++ ['\\', c]) = lineBehind (lineAfter before) c := by
                rw [lineBehind_lineAfter, lineAfter_append, lineAfter_append, List.count_cons]
                simp
              rw [hline]
              simp only [quotedFrom]
            rw [List.flatMap_cons, StringPart.text, List.append_assoc, List.cons_append,
              List.singleton_append, hread, ih]
            simp
  rw [quoted, WrittenString.text, List.cons_append, bump_behind, List.append_assoc,
    List.singleton_append]
  refine (hparts string.parts (before ++ ['"'])).trans ?_
  simp [WrittenString.inner]

/-- Characters of scalars are printable. -/
theorem toNat_of_inScalar {c : Char} (hc : inScalar c = true) : 33 ≤ c.toNat ∧ c.toNat < 128 := by
  have hletters : (scalarLetters.all fun c => 33 ≤ c.toNat && c.toNat < 128) = true := rfl
  rcases Bool.or_eq_true_iff.1 hc with hdigit | hletter
  · simp only [Char.isDigit, Bool.and_eq_true, decide_eq_true_eq, UInt32.le_iff_toNat_le,
      ge_iff_le] at hdigit
    change 48 ≤ c.toNat ∧ c.toNat ≤ 57 at hdigit
    omega
  · have hrange := List.all_eq_true.1 hletters c (List.contains_iff_mem.1 hletter)
    simpa using hrange

theorem not_endsScalar_of_inScalar {c : Char} (hc : inScalar c = true) :
    LineScan.endsScalar c = false := by
  have hblank : Text.isBlank c = false := by
    have hprintable := toNat_of_inScalar hc
    have hranges : ∀ range ∈ Text.blankRanges, range.2 < 33 ∨ 128 ≤ range.1 := by decide
    refine List.any_eq_false.2 fun range hrange => ?_
    have hapart := hranges range hrange
    rw [Bool.and_eq_true, decide_eq_true_eq, decide_eq_true_eq]
    omega
  have hcomma : c ≠ ',' := ne_of_inScalar hc rfl
  have hbrace : c ≠ '}' := ne_of_inScalar hc rfl
  have hbracket : c ≠ ']' := ne_of_inScalar hc rfl
  simp [LineScan.endsScalar, hblank, hcomma, hbrace, hbracket]

/-- A scalar is read up to a character that ends it. -/
theorem scalar_behind (token : WrittenScalar)
    (hrest : ∀ c, rest.head? = some c → LineScan.endsScalar c = true) :
    (behind before (token.chars ++ rest) lines).scalar =
      behind (before ++ token.chars) rest lines := by
  have hbelongs (c : Char) (hc : c ∈ token.chars) : (!LineScan.endsScalar c) = true := by
    rw [not_endsScalar_of_inScalar (token.plain c hc)]
    rfl
  obtain ⟨first, chars, hchars⟩ := List.exists_cons_of_ne_nil token.nonempty
  have hfirst : LineScan.endsScalar first = false :=
    not_endsScalar_of_inScalar (token.plain first (hchars ▸ List.mem_cons_self))
  have hhead : (behind before (token.chars ++ rest) lines).rest.head? = some first := by
    rw [hchars]
    rfl
  rw [scalar, hhead, Option.any_some, hfirst, if_neg Bool.false_ne_true, pass_append hbelongs]
  exact pass_stops fun c hc => by rw [hrest c hc]; rfl

end ScanPoint

/-! ### Scanning documents -/

section Calls

open ScanPoint

variable {path : SourcePath} {point other after : ScanPoint}

/-- Where the space ends is all that matters. -/
theorem ScansMembers.of_skipBlank (hskip : point.skipBlank = other.skipBlank)
    (h : ScansMembers path other after) : ScansMembers path point after := by
  cases h with
  | close hnext => exact hskip ▸ .close (hskip ▸ hnext)
  | ended hend => exact hskip ▸ .ended (hskip ▸ hend)
  | stray hnext hclose hkey h => exact .stray (hskip ▸ hnext) hclose hkey (hskip ▸ h)
  | member hnext hplace hvalue h =>
      exact .member (hskip ▸ hnext) (hskip ▸ hplace) (hskip ▸ hvalue) h

theorem ScansElements.of_skipBlank {position : Nat} (hskip : point.skipBlank = other.skipBlank)
    (h : ScansElements path position other after) : ScansElements path position point after := by
  cases h with
  | close hnext => exact hskip ▸ .close (hskip ▸ hnext)
  | ended hend => exact hskip ▸ .ended (hskip ▸ hend)
  | comma hnext h => exact .comma (hskip ▸ hnext) (hskip ▸ h)
  | element hnext hclose hcomma hvalue h =>
      exact .element (hskip ▸ hnext) hclose hcomma (hskip ▸ hvalue) h

end Calls

/-- A character that values begin with. -/
structure BeginsValue (c : Char) : Prop where
  blank : Text.isBlank c = false
  bracket : c ≠ ']'
  comma : c ≠ ','

theorem beginsValue_of_inScalar {c : Char} (hc : inScalar c = true) : BeginsValue c := by
  have hends := ScanPoint.not_endsScalar_of_inScalar hc
  simp only [LineScan.endsScalar, Bool.or_eq_false_iff, beq_eq_false_iff_ne] at hends
  exact ⟨hends.2, hends.1.2, hends.1.1.1⟩

theorem WrittenValue.exists_first (value : WrittenValue) :
    ∃ c rest, value.text = c :: rest ∧ BeginsValue c := by
  cases value with
  | scalar token =>
      obtain ⟨c, rest, hchars⟩ := List.exists_cons_of_ne_nil token.nonempty
      exact ⟨c, rest, hchars,
        beginsValue_of_inScalar (token.plain c (hchars ▸ List.mem_cons_self))⟩
  | string string => exact ⟨_, _, rfl, by decide, by decide, by decide⟩
  | array elements => exact ⟨_, _, rfl, by decide, by decide, by decide⟩
  | object members => exact ⟨_, _, rfl, by decide, by decide, by decide⟩

/-- Behind a value stands a character that ends scalars. -/
theorem endsScalar_gap (gap : Gap) {rest : List Char}
    (hrest : ∀ c, rest.head? = some c → LineScan.endsScalar c = true) :
    ∀ c, (gap.chars ++ rest).head? = some c → LineScan.endsScalar c = true := by
  obtain ⟨chars, hspace⟩ := gap
  intro c hc
  cases chars with
  | nil => exact hrest c hc
  | cons first chars =>
      cases hc
      have hblank := ScanPoint.isBlank_of_isSpace (hspace c List.mem_cons_self)
      simp [LineScan.endsScalar, hblank]

theorem WrittenElements.endsScalar_behind (elements : WrittenElements) (rest : List Char) :
    ∀ c, (elements.comma ++ (elements.text ++ ']' :: rest)).head? = some c →
      LineScan.endsScalar c = true := by
  cases elements with
  | none gap => exact endsScalar_gap gap fun c hc => by cases hc; rfl
  | more => exact fun c hc => by cases hc; rfl

theorem WrittenMembers.endsScalar_behind (members : WrittenMembers) (rest : List Char) :
    ∀ c, (members.comma ++ (members.text ++ '}' :: rest)).head? = some c →
      LineScan.endsScalar c = true := by
  cases members with
  | none gap => exact endsScalar_gap gap fun c hc => by cases hc; rfl
  | more => exact fun c hc => by cases hc; rfl

section Documents

open ScanPoint SourcePath

/-- Behind an element the loop goes on with what stands behind the comma. -/
theorem WrittenElements.scans_behind (elements : WrittenElements) (gap : Gap)
    {before rest : List Char} {lines : LineTable} {path : SourcePath} {position : Nat}
    {after : ScanPoint}
    (h : ScansElements path position (behind (before ++ gap.chars ++ elements.comma)
      (elements.text ++ ']' :: rest) lines) after) :
    ScansElements path position (behind before
      (gap.chars ++ (elements.comma ++ (elements.text ++ ']' :: rest))) lines) after := by
  refine .of_skipBlank (skipBlank_gap gap) ?_
  cases elements with
  | none last =>
      rw [comma, List.append_nil] at h
      exact h
  | more =>
      rw [comma, List.singleton_append]
      have hskip (more : List Char) : (behind (before ++ gap.chars) (',' :: more) lines).skipBlank =
          behind (before ++ gap.chars) (',' :: more) lines := skipBlank_stops rfl
      refine .comma (congrArg (·.rest.head?) (hskip _)) ?_
      rw [hskip, bump_behind]
      exact h

theorem WrittenMembers.scans_behind (members : WrittenMembers) (gap : Gap)
    {before rest : List Char} {lines : LineTable} {path : SourcePath} {after : ScanPoint}
    (h : ScansMembers path (behind (before ++ gap.chars ++ members.comma)
      (members.text ++ '}' :: rest) lines) after) :
    ScansMembers path (behind before
      (gap.chars ++ (members.comma ++ (members.text ++ '}' :: rest))) lines).pastComma after := by
  rw [pastComma]
  cases members with
  | none last =>
      have hskip : (behind (before ++ gap.chars) (last.chars ++ '}' :: rest) lines).skipBlank =
          behind (before ++ gap.chars ++ last.chars) ('}' :: rest) lines := skipBlank_to last rfl
      rw [comma, List.append_nil] at h
      have hnext : (behind (before ++ gap.chars ++ last.chars) ('}' :: rest) lines).rest.head? =
          some '}' := rfl
      rw [comma, List.nil_append, skipBlank_gap, text, hskip, bumpIf, hnext, if_neg (by decide)]
      exact h.of_skipBlank ((skipBlank_stops rfl).trans hskip.symm)
  | more =>
      rw [comma, List.singleton_append, skipBlank_to gap rfl, bumpIf_behind]
      exact h

/-- A key is read from the space in front of it to the value behind it. -/
theorem ScansMembers.behind_key {path : SourcePath} {before rest : List Char} {lines : LineTable}
    {between after : ScanPoint} (gap : Gap) (key : WrittenString) (colon space : Gap)
    (value : WrittenValue)
    (hvalue : ScansValue (path.member (String.ofList key.inner))
      (behind (before ++ gap.chars ++ key.text ++ colon.chars ++ [':'] ++ space.chars)
        (value.text ++ rest)
        (lines.insert (path.member (String.ofList key.inner)).text
          (lineAfter (before ++ gap.chars)))) between)
    (h : ScansMembers path between.pastComma after) :
    ScansMembers path (behind before (gap.chars ++ (key.text ++ (colon.chars ++ ':' ::
      (space.chars ++ (value.text ++ rest))))) lines) after := by
  obtain ⟨c, chars, hfirst, hbegins⟩ := value.exists_first
  rw [hfirst, List.cons_append] at hvalue ⊢
  have hskip (inside : List Char) :
      (behind before (gap.chars ++ (key.text ++ inside)) lines).skipBlank =
        behind (before ++ gap.chars) (key.text ++ inside) lines := skipBlank_to gap rfl
  refine .member (congrArg (·.rest.head?) (hskip _)) rfl ?_ h
  rw [hskip, quoted_behind, recordKey_behind, pastColon_behind colon space hbegins.blank]
  exact hvalue

mutual

/-- The scanner reads a value to its end and notes the nodes inside of it. -/
theorem WrittenValue.scans (value : WrittenValue) (steps : List PathStep)
    (before rest : List Char) (lines : LineTable)
    (hrest : ∀ c, rest.head? = some c → LineScan.endsScalar c = true) :
    ScansValue (ofSteps steps) (behind before (value.text ++ rest) lines)
      (behind (before ++ value.text) rest
        (.noteAll (lines.insertIfNew (ofSteps steps).text (lineAfter before))
          (value.nodes steps before))) := by
  match value with
  -- Its first character is none that opens a string or a container.
  | .scalar token =>
      obtain ⟨c, chars, hchars⟩ := List.exists_cons_of_ne_nil token.nonempty
      have hc := token.plain c (hchars ▸ List.mem_cons_self)
      have hfirst : (behind before (token.chars ++ rest) lines).rest.head? = some c := by
        rw [hchars]
        rfl
      have h : ScansValue (ofSteps steps) (behind before (token.chars ++ rest) lines) _ :=
        .scalar hfirst (ne_of_inScalar hc rfl) (ne_of_inScalar hc rfl) (ne_of_inScalar hc rfl)
      rw [recordValue_behind, scalar_behind token hrest] at h
      exact h
  | .string string =>
      have h : ScansValue (ofSteps steps) (behind before (string.text ++ rest) lines) _ :=
        .string rfl
      rw [recordValue_behind, quoted_behind] at h
      exact h
  | .array elements =>
      have htext : (WrittenValue.array elements).text ++ rest =
          '[' :: (elements.text ++ ']' :: rest) := by simp [WrittenValue.text]
      have hbehind : before ++ (WrittenValue.array elements).text =
          before ++ ['['] ++ elements.text ++ [']'] := by simp [WrittenValue.text]
      rw [htext, hbehind]
      refine .array rfl (.opened ?_)
      rw [recordValue_behind, bump_behind]
      exact elements.scans steps 0 (before ++ ['[']) rest _
  | .object members =>
      have htext : (WrittenValue.object members).text ++ rest =
          '{' :: (members.text ++ '}' :: rest) := by simp [WrittenValue.text]
      have hbehind : before ++ (WrittenValue.object members).text =
          before ++ ['{'] ++ members.text ++ ['}'] := by simp [WrittenValue.text]
      rw [htext, hbehind]
      refine .object rfl (.opened ?_)
      rw [recordValue_behind, bump_behind]
      exact members.scans steps (before ++ ['{']) rest _

theorem WrittenElements.scans (elements : WrittenElements) (steps : List PathStep)
    (position : Nat) (before rest : List Char) (lines : LineTable) :
    ScansElements (ofSteps steps) position (behind before (elements.text ++ ']' :: rest) lines)
      (behind (before ++ elements.text ++ [']']) rest
        (lines.noteAll (elements.nodes steps position before))) := by
  match elements with
  | .none gap =>
      have hskip : (behind before (gap.chars ++ ']' :: rest) lines).skipBlank =
          behind (before ++ gap.chars) (']' :: rest) lines := skipBlank_to gap rfl
      have h : ScansElements (ofSteps steps) position _ _ := .close (congrArg (·.rest.head?) hskip)
      rw [hskip, bump_behind] at h
      exact h
  | .more gap value last others =>
      -- What follows the value: its gap, and the other elements with the comma before them.
      let tail := last.chars ++ (others.comma ++ (others.text ++ ']' :: rest))
      have htext : (WrittenElements.more gap value last others).text ++ ']' :: rest =
          gap.chars ++ (value.text ++ tail) := by simp [WrittenElements.text, tail]
      have hbehind : before ++ (WrittenElements.more gap value last others).text =
          before ++ gap.chars ++ value.text ++ last.chars ++ others.comma ++ others.text := by
        simp [WrittenElements.text]
      obtain ⟨c, chars, hfirst, hbegins⟩ := value.exists_first
      have hskip : (behind before (gap.chars ++ (value.text ++ tail)) lines).skipBlank =
          behind (before ++ gap.chars) (value.text ++ tail) lines := by
        rw [hfirst]
        exact skipBlank_to gap hbegins.blank
      have hvalue := value.scans (steps ++ [.index position]) (before ++ gap.chars) tail lines
        (endsScalar_gap last (others.endsScalar_behind rest))
      rw [ofSteps_concat] at hvalue
      rw [htext, hbehind, WrittenElements.nodes, LineTable.noteAll_element]
      refine .element (c := c) ?_ hbegins.bracket hbegins.comma (hskip ▸ hvalue) ?_
      · rw [hskip, hfirst]
        rfl
      · exact others.scans_behind last (others.scans steps (position + 1) _ rest _)

theorem WrittenMembers.scans (members : WrittenMembers) (steps : List PathStep)
    (before rest : List Char) (lines : LineTable) :
    ScansMembers (ofSteps steps) (behind before (members.text ++ '}' :: rest) lines)
      (behind (before ++ members.text ++ ['}']) rest
        (lines.noteAll (members.nodes steps before))) := by
  match members with
  | .none gap =>
      have hskip : (behind before (gap.chars ++ '}' :: rest) lines).skipBlank =
          behind (before ++ gap.chars) ('}' :: rest) lines := skipBlank_to gap rfl
      have h : ScansMembers (ofSteps steps) _ _ := .close (congrArg (·.rest.head?) hskip)
      rw [hskip, bump_behind] at h
      exact h
  | .more gap key colon space value last others =>
      let tail := last.chars ++ (others.comma ++ (others.text ++ '}' :: rest))
      have htext : (WrittenMembers.more gap key colon space value last others).text ++ '}' :: rest =
          gap.chars ++ (key.text ++ (colon.chars ++ ':' :: (space.chars ++
            (value.text ++ tail)))) := by simp [WrittenMembers.text, tail]
      have hbehind : before ++ (WrittenMembers.more gap key colon space value last others).text =
          before ++ gap.chars ++ key.text ++ colon.chars ++ [':'] ++ space.chars ++ value.text ++
            last.chars ++ others.comma ++ others.text := by simp [WrittenMembers.text]
      let place := (ofSteps steps).member (String.ofList key.inner)
      have hvalue := value.scans (steps ++ [.key (String.ofList key.inner)])
        (before ++ gap.chars ++ key.text ++ colon.chars ++ [':'] ++ space.chars) tail
        (lines.insert place.text (lineAfter (before ++ gap.chars)))
        (endsScalar_gap last (others.endsScalar_behind rest))
      -- The path is known from the key, so the value does not record it again.
      have hplace : ofSteps (steps ++ [.key (String.ofList key.inner)]) = place := ofSteps_concat ..
      rw [hplace, LineTable.insertIfNew_of_mem Std.TreeMap.mem_insert_self] at hvalue
      rw [htext, hbehind, WrittenMembers.nodes, LineTable.noteAll_member]
      refine .behind_key gap key colon space value hvalue ?_
      exact others.scans_behind last (others.scans steps _ rest _)

end

/-- The recorded lines of a document are those of its nodes. -/
theorem WrittenDocument.build_eq (document : WrittenDocument) {text : String}
    (htext : text.toList = document.text) :
    (LineIndex.build text).lines = LineTable.noteAll {} document.nodes := by
  have hskip : (ScanPoint.start text).skipBlank =
      behind document.leading.chars (document.value.text ++ document.trailing.chars) {} := by
    obtain ⟨c, chars, hfirst, hbegins⟩ := document.value.exists_first
    have hstart : ScanPoint.start text = behind [] document.text {} := by
      rw [ScanPoint.start, htext]
      rfl
    rw [hstart, WrittenDocument.text, hfirst]
    exact skipBlank_to document.leading hbegins.blank
  have hrest : ∀ c, (document.trailing.chars ++ []).head? = some c →
      LineScan.endsScalar c = true := endsScalar_gap document.trailing fun c hc => by cases hc
  rw [List.append_nil] at hrest
  have hscan := document.value.scans [] document.leading.chars document.trailing.chars {} hrest
  exact ScansValue.build_eq (hskip ▸ hscan)

variable {document : WrittenDocument} {text : String} {node : DocumentNode}

/-- In a clean document each node is found on its line. -/
theorem WrittenDocument.Clean.recorded (hclean : document.Clean)
    (htext : text.toList = document.text) (hmem : node ∈ document.nodes) :
    (LineIndex.build text).lines[node.path.text]? = some node.line := by
  have hnodup : ((document.nodes.map DocumentNode.steps).map fun steps =>
      (ofSteps steps).text).Nodup := by
    refine hclean.nodup.map_on fun steps hsteps others hothers hsame => ?_
    obtain ⟨first, hfirst, rfl⟩ := List.mem_map.1 hsteps
    obtain ⟨second, hsecond, rfl⟩ := List.mem_map.1 hothers
    exact ofSteps_injective (hclean.plain hfirst) (hclean.plain hsecond)
      (congrArg SourcePath.mk hsame)
  rw [List.map_map] at hnodup
  rw [document.build_eq htext]
  exact LineTable.getElem?_noteAll_of_mem hnodup (fun _ _ => Std.TreeMap.getElem?_emptyc) hmem

/-- At a plain path nothing is recorded unless it leads to a node. -/
theorem WrittenDocument.Clean.not_recorded (hclean : document.Clean)
    (htext : text.toList = document.text) {steps : List PathStep}
    (hplain : ∀ step ∈ steps, step.Plain) (hne : ∀ node ∈ document.nodes, node.steps ≠ steps) :
    (LineIndex.build text).lines[(ofSteps steps).text]? = none := by
  rw [document.build_eq htext]
  refine (LineTable.getElem?_noteAll_of_forall_ne fun node hmem hsame => ?_).trans
    Std.TreeMap.getElem?_emptyc
  exact hne node hmem
    (ofSteps_injective (hclean.plain hmem) hplain (congrArg SourcePath.mk hsame))

/-- Below a node the walk leads up to the node through paths at which nothing stands. -/
theorem WrittenDocument.Clean.lineOf_below (hclean : document.Clean)
    (htext : text.toList = document.text) (hmem : node ∈ document.nodes)
    {extension : List PathStep} (hplain : ∀ step ∈ extension, step.Plain)
    (hnone : ∀ first, first <+: extension → first ≠ [] →
      ∀ other ∈ document.nodes, other.steps ≠ node.steps ++ first) :
    (LineIndex.build text).lineOf (ofSteps (node.steps ++ extension)) = node.line := by
  induction extension using List.reverseRecOn with
  | nil =>
      rw [List.append_nil]
      exact LineIndex.lineOf_of_recorded _ (hclean.recorded htext hmem)
  | append_singleton first step ih =>
      obtain ⟨hfirst, hstep⟩ := List.forall_mem_append.1 hplain
      have hplainStep : step.Plain := hstep step List.mem_cons_self
      have hsteps : ∀ other ∈ node.steps ++ (first ++ [step]), other.Plain :=
        List.forall_mem_append.2 ⟨hclean.plain hmem, hplain⟩
      have hhere := hclean.not_recorded htext hsteps
        (hnone (first ++ [step]) List.prefix_rfl (by simp))
      rw [← List.append_assoc, ofSteps_concat] at hhere ⊢
      rw [LineIndex.lineOf_of_not_recorded _ hhere (child_ne_root hplainStep),
        parent_child hplainStep]
      exact ih hfirst fun more hmore hne => hnone more (hmore.trans (List.prefix_append _ _)) hne

end Documents

/-- Every text that can be read is a document. If the keys in a document, as they are written, are
not empty, mark no segments and are not repeated in one object, then the path of each node leads to
the line on which the mark of the node stands, and so does every plain path from there on down that
meets no other node. -/
theorem clean_documents_are_looked_up :
    (∀ (text : String) (value : Json), Json.parse text = .ok value →
      ∃ document : WrittenDocument, text.toList = document.text) ∧
    ∀ (document : WrittenDocument) (text : String), text.toList = document.text →
      document.Clean → ∀ node ∈ document.nodes,
        node.StandsIn text.toList ∧
        (LineIndex.build text).lineOf node.path = node.line ∧
        ∀ extension : List PathStep, extension ≠ [] → (∀ step ∈ extension, step.Plain) →
          (∀ first, first <+: extension → first ≠ [] →
            ∀ other ∈ document.nodes, other.steps ≠ node.steps ++ first) →
          (LineIndex.build text).lineOf (.ofSteps (node.steps ++ extension)) = node.line := by
  refine ⟨fun _ _ => Json.exists_document, fun document text htext hclean node hmem => ?_⟩
  refine ⟨htext ▸ WrittenDocument.standsIn_of_mem_nodes hmem,
    LineIndex.lineOf_of_recorded _ (hclean.recorded htext hmem), ?_⟩
  exact fun _ _ hplain hnone => hclean.lineOf_below htext hmem hplain hnone

/-- A document with a string that holds a quote and a bracket. -/
def quotedBracket : WrittenDocument where
  leading := .empty
  value := .object (.more ⟨['\n', ' '], List.all_eq_true.1 rfl⟩
    ⟨[.plain 'a' (by decide) (by decide)]⟩ .empty ⟨[' '], List.all_eq_true.1 rfl⟩
    (.array (.more .empty (.scalar ⟨['1'], List.cons_ne_nil _ _, List.all_eq_true.1 rfl⟩) .empty
      (.more ⟨['\n'], List.all_eq_true.1 rfl⟩
        (.object (.more .empty ⟨[.plain 'b' (by decide) (by decide)]⟩ .empty .empty
          (.string ⟨[.escape '"', .plain ']' (by decide) (by decide)]⟩) .empty (.none .empty)))
        .empty (.none .empty))))
    ⟨['\n'], List.all_eq_true.1 rfl⟩ (.none .empty))
  trailing := .empty

def quotedBracketText : String := "\x7b\n \"a\": [1,\n\x7b\"b\":\"\\\"]\"\x7d]\n\x7d"

/-- The member of the element stands on the third line, and so does all that could be below it. -/
theorem quotedBracket_looked_up : quotedBracketText.toList = quotedBracket.text ∧
    quotedBracket.Clean ∧ (LineIndex.build quotedBracketText).lineOf ⟨"a[1].b"⟩ = 3 ∧
    (LineIndex.build quotedBracketText).lineOf ⟨"a[1].b.c[4]"⟩ = 3 := by
  have htext : quotedBracketText.toList = quotedBracket.text := by decide +kernel
  have hplain (c : Char) (hc : marksSegments c = false) :
      (PathStep.key (String.ofList [c])).Plain :=
    ⟨by simp, by simpa [PathStep.Plain] using hc⟩
  have hclean : quotedBracket.Clean :=
    ⟨List.nodup_singleton _, hplain 'a' rfl,
      ⟨trivial, ⟨List.nodup_singleton _, hplain 'b' rfl, trivial, trivial⟩, trivial⟩, trivial⟩
  let steps : List PathStep := [.key "a", .index 1, .key "b"]
  let node : DocumentNode := ⟨steps, "\x7b\n \"a\": [1,\n\x7b".toList, "\"b\"".toList⟩
  have hmem : node ∈ quotedBracket.nodes := by decide +kernel
  obtain ⟨-, hlookup⟩ := clean_documents_are_looked_up
  obtain ⟨-, hnode, hbelow⟩ := hlookup quotedBracket quotedBracketText htext hclean node hmem
  refine ⟨htext, hclean, hnode, hbelow [.key "c", .index 4] (List.cons_ne_nil _ _) ?_ ?_⟩
  · exact List.forall_mem_cons.2 ⟨hplain 'c' rfl, List.forall_mem_singleton.2 trivial⟩
  · intro first _ hne other hother hsame
    have hdepth : (quotedBracket.nodes.all fun other => other.steps.length ≤ steps.length) = true :=
      by decide +kernel
    have hlength : steps.length + first.length ≤ steps.length := by
      rw [← List.length_append]
      exact hsame ▸ of_decide_eq_true (List.all_eq_true.1 hdepth other hother)
    exact hne (List.length_eq_zero_iff.1 (by omega))

end DocScript
