import Mathlib.Data.List.TakeWhile
import DocScript.Json.Reader
import DocScript.Proofs.Source.WrittenDocument

/-! # What can be read is a document

Whatever a reader takes off the front of a text is written as the grammar of documents says. So each
text that can be read is a document, its space, strings and scalars being those that were passed.
-/

namespace DocScript.Json

/-- If two steps succeed, both do. -/
theorem exists_of_bind_eq_ok {first : Except ε α} {next : α → Except ε β} {result : β}
    (h : first >>= next = .ok result) : ∃ found, first = .ok found ∧ next found = .ok result := by
  cases first with
  | error fault => cases h
  | ok found => exact ⟨found, rfl, h⟩

/-! ### Scalars -/

/-- From the first cursor to the second only characters of scalars were passed. -/
def Cursor.PassesScalar (before after : Cursor) : Prop :=
  ∃ text, before.rest = text ++ after.rest ∧ ∀ c ∈ text, inScalar c = true

theorem inScalar_of_isDigit {c : Char} (hc : c.isDigit = true) : inScalar c = true := by
  rw [inScalar, hc, Bool.true_or]

theorem takeWhile_append_drop (belongs : Char → Bool) (text : List Char) :
    text.takeWhile belongs ++ text.drop (text.takeWhile belongs).length = text :=
  List.prefix_iff_eq_append.1 (List.takeWhile_prefix belongs)

namespace Cursor.PassesScalar

variable {before middle after cursor : Cursor} {c : Char} {rest : List Char}

theorem refl (cursor : Cursor) : cursor.PassesScalar cursor :=
  ⟨[], rfl, List.forall_mem_nil _⟩

theorem trans (hfirst : before.PassesScalar middle) (hsecond : middle.PassesScalar after) :
    before.PassesScalar after := by
  obtain ⟨first, hfirst, hplain⟩ := hfirst
  obtain ⟨second, hsecond, hothers⟩ := hsecond
  exact ⟨first ++ second, by rw [hfirst, hsecond, List.append_assoc],
    List.forall_mem_append.2 ⟨hplain, hothers⟩⟩

theorem past (hrest : cursor.rest = c :: rest) (hc : inScalar c = true) :
    cursor.PassesScalar (cursor.past c rest) :=
  ⟨[c], hrest, List.forall_mem_singleton.2 hc⟩

theorem digits (cursor : Cursor) : cursor.PassesScalar cursor.digits.2 :=
  ⟨cursor.rest.takeWhile Char.isDigit, (takeWhile_append_drop ..).symm,
    fun _ hc => inScalar_of_isDigit (List.mem_takeWhile_imp hc)⟩

end Cursor.PassesScalar

/-- Beyond that, at least one character was passed. -/
def Cursor.TakesScalar (before after : Cursor) : Prop :=
  ∃ c rest, before.rest = c :: rest ∧ inScalar c = true ∧
    (before.past c rest).PassesScalar after

namespace Cursor.TakesScalar

variable {before middle after cursor : Cursor}

theorem trans (hfirst : before.TakesScalar middle) (hsecond : middle.PassesScalar after) :
    before.TakesScalar after := by
  obtain ⟨c, rest, hrest, hc, hpasses⟩ := hfirst
  exact ⟨c, rest, hrest, hc, hpasses.trans hsecond⟩

theorem passes (h : before.TakesScalar after) : before.PassesScalar after := by
  obtain ⟨c, rest, hrest, hc, hpasses⟩ := h
  exact (PassesScalar.past hrest hc).trans hpasses

theorem digits (h : cursor.digits.1 ≠ []) : cursor.TakesScalar cursor.digits.2 := by
  obtain ⟨c, more, hdigits⟩ := List.exists_cons_of_ne_nil h
  obtain ⟨hc, hmore⟩ := List.forall_mem_cons.1 fun first (hfirst : first ∈ c :: more) =>
    inScalar_of_isDigit (List.mem_takeWhile_imp (hdigits ▸ hfirst))
  have hrest : cursor.digits.1 ++ cursor.digits.2.rest = cursor.rest := takeWhile_append_drop ..
  rw [hdigits] at hrest
  exact ⟨c, _, hrest.symm, hc, more, rfl, hmore⟩

/-- What was taken is a value. -/
theorem written (h : before.TakesScalar after) :
    ∃ written : WrittenValue, before.rest = written.text ++ after.rest := by
  obtain ⟨c, rest, hrest, hc, text, htext, hplain⟩ := h
  refine ⟨.scalar ⟨c :: text, List.cons_ne_nil _ _, List.forall_mem_cons.2 ⟨hc, hplain⟩⟩, ?_⟩
  exact hrest.trans (congrArg (c :: ·) htext)

end Cursor.TakesScalar

open Cursor

variable {cursor after : Cursor} {value : Json}

theorem Decimal.passes_toFloat {decimal : Decimal} {negative : Bool}
    (h : decimal.toFloat negative cursor = .ok (value, after)) : cursor.PassesScalar after := by
  unfold Decimal.toFloat at h
  split at h
  next => cases h; exact .refl _
  next => cases h

theorem passes_wholeNumber {decimal : Decimal} {negative : Bool}
    (h : wholeNumber decimal negative cursor = .ok (value, after)) :
    cursor.PassesScalar after := by
  unfold wholeNumber at h
  extract_lets number at h
  split at h
  next => cases h; exact .refl _
  next => exact decimal.passes_toFloat h

/-- The cursor behind the digits of an exponent. -/
def WrittenExponent.behind : WrittenExponent → Cursor
  | .value _ cursor | .beyond cursor => cursor

theorem passes_exponentDigits (value offset start : Nat) (rest : List Char) :
    (Cursor.mk rest start).PassesScalar (exponentDigits value offset rest).behind := by
  induction rest generalizing value offset start with
  | nil => exact .refl _
  | cons c rest ih =>
      unfold exponentDigits
      split
      next hdigit =>
        have hpast : (Cursor.mk (c :: rest) start).PassesScalar ⟨rest, offset + 1⟩ :=
          ⟨[c], rfl, List.forall_mem_singleton.2 (inScalar_of_isDigit hdigit)⟩
        dsimp only
        split
        next => exact hpast
        next => exact hpast.trans (ih ..)
      next => exact ⟨[], rfl, List.forall_mem_nil _⟩

theorem passes_readExponent {decimal : Decimal} {negative : Bool}
    (h : readExponent decimal negative cursor = .ok (value, after)) :
    cursor.PassesScalar after := by
  unfold readExponent at h
  split at h
  next down behind hsigned =>
    have hsign : cursor.PassesScalar behind := by
      split at hsigned
      next rest hrest => cases hsigned; exact .past hrest rfl
      next rest hrest => cases hsigned; exact .past hrest rfl
      next => cases hsigned; exact .refl _
    split at h
    next => cases h
    next c rest hrest =>
      split at h
      next hdigit =>
        have hfirst : behind.PassesScalar ⟨rest, behind.offset + 1⟩ :=
          ⟨[c], hrest, List.forall_mem_singleton.2 (inScalar_of_isDigit hdigit)⟩
        have hdigits := passes_exponentDigits (digitValue c) (behind.offset + 1)
          (behind.offset + 1) rest
        split at h
        next heq =>
          rw [heq] at hdigits
          exact ((hsign.trans hfirst).trans hdigits).trans (Decimal.passes_toFloat h)
        next heq =>
          rw [heq] at hdigits
          split at h
          next => cases h; exact ((hsign.trans hfirst).trans hdigits).trans (.digits _)
          next => cases h
      next => cases h

theorem passes_readFraction {decimal : Decimal} {negative : Bool}
    (h : readFraction decimal negative cursor = .ok (value, after)) :
    cursor.PassesScalar after := by
  have hdigits := PassesScalar.digits cursor
  unfold readFraction at h
  split at h
  next => cases h
  next digits behind _ heq =>
    rw [heq] at hdigits
    dsimp only at h hdigits
    split at h
    next rest hrest => exact (hdigits.trans (.past hrest rfl)).trans (passes_readExponent h)
    next rest hrest => exact (hdigits.trans (.past hrest rfl)).trans (passes_readExponent h)
    next => exact hdigits.trans (Decimal.passes_toFloat h)

theorem takes_readUnsigned {negative : Bool}
    (h : readUnsigned negative cursor = .ok (value, after)) : cursor.TakesScalar after := by
  unfold readUnsigned at h
  split at h
  next => split at h <;> cases h
  next => cases h
  next digits behind hnonempty _ heq =>
    have hdigits : cursor.TakesScalar behind := by
      have htakes : cursor.digits.1 ≠ [] → cursor.TakesScalar cursor.digits.2 :=
        TakesScalar.digits
      rw [heq] at htakes
      exact htakes hnonempty
    dsimp only at h
    split at h
    next rest hrest =>
      exact hdigits.trans ((PassesScalar.past hrest rfl).trans (passes_readFraction h))
    next rest hrest =>
      exact hdigits.trans ((PassesScalar.past hrest rfl).trans (passes_readExponent h))
    next rest hrest =>
      exact hdigits.trans ((PassesScalar.past hrest rfl).trans (passes_readExponent h))
    next => exact hdigits.trans (passes_wholeNumber h)

theorem takes_readNumber (h : readNumber cursor = .ok (value, after)) :
    cursor.TakesScalar after := by
  unfold readNumber at h
  split at h
  next rest hrest => exact ⟨_, rest, hrest, rfl, (takes_readUnsigned h).passes⟩
  next => exact takes_readUnsigned h

/-- A literal is read letter by letter. -/
theorem passes_expectLetters {letters : List Char} (hletters : ∀ c ∈ letters, inScalar c = true)
    (h : cursor.expectLetters letters = .ok after) : cursor.PassesScalar after := by
  induction letters generalizing cursor with
  | nil =>
      cases h
      exact .refl _
  | cons letter letters ih =>
      obtain ⟨hletter, hothers⟩ := List.forall_mem_cons.1 hletters
      unfold expectLetters at h
      split at h
      next => cases h
      next c rest hrest =>
        split at h
        next heq => exact (PassesScalar.past hrest (heq ▸ hletter)).trans (ih hothers h)
        next => cases h

/-! ### Strings -/

theorem plain_of_hexDigit {c : Char} {digit : Nat} (h : hexDigit? c = some digit) :
    c ≠ '"' ∧ c ≠ '\\' := by
  constructor
  · rintro rfl
    cases h
  · rintro rfl
    cases h

/-- Characters of which each is a digit stand for themselves in a string. -/
theorem exists_parts_of_digits {text : List Char} {digits : List Nat}
    (h : text.mapM hexDigit? = some digits) :
    ∃ parts : List StringPart, text = parts.flatMap StringPart.text := by
  induction text generalizing digits with
  | nil => exact ⟨[], rfl⟩
  | cons c text ih =>
      rw [List.mapM_cons] at h
      obtain ⟨digit, hdigit, hrest⟩ := Option.bind_eq_some_iff.1 h
      obtain ⟨others, hothers, -⟩ := Option.bind_eq_some_iff.1 hrest
      obtain ⟨parts, rfl⟩ := ih hothers
      obtain ⟨hquote, hslash⟩ := plain_of_hexDigit hdigit
      exact ⟨.plain c hquote hslash :: parts, rfl⟩

theorem parts_of_readHex {number : Nat} (h : readHex cursor = .ok (number, after)) :
    ∃ parts : List StringPart, cursor.rest = parts.flatMap StringPart.text ++ after.rest := by
  unfold readHex at h
  dsimp only at h
  split at h
  next => cases h
  next =>
    split at h
    next digits hdigits =>
      cases h
      obtain ⟨parts, hparts⟩ := exists_parts_of_digits hdigits
      exact ⟨parts, by rw [← hparts, List.take_append_drop]⟩
    next => cases h

theorem parts_of_readLowSurrogate {high : Nat} {c : Char}
    (h : readLowSurrogate high cursor = .ok (c, after)) :
    ∃ parts : List StringPart, cursor.rest = parts.flatMap StringPart.text ++ after.rest := by
  unfold readLowSurrogate at h
  split at h
  next rest hrest =>
    dsimp only at h
    split at h
    next digits hdigits =>
      obtain ⟨⟨low, behind⟩, hhex, h⟩ := exists_of_bind_eq_ok h
      dsimp only at h
      split at h
      next =>
        obtain ⟨-, rfl⟩ := Prod.mk.inj (Except.ok.inj h)
        obtain ⟨parts, hparts⟩ := parts_of_readHex hhex
        have hescape : rest = 'u' :: digits := hdigits
        refine ⟨.escape 'u' :: parts, ?_⟩
        rw [hrest, hescape]
        exact congrArg ('\\' :: 'u' :: ·) hparts
      next => cases h
    next => cases h
    next => cases h
  next => cases h
  next => cases h

theorem parts_of_readUnicode {c : Char} (h : readUnicode cursor = .ok (c, after)) :
    ∃ parts : List StringPart, cursor.rest = parts.flatMap StringPart.text ++ after.rest := by
  unfold readUnicode at h
  obtain ⟨⟨unit, behind⟩, hhex, h⟩ := exists_of_bind_eq_ok h
  obtain ⟨parts, hparts⟩ := parts_of_readHex hhex
  dsimp only at h
  split at h
  next => cases h
  next =>
    split at h
    next =>
      obtain ⟨others, hothers⟩ := parts_of_readLowSurrogate h
      exact ⟨parts ++ others, by rw [hparts, hothers, List.flatMap_append, List.append_assoc]⟩
    next =>
      cases h
      exact ⟨parts, hparts⟩

/-- What is read behind a backslash is an escape with what belongs to it. -/
theorem parts_of_readEscape {c : Char} (h : readEscape cursor = .ok (c, after)) :
    ∃ parts : List StringPart,
      '\\' :: cursor.rest = parts.flatMap StringPart.text ++ after.rest := by
  unfold readEscape at h
  split at h
  next => cases h
  next first rest hrest =>
    have hescape (parts : List StringPart)
        (hparts : rest = parts.flatMap StringPart.text ++ after.rest) :
        ∃ parts : List StringPart,
          '\\' :: cursor.rest = parts.flatMap StringPart.text ++ after.rest :=
      ⟨.escape first :: parts, by rw [hrest]; exact congrArg ('\\' :: first :: ·) hparts⟩
    extract_lets plain at h
    split at h
    case h_9 =>
      obtain ⟨parts, hparts⟩ := parts_of_readUnicode h
      exact hescape parts hparts
    case h_10 => cases h
    all_goals
      cases h
      exact hescape [] rfl

theorem inner_of_readCharacters {fuel : Nat} {done : List Char} {text : String}
    (h : readCharacters fuel done cursor = .ok (text, after)) :
    ∃ string : WrittenString, cursor.rest = string.inner ++ '"' :: after.rest := by
  induction fuel generalizing done cursor with
  | zero => cases h
  | succ fuel ih =>
      unfold readCharacters at h
      split at h
      next => cases h
      next c rest hrest =>
        split at h
        next hquote =>
          cases h
          exact ⟨⟨[]⟩, by rw [hrest, hquote]; rfl⟩
        next hquote =>
          split at h
          next hslash =>
            split at h
            next value behind hescape =>
              obtain ⟨parts, hparts⟩ := parts_of_readEscape hescape
              obtain ⟨⟨others⟩, hothers⟩ := ih h
              refine ⟨⟨parts ++ others⟩, ?_⟩
              rw [hrest, hslash]
              refine hparts.trans ?_
              rw [hothers, WrittenString.inner, WrittenString.inner, List.flatMap_append,
                List.append_assoc]
            next => cases h
          next hslash =>
            split at h
            next => cases h
            next =>
              obtain ⟨⟨others⟩, hothers⟩ := ih h
              refine ⟨⟨.plain c hquote hslash :: others⟩, ?_⟩
              rw [hrest]
              exact congrArg (c :: ·) hothers

/-! ### Values -/

theorem gap_of_skipSpace (cursor : Cursor) :
    ∃ gap : Gap, cursor.rest = gap.chars ++ cursor.skipSpace.rest :=
  ⟨⟨cursor.rest.takeWhile isSpace, fun _ hc => List.mem_takeWhile_imp hc⟩,
    (takeWhile_append_drop ..).symm⟩

/-- What the reader passes is space and a value. -/
def ValueReader.Passes (reader : ValueReader) : Prop :=
  ∀ ⦃cursor value after⦄, reader cursor = .ok (value, after) →
    ∃ (gap : Gap) (written : WrittenValue),
      cursor.rest = gap.chars ++ (written.text ++ after.rest)

section Levels

variable {item : ValueReader} {limit fuel : Nat}

/-- The items behind some space are elements. -/
theorem elements_of_readItems (hitem : ValueReader.Passes item) {done : List Json}
    (h : readItems item fuel done cursor = .ok (value, after)) (gap : Gap) :
    ∃ elements : WrittenElements, elements.comma = [','] ∧
      gap.chars ++ cursor.rest = elements.text ++ ']' :: after.rest := by
  -- The gap is general, since behind a comma the space has been skipped already.
  induction fuel generalizing done cursor gap with
  | zero => cases h
  | succ fuel ih =>
      unfold readItems at h
      obtain ⟨⟨first, behind⟩, hfirst, h⟩ := exists_of_bind_eq_ok h
      obtain ⟨before, written, hwritten⟩ := hitem hfirst
      obtain ⟨space, hspace⟩ := gap_of_skipSpace behind
      dsimp only at h
      split at h
      next rest hrest =>
        cases h
        refine ⟨.more (gap.append before) written space (.none .empty), rfl, ?_⟩
        rw [hwritten, hspace, hrest]
        simp [WrittenElements.text, WrittenElements.comma, Gap.append, Gap.empty, Cursor.past]
      next rest hrest =>
        obtain ⟨next, hnext⟩ := gap_of_skipSpace (behind.skipSpace.past ',' rest)
        split at h
        next => cases h
        next => cases h
        next =>
          obtain ⟨others, hcomma, hothers⟩ := ih h next
          refine ⟨.more (gap.append before) written space others, rfl, ?_⟩
          have hbehind : rest = others.text ++ ']' :: after.rest := hnext.trans hothers
          rw [hwritten, hspace, hrest, hbehind]
          simp [WrittenElements.text, hcomma, Gap.append]
      next => cases h
      next => cases h

theorem text_of_readArray (hitem : ValueReader.Passes item)
    (h : readArray limit item cursor = .ok (value, after)) :
    ∃ elements : WrittenElements, cursor.rest = elements.text ++ ']' :: after.rest := by
  obtain ⟨gap, hgap⟩ := gap_of_skipSpace cursor
  unfold readArray at h
  dsimp only at h
  split at h
  next rest hrest =>
    cases h
    exact ⟨.none gap, by rw [hgap, hrest]; rfl⟩
  next => cases h
  next =>
    obtain ⟨elements, -, helements⟩ := elements_of_readItems hitem h gap
    exact ⟨elements, hgap.trans helements⟩

/-- A member is read from behind the quote of its key to the end of its value. -/
theorem text_of_readMember (hitem : ValueReader.Passes item) {member : String × Json}
    (h : readMember limit item cursor = .ok (member, after)) :
    ∃ (key : WrittenString) (colon space : Gap) (written : WrittenValue),
      '"' :: cursor.rest = key.text ++ (colon.chars ++ ':' :: (space.chars ++
        (written.text ++ after.rest))) := by
  unfold readMember at h
  obtain ⟨⟨name, behind⟩, hname, h⟩ := exists_of_bind_eq_ok h
  obtain ⟨key, hkey⟩ := inner_of_readCharacters hname
  obtain ⟨colon, hcolon⟩ := gap_of_skipSpace behind
  dsimp only at h
  split at h
  next rest hrest =>
    obtain ⟨⟨found, last⟩, hfound, h⟩ := exists_of_bind_eq_ok h
    cases h
    obtain ⟨space, written, hwritten⟩ := hitem hfound
    have hbehind : rest = space.chars ++ (written.text ++ last.rest) := hwritten
    refine ⟨key, colon, space, written, ?_⟩
    rw [hkey, hcolon, hrest, hbehind]
    simp [WrittenString.text]
  next => cases h
  next => cases h

/-- The members behind some space and the quote of a key are members of an object. -/
theorem members_of_readMembers (hitem : ValueReader.Passes item) {done : List (String × Json)}
    (h : readMembers limit item fuel done cursor = .ok (value, after)) (gap : Gap) :
    ∃ members : WrittenMembers, members.comma = [','] ∧
      gap.chars ++ '"' :: cursor.rest = members.text ++ '}' :: after.rest := by
  induction fuel generalizing done cursor gap with
  | zero => cases h
  | succ fuel ih =>
      unfold readMembers at h
      obtain ⟨⟨member, behind⟩, hmember, h⟩ := exists_of_bind_eq_ok h
      obtain ⟨key, colon, space, written, hwritten⟩ := text_of_readMember hitem hmember
      obtain ⟨last, hlast⟩ := gap_of_skipSpace behind
      dsimp only at h
      split at h
      next rest hrest =>
        cases h
        refine ⟨.more gap key colon space written last (.none .empty), rfl, ?_⟩
        rw [hwritten, hlast, hrest]
        simp [WrittenMembers.text, WrittenMembers.comma, Gap.empty, Cursor.past]
      next rest hrest =>
        obtain ⟨next, hnext⟩ := gap_of_skipSpace (behind.skipSpace.past ',' rest)
        split at h
        next => cases h
        next others hothers =>
          obtain ⟨members, hcomma, hmembers⟩ := ih h next
          -- A comma is followed by a member, so the list behind it is not empty.
          refine ⟨.more gap key colon space written last members, rfl, ?_⟩
          have hbehind : rest = members.text ++ '}' :: after.rest := by
            refine Eq.trans ?_ hmembers
            exact hnext.trans (congrArg (next.chars ++ ·) hothers)
          rw [hwritten, hlast, hrest, hbehind]
          simp [WrittenMembers.text, hcomma]
        next => cases h
        next => cases h
      next => cases h
      next => cases h

theorem text_of_readObject (hitem : ValueReader.Passes item)
    (h : readObject limit item cursor = .ok (value, after)) :
    ∃ members : WrittenMembers, cursor.rest = members.text ++ '}' :: after.rest := by
  obtain ⟨gap, hgap⟩ := gap_of_skipSpace cursor
  unfold readObject at h
  dsimp only at h
  split at h
  next rest hrest =>
    cases h
    exact ⟨.none gap, by rw [hgap, hrest]; rfl⟩
  next rest hrest =>
    obtain ⟨members, -, hmembers⟩ := members_of_readMembers hitem h gap
    exact ⟨members, (hgap.trans (congrArg (gap.chars ++ ·) hrest)).trans hmembers⟩
  next => cases h
  next => cases h

/-- A literal begins with its first letter. -/
theorem written_of_literal {c : Char} {rest letters : List Char} {literal : Json}
    (hrest : cursor.rest = c :: rest) (hc : inScalar c = true)
    (hletters : ∀ c ∈ letters, inScalar c = true)
    (h : (do
      let cursor ← (cursor.past c rest).expectLetters letters
      Except.ok (literal, cursor)) = .ok (value, after)) :
    ∃ written : WrittenValue, cursor.rest = written.text ++ after.rest := by
  obtain ⟨behind, hbehind, h⟩ := exists_of_bind_eq_ok h
  cases h
  exact TakesScalar.written ⟨c, rest, hrest, hc, passes_expectLetters hletters hbehind⟩

/-- What is read at one level passes space and a value if what is nested in it does. -/
theorem passes_readOneLevel {nested : Option ValueReader}
    (hnested : ∀ item ∈ nested, ValueReader.Passes item) :
    ValueReader.Passes (readOneLevel limit nested) := by
  intro cursor value after h
  obtain ⟨gap, hgap⟩ := gap_of_skipSpace cursor
  -- A value is written behind the blanks in front of it.
  suffices hvalue : ∃ written : WrittenValue,
      cursor.skipSpace.rest = written.text ++ after.rest by
    obtain ⟨written, hwritten⟩ := hvalue
    exact ⟨gap, written, by rw [hgap, hwritten]⟩
  unfold readOneLevel at h
  dsimp only at h
  split at h
  next => cases h
  next c rest hrest =>
    split at h
    next => exact written_of_literal hrest rfl (List.all_eq_true.1 rfl) h
    next => exact written_of_literal hrest rfl (List.all_eq_true.1 rfl) h
    next => exact written_of_literal hrest rfl (List.all_eq_true.1 rfl) h
    next =>
      obtain ⟨⟨text, behind⟩, htext, h⟩ := exists_of_bind_eq_ok h
      cases h
      obtain ⟨string, hstring⟩ := inner_of_readCharacters htext
      have hbehind : rest = string.inner ++ '"' :: behind.rest := hstring
      refine ⟨.string string, ?_⟩
      rw [hrest, hbehind]
      simp [WrittenValue.text, WrittenString.text]
    next =>
      split at h
      next item =>
        obtain ⟨elements, helements⟩ := text_of_readArray (hnested item rfl) h
        have hbehind : rest = elements.text ++ ']' :: after.rest := helements
        refine ⟨.array elements, ?_⟩
        rw [hrest, hbehind]
        simp [WrittenValue.text]
      next => cases h
    next =>
      split at h
      next item =>
        obtain ⟨members, hmembers⟩ := text_of_readObject (hnested item rfl) h
        have hbehind : rest = members.text ++ '}' :: after.rest := hmembers
        refine ⟨.object members, ?_⟩
        rw [hrest, hbehind]
        simp [WrittenValue.text]
      next => cases h
    next =>
      split at h
      next => exact (takes_readNumber h).written
      next => cases h

end Levels

theorem passes_readValue (limit depth : Nat) : ValueReader.Passes (readValue limit depth) := by
  induction depth with
  | zero => exact passes_readOneLevel fun item hitem => by cases hitem
  | succ depth ih =>
      refine passes_readOneLevel fun item hitem => ?_
      cases hitem
      exact ih

/-- A text that can be read is a document. -/
theorem exists_document {text : String} (h : parse text = .ok value) :
    ∃ document : WrittenDocument, text.toList = document.text := by
  unfold parse at h
  obtain ⟨⟨found, behind⟩, hfound, h⟩ := exists_of_bind_eq_ok h
  obtain ⟨leading, written, hwritten⟩ := passes_readValue _ _ hfound
  obtain ⟨trailing, htrailing⟩ := gap_of_skipSpace behind
  dsimp only at h
  split at h
  next hend =>
    have htext : text.toList = leading.chars ++ (written.text ++ behind.rest) := hwritten
    refine ⟨⟨leading, written, trailing⟩, ?_⟩
    rw [htext, htrailing, List.isEmpty_iff.1 hend, List.append_nil]
    rfl
  next => cases h

end DocScript.Json
