import DocScript.Proofs.Artifact.Reading
import DocScript.Proofs.Artifact.TextOrder

/-! # Spellings of artifacts

A spelling is what bytes say as an artifact, part by part, down to what the table does
not show: the groups of each length, the bytes of truth values and the order of the
functions. The reader accepts the bytes of spellings and no others, and bytes have at
most one spelling.
-/

namespace DocScript.Artifact

theorem textOfBytes?_eq_some_iff {bytes : List UInt8} {text : String} :
    textOfBytes? bytes = some text ↔ textBytes text = bytes := by
  unfold textOfBytes? String.fromUTF8?
  constructor
  · intro h
    split at h
    next => cases h; rfl
    next => cases h
  · rintro rfl
    have hbytes : (⟨(textBytes text).toArray⟩ : ByteArray) = text.toByteArray := by
      rw [textBytes, Array.toArray_toList]
      rfl
    simp only [hbytes, text.isValidUTF8, dif_pos]
    exact congrArg some (String.toByteArray_inj.1 rfl)

/-! ### Texts -/

/-- A text behind the groups of its length. -/
structure TextSpelling where
  text : String
  groups : List UInt8
  spells : LengthSpelling 5 (textBytes text).length groups

/-- The reader takes the bytes of spellings, and gives what these stand for. -/
def TakesSpellings (reader : Read α) (value : τ → α) (bytes : τ → List UInt8) : Prop :=
  Takes reader fun given front => ∃ spelling, value spelling = given ∧ bytes spelling = front

/-- Bytes that begin with a spelling begin with no other one. -/
def Unambiguous (bytes : τ → List UInt8) : Prop :=
  ∀ a b rest more, bytes a ++ rest = bytes b ++ more → a = b ∧ rest = more

theorem Unambiguous.inj {bytes : τ → List UInt8} (h : Unambiguous bytes) {a b : τ}
    (hsame : bytes a = bytes b) : a = b :=
  (h a b [] [] (congrArg (· ++ []) hsame)).1

theorem TakesSpellings.unambiguous {reader : Read α} {value : τ → α} {bytes : τ → List UInt8}
    (h : TakesSpellings reader value bytes)
    (hinj : ∀ a b, value a = value b → bytes a = bytes b → a = b) : Unambiguous bytes := by
  intro a b rest more hsame
  obtain ⟨hvalue, hbytes, hrest⟩ := Takes.determines h ⟨a, rfl, rfl⟩ ⟨b, rfl, rfl⟩ hsame
  exact ⟨hinj a b hvalue hbytes, hrest⟩

namespace TextSpelling

def bytes (spelling : TextSpelling) : List UInt8 := spelling.groups ++ textBytes spelling.text

theorem ext {a b : TextSpelling} (htext : a.text = b.text) (hgroups : a.groups = b.groups) :
    a = b := by
  cases a
  cases b
  cases htext
  cases hgroups
  rfl

end TextSpelling

/-- The text that bytes from an offset on stand for, and nothing more is read. -/
def giveText (offset : Nat) (bytes : List UInt8) : Read String := fun rest =>
  match textOfBytes? bytes with
  | some text => .ok (text, rest)
  | none => .error (.invalidText offset)

theorem takes_giveText (offset : Nat) (bytes : List UInt8) :
    Takes (giveText offset bytes) fun text front => textBytes text = bytes ∧ front = [] := by
  unfold giveText
  cases htext : textOfBytes? bytes with
  | some text =>
      refine (Takes.give text).congr fun other front => and_congr_left fun _ => ?_
      rw [← textOfBytes?_eq_some_iff, htext, Option.some.injEq, eq_comm]
  | none =>
      refine (Takes.refuse fun _ => _).congr fun other front => ⟨False.elim, fun h => ?_⟩
      rw [← textOfBytes?_eq_some_iff, htext] at h
      cases h.1

theorem takes_text : TakesSpellings readText TextSpelling.text TextSpelling.bytes := by
  have htail (_ length : Nat) : Takes
      (fun unread => readBytes length unread >>= fun given => giveText unread.offset given.1 given.2)
      fun text front => textBytes text = front ∧ front.length = length := by
    refine ((takes_bytes length).bind takes_giveText).congr fun text front => ?_
    constructor
    · rintro ⟨_, head, _, ⟨rfl, hlength⟩, ⟨htext, rfl⟩, rfl⟩
      rw [List.append_nil]
      exact ⟨htext, hlength⟩
    · rintro ⟨htext, hlength⟩
      exact ⟨front, front, [], ⟨rfl, hlength⟩, ⟨htext, rfl⟩, (List.append_nil front).symm⟩
  refine (takes_length.bind htail).congr fun text front => ?_
  constructor
  · rintro ⟨_, groups, _, hgroups, ⟨rfl, rfl⟩, rfl⟩
    exact ⟨⟨text, groups, hgroups⟩, rfl, rfl⟩
  · rintro ⟨spelling, rfl, rfl⟩
    exact ⟨_, spelling.groups, _, spelling.spells, ⟨rfl, rfl⟩, rfl⟩

theorem unambiguous_text : Unambiguous TextSpelling.bytes := by
  refine takes_text.unambiguous fun a b htext hbytes => TextSpelling.ext htext ?_
  rw [TextSpelling.bytes, TextSpelling.bytes, htext] at hbytes
  exact List.append_cancel_right hbytes

/-! ### Scalars -/

/-- A scalar behind its tag. A truth value is a byte. -/
inductive ScalarSpelling where
  | int (value : Int64)
  | float (value : Binary64)
  | string (value : TextSpelling)
  | bool (byte : UInt8)
  | null
  | pointer (address : UInt64) (pointee : TextSpelling)

namespace ScalarSpelling

def value : ScalarSpelling → Scalar
  | .int value => .int value
  | .float value => .float value
  | .string value => .string value.text
  | .bool byte => .bool (byte != 0)
  | .null => .null
  | .pointer address pointee => .pointer address pointee.text

def bytes : ScalarSpelling → List UInt8
  | .int value => intTag :: LittleEndian.write 8 value.toUInt64.toNat
  | .float value => floatTag :: LittleEndian.write 8 value.bits.toNat
  | .string value => stringTag :: value.bytes
  | .bool byte => [boolTag, byte]
  | .null => [nullTag]
  | .pointer address pointee =>
      pointerTag :: (LittleEndian.write 8 address.toNat ++ pointee.bytes)

/-- The texts in a scalar. -/
def texts : ScalarSpelling → List TextSpelling
  | .string value => [value]
  | .pointer _ pointee => [pointee]
  | _ => []

/-- The bytes of truth values in a scalar. -/
def flags : ScalarSpelling → List UInt8
  | .bool byte => [byte]
  | _ => []

end ScalarSpelling

theorem takes_word (make : UInt64 → α) :
    Takes (fun rest => readNumber 8 rest >>= fun given => .ok (make (UInt64.ofNat given.1), given.2))
      fun value front => ∃ word : UInt64, front = LittleEndian.write 8 word.toNat ∧
        make word = value := by
  refine ((takes_number 8).map fun number => make (UInt64.ofNat number)).congr fun value front => ?_
  constructor
  · rintro ⟨number, ⟨hnumber, rfl⟩, rfl⟩
    have hword : (UInt64.ofNat number).toNat = number := Nat.mod_eq_of_lt hnumber
    exact ⟨UInt64.ofNat number, by rw [hword], rfl⟩
  · rintro ⟨word, rfl, rfl⟩
    exact ⟨word.toNat, ⟨word.toNat_lt, rfl⟩, by rw [UInt64.ofNat_toNat]⟩

/-- The reader takes what spells a scalar behind a tag. -/
def TakesBehind (tag : UInt8) (reader : Read Scalar) : Prop :=
  Takes reader fun value front =>
    ∃ spelling : ScalarSpelling, spelling.value = value ∧ spelling.bytes = tag :: front

namespace TakesBehind

theorem int : TakesBehind intTag fun rest => readNumber 8 rest >>= fun given =>
    .ok (.int (UInt64.ofNat given.1).toInt64, given.2) := by
  refine (takes_word fun word => Scalar.int word.toInt64).congr fun value front => ⟨?_, ?_⟩
  · rintro ⟨word, rfl, rfl⟩
    exact ⟨.int word.toInt64, rfl, by rw [ScalarSpelling.bytes, UInt64.toUInt64_toInt64]⟩
  · rintro ⟨spelling, rfl, hbytes⟩
    cases spelling with
    | int value =>
        cases hbytes
        exact ⟨value.toUInt64, rfl, congrArg Scalar.int (Int64.toInt64_toUInt64 value)⟩
    | _ => exact absurd (List.cons.inj hbytes).1 (by decide)

theorem float : TakesBehind floatTag fun rest => readNumber 8 rest >>= fun given =>
    .ok (.float ⟨UInt64.ofNat given.1⟩, given.2) := by
  refine (takes_word fun word => Scalar.float ⟨word⟩).congr fun value front => ⟨?_, ?_⟩
  · rintro ⟨word, rfl, rfl⟩
    exact ⟨.float ⟨word⟩, rfl, rfl⟩
  · rintro ⟨spelling, rfl, hbytes⟩
    cases spelling with
    | float value =>
        cases hbytes
        exact ⟨value.bits, rfl, rfl⟩
    | _ => exact absurd (List.cons.inj hbytes).1 (by decide)

theorem string : TakesBehind stringTag fun rest => readText rest >>= fun given =>
    .ok (.string given.1, given.2) := by
  refine (takes_text.map Scalar.string).congr fun value front => ⟨?_, ?_⟩
  · rintro ⟨_, ⟨spelling, rfl, rfl⟩, rfl⟩
    exact ⟨.string spelling, rfl, rfl⟩
  · rintro ⟨spelling, rfl, hbytes⟩
    cases spelling with
    | string value =>
        cases hbytes
        exact ⟨_, ⟨value, rfl, rfl⟩, rfl⟩
    | _ => exact absurd (List.cons.inj hbytes).1 (by decide)

theorem bool : TakesBehind boolTag fun rest => readByte rest >>= fun given =>
    .ok (.bool (given.1 != 0), given.2) := by
  refine (takes_byte.map fun byte => Scalar.bool (byte != 0)).congr fun value front => ⟨?_, ?_⟩
  · rintro ⟨byte, rfl, rfl⟩
    exact ⟨.bool byte, rfl, rfl⟩
  · rintro ⟨spelling, rfl, hbytes⟩
    cases spelling with
    | bool byte =>
        cases hbytes
        exact ⟨byte, rfl, rfl⟩
    | _ => exact absurd (List.cons.inj hbytes).1 (by decide)

theorem null : TakesBehind nullTag fun rest => .ok (.null, rest) := by
  refine (Takes.give Scalar.null).congr fun value front => ⟨?_, ?_⟩
  · rintro ⟨rfl, rfl⟩
    exact ⟨.null, rfl, rfl⟩
  · rintro ⟨spelling, rfl, hbytes⟩
    cases spelling with
    | null =>
        cases hbytes
        exact ⟨rfl, rfl⟩
    | _ => exact absurd (List.cons.inj hbytes).1 (by decide)

theorem pointer : TakesBehind pointerTag fun rest => readNumber 8 rest >>= fun address =>
    readText address.2 >>= fun pointee =>
      .ok (.pointer (UInt64.ofNat address.1) pointee.1, pointee.2) := by
  have htail (_ number : Nat) := takes_text.map fun pointee =>
    Scalar.pointer (UInt64.ofNat number) pointee
  refine ((takes_number 8).bind htail).congr fun value front => ⟨?_, ?_⟩
  · rintro ⟨number, _, _, ⟨hnumber, rfl⟩, ⟨_, ⟨pointee, rfl, rfl⟩, rfl⟩, rfl⟩
    have hword : (UInt64.ofNat number).toNat = number := Nat.mod_eq_of_lt hnumber
    exact ⟨.pointer (UInt64.ofNat number) pointee, rfl, by rw [ScalarSpelling.bytes, hword]⟩
  · rintro ⟨spelling, rfl, hbytes⟩
    cases spelling with
    | pointer address pointee =>
        cases hbytes
        refine ⟨address.toNat, _, _, ⟨address.toNat_lt, rfl⟩, ⟨_, ⟨pointee, rfl, rfl⟩, ?_⟩, rfl⟩
        rw [UInt64.ofNat_toNat]
        rfl
    | _ => exact absurd (List.cons.inj hbytes).1 (by decide)

/-- Nothing is spelled behind any other tag. -/
theorem unknown {tag : UInt8} (error : Nat → ArtifactError)
    (htag : tag ∉ [intTag, floatTag, stringTag, boolTag, nullTag, pointerTag]) :
    TakesBehind tag fun unread => .error (error unread.offset) := by
  refine (Takes.refuse error).congr fun value front => ⟨False.elim, ?_⟩
  rintro ⟨spelling, rfl, hbytes⟩
  cases spelling <;> exact htag (by rw [← (List.cons.inj hbytes).1]; decide)

end TakesBehind

/-- What is read behind the tag of a scalar. -/
def readTagged (offset : Nat) (tag : UInt8) : Read Scalar := fun rest =>
  if tag = intTag then
    readNumber 8 rest >>= fun given => .ok (.int (UInt64.ofNat given.1).toInt64, given.2)
  else if tag = floatTag then
    readNumber 8 rest >>= fun given => .ok (.float ⟨UInt64.ofNat given.1⟩, given.2)
  else if tag = stringTag then readText rest >>= fun given => .ok (.string given.1, given.2)
  else if tag = boolTag then readByte rest >>= fun given => .ok (.bool (given.1 != 0), given.2)
  else if tag = nullTag then .ok (.null, rest)
  else if tag = pointerTag then
    readNumber 8 rest >>= fun address => readText address.2 >>= fun pointee =>
      .ok (.pointer (UInt64.ofNat address.1) pointee.1, pointee.2)
  else .error (.unknownTag tag offset)

theorem takes_tagged (offset : Nat) (tag : UInt8) : TakesBehind tag (readTagged offset tag) := by
  unfold readTagged
  by_cases hint : tag = intTag
  · subst hint
    exact TakesBehind.int
  by_cases hfloat : tag = floatTag
  · subst hfloat
    exact TakesBehind.float
  by_cases hstring : tag = stringTag
  · subst hstring
    exact TakesBehind.string
  by_cases hbool : tag = boolTag
  · subst hbool
    exact TakesBehind.bool
  by_cases hnull : tag = nullTag
  · subst hnull
    exact TakesBehind.null
  by_cases hpointer : tag = pointerTag
  · subst hpointer
    exact TakesBehind.pointer
  simp only [if_neg hint, if_neg hfloat, if_neg hstring, if_neg hbool, if_neg hnull,
    if_neg hpointer]
  exact .unknown (fun _ => .unknownTag tag offset) (by simp [*])

theorem takes_scalar : TakesSpellings readScalar ScalarSpelling.value ScalarSpelling.bytes := by
  refine (takes_byte.bind takes_tagged).congr fun value front => ?_
  constructor
  · rintro ⟨tag, _, tail, rfl, hspelling, rfl⟩
    exact hspelling
  · rintro ⟨spelling, rfl, rfl⟩
    obtain ⟨tag, tail, hbytes⟩ : ∃ tag tail, spelling.bytes = tag :: tail := by
      cases spelling <;> exact ⟨_, _, rfl⟩
    exact ⟨tag, [tag], tail, rfl, ⟨spelling, rfl, hbytes⟩, hbytes⟩

theorem unambiguous_scalar : Unambiguous ScalarSpelling.bytes := by
  refine takes_scalar.unambiguous fun a b hvalue hbytes => ?_
  cases a with
  | int | float | null =>
      cases b <;> cases hvalue
      rfl
  -- One text or flag has several spellings; the bytes behind the tag tell them apart.
  | string value =>
      cases b with
      | string other =>
          have hsame : value.bytes = other.bytes := (List.cons.inj hbytes).2
          rw [unambiguous_text.inj hsame]
      | _ => cases hvalue
  | bool byte =>
      cases b with
      | bool other =>
          cases hbytes
          rfl
      | _ => cases hvalue
  | pointer address pointee =>
      cases b with
      | pointer other text =>
          obtain ⟨rfl, -⟩ := Scalar.pointer.inj hvalue
          have hsame : pointee.bytes = text.bytes := List.append_cancel_left (List.cons.inj hbytes).2
          rw [unambiguous_text.inj hsame]
      | _ => cases hvalue

end DocScript.Artifact
