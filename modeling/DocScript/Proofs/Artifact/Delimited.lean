import Mathlib.Tactic.SplitIfs
import DocScript.Proofs.Artifact.Decoding

/-! # Where artifacts end

A reader looks at no byte behind those that it takes. Without some of these it comes to
the end of the bytes, and says so before it can find anything else wrong. So the bytes
of an artifact say themselves where it ends: nothing in front of that place is an
artifact, and nothing that goes on behind it is one.
-/

namespace DocScript.Artifact

/-- If the bytes are cut off before the place where the reader stops, then it misses bytes, not
behind the cut. -/
def Awaits (reader : Read α) : Prop :=
  ∀ ⦃front rest : List UInt8⦄ ⦃offset : Nat⦄ ⦃value : α⦄ ⦃unread : Unread⦄,
    reader ⟨front ++ rest, offset⟩ = .ok (value, unread) → unread.bytes.length < rest.length →
      ∃ missing ≤ offset + front.length, reader ⟨front, offset⟩ = .error (.unexpectedEnd missing)

namespace Awaits

variable {first : Read α} {heads : α → List UInt8 → Prop}

/-- What takes no bytes cannot miss one. -/
theorem give (value : α) : Awaits fun unread => .ok (value, unread) := by
  intro front rest offset other unread hread hcut
  cases hread
  rw [List.length_append] at hcut
  omega

theorem refuse (error : Nat → ArtifactError) :
    Awaits (fun unread => .error (error unread.offset) : Read α) :=
  fun _ _ _ _ _ hread => nomatch hread

/-- The cut is in what the one reader takes, or in what the other one takes behind it. -/
theorem bind {next : Nat → α → Read β} (hfirst : Awaits first) (htakes : Takes first heads)
    (hnext : ∀ offset a, Awaits (next offset a)) :
    Awaits fun unread => first unread >>= fun given => next unread.offset given.1 given.2 := by
  intro front rest offset value unread hread hcut
  change (first ⟨front ++ rest, offset⟩ >>= fun given => next offset given.1 given.2) = _ at hread
  change ∃ missing ≤ _, (first ⟨front, offset⟩ >>= fun given => next offset given.1 given.2) = _
  cases hgiven : first ⟨front ++ rest, offset⟩ with
  | error => rw [hgiven] at hread; cases hread
  | ok given =>
      obtain ⟨a, middle⟩ := given
      rw [hgiven] at hread
      -- The cut lies inside what the first reader takes, and it fails by itself, or behind that.
      by_cases hearly : middle.bytes.length < rest.length
      · obtain ⟨missing, hplace, herror⟩ := hfirst hgiven hearly
        exact ⟨missing, hplace, by rw [herror]; rfl⟩
      · obtain ⟨head, hbytes, hoffset, hhead⟩ := (htakes _ _ _ _).1 hgiven
        obtain ⟨tail, rfl, hmiddle⟩ : ∃ tail, front = head ++ tail ∧ middle.bytes = tail ++ rest := by
          rcases List.append_eq_append_iff.1 hbytes with ⟨tail, rfl, hrest⟩ | h
          · have : rest.length = tail.length + middle.bytes.length := by
              rw [hrest, List.length_append]
            have htail : tail = [] := List.length_eq_zero_iff.1 (by omega)
            exact ⟨[], by simp [htail], by rw [hrest, htail]; rfl⟩
          · exact h
        have hshort : first ⟨head ++ tail, offset⟩ = .ok (a, ⟨tail, offset + head.length⟩) :=
          (htakes _ _ _ _).2 ⟨head, rfl, rfl, hhead⟩
        have hrest : next offset a ⟨tail ++ rest, offset + head.length⟩ = .ok (value, unread) := by
          rw [← hmiddle, ← hoffset]
          exact hread
        obtain ⟨missing, hplace, herror⟩ := hnext offset a hrest hcut
        refine ⟨missing, ?_, by rw [hshort]; exact herror⟩
        rw [List.length_append]
        omega

theorem map (hfirst : Awaits first) (htakes : Takes first heads) (make : α → β) :
    Awaits fun unread => first unread >>= fun given => .ok (make given.1, given.2) :=
  hfirst.bind htakes fun _ a => give (make a)

/-- Whatever a reader checks before it goes on, it does not need more bytes for that. -/
theorem guard (refused : Prop) [Decidable refused] (error : Nat → ArtifactError)
    (h : ¬ refused → Awaits first) :
    Awaits fun unread => if refused then .error (error unread.offset) else first unread := by
  by_cases hrefused : refused
  · simp only [if_pos hrefused]
    exact refuse error
  · simp only [if_neg hrefused]
    exact h hrefused

end Awaits

/-! ### Bytes, numbers and lengths -/

theorem awaits_bytes (count : Nat) : Awaits (readBytes count) := by
  intro front rest offset value unread hread hcut
  obtain ⟨taken, hbytes, -, rfl, hlength⟩ := (takes_bytes count _ _ _ _).1 hread
  have hshort : (front.take count).length ≠ count := by
    have := congrArg List.length hbytes
    rw [List.length_append, List.length_append] at this
    rw [List.length_take]
    omega
  exact ⟨offset, Nat.le_add_right .., if_neg hshort⟩

theorem awaits_byte : Awaits readByte := by
  intro front rest offset value unread hread hcut
  cases front with
  | nil => exact ⟨offset, Nat.le_add_right .., rfl⟩
  | cons byte front =>
      cases hread
      exact absurd hcut (by simp)

theorem awaits_number (count : Nat) : Awaits (readNumber count) :=
  (awaits_bytes count).map (takes_bytes count) LittleEndian.read

theorem awaits_count (field : CountField) : Awaits (readCount field) := by
  let next (offset value : Nat) : Read Nat := fun rest =>
    if value ≤ largestCount then .ok (value, rest)
    else .error (.negativeCount field ((value : Int) - 2 ^ 32) offset)
  have hnext (offset value : Nat) : Awaits (next offset value) := by
    by_cases hfits : value ≤ largestCount
    · simp only [next, if_pos hfits]
      exact .give value
    · simp only [next, if_neg hfits]
      exact .refuse fun _ => _
  exact (awaits_number 4).bind (takes_number 4) hnext

theorem awaits_groups (start groups shift : Nat) : Awaits (readGroups start groups shift) := by
  induction groups generalizing shift with
  | zero => exact .refuse fun _ => .invalidLength start
  | succ groups ih =>
      let next (_ : Nat) (byte : UInt8) : Read Nat := fun unread =>
        if groups = 0 ∧ 15 < byte.toNat % 128 then .error (.invalidLength start)
        else if byte.toNat < 128 then .ok ((byte.toNat % 128) <<< shift, unread)
        else readGroups start groups (shift + 7) unread >>= fun given =>
          .ok ((byte.toNat % 128) <<< shift + given.1, given.2)
      have hnext (offset : Nat) (byte : UInt8) : Awaits (next offset byte) := by
        refine Awaits.guard _ (fun _ => .invalidLength start) fun _ => ?_
        by_cases hlast : byte.toNat < 128
        · simp only [if_pos hlast]
          exact .give _
        · simp only [if_neg hlast]
          exact (ih (shift + 7)).map (takes_groups start groups (shift + 7)) _
      exact awaits_byte.bind takes_byte hnext

theorem awaits_length : Awaits readLength :=
  fun _ _ offset _ _ hread hcut => awaits_groups offset 5 0 hread hcut

/-! ### Texts and scalars -/

theorem awaits_giveText (offset : Nat) (bytes : List UInt8) : Awaits (giveText offset bytes) := by
  unfold giveText
  cases textOfBytes? bytes with
  | some text => exact .give text
  | none => exact .refuse fun _ => .invalidText offset

theorem awaits_text : Awaits readText :=
  awaits_length.bind takes_length fun _ length =>
    (awaits_bytes length).bind (takes_bytes length) awaits_giveText

theorem awaits_word (make : UInt64 → α) :
    Awaits fun rest => readNumber 8 rest >>= fun given => .ok (make (UInt64.ofNat given.1), given.2) :=
  (awaits_number 8).map (takes_number 8) fun number => make (UInt64.ofNat number)

theorem awaits_tagged (offset : Nat) (tag : UInt8) : Awaits (readTagged offset tag) := by
  unfold readTagged
  split_ifs
  · exact awaits_word fun word => Scalar.int word.toInt64
  · exact awaits_word fun word => Scalar.float ⟨word⟩
  · exact awaits_text.map takes_text Scalar.string
  · exact awaits_byte.map takes_byte fun byte => Scalar.bool (byte != 0)
  · exact .give Scalar.null
  · exact (awaits_number 8).bind (takes_number 8) fun _ address =>
      awaits_text.map takes_text (Scalar.pointer (UInt64.ofNat address))
  · exact .refuse fun _ => .unknownTag tag offset

theorem awaits_scalar : Awaits readScalar := awaits_byte.bind takes_byte awaits_tagged

/-! ### Functions -/

theorem awaits_many {τ : Type} {item : Read α} {value : τ → α} {bytes : τ → List UInt8}
    (hitem : Awaits item) (htakes : TakesSpellings item value bytes) (count : Nat) :
    Awaits (readMany item count) := by
  induction count with
  | zero => exact .give []
  | succ count ih =>
      have htail (_ : Nat) (first : α) := ih.map (takes_many htakes count) (first :: ·)
      exact hitem.bind htakes htail

theorem awaits_body (name : String) : Awaits (readBody name) := by
  have hconstants (localCount paramCount : Nat) (code : List UInt8) (_ count : Nat) :=
    (awaits_many awaits_scalar takes_scalar count).map (takes_many takes_scalar count)
      fun constants =>
        ({ name, code := code.toArray, constants := (constants.map .scalar).toArray, localCount,
           paramCount } : CompiledFunction Constant)
  have hcode (localCount paramCount : Nat) (_ size : Nat) :=
    (awaits_bytes size).bind (takes_bytes size) fun _ code =>
      (awaits_count .constants).bind (takes_count .constants) (hconstants localCount paramCount code)
  exact (awaits_count .locals).bind (takes_count .locals) fun _ localCount =>
    (awaits_count .params).bind (takes_count .params) fun _ paramCount =>
      (awaits_count .codeBytes).bind (takes_count .codeBytes) (hcode localCount paramCount)

theorem awaits_functions (table : FunctionTable Constant) (count : Nat) :
    Awaits (readFunctions table count) := by
  induction count generalizing table with
  | zero => exact .give table
  | succ count ih =>
      have hnext (_ : Nat) (name : String) := Awaits.guard (table.contains name)
        (fun _ => .duplicateFunction name) fun _ =>
          (awaits_body name).bind (takes_body name) fun _ function => ih (table.insert function)
      exact awaits_text.bind takes_text hnext

theorem awaits_table : Awaits readTable :=
  (awaits_count .functions).bind (takes_count .functions) fun _ count => awaits_functions {} count

/-! ### Artifacts -/

/-- The bytes of an artifact delimit it. A part in front of them misses bytes, at most where it
ends, and is wrong in no other way; and whatever follows them is left behind, to the last byte. -/
theorem accepted_bytes_delimited (bytes : List UInt8) (table : FunctionTable Constant)
    (h : read bytes = .ok table) :
    (∀ front, front <+: bytes → front ≠ bytes →
      ∃ missing ≤ front.length, read front = .error (.unexpectedEnd missing)) ∧
    ∀ more, more ≠ [] → read (bytes ++ more) = .error (.trailingBytes more.length) := by
  obtain ⟨offset, hread⟩ := readTable_of_read h
  constructor
  · rintro front ⟨rest, rfl⟩ hproper
    have hcut : 0 < rest.length :=
      List.length_pos_iff.2 fun hrest => hproper (by rw [hrest, List.append_nil])
    obtain ⟨missing, hplace, herror⟩ := awaits_table hread hcut
    exact ⟨missing, Nat.zero_add front.length ▸ hplace, read_of_refused herror⟩
  · intro more hmore
    obtain ⟨taken, hbytes, hoffset, hspells⟩ := (takes_table _ _ _ _).1 hread
    have hlonger : readTable ⟨bytes ++ more, 0⟩ = .ok (table, ⟨more, offset⟩) :=
      (takes_table _ _ _ _).2 ⟨taken, by rw [hbytes, List.append_nil], hoffset, hspells⟩
    rw [read_of_readTable hlonger, if_neg (by simpa using hmore)]

/-- One function that returns a text, whose length is in two groups. -/
def greeting : List UInt8 :=
  [1, 0, 0, 0,
    1, 102, 0, 0, 0, 0, 0, 0, 0, 0, 4, 0, 0, 0, 0, 0, 0, 20, 1, 0, 0, 0, 2, 0x82, 0, 104, 105]

theorem greeting_delimited : ∃ table, read greeting = .ok table ∧
    (∃ missing ≤ 30, read (greeting.take 30) = .error (.unexpectedEnd missing)) ∧
    read (greeting ++ [0, 0]) = .error (.trailingBytes 2) := by
  have hread : read greeting =
      .ok (.ofList [⟨"f", #[0, 0, 0, 20], #[.scalar (.string "hi")], 0, 0⟩]) := by rfl
  obtain ⟨hshort, hlong⟩ := accepted_bytes_delimited greeting _ hread
  refine ⟨_, hread, ?_, hlong [0, 0] (by decide)⟩
  exact hshort (greeting.take 30) (List.take_prefix ..) (by decide)

end DocScript.Artifact
