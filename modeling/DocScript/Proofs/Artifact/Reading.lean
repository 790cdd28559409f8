import DocScript.Artifact.Reader
import DocScript.Proofs.LittleEndian

/-! # What readers take

A reader takes some of the bytes in front of it and leaves the others. Here is said of
each of the small readers exactly which bytes it takes for which value; whatever is
left behind does not matter.
-/

namespace DocScript

namespace Artifact

/-- The reader takes bytes if and only if they spell a value, and gives that value. -/
def Takes (reader : Read α) (spells : α → List UInt8 → Prop) : Prop :=
  ∀ (bytes : List UInt8) (offset : Nat) (value : α) (unread : Unread),
    reader ⟨bytes, offset⟩ = .ok (value, unread) ↔
      ∃ front, bytes = front ++ unread.bytes ∧ unread.offset = offset + front.length ∧
        spells value front

namespace Takes

variable {reader first : Read α} {spells heads : α → List UInt8 → Prop}

theorem congr (h : Takes reader spells) {others : α → List UInt8 → Prop}
    (hsame : ∀ value front, spells value front ↔ others value front) : Takes reader others := by
  intro bytes offset value unread
  rw [h bytes offset value unread]
  exact exists_congr fun front => and_congr_right fun _ => and_congr_right fun _ =>
    hsame value front

theorem give (value : α) :
    Takes (fun unread => .ok (value, unread)) fun other front => other = value ∧ front = [] := by
  intro bytes offset other unread
  constructor
  · rintro h
    cases h
    exact ⟨[], rfl, rfl, rfl, rfl⟩
  · rintro ⟨front, hbytes, hoffset, rfl, rfl⟩
    cases unread
    cases hbytes
    cases hoffset
    rfl

theorem refuse (error : Nat → ArtifactError) :
    Takes (fun unread => .error (error unread.offset) : Read α) fun _ _ => False := by
  intro bytes offset value unread
  exact ⟨nofun, fun ⟨_, _, _, h⟩ => h.elim⟩

/-- One reader goes on where another one has stopped. It may know where that one began. -/
theorem bind {next : Nat → α → Read β} {tails : α → β → List UInt8 → Prop}
    (hfirst : Takes first heads) (hnext : ∀ offset a, Takes (next offset a) (tails a)) :
    Takes (fun unread => first unread >>= fun given => next unread.offset given.1 given.2)
      fun b front => ∃ a head tail, heads a head ∧ tails a b tail ∧ front = head ++ tail := by
  intro bytes offset value unread
  change (first ⟨bytes, offset⟩ >>= fun given => next offset given.1 given.2) = _ ↔ _
  constructor
  · intro h
    cases hread : first ⟨bytes, offset⟩ with
    | error => rw [hread] at h; cases h
    | ok given =>
        obtain ⟨a, middle⟩ := given
        rw [hread] at h
        obtain ⟨head, rfl, hmiddle, hhead⟩ := (hfirst _ _ _ _).1 hread
        obtain ⟨tail, hrest, hoffset, htail⟩ := (hnext offset a _ _ _ _).1 h
        refine ⟨head ++ tail, by rw [hrest, List.append_assoc], ?_, a, head, tail, hhead, htail, rfl⟩
        rw [hoffset, hmiddle, List.length_append, Nat.add_assoc]
  · rintro ⟨front, rfl, hoffset, a, head, tail, hhead, htail, rfl⟩
    have hread : first ⟨head ++ tail ++ unread.bytes, offset⟩ =
        .ok (a, ⟨tail ++ unread.bytes, offset + head.length⟩) :=
      (hfirst _ _ _ _).2 ⟨head, List.append_assoc .., rfl, hhead⟩
    rw [hread]
    refine (hnext offset a _ _ _ _).2 ⟨tail, rfl, ?_, htail⟩
    rw [hoffset, List.length_append, Nat.add_assoc]

/-- What is made of the value in the end does not matter to the bytes. -/
theorem map (h : Takes first heads) (make : α → β) :
    Takes (fun unread => first unread >>= fun given => .ok (make given.1, given.2))
      fun b front => ∃ a, heads a front ∧ make a = b := by
  refine (h.bind fun _ a => give (make a)).congr fun b front => ?_
  constructor
  · rintro ⟨a, head, tail, hhead, ⟨rfl, rfl⟩, rfl⟩
    exact ⟨a, by rwa [List.append_nil], rfl⟩
  · rintro ⟨a, hhead, rfl⟩
    exact ⟨a, front, [], hhead, ⟨rfl, rfl⟩, (List.append_nil front).symm⟩

/-- Two values that are read from the front of the same bytes are the same, and so is what is
left. -/
theorem determines (h : Takes reader spells) {value other : α} {front left rest more : List UInt8}
    (hvalue : spells value front) (hother : spells other left) (hsame : front ++ rest = left ++ more) :
    value = other ∧ front = left ∧ rest = more := by
  have hread := (h (front ++ rest) 0 value ⟨rest, 0 + front.length⟩).2 ⟨front, rfl, rfl, hvalue⟩
  have hagain := (h (left ++ more) 0 other ⟨more, 0 + left.length⟩).2 ⟨left, rfl, rfl, hother⟩
  rw [hsame, hagain, Except.ok.injEq, Prod.mk.injEq, Unread.mk.injEq] at hread
  obtain ⟨rfl, rfl, -⟩ := hread
  exact ⟨rfl, List.append_cancel_right hsame, rfl⟩

end Takes

/-! ### Bytes and numbers -/

theorem takes_bytes (count : Nat) :
    Takes (readBytes count) fun bytes front => bytes = front ∧ front.length = count := by
  intro bytes offset value unread
  unfold readBytes
  dsimp only
  constructor
  · intro h
    split at h
    next hlength =>
      cases h
      exact ⟨bytes.take count, (List.take_append_drop count bytes).symm,
        congrArg (offset + ·) hlength.symm, rfl, hlength⟩
    next => cases h
  · rintro ⟨front, rfl, hoffset, rfl, rfl⟩
    cases unread
    cases hoffset
    simp

theorem takes_byte : Takes readByte fun byte front => front = [byte] := by
  intro bytes offset value unread
  unfold readByte
  constructor
  · intro h
    cases bytes with
    | nil => cases h
    | cons byte rest =>
        cases h
        exact ⟨[value], rfl, rfl, rfl⟩
  · rintro ⟨front, rfl, hoffset, rfl⟩
    cases unread
    cases hoffset
    rfl

theorem takes_number (count : Nat) :
    Takes (readNumber count) fun value front =>
      value < 256 ^ count ∧ front = LittleEndian.write count value := by
  refine ((takes_bytes count).map LittleEndian.read).congr fun value front => ?_
  constructor
  · rintro ⟨bytes, ⟨rfl, rfl⟩, rfl⟩
    exact ⟨LittleEndian.read_lt bytes, (LittleEndian.write_read bytes).symm⟩
  · rintro ⟨hvalue, rfl⟩
    exact ⟨_, ⟨rfl, LittleEndian.length_write count value⟩, LittleEndian.read_write hvalue⟩

theorem takes_count (field : CountField) :
    Takes (readCount field) fun value front =>
      value ≤ largestCount ∧ front = LittleEndian.write 4 value := by
  have hlargest : largestCount < 256 ^ 4 := by decide
  let next (offset value : Nat) : Read Nat := fun rest =>
    if value ≤ largestCount then .ok (value, rest)
    else .error (.negativeCount field ((value : Int) - 2 ^ 32) offset)
  have hnext (offset value : Nat) : Takes (next offset value) fun other front =>
      value ≤ largestCount ∧ other = value ∧ front = [] := by
    by_cases h : value ≤ largestCount
    · simp only [next, if_pos h]
      exact (Takes.give value).congr fun other front => by simp [h]
    · simp only [next, if_neg h]
      exact (Takes.refuse fun _ => _).congr fun other front => by simp [h]
  refine ((takes_number 4).bind hnext).congr fun value front => ?_
  constructor
  · rintro ⟨_, head, tail, ⟨-, rfl⟩, ⟨hvalue, rfl, rfl⟩, rfl⟩
    exact ⟨hvalue, List.append_nil _⟩
  · rintro ⟨hvalue, rfl⟩
    exact ⟨value, _, [], ⟨Nat.lt_of_le_of_lt hvalue hlargest, rfl⟩, ⟨hvalue, rfl, rfl⟩,
      (List.append_nil _).symm⟩

/-! ### Lengths -/

/-- The bytes are a number in groups of seven bits, at most `limit` of them. The last one that there
may be has room for four bits. -/
inductive LengthSpelling : (limit : Nat) → (value : Nat) → List UInt8 → Prop where
  | last {limit : Nat} {byte : UInt8} (hlast : byte.toNat < 128)
      (hfits : limit = 0 → byte.toNat ≤ 15) : LengthSpelling (limit + 1) byte.toNat [byte]
  | more {limit value : Nat} {byte : UInt8} {rest : List UInt8} (hmore : 128 ≤ byte.toNat)
      (hrest : LengthSpelling limit value rest) :
      LengthSpelling (limit + 1) (byte.toNat % 128 + 128 * value) (byte :: rest)

theorem shiftLeft_group (payload higher shift : Nat) :
    payload <<< shift + higher <<< (shift + 7) = (payload + 128 * higher) <<< shift := by
  rw [Nat.shiftLeft_eq, Nat.shiftLeft_eq, Nat.shiftLeft_eq, Nat.pow_add, Nat.add_mul,
    Nat.mul_comm 128, Nat.mul_assoc, Nat.mul_comm (2 ^ shift)]

/-- Groups of a length take what spells it. They stand as high up as the groups before them say. -/
theorem takes_groups (start groups shift : Nat) :
    Takes (readGroups start groups shift) fun value front =>
      ∃ length, LengthSpelling groups length front ∧ value = length <<< shift := by
  induction groups generalizing shift with
  | zero =>
      intro bytes offset value unread
      refine ⟨nofun, ?_⟩
      rintro ⟨_, _, _, _, hspells, _⟩
      cases hspells
  | succ groups ih =>
      -- What comes behind the first group, by the cases of the reader.
      let next (_ : Nat) (byte : UInt8) : Read Nat := fun unread =>
        if groups = 0 ∧ 15 < byte.toNat % 128 then .error (.invalidLength start)
        else if byte.toNat < 128 then .ok ((byte.toNat % 128) <<< shift, unread)
        else readGroups start groups (shift + 7) unread >>= fun given =>
          .ok ((byte.toNat % 128) <<< shift + given.1, given.2)
      have hnext (offset : Nat) (byte : UInt8) : Takes (next offset byte) fun value front =>
          ∃ length, LengthSpelling (groups + 1) length (byte :: front) ∧
            value = length <<< shift := by
        by_cases hwide : groups = 0 ∧ 15 < byte.toNat % 128
        · simp only [next, if_pos hwide]
          refine (Takes.refuse fun _ => _).congr fun value front => ⟨False.elim, ?_⟩
          rintro ⟨length, hspells, -⟩
          obtain ⟨rfl, hwide⟩ := hwide
          cases hspells with
          | last hlast hfits =>
              have := hfits rfl
              omega
          | more _ hrest => cases hrest
        · simp only [next, if_neg hwide]
          by_cases hlast : byte.toNat < 128
          · simp only [if_pos hlast]
            refine (Takes.give _).congr fun value front => ?_
            rw [Nat.mod_eq_of_lt hlast] at hwide ⊢
            constructor
            · rintro ⟨rfl, rfl⟩
              exact ⟨_, .last hlast (by omega), rfl⟩
            · rintro ⟨length, hspells, rfl⟩
              cases hspells with
              | last => exact ⟨rfl, rfl⟩
              | more hmore => omega
          · simp only [if_neg hlast]
            refine ((ih (shift + 7)).map _).congr fun value front => ?_
            constructor
            · rintro ⟨_, ⟨length, hspells, rfl⟩, rfl⟩
              exact ⟨_, .more (Nat.not_lt.1 hlast) hspells, shiftLeft_group ..⟩
            · rintro ⟨_, hspells, rfl⟩
              cases hspells with
              | last hlast => omega
              | more hmore hrest =>
                  exact ⟨_, ⟨_, hrest, rfl⟩, shiftLeft_group ..⟩
      refine (takes_byte.bind hnext).congr fun value front => ?_
      constructor
      · rintro ⟨byte, _, tail, rfl, hlength, rfl⟩
        exact hlength
      · rintro ⟨length, hspells, rfl⟩
        cases hspells with
        | last hlast hfits => exact ⟨_, [_], [], rfl, ⟨_, .last hlast hfits, rfl⟩, rfl⟩
        | more hmore hrest => exact ⟨_, [_], _, rfl, ⟨_, .more hmore hrest, rfl⟩, rfl⟩

theorem takes_length : Takes readLength (LengthSpelling 5) := by
  intro bytes offset value unread
  rw [readLength, takes_groups offset 5 0 bytes offset value unread]
  refine exists_congr fun front => and_congr_right fun _ => and_congr_right fun _ => ?_
  constructor
  · rintro ⟨length, hspells, rfl⟩
    exact hspells
  · exact fun hspells => ⟨value, hspells, rfl⟩

end Artifact

end DocScript
