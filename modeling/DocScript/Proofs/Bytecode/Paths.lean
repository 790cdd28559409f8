import DocScript.Proofs.Bytecode.Flow
import DocScript.Bytecode.Function
import Mathlib.Logic.Relation

/-! # Paths through code

Every instruction takes a number of values from the stack and gives a number of others.
For calls these numbers depend on names, which are constants that were pushed right
before. A path goes on from each instruction to any that may be next, and the height of
the stack changes on the way as the instructions say. Where the flow of code is known,
all its paths are known.
-/

namespace DocScript

/-- The numbers of values that an operation takes and gives behind the pushes of constants, of
which the last one comes first. A call takes the name of a function and its arguments, a foreign
call the names of its symbol, of its library and of the type of its result, and its arguments with
their tags. -/
def Opcode.balance? (signatures : SignatureTable) (known : List Constant) (op : Opcode)
    (operand : Nat) : Option (Nat × Nat) :=
  match op with
  | .pushConst => some (0, 1)
  | .jmp | .halt => some (0, 0)
  | .jmpIfFalse | .ret => some (1, 0)
  | .call =>
      match known with
      | .scalar (.string callee) :: _ =>
          (signatures.get? callee).map fun signature => (operand + 1, signature.results)
      | _ => none
  | .ffiCall =>
      match known with
      | _ :: _ :: .scalar (.string result) :: _ =>
          some (2 * operand + 3, if result = "void" then 0 else 1)
      | _ => none
  | _ => op.effect? operand

/-- The offsets of the instructions that may be next. -/
def Opcode.goesTo (op : Opcode) (operand offset : Nat) : List Nat :=
  match op with
  | .jmp => [operand]
  | .jmpIfFalse => [offset + op.width, operand]
  | .ret | .halt => []
  | _ => [offset + op.width]

/-- Whether the next instruction is always the one behind the operation. -/
def Opcode.isStraight : Opcode → Bool
  | .jmp | .jmpIfFalse | .ret | .halt => false
  | _ => true

theorem Opcode.goesTo_of_isStraight {op : Opcode} (h : op.isStraight = true)
    (operand offset : Nat) : op.goesTo operand offset = [offset + op.width] := by
  cases op <;> first | rfl | cases h

/-- What has an effect whatever the names are, is straight and takes and gives as it says. -/
theorem Opcode.balance?_of_effect? {op : Opcode} {operand : Nat} {effect : Nat × Nat}
    (h : op.effect? operand = some effect) (signatures : SignatureTable) (known : List Constant) :
    op.balance? signatures known operand = some effect ∧ op.isStraight = true := by
  cases op <;> first | exact ⟨h, rfl⟩ | cases h

@[simp] theorem Point.height_bare (offset depth : Nat) :
    Point.height ⟨offset, [], depth⟩ = depth := Nat.zero_add depth

/-- A spot on a path: the offset of the next instruction, the constants that were pushed last, and
the height of the stack relative to where the path began. -/
structure Spot where
  offset : Nat
  known : List Constant
  height : Int

namespace Spot

/-- Where a function is entered. -/
def entry : Spot := ⟨0, [], 0⟩

/-- The next instruction begins in a piece of the code. -/
def Within (start finish : Nat) (spot : Spot) : Prop :=
  start ≤ spot.offset ∧ spot.offset < finish

/-- The spot is a point of the flow, with a number of values below it. -/
structure Over (spot : Spot) (point : Point) (below : Int) : Prop where
  offset : spot.offset = point.offset
  known : point.known.map Constant.scalar <+: spot.known
  height : spot.height = below + point.height

end Spot

namespace CompiledFunction

variable (function : CompiledFunction Constant) (signatures : SignatureTable)

/-- The constants that were pushed last, behind one more operation. -/
def pushed (known : List Constant) (op : Opcode) (operand : Nat) : List Constant :=
  match op with
  | .pushConst => (function.constants[operand]?).elim [] (· :: known)
  | _ => []

/-- The spot is at an instruction that takes and gives the numbers of values. -/
def Performs (spot : Spot) (op : Opcode) (operand taken given : Nat) : Prop :=
  Instruction.decode? function.code spot.offset = some (.operation op operand) ∧
    op.balance? signatures spot.known operand = some (taken, given)

/-- The spot behind the instruction, at an offset where it may go on. -/
def behind (spot : Spot) (op : Opcode) (operand taken given offset : Nat) : Spot where
  offset
  known := function.pushed spot.known op operand
  height := spot.height - taken + given

/-- A path may go on from one spot to the other. -/
def Follows (spot next : Spot) : Prop :=
  ∃ op operand taken given, function.Performs signatures spot op operand taken given ∧
    ∃ offset ∈ op.goesTo operand spot.offset,
      next = function.behind spot op operand taken given offset

/-- There is an instruction at the spot, and the stack has the values that it takes. -/
def Covered (spot : Spot) : Prop :=
  ∃ op operand taken given, function.Performs signatures spot op operand taken given ∧
    (taken : Int) ≤ spot.height

/-- Some path goes from one spot to the other. -/
def Path : Spot → Spot → Prop :=
  Relation.ReflTransGen (function.Follows signatures)

/-- Some path goes from one spot to the other through a piece of the code. Only its last spot may
be somewhere else. -/
def PathWithin (start finish : Nat) : Spot → Spot → Prop :=
  Relation.ReflTransGen fun spot next =>
    spot.Within start finish ∧ function.Follows signatures spot next

/-- Every path from the beginning of a piece of the code leaves it at its end, and by then it has
changed the height of the stack by an allowed number. -/
def Nets (start finish : Nat) (allowed : Int → Prop) : Prop :=
  ∀ first last, first.offset = start → function.PathWithin signatures start finish first last →
    ¬ last.Within start finish → last.offset = finish ∧ allowed (last.height - first.height)

/-- From the beginning of the piece of the code some path comes to its end. -/
def Crossed (start finish : Nat) : Prop :=
  ∀ first, first.offset = start →
    ∃ last, function.PathWithin signatures start finish first last ∧ last.offset = finish

variable {function signatures} {spot next : Spot} {op : Opcode} {operand taken given : Nat}

/-- At a spot there is only one instruction. -/
theorem Follows.of_performs (h : function.Follows signatures spot next)
    (hperforms : function.Performs signatures spot op operand taken given) :
    ∃ offset ∈ op.goesTo operand spot.offset,
      next = function.behind spot op operand taken given offset := by
  obtain ⟨op', operand', taken', given', hother, hnext⟩ := h
  cases hother.1.symm.trans hperforms.1
  cases hother.2.symm.trans hperforms.2
  exact hnext

end CompiledFunction

/-- Behind an instruction that takes and gives as the flow does the values below are the same. -/
theorem Spot.Over.behind {spot : Spot} {point other : Point} {below : Int}
    (hover : spot.Over point below) {function : CompiledFunction Constant} {op : Opcode}
    {operand taken given offset : Nat} (hoffset : offset = other.offset)
    (hknown : other.known.map Constant.scalar <+: function.pushed spot.known op operand)
    (hheight : other.height + taken = point.height + given) :
    (function.behind spot op operand taken given offset).Over other below where
  offset := hoffset
  known := hknown
  height := by
    have hbefore := hover.height
    simp only [CompiledFunction.behind]
    omega

namespace FlowScope

variable {scope : FlowScope} {function : CompiledFunction Constant} {signatures : SignatureTable}
  {next exits : Point → Prop} {point : Point} {spot : Spot} {below : Int}

/-- Whatever the scope reads as an operation of its code is one of the function, and all that it
gives counts. -/
structure Describes (scope : FlowScope) (signatures : SignatureTable)
    (function : CompiledFunction Constant) : Prop where
  pool : scope.pool = function.constants.toList
  signatures : scope.signatures = signatures
  left : ∀ offset, scope.left offset = 0
  code : ∀ offset op operand,
    Instruction.decode? scope.code offset = some (.operation op operand) →
      Instruction.decode? function.code offset = some (.operation op operand)

/-- Where code flows there is an instruction, the values that it takes are there, and wherever it
may go on the code flows on. -/
theorem Flows.performs (hdescribes : scope.Describes signatures function)
    (hover : spot.Over point below) (h : scope.Flows next point) :
    ∃ op operand taken given, function.Performs signatures spot op operand taken given ∧
      taken ≤ point.height ∧ ∀ offset ∈ op.goesTo operand spot.offset,
        ∃ other, next other ∧
          (function.behind spot op operand taken given offset).Over other below := by
  obtain ⟨command, hdecode, hgoes⟩ := h
  rw [← hover.offset] at hdecode
  have hdecode := hdescribes.code _ _ _ hdecode
  cases hgoes with
  | @push position value hconstant hnext =>
      rw [hdescribes.pool, Array.getElem?_toList] at hconstant
      refine ⟨_, _, 0, 1, ⟨hdecode, rfl⟩, Nat.zero_le _, fun offset hmem => ⟨_, hnext, ?_⟩⟩
      apply hover.behind
      · rw [List.mem_singleton.1 hmem, hover.offset]
        rfl
      · simp [CompiledFunction.pushed, hconstant, hover.known]
      · simp [Point.height]
        omega
  -- From here on nothing is known of what stands on the stack: only a push adds to it.
  | @plain op operand taken given rest heffect htaken hnext =>
      obtain ⟨hbalance, hstraight⟩ := Opcode.balance?_of_effect? heffect signatures spot.known
      refine ⟨_, _, taken, given, ⟨hdecode, hbalance⟩, by omega, fun offset hmem =>
        ⟨_, hnext, hover.behind ?_ List.nil_prefix ?_⟩⟩
      · rw [Opcode.goesTo_of_isStraight hstraight, List.mem_singleton] at hmem
        rw [hmem, hover.offset]
      · rw [Point.height_bare]
        omega
  | @jump target hnext =>
      refine ⟨_, _, 0, 0, ⟨hdecode, rfl⟩, Nat.zero_le _, fun offset hmem =>
        ⟨_, hnext, hover.behind (List.mem_singleton.1 hmem) List.nil_prefix ?_⟩⟩
      rw [Point.height_bare]
  | @branch target rest htaken hholds hfails =>
      refine ⟨_, _, 1, 0, ⟨hdecode, rfl⟩, by omega, fun offset hmem => ?_⟩
      simp only [Opcode.goesTo, List.mem_cons, List.not_mem_nil, or_false] at hmem
      rcases hmem with rfl | rfl
      · refine ⟨_, hholds, hover.behind (congrArg (· + 3) hover.offset) List.nil_prefix ?_⟩
        rw [Point.height_bare]
        omega
      · refine ⟨_, hfails, hover.behind rfl List.nil_prefix ?_⟩
        rw [Point.height_bare]
        omega
  -- The constant on top names the callee, and its signature says whether there is a result.
  | @call count rest kept callee others signature hknown hsignature htaken hkept hnext =>
      rw [hdescribes.left, Nat.zero_add] at hkept
      obtain ⟨more, hmore⟩ := hover.known
      rw [hknown, List.map_cons, List.cons_append] at hmore
      have hbalance : Opcode.call.balance? signatures spot.known count =
          some (count + 1, signature.results) := by
        rw [← hmore, ← hdescribes.signatures]
        simp only [Opcode.balance?, hsignature, Option.map_some]
      have hheight : point.height = others.length + 1 + point.depth := by
        rw [Point.height, hknown, List.length_cons]
      refine ⟨_, _, _, _, ⟨hdecode, hbalance⟩, by omega, fun offset hmem =>
        ⟨_, hnext, hover.behind ?_ List.nil_prefix ?_⟩⟩
      · rw [List.mem_singleton.1 hmem, hover.offset]
        rfl
      · rw [Point.height_bare]
        omega
  | @foreign count rest kept symbol lib result others hknown htaken hkept hnext =>
      rw [hdescribes.left, Nat.zero_add] at hkept
      obtain ⟨more, hmore⟩ := hover.known
      rw [hknown, List.map_cons, List.map_cons, List.map_cons] at hmore
      have hbalance : Opcode.ffiCall.balance? signatures spot.known count =
          some (2 * count + 3, if result = "void" then 0 else 1) := by
        rw [← hmore]
        rfl
      have hheight : point.height = others.length + 3 + point.depth := by
        rw [Point.height, hknown, List.length_cons, List.length_cons, List.length_cons]
      refine ⟨_, _, _, _, ⟨hdecode, hbalance⟩, by omega, fun offset hmem =>
        ⟨_, hnext, hover.behind ?_ List.nil_prefix ?_⟩⟩
      · rw [List.mem_singleton.1 hmem, hover.offset]
        rfl
      · rw [Point.height_bare]
        omega
  | giveBack _ hvalue _ => exact ⟨_, _, 1, 0, ⟨hdecode, rfl⟩, hvalue, List.forall_mem_nil _⟩
  | halt => exact ⟨_, _, 0, 0, ⟨hdecode, rfl⟩, Nat.zero_le _, List.forall_mem_nil _⟩

/-- Paths that end where the flow comes to an exit follow the flow. -/
theorem Leads.follow (hdescribes : scope.Describes signatures function)
    {hop : Spot → Spot → Prop}
    (hhop : ∀ spot next, hop spot next → function.Follows signatures spot next)
    (hexits : ∀ spot point next, exits point → spot.Over point below → ¬ hop spot next)
    (h : scope.Leads exits point) {first last : Spot} (hover : first.Over point below)
    (hpath : Relation.ReflTransGen hop first last) :
    ∃ other, scope.Leads exits other ∧ last.Over other below := by
  induction hpath with
  | refl => exact ⟨point, h, hover⟩
  | @tail spot next _ hlast ih =>
      obtain ⟨other, hleads, hover⟩ := ih
      rcases hleads.cases with harrived | hflows
      · exact absurd hlast (hexits spot other next harrived hover)
      · obtain ⟨op, operand, taken, given, hperforms, -, hgoes⟩ :=
          hflows.performs hdescribes hover
        obtain ⟨offset, hmem, rfl⟩ := (hhop spot next hlast).of_performs hperforms
        exact hgoes offset hmem

end FlowScope

/-! ### Pieces of code -/

open Command

/-- A piece of code by itself. Nothing can be read before it or behind it. -/
def Command.alone (start : Nat) (commands : List Command) : Array UInt8 :=
  (List.replicate start 0x21 ++ assemble commands).toArray

section Pieces

variable {code piece : Array UInt8} {start offset operand : Nat} {op : Opcode}
  {commands : List Command}

/-- An operation that can be read can also be read where there are more bytes. -/
theorem Instruction.decode?_of_bytes
    (hbytes : ∀ index byte, offset ≤ index → piece[index]? = some byte → code[index]? = some byte)
    (h : decode? piece offset = some (.operation op operand)) :
    decode? code offset = some (.operation op operand) := by
  obtain ⟨byte, hbyte, hread⟩ := Option.map_eq_some_iff.1 h
  unfold decode?
  rw [hbytes offset byte (Nat.le_refl _) hbyte, Option.map_some]
  split at hread
  next => cases hread
  next found hfound =>
    split at hread
    next value hvalue =>
      have hsame : operand? code found offset = some value := by
        unfold operand? word? at hvalue ⊢
        split at hvalue
        next => exact hvalue
        next =>
          split at hvalue
          next low high hlow hhigh =>
            rw [hbytes _ low (by omega) hlow, hbytes _ high (by omega) hhigh]
            exact hvalue
          next => cases hvalue
        next =>
          obtain ⟨count, hcount, heq⟩ := Option.map_eq_some_iff.1 hvalue
          rw [hbytes _ count (by omega) hcount, Option.map_some, heq]
      simp only [hsame, hread]
    next => cases hread

theorem Command.Loaded.alone (h : Loaded code start commands) :
    Loaded (alone start commands) start commands where
  stands := ⟨List.replicate start 0x21, [], by simp [Command.alone], List.length_replicate⟩
  fits := h.fits

/-- What can be read of a piece by itself stands inside the piece, and reads as it does in the
whole code. -/
theorem Command.Loaded.decode?_of_alone (hloaded : Loaded code start commands)
    (h : Instruction.decode? (Command.alone start commands) offset =
      some (.operation op operand)) :
    start ≤ offset ∧ offset < start + size commands ∧
      Instruction.decode? code offset = some (.operation op operand) := by
  have hsize : (Command.alone start commands).size = start + size commands := by
    simp [Command.alone, size]
  have hbegin : start ≤ offset := by
    apply Nat.le_of_not_lt
    intro hbefore
    -- No operation has the byte that fills the code in front of the piece.
    have hbyte : (Command.alone start commands)[offset]? = some 0x21 := by
      simp [Command.alone, List.getElem?_append, hbefore]
    rw [Instruction.decode?, hbyte] at h
    cases h
  refine ⟨hbegin, hsize ▸ Instruction.lt_size_of_decode? h, ?_⟩
  apply Instruction.decode?_of_bytes (fun index byte hindex hbyte => ?_) h
  obtain ⟨before, after, hcode, rfl⟩ := hloaded.stands
  have hfar : before.length ≤ index := Nat.le_trans hbegin hindex
  rw [← Array.getElem?_toList, hcode, List.append_assoc, List.getElem?_append_right hfar]
  rw [Command.alone, List.getElem?_toArray, List.getElem?_append_right (by simpa using hfar),
    List.length_replicate] at hbyte
  rw [List.getElem?_append_left (List.getElem?_eq_some_iff.1 hbyte).1, hbyte]

end Pieces

section Nets

variable {scope : FlowScope} {function : CompiledFunction Constant} {signatures : SignatureTable}
  {start : Nat} {commands : List Command} {exits : Point → Prop}

/-- The flow of a piece by itself says how all paths through it change the height of the stack. -/
theorem FlowScope.Leads.nets (hcode : scope.code = Command.alone start commands)
    (hpool : scope.pool = function.constants.toList) (hsignatures : scope.signatures = signatures)
    (hkeeps : ∀ offset, scope.left offset = 0) (hloaded : Loaded function.code start commands)
    (h : scope.Leads exits ⟨start, [], 0⟩)
    {allowed : Int → Prop} (hexits : ∀ point, exits point →
      point.offset = start + size commands ∧ allowed point.height) :
    function.Nets signatures start (start + size commands) allowed := by
  intro first last hfirst hpath hleft
  have hdescribes : scope.Describes signatures function :=
    ⟨hpool, hsignatures, hkeeps, fun offset op operand hread =>
      (hloaded.decode?_of_alone (hcode ▸ hread)).2.2⟩
  have hover : first.Over ⟨start, [], 0⟩ first.height :=
    ⟨hfirst, List.nil_prefix, by simp⟩
  obtain ⟨point, hleads, hlast⟩ := h.follow hdescribes (fun _ _ hhop => hhop.2)
    (fun spot point next hexit hover hhop => by
      have hinside := hhop.1.2
      rw [hover.offset, (hexits point hexit).1] at hinside
      exact Nat.lt_irrefl _ hinside) hover hpath
  rcases hleads.cases with hexit | ⟨command, hread, -⟩
  · refine ⟨hlast.offset.trans (hexits point hexit).1, ?_⟩
    have hheight : last.height - first.height = point.height := by
      have := hlast.height
      omega
    rw [hheight]
    exact (hexits point hexit).2
  · -- Where the piece can be read, the path has not left it.
    rw [hcode] at hread
    obtain ⟨hbegin, hend, -⟩ := hloaded.decode?_of_alone hread
    rw [← hlast.offset] at hbegin hend
    exact absurd ⟨hbegin, hend⟩ hleft

/-- Straight code that flows to its end is crossed by a path. -/
theorem FlowScope.Leads.exists_path (hdescribes : scope.Describes signatures function)
    {begin finish : Nat} (hloaded : Loaded function.code start commands)
    (hstraight : ∀ command ∈ commands, command.op.isStraight = true)
    (hbegin : begin ≤ start) (hfinish : finish = start + size commands)
    (hexits : ∀ point, exits point → point.offset = finish) {first : Spot} {point : Point}
    {below : Int} (hover : first.Over point below) (hfirst : first.offset = start)
    (h : scope.Leads exits point) :
    ∃ last, function.PathWithin signatures begin finish first last ∧ last.offset = finish := by
  induction commands generalizing start first point with
  | nil => exact ⟨first, .refl, hfirst.trans hfinish.symm⟩
  | cons command rest ih =>
      have hwidth := command.op.width_pos
      rw [size_cons] at hfinish
      -- Before the last command no exit is reached, since an exit stands at the end.
      rcases h.cases with hexit | hflows
      · have hend := hexits point hexit
        rw [← hover.offset] at hend
        omega
      · obtain ⟨op, operand, taken, given, hperforms, -, hgoes⟩ := hflows.performs hdescribes hover
        have hsame := hperforms.1
        rw [hfirst, hloaded.decode] at hsame
        cases hsame
        have hnext : start + command.op.width ∈ command.op.goesTo command.operand first.offset := by
          rw [Opcode.goesTo_of_isStraight (hstraight command List.mem_cons_self), hfirst]
          exact List.mem_singleton_self _
        obtain ⟨other, hleads, hbehind⟩ := hgoes _ hnext
        obtain ⟨last, hpath, hlast⟩ := ih hloaded.tail
          (fun other hmem => hstraight other (List.mem_cons_of_mem _ hmem))
          (by omega) (by omega) hbehind rfl hleads
        refine ⟨last, .head ⟨⟨?_, ?_⟩, _, _, _, _, hperforms, _, hnext, rfl⟩ hpath, hlast⟩
        · rwa [hfirst]
        · omega

end Nets

end DocScript
