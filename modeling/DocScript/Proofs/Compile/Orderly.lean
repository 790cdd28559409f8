import Mathlib.Data.List.Basic
import DocScript.Proofs.Compile.ExprLowering
import DocScript.Proofs.Compile.Signatures

/-! # Orderly code

Code is orderly if each command names only what is there, if what a call takes as a name
was pushed right before it, and if every jump lands at the beginning of a command or at
the end of the code. Orderly pieces put together are orderly.
-/

namespace DocScript

open Command FunctionBuilder Opcode

namespace Opcode

def isJump : Opcode → Bool
  | .jmp | .jmpIfFalse => true
  | _ => false

/-- Whether the operation takes the name of a function from the top of the stack. -/
def takesName : Opcode → Bool
  | .call | .onEvent => true
  | _ => false

def stores : Opcode → Bool
  | .storeLocal | .storeLocalInt => true
  | _ => false

def usesLocal : Opcode → Bool
  | .loadLocal | .storeLocal | .storeLocalInt => true
  | _ => false

/-- Whether the operation is an operator with a number of operands. -/
def isOperator : Opcode → Bool
  | .add | .sub | .mul | .div | .mod | .eq | .gt | .lt | .and | .or => true
  | _ => false

/-- Jumps and all that uses a local have an operand of two bytes. -/
theorem operand_of_word {op : Opcode}
    (h : op = .pushConst ∨ op.usesLocal = true ∨ op.stores = true ∨ op.isJump = true) :
    op.operand = .word := by
  revert h
  cases op <;> decide

theorem operand_of_isOperator {op : Opcode} (h : op.isOperator = true) : op.operand = .count := by
  revert h
  cases op <;> decide

theorem operand_of_takesName {op : Opcode} (h : op.takesName = true) : op.operand ≠ .word := by
  revert h
  cases op <;> decide

theorem takesName_of_isOperator {op : Opcode} (h : op.isOperator = true) :
    op.takesName = false := by
  revert h
  cases op <;> decide

end Opcode

theorem Operator.isOperator_opcode (operator : Operator) : operator.opcode.isOperator = true := by
  cases operator with
  | arithmetic op => cases op <;> rfl
  | _ => rfl

/-- What the commands of a function may refer to, and whether the function gives a value. -/
structure CodeLimits where
  signatures : SignatureTable
  pool : List Constant
  paramCount : Nat
  localCount : Nat
  valued : Bool

namespace CodeLimits

variable (limits : CodeLimits)

/-- The operand of the command fits its field and names something that is there, and the command
returns a value only if there is to be one. -/
structure Allows (command : Command) : Prop where
  fits : command.Fits
  constant : command.op = .pushConst → ∃ value, Holds limits.pool command.operand value
  slot : command.op.usesLocal = true → command.operand < limits.localCount
  written : command.op.stores = true → limits.paramCount ≤ command.operand
  counted : command.op.isOperator = true → 1 ≤ command.operand
  returned : command.op = .ret → limits.valued = true

/-- Whatever takes a name has the push of the name of a known function right before it. A call
takes as many arguments as that function has parameters, and no native function is a handler. -/
def Named (commands : List Command) : Prop :=
  ∀ before command after, commands = before ++ command :: after → command.op.takesName = true →
    ∃ earlier position name signature, before = earlier ++ [⟨.pushConst, position⟩] ∧
      Holds limits.pool position (.string name) ∧
      limits.signatures.get? name = some signature ∧
      (command.op = .call → command.operand = signature.params.length) ∧
      (command.op = .onEvent → ∀ native, name ≠ (SignatureTable.native native).name)

end CodeLimits

/-- A command that needs no name begins at the offset, or the code ends there. -/
def Landing (commands : List Command) (start offset : Nat) : Prop :=
  (∃ command, (offset, command) ∈ placed commands start ∧ command.op.takesName = false) ∨
    offset = start + size commands

/-- Every jump lands inside the code, at its end, or at one of the given exits. -/
def Sealed (exits : Nat → Prop) (commands : List Command) (start : Nat) : Prop :=
  ∀ place command, (place, command) ∈ placed commands start → command.op.isJump = true →
    Landing commands start command.operand ∨ exits command.operand

/-- A command among commands and others behind them is among the first or among the others. -/
theorem split_append {first second before rest : List Command} {command : Command}
    (h : first ++ second = before ++ command :: rest) :
    (∃ behind, first = before ++ command :: behind) ∨
      ∃ inner, before = first ++ inner ∧ second = inner ++ command :: rest := by
  rcases List.append_eq_append_iff.1 h with ⟨inner, hbefore, hinner⟩ | ⟨inner, hfront, hinner⟩
  · exact .inr ⟨inner, hbefore, hinner⟩
  · cases inner with
    | nil => exact .inr ⟨[], by simpa using hfront.symm, hinner.symm⟩
    | cons head behind =>
        rw [List.cons_append, List.cons.injEq] at hinner
        exact .inl ⟨behind, hinner.1 ▸ hfront⟩

namespace CodeLimits

variable {limits : CodeLimits} {first second commands : List Command} {start offset : Nat}

theorem Named.append (hfirst : limits.Named first) (hsecond : limits.Named second) :
    limits.Named (first ++ second) := by
  intro before command after hsplit htakes
  rcases split_append hsplit with ⟨behind, hfront⟩ | ⟨inner, rfl, hinner⟩
  · exact hfirst before command behind hfront htakes
  · obtain ⟨earlier, position, name, signature, rfl, hpushed⟩ :=
      hsecond inner command after hinner htakes
    exact ⟨first ++ earlier, position, name, signature, by rw [List.append_assoc], hpushed⟩

/-- Code never begins with what takes a name. -/
theorem Named.head {command : Command} {rest : List Command}
    (h : limits.Named (command :: rest)) : command.op.takesName = false := by
  cases htakes : command.op.takesName with
  | false => rfl
  | true =>
      obtain ⟨earlier, position, name, signature, hnil, _⟩ := h [] command rest rfl htakes
      simp at hnil

theorem Named.landing (h : limits.Named commands) (start : Nat) :
    Landing commands start start := by
  cases commands with
  | nil => exact .inr rfl
  | cons command rest => exact .inl ⟨command, List.mem_cons_self, h.head⟩

end CodeLimits

namespace Landing

variable {limits : CodeLimits} {first second : List Command} {start offset : Nat}

theorem right (h : Landing second (start + size first) offset) :
    Landing (first ++ second) start offset := by
  rcases h with ⟨command, hmem, htakes⟩ | hend
  · refine .inl ⟨command, ?_, htakes⟩
    rw [placed_append]
    exact List.mem_append_right _ hmem
  · refine .inr ?_
    rw [size_append, hend, Nat.add_assoc]

theorem left (h : Landing first start offset) (hsecond : limits.Named second) :
    Landing (first ++ second) start offset := by
  rcases h with ⟨command, hmem, htakes⟩ | hend
  · refine .inl ⟨command, ?_, htakes⟩
    rw [placed_append]
    exact List.mem_append_left _ hmem
  · rw [hend]
    exact (hsecond.landing _).right

end Landing

/-- Code that is orderly, up to jumps to the given exits. -/
structure Orderly (limits : CodeLimits) (exits : Nat → Prop) (commands : List Command)
    (start : Nat) : Prop where
  allows : ∀ command ∈ commands, limits.Allows command
  named : limits.Named commands
  closed : Sealed exits commands start

namespace Orderly

variable {limits : CodeLimits} {exits : Nat → Prop} {first second commands : List Command}
  {start : Nat}

theorem nil : Orderly limits exits [] start where
  allows := nofun
  named := by
    intro before command after hsplit
    simp at hsplit
  closed := nofun

theorem append (hfirst : Orderly limits exits first start)
    (hsecond : Orderly limits exits second (start + size first)) :
    Orderly limits exits (first ++ second) start where
  allows command hmem :=
    (List.mem_append.1 hmem).elim (hfirst.allows command) (hsecond.allows command)
  named := hfirst.named.append hsecond.named
  closed := by
    intro place command hmem hjump
    rw [placed_append, List.mem_append] at hmem
    rcases hmem with hmem | hmem
    · exact (hfirst.closed place command hmem hjump).imp_left (·.left hsecond.named)
    · exact (hsecond.closed place command hmem hjump).imp_left (·.right)

/-- A single command that takes no name; if it is a jump, it jumps to an exit. -/
theorem single {command : Command} (hallows : limits.Allows command)
    (htakes : command.op.takesName = false)
    (hjump : command.op.isJump = true → exits command.operand) :
    Orderly limits exits [command] start where
  allows other hmem := by
    rw [List.mem_singleton] at hmem
    exact hmem ▸ hallows
  named := by
    intro before other after hsplit hother
    have hmem : other ∈ [command] := hsplit ▸ List.mem_append_right _ List.mem_cons_self
    rw [List.mem_singleton] at hmem
    rw [hmem, htakes] at hother
    cases hother
  closed := by
    intro place other hmem hother
    simp only [placed, List.mem_singleton, Prod.mk.injEq] at hmem
    rw [hmem.2] at hother ⊢
    exact .inr (hjump hother)

/-- Exits at which something begins after all need no longer be counted as exits. -/
theorem close {others : Nat → Prop} (h : Orderly limits exits commands start)
    (hexits : ∀ target, exits target → Landing commands start target ∨ others target) :
    Orderly limits others commands start where
  allows := h.allows
  named := h.named
  closed place command hmem hjump :=
    (h.closed place command hmem hjump).elim .inl (hexits command.operand)

/-! ### Single commands -/

theorem bare {op : Opcode} (hop : op.operand = .none) (htakes : op.takesName = false)
    (hreturned : op = .ret → limits.valued = true) : Orderly limits exits [⟨op, 0⟩] start := by
  have hword : op.operand ≠ .word := by simp [hop]
  refine single ⟨?_, ?_, ?_, ?_, ?_, hreturned⟩ htakes ?_
  · simp [Fits, hop]
  · exact fun h => absurd (operand_of_word (.inl h)) hword
  · exact fun h => absurd (operand_of_word (.inr (.inl h))) hword
  · exact fun h => absurd (operand_of_word (.inr (.inr (.inl h)))) hword
  · exact fun h => absurd (operand_of_isOperator h) (by simp [hop])
  · exact fun h => absurd (operand_of_word (.inr (.inr (.inr h)))) hword

theorem push {position : Nat} {value : Scalar} (hpool : Holds limits.pool position value) :
    Orderly limits exits [⟨.pushConst, position⟩] start :=
  single ⟨hpool.2, fun _ => ⟨value, hpool⟩, nofun, nofun, nofun, nofun⟩ rfl nofun

theorem counted {op : Opcode} {count : Nat} (hop : op.operand = .count)
    (htakes : op.takesName = false) (hcount : count ≤ largestCount)
    (hpositive : op.isOperator = true → 1 ≤ count) :
    Orderly limits exits [⟨op, count⟩] start := by
  have hword : op.operand ≠ .word := by simp [hop]
  have hreturned : op ≠ .ret := by
    rintro rfl
    cases hop
  refine single ⟨?_, ?_, ?_, ?_, hpositive, fun h => absurd h hreturned⟩ htakes ?_
  · simpa [Fits, hop] using hcount
  · exact fun h => absurd (operand_of_word (.inl h)) hword
  · exact fun h => absurd (operand_of_word (.inr (.inl h))) hword
  · exact fun h => absurd (operand_of_word (.inr (.inr (.inl h)))) hword
  · exact fun h => absurd (operand_of_word (.inr (.inr (.inr h)))) hword

theorem jump {op : Opcode} {target : Nat} (hop : op.isJump = true) (hword : target ≤ largestWord)
    (hexit : exits target) : Orderly limits exits [⟨op, target⟩] start := by
  have hkind : op = .jmp ∨ op = .jmpIfFalse := by
    revert hop
    cases op <;> decide
  rcases hkind with rfl | rfl <;>
    exact single ⟨hword, nofun, nofun, nofun, nofun, nofun⟩ rfl fun _ => hexit

/-- What takes a name, with the push of that name. -/
theorem naming {op : Opcode} {position operand : Nat} {name : String} {signature : Signature}
    (hpool : Holds limits.pool position (.string name))
    (hknown : limits.signatures.get? name = some signature) (hop : op.takesName = true)
    (hcall : op = .call → operand = signature.params.length)
    (hevent : op = .onEvent → ∀ native, name ≠ (SignatureTable.native native).name)
    (hfits : Fits ⟨op, operand⟩) :
    Orderly limits exits [⟨.pushConst, position⟩, ⟨op, operand⟩] start where
  allows command hmem := by
    rw [List.mem_cons, List.mem_singleton] at hmem
    rcases hmem with rfl | rfl
    · exact ⟨hpool.2, fun _ => ⟨_, hpool⟩, nofun, nofun, nofun, nofun⟩
    · have hword := operand_of_takesName hop
      have hreturned : op ≠ .ret := by
        rintro rfl
        cases hop
      refine ⟨hfits, ?_, ?_, ?_, ?_, fun h => absurd h hreturned⟩
      · exact fun h => absurd (operand_of_word (.inl h)) hword
      · exact fun h => absurd (operand_of_word (.inr (.inl h))) hword
      · exact fun h => absurd (operand_of_word (.inr (.inr (.inl h)))) hword
      · exact fun h => absurd (hop.symm.trans (takesName_of_isOperator h)) nofun
  named := by
    intro before command after hsplit htakes
    cases before with
    | nil =>
        rw [List.nil_append, List.cons.injEq] at hsplit
        rw [← hsplit.1] at htakes
        cases htakes
    | cons head rest =>
        rw [List.cons_append, List.cons.injEq] at hsplit
        cases rest with
        | nil =>
            obtain ⟨rfl, hlast⟩ := hsplit
            obtain ⟨rfl, -⟩ := List.cons.inj hlast
            exact ⟨[], position, name, signature, rfl, hpool, hknown, hcall, hevent⟩
        | cons => simp at hsplit
  closed := by
    intro place command hmem hjump
    simp only [placed, List.mem_cons, List.not_mem_nil, or_false, Prod.mk.injEq] at hmem
    rcases hmem with ⟨-, rfl⟩ | ⟨-, rfl⟩
    · cases hjump
    · exact absurd (operand_of_word (.inr (.inr (.inr hjump)))) (operand_of_takesName hop)

/-! ### Jumps -/

variable {test : List Command} {middle target : Nat}

/-- Code that is passed over unless a test holds. -/
theorem branch (htest : ∀ exits, Orderly limits exits test start)
    (hfirst : ∀ exits, Orderly limits exits first (start + size test + 3))
    (htarget : target = start + size test + 3 + size first) (hword : target ≤ largestWord) :
    Orderly limits exits (test ++ ⟨.jmpIfFalse, target⟩ :: first) start := by
  let behind : Nat → Prop := fun offset => offset = target
  have hjump : Orderly limits behind [⟨.jmpIfFalse, target⟩] (start + size test) :=
    .jump rfl hword rfl
  have hwhole : Orderly limits behind (test ++ ⟨.jmpIfFalse, target⟩ :: first) start :=
    (htest behind).append (hjump.append (hfirst behind))
  refine hwhole.close fun offset hbehind => .inl (.inr ?_)
  rw [hbehind, htarget, size_append, size_cons]
  simp only [Opcode.width, Opcode.operand]
  omega

/-- A choice between two pieces of code. -/
theorem branchElse (htest : ∀ exits, Orderly limits exits test start)
    (hfirst : ∀ exits, Orderly limits exits first (start + size test + 3))
    (hmiddle : middle = start + size test + 3 + size first + 3)
    (hsecond : ∀ exits, Orderly limits exits second middle)
    (htarget : target = middle + size second) (hword : target ≤ largestWord) :
    Orderly limits exits
      (test ++ ⟨.jmpIfFalse, middle⟩ :: (first ++ ⟨.jmp, target⟩ :: second)) start := by
  let inside : Nat → Prop := fun offset => offset = middle ∨ offset = target
  have hword' : middle ≤ largestWord := by omega
  have hskip : Orderly limits inside [⟨.jmpIfFalse, middle⟩] (start + size test) :=
    .jump rfl hword' (.inl rfl)
  have hleave : Orderly limits inside [⟨.jmp, target⟩] (start + size test + 3 + size first) :=
    .jump rfl hword (.inr rfl)
  have hbehind : Orderly limits inside second (start + size test + 3 + size first + 3) :=
    hmiddle ▸ hsecond inside
  have hwhole : Orderly limits inside
      (test ++ ⟨.jmpIfFalse, middle⟩ :: (first ++ ⟨.jmp, target⟩ :: second)) start :=
    (htest inside).append (hskip.append ((hfirst inside).append (hleave.append hbehind)))
  have hbegin : Landing second (start + size test + 3 + size first + 3) middle :=
    hmiddle ▸ (hsecond inside).named.landing middle
  refine hwhole.close fun offset hinside => .inl ?_
  rcases hinside with rfl | rfl
  · -- The second piece begins behind the jump that ends the first one.
    have hjump : Landing ([⟨.jmp, target⟩] ++ second) (start + size test + 3 + size first) offset :=
      hbegin.right
    have hskipped : Landing ([⟨.jmpIfFalse, offset⟩] ++ (first ++ ([⟨.jmp, target⟩] ++ second)))
        (start + size test) offset := Landing.right (Landing.right hjump)
    exact hskipped.right
  · refine .inr ?_
    rw [htarget, hmiddle, size_append, size_cons, size_append, size_cons]
    simp only [Opcode.width, Opcode.operand]
    omega

/-- Code that is run again and again while a test holds. -/
theorem loop (htest : ∀ exits, Orderly limits exits test start)
    (hbody : ∀ exits, Orderly limits exits commands (start + size test + 3))
    (htarget : target = start + size test + 3 + size commands + 3) (hword : target ≤ largestWord) :
    Orderly limits exits (test ++ ⟨.jmpIfFalse, target⟩ :: (commands ++ [⟨.jmp, start⟩]))
      start := by
  let ends : Nat → Prop := fun offset => offset = target ∨ offset = start
  have hword' : start ≤ largestWord := by omega
  have hleave : Orderly limits ends [⟨.jmpIfFalse, target⟩] (start + size test) :=
    .jump rfl hword (.inl rfl)
  have hback : Orderly limits ends [⟨.jmp, start⟩] (start + size test + 3 + size commands) :=
    .jump rfl hword' (.inr rfl)
  have hwhole : Orderly limits ends
      (test ++ ⟨.jmpIfFalse, target⟩ :: (commands ++ [⟨.jmp, start⟩])) start :=
    (htest ends).append (hleave.append ((hbody ends).append hback))
  refine hwhole.close fun offset hends => .inl ?_
  rcases hends with rfl | rfl
  · refine .inr ?_
    rw [htarget, size_append, size_cons, size_append, size_cons, size_nil]
    simp only [Opcode.width, Opcode.operand]
    omega
  · exact hwhole.named.landing offset

end Orderly

/-! ### The code of bodies -/

/-- The limits of a function go with the names in its body. -/
structure CodeLimits.Covers (limits : CodeLimits) (body : BodyScope) : Prop where
  signatures : limits.signatures = body.signatures
  valued : limits.valued = body.names.returns.isSome
  slot : ∀ name target, body.names.slot? name = some target → target.slot < limits.localCount
  written : ∀ name target, body.Writes name target → limits.paramCount ≤ target.slot
  few : limits.localCount ≤ largestWord + 1

section Bodies

variable {limits : CodeLimits} {body : BodyScope} (hcovers : limits.Covers body)
  {exits : Nat → Prop} {assigned : List String}

include hcovers

theorem CodeLimits.Covers.load {name : String} {target : LocalSlot}
    (hread : body.Reads assigned name target) (start : Nat) :
    Orderly limits exits [⟨.loadLocal, target.slot⟩] start := by
  have hslot := hcovers.slot name target hread.1
  have hfew := hcovers.few
  refine Orderly.single ⟨?_, nofun, fun _ => hslot, nofun, nofun, nofun⟩ rfl nofun
  exact Nat.le_of_lt_succ (Nat.lt_of_lt_of_le hslot hfew)

theorem CodeLimits.Covers.store {name : String} {target : LocalSlot}
    (hwrite : body.Writes name target) (start : Nat) :
    Orderly limits exits [target.store] start := by
  have hslot := hcovers.slot name target hwrite.2
  have hfits : target.slot ≤ largestWord :=
    Nat.le_of_lt_succ (Nat.lt_of_lt_of_le hslot hcovers.few)
  unfold LocalSlot.store LocalSlot.storeOp
  split
  all_goals
    exact Orderly.single
      ⟨hfits, nofun, fun _ => hslot, fun _ => hcovers.written name target hwrite, nofun, nofun⟩
      rfl nofun

theorem CodeLimits.Covers.call {asValue : Bool} {target : CallTarget} {place : ArgumentPlace}
    {names : List String} {callee : String} {signature : Signature} {position : Nat}
    (hcall : body.Calls asValue target place names callee signature)
    (hpool : Holds limits.pool position (.string callee)) (start : Nat) :
    Orderly limits exits [⟨.pushConst, position⟩, ⟨.call, signature.params.length⟩] start := by
  exact Orderly.naming hpool (hcovers.signatures ▸ hcall.known) rfl (fun _ => rfl) nofun hcall.few

end Bodies

/-- The names of native functions have no dot behind the one of their namespace, so no other
namespace reaches them. -/
theorem BodyScope.Subscribes.not_native {body : BodyScope} {handler : HandlerTarget}
    {callee : String} (h : body.Subscribes handler callee) (native : Native) :
    callee ≠ (SignatureTable.native native).name := by
  obtain ⟨function, -, rfl⟩ := h.named
  intro hsame
  have hspace : '.' ∉ nativeNamespace.toList := by decide
  have hname : '.' ∉ native.name.toList := by cases native <;> decide
  have hchars : (handler.space.getD body.names.space).toList ++ '.' :: function.toList =
      nativeNamespace.toList ++ '.' :: native.name.toList := by
    simpa [SignatureTable.native] using congrArg String.toList hsame
  have hparts := (List.append_cons_inj_of_notMem hspace hname).1 hchars.symm
  exact h.foreign (String.toList_inj.1 hparts.1.symm)

variable {limits : CodeLimits} {body : BodyScope} {exits : Nat → Prop} {assigned : List String}

mutual

theorem ExprCode.orderly {expr : Expr} {commands : List Command}
    (hcovers : limits.Covers body)
    (h : ExprCode body limits.pool assigned expr commands) (start : Nat) :
    Orderly limits exits commands start := by
  match h with
  | .int hvalue | .float hvalue | .bool hvalue | .null hvalue | .string hvalue =>
      exact .push hvalue
  | .reference hread | .named hread => exact hcovers.load hread start
  | .overfull hexpr => exact ExprCode.orderly hcovers hexpr start
  | .array hcount _ hitems =>
      exact (ItemsCode.orderly hcovers hitems start).append (.counted rfl rfl hcount nofun)
  | .not hoperand | .negate _ hoperand | .length _ hoperand =>
      exact (ExprCode.orderly hcovers hoperand start).append (.bare rfl rfl nofun)
  | .operator hpositive hcount hoperands =>
      refine (ItemsCode.orderly hcovers hoperands start).append (.counted ?_ ?_ hcount ?_)
      · exact Operator.operand_opcode _
      · exact takesName_of_isOperator (Operator.isOperator_opcode _)
      · exact fun _ => List.length_pos_iff.2 hpositive
  | .get hread hindex =>
      rw [← List.singleton_append]
      exact (hcovers.load hread.1 start).append
        ((ExprCode.orderly hcovers hindex _).append (.bare rfl rfl nofun))
  | .call hcall harguments hname =>
      exact (ArgumentsCode.orderly hcovers harguments start).append (hcovers.call hcall hname _)

theorem ItemsCode.orderly {operator : Option Operator} {items : List Expr}
    {commands : List Command} (hcovers : limits.Covers body)
    (h : ItemsCode body limits.pool assigned operator items commands)
    (start : Nat) : Orderly limits exits commands start := by
  match h with
  | .nil => exact .nil
  | .cons _ hitem hrest =>
      exact (ExprCode.orderly hcovers hitem start).append (ItemsCode.orderly hcovers hrest _)

theorem ArgumentCode.orderly {param : Parameter} {arguments : List (String × Expr)}
    {commands : List Command} (hcovers : limits.Covers body)
    (h : ArgumentCode body limits.pool assigned param arguments commands)
    (start : Nat) : Orderly limits exits commands start := by
  match h with
  | .given _ _ hargument => exact ExprCode.orderly hcovers hargument start
  | .later _ hrest => exact ArgumentCode.orderly hcovers hrest start
  | .omitted _ hvalue => exact .push hvalue

theorem ArgumentsCode.orderly {arguments : List (String × Expr)} {params : List Parameter}
    {commands : List Command} (hcovers : limits.Covers body)
    (h : ArgumentsCode body limits.pool assigned arguments params commands)
    (start : Nat) : Orderly limits exits commands start := by
  match h with
  | .nil => exact .nil
  | .cons hparam hrest =>
      exact (ArgumentCode.orderly hcovers hparam start).append
        (ArgumentsCode.orderly hcovers hrest _)

end

theorem ForeignCode.orderly (hcovers : limits.Covers body) {operands : List ForeignOperand}
    {commands : List Command} (h : ForeignCode body limits.pool assigned operands commands)
    (start : Nat) : Orderly limits exits commands start := by
  induction h generalizing start with
  | nil => exact .nil
  | cons htag hvalue _ ih =>
      rw [← List.singleton_append]
      exact (Orderly.push htag).append ((hvalue.orderly hcovers _).append (ih _))

theorem ForeignCallCode.orderly (hcovers : limits.Covers body)
    {lib symbol returns : Field String} {operands : Field (List ForeignOperand)}
    {result : String} {commands : List Command}
    (h : ForeignCallCode body limits.pool assigned lib symbol returns operands result commands)
    (start : Nat) : Orderly limits exits commands start := by
  obtain ⟨_, _, hcount, hoperands, hresult, hlib, hsymbol⟩ := h
  refine (hoperands.orderly hcovers start).append ((Orderly.push hresult).append
    ((Orderly.push hlib).append ((Orderly.push hsymbol).append ?_)))
  exact .counted rfl rfl hcount nofun

theorem OffsetCode.orderly (hcovers : limits.Covers body) {offset : Option Expr}
    {commands : List Command} (h : OffsetCode body limits.pool assigned offset commands)
    (start : Nat) : Orderly limits exits commands start := by
  cases h with
  | given hoffset => exact hoffset.orderly hcovers start
  | absent hzero => exact .push hzero

mutual

theorem StmtCode.orderly (hcovers : limits.Covers body) {assigned after : List String}
    {start : Nat} {stmt : Stmt} {commands : List Command}
    (h : StmtCode body limits.pool assigned start stmt commands after) (exits : Nat → Prop) :
    Orderly limits exits commands start := by
  match h with
  | .overfull hstmt => exact StmtCode.orderly hcovers hstmt exits
  | .assign hwrite _ _ _ hvalue =>
      exact (hvalue.orderly hcovers start).append (hcovers.store hwrite _)
  | .assignNull hwrite _ _ hnull => exact (Orderly.push hnull).append (hcovers.store hwrite _)
  | .print hvalue => exact (hvalue.orderly hcovers start).append (.bare rfl rfl nofun)
  | .call hcall harguments hname =>
      exact (harguments.orderly hcovers start).append (hcovers.call hcall hname _)
  | .branch hcondition htrue htarget hword =>
      exact .branch (fun _ => hcondition.orderly hcovers start)
        (fun exits => BlockCode.orderly hcovers htrue exits) htarget hword
  | .branchElse hcondition htrue hmiddle hfalse htarget hword =>
      exact .branchElse (fun _ => hcondition.orderly hcovers start)
        (fun exits => BlockCode.orderly hcovers htrue exits) hmiddle
        (fun exits => BlockCode.orderly hcovers hfalse exits) htarget hword
  | .loop hcondition hbody htarget hword =>
      exact .loop (fun _ => hcondition.orderly hcovers start)
        (fun exits => BlockCode.orderly hcovers hbody exits) htarget hword
  | .setElement hread _ hindex hvalue =>
      exact (hcovers.load hread.1 start).append ((hindex.orderly hcovers _).append
        ((hvalue.orderly hcovers _).append (.bare rfl rfl nofun)))
  | .pushElement hread _ hvalue =>
      exact (hcovers.load hread.1 start).append
        ((hvalue.orderly hcovers _).append (.bare rfl rfl nofun))
  | .giveBack hreturns _ _ hvalue =>
      refine (hvalue.orderly hcovers start).append (.bare rfl rfl fun _ => ?_)
      rw [hcovers.valued, hreturns]
      rfl
  | .giveBackNothing _ => exact .bare rfl rfl nofun
  | .subscribe hsubscribes hevent hcallee =>
      obtain ⟨signature, hknown⟩ := (SignatureTable.contains_iff _ _).1 hsubscribes.known
      exact (Orderly.push hevent).append
        (.naming hcallee (hcovers.signatures ▸ hknown) rfl nofun
          (fun _ => hsubscribes.not_native) rfl)
  | .foreign hcall => exact hcall.orderly hcovers start
  | .foreignInto hcall _ hwrite =>
      exact (hcall.orderly hcovers start).append (hcovers.store hwrite _)
  | .allocate hwrite _ hsize =>
      exact (hsize.orderly hcovers start).append
        ((Orderly.bare rfl rfl (by nofun)).append (hcovers.store hwrite _))
  | .writeMemory _ hpointer hoffset hvalue hwidth =>
      exact (hpointer.orderly hcovers start).append ((hoffset.orderly hcovers _).append
        ((hvalue.orderly hcovers _).append ((Orderly.push hwidth).append (.bare rfl rfl nofun))))
  | .readMemory _ hwrite hpointer hoffset hwidth =>
      exact (hpointer.orderly hcovers start).append ((hoffset.orderly hcovers _).append
        ((Orderly.push hwidth).append
          ((Orderly.bare rfl rfl (by nofun)).append (hcovers.store hwrite _))))
  | .release hpointer => exact (hpointer.orderly hcovers start).append (.bare rfl rfl nofun)

/-- The code of a body is orderly if the names in the body are within the limits. -/
theorem BlockCode.orderly (hcovers : limits.Covers body) {assigned after : List String}
    {start : Nat} {stmts : List Stmt} {commands : List Command}
    (h : BlockCode body limits.pool assigned start stmts commands after) (exits : Nat → Prop) :
    Orderly limits exits commands start := by
  match h with
  | .nil => exact .nil
  | .cons hstmt hrest =>
      exact (StmtCode.orderly hcovers hstmt exits).append (BlockCode.orderly hcovers hrest exits)

end

end DocScript
