import Mathlib.Algebra.GroupWithZero.Nat
import DocScript.Proofs.Compile.Code

/-! # What statements leave on the stack

The text of a form says how many bytes its code takes. So it also says where the calls stand
whose values nobody takes: each of them is the last instruction of a statement that is a call or a
foreign call with a result.
-/

namespace DocScript

open Command

/-! ### The size of code -/

section Sizes

variable (signatures : SignatureTable) (space : String)

/-- What is known of the callee of a call. -/
def CallTarget.signature? (target : CallTarget) : Option Signature :=
  target.function.bind fun function =>
    signatures.get? (target.space.getD space ++ "." ++ function)

/-- The number of bytes that stand before the instruction of a call, with the numbers that its
arguments take. A parameter without an argument has its default. -/
def CallTarget.callOffset (target : CallTarget) (arguments : List (String × Nat)) : Nat :=
  ((target.signature? signatures space).elim 0 fun signature => (signature.params.map fun param =>
    (arguments.lookup param.name).getD (Opcode.width .pushConst)).sum) + Opcode.width .pushConst

/-- The number of bytes that a call takes. -/
def CallTarget.codeSize (target : CallTarget) (arguments : List (String × Nat)) : Nat :=
  target.callOffset signatures space arguments + Opcode.width .call

mutual

/-- The number of bytes that the code of an expression takes. -/
def Expr.codeSize : Expr → Nat
  | .overfull _ _ body => body.codeSize
  | .array items => itemsSize items + Opcode.width .makeArray
  | .not operand => operand.codeSize + Opcode.width .not
  | .negate operand => operand.codeSize + Opcode.width .neg
  | .length operand => operand.codeSize + Opcode.width .arrayLen
  | .operator operator (some operands) => itemsSize operands + operator.opcode.width
  | .get _ _ (some index) => Opcode.width .loadLocal + (index.codeSize + Opcode.width .arrayGet)
  | .call target _ (some arguments) => target.codeSize signatures space (argumentSizes arguments)
  | .reference _ | .named _ => Opcode.width .loadLocal
  | _ => Opcode.width .pushConst

def itemsSize : List Expr → Nat
  | [] => 0
  | item :: rest => item.codeSize + itemsSize rest

/-- The numbers of bytes that arguments take, by their names. -/
def argumentSizes : List (String × Expr) → List (String × Nat)
  | [] => []
  | (name, argument) :: rest => (name, argument.codeSize) :: argumentSizes rest

end

/-- The number of bytes that an operand of a foreign call takes with its tag. -/
def ForeignOperand.codeSize : ForeignOperand → Nat
  | .operand _ _ (some value) => Opcode.width .pushConst + value.codeSize signatures space
  | _ => 0

/-- The number of bytes that stand before the instruction of a foreign call. The names of the
result, the library and the symbol come behind the operands. -/
def foreignOffset : Field (List ForeignOperand) → Nat
  | .given operands =>
      (operands.map (·.codeSize signatures space)).sum + 3 * Opcode.width .pushConst
  | _ => 3 * Opcode.width .pushConst

/-- The number of bytes that a foreign call takes. -/
def foreignSize (operands : Field (List ForeignOperand)) : Nat :=
  foreignOffset signatures space operands + Opcode.width .ffiCall

/-- The number of bytes that an offset in memory takes. -/
def offsetSize (offset : Option Expr) : Nat :=
  offset.elim (Opcode.width .pushConst) fun offset => offset.codeSize signatures space

mutual

/-- The number of bytes that the code of a statement takes. -/
def Stmt.codeSize : Stmt → Nat
  | .overfull _ _ body => body.codeSize
  | .assign _ _ _ (some value) => value.codeSize signatures space + Opcode.width .storeLocal
  | .print value => value.codeSize signatures space + Opcode.width .print
  | .call target _ (some arguments) =>
      target.codeSize signatures space (argumentSizes signatures space arguments)
  | .branch _ (some condition) (.given whenTrue) .absent =>
      condition.codeSize signatures space + (Opcode.width .jmpIfFalse + blockSize whenTrue)
  | .branch _ (some condition) (.given whenTrue) (.given whenFalse) =>
      condition.codeSize signatures space + (Opcode.width .jmpIfFalse +
        (blockSize whenTrue + (Opcode.width .jmp + blockSize whenFalse)))
  | .loop _ (some condition) (.given body) =>
      condition.codeSize signatures space + (Opcode.width .jmpIfFalse +
        (blockSize body + Opcode.width .jmp))
  | .setElement _ _ (some index) (some value) =>
      Opcode.width .loadLocal + (index.codeSize signatures space +
        (value.codeSize signatures space + Opcode.width .arraySet))
  | .pushElement _ _ (some value) =>
      Opcode.width .loadLocal + (value.codeSize signatures space + Opcode.width .arrayPush)
  | .giveBack .null => Opcode.width .halt
  | .giveBack value => value.codeSize signatures space + Opcode.width .ret
  | .subscribe _ _ _ =>
      Opcode.width .pushConst + (Opcode.width .pushConst + Opcode.width .onEvent)
  | .foreign _ _ _ _ operands .absent => foreignSize signatures space operands
  | .foreign _ _ _ _ operands _ =>
      foreignSize signatures space operands + Opcode.width .storeLocal
  | .allocate _ (some size) _ =>
      size.codeSize signatures space + (Opcode.width .memAlloc + Opcode.width .storeLocal)
  | .writeMemory _ _ (some pointer) offset (some value) =>
      pointer.codeSize signatures space + (offsetSize signatures space offset +
        (value.codeSize signatures space + (Opcode.width .pushConst + Opcode.width .memWrite)))
  | .readMemory _ _ (some pointer) offset _ =>
      pointer.codeSize signatures space + (offsetSize signatures space offset +
        (Opcode.width .pushConst + (Opcode.width .memRead + Opcode.width .storeLocal)))
  | .release pointer => pointer.codeSize signatures space + Opcode.width .memFree
  | _ => 0

def blockSize : List Stmt → Nat
  | [] => 0
  | stmt :: rest => stmt.codeSize + blockSize rest

end

theorem Stmt.codeSize_giveBack {value : Expr} (h : value ≠ .null) :
    (Stmt.giveBack value).codeSize signatures space =
      value.codeSize signatures space + Opcode.width .ret := by
  cases value <;> first | exact absurd rfl h | rfl

end Sizes

/-! ### Values that nobody takes -/

section Left

variable (signatures : SignatureTable) (space : String)

/-- Whether a call gives a value, as far as its callee is known. -/
def CallTarget.givesValue (signatures : SignatureTable) (space : String) (target : CallTarget) :
    Bool :=
  (target.signature? signatures space).any (!·.isVoid)

mutual

/-- Whether nothing in the statement leaves a value on the stack that nobody takes. -/
def Stmt.isTidy (signatures : SignatureTable) (space : String) : Stmt → Bool
  | .overfull _ _ body => body.isTidy signatures space
  | .call target _ _ => !target.givesValue signatures space
  | .branch _ _ (.given whenTrue) .absent => blockIsTidy signatures space whenTrue
  | .branch _ _ (.given whenTrue) (.given whenFalse) =>
      blockIsTidy signatures space whenTrue && blockIsTidy signatures space whenFalse
  | .loop _ _ (.given body) => blockIsTidy signatures space body
  | .foreign _ _ _ returns _ .absent =>
      returns == .absent || returns == .given LoweringScope.voidResult
  | _ => true

/-- Whether all statements are tidy. -/
def blockIsTidy (signatures : SignatureTable) (space : String) : List Stmt → Bool
  | [] => true
  | stmt :: rest => stmt.isTidy signatures space && blockIsTidy signatures space rest

end

/-- Whether a foreign call has a result. -/
def givesForeign : Field String → Bool
  | .absent => false
  | .given result => result != LoweringScope.voidResult
  | .misshapen => true

mutual

/-- The offsets of the instructions that leave a value which nobody takes, in the code of a
statement that begins at an offset. -/
def Stmt.leftAt : (start : Nat) → Stmt → List Nat
  | start, .overfull _ _ body => body.leftAt start
  | start, .call target _ (some arguments) =>
      List.replicate (target.givesValue signatures space).toNat
        (start + target.callOffset signatures space (argumentSizes signatures space arguments))
  | start, .branch _ (some condition) (.given whenTrue) .absent =>
      blockLeftAt (start + condition.codeSize signatures space + Opcode.width .jmpIfFalse) whenTrue
  | start, .branch _ (some condition) (.given whenTrue) (.given whenFalse) =>
      let first := start + condition.codeSize signatures space + Opcode.width .jmpIfFalse
      blockLeftAt first whenTrue ++
        blockLeftAt (first + blockSize signatures space whenTrue + Opcode.width .jmp) whenFalse
  | start, .loop _ (some condition) (.given body) =>
      blockLeftAt (start + condition.codeSize signatures space + Opcode.width .jmpIfFalse) body
  | start, .foreign _ _ _ returns operands .absent =>
      List.replicate (givesForeign returns).toNat (start + foreignOffset signatures space operands)
  | _, _ => []

def blockLeftAt : (start : Nat) → List Stmt → List Nat
  | _, [] => []
  | start, stmt :: rest =>
      stmt.leftAt start ++ blockLeftAt (start + stmt.codeSize signatures space) rest

end

variable {signatures space}

mutual

/-- A tidy statement leaves nothing that nobody takes. -/
theorem Stmt.leftAt_eq_nil (stmt : Stmt) (h : stmt.isTidy signatures space = true) (start : Nat) :
    stmt.leftAt signatures space start = [] := by
  unfold Stmt.leftAt
  split
  next body => exact Stmt.leftAt_eq_nil body h start
  next =>
    rw [Stmt.isTidy, Bool.not_eq_true'] at h
    rw [h]
    rfl
  next whenTrue => exact blockLeftAt_eq_nil whenTrue h _
  next whenTrue whenFalse =>
    rw [Stmt.isTidy, Bool.and_eq_true] at h
    simp only [blockLeftAt_eq_nil whenTrue h.1, blockLeftAt_eq_nil whenFalse h.2, List.append_nil]
  next body => exact blockLeftAt_eq_nil body h _
  next returns _ =>
    have hnone : givesForeign returns = false := by
      rw [Stmt.isTidy, Bool.or_eq_true, beq_iff_eq, beq_iff_eq] at h
      rcases h with rfl | rfl <;> rfl
    rw [hnone]
    rfl
  next => rfl

theorem blockLeftAt_eq_nil (stmts : List Stmt) (h : blockIsTidy signatures space stmts = true)
    (start : Nat) : blockLeftAt signatures space start stmts = [] := by
  cases stmts with
  | nil => rfl
  | cons stmt rest =>
      rw [blockIsTidy, Bool.and_eq_true] at h
      rw [blockLeftAt, Stmt.leftAt_eq_nil stmt h.1, blockLeftAt_eq_nil rest h.2, List.append_nil]

end

end Left

/-! ### Each offset is listed once -/

/-- Offsets of a stretch of code, in their order. -/
structure OffsetsWithin (start length : Nat) (offsets : List Nat) : Prop where
  bounds : ∀ offset ∈ offsets, start ≤ offset ∧ offset < start + length
  increasing : offsets.Pairwise (· < ·)

namespace OffsetsWithin

variable {start inner length more : Nat} {first second offsets : List Nat}

theorem nil (start length : Nat) : OffsetsWithin start length [] := ⟨by simp, List.Pairwise.nil⟩

/-- One offset or none. -/
theorem replicate {offset : Nat} (given : Bool) (hfrom : start ≤ offset)
    (hto : offset < start + length) :
    OffsetsWithin start length (List.replicate given.toNat offset) := by
  cases given with
  | false => exact .nil _ _
  | true =>
      refine ⟨fun other hmem => ?_, List.pairwise_singleton _ _⟩
      obtain rfl := List.mem_singleton.1 hmem
      exact ⟨hfrom, hto⟩

/-- A stretch may be a part of a longer one. -/
theorem widen (h : OffsetsWithin inner length offsets) (hfrom : start ≤ inner)
    (hto : inner + length ≤ start + more) : OffsetsWithin start more offsets where
  bounds offset hmem := by
    have hbounds := h.bounds offset hmem
    omega
  increasing := h.increasing

theorem append (hfirst : OffsetsWithin start length first)
    (hsecond : OffsetsWithin (start + length) more second) :
    OffsetsWithin start (length + more) (first ++ second) where
  bounds offset hmem := by
    rcases List.mem_append.1 hmem with hmem | hmem
    · have hbounds := hfirst.bounds offset hmem
      omega
    · have hbounds := hsecond.bounds offset hmem
      omega
  increasing := List.pairwise_append.2 ⟨hfirst.increasing, hsecond.increasing,
    fun offset hmem later hlater =>
      Nat.lt_of_lt_of_le (hfirst.bounds offset hmem).2 (hsecond.bounds later hlater).1⟩

theorem count_eq (h : OffsetsWithin start length offsets) (offset : Nat) :
    offsets.count offset = if offset ∈ offsets then 1 else 0 :=
  List.Nodup.count (h.increasing.imp Nat.ne_of_lt)

end OffsetsWithin

theorem LocalSlot.width_store (target : LocalSlot) :
    target.store.op.width = Opcode.width .storeLocal := by
  unfold LocalSlot.store LocalSlot.storeOp
  split <;> rfl

section Code

variable {body : BodyScope} {pool : List Constant} {assigned : List String}

theorem BodyScope.Calls.signature? {target : CallTarget} {place : ArgumentPlace}
    {names : List String} {callee : String} {signature : Signature} {asValue : Bool}
    (hcall : body.Calls asValue target place names callee signature) :
    target.signature? body.signatures body.names.space = some signature := by
  obtain ⟨function, hfunction, hcallee⟩ := hcall.named
  have hknown := hcall.known
  rw [hcallee, FunctionBuilder.calleeName] at hknown
  rw [CallTarget.signature?, hfunction, Option.bind_some, hknown]

theorem BodyScope.Calls.callOffset_eq {target : CallTarget} {place : ArgumentPlace}
    {names : List String} {callee : String} {signature : Signature} {asValue : Bool}
    (hcall : body.Calls asValue target place names callee signature)
    (arguments : List (String × Nat)) :
    target.callOffset body.signatures body.names.space arguments =
      (signature.params.map fun param =>
        (arguments.lookup param.name).getD (Opcode.width .pushConst)).sum +
        Opcode.width .pushConst := by
  rw [CallTarget.callOffset, hcall.signature?, Option.elim_some]

mutual

theorem ExprCode.size_eq {expr : Expr} {commands : List Command}
    (h : ExprCode body pool assigned expr commands) :
    size commands = expr.codeSize body.signatures body.names.space := by
  match h with
  | .int _ | .float _ | .bool _ | .null _ | .string _ | .reference _ | .named _ => rfl
  | .overfull hexpr =>
      rw [Expr.codeSize]
      exact ExprCode.size_eq hexpr
  | .array _ _ hitems =>
      rw [size_append, ItemsCode.size_eq hitems]
      rfl
  | .not hoperand | .negate _ hoperand | .length _ hoperand =>
      rw [size_append, ExprCode.size_eq hoperand]
      rfl
  | .operator _ _ hoperands =>
      rw [size_append, ItemsCode.size_eq hoperands, size_cons, size_nil, Expr.codeSize]
      rfl
  | .get _ hindex =>
      rw [size_cons, size_append, ExprCode.size_eq hindex]
      rfl
  | .call hcall harguments _ =>
      rw [size_append, ArgumentsCode.size_eq harguments, Expr.codeSize, CallTarget.codeSize,
        hcall.callOffset_eq]
      rfl

theorem ItemsCode.size_eq {operator : Option Operator} {items : List Expr}
    {commands : List Command} (h : ItemsCode body pool assigned operator items commands) :
    size commands = itemsSize body.signatures body.names.space items := by
  match h with
  | .nil => rfl
  | .cons _ hitem hrest =>
      rw [size_append, ExprCode.size_eq hitem, ItemsCode.size_eq hrest]
      rfl

theorem ArgumentCode.size_eq {param : Parameter} {arguments : List (String × Expr)}
    {commands : List Command} (h : ArgumentCode body pool assigned param arguments commands) :
    size commands =
      ((argumentSizes body.signatures body.names.space arguments).lookup param.name).getD
        (Opcode.width .pushConst) := by
  match h with
  | .given hname _ hargument =>
      rw [argumentSizes, List.lookup_cons, hname, beq_self_eq_true]
      exact ExprCode.size_eq hargument
  | .later hname hrest =>
      rw [argumentSizes, List.lookup_cons, beq_false_of_ne hname.symm]
      exact ArgumentCode.size_eq hrest
  | .omitted _ _ => rfl

theorem ArgumentsCode.size_eq {arguments : List (String × Expr)} {params : List Parameter}
    {commands : List Command} (h : ArgumentsCode body pool assigned arguments params commands) :
    size commands = (params.map fun param =>
      ((argumentSizes body.signatures body.names.space arguments).lookup param.name).getD
        (Opcode.width .pushConst)).sum := by
  match h with
  | .nil => rfl
  | .cons hparam hrest =>
      rw [size_append, ArgumentCode.size_eq hparam, ArgumentsCode.size_eq hrest]
      rfl

end

theorem ForeignCode.size_eq {operands : List ForeignOperand} {commands : List Command}
    (h : ForeignCode body pool assigned operands commands) :
    size commands = (operands.map (·.codeSize body.signatures body.names.space)).sum := by
  induction h with
  | nil => rfl
  | cons _ hvalue _ ih =>
      rw [size_cons, size_append, hvalue.size_eq, ih, List.map_cons, List.sum_cons, ← Nat.add_assoc]
      rfl

theorem ForeignCallCode.size_eq {lib symbol returns : Field String}
    {operands : Field (List ForeignOperand)} {result : String} {commands : List Command}
    (h : ForeignCallCode body pool assigned lib symbol returns operands result commands) :
    size commands = foreignSize body.signatures body.names.space operands := by
  obtain ⟨_, hlisted, _, hoperands, _, _, _⟩ := h
  rw [size_append, hoperands.size_eq]
  rcases hlisted with rfl | ⟨rfl, rfl⟩ <;> rfl

theorem OffsetCode.size_eq {offset : Option Expr} {commands : List Command}
    (h : OffsetCode body pool assigned offset commands) :
    size commands = offsetSize body.signatures body.names.space offset := by
  cases h with
  | given hoffset => exact hoffset.size_eq
  | absent _ => rfl

mutual

theorem StmtCode.size_eq {assigned after : List String} {start : Nat} {stmt : Stmt}
    {commands : List Command} (h : StmtCode body pool assigned start stmt commands after) :
    size commands = stmt.codeSize body.signatures body.names.space := by
  match h with
  | .overfull hstmt =>
      rw [Stmt.codeSize]
      exact StmtCode.size_eq hstmt
  | .assign _ _ _ _ hvalue =>
      rw [size_append, hvalue.size_eq, size_cons, LocalSlot.width_store]
      rfl
  | .assignNull _ _ _ _ =>
      rw [size_cons, size_cons, LocalSlot.width_store]
      rfl
  | .print hvalue | .release hvalue =>
      rw [size_append, hvalue.size_eq]
      rfl
  | .giveBack _ hnull _ hvalue =>
      rw [size_append, hvalue.size_eq, Stmt.codeSize_giveBack _ _ hnull]
      rfl
  | .giveBackNothing _ | .subscribe _ _ _ => rfl
  | .call hcall harguments _ =>
      rw [size_append, harguments.size_eq, Stmt.codeSize, CallTarget.codeSize, hcall.callOffset_eq]
      rfl
  | .branch hcondition htrue _ _ =>
      rw [size_append, size_cons, hcondition.size_eq, BlockCode.size_eq htrue]
      rfl
  | .branchElse hcondition htrue _ hfalse _ _ =>
      rw [size_append, size_cons, size_append, size_cons, hcondition.size_eq,
        BlockCode.size_eq htrue, BlockCode.size_eq hfalse]
      rfl
  | .loop hcondition hbody _ _ =>
      rw [size_append, size_cons, size_append, hcondition.size_eq, BlockCode.size_eq hbody]
      rfl
  | .setElement _ _ hindex hvalue =>
      rw [size_cons, size_append, size_append, hindex.size_eq, hvalue.size_eq]
      rfl
  | .pushElement _ _ hvalue =>
      rw [size_cons, size_append, hvalue.size_eq]
      rfl
  | .foreign hcall => exact hcall.size_eq
  | .foreignInto hcall _ _ =>
      rw [size_append, hcall.size_eq, size_cons, LocalSlot.width_store]
      rfl
  | .allocate _ _ hsize =>
      rw [size_append, hsize.size_eq, size_cons, size_cons, LocalSlot.width_store]
      rfl
  | .writeMemory _ hpointer hoffset hvalue _ =>
      rw [size_append, size_append, size_append, hpointer.size_eq, hoffset.size_eq, hvalue.size_eq]
      rfl
  | .readMemory _ _ hpointer hoffset _ =>
      rw [size_append, size_append, hpointer.size_eq, hoffset.size_eq, size_cons, size_cons,
        size_cons, LocalSlot.width_store]
      rfl

theorem BlockCode.size_eq {assigned after : List String} {start : Nat} {stmts : List Stmt}
    {commands : List Command} (h : BlockCode body pool assigned start stmts commands after) :
    size commands = blockSize body.signatures body.names.space stmts := by
  match h with
  | .nil => rfl
  | .cons hstmt hrest =>
      rw [size_append, StmtCode.size_eq hstmt, BlockCode.size_eq hrest]
      rfl

end

end Code

end DocScript
