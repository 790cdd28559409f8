import DocScript.Proofs.Compile.Code

/-! # What occurs in a text

The expressions and statements that stand somewhere inside of others. What occurs in a text that is
compiled has code of its own, and that stands in one piece in the code of the whole.
-/

namespace DocScript

/-! ### Parts -/

/-- The expression stands somewhere in the other one. Of several arguments under one name only the
first one counts. -/
inductive Expr.Part (part : Expr) : Expr → Prop where
  | here : Part part part
  | argument {target : CallTarget} {place : ArgumentPlace} {arguments : List (String × Expr)}
      {name : String} {argument : Expr} (hargument : arguments.lookup name = some argument)
      (h : Part part argument) : Part part (.call target place (some arguments))
  | overfull {form : String} {stray : List String} {expr : Expr} (h : Part part expr) :
      Part part (.overfull form stray expr)
  | element {items : List Expr} {item : Expr} (hitem : item ∈ items) (h : Part part item) :
      Part part (.array items)
  | not {operand : Expr} (h : Part part operand) : Part part (.not operand)
  | negate {operand : Expr} (h : Part part operand) : Part part (.negate operand)
  | length {operand : Expr} (h : Part part operand) : Part part (.length operand)
  | operand {operator : Operator} {operands : List Expr} {operand : Expr}
      (hoperand : operand ∈ operands) (h : Part part operand) :
      Part part (.operator operator (some operands))
  | index {stray : List String} {array : Option String} {index : Expr} (h : Part part index) :
      Part part (.get stray array (some index))

/-- The statement stands somewhere in the other one. -/
inductive Stmt.Part (part : Stmt) : Stmt → Prop where
  | here : Part part part
  | overfull {form : String} {stray : List String} {stmt : Stmt} (h : Part part stmt) :
      Part part (.overfull form stray stmt)
  | whenTrue {stray : List String} {condition : Option Expr} {stmts : List Stmt} {stmt : Stmt}
      {whenFalse : Field (List Stmt)} (hstmt : stmt ∈ stmts) (h : Part part stmt) :
      Part part (.branch stray condition (.given stmts) whenFalse)
  | whenFalse {stray : List String} {condition : Option Expr} {whenTrue : Field (List Stmt)}
      {stmts : List Stmt} {stmt : Stmt} (hstmt : stmt ∈ stmts) (h : Part part stmt) :
      Part part (.branch stray condition whenTrue (.given stmts))
  | body {stray : List String} {condition : Option Expr} {stmts : List Stmt} {stmt : Stmt}
      (hstmt : stmt ∈ stmts) (h : Part part stmt) :
      Part part (.loop stray condition (.given stmts))

/-- The expressions that stand in a statement, apart from those inside of others and those in the
statements inside of it. -/
inductive Stmt.Evaluates (expr : Expr) : Stmt → Prop where
  | assign {stray : List String} {name : Field String} {type : Option String} :
      Evaluates expr (.assign stray name type (some expr))
  | print : Evaluates expr (.print expr)
  | argument {target : CallTarget} {place : ArgumentPlace} {arguments : List (String × Expr)}
      {name : String} (hargument : arguments.lookup name = some expr) :
      Evaluates expr (.call target place (some arguments))
  | branch {stray : List String} {whenTrue whenFalse : Field (List Stmt)} :
      Evaluates expr (.branch stray (some expr) whenTrue whenFalse)
  | loop {stray : List String} {body : Field (List Stmt)} :
      Evaluates expr (.loop stray (some expr) body)
  | setIndex {stray : List String} {array : Field String} {value : Option Expr} :
      Evaluates expr (.setElement stray array (some expr) value)
  | setElement {stray : List String} {array : Field String} {index : Option Expr} :
      Evaluates expr (.setElement stray array index (some expr))
  | pushElement {stray : List String} {array : Field String} :
      Evaluates expr (.pushElement stray array (some expr))
  | giveBack : Evaluates expr (.giveBack expr)
  | foreign {stray more : List String} {lib symbol returns into tag : Field String}
      {operands : List ForeignOperand} (hoperand : .operand more tag (some expr) ∈ operands) :
      Evaluates expr (.foreign stray lib symbol returns (.given operands) into)
  | allocate {stray : List String} {into : Field String} :
      Evaluates expr (.allocate stray (some expr) into)
  | writePointer {stray : List String} {width : Field String} {offset value : Option Expr} :
      Evaluates expr (.writeMemory stray width (some expr) offset value)
  | writeOffset {stray : List String} {width : Field String} {pointer value : Option Expr} :
      Evaluates expr (.writeMemory stray width pointer (some expr) value)
  | writeValue {stray : List String} {width : Field String} {pointer offset : Option Expr} :
      Evaluates expr (.writeMemory stray width pointer offset (some expr))
  | readPointer {stray : List String} {width into : Field String} {offset : Option Expr} :
      Evaluates expr (.readMemory stray width (some expr) offset into)
  | readOffset {stray : List String} {width into : Field String} {pointer : Option Expr} :
      Evaluates expr (.readMemory stray width pointer (some expr) into)
  | release : Evaluates expr (.release expr)

/-- The expression occurs somewhere in the statement. -/
def Stmt.Mentions (whole : Stmt) (part : Expr) : Prop :=
  ∃ (stmt : Stmt) (expr : Expr), stmt.Part whole ∧ stmt.Evaluates expr ∧ part.Part expr

/-! ### The code of lists -/

section Code

open List (infix_append_left infix_append_right infix_cons infix_rfl infix_append_of_infix_left
  infix_append_of_infix_right)

variable {body : BodyScope} {pool : List Constant} {assigned : List String}

theorem ItemsCode.of_mem {operator : Option Operator} {items : List Expr} {item : Expr}
    {commands : List Command} (h : ItemsCode body pool assigned operator items commands)
    (hmem : item ∈ items) : ∃ code, ExprCode body pool assigned item code ∧ code <:+: commands := by
  induction items generalizing commands with
  | nil => exact absurd hmem List.not_mem_nil
  | cons first rest ih =>
      cases h with
      | cons _ hitem hrest =>
          rcases List.mem_cons.1 hmem with rfl | hlater
          · exact ⟨_, hitem, infix_append_left⟩
          · obtain ⟨code, hcode, hin⟩ := ih hrest hlater
            exact ⟨code, hcode, infix_append_of_infix_right hin⟩

/-- A parameter is given by the first argument of its name, or there is none and it has a
default. -/
theorem ArgumentCode.source {param : Parameter} {arguments : List (String × Expr)}
    {commands : List Command} (h : ArgumentCode body pool assigned param arguments commands) :
    (∃ argument, arguments.lookup param.name = some argument ∧ body.Accepts param.type argument ∧
        ExprCode body pool assigned argument commands) ∨
      (arguments.lookup param.name = none ∧ ∃ value, param.default = some (.scalar value)) := by
  induction arguments generalizing commands with
  | nil =>
      cases h with
      | omitted hdefault _ => exact .inr ⟨rfl, _, hdefault⟩
  | cons first rest ih =>
      cases h with
      | given hname haccepts hargument =>
          subst hname
          exact .inl ⟨_, List.lookup_cons_self, haccepts, hargument⟩
      | later hname hrest =>
          rw [List.lookup_cons, beq_false_of_ne hname.symm]
          exact ih hrest

theorem ArgumentsCode.of_mem {params : List Parameter} {param : Parameter}
    {arguments : List (String × Expr)} {commands : List Command}
    (h : ArgumentsCode body pool assigned arguments params commands) (hmem : param ∈ params) :
    ∃ code, ArgumentCode body pool assigned param arguments code ∧ code <:+: commands := by
  induction params generalizing commands with
  | nil => exact absurd hmem List.not_mem_nil
  | cons first rest ih =>
      cases h with
      | cons hparam hrest =>
          rcases List.mem_cons.1 hmem with rfl | hlater
          · exact ⟨_, hparam, infix_append_left⟩
          · obtain ⟨code, hcode, hin⟩ := ih hrest hlater
            exact ⟨code, hcode, infix_append_of_infix_right hin⟩

/-- An argument that counts has code, as it has the name of a parameter. -/
theorem ArgumentsCode.of_lookup {signature : Signature} {arguments : List (String × Expr)}
    {commands : List Command} {name : String} {argument : Expr}
    (h : ArgumentsCode body pool assigned arguments signature.params commands)
    (hexpected : ∀ name ∈ arguments.map Prod.fst, (signature.param? name).isSome)
    (hargument : arguments.lookup name = some argument) :
    ∃ code, ExprCode body pool assigned argument code ∧ code <:+: commands := by
  have hname : name ∈ arguments.map Prod.fst := by
    obtain ⟨before, after, rfl, -⟩ := List.lookup_eq_some_iff.1 hargument
    simp
  obtain ⟨param, hparam⟩ := Option.isSome_iff_exists.1 (hexpected name hname)
  have hsame : param.name = name := by simpa using List.find?_some hparam
  obtain ⟨code, hcode, hin⟩ := h.of_mem (List.mem_of_find?_eq_some hparam)
  rcases hcode.source with ⟨found, hfound, -, hexpr⟩ | ⟨hnone, -⟩
  · rw [hsame, hargument] at hfound
    cases hfound
    exact ⟨code, hexpr, hin⟩
  · rw [hsame, hargument] at hnone
    cases hnone

theorem ForeignCode.of_mem {operands : List ForeignOperand} {commands : List Command}
    {stray : List String} {tag : Field String} {value : Expr}
    (h : ForeignCode body pool assigned operands commands)
    (hmem : .operand stray tag (some value) ∈ operands) :
    ∃ code, ExprCode body pool assigned value code ∧ code <:+: commands := by
  induction operands generalizing commands with
  | nil => exact absurd hmem List.not_mem_nil
  | cons first rest ih =>
      cases h with
      | cons _ hvalue hrest =>
          rcases List.mem_cons.1 hmem with hfirst | hlater
          · cases hfirst
            exact ⟨_, hvalue, infix_cons infix_append_left⟩
          · obtain ⟨code, hcode, hin⟩ := ih hrest hlater
            exact ⟨code, hcode, infix_cons (infix_append_of_infix_right hin)⟩

theorem ForeignCallCode.of_mem {lib symbol returns : Field String} {result : String}
    {operands : List ForeignOperand} {commands : List Command} {stray : List String}
    {tag : Field String} {value : Expr}
    (h : ForeignCallCode body pool assigned lib symbol returns (.given operands) result commands)
    (hmem : .operand stray tag (some value) ∈ operands) :
    ∃ code, ExprCode body pool assigned value code ∧ code <:+: commands := by
  cases h with
  | call _ hlisted _ hoperands _ _ _ =>
      rcases hlisted with hgiven | ⟨habsent, -⟩
      · cases hgiven
        obtain ⟨code, hcode, hin⟩ := hoperands.of_mem hmem
        exact ⟨code, hcode, infix_append_of_infix_left hin⟩
      · cases habsent

/-- The code of statements has code for each of them. -/
theorem BlockCode.of_mem {start : Nat} {stmts : List Stmt} {stmt : Stmt} {commands : List Command}
    {after : List String} (h : BlockCode body pool assigned start stmts commands after)
    (hmem : stmt ∈ stmts) :
    ∃ known place code next, StmtCode body pool known place stmt code next ∧
      code <:+: commands := by
  induction stmts generalizing assigned start commands with
  | nil => exact absurd hmem List.not_mem_nil
  | cons first rest ih =>
      cases h with
      | cons hstmt hrest =>
          rcases List.mem_cons.1 hmem with rfl | hlater
          · exact ⟨_, _, _, _, hstmt, infix_append_left⟩
          · obtain ⟨known, place, code, next, hcode, hin⟩ := ih hrest hlater
            exact ⟨known, place, code, next, hcode, infix_append_of_infix_right hin⟩

/-! ### The code of parts -/

/-- What occurs in an expression that is compiled is compiled. -/
theorem Expr.Part.compiles {part whole : Expr} (h : part.Part whole) {commands : List Command}
    (hcode : ExprCode body pool assigned whole commands) :
    ∃ code, ExprCode body pool assigned part code ∧ code <:+: commands := by
  induction h generalizing commands with
  | here => exact ⟨commands, hcode, infix_rfl⟩
  | argument hargument _ ih =>
      cases hcode with
      | call hcall harguments _ =>
          obtain ⟨_, hexpr, hin⟩ := harguments.of_lookup hcall.expected hargument
          obtain ⟨code, hpart, hinner⟩ := ih hexpr
          exact ⟨code, hpart, infix_append_of_infix_left (hinner.trans hin)⟩
  | overfull _ ih =>
      cases hcode with
      | overfull hexpr => exact ih hexpr
  | element hitem _ ih =>
      cases hcode with
      | array _ _ hitems =>
          obtain ⟨_, hexpr, hin⟩ := hitems.of_mem hitem
          obtain ⟨code, hpart, hinner⟩ := ih hexpr
          exact ⟨code, hpart, infix_append_of_infix_left (hinner.trans hin)⟩
  | not _ ih =>
      cases hcode with
      | not hoperand =>
          obtain ⟨code, hpart, hinner⟩ := ih hoperand
          exact ⟨code, hpart, infix_append_of_infix_left hinner⟩
  | negate _ ih =>
      cases hcode with
      | negate _ hoperand =>
          obtain ⟨code, hpart, hinner⟩ := ih hoperand
          exact ⟨code, hpart, infix_append_of_infix_left hinner⟩
  | length _ ih =>
      cases hcode with
      | length _ hoperand =>
          obtain ⟨code, hpart, hinner⟩ := ih hoperand
          exact ⟨code, hpart, infix_append_of_infix_left hinner⟩
  | operand hoperand _ ih =>
      cases hcode with
      | operator _ _ hoperands =>
          obtain ⟨_, hexpr, hin⟩ := hoperands.of_mem hoperand
          obtain ⟨code, hpart, hinner⟩ := ih hexpr
          exact ⟨code, hpart, infix_append_of_infix_left (hinner.trans hin)⟩
  | index _ ih =>
      cases hcode with
      | get _ hindex =>
          obtain ⟨code, hpart, hinner⟩ := ih hindex
          exact ⟨code, hpart, infix_cons (infix_append_of_infix_left hinner)⟩

/-- An expression in a statement that is compiled is compiled, unless it is the null of a form that
has code of its own. -/
theorem Stmt.Evaluates.compiles {stmt : Stmt} {expr : Expr} (h : stmt.Evaluates expr)
    {start : Nat} {commands : List Command} {after : List String}
    (hcode : StmtCode body pool assigned start stmt commands after) :
    expr = .null ∨ ∃ known code, ExprCode body pool known expr code ∧ code <:+: commands := by
  cases h with
  | assign =>
      cases hcode with
      | assign _ _ _ _ hvalue => exact .inr ⟨_, _, hvalue, infix_append_left⟩
      | assignNull => exact .inl rfl
  | print =>
      cases hcode with
      | print hvalue => exact .inr ⟨_, _, hvalue, infix_append_left⟩
  | argument hargument =>
      cases hcode with
      | call hcall harguments _ =>
          obtain ⟨code, hexpr, hin⟩ := harguments.of_lookup hcall.expected hargument
          exact .inr ⟨_, code, hexpr, infix_append_of_infix_left hin⟩
  | branch =>
      cases hcode with
      | branch hcondition => exact .inr ⟨_, _, hcondition, infix_append_left⟩
      | branchElse hcondition => exact .inr ⟨_, _, hcondition, infix_append_left⟩
  | loop =>
      cases hcode with
      | loop hcondition => exact .inr ⟨_, _, hcondition, infix_append_left⟩
  | setIndex =>
      cases hcode with
      | setElement _ _ hindex => exact .inr ⟨_, _, hindex, infix_cons infix_append_left⟩
  | setElement =>
      cases hcode with
      | setElement _ _ _ hvalue =>
          exact .inr ⟨_, _, hvalue, infix_cons (infix_append_of_infix_right infix_append_left)⟩
  | pushElement =>
      cases hcode with
      | pushElement _ _ hvalue => exact .inr ⟨_, _, hvalue, infix_cons infix_append_left⟩
  | giveBack =>
      cases hcode with
      | giveBack _ _ _ hvalue => exact .inr ⟨_, _, hvalue, infix_append_left⟩
      | giveBackNothing => exact .inl rfl
  | foreign hoperand =>
      cases hcode with
      | foreign hcall =>
          obtain ⟨code, hexpr, hin⟩ := hcall.of_mem hoperand
          exact .inr ⟨_, code, hexpr, hin⟩
      | foreignInto hcall =>
          obtain ⟨code, hexpr, hin⟩ := hcall.of_mem hoperand
          exact .inr ⟨_, code, hexpr, infix_append_of_infix_left hin⟩
  | allocate =>
      cases hcode with
      | allocate _ _ hsize => exact .inr ⟨_, _, hsize, infix_append_left⟩
  | writePointer =>
      cases hcode with
      | writeMemory _ hpointer => exact .inr ⟨_, _, hpointer, infix_append_left⟩
  | writeOffset =>
      cases hcode with
      | writeMemory _ _ hoffset =>
          cases hoffset with
          | given hoffset =>
              exact .inr ⟨_, _, hoffset, infix_append_of_infix_right infix_append_left⟩
  | writeValue =>
      cases hcode with
      | writeMemory _ _ _ hvalue =>
          exact .inr ⟨_, _, hvalue,
            infix_append_of_infix_right (infix_append_of_infix_right infix_append_left)⟩
  | readPointer =>
      cases hcode with
      | readMemory _ _ hpointer => exact .inr ⟨_, _, hpointer, infix_append_left⟩
  | readOffset =>
      cases hcode with
      | readMemory _ _ _ hoffset =>
          cases hoffset with
          | given hoffset =>
              exact .inr ⟨_, _, hoffset, infix_append_of_infix_right infix_append_left⟩
  | release =>
      cases hcode with
      | release hpointer => exact .inr ⟨_, _, hpointer, infix_append_left⟩

/-- The statements inside of one that is compiled are compiled. -/
theorem Stmt.Part.compiles {part whole : Stmt} (h : part.Part whole) {start : Nat}
    {commands : List Command} {after : List String}
    (hcode : StmtCode body pool assigned start whole commands after) :
    ∃ known place code next, StmtCode body pool known place part code next ∧
      code <:+: commands := by
  induction h generalizing assigned start commands after with
  | here => exact ⟨_, _, _, _, hcode, infix_rfl⟩
  | overfull _ ih =>
      cases hcode with
      | overfull hstmt => exact ih hstmt
  | whenTrue hstmt _ ih =>
      cases hcode with
      | branch _ htrue =>
          obtain ⟨_, _, _, _, hinner, hin⟩ := htrue.of_mem hstmt
          obtain ⟨known, place, code, next, hpart, hfound⟩ := ih hinner
          exact ⟨known, place, code, next, hpart,
            infix_append_of_infix_right (infix_cons (hfound.trans hin))⟩
      | branchElse _ htrue =>
          obtain ⟨_, _, _, _, hinner, hin⟩ := htrue.of_mem hstmt
          obtain ⟨known, place, code, next, hpart, hfound⟩ := ih hinner
          exact ⟨known, place, code, next, hpart, infix_append_of_infix_right
            (infix_cons (infix_append_of_infix_left (hfound.trans hin)))⟩
  | whenFalse hstmt _ ih =>
      cases hcode with
      | branchElse _ _ _ hfalse =>
          obtain ⟨_, _, _, _, hinner, hin⟩ := hfalse.of_mem hstmt
          obtain ⟨known, place, code, next, hpart, hfound⟩ := ih hinner
          exact ⟨known, place, code, next, hpart, infix_append_of_infix_right (infix_cons
            (infix_append_of_infix_right (infix_cons (hfound.trans hin))))⟩
  | body hstmt _ ih =>
      cases hcode with
      | loop _ hbody =>
          obtain ⟨_, _, _, _, hinner, hin⟩ := hbody.of_mem hstmt
          obtain ⟨known, place, code, next, hpart, hfound⟩ := ih hinner
          exact ⟨known, place, code, next, hpart, infix_append_of_infix_right
            (infix_cons (infix_append_of_infix_left (hfound.trans hin)))⟩

/-- What a statement mentions that is compiled is compiled, unless it is the null of a form that has
code of its own. -/
theorem Stmt.Mentions.compiles {stmt : Stmt} {expr : Expr} (h : stmt.Mentions expr) {start : Nat}
    {commands : List Command} {after : List String}
    (hcode : StmtCode body pool assigned start stmt commands after) :
    expr = .null ∨ ∃ known code, ExprCode body pool known expr code ∧ code <:+: commands := by
  obtain ⟨inner, outer, hstmt, hevaluates, hexpr⟩ := h
  obtain ⟨_, _, _, _, hinner, hstands⟩ := hstmt.compiles hcode
  rcases hevaluates.compiles hinner with rfl | ⟨known, _, houter, hin⟩
  · cases hexpr
    exact .inl rfl
  · obtain ⟨code, hpart, hfound⟩ := hexpr.compiles houter
    exact .inr ⟨known, code, hpart, (hfound.trans hin).trans hstands⟩

end Code

end DocScript
