import DocScript.Proofs.Source.Levels

/-! # The grammar of bodies

What stands where in the body of a function, and which fields the forms have. The positions are
those of the document alone, whether or not the objects around them are well-formed.
-/

namespace DocScript

/-! ### Fields of objects -/

namespace Json

/-- The keys of an object; any other value has none. -/
def keys : Json → List String
  | .object members => members.map Prod.fst
  | _ => []

/-- What stands at the end of a path of keys. -/
def at? (value : Json) : List String → Option Json
  | [] => some value
  | key :: rest => (value.get? key).bind fun inner => inner.at? rest

theorem mem_keys_of_lookup {members : List (String × Json)} {key : String} {value : Json}
    (h : members.lookup key = some value) : key ∈ (object members).keys :=
  List.mem_map.2 ⟨_, mem_of_lookup h, rfl⟩

theorem object_of_get? {value inner : Json} {key : String} (h : value.get? key = some inner) :
    ∃ members, value = .object members ∧ members.lookup key = some inner := by
  cases value with
  | object members => exact ⟨members, rfl, h⟩
  | _ => cases h

theorem object_of_at? {value inner : Json} {key : String} {rest : List String}
    (h : value.at? (key :: rest) = some inner) : ∃ members, value = .object members := by
  obtain ⟨_, hkey, -⟩ := Option.bind_eq_some_iff.1 h
  obtain ⟨members, rfl, -⟩ := object_of_get? hkey
  exact ⟨members, rfl⟩

theorem at?_single (value : Json) (key : String) : value.at? [key] = value.get? key := by
  simp [at?]

theorem at?_pair {value inner : Json} {first second : String} :
    value.at? [first, second] = some inner ↔
      ∃ body, value.get? first = some body ∧ body.get? second = some inner := by
  simp [at?, Option.bind_eq_some_iff]

end Json

open List (forall_mem_cons forall_mem_singleton)

/-- The fields of a form. -/
structure FieldRules where
  required : List String
  optional : List String

/-- The value is an object with all required fields, and no others apart from optional ones. -/
structure Json.Follows (value : Json) (rules : FieldRules) : Prop where
  object : ∃ members, value = .object members
  required : ∀ key ∈ rules.required, key ∈ value.keys
  known : ∀ key ∈ value.keys, key ∈ rules.required ∨ key ∈ rules.optional

/-- Just one key of the object names a form, and no other key stands there, except for the arguments
beside a call. -/
structure Json.HasForm (forms : List String) (value : Json) (form : String) (body : Json) :
    Prop where
  object : ∃ members, value = .object members
  known : form ∈ forms
  body : value.get? form = some body
  alone : ∀ key ∈ value.keys, key = form ∨ form = "call" ∧ key = "args"

/-- The fields of the forms that are written as objects. -/
def formRules : String → Option FieldRules
  | "let" => some ⟨["name", "value"], ["type"]⟩
  | "if" => some ⟨["condition", "then"], ["else"]⟩
  | "while" => some ⟨["condition", "body"], []⟩
  | "set" => some ⟨["array", "at", "value"], []⟩
  | "push" => some ⟨["array", "value"], []⟩
  | "on" => some ⟨["event", "call"], []⟩
  | "ffi" => some ⟨["lib", "symbol"], ["args", "returns", "into"]⟩
  | "alloc" => some ⟨["size", "into"], []⟩
  | "memwrite" => some ⟨["type", "ptr", "value"], ["offset"]⟩
  | "memread" => some ⟨["type", "ptr", "into"], ["offset"]⟩
  | "get" => some ⟨["array", "at"], []⟩
  | "call" => some ⟨["function"], ["namespace", "args"]⟩
  | _ => none

/-- The fields of the handler of a subscription. -/
def handlerRules : FieldRules := ⟨["function"], ["namespace"]⟩

/-- The fields of an argument of a foreign call. -/
def operandRules : FieldRules := ⟨["type", "value"], []⟩

/-- The forms of expressions that take operands. -/
def operatorForms : List String :=
  ["and", "or", "add", "subtract", "multiply", "divide", "modulo", "eq", "gt", "lt"]

/-! ### Positions -/

/-- The paths in a statement at which lists of statements stand. -/
def blockPaths : List (List String) := [["if", "then"], ["if", "else"], ["while", "body"]]

/-- The paths in a statement at which expressions stand. -/
def statementOperands : List (List String) :=
  [["print"], ["return"], ["free"], ["let", "value"], ["if", "condition"], ["while", "condition"],
    ["set", "at"], ["set", "value"], ["push", "value"], ["alloc", "size"], ["memwrite", "ptr"],
    ["memwrite", "offset"], ["memwrite", "value"], ["memread", "ptr"], ["memread", "offset"]]

/-- The paths in an expression at which other expressions stand. -/
def expressionOperands : List (List String) := [["not"], ["negate"], ["length"], ["get", "at"]]

/-- The paths at which the arguments of a call stand, each under its name. -/
def argumentPaths : List (List String) := [["call", "args"], ["args"]]

/-- The value stands in statement position somewhere in the statement. -/
inductive Json.StatementIn (part : Json) : Json → Prop where
  | here : StatementIn part part
  | block {stmt inner : Json} {path : List String} {stmts : List Json} (hpath : path ∈ blockPaths)
      (hblock : stmt.at? path = some (.array stmts)) (hmem : inner ∈ stmts)
      (h : StatementIn part inner) : StatementIn part stmt

/-- The value stands in expression position in the statement, and not inside of an expression or
another statement. -/
inductive Json.OperandOf (value stmt : Json) : Prop where
  | operand {path : List String} (hpath : path ∈ statementOperands)
      (hvalue : stmt.at? path = some value)
  | argument {path : List String} {name : String} (hpath : path ∈ argumentPaths)
      (hvalue : stmt.at? (path ++ [name]) = some value)
  | foreign {operands : List Json} {operand : Json}
      (hoperands : stmt.at? ["ffi", "args"] = some (.array operands)) (hmem : operand ∈ operands)
      (hvalue : operand.get? "value" = some value)

/-- The value stands in expression position in the expression, and not inside of another one. -/
inductive Json.PartOf (value : Json) : Json → Prop where
  | item {items : List Json} (hmem : value ∈ items) : PartOf value (.array items)
  | operand {expr : Json} {path : List String} (hpath : path ∈ expressionOperands)
      (hvalue : expr.at? path = some value) : PartOf value expr
  | listed {expr : Json} {form : String} {operands : List Json} (hform : form ∈ operatorForms)
      (hoperands : expr.get? form = some (.array operands)) (hmem : value ∈ operands) :
      PartOf value expr
  | single {expr : Json} {form : String} (hform : form ∈ operatorForms)
      (hvalue : expr.get? form = some value) (halone : value.array? = none) : PartOf value expr
  | argument {expr : Json} {path : List String} {name : String} (hpath : path ∈ argumentPaths)
      (hvalue : expr.at? (path ++ [name]) = some value) : PartOf value expr

/-- The value stands in expression position somewhere in the expression. -/
inductive Json.ExpressionIn (part : Json) : Json → Prop where
  | here : ExpressionIn part part
  | inside {expr inner : Json} (hinner : inner.PartOf expr) (h : ExpressionIn part inner) :
      ExpressionIn part expr

/-! ### Shapes -/

/-- The value is a statement as far as its own level shows. -/
structure Json.StatementShape (value : Json) (form : String) (body : Json) : Prop where
  formed : value.HasForm statementForms form body
  fields : ∀ rules, formRules form = some rules → body.Follows rules
  handler : form = "on" → ∃ handler, body.get? "call" = some handler ∧ handler.Follows handlerRules
  operands : form = "ffi" → ∀ args, body.get? "args" = some args →
    ∃ operands, args = .array operands ∧ ∀ operand ∈ operands, operand.Follows operandRules
  blocks : ∀ path ∈ blockPaths, ∀ block, value.at? path = some block →
    ∃ stmts, block = .array stmts

/-- The object is an expression as far as its own level shows. -/
structure Json.ExpressionShape (value : Json) (form : String) (body : Json) : Prop where
  formed : value.HasForm expressionForms form body
  fields : ∀ rules, formRules form = some rules → body.Follows rules
  operands : form ∈ operatorForms → ∀ operands, body = .array operands →
    operands ≠ [] ∧ operands.length ≤ 255

/-! ### Trees without gaps -/

/-- The field is given. -/
def Field.Given (field : Field α) : Prop := ∃ value, field = .given value

/-- Nothing is missing in the statement and no field is unknown, apart from what is inside of its
expressions and its blocks. -/
def Stmt.Complete : Stmt → Prop
  | .notObject | .unknownForm _ | .misshapen _ | .misshapenCall => False
  | .overfull _ stray stmt => stray = [] ∧ stmt.Complete
  | .print _ | .giveBack _ | .release _ => True
  | .assign stray name _ value => stray = [] ∧ name.Given ∧ value.isSome
  | .call target place _ => target.stray = [] ∧ target.function.isSome ∧ place ≠ .both
  | .branch stray condition whenTrue whenFalse =>
      stray = [] ∧ condition.isSome ∧ whenTrue.Given ∧ (whenFalse = .absent ∨ whenFalse.Given)
  | .loop stray condition body => stray = [] ∧ condition.isSome ∧ body.Given
  | .setElement stray array index value =>
      stray = [] ∧ array.Given ∧ index.isSome ∧ value.isSome
  | .pushElement stray array value => stray = [] ∧ array.Given ∧ value.isSome
  | .subscribe stray event handler => stray = [] ∧ event.Given ∧
      ∃ target, handler = some target ∧ target.stray = [] ∧ target.function.Given
  | .foreign stray lib symbol _ operands _ => stray = [] ∧ lib.Given ∧ symbol.Given ∧
      (operands = .absent ∨ ∃ listed, operands = .given listed ∧ ∀ operand ∈ listed,
        ∃ tag value, operand = .operand [] (.given tag) (some value))
  | .allocate stray size into => stray = [] ∧ size.isSome ∧ into.Given
  | .writeMemory stray width pointer _ value =>
      stray = [] ∧ width.Given ∧ pointer.isSome ∧ value.isSome
  | .readMemory stray width pointer _ into =>
      stray = [] ∧ width.Given ∧ pointer.isSome ∧ into.Given

/-- Nothing is missing in the expression and no field is unknown, apart from what is inside of the
expressions in it. -/
def Expr.Complete : Expr → Prop
  | .unknownForm _ | .misshapenGet | .misshapenCall => False
  | .overfull _ stray expr => stray = [] ∧ expr.Complete
  | .get stray source index => stray = [] ∧ source.isSome ∧ index.isSome
  | .call target place _ => target.stray = [] ∧ target.function.isSome ∧ place ≠ .both
  | .operator _ operands => ∃ items, operands = some items ∧ items ≠ [] ∧ items.length ≤ 255
  | _ => True

section Reading

variable {members : List (String × Json)} {key form : String}

theorem lookup_of_given (h : (textField members key).Given) : (members.lookup key).isSome := by
  obtain ⟨text, htext⟩ := h
  unfold textField at htext
  split at htext
  next => cases htext
  next hlookup => rw [hlookup]; rfl
  next => cases htext

theorem lookup_of_text (h : (optionalText members key).isSome) : (members.lookup key).isSome := by
  unfold optionalText at h
  exact Option.isSome_of_isSome_bind h

theorem array_of_given {item : Json → α} (h : (listField item members key).Given) :
    ∃ items, members.lookup key = some (.array items) := by
  obtain ⟨list, hlist⟩ := h
  unfold listField at hlist
  split at hlist
  next => cases hlist
  next items hlookup => exact ⟨items, hlookup⟩
  next => cases hlist

theorem lookup_of_absent {item : Json → α} (h : listField item members key = .absent) :
    members.lookup key = none := by
  unfold listField at h
  split at h
  next hlookup => exact hlookup
  next => cases h
  next => cases h

theorem Json.Follows.of_fields {rules : FieldRules} {known : List String}
    (hstray : strayKeys known members = [])
    (hrequired : ∀ key ∈ rules.required, (members.lookup key).isSome)
    (hknown : ∀ key ∈ known, key ∈ rules.required ∨ key ∈ rules.optional) :
    (Json.object members).Follows rules where
  object := ⟨members, rfl⟩
  required key hkey := by
    obtain ⟨value, hvalue⟩ := Option.isSome_iff_exists.1 (hrequired key hkey)
    exact Json.mem_keys_of_lookup hvalue
  known key hkey := by
    refine hknown key ?_
    have hnone := List.filter_eq_nil_iff.1 hstray key hkey
    simpa using hnone

theorem object_of_complete {value : Json} {read : List (String × Json) → Stmt}
    (h : (objectForm form value read).Complete) :
    ∃ members, value = .object members ∧ (read members).Complete := by
  cases value with
  | object members => exact ⟨members, rfl, h⟩
  | _ => exact h.elim

theorem lookup_of_map {read : Json → α} (h : ((members.lookup key).map read).isSome) :
    (members.lookup key).isSome := by
  rwa [Option.isSome_map] at h

theorem lookup_of_array {items : List Json} (h : members.lookup key = some (.array items)) :
    (members.lookup key).isSome :=
  Option.isSome_iff_exists.2 ⟨_, h⟩

/-- A statement without gaps is written with the fields of its form. -/
theorem fields_of_complete {operand : Json → Expr} {block : Json → Stmt} {value : Json}
    (h : (readStatementForm operand block members form value).Complete) {rules : FieldRules}
    (hrules : formRules form = some rules) : value.Follows rules := by
  unfold readStatementForm at h
  split at h
  -- The cases stand in the order in which the forms are listed; the last one is of no known form.
  -- Forms that have no fields of their own have no rules.
  case h_15 => exact h.elim
  all_goals cases hrules
  case h_1 =>
    obtain ⟨body, rfl, hstray, hname, hvalue⟩ := object_of_complete h
    exact .of_fields hstray (forall_mem_cons.2 ⟨lookup_of_given hname,
      forall_mem_singleton.2 (lookup_of_map hvalue)⟩) (by simp)
  case h_3 =>
    split at h
    next call =>
      obtain ⟨hstray, hfunction, -⟩ := h
      exact .of_fields hstray (forall_mem_singleton.2 (lookup_of_text hfunction)) (by simp)
    next => exact h.elim
  case h_4 =>
    obtain ⟨body, rfl, hstray, hcondition, htrue, -⟩ := object_of_complete h
    obtain ⟨_, harray⟩ := array_of_given htrue
    exact .of_fields hstray (forall_mem_cons.2 ⟨lookup_of_map hcondition,
      forall_mem_singleton.2 (lookup_of_array harray)⟩) (by simp)
  case h_5 =>
    obtain ⟨body, rfl, hstray, hcondition, hbody⟩ := object_of_complete h
    obtain ⟨_, harray⟩ := array_of_given hbody
    exact .of_fields hstray (forall_mem_cons.2 ⟨lookup_of_map hcondition,
      forall_mem_singleton.2 (lookup_of_array harray)⟩) (by simp)
  case h_6 =>
    obtain ⟨body, rfl, hstray, harray, hindex, hvalue⟩ := object_of_complete h
    exact .of_fields hstray (forall_mem_cons.2 ⟨lookup_of_given harray, forall_mem_cons.2
      ⟨lookup_of_map hindex, forall_mem_singleton.2 (lookup_of_map hvalue)⟩⟩) (by simp)
  case h_7 =>
    obtain ⟨body, rfl, hstray, harray, hvalue⟩ := object_of_complete h
    exact .of_fields hstray (forall_mem_cons.2 ⟨lookup_of_given harray,
      forall_mem_singleton.2 (lookup_of_map hvalue)⟩) (by simp)
  case h_9 =>
    obtain ⟨body, rfl, hstray, hevent, target, htarget, -⟩ := object_of_complete h
    have hcall : (body.lookup "call").isSome := by
      obtain ⟨members, hmembers, -⟩ := Option.map_eq_some_iff.1 htarget
      obtain ⟨call, hcall, -⟩ := Option.bind_eq_some_iff.1 hmembers
      exact Option.isSome_iff_exists.2 ⟨call, hcall⟩
    exact .of_fields hstray (forall_mem_cons.2 ⟨lookup_of_given hevent,
      forall_mem_singleton.2 hcall⟩) (by simp)
  case h_10 =>
    obtain ⟨body, rfl, hstray, hlib, hsymbol, -⟩ := object_of_complete h
    exact .of_fields hstray (forall_mem_cons.2 ⟨lookup_of_given hlib,
      forall_mem_singleton.2 (lookup_of_given hsymbol)⟩) (by simp)
  case h_11 =>
    obtain ⟨body, rfl, hstray, hsize, hinto⟩ := object_of_complete h
    exact .of_fields hstray (forall_mem_cons.2 ⟨lookup_of_map hsize,
      forall_mem_singleton.2 (lookup_of_given hinto)⟩) (by simp)
  case h_12 =>
    obtain ⟨body, rfl, hstray, hwidth, hpointer, hvalue⟩ := object_of_complete h
    exact .of_fields hstray (forall_mem_cons.2 ⟨lookup_of_given hwidth, forall_mem_cons.2
      ⟨lookup_of_map hpointer, forall_mem_singleton.2 (lookup_of_map hvalue)⟩⟩) (by simp)
  case h_13 =>
    obtain ⟨body, rfl, hstray, hwidth, hpointer, hinto⟩ := object_of_complete h
    exact .of_fields hstray (forall_mem_cons.2 ⟨lookup_of_given hwidth, forall_mem_cons.2
      ⟨lookup_of_map hpointer, forall_mem_singleton.2 (lookup_of_given hinto)⟩⟩) (by simp)

theorem handler_of_complete {operand : Json → Expr} {block : Json → Stmt} {value : Json}
    (h : (readStatementForm operand block members "on" value).Complete) :
    ∃ handler, value.get? "call" = some handler ∧ handler.Follows handlerRules := by
  obtain ⟨body, rfl, -, -, target, htarget, hstray, hfunction⟩ := object_of_complete h
  obtain ⟨members, hmembers, rfl⟩ := Option.map_eq_some_iff.1 htarget
  obtain ⟨call, hcall, hobject⟩ := Option.bind_eq_some_iff.1 hmembers
  cases call with
  | object inner =>
      cases hobject
      exact ⟨_, hcall, .of_fields hstray (forall_mem_singleton.2 (lookup_of_given hfunction))
        (by simp [handlerRules])⟩
  | _ => cases hobject

theorem operands_of_complete {operand : Json → Expr} {block : Json → Stmt} {value args : Json}
    (h : (readStatementForm operand block members "ffi" value).Complete)
    (hargs : value.get? "args" = some args) :
    ∃ operands, args = .array operands ∧ ∀ operand ∈ operands, operand.Follows operandRules := by
  obtain ⟨body, rfl, -, -, -, habsent | ⟨listed, hlisted, hall⟩⟩ := object_of_complete h
  · cases (lookup_of_absent habsent).symm.trans hargs
  · obtain ⟨operands, hoperands⟩ := array_of_given ⟨listed, hlisted⟩
    cases hoperands.symm.trans hargs
    refine ⟨operands, rfl, fun value hvalue => ?_⟩
    rw [listField, hoperands] at hlisted
    cases hlisted
    obtain ⟨tag, inner, hread⟩ := hall _ (List.mem_map_of_mem hvalue)
    cases value with
    | object fields =>
        obtain ⟨hstray, htag, hinner⟩ := ForeignOperand.operand.inj hread
        refine .of_fields hstray (forall_mem_cons.2 ⟨lookup_of_given ⟨tag, htag⟩,
          forall_mem_singleton.2 ?_⟩) (by simp [operandRules])
        exact lookup_of_map (Option.isSome_iff_exists.2 ⟨inner, hinner⟩)
    | _ => cases hread

end Reading

/-! ### The form of a value -/

theorem Json.HasForm.of_lookup {forms : List String} {members : List (String × Json)}
    {form : String} {body : Json} (hform : form ∈ forms) (hbody : members.lookup form = some body)
    (hstray : strayKeys (knownKeys form) members = []) :
    (Json.object members).HasForm forms form body where
  object := ⟨members, rfl⟩
  known := hform
  body := hbody
  alone key hkey := by
    have hknown : key ∈ knownKeys form := by
      simpa using List.filter_eq_nil_iff.1 hstray key hkey
    unfold knownKeys at hknown
    split at hknown
    next hcall =>
      rcases List.mem_cons.1 hknown with rfl | hargs
      · exact .inl hcall.symm
      · exact .inr ⟨hcall, List.mem_singleton.1 hargs⟩
    next => exact .inl (List.mem_singleton.1 hknown)

theorem Json.HasForm.eq_of_get? {forms : List String} {value body inner : Json}
    {form key : String} (h : value.HasForm forms form body) (hkey : key ≠ "args")
    (hinner : value.get? key = some inner) : key = form ∧ inner = body := by
  obtain ⟨members, rfl, hlookup⟩ := Json.object_of_get? hinner
  rcases h.alone key (Json.mem_keys_of_lookup hlookup) with rfl | ⟨-, hargs⟩
  · exact ⟨rfl, Option.some.inj (hinner.symm.trans h.body)⟩
  · exact absurd hargs hkey

/-- A statement without gaps has a form, and is what its form makes of its value. -/
theorem Stmt.form_of_complete {value : Json} (h : (Stmt.ofJson value).Complete) :
    ∃ members form body, value = .object members ∧ value.HasForm statementForms form body ∧
      Stmt.ofJson value = readStatementForm Expr.ofJson Stmt.ofJson members form body := by
  rw [Stmt.ofJson_eq] at h ⊢
  cases value with
  | object members =>
      unfold readLevel at h ⊢
      simp only at h ⊢
      split at h
      next => exact h.elim
      next form body hfound =>
        obtain ⟨hform, hbody⟩ := form_of_findSome? hfound
        split at h
        next hstray => exact ⟨members, form, body, rfl, .of_lookup hform hbody hstray, rfl⟩
        next hstray => exact absurd h.1 hstray
  | _ => exact h.elim

/-- An object that is an expression without gaps has a form, and is what its form makes of its
value. -/
theorem Expr.form_of_complete {value : Json} (h : (Expr.ofJson value).Complete)
    (hobject : ∃ members, value = .object members) :
    ∃ members form body, value = .object members ∧ value.HasForm expressionForms form body ∧
      Expr.ofJson value = readForm Expr.ofJson members form body := by
  obtain ⟨members, rfl⟩ := hobject
  rw [Expr.ofJson_eq] at h ⊢
  unfold readLevel at h ⊢
  simp only at h ⊢
  split at h
  next => exact h.elim
  next form body hfound =>
    obtain ⟨hform, hbody⟩ := form_of_findSome? hfound
    split at h
    next hstray => exact ⟨members, form, body, rfl, .of_lookup hform hbody hstray, rfl⟩
    next hstray => exact absurd h.1 hstray

/-! ### What has no gaps has its shape -/

theorem Stmt.blocks_of_complete {value block : Json} {form : String} {body : Json}
    {members : List (String × Json)} {path : List String}
    (hform : value.HasForm statementForms form body)
    (h : (readStatementForm Expr.ofJson Stmt.ofJson members form body).Complete)
    (hpath : path ∈ blockPaths) (hblock : value.at? path = some block) :
    ∃ stmts, block = .array stmts := by
  simp only [blockPaths, List.mem_cons, List.not_mem_nil, or_false] at hpath
  rcases hpath with rfl | rfl | rfl
  all_goals
    obtain ⟨_, houter, hinner⟩ := Json.at?_pair.1 hblock
    obtain ⟨rfl, rfl⟩ := hform.eq_of_get? (by simp) houter
    obtain ⟨fields, rfl, hlookup⟩ := Json.object_of_get? hinner
  · obtain ⟨-, -, htrue, -⟩ := h
    obtain ⟨stmts, hstmts⟩ := array_of_given htrue
    exact ⟨stmts, Option.some.inj (hlookup.symm.trans hstmts)⟩
  · obtain ⟨-, -, -, habsent | hfalse⟩ := h
    · cases (lookup_of_absent habsent).symm.trans hlookup
    · obtain ⟨stmts, hstmts⟩ := array_of_given hfalse
      exact ⟨stmts, Option.some.inj (hlookup.symm.trans hstmts)⟩
  · obtain ⟨-, -, hbody⟩ := h
    obtain ⟨stmts, hstmts⟩ := array_of_given hbody
    exact ⟨stmts, Option.some.inj (hlookup.symm.trans hstmts)⟩

theorem Stmt.shape_of_complete {value : Json} (h : (Stmt.ofJson value).Complete) :
    ∃ form body, value.StatementShape form body := by
  obtain ⟨members, form, body, rfl, hform, heq⟩ := form_of_complete h
  rw [heq] at h
  refine ⟨form, body, hform, fun rules hrules => fields_of_complete h hrules, ?_, ?_,
    fun path hpath block hblock => blocks_of_complete hform h hpath hblock⟩
  · rintro rfl
    exact handler_of_complete h
  · rintro rfl args hargs
    exact operands_of_complete h hargs

theorem Expr.fields_of_complete {members : List (String × Json)} {form : String} {body : Json}
    (hform : form ∈ expressionForms) (h : (readForm Expr.ofJson members form body).Complete)
    {rules : FieldRules} (hrules : formRules form = some rules) : body.Follows rules := by
  simp only [expressionForms, List.mem_cons, List.not_mem_nil, or_false] at hform
  rcases hform with rfl | rfl | rfl | hplain
  · cases hrules
  · cases hrules
    cases body with
    | object call =>
        obtain ⟨hstray, hfunction, -⟩ := h
        exact .of_fields hstray (forall_mem_singleton.2 (lookup_of_text hfunction)) (by simp)
    | _ => exact h.elim
  · cases hrules
    cases body with
    | object access =>
        obtain ⟨hstray, harray, hindex⟩ := h
        exact .of_fields hstray (forall_mem_cons.2 ⟨lookup_of_text harray,
          forall_mem_singleton.2 (lookup_of_map hindex)⟩) (by simp)
    | _ => exact h.elim
  · rcases hplain with rfl | rfl | rfl | rfl | rfl | rfl | rfl | rfl | rfl | rfl | rfl | rfl |
      rfl | rfl <;> cases hrules

theorem readForm_operator {form : String} (hform : form ∈ operatorForms) :
    ∃ operator, ∀ operand members value, readForm operand members form value =
      .operator operator (readOperands operator operand value) := by
  simp only [operatorForms, List.mem_cons, List.not_mem_nil, or_false] at hform
  rcases hform with rfl | rfl | rfl | rfl | rfl | rfl | rfl | rfl | rfl | rfl <;>
    exact ⟨_, fun _ _ _ => rfl⟩

theorem Expr.shape_of_complete {value : Json} (h : (Expr.ofJson value).Complete)
    (hobject : ∃ members, value = .object members) :
    ∃ form body, value.ExpressionShape form body := by
  obtain ⟨members, form, body, rfl, hform, heq⟩ := form_of_complete h hobject
  rw [heq] at h
  refine ⟨form, body, hform, fun rules hrules => fields_of_complete hform.known h hrules, ?_⟩
  rintro hoperator items rfl
  obtain ⟨operator, hread⟩ := readForm_operator hoperator
  rw [hread] at h
  obtain ⟨operands, hoperands, hpositive, hcount⟩ := h
  cases hoperands
  rw [List.length_map] at hcount
  exact ⟨fun hnil => hpositive (hnil ▸ rfl), hcount⟩

end DocScript
