import DocScript.Proofs.Compile.Occurrence
import DocScript.Proofs.Compile.Prediction
import DocScript.Proofs.Compile.Resolution
import DocScript.Proofs.Machine.ArgumentBinding

/-! # Kinds of values where code runs

The compiler checks stores, arguments and elements by the static types of expressions, and the
machine goes by the kinds of the values. Where the locals hold what their declarations say, the code
of an expression leaves a value on the stack whose kind goes with the type, unless it hands on the
single operand of an arithmetic operator.
-/

namespace DocScript

open Command

/-! ### Declared types -/

namespace StaticType

theorem Written.of_not_array {type : StaticType} (h : type.isArray = false) : type.Written := by
  intro harray
  rw [h] at harray
  cases harray

theorem written_of_ofText? {text : String} {type : StaticType} (h : ofText? text = some type) :
    type.Written := by
  unfold ofText? at h
  split at h
  next =>
    simp only at h
    split at h
    next => cases h
    next =>
      cases h
      exact .of_not_array rfl
  next =>
    split at h
    any_goals
      cases h
      exact .of_not_array rfl
    any_goals
      cases h
      exact fun _ => ⟨_, _, rfl, rfl⟩
    cases h

end StaticType

theorem Parameter.ReadFrom.written {param : Parameter} {item : Json} (h : param.ReadFrom item) :
    param.type.Written := by
  have htype := h.type
  unfold paramType at htype
  split at htype
  next =>
    rw [← Except.ok.inj htype]
    exact .of_not_array rfl
  next =>
    split at htype
    next type htext =>
      rw [← Except.ok.inj htype]
      exact StaticType.written_of_ofText? htext
    next => cases htype

theorem Native.written_of_mem {function : Native} {name : String} {type : StaticType}
    (h : (name, type) ∈ function.params) : type.Written := by
  have hall : ∀ param ∈ function.params, param.2.isArray = false := by
    cases function <;> decide
  exact .of_not_array (hall _ h)

theorem Parameter.Source.written {units : List SourceUnit} {param : Parameter}
    (h : param.Source units) : param.type.Written := by
  cases h with
  | declared _ _ _ hread => exact hread.written
  | native hnative => exact Native.written_of_mem hnative

theorem written_of_declaredLocals {declaration : Json} {name : String} {type : StaticType}
    (h : (name, type) ∈ declaredLocals declaration) : type.Written := by
  unfold declaredLocals at h
  split at h
  next =>
    obtain ⟨item, -, hlocal⟩ := List.mem_filterMap.1 h
    obtain ⟨found, -, hlocal⟩ := Option.bind_eq_some_iff.1 hlocal
    obtain ⟨text, -, hlocal⟩ := Option.bind_eq_some_iff.1 hlocal
    obtain ⟨declared, htext, hsame⟩ := Option.bind_eq_some_iff.1 hlocal
    cases hsame
    exact StaticType.written_of_ofText? htext
  next => cases h

namespace Translation

variable {units : List SourceUnit} {compilation : Compilation} {signatures : SignatureTable}
  {space : String} {declaration : Json} {compiled : CompiledFunction Constant}

/-- What the names in the body of the function stand for. -/
def scope (made : Translation signatures space declaration compiled) : BodyScope :=
  ⟨signatures, made.names⟩

/-- The types of all locals of a function are declared. -/
theorem written (made : Translation (programSignatures units) space declaration compiled)
    (hcompile : compileUnits units = .ok compilation) : made.scope.Written := by
  intro name target hslot
  have hmem := List.mem_of_getElem? ((made.laidOut.slot name target).1 hslot)
  rcases List.mem_append.1 hmem with hparam | hlocal
  · obtain ⟨param, hmem, hsame⟩ := List.mem_map.1 hparam
    rw [← (Prod.mk.inj hsame).2]
    exact (param_source hcompile made.known hmem).written
  · exact written_of_declaredLocals hlocal

variable (made : Translation signatures space declaration compiled)

/-! ### Where the code of an expression stands -/

/-- The code of the function has the code of the expression from an offset to another one. The names
are those that count as assigned there. -/
def Spans (assigned : List String) (expr : Expr) (start finish : Nat) : Prop :=
  ∃ commands, ExprCode made.scope compiled.constants.toList assigned expr commands ∧
    Loaded compiled.code start commands ∧ finish = start + size commands

/-- What occurs in the body has its code in the function, unless it is a null. -/
theorem spans_of_mentions {stmt : Stmt} {expr : Expr} (hstmt : stmt ∈ made.stmts)
    (hmentions : stmt.Mentions expr) (hnull : expr ≠ .null) :
    ∃ assigned start finish, made.Spans assigned expr start finish := by
  obtain ⟨_, _, _, _, hcode, hstands⟩ := made.block.of_mem hstmt
  obtain ⟨assigned, commands, hexpr, hin⟩ := (hmentions.compiles hcode).resolve_left hnull
  obtain ⟨before, after, hwhole⟩ := hin.trans hstands
  have hloaded : Loaded compiled.code 0 (made.commands ++ [⟨.halt, 0⟩]) :=
    ⟨.whole made.code, fun command hmem => (made.orderly_whole.allows command hmem).fits⟩
  have hfirst := hloaded.left
  rw [← hwhole] at hfirst
  exact ⟨assigned, _, _, commands, hexpr, hfirst.left.right, rfl⟩

/-- The locals that count as assigned hold what their types say. -/
def Holds (assigned : List String) (heap : Heap) (locals : Array Value) : Prop :=
  ∀ (slot : Nat) name type value, made.slots[slot]? = some (name, type) → name ∈ assigned →
    locals[slot]? = some value → heap.Suits type value

/-! ### Where it runs -/

variable {setup : Setup σ γ} {function : CompiledFunction Value} {machine : Machine σ γ}
  {outer : List Frame} {locals : Array Value} {assigned : List String} {expr : Expr}
  {start finish : Nat}

/-- A function that was made from a declaration, above other frames. -/
def running (hlinks : compiled.Links function) (setup : Setup σ γ) (outer : List Frame)
    (begun : Machine σ γ) : Running σ γ where
  setup
  function
  pool := compiled.constants.toList
  names := made.names
  slots := made.slots
  outer
  begun
  constant := hlinks.constant
  laidOut := made.laidOut

/-- The locals of a frame go by their names. -/
theorem values_start (hlocals : locals.size = compiled.localCount) :
    (Store.start made.slots locals.toList).values made.slots = locals := by
  have hcount : locals.size = made.slots.length := hlocals.trans made.localCount
  have hdistinct : (made.slots.map Prod.fst).Nodup := made.laidOut.distinct
  rw [Store.values_start hdistinct (Nat.le_of_eq hcount)]
  simp [hcount]

/-- Locals that hold what their types say do so by their names. -/
theorem Holds.fills {made : Translation signatures space declaration compiled} {heap : Heap}
    (h : made.Holds assigned heap locals) (hlocals : locals.size = compiled.localCount) :
    made.scope.Fills assigned (.start made.slots locals.toList) heap := by
  intro name target hreads
  have hslot := (made.laidOut.slot name target).1 hreads.1
  have hvalue := (Store.start made.slots locals.toList).getElem?_values hslot
  change (Store.values _ made.slots)[target.slot]? = _ at hvalue
  rw [made.values_start hlocals] at hvalue
  exact h target.slot name target.type _ hslot hreads.2 hvalue

/-- The code of an expression does what the expression says: it leaves the value on the stack, or
faults as the expression does. -/
theorem Spans.gives {made : Translation signatures space declaration compiled}
    (h : made.Spans assigned expr start finish) (hfree : expr.isCallFree = true)
    (hlinks : compiled.Links function) (setup : Setup σ γ)
    (hframes : machine.frames = ⟨function, start, locals⟩ :: outer)
    (hlocals : locals.size = compiled.localCount) :
    match expr.evaluate (.start made.slots locals.toList) machine.heap with
    | .error kind heap => machine.Faults setup outer.length kind heap
    | .ok value heap => ∃ count, machine.advance setup outer.length count = some { machine with
        frames := ⟨function, finish, locals⟩ :: outer
        stack := value :: machine.stack
        heap } := by
  obtain ⟨commands, hcode, hloaded, hfinish⟩ := h
  let run := made.running hlinks setup outer machine
  let situation : Situation := ⟨.start made.slots locals.toList, machine.heap, []⟩
  have hvalues : situation.store.values run.slots = locals := made.values_start hlocals
  have hbegun : run.state start machine.stack situation = machine := by
    rw [Running.state, hvalues]
    change { machine with frames := ⟨function, start, locals⟩ :: outer } = machine
    rw [← hframes]
  have hgives : run.Gives (run.state start machine.stack situation) finish (· :: machine.stack)
      situation (expr.evaluate situation.store situation.heap) :=
    ExprCode.gives hcode hfree (hlinks.code ▸ hloaded) hfinish machine.stack situation
  rw [hbegun] at hgives
  split
  next kind heap hresult =>
    rw [hresult] at hgives
    exact hgives.faults
  next value heap hresult =>
    rw [hresult] at hgives
    obtain ⟨count, hcount⟩ := hgives
    refine ⟨count, hcount.trans ?_⟩
    rw [Running.state, hvalues]
    rfl

end Translation

/-- Static types predict the kinds of values. A program that compiles has a function for each of its
declarations, with code for every expression in the body that has a static type. Let that code run
in a frame whose assigned locals hold what their declared types say. Then it comes to a fault, or to
its end with the value of the expression on the stack. The kind of that value goes with the static
type, unless it is handed on by an arithmetic operator with a single operand that does not fit. -/
theorem types_predict_kinds {units : List SourceUnit} {compilation : Compilation}
    (hcompile : compileUnits units = .ok compilation) {space : String} {declaration : Json}
    (hdeclared : Declared units space declaration) :
    ∃ (compiled : CompiledFunction Constant)
      (made : Translation (programSignatures units) space declaration compiled),
      compiled ∈ compilation.functions.functions ∧
      (∀ stmt ∈ made.stmts, ∀ expr type, stmt.Mentions expr → made.scope.typeOf expr = some type →
        ∃ assigned start finish, made.Spans assigned expr start finish) ∧
      ∀ assigned expr start finish type, made.Spans assigned expr start finish →
        expr.isCallFree = true → expr.isPredictable made.scope = true →
        made.scope.typeOf expr = some type →
        ∀ {σ γ : Type} (setup : Setup σ γ) (linked : Heap) (machine : Machine σ γ)
          (outer : List Frame) (locals : Array Value),
          machine.frames = ⟨(compiled.link linked).1, start, locals⟩ :: outer →
          locals.size = compiled.localCount → made.Holds assigned machine.heap locals →
          match expr.evaluate (.start made.slots locals.toList) machine.heap with
          | .error kind heap => machine.Faults setup outer.length kind heap
          | .ok value heap => type.kind.fits value.kind = true ∧
              ∃ count, machine.advance setup outer.length count = some { machine with
                frames := ⟨(compiled.link linked).1, finish, locals⟩ :: outer
                stack := value :: machine.stack
                heap } := by
  obtain ⟨compiled, made, hmem⟩ := exists_translation hcompile hdeclared
  refine ⟨compiled, made, hmem, fun stmt hstmt expr type hmentions htype => ?_, ?_⟩
  · refine made.spans_of_mentions hstmt hmentions ?_
    rintro rfl
    cases htype
  · intro assigned expr start finish type hspans hfree hsure htype σ γ setup linked machine outer
      locals hframes hlocals hholds
    have hlinks := (link_scalars made.wellFormed.scalar linked).2
    have hgives := hspans.gives hfree hlinks setup hframes hlocals
    obtain ⟨commands, hcode, -⟩ := hspans
    split at hgives
    next => exact hgives
    next value heap hresult =>
      have hpredicts := ExprCode.predicts (made.written hcompile) hcode hfree hsure
        (hholds.fills hlocals) hresult
      exact ⟨hpredicts.typed type htype, hgives⟩

/-- A function that adds two elements of an array of floats, one of them handed on by a
difference. -/
def summing : SourceUnit where
  id := "summing.json"
  text := "\x7b\"namespace\": \"M\", \"functions\": [\x7b\"name\": \"sum\", \"params\":
    [\x7b\"name\": \"xs\", \"type\": \"float[]\"\x7d], \"body\": [\x7b\"print\": \x7b\"add\":
    [\x7b\"get\": \x7b\"array\": \"xs\", \"at\": 1\x7d\x7d, \x7b\"subtract\": [\x7b\"get\":
    \x7b\"array\": \"xs\", \"at\": 0\x7d\x7d]\x7d]\x7d\x7d]\x7d]\x7d"

/-- What `summing` prints. -/
def summed : Expr :=
  .operator (.arithmetic .add) (some [.get [] (some "xs") (some (.int 1)),
    .operator (.arithmetic .subtract) (some [.get [] (some "xs") (some (.int 0))])])

/-- An array of two integers. -/
def twoInts : Heap := ⟨#[⟨#[.int 2, .int 5], some .int⟩]⟩

/-- Whether the body only prints what `summing` does. -/
def printsSummed : List Stmt → Bool
  | [.print (.operator (.arithmetic .add) (some [.get [] (some array) (some (.int second)),
      .operator (.arithmetic .subtract) (some [.get [] (some other) (some (.int first))])]))] =>
      array = "xs" && second = 1 && other = "xs" && first = 0
  | _ => false

theorem eq_of_printsSummed {stmts : List Stmt} (h : printsSummed stmts = true) :
    stmts = [.print summed] := by
  unfold printsSummed at h
  split at h
  next =>
    simp only [Bool.and_eq_true, decide_eq_true_eq] at h
    obtain ⟨⟨⟨rfl, rfl⟩, rfl⟩, rfl⟩ := h
    rfl
  next => cases h

set_option maxRecDepth 100000 in
theorem summing_predicts : ∃ (setup : Setup Transcript HeadlessGraphics)
    (machine last : Machine Transcript HeadlessGraphics)
    (function : CompiledFunction Value) (start finish count : Nat) (value : Value),
      machine.frames = [⟨function, start, #[.array 0]⟩] ∧
      machine.heap = twoInts ∧
      machine.advance setup 0 count = some last ∧
      last.frames = [⟨function, finish, #[.array 0]⟩] ∧ last.stack = value :: machine.stack ∧
      value = .int 7 ∧ StaticType.float.kind.fits value.kind = true := by
  obtain ⟨compilation, entries, hcompile, hentries, hcheck⟩ := exists_of_compilesTo summing
    (fun entries signatures _ =>
      (entries.any fun entry => entry.1 = "M" && declaredName? entry.2 = some "sum" &&
        (declaredBody? entry.2).any printsSummed && declaredLocals entry.2 = []) &&
      (signatures.get? ("M" ++ "." ++ "sum")).any fun signature =>
        signature.slots = [("xs", .array (some .float))]) rfl (by decide +kernel)
  generalize hknows : programSignatures [summing] = signatures at hcheck
  simp only [Bool.and_eq_true, List.any_eq_true, Option.any_eq_true, decide_eq_true_eq] at hcheck
  obtain ⟨⟨⟨space, declaration⟩, hmem, ⟨⟨rfl, hname⟩, stmts, hbody, hprints⟩, hlisted⟩, signature,
    hknown, hparams⟩ := hcheck
  obtain ⟨compiled, made, -, hspans, hpredicts⟩ :=
    types_predict_kinds hcompile ((hentries _ _).1 hmem)
  have hslots : made.slots = [("xs", .array (some .float))] := by
    obtain ⟨name, hother, hfull⟩ := made.named
    cases hname.symm.trans hother
    have hsignature : signatures.get? ("M" ++ "." ++ "sum") = some made.signature := by
      rw [← hknows, ← hfull]
      exact made.known
    have hsame : signature = made.signature := Option.some.inj (hknown.symm.trans hsignature)
    rw [Translation.slots, hlisted, ← hsame, hparams]
    rfl
  have hstmts : made.stmts = [.print summed] := by
    cases hbody.symm.trans made.body
    exact eq_of_printsSummed hprints
  have hslot : made.names.slot? "xs" = some ⟨0, .array (some .float)⟩ := by
    refine (made.laidOut.slot "xs" ⟨0, .array (some .float)⟩).2 ?_
    change made.slots[0]? = _
    rw [hslots]
    rfl
  have htype : made.scope.typeOf summed = some .float := by
    simp [BodyScope.typeOf, summed, Expr.staticType, Expr.staticTypes, Translation.scope, hslot,
      StaticType.element?, StaticType.ofKind?, Arithmetic.resultType]
  have hsure : summed.isPredictable made.scope = true := by
    simp [summed, Expr.isPredictable, arePredictable, BodyScope.fitsAlone, Expr.isNull,
      BodyScope.typeOf, Expr.staticType, Translation.scope, hslot, StaticType.element?,
      StaticType.ofKind?, StaticType.isNumeric]
  obtain ⟨assigned, start, finish, hstands⟩ :=
    hspans (.print summed) (by simp [hstmts]) summed .float ⟨_, _, .here, .print, .here⟩ htype
  let function := (compiled.link {}).1
  let setup := Setup.printing (compilation.functions.link {}).1
  let machine : Machine Transcript HeadlessGraphics :=
    { frames := [⟨function, start, #[.array 0]⟩]
      heap := twoInts
      graphics := .absent
      environment := {} }
  have hsize : compiled.localCount = 1 := by
    have hcount : compiled.localCount = made.slots.length := made.localCount
    rw [hcount, hslots]
    rfl
  have hitems : ∀ item ∈ (twoInts.object 0).items, ValueKind.float.fits item.kind = true := by
    decide
  have hholds : made.Holds assigned machine.heap #[.array 0] := by
    intro slot name type value hslot _ hvalue
    rw [hslots] at hslot
    cases slot with
    | zero =>
        cases hslot
        cases hvalue
        refine ⟨rfl, fun handle element hsame helement => ?_⟩
        cases hsame
        cases helement
        exact ⟨Nat.zero_lt_one, hitems⟩
    | succ slot => cases hslot
  have hruns := hpredicts assigned summed start finish .float hstands rfl hsure htype setup {}
    machine [] #[.array 0] rfl hsize.symm hholds
  rw [hslots] at hruns
  obtain ⟨hfits, count, hcount⟩ := hruns
  exact ⟨setup, machine, _, function, start, finish, count, _, rfl, rfl, hcount, rfl, rfl, rfl,
    hfits⟩

/-- A function that returns what a difference hands on, and says that it is a float. -/
def relaying : SourceUnit where
  id := "m.json"
  text := "\x7b\"namespace\":\"M\",\"functions\":[\x7b\"name\":\"f\",\"type\":\"float\",
    \"body\":[\x7b\"return\":\x7b\"subtract\":[\x7b\"string\":\"a\"\x7d]\x7d\x7d]\x7d]\x7d"

/-- What `relaying` returns. -/
def relayed : Expr := .operator (.arithmetic .subtract) (some [.string (some "a")])

/-- Whether the body only returns what `relaying` does. -/
def returnsRelayed : List Stmt → Bool
  | [.giveBack (.operator (.arithmetic .subtract) (some [.string (some text)]))] => text = "a"
  | _ => false

theorem eq_of_returnsRelayed {stmts : List Stmt} (h : returnsRelayed stmts = true) :
    stmts = [.giveBack relayed] := by
  unfold returnsRelayed at h
  split at h
  next =>
    cases of_decide_eq_true h
    rfl
  next => cases h

set_option maxRecDepth 100000 in
/-- A single operand is handed on as it is, so the program compiles with a float as the type of the
difference, and the code of the difference leaves a string on the stack. -/
theorem relaying_leaves_string : ∃ (compilation : Compilation) (declaration : Json)
    (compiled : CompiledFunction Constant)
    (made : Translation (programSignatures [relaying]) "M" declaration compiled)
    (stmt : Stmt) (expr : Expr) (assigned : List String) (start finish count : Nat)
    (setup : Setup Transcript HeadlessGraphics)
    (machine last : Machine Transcript HeadlessGraphics) (value : Value),
      compileUnits [relaying] = .ok compilation ∧ compiled ∈ compilation.functions.functions ∧
      stmt ∈ made.stmts ∧ stmt.Mentions expr ∧ made.Spans assigned expr start finish ∧
      expr.isCallFree = true ∧ made.scope.typeOf expr = some .float ∧
      machine.frames = [⟨(compiled.link {}).1, start, #[]⟩] ∧ compiled.localCount = 0 ∧
      made.Holds assigned machine.heap #[] ∧ machine.advance setup 0 count = some last ∧
      last.frames = [⟨(compiled.link {}).1, finish, #[]⟩] ∧ last.stack = value :: machine.stack ∧
      value = .string "a" ∧ StaticType.float.kind.fits value.kind = false := by
  obtain ⟨compilation, entries, hcompile, hentries, hcheck⟩ := exists_of_compilesTo relaying
    (fun entries _ compilation =>
      (entries.any fun entry => entry.1 = "M" && (declaredBody? entry.2).any returnsRelayed) &&
        compilation.functions.functions.all (·.localCount = 0)) rfl (by decide +kernel)
  simp only [Bool.and_eq_true, List.any_eq_true, List.all_eq_true, Option.any_eq_true,
    decide_eq_true_eq] at hcheck
  obtain ⟨⟨⟨space, declaration⟩, hmem, rfl, stmts, hbody, hreturns⟩, hcounts⟩ := hcheck
  obtain ⟨compiled, made, hcompiled⟩ := exists_translation hcompile ((hentries _ _).1 hmem)
  have hstmts : made.stmts = [.giveBack relayed] := by
    cases hbody.symm.trans made.body
    exact eq_of_returnsRelayed hreturns
  have hstmt : .giveBack relayed ∈ made.stmts := by simp [hstmts]
  have hmentions : (Stmt.giveBack relayed).Mentions relayed := ⟨_, _, .here, .giveBack, .here⟩
  obtain ⟨assigned, start, finish, hspans⟩ := made.spans_of_mentions hstmt hmentions nofun
  have hcount : compiled.localCount = 0 := hcounts compiled hcompiled
  let setup := Setup.printing (compilation.functions.link {}).1
  let machine : Machine Transcript HeadlessGraphics :=
    { frames := [⟨(compiled.link {}).1, start, #[]⟩]
      heap := {}
      graphics := .absent
      environment := {} }
  have hholds : made.Holds assigned machine.heap #[] := by
    intro slot name type value _ _ hvalue
    cases hvalue
  have hlinks := (link_scalars made.wellFormed.scalar {}).2
  have hframes : machine.frames = ⟨(compiled.link {}).1, start, #[]⟩ :: [] := rfl
  obtain ⟨count, hlast⟩ := hspans.gives rfl hlinks setup hframes hcount.symm
  exact ⟨compilation, declaration, compiled, made, _, relayed, assigned, start, finish, count,
    setup, machine, _, _, hcompile, hcompiled, hstmt, hmentions, hspans, rfl, rfl, rfl, hcount,
    hholds, hlast, rfl, rfl, rfl, rfl⟩

end DocScript
