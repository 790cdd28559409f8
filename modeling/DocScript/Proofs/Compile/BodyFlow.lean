import DocScript.Proofs.Bytecode.Flow
import DocScript.Proofs.Compile.ExprLowering
import DocScript.Proofs.Compile.Leftovers

/-! # The flow of compiled bodies

An expression leaves exactly one value. A statement leaves none, unless it is a call or
a foreign call with a result that nothing takes. Control passes a statement from its
beginning to its end, and never gets to the end of one that returns on every path.
-/

namespace DocScript

open Command FunctionBuilder

/-! ### What shows in the text of a body -/

mutual

/-- Whether the statement returns on every path through its branches. -/
def Stmt.alwaysReturns : Stmt → Bool
  | .overfull _ _ body => body.alwaysReturns
  | .giveBack _ => true
  | .branch _ _ (.given whenTrue) (.given whenFalse) =>
      blockAlwaysReturns whenTrue && blockAlwaysReturns whenFalse
  | _ => false

/-- Whether one of the statements returns on every path. -/
def blockAlwaysReturns : List Stmt → Bool
  | [] => false
  | stmt :: rest => stmt.alwaysReturns || blockAlwaysReturns rest

end

namespace FlowScope

variable {scope : FlowScope} {start : Nat} {first second commands : List Command}

theorem flows_of_loaded {command : Command} {rest : List Command} {next : Point → Prop}
    {point : Point} (h : Loaded scope.code start (command :: rest)) (hoffset : point.offset = start)
    (hgoes : scope.Goes next point command) : scope.Flows next point :=
  ⟨command, hoffset ▸ h.decode, hgoes⟩

/-- A point at an offset with a number of values. -/
def At (offset height : Nat) (point : Point) : Prop :=
  point.offset = offset ∧ point.height = height

/-- No instruction in a range of offsets leaves anything to nobody. -/
def Keeps (scope : FlowScope) (start finish : Nat) : Prop :=
  ∀ offset, start ≤ offset → offset < finish → scope.left offset = 0

theorem Keeps.mono {finish low high : Nat} (h : scope.Keeps start finish) (hlow : start ≤ low)
    (hhigh : high ≤ finish) : scope.Keeps low high := fun offset hle hlt =>
  h offset (Nat.le_trans hlow hle) (Nat.lt_of_lt_of_le hlt hhigh)

/-- The code takes a number of values and comes to its end with a number of others instead, which
all count. -/
def Turns (scope : FlowScope) (start : Nat) (commands : List Command) (taken given : Nat) : Prop :=
  Loaded scope.code start commands → scope.Keeps start (start + size commands) →
    ∀ below point, At start (taken + below) point →
      scope.Leads (At (start + size commands) (given + below)) point

/-- The code ends with a call at an offset. It takes a number of values, and of the values that the
call gives those count that it does not leave to nobody. -/
def Hands (scope : FlowScope) (start : Nat) (commands : List Command) (offset taken given : Nat) :
    Prop :=
  Loaded scope.code start commands → ∀ kept, scope.left offset + kept = given →
    ∀ below point, At start (taken + below) point →
      scope.Leads (At (start + size commands) (kept + below)) point

namespace Turns

variable {taken between given : Nat}

theorem nil (taken : Nat) : scope.Turns start [] taken taken :=
  fun _ _ _ _ hpoint => .here hpoint

theorem append (hfirst : scope.Turns start first taken between)
    (hsecond : scope.Turns (start + size first) second between given) :
    scope.Turns start (first ++ second) taken given := by
  intro hcode hkeeps below point hpoint
  rw [size_append, ← Nat.add_assoc] at hkeeps ⊢
  have hleft := hkeeps.mono (Nat.le_refl _) (Nat.le_add_right _ _)
  have hright := hkeeps.mono (Nat.le_add_right start (size first)) (Nat.le_refl _)
  exact (hfirst hcode.left hleft below point hpoint).trans fun other hother =>
    hsecond hcode.right hright below other hother

/-- What lies below stays. -/
theorem above (h : scope.Turns start commands taken given) (kept : Nat) :
    scope.Turns start commands (taken + kept) (given + kept) := by
  intro hcode hkeeps below point hpoint
  rw [Nat.add_assoc] at hpoint ⊢
  exact h hcode hkeeps (kept + below) point hpoint

theorem plain {op : Opcode} {operand : Nat} (heffect : op.effect? operand = some (taken, given)) :
    scope.Turns start [⟨op, operand⟩] taken given := by
  intro hcode _ below point hpoint
  refine .step (flows_of_loaded hcode hpoint.1 (.plain heffect hpoint.2 (.here ⟨?_, ?_⟩)))
  · rw [size_cons, size_nil, Nat.add_zero, hpoint.1]
  · exact (Nat.zero_add _).trans (Nat.add_comm below given)

theorem load (slot start : Nat) : scope.Turns start [⟨.loadLocal, slot⟩] 0 1 := .plain rfl

theorem store (target : LocalSlot) (start : Nat) : scope.Turns start [target.store] 1 0 := by
  unfold LocalSlot.store LocalSlot.storeOp
  split <;> exact .plain rfl

theorem push {position : Nat} {value : Scalar} (hpool : Holds scope.pool position value) :
    scope.Turns start [⟨.pushConst, position⟩] 0 1 := by
  intro hcode _ below point hpoint
  refine .step (flows_of_loaded hcode hpoint.1 (.push hpool.1 (.here ⟨?_, ?_⟩)))
  · exact congrArg (· + 3) hpoint.1
  · have hheight : point.known.length + point.depth = 0 + below := hpoint.2
    change (value :: point.known).length + point.depth = 1 + below
    rw [List.length_cons]
    omega

end Turns

namespace Hands

variable {offset taken given count : Nat}

/-- A call that leaves nothing to nobody gives all that it gives. -/
theorem turns (h : scope.Hands start commands offset taken given) (hstart : start ≤ offset)
    (hfinish : offset < start + size commands) : scope.Turns start commands taken given :=
  fun hcode hkeeps => h hcode given (by rw [hkeeps offset hstart hfinish, Nat.zero_add])

/-- A call with the push of the name of its callee. -/
theorem call {position : Nat} {callee : String} {signature : Signature}
    (hpool : Holds scope.pool position (.string callee))
    (hsignature : scope.signatures.get? callee = some signature) :
    scope.Hands start [⟨.pushConst, position⟩, ⟨.call, count⟩] (start + 3) count
      signature.results := by
  intro hcode kept hkept below point hpoint
  have hsplit : Loaded scope.code start ([⟨.pushConst, position⟩] ++ [⟨.call, count⟩]) := hcode
  have hcall : Loaded scope.code (start + 3) [⟨.call, count⟩] := hsplit.right
  have hoffset : point.offset + 3 = start + 3 := congrArg (· + 3) hpoint.1
  refine .step (flows_of_loaded hcode hpoint.1 (.push hpool.1 ?_))
  refine .step (flows_of_loaded hcall hoffset ?_)
  refine .call rfl hsignature hpoint.2 (hoffset ▸ hkept) (.here ⟨?_, ?_⟩)
  · exact congrArg (· + 5) hpoint.1
  · exact (Nat.zero_add _).trans (Nat.add_comm below _)

/-- A foreign call with the pushes of its names. -/
theorem foreign {resultAt libAt symbolAt : Nat} {symbol lib result : String}
    (hresult : Holds scope.pool resultAt (.string result))
    (hlib : Holds scope.pool libAt (.string lib))
    (hsymbol : Holds scope.pool symbolAt (.string symbol)) :
    scope.Hands start [⟨.pushConst, resultAt⟩, ⟨.pushConst, libAt⟩, ⟨.pushConst, symbolAt⟩,
      ⟨.ffiCall, count⟩] (start + 9) (2 * count) (if result = "void" then 0 else 1) := by
  intro hcode kept hkept below point hpoint
  have hfirst : Loaded scope.code start ([⟨.pushConst, resultAt⟩] ++ [⟨.pushConst, libAt⟩,
    ⟨.pushConst, symbolAt⟩, ⟨.ffiCall, count⟩]) := hcode
  have hsecond : Loaded scope.code (start + 3) ([⟨.pushConst, libAt⟩] ++ [⟨.pushConst, symbolAt⟩,
    ⟨.ffiCall, count⟩]) := hfirst.right
  have hthird : Loaded scope.code (start + 6) ([⟨.pushConst, symbolAt⟩] ++ [⟨.ffiCall, count⟩]) :=
    hsecond.right
  have hcall : Loaded scope.code (start + 9) [⟨.ffiCall, count⟩] := hthird.right
  have hoffset : point.offset + 9 = start + 9 := congrArg (· + 9) hpoint.1
  refine .step (flows_of_loaded hfirst hpoint.1 (.push hresult.1 ?_))
  refine .step (flows_of_loaded hsecond (congrArg (· + 3) hpoint.1) (.push hlib.1 ?_))
  refine .step (flows_of_loaded hthird (congrArg (· + 6) hpoint.1) (.push hsymbol.1 ?_))
  refine .step (flows_of_loaded hcall hoffset ?_)
  refine .foreign rfl hpoint.2 (hoffset ▸ hkept) (.here ⟨?_, ?_⟩)
  · exact congrArg (· + 11) hpoint.1
  · exact (Nat.zero_add _).trans (Nat.add_comm below _)

end Hands

/-- A point between statements: a tidy function has nothing on the stack there that counts. -/
def Boundary (scope : FlowScope) (offset : Nat) (point : Point) : Prop :=
  point.offset = offset ∧ (scope.tidy = true → point.height = 0)

/-- What a tidy function leaves to nobody in a range of offsets is one value at each of the given
ones. -/
def Leaves (scope : FlowScope) (start finish : Nat) (offsets : List Nat) : Prop :=
  ∀ offset, start ≤ offset → offset < finish →
    scope.left offset = if scope.tidy then offsets.count offset else 0

namespace Leaves

variable {finish low high first length : Nat} {offsets before behind : List Nat}

theorem mono (h : scope.Leaves start finish offsets) (hlow : start ≤ low) (hhigh : high ≤ finish) :
    scope.Leaves low high offsets := fun offset hle hlt =>
  h offset (Nat.le_trans hlow hle) (Nat.lt_of_lt_of_le hlt hhigh)

theorem left (h : scope.Leaves start finish (offsets ++ behind)) (hhigh : high ≤ finish)
    (hbehind : OffsetsWithin low length behind) (hlow : high ≤ low) :
    scope.Leaves start high offsets := by
  intro offset hle hlt
  have hlast : behind.count offset = 0 := List.count_eq_zero.2 fun hmem =>
    Nat.not_lt_of_le (Nat.le_trans hlow (hbehind.bounds offset hmem).1) hlt
  rw [h offset hle (Nat.lt_of_lt_of_le hlt hhigh), List.count_append, hlast, Nat.add_zero]

theorem right (h : scope.Leaves start finish (before ++ offsets)) (hlow : start ≤ low)
    (hbefore : OffsetsWithin first length before) (hfirst : first + length ≤ low) :
    scope.Leaves low finish offsets := by
  intro offset hle hlt
  have hnone : before.count offset = 0 := List.count_eq_zero.2 fun hmem =>
    Nat.not_lt_of_le hle (Nat.lt_of_lt_of_le (hbefore.bounds offset hmem).2 hfirst)
  rw [h offset (Nat.le_trans hlow hle) hlt, List.count_append, hnone, Nat.zero_add]

/-- Nothing is left before the first of the offsets. -/
theorem keeps (h : scope.Leaves start finish offsets) (hhigh : high ≤ finish)
    (hoffsets : OffsetsWithin low length offsets) (hlow : high ≤ low) :
    scope.Keeps start high := by
  intro offset hle hlt
  have hnone : offsets.count offset = 0 := List.count_eq_zero.2 fun hmem =>
    Nat.not_lt_of_le (Nat.le_trans hlow (hoffsets.bounds offset hmem).1) hlt
  rw [h offset hle (Nat.lt_of_lt_of_le hlt hhigh), hnone, ite_self]

end Leaves

/-- A call stands at the offset. -/
def CallsAt (code : Array UInt8) (offset : Nat) : Prop :=
  ∃ op operand, Instruction.decode? code offset = some (.operation op operand) ∧
    (op = .call ∨ op = .ffiCall)

/-- Control passes the code from its beginning to its end, unless the code always returns. The calls
at the given offsets of the code leave what they give to nobody. -/
structure Passes (scope : FlowScope) (start : Nat) (commands : List Command) (leaves : List Nat)
    (returns : Bool) : Prop where
  within : OffsetsWithin start (size commands) leaves
  calls : Loaded scope.code start commands → ∀ offset ∈ leaves, CallsAt scope.code offset
  leads : Loaded scope.code start commands →
    scope.Leaves start (start + size commands) leaves → ∀ point, scope.Boundary start point →
      scope.Leads (fun last => returns = false ∧ scope.Boundary (start + size commands) last) point

namespace Passes

variable {test : List Command} {leaves others : List Nat} {firstReturns secondReturns : Bool}
  {middle target : Nat}

theorem nil : scope.Passes start [] [] false where
  within := .nil _ _
  calls _ := List.forall_mem_nil _
  leads _ _ _ hpoint := .here ⟨rfl, hpoint⟩

theorem of_turns (h : scope.Turns start commands 0 0) : scope.Passes start commands [] false where
  within := .nil _ _
  calls _ := List.forall_mem_nil _
  leads hcode hleaves point hpoint := by
    have hbegin : At start (0 + point.height) point := ⟨hpoint.1, (Nat.zero_add _).symm⟩
    have hkeeps := hleaves.keeps (Nat.le_refl _) (.nil _ 0) (Nat.le_refl _)
    refine (h hcode hkeeps point.height point hbegin).mono fun last hlast => ⟨rfl, ?_⟩
    rw [Nat.zero_add] at hlast
    exact ⟨hlast.1, fun htidy => hlast.2.trans (hpoint.2 htidy)⟩

/-- Nothing takes what a call at the end gives. -/
theorem of_hands {offset taken : Nat} {given : Bool} (hoperands : scope.Turns start first 0 taken)
    (hcall : scope.Hands (start + size first) second offset taken given.toNat)
    (hcalls : Loaded scope.code (start + size first) second → CallsAt scope.code offset)
    (hlow : start + size first ≤ offset) (hhigh : offset < start + size (first ++ second)) :
    scope.Passes start (first ++ second) (List.replicate given.toNat offset) false where
  within := .replicate given (Nat.le_trans (Nat.le_add_right _ _) hlow) hhigh
  calls hcode other hmem := List.eq_of_mem_replicate hmem ▸ hcalls hcode.right
  leads hcode hleaves point hpoint := by
    have hbegin : At start (0 + point.height) point := ⟨hpoint.1, (Nat.zero_add _).symm⟩
    have hlast : OffsetsWithin offset 1 (List.replicate given.toNat offset) :=
      .replicate given (Nat.le_refl _) (Nat.lt_succ_self _)
    have hkeeps := hleaves.keeps (Nat.le_of_lt (Nat.lt_of_le_of_lt hlow hhigh)) hlast hlow
    have hgives := hleaves offset (Nat.le_trans (Nat.le_add_right _ _) hlow) hhigh
    rw [List.count_replicate_self] at hgives
    refine (hoperands hcode.left hkeeps point.height point hbegin).trans fun last hlast => ?_
    rw [size_append, ← Nat.add_assoc]
    cases htidy : scope.tidy with
    | true =>
        rw [htidy, if_pos rfl] at hgives
        refine (hcall hcode.right 0 hgives point.height last hlast).mono fun other hother => ?_
        exact ⟨rfl, hother.1, fun _ => hother.2.trans ((Nat.zero_add _).trans (hpoint.2 htidy))⟩
    | false =>
        rw [htidy, if_neg Bool.false_ne_true] at hgives
        refine (hcall hcode.right given.toNat (by rw [hgives, Nat.zero_add]) point.height last
          hlast).mono fun other hother => ⟨rfl, hother.1, fun h => ?_⟩
        cases htidy.symm.trans h

theorem append (hfirst : scope.Passes start first leaves firstReturns)
    (hsecond : scope.Passes (start + size first) second others secondReturns) :
    scope.Passes start (first ++ second) (leaves ++ others) (firstReturns || secondReturns) where
  within := size_append first second ▸ hfirst.within.append hsecond.within
  calls hcode offset hmem := (List.mem_append.1 hmem).elim (hfirst.calls hcode.left offset)
    (hsecond.calls hcode.right offset)
  leads hcode hleaves point hpoint := by
    rw [size_append, ← Nat.add_assoc] at hleaves ⊢
    have hleft := hleaves.left (Nat.le_add_right _ _) hsecond.within (Nat.le_refl _)
    have hright := hleaves.right (Nat.le_add_right _ _) hfirst.within (Nat.le_refl _)
    refine (hfirst.leads hcode.left hleft point hpoint).trans fun middle hmiddle => ?_
    refine (hsecond.leads hcode.right hright middle hmiddle.2).mono fun last hlast => ?_
    rw [hmiddle.1]
    exact hlast

theorem giveBack (h : scope.Turns start commands 0 1) (hvalued : scope.valued = true) :
    scope.Passes start (commands ++ [⟨.ret, 0⟩]) [] true where
  within := .nil _ _
  calls _ := List.forall_mem_nil _
  leads hcode hleaves point hpoint := by
    have hbegin : At start (0 + point.height) point := ⟨hpoint.1, (Nat.zero_add _).symm⟩
    rw [size_append, ← Nat.add_assoc] at hleaves
    have hkeeps := hleaves.keeps (Nat.le_add_right _ _) (.nil _ 0) (Nat.le_refl _)
    refine (h hcode.left hkeeps point.height point hbegin).trans fun last hlast => ?_
    refine .step (flows_of_loaded hcode.right hlast.1 (.giveBack hvalued ?_ fun htidy => ?_))
    · rw [hlast.2]
      exact Nat.le_add_right 1 _
    · rw [hlast.2, hpoint.2 htidy]

theorem giveBackNothing (hvalued : scope.valued = false) :
    scope.Passes start [⟨.halt, 0⟩] [] true where
  within := .nil _ _
  calls _ := List.forall_mem_nil _
  leads hcode _ _ hpoint := .step (flows_of_loaded hcode hpoint.1 (.halt hvalued hpoint.2))

/-- A test takes control to one of two points between statements. -/
theorem choose {exits : Point → Prop} {rest : List Command}
    (htest : scope.Turns start test 0 1) (hkeeps : scope.Keeps start (start + size test))
    (hcode : Loaded scope.code start (test ++ ⟨.jmpIfFalse, target⟩ :: rest)) {point : Point}
    (hpoint : scope.Boundary start point)
    (hholds : ∀ last, scope.Boundary (start + size test + 3) last → scope.Leads exits last)
    (hfails : ∀ last, scope.Boundary target last → scope.Leads exits last) :
    scope.Flows (scope.Leads exits) point := by
  have hbegin : At start (0 + point.height) point := ⟨hpoint.1, (Nat.zero_add _).symm⟩
  refine (htest hcode.left hkeeps point.height point hbegin).progress fun last hlast => ?_
  refine flows_of_loaded hcode.right hlast.1 (.branch (hlast.2.trans (Nat.add_comm _ _)) ?_ ?_)
  · refine hholds _ ⟨congrArg (· + 3) hlast.1, fun htidy => ?_⟩
    exact (Nat.zero_add _).trans (hpoint.2 htidy)
  · exact hfails _ ⟨rfl, fun htidy => (Nat.zero_add _).trans (hpoint.2 htidy)⟩

theorem branch (htest : scope.Turns start test 0 1)
    (hfirst : scope.Passes (start + size test + 3) first leaves firstReturns)
    (htarget : target = start + size test + 3 + size first) :
    scope.Passes start (test ++ ⟨.jmpIfFalse, target⟩ :: first) leaves false := by
  have hend : start + size (test ++ ⟨.jmpIfFalse, target⟩ :: first) = target := by
    rw [htarget, size_append, size_cons]
    simp only [Opcode.width, Opcode.operand]
    omega
  have hinner (hcode : Loaded scope.code start (test ++ ⟨.jmpIfFalse, target⟩ :: first)) :
      Loaded scope.code (start + size test + 3) first := hcode.right.tail
  refine ⟨hfirst.within.widen (by omega) (by omega), fun hcode => hfirst.calls (hinner hcode), ?_⟩
  intro hcode hleaves point hpoint
  rw [hend] at hleaves ⊢
  have hkeeps := hleaves.keeps (by omega) hfirst.within (Nat.le_add_right (start + size test) 3)
  have hbody : scope.Leaves (start + size test + 3) target leaves :=
    hleaves.mono (by omega) (Nat.le_refl _)
  refine .step (choose htest hkeeps hcode hpoint (fun last hlast => ?_) fun last hlast => ?_)
  · refine (hfirst.leads (hinner hcode) (htarget ▸ hbody) last hlast).mono fun other hother =>
      ⟨rfl, ?_⟩
    exact htarget ▸ hother.2
  · exact .here ⟨rfl, hlast⟩

theorem branchElse (htest : scope.Turns start test 0 1)
    (hfirst : scope.Passes (start + size test + 3) first leaves firstReturns)
    (hmiddle : middle = start + size test + 3 + size first + 3)
    (hsecond : scope.Passes middle second others secondReturns)
    (htarget : target = middle + size second) :
    scope.Passes start (test ++ ⟨.jmpIfFalse, middle⟩ :: (first ++ ⟨.jmp, target⟩ :: second))
      (leaves ++ others) (firstReturns && secondReturns) := by
  let commands := test ++ ⟨.jmpIfFalse, middle⟩ :: (first ++ ⟨.jmp, target⟩ :: second)
  have hend : start + size commands = target := by
    rw [htarget, hmiddle, size_append, size_cons, size_append, size_cons]
    simp only [Opcode.width, Opcode.operand]
    omega
  have hinner (hcode : Loaded scope.code start commands) :
      Loaded scope.code (start + size test + 3) (first ++ ⟨.jmp, target⟩ :: second) :=
    hcode.right.tail
  have hlast (hcode : Loaded scope.code start commands) : Loaded scope.code middle second :=
    hmiddle ▸ (hinner hcode).right.tail
  have hbodies := hfirst.within.append (hsecond.within.widen
    (hmiddle ▸ Nat.le_add_right _ 3) (show _ ≤ _ + (3 + size second) by omega))
  refine ⟨hbodies.widen (by omega) (by rw [hend]; omega), fun hcode offset hmem => ?_, ?_⟩
  · exact (List.mem_append.1 hmem).elim (hfirst.calls (hinner hcode).left offset)
      (hsecond.calls (hlast hcode) offset)
  · intro hcode hleaves point hpoint
    rw [hend] at hleaves ⊢
    have hkeeps := hleaves.keeps (by omega) hbodies (Nat.le_add_right (start + size test) 3)
    have htrue := (hleaves.left (by omega) hsecond.within (hmiddle ▸ Nat.le_add_right _ 3)).mono
      (show start ≤ start + size test + 3 by omega) (Nat.le_refl _)
    have hfalse : scope.Leaves middle target others :=
      hleaves.right (by omega) hfirst.within (by omega)
    -- Its end is reached as soon as one of the two bodies reaches its own.
    refine .step (choose htest hkeeps hcode hpoint (fun last hpoint => ?_) fun last hpoint => ?_)
    · refine (hfirst.leads (hinner hcode).left htrue last hpoint).trans fun other hother => ?_
      refine .step (flows_of_loaded (hinner hcode).right hother.2.1
        (.jump (.here ⟨?_, rfl, fun htidy => ?_⟩)))
      · rw [hother.1, Bool.false_and]
      · exact (Nat.zero_add _).trans (hother.2.2 htidy)
    · refine (hsecond.leads (hlast hcode) (htarget ▸ hfalse) last hpoint).mono fun other hother =>
        ⟨?_, ?_⟩
      · rw [hother.1, Bool.and_false]
      · exact htarget ▸ hother.2

theorem loop (htest : scope.Turns start test 0 1)
    (hbody : scope.Passes (start + size test + 3) commands leaves firstReturns)
    (htarget : target = start + size test + 3 + size commands + 3) :
    scope.Passes start (test ++ ⟨.jmpIfFalse, target⟩ :: (commands ++ [⟨.jmp, start⟩])) leaves
      false := by
  let all := test ++ ⟨.jmpIfFalse, target⟩ :: (commands ++ [⟨.jmp, start⟩])
  have hend : start + size all = target := by
    rw [htarget, size_append, size_cons, size_append, size_cons, size_nil]
    simp only [Opcode.width, Opcode.operand]
    omega
  have hinner (hcode : Loaded scope.code start all) :
      Loaded scope.code (start + size test + 3) (commands ++ [⟨.jmp, start⟩]) := hcode.right.tail
  refine ⟨hbody.within.widen (by omega) (by rw [hend]; omega),
    fun hcode => hbody.calls (hinner hcode).left, ?_⟩
  intro hcode hleaves point hpoint
  rw [hend] at hleaves ⊢
  have hkeeps := hleaves.keeps (by omega) hbody.within (Nat.le_add_right (start + size test) 3)
  have hround : scope.Leaves (start + size test + 3) (start + size test + 3 + size commands)
      leaves := hleaves.mono (by omega) (by omega)
  -- Each round begins with the test, which takes a step.
  refine Leads.round (fun other hother => ?_) hpoint
  refine choose htest hkeeps hcode hother (fun last hlast => ?_) fun last hlast => ?_
  · refine (hbody.leads (hinner hcode).left hround last hlast).trans fun again hagain => ?_
    refine .step (flows_of_loaded (hinner hcode).right hagain.2.1
      (.jump (.here (.inr ⟨rfl, fun htidy => ?_⟩))))
    exact (Nat.zero_add _).trans (hagain.2.2 htidy)
  · exact .here (.inl ⟨rfl, hlast⟩)

end Passes

end FlowScope

/-! ### Expressions -/

theorem Operator.effect_opcode (operator : Operator) (count : Nat) :
    operator.opcode.effect? count = some (count, 1) := by
  cases operator with
  | arithmetic op => cases op <;> rfl
  | _ => rfl

open FlowScope

variable {scope : FlowScope} {body : BodyScope} {assigned : List String}

theorem call_turns (hsignatures : scope.signatures = body.signatures) {asValue : Bool}
    {target : CallTarget} {place : ArgumentPlace} {names : List String} {callee : String}
    {signature : Signature} {position : Nat}
    (hcall : body.Calls asValue target place names callee signature)
    (hpool : Holds scope.pool position (.string callee)) (start : Nat) :
    scope.Turns start [⟨.pushConst, position⟩, ⟨.call, signature.params.length⟩]
      signature.params.length signature.results :=
  Hands.turns (.call hpool (hsignatures ▸ hcall.known)) (Nat.le_add_right _ _)
    (Nat.add_lt_add_left (by decide : 3 < 5) start)

theorem BodyScope.Calls.results {target : CallTarget} {place : ArgumentPlace}
    {names : List String} {callee : String} {signature : Signature}
    (hcall : body.Calls true target place names callee signature) : signature.results = 1 := by
  rw [Signature.results, hcall.valued rfl]
  rfl

mutual

/-- An expression leaves its value. -/
theorem ExprCode.turns (hsignatures : scope.signatures = body.signatures) {expr : Expr}
    {commands : List Command} (h : ExprCode body scope.pool assigned expr commands) (start : Nat) :
    scope.Turns start commands 0 1 := by
  match h with
  | .int hvalue | .float hvalue | .bool hvalue | .null hvalue | .string hvalue => exact .push hvalue
  | .reference _ | .named _ => exact .plain rfl
  | .overfull hexpr => exact ExprCode.turns hsignatures hexpr start
  | .array _ _ hitems => exact (ItemsCode.turns hsignatures hitems start).append (.plain rfl)
  | .not hoperand | .negate _ hoperand | .length _ hoperand =>
      exact (ExprCode.turns hsignatures hoperand start).append (.plain rfl)
  | .operator _ _ hoperands =>
      exact (ItemsCode.turns hsignatures hoperands start).append
        (.plain (Operator.effect_opcode _ _))
  | .get _ hindex =>
      exact (Turns.load _ start).append
        (((ExprCode.turns hsignatures hindex _).above 1).append (.plain rfl))
  | .call hcall harguments hname =>
      have hcode := (ArgumentsCode.turns hsignatures harguments start).append
        (call_turns hsignatures hcall hname _)
      rwa [hcall.results] at hcode

theorem ItemsCode.turns (hsignatures : scope.signatures = body.signatures)
    {operator : Option Operator} {items : List Expr} {commands : List Command}
    (h : ItemsCode body scope.pool assigned operator items commands) (start : Nat) :
    scope.Turns start commands 0 items.length := by
  match h with
  | .nil => exact .nil 0
  | .cons _ hitem hrest =>
      exact (ExprCode.turns hsignatures hitem start).append
        ((ItemsCode.turns hsignatures hrest _).above 1)

theorem ArgumentCode.turns (hsignatures : scope.signatures = body.signatures) {param : Parameter}
    {arguments : List (String × Expr)} {commands : List Command}
    (h : ArgumentCode body scope.pool assigned param arguments commands) (start : Nat) :
    scope.Turns start commands 0 1 := by
  match h with
  | .given _ _ hargument => exact ExprCode.turns hsignatures hargument start
  | .later _ hrest => exact ArgumentCode.turns hsignatures hrest start
  | .omitted _ hvalue => exact .push hvalue

theorem ArgumentsCode.turns (hsignatures : scope.signatures = body.signatures)
    {arguments : List (String × Expr)} {params : List Parameter} {commands : List Command}
    (h : ArgumentsCode body scope.pool assigned arguments params commands) (start : Nat) :
    scope.Turns start commands 0 params.length := by
  match h with
  | .nil => exact .nil 0
  | .cons hparam hrest =>
      exact (ArgumentCode.turns hsignatures hparam start).append
        ((ArgumentsCode.turns hsignatures hrest _).above 1)

end

/-! ### Statements -/

theorem ForeignCode.turns (hsignatures : scope.signatures = body.signatures)
    {operands : List ForeignOperand} {commands : List Command}
    (h : ForeignCode body scope.pool assigned operands commands) (start : Nat) :
    scope.Turns start commands 0 (2 * operands.length) := by
  induction h generalizing start with
  | nil => exact .nil 0
  | cons htag hvalue _ ih =>
      exact (Turns.push htag).append
        (((hvalue.turns hsignatures _).above 1).append ((ih _).above 2))

/-- A foreign call leaves its result unless it has none by its type. -/
theorem ForeignCallCode.turns (hsignatures : scope.signatures = body.signatures)
    {lib symbol returns : Field String} {operands : Field (List ForeignOperand)}
    {result : String} {commands : List Command}
    (h : ForeignCallCode body scope.pool assigned lib symbol returns operands result commands)
    (start : Nat) : scope.Turns start commands 0 (if result = "void" then 0 else 1) := by
  obtain ⟨_, _, _, hoperands, hresult, hlib, hsymbol⟩ := h
  exact (hoperands.turns hsignatures start).append (Hands.turns (.foreign hresult hlib hsymbol)
    (Nat.le_add_right _ _) (Nat.add_lt_add_left (by decide : 9 < 11) _))

theorem OffsetCode.turns (hsignatures : scope.signatures = body.signatures)
    {offset : Option Expr} {commands : List Command}
    (h : OffsetCode body scope.pool assigned offset commands) (start : Nat) :
    scope.Turns start commands 0 1 := by
  cases h with
  | given hoffset => exact hoffset.turns hsignatures start
  | absent hzero => exact .push hzero

/-- The scope in which the code of a body flows. -/
structure BodyScope.Flows (body : BodyScope) (scope : FlowScope) : Prop where
  signatures : scope.signatures = body.signatures
  valued : scope.valued = body.names.returns.isSome

variable {start : Nat} {stmt : Stmt} {stmts : List Stmt} {commands : List Command}

/-- A call as a statement leaves its result. -/
theorem BodyScope.Calls.passes (hsignatures : scope.signatures = body.signatures)
    {target : CallTarget} {place : ArgumentPlace} {arguments : List (String × Expr)}
    {callee : String} {signature : Signature} {position : Nat}
    (hcall : body.Calls false target place (arguments.map Prod.fst) callee signature)
    (harguments : ArgumentsCode body scope.pool assigned arguments signature.params commands)
    (hpool : Holds scope.pool position (.string callee)) :
    scope.Passes start (commands ++ [⟨.pushConst, position⟩, ⟨.call, signature.params.length⟩])
      ((Stmt.call target place (some arguments)).leftAt body.signatures body.names.space start)
      false := by
  have hresults : signature.results =
      (target.givesValue body.signatures body.names.space).toNat := by
    rw [Signature.results, CallTarget.givesValue, hcall.signature?, Option.any_some]
    cases signature.isVoid <;> rfl
  have hoffset : start + size commands + 3 = start +
      target.callOffset body.signatures body.names.space
        (argumentSizes body.signatures body.names.space arguments) := by
    rw [hcall.callOffset_eq, ← harguments.size_eq, Nat.add_assoc]
    rfl
  rw [Stmt.leftAt, ← hoffset]
  refine .of_hands (harguments.turns hsignatures start)
    (hresults ▸ .call hpool (hsignatures ▸ hcall.known)) (fun hcode => ?_) (Nat.le_add_right _ _) ?_
  · exact ⟨.call, _, hcode.tail.decode, .inl rfl⟩
  · rw [size_append, ← Nat.add_assoc]
    exact Nat.add_lt_add_left (by decide : 3 < 5) _

/-- A foreign call without a local for its result leaves it. -/
theorem ForeignCallCode.passes (hsignatures : scope.signatures = body.signatures)
    {lib symbol returns : Field String} {operands : Field (List ForeignOperand)} {result : String}
    (h : ForeignCallCode body scope.pool assigned lib symbol returns operands result commands)
    (stray : List String) :
    scope.Passes start commands ((Stmt.foreign stray lib symbol returns operands .absent).leftAt
      body.signatures body.names.space start) false := by
  have hsize := h.size_eq
  cases h with
  | @call _ _ _ _ _ _ front _ _ _ hreturns _ _ hoperands hresult hlib hsymbol =>
      have hgiven : (if result = "void" then 0 else 1) = (givesForeign returns).toNat := by
        rcases hreturns with rfl | ⟨rfl, rfl⟩
        · by_cases hvoid : result = LoweringScope.voidResult
          · subst hvoid
            rfl
          · rw [if_neg (by exact hvoid), givesForeign, bne_iff_ne.2 hvoid]
            rfl
        · rfl
      have hoffset : start + size front + 9 =
          start + foreignOffset body.signatures body.names.space operands := by
        rw [size_append] at hsize
        have hall : size front + 11 = foreignOffset _ _ operands + 2 := hsize
        omega
      rw [Stmt.leftAt, ← hoffset]
      refine .of_hands (hoperands.turns hsignatures start)
        (hgiven ▸ .foreign hresult hlib hsymbol) (fun hcode => ?_) (Nat.le_add_right _ _) ?_
      · exact ⟨.ffiCall, _, hcode.tail.tail.tail.decode, .inr rfl⟩
      · rw [size_append, ← Nat.add_assoc]
        exact Nat.add_lt_add_left (by decide : 9 < 11) _

mutual

/-- Control passes a statement unless it always returns. -/
theorem StmtCode.passes (hflows : body.Flows scope) {assigned after : List String}
    {start : Nat} {stmt : Stmt} {commands : List Command}
    (h : StmtCode body scope.pool assigned start stmt commands after) :
    scope.Passes start commands (stmt.leftAt body.signatures body.names.space start)
      stmt.alwaysReturns := by
  have hsignatures := hflows.signatures
  match h with
  | .overfull hstmt =>
      rw [Stmt.leftAt, Stmt.alwaysReturns]
      exact StmtCode.passes hflows hstmt
  | .assign _ _ _ _ hvalue =>
      exact .of_turns ((hvalue.turns hsignatures start).append (.store _ _))
  | .assignNull _ _ _ hnull =>
      exact .of_turns ((Turns.push hnull).append (.store _ _))
  | .print hvalue =>
      exact .of_turns ((hvalue.turns hsignatures start).append (.plain rfl))
  -- Nothing takes the result of such a call.
  | .call hcall harguments hname => exact hcall.passes hsignatures harguments hname
  | .branch hcondition htrue htarget _ =>
      rw [Stmt.leftAt, ← hcondition.size_eq]
      exact .branch (hcondition.turns hsignatures start) (BlockCode.passes hflows htrue) htarget
  | .branchElse hcondition htrue hmiddle hfalse htarget _ =>
      have hfalse := BlockCode.passes hflows hfalse
      rw [Stmt.leftAt, ← hcondition.size_eq, ← htrue.size_eq]
      subst hmiddle
      exact .branchElse (hcondition.turns hsignatures start) (BlockCode.passes hflows htrue) rfl
        hfalse htarget
  | .loop hcondition hbody htarget _ =>
      rw [Stmt.leftAt, ← hcondition.size_eq]
      exact .loop (hcondition.turns hsignatures start) (BlockCode.passes hflows hbody) htarget
  | .setElement _ _ hindex hvalue =>
      exact .of_turns ((Turns.load _ start).append (((hindex.turns hsignatures _).above 1).append
        (((hvalue.turns hsignatures _).above 2).append (.plain rfl))))
  | .pushElement _ _ hvalue =>
      exact .of_turns ((Turns.load _ start).append
        (((hvalue.turns hsignatures _).above 1).append (.plain rfl)))
  | .giveBack hreturns _ _ hvalue =>
      refine .giveBack (hvalue.turns hsignatures start) ?_
      rw [hflows.valued, hreturns]
      rfl
  | .giveBackNothing hreturns =>
      refine .giveBackNothing ?_
      rw [hflows.valued, hreturns]
      rfl
  | .subscribe _ hevent hcallee =>
      exact .of_turns ((Turns.push hevent).append
        (((Turns.push hcallee).above 1).append (.plain rfl)))
  | .foreign hcall => exact hcall.passes hsignatures []
  | .foreignInto hcall hresult _ =>
      have hcode := hcall.turns hsignatures start
      rw [if_neg (show _ ≠ "void" from hresult)] at hcode
      exact .of_turns (hcode.append (.store _ _))
  | .allocate _ _ hsize =>
      exact .of_turns ((hsize.turns hsignatures start).append
        ((Turns.plain rfl).append (.store _ _)))
  | .writeMemory _ hpointer hoffset hvalue hwidth =>
      exact .of_turns ((hpointer.turns hsignatures start).append
        (((hoffset.turns hsignatures _).above 1).append
          (((hvalue.turns hsignatures _).above 2).append
            (((Turns.push hwidth).above 3).append (.plain rfl)))))
  | .readMemory _ _ hpointer hoffset hwidth =>
      exact .of_turns ((hpointer.turns hsignatures start).append
        (((hoffset.turns hsignatures _).above 1).append
          (((Turns.push hwidth).above 2).append
            ((Turns.plain rfl).append (.store _ _)))))
  | .release hpointer =>
      exact .of_turns ((hpointer.turns hsignatures start).append (.plain rfl))

/-- Control passes a block unless one of its statements always returns. -/
theorem BlockCode.passes (hflows : body.Flows scope) {assigned after : List String}
    {start : Nat} {stmts : List Stmt} {commands : List Command}
    (h : BlockCode body scope.pool assigned start stmts commands after) :
    scope.Passes start commands (blockLeftAt body.signatures body.names.space start stmts)
      (blockAlwaysReturns stmts) := by
  match h with
  | .nil => exact .nil
  | .cons hstmt hrest =>
      rw [blockLeftAt, ← hstmt.size_eq]
      exact (StmtCode.passes hflows hstmt).append (BlockCode.passes hflows hrest)

end

end DocScript
