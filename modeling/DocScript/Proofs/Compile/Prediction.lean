import Mathlib.Data.List.Forall2
import DocScript.Proofs.Compile.Code
import DocScript.Proofs.Source.Allocation

/-! # What static types predict

The static type of an expression without calls predicts the kind of its value, if the locals hold
what their types say. There is one way out: an arithmetic operator gives back a single operand as it
is, without looking at it, while its static type is that of a number or of a sum.
-/

namespace DocScript

/-! ### Kinds -/

def ValueKind.isNumber : ValueKind → Bool
  | .int | .float => true
  | _ => false

theorem ValueKind.fits_of_isNumber {a b : ValueKind} (ha : a.isNumber = true)
    (hb : b.isNumber = true) : a.fits b = true := by
  cases a <;> cases b <;> simp_all [isNumber, fits]

theorem ValueKind.isNumber_of_fits {a b : ValueKind} (ha : a.isNumber = true)
    (h : a.fits b = true) : b.isNumber = true := by
  cases a <;> cases b <;> simp_all [isNumber, fits]

theorem ValueKind.fits_string_iff {a : ValueKind} : a.fits .string = true ↔ a = .string := by
  cases a <;> simp [ValueKind.fits]

theorem ValueKind.string_fits_iff {b : ValueKind} :
    ValueKind.string.fits b = true ↔ b = .string := by
  cases b <;> simp [ValueKind.fits]

namespace StaticType

theorem kind_eq_string {type : StaticType} (h : type.kind = .string) : type = .string := by
  cases type <;> first | rfl | cases h

theorem isNumber_kind (type : StaticType) : type.kind.isNumber = type.isNumeric := by
  cases type <;> rfl

theorem kind_of_ofKind? {kind : ValueKind} {type : StaticType} (h : ofKind? kind = some type) :
    type.kind = kind := by
  cases kind <;> cases h <;> rfl

end StaticType

/-! ### Operations -/

namespace Arithmetic

/-- A sum with a string among its operands joins their texts. -/
def Joins (op : Arithmetic) (operands : List Value) : Prop :=
  op = .add ∧ ∃ operand ∈ operands, operand.kind = .string

/-- The kind of what comes of several operands. -/
structure Makes (op : Arithmetic) (operands : List Value) (value : Value) : Prop where
  string : op.Joins operands → value.kind = .string
  number : ¬ op.Joins operands → value.kind.isNumber = true

theorem joins_append {op : Arithmetic} {operands others : List Value} :
    op.Joins (operands ++ others) ↔ op.Joins operands ∨ op.Joins others := by
  simp [Joins, or_and_right, exists_or, and_or_left]

theorem joins_singleton {op : Arithmetic} {operand : Value} :
    op.Joins [operand] ↔ op = .add ∧ operand.kind = .string := by
  simp [Joins]

theorem Makes.joins_iff {op : Arithmetic} {operands : List Value} {value : Value}
    (h : op.Makes operands value) : op.Joins [value] ↔ op.Joins operands := by
  rw [joins_singleton]
  constructor
  · rintro ⟨-, hstring⟩
    by_contra hop
    have hnumber := h.number hop
    rw [hstring] at hnumber
    cases hnumber
  · exact fun hop => ⟨hop.1, h.string hop⟩

theorem isNumber_onInts {op : Arithmetic} {a b : Int64} {value : Value}
    (h : op.onInts a b = .ok value) : value.kind.isNumber = true := by
  cases op with
  | modulo =>
      rw [onInts] at h
      split at h
      next => cases h
      next =>
        cases h
        rfl
  | _ =>
      cases h
      rfl

theorem makes_apply {op : Arithmetic} {heap : Heap} {left right value : Value}
    (h : op.apply heap left right = .ok value) : op.Makes [left, right] value := by
  have hjoins : op.Joins [left, right] ↔
      op = .add ∧ (left.kind = .string ∨ right.kind = .string) := by
    simp [Joins]
  unfold apply at h
  split at h
  next hop =>
    split at h
    next =>
      cases h
      exact ⟨fun _ => rfl, fun hnot => absurd (hjoins.2 hop) hnot⟩
    next => cases h
  next hop =>
    refine ⟨fun h => absurd (hjoins.1 h) hop, fun _ => ?_⟩
    split at h
    next => exact isNumber_onInts h
    next =>
      split at h
      next =>
        cases h
        rfl
      next => cases h

/-- Several operands make a value of one kind. -/
theorem makes_fold {op : Arithmetic} {heap : Heap} {first second value : Value}
    {rest : List Value} (h : op.fold heap first (second :: rest) = .ok value) :
    op.Makes (first :: second :: rest) value := by
  induction rest generalizing first second with
  | nil =>
      rw [fold] at h
      split at h
      next => cases h
      next found happly =>
        cases h
        exact makes_apply happly
  | cons third rest ih =>
      rw [fold] at h
      split at h
      next => cases h
      next found happly =>
        have hrest : op.Makes (found :: third :: rest) value := ih h
        -- What came of the first two stands for both.
        have hjoins : op.Joins (found :: third :: rest) ↔
            op.Joins (first :: second :: third :: rest) := by
          change op.Joins ([found] ++ third :: rest) ↔ op.Joins ([first, second] ++ third :: rest)
          rw [joins_append, joins_append, (makes_apply happly).joins_iff]
        exact ⟨fun hop => hrest.string (hjoins.2 hop),
          fun hop => hrest.number fun hlater => hop (hjoins.1 hlater)⟩

theorem isNumeric_resultType {op : Arithmetic} {operands : List (Option StaticType)}
    (h : ¬ (op = .add ∧ operands.any (· == some .string) = true)) :
    (op.resultType operands).isNumeric = true := by
  rw [resultType, if_neg h]
  split <;> rfl

end Arithmetic

theorem ok_of_mapError {change : ε → ε'} {result : Except ε α} {value : α}
    (h : result.mapError change = .ok value) : result = .ok value := by
  cases result with
  | ok found =>
      cases h
      rfl
  | error => cases h

/-- Operators that are not arithmetic give truth values. -/
theorem Operator.kind_apply {operator : Operator} {heap : Heap} {operands : List Value}
    {value : Value} (hlogical : operator.isArithmetic = false)
    (h : operator.apply heap operands = .ok value) : value.kind = .bool := by
  obtain ⟨truth, rfl⟩ := exists_truth_of_apply hlogical h
  rfl

theorem Value.kind_of_inverted {value result : Value} (h : value.inverted = .ok result) :
    result.kind = .bool := by
  unfold Value.inverted at h
  split at h
  next =>
    cases h
    rfl
  next => cases h

theorem Value.isNumber_of_negated {value result : Value} (h : value.negated = .ok result) :
    result.kind.isNumber = true := by
  unfold Value.negated at h
  split at h
  any_goals
    cases h
    rfl
  cases h

namespace Heap

variable {heap after : Heap} {type : StaticType} {value array index item : Value}
  {element : ValueKind}

theorem kind_of_measure (h : heap.measure value = .ok item) : item.kind = .int := by
  unfold measure at h
  split at h
  any_goals
    cases h
    rfl
  cases h

/-! ### What locals hold -/

/-- The value goes with the type: it is of the kind of the type, and if it is an array, then that is
there, and its items go with the kind of the elements. -/
structure Suits (heap : Heap) (type : StaticType) (value : Value) : Prop where
  kind : type.kind.fits value.kind = true
  items : ∀ handle element, value = .array handle → type.element? = some element →
    handle < heap.objects.size ∧
      ∀ item ∈ (heap.object handle).items, element.fits item.kind = true

namespace Suits

theorem grows (h : heap.Suits type value) (hgrows : heap.Grows after) : after.Suits type value where
  kind := h.kind
  items handle element hvalue helement := by
    obtain ⟨hthere, hitems⟩ := h.items handle element hvalue helement
    refine ⟨Nat.lt_of_lt_of_le hthere hgrows.size, ?_⟩
    rw [hgrows.object handle hthere]
    exact hitems

theorem fits_element (h : heap.Suits type array) (helement : type.element? = some element)
    (hitem : heap.element array index = .ok item) : element.fits item.kind = true := by
  unfold Heap.element at hitem
  split at hitem
  next handle position =>
    simp only at hitem
    split at hitem
    next found hfound =>
      cases hitem
      obtain ⟨place, -, hplace⟩ := Option.bind_eq_some_iff.1 hfound
      exact (h.items handle element rfl helement).2 _ (Array.mem_of_getElem? hplace)
    next => cases hitem
  next => cases hitem

end Suits

end Heap

/-- A type that can be declared: the elements of an array are of a type, too. -/
def StaticType.Written (type : StaticType) : Prop :=
  type.isArray = true → ∃ element found, type.element? = some element ∧ ofKind? element = some found

/-! ### Expressions -/

/-- Whether the expression is a null. -/
def Expr.isNull : Expr → Bool
  | .null => true
  | .overfull _ _ expr => expr.isNull
  | _ => false

variable {body : BodyScope} {pool : List Constant} {assigned : List String} {store : Store}
  {heap after : Heap} {expr operand : Expr} {items operands : List Expr} {value : Value}
  {values : List Value} {op : Arithmetic} {type : StaticType}

/-- The operand is not null, and if its type is known, then the operation alone has such a one. -/
def BodyScope.fitsAlone (body : BodyScope) (op : Arithmetic) (operand : Expr) : Bool :=
  !operand.isNull &&
    (body.typeOf operand).all fun type => type.isNumeric || op = .add && type = .string

mutual

/-- Whether the static type tells the kind of the value: where an arithmetic operator of the
expression, or of its operands in turn, has a single operand, that fits. -/
def Expr.isPredictable (body : BodyScope) : Expr → Bool
  | .overfull _ _ expr => expr.isPredictable body
  | .operator (.arithmetic op) (some operands) =>
      arePredictable body operands &&
        (operands.length ≠ 1 || operands.all (body.fitsAlone op))
  | _ => true

def arePredictable (body : BodyScope) : List Expr → Bool
  | [] => true
  | item :: rest => item.isPredictable body && arePredictable body rest

end

namespace BodyScope

/-- The types of all locals can be declared. -/
def Written (body : BodyScope) : Prop :=
  ∀ name target, body.names.slot? name = some target → target.type.Written

/-- The locals that may be read hold what their types say. -/
def Fills (body : BodyScope) (assigned : List String) (store : Store) (heap : Heap) : Prop :=
  ∀ name target, body.Reads assigned name target → heap.Suits target.type (store name)

theorem Fills.grows (h : body.Fills assigned store heap) (hgrows : heap.Grows after) :
    body.Fills assigned store after :=
  fun name target hreads => (h name target hreads).grows hgrows

/-- What the text of an expression says of its value. -/
structure Predicts (body : BodyScope) (expr : Expr) (value : Value) : Prop where
  typed : ∀ type, body.typeOf expr = some type → type.kind.fits value.kind = true
  untyped : body.typeOf expr = none →
    value.kind.isNumber = true ∨ expr.isNull = true ∧ value.kind = .null

namespace Predicts

theorem of_type (htype : body.typeOf expr = some type)
    (hfits : type.kind.fits value.kind = true) : body.Predicts expr value where
  typed found hfound := by
    rw [htype] at hfound
    cases hfound
    exact hfits
  untyped hnone := by
    rw [htype] at hnone
    cases hnone

/-- Strings are the values of expressions of their type and of no others. -/
theorem string_iff (h : body.Predicts expr value) :
    value.kind = .string ↔ body.typeOf expr = some .string := by
  constructor
  · intro hstring
    cases htype : body.typeOf expr with
    | none =>
        have huntyped := h.untyped htype
        rw [hstring] at huntyped
        rcases huntyped with hnumber | ⟨-, hnull⟩
        · cases hnumber
        · cases hnull
    | some type =>
        have hfits := h.typed type htype
        rw [hstring, ValueKind.fits_string_iff] at hfits
        rw [StaticType.kind_eq_string hfits]
  · exact fun htype => ValueKind.string_fits_iff.1 (h.typed _ htype)

theorem any_string_iff (h : List.Forall₂ body.Predicts operands values) :
    (∃ value ∈ values, value.kind = .string) ↔
      (Expr.staticTypes body.signatures body.names operands).any (· == some .string) = true := by
  induction h with
  | nil => simp [Expr.staticTypes]
  | cons hfirst _ ih =>
      have hfirst := hfirst.string_iff
      rw [typeOf] at hfirst
      simp [Expr.staticTypes, hfirst, ih]

theorem makes_alone (h : body.Predicts operand value) (halone : body.fitsAlone op operand = true) :
    op.Makes [value] value where
  string hop := (Arithmetic.joins_singleton.1 hop).2
  number hop := by
    rw [fitsAlone, Bool.and_eq_true, Bool.not_eq_true'] at halone
    obtain ⟨hnull, htakes⟩ := halone
    cases htype : body.typeOf operand with
    | none =>
        refine (h.untyped htype).resolve_right fun hother => ?_
        rw [hother.1] at hnull
        cases hnull
    | some type =>
        have hfits := h.typed type htype
        rw [htype, Option.all_some, Bool.or_eq_true, Bool.and_eq_true, decide_eq_true_eq,
          decide_eq_true_eq] at htakes
        rcases htakes with hnumeric | ⟨hadd, rfl⟩
        · exact ValueKind.isNumber_of_fits (type.isNumber_kind.trans hnumeric) hfits
        · exact absurd (Arithmetic.joins_singleton.2 ⟨hadd, ValueKind.string_fits_iff.1 hfits⟩) hop

/-- The type of an arithmetic operation is that of what its operands make. -/
theorem of_makes (h : List.Forall₂ body.Predicts operands values) (hmakes : op.Makes values value) :
    body.Predicts (.operator (.arithmetic op) (some operands)) value := by
  have hjoins : op.Joins values ↔ op = .add ∧
      (Expr.staticTypes body.signatures body.names operands).any (· == some .string) = true :=
    and_congr_right fun _ => any_string_iff h
  refine of_type rfl ?_
  by_cases hop : op.Joins values
  · rw [Arithmetic.resultType, if_pos (hjoins.1 hop), hmakes.string hop]
    rfl
  · refine ValueKind.fits_of_isNumber ?_ (hmakes.number hop)
    rw [StaticType.isNumber_kind]
    exact Arithmetic.isNumeric_resultType fun hstatic => hop (hjoins.2 hstatic)

theorem arithmetic (h : List.Forall₂ body.Predicts operands values) (hsome : operands ≠ [])
    (halone : (operands.length ≠ 1 || operands.all (body.fitsAlone op)) = true)
    (hvalue : (Operator.arithmetic op).apply heap values = .ok value) :
    body.Predicts (.operator (.arithmetic op) (some operands)) value := by
  refine of_makes h ?_
  match h with
  | .nil => exact absurd rfl hsome
  | .cons hfirst .nil =>
      cases hvalue
      exact hfirst.makes_alone (by simpa using halone)
  | .cons _ (.cons _ _) => exact Arithmetic.makes_fold hvalue

theorem operator {operator : Operator}
    (h : arePredictable body operands = true → List.Forall₂ body.Predicts operands values)
    (hsome : operands ≠ [])
    (hsure : (Expr.operator operator (some operands)).isPredictable body = true)
    (hvalue : operator.apply heap values = .ok value) :
    body.Predicts (.operator operator (some operands)) value := by
  match operator with
  | .arithmetic op =>
      simp only [Expr.isPredictable, Bool.and_eq_true] at hsure
      exact arithmetic (h hsure.1) hsome hsure.2 hvalue
  | .and | .or | .eq | .gt | .lt =>
      refine of_type rfl ?_
      rw [Operator.kind_apply rfl hvalue]
      rfl

theorem array (items : List Expr) (handle : Nat) :
    body.Predicts (.array items) (.array handle) := by
  cases items <;> exact of_type rfl rfl

theorem element {stray : List String} {array : String} {index : Option Expr} {target : LocalSlot}
    {item : Value} (hslot : body.names.slot? array = some target) {element : ValueKind}
    (hkind : target.type.element? = some element) (htype : StaticType.ofKind? element = some type)
    (hfits : element.fits item.kind = true) :
    body.Predicts (.get stray (some array) index) item := by
  have hfound : body.typeOf (.get stray (some array) index) = some type := by
    change ((body.names.slot? array).bind fun slot => slot.type.element?).bind
      StaticType.ofKind? = _
    rw [hslot, Option.bind_some, hkind, Option.bind_some, htype]
  refine of_type hfound ?_
  rw [StaticType.kind_of_ofKind? htype]
  exact hfits

end Predicts

end BodyScope

open BodyScope Evaluation

mutual

/-- The static type of an expression predicts its value. -/
theorem ExprCode.predicts (hwritten : body.Written) {expr : Expr} {commands : List Command}
    (h : ExprCode body pool assigned expr commands) (hfree : expr.isCallFree = true)
    (hsure : expr.isPredictable body = true) {store : Store} {heap after : Heap} {value : Value}
    (hfills : body.Fills assigned store heap)
    (hvalue : expr.evaluate store heap = .ok value after) : body.Predicts expr value := by
  match h with
  | .int _ | .float _ | .bool _ | .string _ =>
      cases hvalue
      exact .of_type rfl rfl
  | .null _ =>
      cases hvalue
      exact ⟨nofun, fun _ => .inr ⟨rfl, rfl⟩⟩
  | .reference hread | .named hread =>
      cases hvalue
      exact .of_type (congrArg (Option.map LocalSlot.type) hread.1) (hfills _ _ hread).kind
  | .overfull hexpr =>
      obtain ⟨htyped, huntyped⟩ := ExprCode.predicts hwritten hexpr hfree hsure hfills hvalue
      exact ⟨htyped, huntyped⟩
  | .array _ _ _ =>
      obtain ⟨values, middle, -, hmake⟩ := bind_ok hvalue
      obtain ⟨rfl, -⟩ := makeArray_ok hmake
      exact .array _ _
  | .not _ =>
      obtain ⟨found, middle, -, hresult⟩ := bind_ok hvalue
      have hkind := Value.kind_of_inverted (ofExcept_ok hresult).1
      exact .of_type rfl (by rw [hkind]; rfl)
  | .negate _ _ =>
      obtain ⟨found, middle, -, hresult⟩ := bind_ok hvalue
      have hnumber := Value.isNumber_of_negated (ofExcept_ok hresult).1
      refine ⟨fun type htype => ?_, fun _ => .inl hnumber⟩
      have hnumeric := (Option.filter_eq_some_iff.1 htype).2
      exact ValueKind.fits_of_isNumber (type.isNumber_kind.trans hnumeric) hnumber
  | .length _ _ =>
      obtain ⟨found, middle, -, hmeasure⟩ := bind_ok hvalue
      obtain ⟨_, _, hget, hresult⟩ := bind_ok hmeasure
      have hkind := Heap.kind_of_measure (ofExcept_ok hresult).1
      exact .of_type rfl (by rw [hkind]; rfl)
  | .operator hsome _ hoperands =>
      obtain ⟨values, middle, hvalues, happly⟩ := bind_ok hvalue
      obtain ⟨_, _, hget, hresult⟩ := bind_ok happly
      cases hget
      refine .operator (fun hall => ?_) hsome hsure (ok_of_mapError (ofExcept_ok hresult).1)
      exact ItemsCode.predicts hwritten hoperands hfree hall hfills hvalues
  | .get hread _ =>
      obtain ⟨position, middle, hposition, helement⟩ := bind_ok hvalue
      obtain ⟨_, _, hget, hresult⟩ := bind_ok helement
      cases hget
      obtain ⟨element, found, hkind, hfound⟩ := hwritten _ _ hread.1.1 hread.2
      have hgrows := (Expr.evaluate_allocates _ _).ok hposition
      have hsuits := (hfills _ _ hread.1).grows hgrows
      exact .element hread.1.1 hkind hfound (hsuits.fits_element hkind (ofExcept_ok hresult).1)
  | .call _ _ _ => cases hfree

theorem ItemsCode.predicts (hwritten : body.Written) {operator : Option Operator}
    {items : List Expr} {commands : List Command}
    (h : ItemsCode body pool assigned operator items commands)
    (hfree : areCallFree items = true) (hsure : arePredictable body items = true) {store : Store}
    {heap after : Heap} {values : List Value} (hfills : body.Fills assigned store heap)
    (hvalues : evaluateItems store items heap = .ok values after) :
    List.Forall₂ body.Predicts items values := by
  match h with
  | .nil =>
      cases hvalues
      exact .nil
  | .cons _ hitem hrest =>
      simp only [areCallFree, arePredictable, Bool.and_eq_true] at hfree hsure
      obtain ⟨value, middle, hvalue, hmore⟩ := bind_ok hvalues
      obtain ⟨others, last, hothers, hlast⟩ := bind_ok hmore
      cases hlast
      have hgrows := (Expr.evaluate_allocates store _).ok hvalue
      exact .cons (ExprCode.predicts hwritten hitem hfree.1 hsure.1 hfills hvalue)
        (ItemsCode.predicts hwritten hrest hfree.2 hsure.2 (hfills.grows hgrows) hothers)

end

end DocScript
