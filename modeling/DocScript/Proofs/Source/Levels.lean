import DocScript.Source.Reader

/-! # Reading without levels

A reader of one level hands the readers below it nothing but what lies deeper in its own value, so
it does not matter how many levels are read as long as they reach to the bottom. What a value
writes is one level over what its parts write.
-/

namespace DocScript

/-! ### What lies deeper -/

namespace Json

theorem depth_pos (value : Json) : 0 < value.depth := by
  cases value <;> exact Nat.succ_pos _

theorem depth_le_of_mem {items : List Json} {item : Json} (h : item ∈ items) :
    item.depth ≤ depthOfItems items := by
  induction items with
  | nil => cases h
  | cons first rest ih =>
      rw [depthOfItems]
      rcases List.mem_cons.1 h with rfl | hrest
      · exact Nat.le_max_left _ _
      · exact Nat.le_trans (ih hrest) (Nat.le_max_right _ _)

theorem depth_le_of_member {members : List (String × Json)} {key : String} {value : Json}
    (h : (key, value) ∈ members) : value.depth ≤ depthOfMembers members := by
  induction members with
  | nil => cases h
  | cons first rest ih =>
      obtain ⟨name, first⟩ := first
      rw [depthOfMembers]
      rcases List.mem_cons.1 h with hfirst | hrest
      · cases hfirst
        exact Nat.le_max_left _ _
      · exact Nat.le_trans (ih hrest) (Nat.le_max_right _ _)

theorem depth_lt_array {items : List Json} {item : Json} (h : item ∈ items) :
    item.depth < (array items).depth :=
  Nat.lt_succ_of_le (depth_le_of_mem h)

theorem depth_lt_object {members : List (String × Json)} {key : String} {value : Json}
    (h : (key, value) ∈ members) : value.depth < (object members).depth :=
  Nat.lt_succ_of_le (depth_le_of_member h)

theorem mem_of_lookup {members : List (String × Json)} {key : String} {value : Json}
    (h : members.lookup key = some value) : (key, value) ∈ members := by
  obtain ⟨before, after, rfl, -⟩ := List.lookup_eq_some_iff.1 h
  simp

end Json

/-- The readers agree on all values of less than a number of levels. -/
def AgreeBelow (depth : Nat) (reader other : Json → α) : Prop :=
  ∀ part, part.depth < depth → reader part = other part

section Agreement

variable {reader other : Json → α} {depth : Nat} {members : List (String × Json)}

theorem AgreeBelow.mono {lower : Nat} (h : AgreeBelow depth reader other) (hle : lower ≤ depth) :
    AgreeBelow lower reader other :=
  fun part hpart => h part (Nat.lt_of_lt_of_le hpart hle)

theorem AgreeBelow.items {items : List Json}
    (h : AgreeBelow (Json.array items).depth reader other) : items.map reader = items.map other :=
  List.map_congr_left fun item hitem => h item (Json.depth_lt_array hitem)

theorem AgreeBelow.member (h : AgreeBelow (Json.object members).depth reader other)
    (key : String) : (members.lookup key).map reader = (members.lookup key).map other :=
  Option.map_congr fun part hpart => h part (Json.depth_lt_object (Json.mem_of_lookup hpart))

theorem AgreeBelow.list (h : AgreeBelow (Json.object members).depth reader other)
    (key : String) : listField reader members key = listField other members key := by
  unfold listField
  split
  next => rfl
  next items hitems =>
    have hinner := Json.depth_lt_object (Json.mem_of_lookup hitems)
    rw [(h.mono (Nat.le_of_lt hinner)).items]
  next => rfl

end Agreement

section Expressions

variable {reader other : Json → Expr}

theorem readArguments_agree {members : List (String × Json)} {beside : Option Json}
    (h : AgreeBelow (Json.object members).depth reader other)
    (hbeside : ∀ value, beside = some value → AgreeBelow value.depth reader other) :
    readArguments reader members beside = readArguments other members beside := by
  unfold readArguments
  cases hargs : members.lookup "args" with
  | none =>
      cases beside with
      | none => rfl
      | some args =>
          cases args with
          | object arguments =>
              refine congrArg (fun list => (ArgumentPlace.beside, some list)) ?_
              refine List.map_congr_left fun argument hargument => Prod.ext rfl ?_
              exact hbeside _ rfl argument.2 (Json.depth_lt_object hargument)
          | _ => rfl
  | some args =>
      cases beside with
      | some _ => rfl
      | none =>
          have hinner := Json.depth_lt_object (Json.mem_of_lookup hargs)
          cases args with
          | object arguments =>
              refine congrArg (fun list => (ArgumentPlace.within, some list)) ?_
              refine List.map_congr_left fun argument hargument => Prod.ext rfl ?_
              exact h.mono (Nat.le_of_lt hinner) argument.2 (Json.depth_lt_object hargument)
          | _ => rfl

theorem readForm_agree {members : List (String × Json)} {form : String} {value : Json}
    (hvalue : (form, value) ∈ members)
    (h : AgreeBelow (Json.object members).depth reader other) :
    readForm reader members form value = readForm other members form value := by
  have hinner := Json.depth_lt_object hvalue
  have hsame : reader value = other value := h value hinner
  have hbelow : AgreeBelow value.depth reader other := h.mono (Nat.le_of_lt hinner)
  unfold readForm
  split
  next => rfl
  next =>
    cases value with
    | object call =>
        have hbeside : ∀ value, members.lookup "args" = some value →
            AgreeBelow value.depth reader other := fun value hvalue =>
          h.mono (Nat.le_of_lt (Json.depth_lt_object (Json.mem_of_lookup hvalue)))
        simp only [readArguments_agree hbelow hbeside]
    | _ => rfl
  next =>
    cases value with
    | object call => simp only [readGet, hbelow.member]
    | _ => rfl
  next => rw [hsame]
  next => rw [hsame]
  next => rw [hsame]
  next => rfl
  next =>
    split
    next operator _ =>
      cases value with
      | array items => simp only [readOperands, hbelow.items]
      | _ => simp only [readOperands, hsame]
    next => rfl

theorem form_of_findSome? {forms : List String} {members : List (String × Json)} {form : String}
    {value : Json}
    (h : (forms.findSome? fun form => (members.lookup form).map (form, ·)) = some (form, value)) :
    form ∈ forms ∧ members.lookup form = some value := by
  obtain ⟨found, hmem, hfound⟩ := List.exists_of_findSome?_eq_some h
  obtain ⟨other, hother, heq⟩ := Option.map_eq_some_iff.1 hfound
  cases heq
  exact ⟨hmem, hother⟩

theorem Expr.readLevel_agree {value : Json} (h : AgreeBelow value.depth reader other) :
    Expr.readLevel reader value = Expr.readLevel other value := by
  cases value with
  | array items => rw [readLevel, readLevel, h.items]
  | object members =>
      unfold readLevel
      simp only
      split
      next => rfl
      next form value hform =>
        rw [readForm_agree (Json.mem_of_lookup (form_of_findSome? hform).2) h]
  | _ => rfl

theorem Expr.ofLevels_agree (first second : Nat) {value : Json} (hfirst : value.depth ≤ first)
    (hsecond : value.depth ≤ second) :
    Expr.ofLevels first value = Expr.ofLevels second value := by
  induction first generalizing value second with
  | zero => exact absurd hfirst (Nat.not_le_of_lt value.depth_pos)
  | succ first ih =>
      cases second with
      | zero => exact absurd hsecond (Nat.not_le_of_lt value.depth_pos)
      | succ second =>
          refine readLevel_agree fun part hpart => ih second ?_ ?_
          · exact Nat.le_of_lt_succ (Nat.lt_of_lt_of_le hpart hfirst)
          · exact Nat.le_of_lt_succ (Nat.lt_of_lt_of_le hpart hsecond)

/-- An expression is one level over the expressions in it. -/
theorem Expr.ofJson_eq (value : Json) : Expr.ofJson value = Expr.readLevel Expr.ofJson value := by
  rw [ofJson, ofLevels_agree value.depth (value.depth + 1) (Nat.le_refl _) (Nat.le_succ _)]
  exact readLevel_agree fun part hpart =>
    ofLevels_agree _ _ (Nat.le_of_lt hpart) (Nat.le_refl _)

end Expressions

section Statements

variable {reader other : Json → Expr} {block others : Json → Stmt}

theorem ForeignOperand.read_agree {depth : Nat} (h : AgreeBelow depth reader other) :
    AgreeBelow depth (ForeignOperand.read reader) (ForeignOperand.read other) := by
  intro value hvalue
  cases value with
  | object members => simp only [read, (h.mono (Nat.le_of_lt hvalue)).member]
  | _ => rfl

theorem objectForm_agree {form : String} {value : Json} {first second : List (String × Json) → Stmt}
    (h : ∀ members, value = .object members → first members = second members) :
    objectForm form value first = objectForm form value second := by
  cases value with
  | object members => exact h members rfl
  | _ => rfl

theorem readStatementForm_agree {members : List (String × Json)} {form : String} {value : Json}
    (hvalue : (form, value) ∈ members)
    (h : AgreeBelow (Json.object members).depth reader other)
    (hblock : AgreeBelow (Json.object members).depth block others) :
    readStatementForm reader block members form value =
      readStatementForm other others members form value := by
  have hinner := Json.depth_lt_object hvalue
  have hsame : reader value = other value := h value hinner
  have hbelow : AgreeBelow value.depth reader other := h.mono (Nat.le_of_lt hinner)
  have hbelow' : AgreeBelow value.depth block others := hblock.mono (Nat.le_of_lt hinner)
  unfold readStatementForm
  split
  -- The operand of these three forms is their whole value.
  case h_2 | h_8 | h_14 => rw [hsame]
  case h_3 =>
    cases value with
    | object call =>
        have hbeside : ∀ value, members.lookup "args" = some value →
            AgreeBelow value.depth reader other := fun value hvalue =>
          h.mono (Nat.le_of_lt (Json.depth_lt_object (Json.mem_of_lookup hvalue)))
        simp only [readArguments_agree hbelow hbeside]
    | _ => rfl
  case h_15 => rfl
  all_goals
    refine objectForm_agree ?_
    rintro body rfl
    simp only [hbelow.member, hbelow'.list, (ForeignOperand.read_agree hbelow).list]

theorem Stmt.readLevel_agree {value : Json} (h : AgreeBelow value.depth reader other)
    (hblock : AgreeBelow value.depth block others) :
    Stmt.readLevel reader block value = Stmt.readLevel other others value := by
  cases value with
  | object members =>
      unfold readLevel
      simp only
      split
      next => rfl
      next form value hform =>
        rw [readStatementForm_agree (Json.mem_of_lookup (form_of_findSome? hform).2) h hblock]
  | _ => rfl

theorem Stmt.ofLevels_agree (first second : Nat) {value : Json} (hfirst : value.depth ≤ first)
    (hsecond : value.depth ≤ second) :
    Stmt.ofLevels first value = Stmt.ofLevels second value := by
  induction first generalizing value second with
  | zero => exact absurd hfirst (Nat.not_le_of_lt value.depth_pos)
  | succ first ih =>
      cases second with
      | zero => exact absurd hsecond (Nat.not_le_of_lt value.depth_pos)
      | succ second =>
          have hbelow (part : Json) (hpart : part.depth < value.depth) :
              part.depth ≤ first ∧ part.depth ≤ second :=
            ⟨Nat.le_of_lt_succ (Nat.lt_of_lt_of_le hpart hfirst),
              Nat.le_of_lt_succ (Nat.lt_of_lt_of_le hpart hsecond)⟩
          exact readLevel_agree
            (fun part hpart => Expr.ofLevels_agree _ _ (hbelow part hpart).1 (hbelow part hpart).2)
            fun part hpart => ih second (hbelow part hpart).1 (hbelow part hpart).2

/-- A statement is one level over the expressions and the statements in it. -/
theorem Stmt.ofJson_eq (value : Json) :
    Stmt.ofJson value = Stmt.readLevel Expr.ofJson Stmt.ofJson value := by
  rw [ofJson, ofLevels_agree value.depth (value.depth + 1) (Nat.le_refl _) (Nat.le_succ _)]
  exact readLevel_agree
    (fun part hpart => Expr.ofLevels_agree _ _ (Nat.le_of_lt hpart) (Nat.le_refl _))
    fun part hpart => ofLevels_agree _ _ (Nat.le_of_lt hpart) (Nat.le_refl _)

end Statements

end DocScript
