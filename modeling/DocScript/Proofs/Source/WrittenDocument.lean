import Mathlib.Data.List.Nodup
import DocScript.Json.Cursor
import DocScript.Proofs.Source.PlainPath

/-! # Documents as they are written

A JSON text with all of its white space, its strings and its scalars as they stand there. Its nodes
are listed with their paths and the text in front of them, so the line of each can be counted.
-/

namespace DocScript

/-! ### Texts -/

/-- White space between tokens. -/
structure Gap where
  chars : List Char
  space : ∀ c ∈ chars, Json.Cursor.isSpace c = true

/-- No white space. -/
def Gap.empty : Gap := ⟨[], List.forall_mem_nil _⟩

/-- Two gaps without a token between them. -/
def Gap.append (first second : Gap) : Gap :=
  ⟨first.chars ++ second.chars, List.forall_mem_append.2 ⟨first.space, second.space⟩⟩

/-- The signs and letters of numbers and literals. -/
def scalarLetters : List Char :=
  ['+', '-', '.', 'e', 'E', 't', 'r', 'u', 'f', 'a', 'l', 's', 'n']

/-- Characters of numbers and literals. -/
def inScalar (c : Char) : Bool := c.isDigit || scalarLetters.contains c

theorem ne_of_inScalar {c other : Char} (hc : inScalar c = true)
    (hother : inScalar other = false) : c ≠ other := by
  rintro rfl
  cases hc.symm.trans hother

/-- A number or a literal. -/
structure WrittenScalar where
  chars : List Char
  nonempty : chars ≠ []
  plain : ∀ c ∈ chars, inScalar c = true

/-- A character of a string, or a backslash with the character that it escapes. -/
inductive StringPart where
  | plain (c : Char) (hquote : c ≠ '"') (hslash : c ≠ '\\')
  | escape (c : Char)

def StringPart.text : StringPart → List Char
  | .plain c _ _ => [c]
  | .escape c => ['\\', c]

/-- What stands between the quotes of a string. -/
structure WrittenString where
  parts : List StringPart

namespace WrittenString

/-- The characters between the quotes. -/
def inner (string : WrittenString) : List Char := string.parts.flatMap StringPart.text

def text (string : WrittenString) : List Char := '"' :: (string.inner ++ ['"'])

end WrittenString

mutual

/-- A value. -/
inductive WrittenValue where
  | scalar (token : WrittenScalar)
  | string (string : WrittenString)
  | array (elements : WrittenElements)
  | object (members : WrittenMembers)

/-- What stands between the brackets of an array, or behind one of its commas. -/
inductive WrittenElements where
  | none (gap : Gap)
  | more (before : Gap) (value : WrittenValue) (behind : Gap) (rest : WrittenElements)

/-- What stands between the braces of an object, or behind one of its commas. -/
inductive WrittenMembers where
  | none (gap : Gap)
  | more (before : Gap) (key : WrittenString) (colon space : Gap) (value : WrittenValue)
      (behind : Gap) (rest : WrittenMembers)

end

/-- A comma stands in front of an element that is not the first one. -/
def WrittenElements.comma : WrittenElements → List Char
  | .none _ => []
  | .more .. => [',']

/-- A comma stands in front of a member that is not the first one. -/
def WrittenMembers.comma : WrittenMembers → List Char
  | .none _ => []
  | .more .. => [',']

mutual

def WrittenValue.text : WrittenValue → List Char
  | .scalar token => token.chars
  | .string string => string.text
  | .array elements => '[' :: (elements.text ++ [']'])
  | .object members => '{' :: (members.text ++ ['}'])

def WrittenElements.text : WrittenElements → List Char
  | .none gap => gap.chars
  | .more before value behind rest =>
      before.chars ++ (value.text ++ (behind.chars ++ (rest.comma ++ rest.text)))

def WrittenMembers.text : WrittenMembers → List Char
  | .none gap => gap.chars
  | .more before key colon space value behind rest =>
      before.chars ++ (key.text ++ (colon.chars ++ ':' :: (space.chars ++
        (value.text ++ (behind.chars ++ (rest.comma ++ rest.text))))))

end

/-- A text that holds one value. -/
structure WrittenDocument where
  leading : Gap
  value : WrittenValue
  trailing : Gap

def WrittenDocument.text (document : WrittenDocument) : List Char :=
  document.leading.chars ++ (document.value.text ++ document.trailing.chars)

/-! ### Nodes -/

/-- The line of a text on which it goes on. -/
def lineAfter (before : List Char) : Nat := 1 + before.count '\n'

/-- A value of a document: the steps that lead to it, the text in front of it, and the text that
marks where it begins, which is the key of a member in its quotes and otherwise the value. -/
structure DocumentNode where
  steps : List PathStep
  before : List Char
  mark : List Char
  deriving DecidableEq

namespace DocumentNode

def path (node : DocumentNode) : SourcePath := .ofSteps node.steps

/-- The line on which the first character of the mark stands. -/
def line (node : DocumentNode) : Nat := lineAfter node.before

end DocumentNode

mutual

/-- The nodes inside of a value that stands at the end of steps and behind a text. -/
def WrittenValue.nodes (steps : List PathStep) (before : List Char) :
    WrittenValue → List DocumentNode
  | .scalar _ | .string _ => []
  | .array elements => elements.nodes steps 0 (before ++ ['['])
  | .object members => members.nodes steps (before ++ ['{'])

/-- The nodes of elements, the first at a position, and those inside of them. -/
def WrittenElements.nodes (steps : List PathStep) (position : Nat) (before : List Char) :
    WrittenElements → List DocumentNode
  | .none _ => []
  | .more gap value behind rest =>
      let place := steps ++ [.index position]
      let start := before ++ gap.chars
      ⟨place, start, value.text⟩ :: (value.nodes place start ++
        rest.nodes steps (position + 1) (start ++ value.text ++ behind.chars ++ rest.comma))

/-- The nodes of members and those inside of them. -/
def WrittenMembers.nodes (steps : List PathStep) (before : List Char) :
    WrittenMembers → List DocumentNode
  | .none _ => []
  | .more gap key colon space value behind rest =>
      let place := steps ++ [.key (String.ofList key.inner)]
      let start := before ++ gap.chars
      let inside := start ++ key.text ++ colon.chars ++ [':'] ++ space.chars
      ⟨place, start, key.text⟩ :: (value.nodes place inside ++
        rest.nodes steps (inside ++ value.text ++ behind.chars ++ rest.comma))

end

/-- All nodes of a document, the root first. -/
def WrittenDocument.nodes (document : WrittenDocument) : List DocumentNode :=
  ⟨[], document.leading.chars, document.value.text⟩ ::
    document.value.nodes [] document.leading.chars

/-- The mark of the node stands in the text right behind what stands in front of the node, and if
the last step to the node is by a key, the mark is that key in quotes. -/
structure DocumentNode.StandsIn (node : DocumentNode) (text : List Char) : Prop where
  mark : node.before ++ node.mark <+: text
  key : ∀ name, node.steps.getLast? = some (.key name) → node.mark = '"' :: (name.toList ++ ['"'])

section Marks

variable {node : DocumentNode}

theorem DocumentNode.StandsIn.trans {text whole : List Char} (h : node.StandsIn text)
    (hfront : text <+: whole) : node.StandsIn whole :=
  ⟨h.mark.trans hfront, h.key⟩

mutual

theorem WrittenValue.standsIn_of_mem_nodes (value : WrittenValue) {steps : List PathStep}
    {before : List Char} (hmem : node ∈ value.nodes steps before) :
    node.StandsIn (before ++ value.text) := by
  match value with
  | .array elements =>
      exact (elements.standsIn_of_mem_nodes hmem).trans ⟨[']'], by simp [WrittenValue.text]⟩
  | .object members =>
      exact (members.standsIn_of_mem_nodes hmem).trans ⟨['}'], by simp [WrittenValue.text]⟩

theorem WrittenElements.standsIn_of_mem_nodes (elements : WrittenElements)
    {steps : List PathStep} {position : Nat} {before : List Char}
    (hmem : node ∈ elements.nodes steps position before) :
    node.StandsIn (before ++ elements.text) := by
  match elements with
  | .more gap value behind rest =>
      have hvalue : before ++ gap.chars ++ value.text <+:
          before ++ (WrittenElements.more gap value behind rest).text :=
        ⟨behind.chars ++ (rest.comma ++ rest.text), by simp [WrittenElements.text]⟩
      simp only [WrittenElements.nodes, List.mem_cons, List.mem_append] at hmem
      rcases hmem with rfl | hinside | hrest
      · exact ⟨hvalue, by simp⟩
      · exact (value.standsIn_of_mem_nodes hinside).trans hvalue
      · refine (rest.standsIn_of_mem_nodes hrest).trans ?_
        simp [WrittenElements.text]

theorem WrittenMembers.standsIn_of_mem_nodes (members : WrittenMembers) {steps : List PathStep}
    {before : List Char} (hmem : node ∈ members.nodes steps before) :
    node.StandsIn (before ++ members.text) := by
  match members with
  | .more gap key colon space value behind rest =>
      simp only [WrittenMembers.nodes, List.mem_cons, List.mem_append] at hmem
      rcases hmem with rfl | hinside | hrest
      · refine ⟨by simp [WrittenMembers.text], fun name hname => ?_⟩
        rw [List.getLast?_concat] at hname
        cases hname
        rw [String.toList_ofList, WrittenString.text]
      · refine (value.standsIn_of_mem_nodes hinside).trans ?_
        exact ⟨behind.chars ++ (rest.comma ++ rest.text), by simp [WrittenMembers.text]⟩
      · refine (rest.standsIn_of_mem_nodes hrest).trans ?_
        simp [WrittenMembers.text]

end

theorem WrittenDocument.standsIn_of_mem_nodes {document : WrittenDocument}
    (hmem : node ∈ document.nodes) : node.StandsIn document.text := by
  have hvalue : document.leading.chars ++ document.value.text <+: document.text :=
    ⟨document.trailing.chars, by simp [WrittenDocument.text]⟩
  rcases List.mem_cons.1 hmem with rfl | hinside
  · exact ⟨hvalue, fun name hname => by cases hname⟩
  · exact (document.value.standsIn_of_mem_nodes hinside).trans hvalue

end Marks

/-! ### Clean documents -/

/-- The keys of members, in order. -/
def WrittenMembers.keys : WrittenMembers → List String
  | .none _ => []
  | .more _ key _ _ _ _ rest => String.ofList key.inner :: rest.keys

mutual

/-- The keys in the value mark no segments, and no object repeats one. -/
def WrittenValue.Clean : WrittenValue → Prop
  | .scalar _ | .string _ => True
  | .array elements => elements.Clean
  | .object members => members.keys.Nodup ∧ members.Clean

def WrittenElements.Clean : WrittenElements → Prop
  | .none _ => True
  | .more _ value _ rest => value.Clean ∧ rest.Clean

def WrittenMembers.Clean : WrittenMembers → Prop
  | .none _ => True
  | .more _ key _ _ value _ rest =>
      (PathStep.key (String.ofList key.inner)).Plain ∧ value.Clean ∧ rest.Clean

end

section Clean

variable {node : DocumentNode}

mutual

/-- The steps to a node inside of a value go through the value, and are plain behind it. -/
theorem WrittenValue.steps_of_mem_nodes (value : WrittenValue) (hclean : value.Clean)
    {steps : List PathStep} {before : List Char} (hmem : node ∈ value.nodes steps before) :
    ∃ step more, node.steps = steps ++ step :: more ∧ ∀ other ∈ step :: more, other.Plain := by
  match value with
  | .array elements =>
      obtain ⟨position, more, -, hsteps, hplain⟩ := elements.steps_of_mem_nodes hclean hmem
      exact ⟨.index position, more, hsteps, List.forall_mem_cons.2 ⟨trivial, hplain⟩⟩
  | .object members =>
      obtain ⟨name, more, -, hsteps, hplain⟩ := members.steps_of_mem_nodes hclean.2 hmem
      exact ⟨.key name, more, hsteps, hplain⟩

/-- The first step to a node leads to its position or one behind it. -/
theorem WrittenElements.steps_of_mem_nodes (elements : WrittenElements) (hclean : elements.Clean)
    {steps : List PathStep} {position : Nat} {before : List Char}
    (hmem : node ∈ elements.nodes steps position before) :
    ∃ place more, position ≤ place ∧ node.steps = steps ++ .index place :: more ∧
      ∀ other ∈ more, other.Plain := by
  match elements with
  | .more gap value behind rest =>
      simp only [WrittenElements.nodes, List.mem_cons, List.mem_append] at hmem
      rcases hmem with rfl | hinside | hrest
      · exact ⟨position, [], Nat.le_refl _, rfl, List.forall_mem_nil _⟩
      · obtain ⟨step, more, hsteps, hplain⟩ := value.steps_of_mem_nodes hclean.1 hinside
        exact ⟨position, step :: more, Nat.le_refl _, by simpa using hsteps, hplain⟩
      · obtain ⟨place, more, hplace, hsteps, hplain⟩ := rest.steps_of_mem_nodes hclean.2 hrest
        exact ⟨place, more, Nat.le_of_succ_le hplace, hsteps, hplain⟩

/-- The first step to a node is by one of the keys. -/
theorem WrittenMembers.steps_of_mem_nodes (members : WrittenMembers) (hclean : members.Clean)
    {steps : List PathStep} {before : List Char} (hmem : node ∈ members.nodes steps before) :
    ∃ name more, name ∈ members.keys ∧ node.steps = steps ++ .key name :: more ∧
      ∀ other ∈ PathStep.key name :: more, other.Plain := by
  match members with
  | .more gap key colon space value behind rest =>
      simp only [WrittenMembers.nodes, List.mem_cons, List.mem_append] at hmem
      rcases hmem with rfl | hinside | hrest
      · exact ⟨_, [], List.mem_cons_self, rfl, List.forall_mem_singleton.2 hclean.1⟩
      · obtain ⟨step, more, hsteps, hplain⟩ := value.steps_of_mem_nodes hclean.2.1 hinside
        exact ⟨_, step :: more, List.mem_cons_self, by simpa using hsteps,
          List.forall_mem_cons.2 ⟨hclean.1, hplain⟩⟩
      · obtain ⟨name, more, hname, hsteps, hplain⟩ := rest.steps_of_mem_nodes hclean.2.2 hrest
        exact ⟨name, more, List.mem_cons_of_mem _ hname, hsteps, hplain⟩

end

/-- Where a step differs, the steps behind it do not matter. -/
theorem not_prefix_of_ne {steps more : List PathStep} {step other : PathStep} (hne : step ≠ other) :
    ¬ steps ++ [step] <+: steps ++ other :: more := by
  rw [List.prefix_append_right_inj, List.cons_prefix_cons]
  exact fun h => hne h.1

/-- A node, the nodes inside of it and those behind it are apart. -/
theorem nodup_of_apart {inside rest : List DocumentNode}
    (hinside : (inside.map DocumentNode.steps).Nodup) (hrest : (rest.map DocumentNode.steps).Nodup)
    (hbelow : ∀ other ∈ inside, ∃ step more, other.steps = node.steps ++ step :: more)
    (hapart : ∀ other ∈ rest, ¬ node.steps <+: other.steps) :
    ((node :: (inside ++ rest)).map DocumentNode.steps).Nodup := by
  rw [List.map_cons, List.map_append, List.nodup_cons, List.nodup_append]
  refine ⟨?_, hinside, hrest, ?_⟩
  · rw [List.mem_append, List.mem_map, List.mem_map]
    rintro (⟨other, hother, hsame⟩ | ⟨other, hother, hsame⟩)
    · obtain ⟨step, more, hsteps⟩ := hbelow other hother
      simp [hsame] at hsteps
    · exact hapart other hother (hsame ▸ List.prefix_rfl)
  · intro first hfirst second hsecond hsame
    obtain ⟨one, hone, rfl⟩ := List.mem_map.1 hfirst
    obtain ⟨two, htwo, rfl⟩ := List.mem_map.1 hsecond
    obtain ⟨step, more, hsteps⟩ := hbelow one hone
    exact hapart two htwo ⟨step :: more, hsteps.symm.trans hsame⟩

mutual

/-- In a clean document no two nodes have the same path. -/
theorem WrittenValue.nodup_nodes (value : WrittenValue) (hclean : value.Clean)
    (steps : List PathStep) (before : List Char) :
    ((value.nodes steps before).map DocumentNode.steps).Nodup := by
  match value with
  | .scalar _ | .string _ => exact List.nodup_nil
  | .array elements => exact elements.nodup_nodes hclean steps 0 _
  | .object members => exact members.nodup_nodes hclean.2 hclean.1 steps _

theorem WrittenElements.nodup_nodes (elements : WrittenElements) (hclean : elements.Clean)
    (steps : List PathStep) (position : Nat) (before : List Char) :
    ((elements.nodes steps position before).map DocumentNode.steps).Nodup := by
  match elements with
  | .none _ => exact List.nodup_nil
  | .more gap value behind rest =>
      -- Behind the element the positions are larger ones.
      refine nodup_of_apart (value.nodup_nodes hclean.1 _ _) (rest.nodup_nodes hclean.2 _ _ _)
        (fun other hother => ?_) fun other hother => ?_
      · obtain ⟨step, more, hsteps, -⟩ := value.steps_of_mem_nodes hclean.1 hother
        exact ⟨step, more, hsteps⟩
      · obtain ⟨place, more, hplace, hsteps, -⟩ := rest.steps_of_mem_nodes hclean.2 hother
        rw [hsteps]
        exact not_prefix_of_ne (by simpa using Nat.ne_of_lt hplace)

theorem WrittenMembers.nodup_nodes (members : WrittenMembers) (hclean : members.Clean)
    (hkeys : members.keys.Nodup) (steps : List PathStep) (before : List Char) :
    ((members.nodes steps before).map DocumentNode.steps).Nodup := by
  match members with
  | .none _ => exact List.nodup_nil
  | .more gap key colon space value behind rest =>
      -- Behind the member its key does not occur again.
      obtain ⟨hnew, hothers⟩ := List.nodup_cons.1 hkeys
      refine nodup_of_apart (value.nodup_nodes hclean.2.1 _ _)
        (rest.nodup_nodes hclean.2.2 hothers _ _) (fun other hother => ?_) fun other hother => ?_
      · obtain ⟨step, more, hsteps, -⟩ := value.steps_of_mem_nodes hclean.2.1 hother
        exact ⟨step, more, hsteps⟩
      · obtain ⟨name, more, hname, hsteps, -⟩ := rest.steps_of_mem_nodes hclean.2.2 hother
        rw [hsteps]
        refine not_prefix_of_ne fun hsame => hnew ?_
        cases hsame
        exact hname

end

end Clean

/-- The keys in the document mark no segments, and no object repeats one. -/
def WrittenDocument.Clean (document : WrittenDocument) : Prop := document.value.Clean

namespace WrittenDocument

variable {document : WrittenDocument} {node : DocumentNode}

theorem Clean.plain (hclean : document.Clean) (hmem : node ∈ document.nodes) :
    ∀ step ∈ node.steps, step.Plain := by
  rcases List.mem_cons.1 hmem with rfl | hinside
  · exact List.forall_mem_nil _
  · obtain ⟨step, more, hsteps, hplain⟩ := document.value.steps_of_mem_nodes hclean hinside
    rw [hsteps]
    exact hplain

theorem Clean.nodup (hclean : document.Clean) :
    (document.nodes.map DocumentNode.steps).Nodup := by
  refine List.nodup_cons.2 ⟨fun hroot => ?_, document.value.nodup_nodes hclean _ _⟩
  obtain ⟨node, hmem, hsteps⟩ := List.mem_map.1 hroot
  obtain ⟨step, more, hbelow, -⟩ := document.value.steps_of_mem_nodes hclean hmem
  cases hsteps.symm.trans hbelow

end WrittenDocument

end DocScript
