import DocScript.Files.Location
import Mathlib.Data.List.TakeDrop
import Mathlib.Data.List.TakeWhile

/-! # Locations below a folder

Joining the names on the way to an entry gives a location whose parts are those of the folder and
then the names. So locations below one folder are ordered as the lists of their names are, and the
extension of such a location is that of the last name alone.
-/

namespace DocScript

/-- The names that an entry of a folder can have: they lead somewhere below it. -/
structure IsEntryName (name : String) : Prop where
  ne_empty : name ≠ ""
  ne_dot : name ≠ "."
  ne_dots : name ≠ ".."
  no_slash : '/' ∉ name.toList

namespace IsEntryName

variable {name : String}

instance : Decidable (IsEntryName name) :=
  decidable_of_iff (name ≠ "" ∧ name ≠ "." ∧ name ≠ ".." ∧ '/' ∉ name.toList)
    ⟨fun ⟨hempty, hdot, hdots, hslash⟩ => ⟨hempty, hdot, hdots, hslash⟩,
      fun h => ⟨h.ne_empty, h.ne_dot, h.ne_dots, h.no_slash⟩⟩

theorem toList_ne_nil (hname : IsEntryName name) : name.toList ≠ [] := fun h =>
  hname.ne_empty (String.toList_inj.1 h)

theorem toList_ne_dot (hname : IsEntryName name) : name.toList ≠ ['.'] := fun h =>
  hname.ne_dot (String.toList_inj.1 h)

theorem toList_ne_dots (hname : IsEntryName name) : name.toList ≠ ['.', '.'] := fun h =>
  hname.ne_dots (String.toList_inj.1 h)

theorem partOfPiece?_eq (hname : IsEntryName name) :
    Location.partOfPiece? name.toList = some (.name name) := by
  rw [Location.partOfPiece?, if_neg (not_or.2 ⟨hname.toList_ne_nil, hname.toList_ne_dot⟩),
    if_neg hname.toList_ne_dots, String.ofList_toList]

end IsEntryName

namespace Location

/-- Where the names lead from a folder. -/
def below (folder : Location) (names : List String) : Location := names.foldl join folder

/-! ### Pieces -/

theorem splitSlashes_ne_nil (characters : List Char) : splitSlashes characters ≠ [] := by
  fun_cases splitSlashes characters <;> simp

theorem splitSlashes_cons {c : Char} {rest piece : List Char} {others : List (List Char)}
    (hc : c ≠ '/') (hrest : splitSlashes rest = piece :: others) :
    splitSlashes (c :: rest) = (c :: piece) :: others := by
  simp [splitSlashes, hrest]

theorem splitSlashes_of_not_mem {characters : List Char} (hslash : '/' ∉ characters) :
    splitSlashes characters = [characters] := by
  induction characters with
  | nil => rfl
  | cons c rest ih =>
      have hc : c ≠ '/' := fun h => hslash (h ▸ List.mem_cons_self)
      exact splitSlashes_cons hc (ih fun h => hslash (List.mem_cons_of_mem _ h))

/-- A slash ends a piece, and the next one begins behind it. -/
theorem splitSlashes_append_slash (characters rest : List Char) :
    splitSlashes (characters ++ '/' :: rest) = splitSlashes characters ++ splitSlashes rest := by
  fun_induction splitSlashes characters with
  | case1 => simp [splitSlashes]
  | case2 rest' ih => simp [splitSlashes, ih]
  | case3 c rest' hc hnil ih => exact absurd hnil (splitSlashes_ne_nil _)
  | case4 c rest' hc piece others hcons ih =>
      rw [hcons, List.cons_append] at ih
      exact splitSlashes_cons hc ih

theorem splitSlashes_eq_single_nil {characters : List Char}
    (hpieces : splitSlashes characters = [[]]) : characters = [] := by
  revert hpieces
  fun_cases splitSlashes characters with
  | case1 => exact fun _ => rfl
  | case2 rest => simp [splitSlashes_ne_nil rest]
  | case3 c rest hc hnil => simp
  | case4 c rest hc piece others hcons => simp

/-- A name joined to a folder is one more piece, in the place of the empty one behind a slash at
the end. -/
theorem pieces_join (folder : Location) {name : String} (hslash : '/' ∉ name.toList) :
    ∃ front, (folder.pieces = front ++ [[]] ∨ folder.pieces = front ∧ front ≠ [[]]) ∧
      (folder.join name).pieces = front ++ [name.toList] := by
  have hname := splitSlashes_of_not_mem hslash
  unfold join
  split
  next hlast =>
    refine ⟨[], .inl ?_, hname⟩
    rw [pieces, List.getLast?_eq_none_iff.1 hlast]
    rfl
  next hlast =>
    obtain ⟨init, htext⟩ := List.getLast?_eq_some_iff.1 hlast
    refine ⟨splitSlashes init, .inl ?_, ?_⟩
    · rw [pieces, htext, splitSlashes_append_slash]
      rfl
    · rw [pieces, String.toList_append, htext, List.append_assoc, List.singleton_append,
        splitSlashes_append_slash, hname]
  next c hc hlast =>
    refine ⟨folder.pieces, .inr ⟨rfl, fun hpieces => ?_⟩, ?_⟩
    · rw [splitSlashes_eq_single_nil hpieces] at hlast
      cases hlast
    · rw [pieces, String.toList_append, String.toList_append, List.append_assoc]
      exact (splitSlashes_append_slash _ _).trans (congrArg _ hname)

/-! ### Parts -/

@[simp]
theorem partOfPiece?_nil : partOfPiece? [] = none := rfl

theorem parts_join (folder : Location) {name : String} (hname : IsEntryName name) :
    (folder.join name).parts = folder.parts ++ [.name name] := by
  obtain ⟨front, hfolder, hjoined⟩ := pieces_join folder hname.no_slash
  have hpart := hname.partOfPiece?_eq
  rw [parts, parts, hjoined]
  obtain hfolder | ⟨hfolder, hfront⟩ := hfolder
  · rw [hfolder]
    cases front with
    | nil => simp [hname.toList_ne_nil, hname.toList_ne_dot, hpart]
    | cons first rest => simp [hpart]
  · rw [hfolder]
    cases front with
    | nil => exact absurd hfolder (splitSlashes_ne_nil _)
    | cons first rest =>
        -- A first piece that is empty is the root only with another piece behind it. The name is
        -- such a piece, so a first piece that stood alone must have led somewhere.
        by_cases hrest : rest = []
        · have hfirst : first ≠ [] := fun h => hfront (h ▸ hrest ▸ rfl)
          simp [hrest, hfirst, hpart]
        · simp [hrest, hpart]

theorem parts_below (folder : Location) {names : List String}
    (hnames : ∀ name ∈ names, IsEntryName name) :
    (folder.below names).parts = folder.parts ++ names.map .name := by
  induction names generalizing folder with
  | nil => simp [below]
  | cons name rest ih =>
      obtain ⟨hname, hrest⟩ := List.forall_mem_cons.1 hnames
      rw [below, List.foldl_cons, ← below, ih _ hrest, parts_join _ hname, List.append_assoc]
      rfl

/-! ### The order below a folder -/

theorem precedes_irrefl (part : PathPart) : part.precedes part = false := by
  simp [PathPart.precedes]

theorem precedes_name (a b : String) : (PathPart.name a).precedes (.name b) = true ↔ a < b := by
  have hrank : (PathPart.name a).rank = (PathPart.name b).rank := rfl
  simp [PathPart.precedes, hrank]
  rfl

theorem partsLe_append_append (start a b : List PathPart) :
    partsLe (start ++ a) (start ++ b) = partsLe a b := by
  induction start with
  | nil => rfl
  | cons part rest ih => simp [partsLe, precedes_irrefl, ih]

/-- Whether names come before other ones or are equal to them, compared one after the other. -/
def namesLe (p q : List String) : Bool := partsLe (p.map .name) (q.map .name)

theorem namesLe_iff (p q : List String) : namesLe p q = true ↔ ¬ q < p := by
  induction p generalizing q with
  | nil => simp [namesLe, partsLe]
  | cons a restP ih =>
      cases q with
      | nil => simp [namesLe, partsLe]
      | cons b restQ =>
          simp only [namesLe, List.map_cons, partsLe, precedes_name, List.cons_lt_cons_iff]
          by_cases hab : a < b
          · have hne : a ≠ b := fun h => String.lt_irrefl b (h ▸ hab)
            simp [hab, String.lt_asymm hab, hne.symm]
          by_cases hba : b < a
          · simp [hab, hba]
          have hsame : a = b := String.le_antisymm (String.not_lt.1 hba) (String.not_lt.1 hab)
          subst hsame
          have hirrefl : ¬ a < a := String.lt_irrefl a
          simp only [hirrefl, false_or, true_and]
          exact ih restQ

theorem namesLe_trans (p q r : List String) (hpq : namesLe p q = true) (hqr : namesLe q r = true) :
    namesLe p r = true := by
  rw [namesLe_iff] at *
  exact List.le_trans hpq hqr

theorem namesLe_total (p q : List String) : (namesLe p q || namesLe q p) = true := by
  rw [Bool.or_eq_true, namesLe_iff, namesLe_iff]
  exact List.le_total p q

theorem lt_of_namesLe {p q : List String} (hle : namesLe p q = true) (hne : p ≠ q) : p < q :=
  Classical.byContradiction fun hlt => hne (List.le_antisymm ((namesLe_iff p q).1 hle) hlt)

theorem le_below (folder : Location) {p q : List String} (hp : ∀ name ∈ p, IsEntryName name)
    (hq : ∀ name ∈ q, IsEntryName name) :
    (folder.below p).le (folder.below q) = namesLe p q := by
  rw [namesLe, le, parts_below folder hp, parts_below folder hq, partsLe_append_append]

/-! ### Extensions below a folder -/

theorem fileName?_join (folder : Location) {name : String} (hname : IsEntryName name) :
    (folder.join name).fileName? = some name.toList := by
  obtain ⟨front, -, hjoined⟩ := pieces_join folder hname.no_slash
  simp [fileName?, trimPieces, hjoined, hname.toList_ne_nil, hname.toList_ne_dot,
    hname.toList_ne_dots]

theorem reverse_all_ne_dot {characters : List Char} (hdot : '.' ∉ characters) :
    ∀ c ∈ characters.reverse, decide (c ≠ '.') = true := fun _ hc =>
  decide_eq_true fun h => hdot (h ▸ List.mem_reverse.1 hc)

theorem splitName_of_not_mem {name : List Char} (hdot : '.' ∉ name) :
    splitName name = (name, none) := by
  unfold splitName
  rw [List.span_eq_takeWhile_dropWhile, List.dropWhile_eq_nil_iff.2 (reverse_all_ne_dot hdot)]

theorem splitName_append_dot {stem extension : List Char} (hdot : '.' ∉ extension) :
    splitName (stem ++ '.' :: extension) =
      if stem = [] then ('.' :: extension, none) else (stem, some extension) := by
  have hall := reverse_all_ne_dot hdot
  unfold splitName
  rw [List.span_eq_takeWhile_dropWhile, List.reverse_append, List.reverse_cons, List.append_assoc,
    List.takeWhile_append_of_pos hall, List.dropWhile_append_of_pos hall]
  cases stem <;> simp

theorem splitName_snd_eq_some_iff {name extension : List Char} (hdot : '.' ∉ extension) :
    (splitName name).2 = some extension ↔ ∃ stem, stem ≠ [] ∧ name = stem ++ '.' :: extension := by
  constructor
  · intro hsome
    by_cases hmem : '.' ∈ name
    · -- The name is taken apart at its last dot.
      obtain ⟨behind, front, hreverse, hbehind⟩ :=
        List.eq_append_cons_of_mem (List.mem_reverse.2 hmem)
      have hname : name = front.reverse ++ '.' :: behind.reverse := by
        simpa using congrArg List.reverse hreverse
      rw [hname, splitName_append_dot (by simpa using hbehind)] at hsome
      split at hsome
      next => cases hsome
      next hstem =>
        cases hsome
        exact ⟨_, hstem, hname⟩
    · rw [splitName_of_not_mem hmem] at hsome
      cases hsome
  · rintro ⟨stem, hstem, rfl⟩
    rw [splitName_append_dot hdot, if_neg hstem]

/-- What follows the last dot is the extension, unless the dot begins the name. -/
theorem extension?_join_eq_some_iff (folder : Location) {name extension : String}
    (hname : IsEntryName name) (hdot : '.' ∉ extension.toList) :
    (folder.join name).extension? = some extension ↔
      ∃ stem, stem ≠ "" ∧ name = stem ++ "." ++ extension := by
  have hsplit : (folder.join name).extension? = some extension ↔
      (splitName name.toList).2 = some extension.toList := by
    rw [extension?, fileName?_join folder hname, Option.bind_some, Option.map_eq_some_iff]
    constructor
    · rintro ⟨characters, hsome, rfl⟩
      rw [hsome, String.toList_ofList]
    · exact fun hsome => ⟨_, hsome, String.ofList_toList⟩
  rw [hsplit, splitName_snd_eq_some_iff hdot]
  constructor
  · rintro ⟨stem, hstem, hcharacters⟩
    refine ⟨String.ofList stem, ?_, ?_⟩
    · simpa using hstem
    · apply String.toList_inj.1
      simp [hcharacters]
  · rintro ⟨stem, hstem, rfl⟩
    exact ⟨stem.toList, by simpa using hstem, by simp⟩

theorem extension?_below_eq_some_iff (folder : Location) {names : List String} {extension : String}
    (hnames : ∀ name ∈ names, IsEntryName name) (hne : names ≠ []) (hdot : '.' ∉ extension.toList) :
    (folder.below names).extension? = some extension ↔
      ∃ folders stem, stem ≠ "" ∧ names = folders ++ [stem ++ "." ++ extension] := by
  obtain ⟨folders, name, rfl⟩ : ∃ folders name, names = folders ++ [name] :=
    ⟨_, _, (List.dropLast_concat_getLast hne).symm⟩
  have hname : IsEntryName name := hnames name List.mem_concat_self
  rw [below, List.foldl_append, List.foldl_cons, List.foldl_nil,
    extension?_join_eq_some_iff _ hname hdot]
  constructor
  · rintro ⟨stem, hstem, rfl⟩
    exact ⟨folders, stem, hstem, rfl⟩
  · rintro ⟨folders', stem, hstem, hsame⟩
    obtain ⟨rfl, hlast⟩ := List.append_inj' hsame rfl
    exact ⟨stem, hstem, (List.cons.inj hlast).1⟩

end Location

end DocScript
