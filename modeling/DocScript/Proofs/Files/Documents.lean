import DocScript.Files.Sources
import DocScript.Proofs.Files.Joining
import Mathlib.Data.List.Nodup

/-! # The documents below a folder

The files below a folder are enumerated by the names on the way to them. The search for sources
keeps those of the enumeration whose last name has the right extension, and puts them into the order
of their names. What it gives does not depend on the order in which folders list their entries.
-/

namespace DocScript

theorem Location.refusal?_eq_none {location : Location} (hzero : '\x00' ∉ location.text.toList)
    (hsize : location.text.utf8ByteSize ≤ longestLocation) : location.refusal? = none := by
  simp [Location.refusal?, hzero, hsize]

namespace FileNode

/-- Induction along the entries of folders. -/
@[elab_as_elim]
theorem entries_induction {motive : FileNode → Prop} (file : ∀ bytes, motive (.file bytes))
    (special : ∀ answers, motive (.special answers))
    (folder : ∀ entries : List (String × FileNode),
      (∀ entry ∈ entries, motive entry.2) → motive (.folder entries)) :
    ∀ node, motive node
  | .file bytes => file bytes
  | .special answers => special answers
  | .folder entries => folder entries fun entry _ =>
      entries_induction file special folder entry.2
termination_by node => sizeOf node
decreasing_by
  rename_i hentry
  have hentry := List.sizeOf_lt_of_mem hentry
  cases entry
  simp only [Prod.mk.sizeOf_spec, FileNode.folder.sizeOf_spec] at *
  omega

/-! ### Trees -/

/-- The names lead from a node to another one at or below it. -/
inductive At : FileNode → List String → FileNode → Prop
  | here (node : FileNode) : At node [] node
  | inside {entries : List (String × FileNode)} {name : String} {next : FileNode}
      {names : List String} {node : FileNode} (listed : (name, next) ∈ entries)
      (rest : At next names node) : At (.folder entries) (name :: names) node

/-- In every folder of a tree the names are names of entries, and no two entries share one. -/
def WellNamed (top : FileNode) : Prop :=
  ∀ names entries, top.At names (.folder entries) →
    (∀ entry ∈ entries, IsEntryName entry.1) ∧ (entries.map Prod.fst).Nodup

/-- Every folder of a tree that stands at a location can be looked into. -/
def Readable (location : Location) (top : FileNode) : Prop :=
  ∀ names entries, top.At names (.folder entries) → (location.below names).refusal? = none

/-- The names lead to a file, and the last of them has something in front of the extension. -/
def IsDocument (top : FileNode) (names : List String) : Prop :=
  (∃ bytes, top.At names (.file bytes)) ∧
    ∃ folders stem, stem ≠ "" ∧ names = folders ++ [stem ++ ".json"]

/-- The same tree, but folders may list their entries in another order. -/
inductive Relisted : List (String × FileNode) → List (String × FileNode) → Prop
  | perm {entries others : List (String × FileNode)} (same : entries.Perm others) :
      Relisted entries others
  | inside {entries others : List (String × FileNode)} (name : String)
      (front back : List (String × FileNode)) (inner : Relisted entries others) :
      Relisted (front ++ (name, .folder entries) :: back) (front ++ (name, .folder others) :: back)
  | trans {entries middle others : List (String × FileNode)} (first : Relisted entries middle)
      (second : Relisted middle others) : Relisted entries others

variable {top node next : FileNode} {entries others : List (String × FileNode)}

/-! ### Following names -/

/-- From what is no folder names lead nowhere else. -/
theorem at_leaf_iff (leaf : FileNode) {names : List String} (hleaf : leaf.isFolder = false) :
    leaf.At names node ↔ names = [] ∧ node = leaf := by
  constructor
  · rintro (_ | _)
    · exact ⟨rfl, rfl⟩
    · cases hleaf
  · rintro ⟨rfl, rfl⟩
    exact .here _

theorem WellNamed.inside {name : String} (htop : WellNamed (.folder entries))
    (hlisted : (name, next) ∈ entries) : WellNamed next := fun names inner hinner =>
  htop (name :: names) inner (.inside hlisted hinner)

theorem Readable.inside {location : Location} {name : String}
    (htop : Readable location (.folder entries)) (hlisted : (name, next) ∈ entries) :
    Readable (location.join name) next := fun names inner hinner =>
  htop (name :: names) inner (.inside hlisted hinner)

theorem WellNamed.of_leaf (hleaf : top.isFolder = false) : WellNamed top := by
  intro names inner hat
  obtain ⟨-, rfl⟩ := (at_leaf_iff top hleaf).1 hat
  cases hleaf

/-- A folder is well named if its entries are and what stands below each of them is. -/
theorem WellNamed.folder (hentries : ∀ entry ∈ entries, IsEntryName entry.1)
    (hdistinct : (entries.map Prod.fst).Nodup) (hinner : ∀ entry ∈ entries, WellNamed entry.2) :
    WellNamed (.folder entries) := by
  rintro names inner (_ | ⟨hlisted, hrest⟩)
  · exact ⟨hentries, hdistinct⟩
  · exact hinner _ hlisted _ inner hrest

theorem Readable.of_leaf {location : Location} (hleaf : top.isFolder = false) :
    Readable location top := by
  intro names inner hat
  obtain ⟨-, rfl⟩ := (at_leaf_iff top hleaf).1 hat
  cases hleaf

theorem Readable.folder {location : Location} (hhere : location.refusal? = none)
    (hinner : ∀ entry ∈ entries, Readable (location.join entry.1) entry.2) :
    Readable location (.folder entries) := by
  rintro names inner (_ | ⟨hlisted, hrest⟩)
  · exact hhere
  · exact hinner _ hlisted _ inner hrest

theorem WellNamed.names {names : List String} (htop : WellNamed top) (hat : top.At names node) :
    ∀ name ∈ names, IsEntryName name := by
  induction hat with
  | here => exact List.forall_mem_nil _
  | @inside entries name next names node hlisted hrest ih =>
      have hname := (htop [] entries (.here _)).1 _ hlisted
      exact List.forall_mem_cons.2 ⟨hname, ih (htop.inside hlisted)⟩

/-! ### The enumeration of files -/

mutual

/-- The names on the way to each file at or below a node. -/
def filePaths : FileNode → List (List String)
  | .file _ => [[]]
  | .special _ => []
  | .folder entries => filePathsIn entries

/-- The names on the way to each file at or below the entries of a folder. -/
def filePathsIn : List (String × FileNode) → List (List String)
  | [] => []
  | (name, node) :: rest => (filePaths node).map (name :: ·) ++ filePathsIn rest

end

theorem filePathsIn_eq_flatMap (entries : List (String × FileNode)) :
    filePathsIn entries = entries.flatMap fun entry => entry.2.filePaths.map (entry.1 :: ·) := by
  induction entries with
  | nil => rfl
  | cons entry rest ih => rw [filePathsIn, List.flatMap_cons, ih]

theorem documentsIn_eq_flatMap (location : Location) (entries : List (String × FileNode)) :
    documentsIn location entries =
      entries.flatMap fun entry => documents (location.join entry.1) entry.2 := by
  induction entries with
  | nil => rfl
  | cons entry rest ih => rw [documentsIn, List.flatMap_cons, ih]

theorem unreadableIn?_eq_none_iff (location : Location) (entries : List (String × FileNode)) :
    unreadableIn? location entries = none ↔
      ∀ entry ∈ entries, unreadable? (location.join entry.1) entry.2 = none := by
  induction entries with
  | nil => simp [unreadableIn?]
  | cons entry rest ih => simp [unreadableIn?, ih]

theorem unreadable?_folder_eq_none_iff (location : Location)
    (entries : List (String × FileNode)) :
    unreadable? location (.folder entries) = none ↔
      location.refusal? = none ∧ unreadableIn? location entries = none := by
  rw [unreadable?]
  split
  next error hrefused => simp [hrefused]
  next hfree => simp [hfree]

/-- The enumeration is complete and exact. -/
theorem mem_filePaths_iff {names : List String} :
    names ∈ top.filePaths ↔ ∃ bytes, top.At names (.file bytes) := by
  induction top using entries_induction generalizing names with
  | file bytes => simp [filePaths, at_leaf_iff (.file bytes) rfl]
  | special answers => simp [filePaths, at_leaf_iff (.special answers) rfl]
  | folder entries ih =>
      rw [filePaths, filePathsIn_eq_flatMap, List.mem_flatMap]
      constructor
      · rintro ⟨⟨name, next⟩, hlisted, hnames⟩
        obtain ⟨rest, hrest, rfl⟩ := List.mem_map.1 hnames
        obtain ⟨bytes, hat⟩ := (ih _ hlisted).1 hrest
        exact ⟨bytes, .inside hlisted hat⟩
      · rintro ⟨bytes, hat⟩
        cases hat with
        | inside hlisted hrest =>
            exact ⟨_, hlisted, List.mem_map_of_mem ((ih _ hlisted).2 ⟨bytes, hrest⟩)⟩

/-- Where names are distinct, no file is enumerated twice. -/
theorem nodup_filePaths (htop : WellNamed top) : top.filePaths.Nodup := by
  induction top using entries_induction with
  | file bytes => exact List.nodup_singleton []
  | special answers => exact List.nodup_nil
  | folder entries ih =>
      rw [filePaths, filePathsIn_eq_flatMap, List.nodup_flatMap]
      refine ⟨fun entry hentry => ?_, ?_⟩
      -- The paths below one entry differ behind its name, those below two entries in the name.
      · exact (ih entry hentry (htop.inside hentry)).map fun p q h => (List.cons.inj h).2
      · refine (List.pairwise_map.1 (htop [] entries (.here _)).2).imp fun {a b} hne => ?_
        intro names hleft hright
        obtain ⟨p, -, rfl⟩ := List.mem_map.1 hleft
        obtain ⟨q, -, hsame⟩ := List.mem_map.1 hright
        exact hne (List.cons.inj hsame).1.symm

/-- The search keeps what has the right extension. -/
theorem documents_eq (location : Location) (top : FileNode) :
    documents location top =
      (top.filePaths.map location.below).filter (·.extension? = some sourceExtension) := by
  induction top using entries_induction generalizing location with
  | file bytes => simp [documents, filePaths, Location.below, List.filter_cons]
  | special answers => rfl
  | folder entries ih =>
      rw [documents, documentsIn_eq_flatMap, filePaths, filePathsIn_eq_flatMap, List.map_flatMap,
        List.filter_flatMap]
      exact List.flatMap_congr fun entry hentry => by
        rw [ih entry hentry, List.map_map]
        rfl

theorem unreadable?_eq_none (location : Location) (htop : Readable location top) :
    unreadable? location top = none := by
  induction top using entries_induction generalizing location with
  | file bytes => rfl
  | special answers => rfl
  | folder entries ih =>
      have hhere : location.refusal? = none := htop [] entries (.here _)
      have hinner := (unreadableIn?_eq_none_iff location entries).2 fun entry hentry =>
        ih entry hentry _ (htop.inside hentry)
      exact (unreadable?_folder_eq_none_iff location entries).2 ⟨hhere, hinner⟩

/-! ### Documents in their order -/

/-- Lists of names that lead to different places below a folder. -/
structure ProperPaths (paths : List (List String)) : Prop where
  distinct : paths.Nodup
  names : ∀ path ∈ paths, ∀ name ∈ path, IsEntryName name

theorem WellNamed.properPaths (htop : WellNamed top) : ProperPaths top.filePaths where
  distinct := nodup_filePaths htop
  names _ hpath :=
    have ⟨_, hat⟩ := mem_filePaths_iff.1 hpath
    htop.names hat

theorem ProperPaths.perm {paths others : List (List String)} (hpaths : ProperPaths paths)
    (hperm : paths.Perm others) : ProperPaths others where
  distinct := hperm.nodup_iff.1 hpaths.distinct
  names path hpath := hpaths.names path (hperm.mem_iff.2 hpath)

/-- There is only one way to put the same names in ascending order. -/
theorem eq_of_ascending {paths others : List (List String)} (hpaths : paths.Pairwise (· < ·))
    (hothers : others.Pairwise (· < ·)) (hsame : ∀ names, names ∈ paths ↔ names ∈ others) :
    paths = others := by
  have hasymm : ∀ p q : List String, p < q → ¬ q < p := fun _ _ => List.lt_asymm
  have hne : ∀ {p q : List String}, p < q → p ≠ q := fun hlt h => List.lt_irrefl _ (h ▸ hlt)
  have hperm : paths.Perm others :=
    (List.perm_ext_iff_of_nodup (hpaths.imp hne) (hothers.imp hne)).2 hsame
  exact hperm.eq_of_pairwise (fun p q _ _ hpq hqp => absurd hqp (hasymm p q hpq)) hpaths hothers

/-- The names on the way to each document, in their order. -/
def documentPaths (location : Location) (top : FileNode) : List (List String) :=
  (top.filePaths.filter fun names =>
    (location.below names).extension? = some sourceExtension).mergeSort Location.namesLe

theorem documentPaths_ascending (location : Location) (hpaths : ProperPaths top.filePaths) :
    (documentPaths location top).Pairwise (· < ·) := by
  have hsorted : (documentPaths location top).Pairwise (Location.namesLe · · = true) :=
    List.pairwise_mergeSort Location.namesLe_trans Location.namesLe_total _
  have hdistinct : (documentPaths location top).Nodup :=
    (List.mergeSort_perm _ _).nodup_iff.2 (hpaths.distinct.filter _)
  exact (hsorted.and hdistinct).imp fun ⟨hle, hne⟩ => Location.lt_of_namesLe hle hne

/-- The search finds the documents in the order of their locations, which is that of the names. -/
theorem map_documentPaths (location : Location) (hpaths : ProperPaths top.filePaths) :
    (documentPaths location top).map location.below =
      (documents location top).mergeSort Location.le := by
  rw [documents_eq, List.filter_map, documentPaths]
  refine List.map_mergeSort fun p hp q hq => (Location.le_below location ?_ ?_).symm
  · exact hpaths.names p (List.mem_of_mem_filter hp)
  · exact hpaths.names q (List.mem_of_mem_filter hq)

theorem mem_documentPaths_iff (location : Location) (htop : WellNamed (.folder entries))
    {names : List String} :
    names ∈ documentPaths location (.folder entries) ↔ IsDocument (.folder entries) names := by
  rw [documentPaths, List.mem_mergeSort, List.mem_filter, mem_filePaths_iff, decide_eq_true_eq]
  refine and_congr_right fun ⟨bytes, hat⟩ => ?_
  have hne : names ≠ [] := by
    rintro rfl
    cases hat
  rw [Location.extension?_below_eq_some_iff location (htop.names hat) hne (by decide)]
  simp only [String.append_assoc]
  rfl

/-! ### Any order of the entries -/

theorem Relisted.filePathsIn_perm (hsame : Relisted entries others) :
    (filePathsIn entries).Perm (filePathsIn others) := by
  induction hsame with
  | perm same =>
      rw [filePathsIn_eq_flatMap, filePathsIn_eq_flatMap]
      exact same.flatMap_right _
  | inside name front back inner ih =>
      simp only [filePathsIn_eq_flatMap, List.flatMap_append, List.flatMap_cons]
      exact ((ih.map _).append_right _).append_left _
  | trans first second ihFirst ihSecond => exact ihFirst.trans ihSecond

theorem Relisted.documentPaths_eq (hsame : Relisted entries others)
    (hpaths : ProperPaths (filePathsIn entries)) (location : Location) :
    documentPaths location (.folder others) = documentPaths location (.folder entries) := by
  have hfiles := hsame.filePathsIn_perm
  refine eq_of_ascending (documentPaths_ascending location (hpaths.perm hfiles))
    (documentPaths_ascending location hpaths) fun names => ?_
  simp only [documentPaths, filePaths, List.mem_mergeSort, List.mem_filter, hfiles.mem_iff]

theorem Relisted.unreadableIn?_eq_none_iff (hsame : Relisted entries others)
    (location : Location) :
    unreadableIn? location entries = none ↔ unreadableIn? location others = none := by
  induction hsame generalizing location with
  | perm same => simp only [FileNode.unreadableIn?_eq_none_iff, same.mem_iff]
  | inside name front back inner ih =>
      simp only [FileNode.unreadableIn?_eq_none_iff location, List.forall_mem_append,
        List.forall_mem_cons, unreadable?_folder_eq_none_iff, ih]
  | trans first second ihFirst ihSecond => exact (ihFirst location).trans (ihSecond location)

end FileNode

/-! ### Finding sources -/

theorem resolveSources_of_readable {files : Files} {location : Location}
    {entries : List (String × FileNode)} (hfound : files.find location = .ok (.folder entries))
    (hreadable : FileNode.unreadableIn? location entries = none)
    (hpaths : FileNode.ProperPaths (FileNode.filePathsIn entries)) :
    resolveSources files location =
      if FileNode.documentPaths location (.folder entries) = [] then .error (.noSources location)
      else .ok ((FileNode.documentPaths location (.folder entries)).map location.below) := by
  have hsorted : (FileNode.documentPaths location (.folder entries)).map location.below =
      (FileNode.documentsIn location entries).mergeSort Location.le :=
    FileNode.map_documentPaths location hpaths
  have hempty : FileNode.documentPaths location (.folder entries) = [] ↔
      FileNode.documentsIn location entries = [] := by
    rw [← List.map_eq_nil_iff, hsorted, ← List.length_eq_zero_iff, List.length_mergeSort,
      List.length_eq_zero_iff]
  unfold resolveSources
  simp only [hfound, hreadable, hsorted, hempty]
  cases FileNode.documentsIn location entries with
  | nil => rfl
  | cons document rest => rfl

/-- A folder gives the documents below it: each one once, in the order of their names, whatever the
order in which folders list their entries. Only where there is none does the search fail. -/
theorem resolveSources_folder {files : Files} {location : Location}
    {entries : List (String × FileNode)} (hfound : files.find location = .ok (.folder entries))
    (hnamed : FileNode.WellNamed (.folder entries))
    (hreadable : FileNode.Readable location (.folder entries)) :
    ∃ paths : List (List String),
      (∀ names, names ∈ paths ↔ FileNode.IsDocument (.folder entries) names) ∧
      paths.Pairwise (· < ·) ∧
      (∀ names ∈ paths,
        (location.below names).parts = location.parts ++ names.map PathPart.name) ∧
      (paths ≠ [] → resolveSources files location = .ok (paths.map location.below)) ∧
      (resolveSources files location = .error (.noSources location) ↔
        ∀ names, ¬ FileNode.IsDocument (.folder entries) names) ∧
      ∀ (others : List (String × FileNode)) (relisted : Files),
        FileNode.Relisted entries others → relisted.find location = .ok (.folder others) →
          resolveSources relisted location = resolveSources files location := by
  have hpaths : FileNode.ProperPaths (FileNode.filePathsIn entries) := hnamed.properPaths
  have hfree : FileNode.unreadableIn? location entries = none :=
    ((FileNode.unreadable?_folder_eq_none_iff _ _).1
      (FileNode.unreadable?_eq_none location hreadable)).2
  have hresult := resolveSources_of_readable hfound hfree hpaths
  have hexact : ∀ names, names ∈ FileNode.documentPaths location (.folder entries) ↔
      FileNode.IsDocument (.folder entries) names := fun names =>
    FileNode.mem_documentPaths_iff location hnamed
  -- The paths of documents serve as the list, and the result is their locations in that order.
  refine ⟨FileNode.documentPaths location (.folder entries), hexact, ?ascending, ?parts, ?found,
    ?fails, ?relisted⟩
  case ascending => exact FileNode.documentPaths_ascending location hpaths
  case parts =>
    intro names hnames
    obtain ⟨⟨bytes, hat⟩, -⟩ := (hexact names).1 hnames
    exact Location.parts_below location (hnamed.names hat)
  case found =>
    intro hne
    rw [hresult, if_neg hne]
  case fails =>
    simp only [← hexact, ← List.eq_nil_iff_forall_not_mem]
    rw [hresult]
    split
    next hnone => simp [hnone]
    next hsome => simp [hsome]
  case relisted =>
    intro others relisted hsame hothers
    have hfree' := (hsame.unreadableIn?_eq_none_iff location).1 hfree
    rw [hresult, ← hsame.documentPaths_eq hpaths location]
    exact resolveSources_of_readable hothers hfree' (hpaths.perm hsame.filePathsIn_perm)

/-- A folder with a document that comes before another one only part by part, a folder and a device
that are named like documents, and a file with nothing in front of the extension. -/
def puzzlingFolder : List (String × FileNode) :=
  [("a.json", .file []), ("a", .folder [("z.json", .folder [("k.json", .file [])])]),
    (".json", .file []), ("pipe.json", .special ⟨.ok [], .ok ()⟩)]

theorem puzzlingFolder_wellNamed : FileNode.WellNamed (.folder puzzlingFolder) := by
  refine .folder (by decide) (by decide) ?_
  simp only [puzzlingFolder, List.forall_mem_cons]
  refine ⟨.of_leaf rfl, .folder (by decide) (by decide) ?_, .of_leaf rfl, .of_leaf rfl,
    List.forall_mem_nil _⟩
  simp only [List.forall_mem_cons]
  refine ⟨.folder (by decide) (by decide) ?_, List.forall_mem_nil _⟩
  exact List.forall_mem_singleton.2 (.of_leaf rfl)

theorem puzzlingFolder_readable : FileNode.Readable ⟨"src"⟩ (.folder puzzlingFolder) := by
  refine .folder (Location.refusal?_eq_none (by decide) (by decide)) ?_
  simp only [puzzlingFolder, List.forall_mem_cons]
  refine ⟨.of_leaf rfl, .folder (Location.refusal?_eq_none (by decide) (by decide)) ?_,
    .of_leaf rfl, .of_leaf rfl, List.forall_mem_nil _⟩
  simp only [List.forall_mem_cons]
  refine ⟨.folder (Location.refusal?_eq_none (by decide) (by decide)) ?_, List.forall_mem_nil _⟩
  exact List.forall_mem_singleton.2 (.of_leaf rfl)

theorem find_puzzlingFolder :
    (FileNode.folder [("src", .folder puzzlingFolder)]).files.find ⟨"src"⟩ =
      .ok (.folder puzzlingFolder) := by
  have hfree : Location.refusal? ⟨"src"⟩ = none :=
    Location.refusal?_eq_none (by decide) (by decide)
  have hpieces : Location.pieces ⟨"src"⟩ = [['s', 'r', 'c']] := by decide
  have hshort : ¬ longestName < "src".utf8ByteSize := by decide
  simp [FileNode.files, FileNode.find, hfree, hpieces, hshort, FileNode.Place.walk,
    FileNode.Place.step, Except.map]

theorem puzzlingFolder_sources :
    resolveSources (FileNode.folder [("src", .folder puzzlingFolder)]).files ⟨"src"⟩ =
      .ok [⟨"src/a/z.json/k.json"⟩, ⟨"src/a.json"⟩] := by
  obtain ⟨paths, hexact, hascending, -, hsources, -⟩ :=
    resolveSources_folder find_puzzlingFolder puzzlingFolder_wellNamed puzzlingFolder_readable
  have hfiles : (FileNode.folder puzzlingFolder).filePaths =
      [["a.json"], ["a", "z.json", "k.json"], [".json"]] := rfl
  have hpaths : paths = [["a", "z.json", "k.json"], ["a.json"]] := by
    refine FileNode.eq_of_ascending hascending (by decide) fun names => ?_
    rw [hexact, FileNode.IsDocument, ← FileNode.mem_filePaths_iff, hfiles]
    simp only [List.mem_cons, List.not_mem_nil, or_false]
    constructor
    · rintro ⟨rfl | rfl | rfl, folders, stem, hstem, hnames⟩
      · exact .inr rfl
      · exact .inl rfl
      · -- Nothing is left in front of the extension.
        have hlast : some ".json" = some (stem ++ ".json") :=
          (congrArg List.getLast? hnames).trans List.getLast?_concat
        have hlength := congrArg String.length (Option.some.inj hlast)
        rw [String.length_append] at hlength
        exact absurd (String.length_eq_zero_iff.1 (Nat.right_eq_add.1 hlength)) hstem
    · rintro (rfl | rfl)
      · exact ⟨by decide, ["a", "z.json"], "k", by decide, by decide⟩
      · exact ⟨by decide, [], "a", by decide, by decide⟩
  have hlocations : paths.map (Location.below ⟨"src"⟩) =
      [⟨"src/a/z.json/k.json"⟩, ⟨"src/a.json"⟩] := by
    rw [hpaths]
    decide
  rw [hsources (by simp [hpaths]), hlocations]

end DocScript
