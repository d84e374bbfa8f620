import MustacheMarkup.File.Tree
import MustacheMarkup.Proofs.File.Path

/-!
# Writing a file

Whatever is there stands in directories (`entry?_above`), and a path leads to a name only from a
directory (`inDirectories_of_place?`). So to write where a path leads gives one name a content and
leaves all others as they were (`entry?_of_write`). Where the path beside a file leads is read off
the place of the file: to the new name in the same directory (`exists_place_beside`), whether the
path is absolute or relative, and whether or not it passes through `..`.
-/

set_option autoImplicit false

namespace MustacheMarkup.FileTree

variable {tree : FileTree} {names : List String}

/-! ## Directories -/

/-- Something stands below some names if and only if an entry has more names than these. -/
theorem hasBelow_iff :
    tree.hasBelow names = true ↔ ∃ e ∈ tree.entries, names <+: e.1 ∧ names ≠ e.1 := by
  simp [hasBelow, List.any_eq_true]

/-- The root is a directory, and so is what something stands in. All else is what it is
listed as. -/
theorem entry?_cases (tree : FileTree) (names : List String) :
    (names = [] ∨ tree.hasBelow names = true) ∧ tree.entry? names = some .directory ∨
      names ≠ [] ∧ tree.hasBelow names = false ∧
        tree.entry? names = tree.entries.lookup names := by
  unfold entry?
  split
  · rename_i h
    rw [Bool.or_eq_true, List.isEmpty_iff] at h
    exact .inl ⟨h, rfl⟩
  · rename_i h
    rw [Bool.or_eq_true, List.isEmpty_iff, not_or, Bool.not_eq_true] at h
    exact .inr ⟨h.1, h.2, rfl⟩

/-- What something stands in is a directory, whatever it is listed as. -/
theorem entry?_of_hasBelow (h : tree.hasBelow names = true) :
    tree.entry? names = some .directory := by
  unfold entry?
  rw [h, Bool.or_true, if_pos rfl]

/-- Whatever is there, what is on the way to it is a directory. -/
theorem entry?_above {front : List String} (hentry : tree.entry? names ≠ none)
    (hfront : front <+: names) (hne : front ≠ names) : tree.entry? front = some .directory := by
  have hbelow : ∀ e ∈ tree.entries, names <+: e.1 → tree.entry? front = some .directory := by
    refine fun e hmem hnames =>
      entry?_of_hasBelow (hasBelow_iff.mpr ⟨e, hmem, hfront.trans hnames, ?_⟩)
    rintro rfl
    exact hne (hfront.eq_of_length_le hnames.length_le)
  rcases entry?_cases tree names with ⟨rfl | hnames, -⟩ | ⟨-, -, hlookup⟩
  · exact absurd (List.prefix_nil.mp hfront) hne
  · obtain ⟨e, hmem, hway, -⟩ := hasBelow_iff.mp hnames
    exact hbelow e hmem hway
  · rw [hlookup] at hentry
    obtain ⟨entry, hentry⟩ := Option.ne_none_iff_exists'.mp hentry
    obtain ⟨before, after, hentries, -⟩ := List.lookup_eq_some_iff.mp hentry
    exact hbelow (names, entry) (by rw [hentries]; simp) List.prefix_rfl

/-- What is looked up as a directory is one. -/
theorem isDirectory_iff : tree.isDirectory names = true ↔ tree.entry? names = some .directory := by
  unfold isDirectory
  split
  · rename_i heq
    simp [heq]
  · rename_i hne
    simp only [Bool.false_eq_true, false_iff]
    exact hne

/-- What is on the way to some names is there, and consists of directories. -/
def InDirectories (tree : FileTree) (names : List String) : Prop :=
  ∀ front, front <+: names → front ≠ names → tree.entry? front = some .directory

/-! ## Walking -/

/-- A part of a path that names nothing leads nowhere else. -/
theorem go_of_not_named {name : List Char} (h : Path.isNamed name = false) (names : List String) :
    go names name = names := by
  unfold go
  rw [if_pos]
  rw [Path.isNamed, Bool.and_eq_false_iff, bne_eq_false_iff_eq, bne_eq_false_iff_eq] at h
  exact h

/-- A name leads to what has this name in the directory. -/
theorem go_of_named {name : List Char} (h : Path.isNamed name = true) (hup : name ≠ ['.', '.'])
    (names : List String) : go names name = names ++ [String.ofList name] := by
  unfold go
  rw [if_neg, if_neg hup]
  rw [Path.isNamed, Bool.and_eq_true, bne_iff_ne, bne_iff_ne] at h
  rintro (hnil | hdot)
  · exact h.1 hnil
  · exact h.2 hdot

/-- One step leads from a directory to a place all the way to which is made of directories: to the
directory itself, to the one above, or to a name in it. -/
theorem inDirectories_go (h : tree.entry? names = some .directory) (name : List Char) :
    tree.InDirectories (go names name) := by
  have hthere : tree.entry? names ≠ none := by simp [h]
  have hin : tree.InDirectories names := fun front hfront hne => entry?_above hthere hfront hne
  unfold go
  split
  · exact hin
  · split
    · intro front hfront hne
      refine hin front (hfront.trans (List.dropLast_prefix names)) ?_
      rintro rfl
      exact hne (hfront.eq_of_length_le (List.dropLast_prefix front).length_le)
    · intro front hfront hne
      rcases List.prefix_concat_iff.mp hfront with heq | hfront
      · exact absurd heq hne
      · by_cases heq : front = names
        · rw [heq]
          exact h
        · exact hin front hfront heq

/-- A walk over some parts and then others goes on from where the first ones lead. -/
theorem walk_append (tree : FileTree) (names : List String) (parts parts' : List (List Char)) :
    tree.walk names (parts ++ parts') =
      (tree.walk names parts).bind fun next => tree.walk next parts' := by
  induction parts generalizing names with
  | nil => rfl
  | cons name parts ih =>
    rw [List.cons_append, walk, walk]
    split
    · exact ih _
    · rfl

/-- The last step of a walk starts in a directory. -/
theorem walk_concat_eq_some {start last : List String} {parts : List (List Char)}
    {name : List Char} :
    tree.walk start (parts ++ [name]) = some last ↔ ∃ next, tree.walk start parts = some next ∧
      tree.isDirectory next = true ∧ go next name = last := by
  rw [walk_append, Option.bind_eq_some_iff]
  refine exists_congr fun next => and_congr_right fun _ => ?_
  rw [walk]
  split
  · rename_i hdirectory
    simp [hdirectory, walk]
  · rename_i hdirectory
    simp [hdirectory]

/-- A walk leads on from directories only. -/
theorem walk_of_not_directory (h : tree.isDirectory names = false) {parts : List (List Char)}
    (hne : parts ≠ []) : tree.walk names parts = none := by
  obtain ⟨name, parts, rfl⟩ := List.exists_cons_of_ne_nil hne
  rw [walk, h, if_neg Bool.false_ne_true]

/-- A walk that goes on passes over parts that name nothing. With a part behind them such parts
still ask for a directory, but so does that last part. -/
theorem walk_filter_concat (tree : FileTree) (names : List String) (parts : List (List Char))
    (name : List Char) : tree.walk names (parts.filter Path.isNamed ++ [name]) =
      tree.walk names (parts ++ [name]) := by
  induction parts generalizing names with
  | nil => rfl
  | cons first parts ih =>
    cases hfirst : Path.isNamed first with
    | true =>
      rw [List.filter_cons_of_pos hfirst, List.cons_append, List.cons_append, walk, walk]
      split
      · exact ih _
      · rfl
    | false =>
      rw [List.filter_cons_of_neg (by simp [hfirst]), List.cons_append, walk,
        go_of_not_named hfirst]
      cases hdirectory : tree.isDirectory names with
      | true => exact ih names
      | false =>
        exact walk_of_not_directory hdirectory
          (List.append_ne_nil_of_right_ne_nil _ (List.cons_ne_nil _ _))

/-! ## Where a path leads -/

/-- Where a path with characters leads is where a walk over its parts leads. -/
theorem place?_of_ne_nil {path : String} (h : path.toList ≠ []) :
    tree.place? path = tree.walk (tree.origin path) (Path.parts path.toList) := by
  have hempty : ¬path.isEmpty = true := by
    rw [String.isEmpty_iff]
    rintro rfl
    exact h rfl
  unfold place?
  rw [if_neg hempty]

/-- What a path leads to is reached from a directory, by the last part of the path. -/
theorem exists_directory_of_place? {path : String} (h : tree.place? path = some names) :
    ∃ front last directory, Path.parts path.toList = front ++ [last] ∧
      tree.walk (tree.origin path) front = some directory ∧
      tree.entry? directory = some .directory ∧ go directory last = names := by
  obtain ⟨front, last, hparts⟩ : ∃ front last, Path.parts path.toList = front ++ [last] :=
    ⟨_, _, (List.dropLast_concat_getLast (Path.parts_ne_nil path.toList)).symm⟩
  unfold place? at h
  split at h
  · cases h
  · rw [hparts, walk_concat_eq_some] at h
    obtain ⟨directory, hwalk, hdirectory, hgo⟩ := h
    exact ⟨front, last, directory, hparts, hwalk, isDirectory_iff.mp hdirectory, hgo⟩

/-- A path leads to what stands in directories, all the way from the root. -/
theorem inDirectories_of_place? {path : String} (h : tree.place? path = some names) :
    tree.InDirectories names := by
  obtain ⟨_, last, directory, -, -, hdirectory, rfl⟩ := exists_directory_of_place? h
  exact inDirectories_go hdirectory last

/-- What is read is the content of a file that a path leads to, and the system lets it be read. The
limits on the length of names hold then, but not of the path beside it. -/
theorem entry?_of_read {path : String} {content : ByteArray} (h : tree.read path = .ok content) :
    isTooLong path = false ∧ ∃ names, tree.place? path = some names ∧
      tree.entry? names = some (.file content) ∧ tree.readFault names = none := by
  unfold read at h
  split at h
  · cases h
  · rename_i hlong
    refine ⟨Bool.not_eq_true _ ▸ hlong, ?_⟩
    split at h
    · cases h
    · rename_i names hplace
      split at h
      · cases h
      · cases h
      · cases h
      · rename_i hentry hfault
        cases h
        exact ⟨names, hplace, hentry, hfault⟩

/-- The last step to a file is to a name in a directory: all else leads to a directory. -/
theorem named_of_go_file {directory : List String} {last : List Char} {content : ByteArray}
    (hdirectory : tree.entry? directory = some .directory)
    (hentry : tree.entry? (go directory last) = some (.file content)) :
    Path.isNamed last = true ∧ last ≠ ['.', '.'] := by
  have hother : tree.entry? (go directory last) ≠ some .directory := by simp [hentry]
  constructor
  · rw [← Bool.not_eq_false]
    intro hnamed
    rw [go_of_not_named hnamed] at hother
    exact hother hdirectory
  · rintro rfl
    have hup : go directory ['.', '.'] = directory.dropLast := rfl
    rw [hup] at hother
    by_cases heq : directory.dropLast = directory
    · exact hother (heq.symm ▸ hdirectory)
    · exact hother (entry?_above (by simp [hdirectory]) (List.dropLast_prefix directory) heq)

/-- The name of the file beside one of this name. -/
def besideName (extension name : String) : String :=
  String.ofList (Path.nameWith extension name.toList)

/-- Beside a file there is a path, and it leads to the new name in the directory of the file. Only
the last part of the path is another, so the walk goes through the same directories. -/
theorem exists_place_beside {extension path : String} (hextension : Path.IsExtension extension)
    {content : ByteArray} (h : tree.read path = .ok content) :
    ∃ (directory : List String) (name output : String),
      tree.place? path = some (directory ++ [name]) ∧
      tree.entry? (directory ++ [name]) = some (.file content) ∧
      Path.besideWith extension path = some output ∧
      tree.place? output = some (directory ++ [besideName extension name]) := by
  obtain ⟨-, names, hplace, hentry, -⟩ := entry?_of_read h
  obtain ⟨front, last, directory, hparts, hwalk, hdirectory, rfl⟩ :=
    exists_directory_of_place? hplace
  obtain ⟨hnamed, hup⟩ := named_of_go_file hdirectory hentry
  rw [go_of_named hnamed hup] at hplace hentry
  obtain ⟨output, front', houtput, habsolute, hparts', hfilter⟩ :=
    Path.exists_besideWith hextension hparts hnamed hup
  refine ⟨directory, String.ofList last, output, hplace, hentry, houtput, ?_⟩
  obtain ⟨hnamed', hup'⟩ := Path.isNamed_nameWith hextension last
  have hne : output.toList ≠ [] := by
    intro hnil
    have hempty : Path.parts [] = [] ++ [[]] := rfl
    rw [hnil, hempty] at hparts'
    rw [← (List.singleton_inj.mp (List.append_inj' hparts' rfl).2)] at hnamed'
    cases hnamed'
  have horigin : tree.origin output = tree.origin path := by
    unfold origin
    rw [habsolute]
  rw [place?_of_ne_nil hne, horigin, hparts', ← walk_filter_concat, hfilter, walk_filter_concat]
  refine walk_concat_eq_some.mpr ⟨directory, hwalk, isDirectory_iff.mpr hdirectory, ?_⟩
  rw [go_of_named hnamed' hup', besideName, String.toList_ofList]

/-! ## Giving names a content -/

/-- Other names are listed as they were, whether the content takes the place of an entry or is
listed behind all others. -/
theorem lookup_put {names' : List String} (hne : names' ≠ names) (content : ByteArray) :
    (tree.put names content).entries.lookup names' = tree.entries.lookup names' := by
  have hbeq : (names' == names) = false := beq_eq_false_iff_ne.mpr hne
  unfold put
  dsimp only
  split
  · induction tree.entries with
    | nil => rfl
    | cons e entries ih =>
      obtain ⟨key, entry⟩ := e
      rw [List.map_cons]
      by_cases hkey : key = names
      · rw [if_pos hkey, List.lookup_cons, List.lookup_cons, hkey, hbeq, ih]
      · rw [if_neg hkey, List.lookup_cons, List.lookup_cons, ih]
  · rw [List.lookup_append, List.lookup_cons, hbeq]
    simp

/-- The names that were given a content are listed with it. If they were listed before, it is the
first such entry that counts, and all of them are changed. -/
theorem lookup_put_self (names : List String) (content : ByteArray) :
    (tree.put names content).entries.lookup names = some (.file content) := by
  unfold put
  dsimp only
  split
  · rename_i hsome
    generalize tree.entries = entries at hsome ⊢
    induction entries with
    | nil => cases hsome
    | cons e entries ih =>
      obtain ⟨key, entry⟩ := e
      rw [List.map_cons]
      by_cases hkey : key = names
      · rw [if_pos hkey, List.lookup_cons_self]
      · have hbeq : (names == key) = false := beq_eq_false_iff_ne.mpr (Ne.symm hkey)
        rw [List.lookup_cons, hbeq] at hsome
        rw [if_neg hkey, List.lookup_cons, hbeq]
        exact ih hsome
  · rename_i hnone
    rw [Bool.not_eq_true, Option.isSome_eq_false_iff, Option.isNone_iff_eq_none] at hnone
    rw [List.lookup_append, hnone, List.lookup_cons_self]
    rfl

/-- Below other names stands what stood there, and if these lead to the new content on the way, then
that too. -/
theorem hasBelow_put (tree : FileTree) (names names' : List String) (content : ByteArray) :
    (tree.put names content).hasBelow names' = true ↔ tree.hasBelow names' = true ∨
      tree.entries.lookup names = none ∧ names' <+: names ∧ names' ≠ names := by
  unfold put hasBelow
  dsimp only
  split
  · rename_i hsome
    have hkeys : ∀ e : List String × Entry,
        (if e.1 = names then (names, Entry.file content) else e).1 = e.1 := by
      intro e
      split
      · rename_i hkey
        exact hkey.symm
      · rfl
    rw [List.any_map]
    simp only [Function.comp_def, hkeys]
    simp [Option.ne_none_iff_isSome.mpr hsome]
  · rename_i hnone
    rw [Bool.not_eq_true, Option.isSome_eq_false_iff, Option.isNone_iff_eq_none] at hnone
    rw [List.any_append, Bool.or_eq_true]
    simp [hnone]

/-- To give a content to names that lead to no directory changes what these lead to, and nothing
else. -/
theorem entry?_put (hin : tree.InDirectories names) (hother : tree.entry? names ≠ some .directory)
    (content : ByteArray) (names' : List String) : entry? (tree.put names content) names' =
      if names' = names then some (.file content) else tree.entry? names' := by
  have hbelow := hasBelow_put tree names names' content
  split
  · rename_i heq
    subst heq
    obtain ⟨hne, hnone, -⟩ := (entry?_cases tree names').resolve_left fun h => hother h.2
    rcases entry?_cases (tree.put names' content) names' with ⟨hnil | hput, -⟩ | ⟨-, -, hlookup⟩
    · exact absurd hnil hne
    · rw [hbelow, hnone] at hput
      simp at hput
    · rw [hlookup, lookup_put_self]
  · rename_i hne
    by_cases hway : names' <+: names
    · -- on the way to the new content there are directories already
      have hdirectory := hin names' hway hne
      rw [hdirectory]
      rcases entry?_cases (tree.put names content) names' with ⟨-, hput⟩ | ⟨hnil, hput, hlookup⟩
      · exact hput
      · have hkept : tree.hasBelow names' = false := by
          rw [← Bool.not_eq_true] at hput ⊢
          exact fun h => hput (hbelow.mpr (.inl h))
        rw [hlookup, lookup_put hne, ← hdirectory]
        obtain ⟨hcases, -⟩ | ⟨-, -, hlookup'⟩ := entry?_cases tree names'
        · rw [hkept] at hcases
          exact absurd hcases (by simp [hnil])
        · exact hlookup'.symm
    · have hkept : (tree.put names content).hasBelow names' = tree.hasBelow names' := by
        rw [Bool.eq_iff_iff, hbelow]
        simp [hway]
      unfold entry?
      rw [hkept, lookup_put hne]

/-! ## Writing -/

/-- To write where a path leads changes that and nothing else. The path leads there through
directories, so no directory comes into being on the way. -/
theorem entry?_of_write {tree' : FileTree} {path : String} {content : ByteArray}
    (h : tree.write path content = .ok tree') :
    ∃ names, tree.place? path = some names ∧ tree.entry? names ≠ some .directory ∧
      tree' = tree.put names content ∧
      ∀ names', tree'.entry? names' =
        if names' = names then some (.file content) else tree.entry? names' := by
  unfold write at h
  split at h
  · cases h
  · split at h
    · cases h
    · rename_i names hplace
      split at h
      · cases h
      · cases h
      · rename_i hother
        cases h
        exact ⟨names, hplace, hother, rfl,
          entry?_put (inDirectories_of_place? hplace) hother content⟩

/-- A write makes no directory and takes none away, so all walks go as before. -/
theorem isDirectory_of_write {tree' : FileTree} {path : String} {content : ByteArray}
    (h : tree.write path content = .ok tree') (names : List String) :
    tree'.isDirectory names = tree.isDirectory names := by
  obtain ⟨names', -, hother, -, hentry⟩ := entry?_of_write h
  rw [Bool.eq_iff_iff, isDirectory_iff, isDirectory_iff, hentry]
  split
  · rename_i heq
    rw [heq]
    exact ⟨nofun, fun h => absurd h hother⟩
  · exact Iff.rfl

/-- Paths lead where they led before. -/
theorem place?_of_write {tree' : FileTree} {path : String} {content : ByteArray}
    (h : tree.write path content = .ok tree') (path' : String) :
    tree'.place? path' = tree.place? path' := by
  obtain ⟨names, -, -, rfl, -⟩ := entry?_of_write h
  have hwalk : ∀ start parts,
      (tree.put names content).walk start parts = tree.walk start parts := by
    intro start parts
    induction parts generalizing start with
    | nil => rfl
    | cons name parts ih => rw [walk, walk, isDirectory_of_write h, ih]
  unfold place?
  rw [hwalk]
  rfl

/-- What can be read after a write: the new content where the path leads, and all else as before. -/
theorem read_of_write {tree' : FileTree} {path path' : String} {content content' : ByteArray}
    (hwrite : tree.write path content = .ok tree') (hread : tree.read path' = .ok content') :
    tree'.read path' =
      .ok (if tree.place? path' = tree.place? path then content else content') := by
  have hplaces := place?_of_write hwrite path'
  obtain ⟨names, hplace, -, rfl, hentry⟩ := entry?_of_write hwrite
  obtain ⟨hlong, names', hplace', hentry', hfault⟩ := entry?_of_read hread
  have hfault' : (tree.put names content).readFault names' = none := hfault
  unfold read
  rw [hlong, if_neg Bool.false_ne_true, hplaces, hplace', hplace]
  dsimp only
  rw [hentry names', hfault', hentry']
  by_cases heq : names' = names
  · rw [if_pos heq, if_pos (congrArg some heq)]
  · rw [if_neg heq, if_neg (mt Option.some.inj heq)]

end MustacheMarkup.FileTree
