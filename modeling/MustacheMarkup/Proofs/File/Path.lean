import Mathlib.Data.List.TakeWhile
import MustacheMarkup.File.Path

/-!
# The path beside a file

Where a path leads is decided by its parts that name something: an empty part and a `.` lead nowhere
else (`isNamed`). The path that `besideWith` gives has the same such parts as the path of the file,
but for the last one, which is the new name, and starts from the root if that does
(`exists_besideWith`). The text of the path may well differ before its last slash, because slashes
and dots that lead nowhere are dropped there.
-/

set_option autoImplicit false

namespace MustacheMarkup.Path

/-- Whether a part of a path names something. -/
def isNamed (part : List Char) : Bool :=
  part != [] && part != ['.']

/-- The parts of a path that name something. -/
def named (path : List Char) : List (List Char) :=
  (parts path).filter isNamed

/-- Whether a path starts from the root is said by its first character. -/
theorem isAbsolute_eq_decide (path : List Char) :
    isAbsolute path = decide (path.head? = some '/') := by
  unfold isAbsolute
  split
  · rfl
  · rename_i hslash
    refine (decide_eq_false fun hhead => ?_).symm
    obtain ⟨rest, hrest⟩ := List.head?_eq_some_iff.mp hhead
    exact hslash rest hrest

/-- What stands behind the start of a path does not move it. -/
theorem isAbsolute_append {front : List Char} (hne : front ≠ []) (rest : List Char) :
    isAbsolute (front ++ rest) = isAbsolute front := by
  obtain ⟨c, more, rfl⟩ := List.exists_cons_of_ne_nil hne
  rw [isAbsolute_eq_decide, isAbsolute_eq_decide]
  rfl

/-- A path without slashes starts from the working directory. -/
theorem isAbsolute_of_not_mem {path : List Char} (h : '/' ∉ path) : isAbsolute path = false := by
  rw [isAbsolute_eq_decide]
  exact decide_eq_false fun hhead => h (List.mem_of_head? hhead)

/-! ## Parts -/

/-- Even the empty path has a part, the empty one. So there is always a last part. -/
theorem parts_ne_nil (path : List Char) : parts path ≠ [] := by
  cases path with
  | nil => exact List.cons_ne_nil _ _
  | cons c rest =>
    rw [parts]
    split
    · exact List.cons_ne_nil _ _
    · split <;> exact List.cons_ne_nil _ _

/-- The parts of two paths with a slash between them are those of the one and those of the other. -/
theorem parts_append (path path' : List Char) :
    parts (path ++ '/' :: path') = parts path ++ parts path' := by
  induction path with
  | nil => simp [parts]
  | cons c rest ih =>
    rw [List.cons_append, parts, parts, ih]
    split
    · rfl
    · cases hrest : parts rest with
      | nil => exact absurd hrest (parts_ne_nil rest)
      | cons name names => rfl

/-- Without a slash there is one part. -/
theorem parts_of_not_mem {name : List Char} (h : '/' ∉ name) : parts name = [name] := by
  induction name with
  | nil => rfl
  | cons c rest ih =>
    obtain ⟨hc, hrest⟩ := List.ne_and_not_mem_of_not_mem_cons h
    rw [parts, if_neg (Ne.symm hc), ih hrest]

/-- A path ends with its last part. -/
theorem exists_last_part (path : List Char) : ∃ last, '/' ∉ last ∧
    (path = last ∨ ∃ front, path = front ++ '/' :: last) := by
  by_cases h : '/' ∈ path
  · obtain ⟨last, front, hreverse, hlast⟩ :=
      List.eq_append_cons_of_mem (List.mem_reverse.mpr h)
    refine ⟨last.reverse, by rwa [List.mem_reverse], .inr ⟨front.reverse, ?_⟩⟩
    rw [← List.reverse_reverse path, hreverse]
    simp
  · exact ⟨path, h, .inl rfl⟩

/-- A slash parts the names on its two sides. -/
theorem named_append (path path' : List Char) :
    named (path ++ '/' :: path') = named path ++ named path' := by
  rw [named, parts_append, List.filter_append]
  rfl

/-! ## Parts that name nothing -/

/-- Only parts that name nothing are dropped. -/
theorem named_dropNameless (path : List Char) :
    named (dropNameless path).reverse = named path.reverse := by
  fun_induction dropNameless path with
  | case1 rest ih =>
    have hempty : named [] = [] := rfl
    rw [ih, List.reverse_cons, named_append, hempty, List.append_nil]
  | case2 => rfl
  | case3 rest ih =>
    have hdot : named ['.'] = [] := rfl
    rw [ih, List.reverse_cons, List.reverse_cons, List.append_assoc, List.singleton_append,
      named_append, hdot, List.append_nil]
  | case4 => rfl

/-- What names nothing is dropped at the end of a path only. The path is in reverse here, so the
rest is a suffix. -/
theorem dropNameless_suffix (path : List Char) : dropNameless path <:+ path := by
  fun_induction dropNameless path with
  | case1 rest ih => exact ih.trans (List.suffix_cons _ _)
  | case2 => exact List.nil_suffix
  | case3 rest ih => exact (ih.trans (List.suffix_cons _ _)).trans (List.suffix_cons _ _)
  | case4 => exact List.suffix_rfl

/-- After the drop the path does not end with a slash. -/
theorem head?_dropNameless (path : List Char) : (dropNameless path).head? ≠ some '/' := by
  fun_induction dropNameless path with
  | case1 rest ih => exact ih
  | case2 => simp
  | case3 rest ih => exact ih
  | case4 path hslash _ _ =>
    intro hhead
    obtain ⟨rest, hrest⟩ := List.head?_eq_some_iff.mp hhead
    exact hslash rest hrest

/-- Behind a name nothing is dropped. In reverse the name comes first, and it is neither empty nor a
dot, so the search for what names nothing stops at once. -/
theorem dropNameless_of_named {name : List Char} (hslash : '/' ∉ name)
    (hname : isNamed name = true) (rest : List Char) :
    dropNameless (name.reverse ++ rest) = name.reverse ++ rest := by
  have hslash' : '/' ∉ name.reverse := by rwa [List.mem_reverse]
  have hname' : name.reverse ≠ [] ∧ name.reverse ≠ ['.'] := by
    rw [isNamed, Bool.and_eq_true, bne_iff_ne, bne_iff_ne] at hname
    refine ⟨fun h => hname.1 (List.reverse_eq_nil_iff.mp h), fun h => hname.2 ?_⟩
    rw [← List.reverse_reverse name, h]
    rfl
  generalize name.reverse = s at hslash' hname'
  match s, hname' with
  | [c], hname' =>
    have hc : c ≠ '.' := fun h => hname'.2 (by rw [h])
    have hc' : c ≠ '/' := fun h => hslash' (by rw [h]; exact List.mem_cons_self)
    exact dropNameless.eq_4 _ (fun _ h => hc' (List.cons.inj h).1)
      (fun h => hc (List.cons.inj h).1) (fun _ h => hc (List.cons.inj h).1)
  | c :: d :: s, _ =>
    have hc : c ≠ '/' := fun h => hslash' (by rw [h]; exact List.mem_cons_self)
    have hd : d ≠ '/' := fun h => hslash' (by rw [h]; simp)
    exact dropNameless.eq_4 _ (fun _ h => hc (List.cons.inj h).1)
      (fun h => absurd (List.cons.inj h).2 (List.cons_ne_nil _ _))
      (fun _ h => hd (List.cons.inj (List.cons.inj h).2).1)

/-! ## The name and the directory -/

/-- What a path starts with, up to its last slash: a slash, or a `.` before a slash, or neither. The
rest of the path is what is looked through for parts that name nothing. -/
theorem root_of_slash {front : List Char} (hne : front ≠ []) (name : List Char) :
    ∃ start rest, root (front ++ '/' :: name) = start ∧ front = start ++ rest ∧
      (start = [] ∧ isAbsolute front = false ∨ start = ['/'] ∨
        start = ['.'] ∧ (rest = [] ∨ ∃ more, rest = '/' :: more)) := by
  obtain ⟨c, more, rfl⟩ := List.exists_cons_of_ne_nil hne
  rw [List.cons_append]
  generalize hrest : more ++ '/' :: name = behind
  unfold root
  split
  · rename_i heq
    obtain ⟨rfl, -⟩ := List.cons.inj heq
    exact ⟨_, more, rfl, rfl, .inr (.inl rfl)⟩
  · rename_i heq
    rw [(List.cons.inj heq).2] at hrest
    exact absurd hrest (List.append_ne_nil_of_right_ne_nil _ (List.cons_ne_nil _ _))
  · rename_i heq
    obtain ⟨rfl, hbehind⟩ := List.cons.inj heq
    refine ⟨_, more, rfl, rfl, .inr (.inr ⟨rfl, ?_⟩)⟩
    cases more with
    | nil => exact .inl rfl
    | cons d more =>
      rw [hbehind] at hrest
      obtain ⟨rfl, -⟩ := List.cons.inj hrest
      exact .inr ⟨more, rfl⟩
  · rename_i hslash _ _
    refine ⟨[], c :: more, rfl, rfl, .inl ⟨rfl, ?_⟩⟩
    unfold isAbsolute
    split
    · rename_i heq
      exact absurd (congrArg (· :: behind) (List.cons.inj heq).1) (hslash behind)
    · rfl

/-- A dot at the very start is kept, but it names nothing. -/
theorem named_dot {path : List Char} (h : path = [] ∨ ∃ more, path = '/' :: more) :
    named ('.' :: path) = named path := by
  rcases h with rfl | ⟨more, rfl⟩
  · rfl
  · exact (named_append ['.'] more).trans (named_append [] more).symm

/-- A list is read back from its end up to a character that it does not have, and what stands before
it is left. -/
theorem takeWhile_reverse_append {mark : Char} {name behind : List Char} (hmark : mark ∉ name)
    (hbehind : behind = [] ∨ ∃ rest, behind = mark :: rest) :
    (name.reverse ++ behind).takeWhile (· != mark) = name.reverse ∧
      (name.reverse ++ behind).dropWhile (· != mark) = behind := by
  have hplain : ∀ c ∈ name.reverse, (c != mark) = true := by
    intro c hc
    rw [bne_iff_ne]
    rintro rfl
    exact hmark (List.mem_reverse.mp hc)
  rw [List.takeWhile_append_of_pos hplain, List.dropWhile_append_of_pos hplain]
  rcases hbehind with rfl | ⟨rest, rfl⟩
  · exact ⟨List.append_nil _, rfl⟩
  · rw [List.takeWhile_cons_of_neg (by simp), List.dropWhile_cons_of_neg (by simp)]
    exact ⟨List.append_nil _, rfl⟩

/-- The last name of a path stands at its end, behind a slash or behind where the path starts. What
names nothing is dropped before that slash, and the start is kept. -/
theorem split_of_reverse {path : String} {start name behind : List Char}
    (hstart : root path.toList = start)
    (hreverse : (path.toList.drop start.length).reverse = name.reverse ++ behind)
    (hbehind : behind = [] ∨ ∃ rest, behind = '/' :: rest) (hslash : '/' ∉ name)
    (hname : isNamed name = true) :
    split path = (name, start ++ (dropNameless (behind.drop 1)).reverse) := by
  obtain ⟨hlast, hbefore⟩ := takeWhile_reverse_append hslash hbehind
  unfold split
  rw [hstart]
  dsimp only
  rw [hreverse, dropNameless_of_named hslash hname, hlast, hbefore, List.reverse_reverse]

/-- The last name of a path is what stands behind its last slash. -/
theorem split_eq {path : String} {start rest name : List Char}
    (hpath : path.toList = start ++ (rest ++ '/' :: name)) (hstart : root path.toList = start)
    (hslash : '/' ∉ name) (hname : isNamed name = true) :
    split path = (name, start ++ (dropNameless rest.reverse).reverse) := by
  have hreverse : (path.toList.drop start.length).reverse =
      name.reverse ++ '/' :: rest.reverse := by
    rw [hpath, List.drop_left]
    simp
  exact split_of_reverse hstart hreverse (.inr ⟨_, rfl⟩) hslash hname

/-- A slash at the start names nothing. -/
theorem named_slash (path : List Char) : named ('/' :: path) = named path :=
  named_append [] path

/-- What is kept of a directory's path leads where all of it leads. -/
theorem named_append_kept {start rest kept : List Char} (hkept : kept <+: rest)
    (hnamed : named kept = named rest)
    (hstart : start = [] ∨ start = ['/'] ∨
      start = ['.'] ∧ (rest = [] ∨ ∃ more, rest = '/' :: more)) :
    named (start ++ kept) = named (start ++ rest) := by
  rcases hstart with rfl | rfl | ⟨rfl, hrest⟩
  · exact hnamed
  · exact (named_slash kept).trans (hnamed.trans (named_slash rest).symm)
  · have hkept' : kept = [] ∨ ∃ more, kept = '/' :: more := by
      obtain ⟨gone, rfl⟩ := hkept
      cases kept with
      | nil => exact .inl rfl
      | cons c kept =>
        obtain hnil | ⟨more, hmore⟩ := hrest
        · cases hnil
        · exact .inr ⟨kept, by rw [(List.cons.inj hmore).1]⟩
    exact (named_dot hkept').trans (hnamed.trans (named_dot hrest).symm)

/-- A name behind the first slash stands in the root. -/
theorem split_of_root {path : String} {name : List Char} (hpath : path.toList = '/' :: name)
    (hslash : '/' ∉ name) (hname : isNamed name = true) : split path = (name, ['/']) := by
  have hstart : root path.toList = ['/'] := by rw [hpath, root]
  have hreverse : (path.toList.drop 1).reverse = name.reverse ++ [] := by
    rw [hpath, List.append_nil]
    rfl
  exact split_of_reverse hstart hreverse (.inl rfl) hslash hname

/-- The last name of a path is what stands behind its last slash, and the directory leads where what
stands before that slash leads. It ends with a slash only if it is the root. -/
theorem split_of_slash {path : String} {front name : List Char}
    (hpath : path.toList = front ++ '/' :: name) (hslash : '/' ∉ name)
    (hname : isNamed name = true) :
    ∃ directory, split path = (name, directory) ∧
      isAbsolute directory = isAbsolute path.toList ∧
      (directory.getLast? = some '/' → directory = ['/']) ∧ named directory = named front := by
  by_cases hne : front = []
  · subst hne
    exact ⟨['/'], split_of_root hpath hslash hname, by rw [hpath]; rfl, fun _ => rfl, rfl⟩
  · obtain ⟨start, rest, hstart, rfl, hcases⟩ := root_of_slash hne name
    rw [← hpath] at hstart
    have hkept : (dropNameless rest.reverse).reverse <+: rest := by
      rw [← List.reverse_suffix, List.reverse_reverse]
      exact dropNameless_suffix rest.reverse
    have hend : (dropNameless rest.reverse).reverse.getLast? ≠ some '/' := by
      rw [List.getLast?_reverse]
      exact head?_dropNameless rest.reverse
    have hnamed : named (dropNameless rest.reverse).reverse = named rest := by
      rw [named_dropNameless, List.reverse_reverse]
    have hsplit := split_eq (hpath.trans (List.append_assoc _ _ _)) hstart hslash hname
    generalize (dropNameless rest.reverse).reverse = kept at hkept hend hnamed hsplit
    refine ⟨start ++ kept, hsplit, ?_, fun hlast => ?_, named_append_kept hkept hnamed ?_⟩
    · -- the first character of the directory, if it has any, is that of the path
      rw [hpath, isAbsolute_append hne]
      rcases hcases with ⟨rfl, hrelative⟩ | rfl | ⟨rfl, -⟩
      · obtain ⟨gone, rfl⟩ := hkept
        cases kept with
        | nil => exact hrelative.symm
        | cons c kept => exact (isAbsolute_append (List.cons_ne_nil c kept) gone).symm
      · rfl
      · rfl
    · cases kept with
      | nil =>
        rcases hcases with ⟨rfl, -⟩ | rfl | ⟨rfl, -⟩
        · cases hlast
        · rfl
        · cases hlast
      | cons c kept =>
        rw [List.getLast?_append, Option.or_of_isSome (by simp)] at hlast
        exact absurd hlast hend
    · exact hcases.imp And.left id

/-- A name alone stands in the directory from which a relative path starts. It has no slash, and it
is not the `.` that says where a path starts. -/
theorem split_of_not_mem {path : String} (hslash : '/' ∉ path.toList)
    (hname : isNamed path.toList = true) : split path = (path.toList, []) := by
  have hroot : root path.toList = [] := by
    unfold root
    split
    · rename_i rest hpath
      rw [hpath] at hslash
      exact absurd List.mem_cons_self hslash
    · rename_i hpath
      rw [hpath] at hname
      cases hname
    · rename_i rest hpath
      rw [hpath] at hslash
      exact absurd (List.mem_cons_of_mem _ List.mem_cons_self) hslash
    · rfl
  have hreverse : (path.toList.drop 0).reverse = path.toList.reverse ++ [] := by
    rw [List.drop_zero, List.append_nil]
  exact split_of_reverse hroot hreverse (.inl rfl) hslash hname

/-! ## The path beside a file -/

/-- What the extension of a name can be. -/
structure IsExtension (extension : String) : Prop where
  ne_nil : extension.toList ≠ []
  slash : '/' ∉ extension.toList
  dot : '.' ∉ extension.toList

/-- The stem has no characters of its own, so it has no slash if the name has none. -/
theorem stem_subset (name : List Char) : ∀ c ∈ stem name, c ∈ name := by
  intro c hc
  unfold stem at hc
  split at hc
  · exact hc
  · rename_i before _
    have hmem := List.mem_of_mem_drop (List.mem_reverse.mp hc)
    exact List.mem_reverse.mp ((List.dropWhile_suffix _).subset hmem)

/-- The name of the file beside one of this name. -/
def nameWith (extension : String) (name : List Char) : List Char :=
  stem name ++ '.' :: extension.toList

/-- A name that is not empty has a stem that is not: if nothing stands before its last dot, the
whole name is the stem. -/
theorem stem_ne_nil {name : List Char} (h : name ≠ []) : stem name ≠ [] := by
  unfold stem
  split
  · exact h
  · rename_i before hbefore
    exact fun hnil => hbefore (List.reverse_eq_nil_iff.mp hnil)

/-- The stem of a name with an extension is what stands before the dot, provided that the extension
has no dot itself. -/
theorem stem_append {name extension : List Char} (hname : name ≠ []) (hdot : '.' ∉ extension) :
    stem (name ++ '.' :: extension) = name := by
  have hbefore : (name ++ '.' :: extension).reverse.dropWhile (· != '.') =
      '.' :: name.reverse := by
    rw [List.reverse_append, List.reverse_cons, List.append_assoc, List.singleton_append]
    exact (takeWhile_reverse_append hdot (.inr ⟨_, rfl⟩)).2
  unfold stem
  rw [hbefore, List.drop_succ_cons, List.drop_zero]
  split
  · rename_i hnil
    exact absurd (List.reverse_eq_nil_iff.mp hnil) hname
  · exact List.reverse_reverse name

/-- The new name is the old one if and only if that has the extension already, with something before
it. -/
theorem nameWith_eq_self_iff {extension : String} (hextension : IsExtension extension)
    (name : List Char) : nameWith extension name = name ↔
      ∃ before, before ≠ [] ∧ name = before ++ '.' :: extension.toList := by
  constructor
  · intro h
    have hne : name ≠ [] := by
      rw [← h]
      exact List.append_ne_nil_of_right_ne_nil _ (List.cons_ne_nil _ _)
    exact ⟨stem name, stem_ne_nil hne, h.symm⟩
  · rintro ⟨before, hbefore, rfl⟩
    rw [nameWith, stem_append hbefore hextension.dot]

/-- The new name names something: it is more than dots, since the extension has another character.
So its path leads to a name in a directory, and not to a directory. -/
theorem isNamed_nameWith {extension : String} (hextension : IsExtension extension)
    (name : List Char) :
    isNamed (nameWith extension name) = true ∧ nameWith extension name ≠ ['.', '.'] := by
  obtain ⟨c, rest, hrest⟩ := List.exists_cons_of_ne_nil hextension.ne_nil
  have hmem : c ∈ nameWith extension name := by
    rw [nameWith, hrest]
    simp
  have hc : c ≠ '.' := by
    rintro rfl
    exact hextension.dot (by rw [hrest]; exact List.mem_cons_self)
  rw [isNamed, Bool.and_eq_true, bne_iff_ne, bne_iff_ne]
  generalize nameWith extension name = new at hmem
  refine ⟨⟨?_, ?_⟩, ?_⟩
  · rintro rfl
    cases hmem
  · rintro rfl
    exact hc (List.mem_singleton.mp hmem)
  · rintro rfl
    simp [hc] at hmem

/-- The new name has no slash, so it is a single part of a path. -/
theorem not_mem_nameWith {extension : String} (hextension : IsExtension extension)
    {name : List Char} (hname : '/' ∉ name) : '/' ∉ nameWith extension name := by
  intro hmem
  rcases List.mem_append.mp hmem with hstem | hrest
  · exact hname (stem_subset name '/' hstem)
  · rcases List.mem_cons.mp hrest with hdot | hmem
    · exact absurd hdot (by decide)
    · exact hextension.slash hmem

/-- The path beside a file, once its name and its directory are known. A name such as `..` is what
is left out here. -/
theorem besideWith_of_split {path : String} {name directory : List Char}
    (h : split path = (name, directory)) (hname : isNamed name = true) (hup : name ≠ ['.', '.'])
    (extension : String) : besideWith extension path =
      some (String.ofList (join directory (nameWith extension name))) := by
  have hempty : name.isEmpty = false := by
    rw [List.isEmpty_eq_false_iff]
    rintro rfl
    cases hname
  unfold besideWith
  rw [h]
  dsimp only
  rw [if_neg (by simp [hempty, hup])]
  rfl

/-- A name in a directory that ends with a slash only if it is the root. -/
theorem parts_join {directory name : List Char}
    (hend : directory.getLast? = some '/' → directory = ['/']) (hname : '/' ∉ name) :
    ∃ front, parts (join directory name) = front ++ [name] ∧
      front.filter isNamed = named directory ∧
      isAbsolute (join directory name) = isAbsolute directory := by
  have hlast := parts_of_not_mem hname
  cases directory with
  | nil => exact ⟨[], hlast, rfl, isAbsolute_of_not_mem hname⟩
  | cons c directory =>
    unfold join
    by_cases hslash : (c :: directory).getLast? = some '/'
    · rw [if_pos (.inr hslash), hend hslash]
      exact ⟨[[]], by rw [← hlast]; exact parts_append [] name, rfl, rfl⟩
    · rw [if_neg (by simp [hslash]), parts_append, hlast]
      exact ⟨_, rfl, rfl, isAbsolute_append (List.cons_ne_nil _ _) _⟩

/-- Beside a file there is a path. It starts where that of the file starts, its last part is the new
name, and what stands before it leads where what stands before the name of the file leads. -/
theorem exists_besideWith {extension path : String} {front : List (List Char)} {name : List Char}
    (hextension : IsExtension extension) (hparts : parts path.toList = front ++ [name])
    (hname : isNamed name = true) (hup : name ≠ ['.', '.']) :
    ∃ (output : String) (front' : List (List Char)), besideWith extension path = some output ∧
      isAbsolute output.toList = isAbsolute path.toList ∧
      parts output.toList = front' ++ [nameWith extension name] ∧
      front'.filter isNamed = front.filter isNamed := by
  obtain ⟨last, hslash, hpath⟩ := exists_last_part path.toList
  obtain ⟨directory, rfl, hsplit, habsolute, hend, hnamed⟩ : ∃ directory, last = name ∧
      split path = (name, directory) ∧ isAbsolute directory = isAbsolute path.toList ∧
      (directory.getLast? = some '/' → directory = ['/']) ∧
      named directory = front.filter isNamed := by
    rcases hpath with rfl | ⟨before, hpath⟩
    · rw [parts_of_not_mem hslash, ← List.nil_append [path.toList]] at hparts
      obtain ⟨rfl, hlast⟩ := List.append_inj' hparts rfl
      obtain rfl := List.singleton_inj.mp hlast
      exact ⟨[], rfl, split_of_not_mem hslash hname, (isAbsolute_of_not_mem hslash).symm,
        fun h => (by cases h), rfl⟩
    · rw [hpath, parts_append, parts_of_not_mem hslash] at hparts
      obtain ⟨rfl, hlast⟩ := List.append_inj' hparts rfl
      obtain rfl := List.singleton_inj.mp hlast
      obtain ⟨directory, hsplit, habsolute, hend, hnamed⟩ := split_of_slash hpath hslash hname
      exact ⟨directory, rfl, hsplit, habsolute, hend, hnamed⟩
  obtain ⟨front', hparts', hfront', habsolute'⟩ :=
    parts_join hend (not_mem_nameWith hextension hslash)
  refine ⟨_, front', besideWith_of_split hsplit hname hup extension, ?_, ?_, ?_⟩
  · rw [String.toList_ofList, habsolute', habsolute]
  · rw [String.toList_ofList, hparts']
  · rw [hfront', hnamed]

end MustacheMarkup.Path
