import MustacheMarkup.Command.Plan
import MustacheMarkup.Proofs.File.Tree
import MustacheMarkup.Proofs.Output.Duplicates

/-!
# What building and checking do to files

Both commands compile the template first and stop there if that fails (`run_compileThen_of_error`),
so they fail alike, with the same text on the standard error, and leave all files alone. Building
then writes one file (`run_writeForm`), which stands beside the template: in the same directory,
with the extension of the name replaced. A template that has this extension already is that file,
and is written over.
-/

set_option autoImplicit false

namespace MustacheMarkup

/-- To keep the reports of a compilation does not change its result. -/
theorem result_compileReporting (options : Options) (source : String) :
    (compileReporting options source).result = compile options source := by
  unfold compileReporting compile Template.parse
  dsimp only
  cases h : (Template.ofSource ⟨options, 0⟩ source).result with
  | error e => rfl
  | ok items =>
    dsimp only
    rw [Serializer.result_compile, Serializer.result_itemsForm_parse h, Template.compile]

/-- A plan that reports events first does what it does after them, and its report has them in front
of its own. -/
theorem Plan.run_noteAll (log : List Event) (next : Plan) (tree : FileTree) :
    (noteAll log next).run tree =
      ({ (next.run tree).1 with log := log ++ (next.run tree).1.log }, (next.run tree).2) := by
  induction log with
  | nil => rfl
  | cons event log ih =>
    have hrun : (noteAll (event :: log) next).run tree =
        (((noteAll log next).run tree).1.noting event, ((noteAll log next).run tree).2) := rfl
    rw [hrun, ih]
    rfl

namespace Command

open FileTree

/-- The text that is written for a structured form. -/
def formText (pretty : Bool) (form : Json) : String :=
  if pretty then form.pretty else form.compact

/-- The events that are reported while the template in a file is compiled. -/
def compileLog (tree : FileTree) (path : String) (options : Options) : List Event :=
  (compileFile path options (tree.read path)).log

/-- The extension of structured forms is a plain one, without dots and slashes. -/
theorem isExtension_json : Path.IsExtension "json" :=
  ⟨by decide, by decide, by decide⟩

/-! ## Carrying out the plans -/

/-- A template that does not compile is reported behind the events so far, and nothing else is
done. -/
theorem run_compileThen_of_error {tree : FileTree} {path message : String} {options : Options}
    (h : (compileFile path options (tree.read path)).result = .error message)
    (next : Json → Plan) :
    (compileThen path options next).run tree =
      (⟨1, "", compileLog tree path options, message ++ "\n"⟩, tree) := by
  unfold compileThen
  rw [Plan.run]
  dsimp only
  rw [Plan.run_noteAll, h]
  dsimp only [Plan.fail, Plan.run]
  rw [List.append_nil, compileLog]

/-- What follows on a compilation has the events of the compilation in front of its own. Neither
command has any, so all events of its report are those of the compilation. -/
theorem run_compileThen_of_ok {tree tree' : FileTree} {path message : String} {options : Options}
    {form : Json} {exitCode : Nat}
    (h : (compileFile path options (tree.read path)).result = .ok form) {next : Json → Plan}
    (hnext : (next form).run tree = (⟨exitCode, "", [], message⟩, tree')) :
    (compileThen path options next).run tree =
      (⟨exitCode, "", compileLog tree path options, message⟩, tree') := by
  unfold compileThen
  rw [Plan.run]
  dsimp only
  rw [Plan.run_noteAll, h]
  dsimp only
  rw [hnext]
  dsimp only
  rw [List.append_nil, compileLog]

/-- To write a form either writes the file beside the template or fails and changes nothing. No
other file is touched on the way, and nothing is read. -/
theorem run_writeForm {tree : FileTree} {path output : String}
    (houtput : Path.besideWith "json" path = some output) (pretty : Bool) (form : Json) :
    (∃ tree', tree.write output (formText pretty form).toUTF8 = .ok tree' ∧
      (writeForm path pretty form).run tree =
        (⟨0, "", [], "Built: " ++ output ++ "\n"⟩, tree')) ∨
    ∃ fault, tree.write output (formText pretty form).toUTF8 = .error fault ∧
      (writeForm path pretty form).run tree =
        (⟨1, "", [], "Error writing " ++ output ++ ": " ++ fault.message ++ "\n"⟩, tree) := by
  unfold writeForm
  rw [houtput]
  dsimp only
  rw [Plan.run, ← formText]
  cases hwrite : tree.write output (formText pretty form).toUTF8 with
  | error fault => exact .inr ⟨fault, rfl, rfl⟩
  | ok tree' => exact .inl ⟨tree', rfl, rfl⟩

/-- What compiles is the text of a file. So if there is a form, then the file is there, its content
is UTF-8, and the form is that of its text. -/
theorem exists_source_of_compileFile {tree : FileTree} {path : String} {options : Options}
    {form : Json} (h : (compileFile path options (tree.read path)).result = .ok form) :
    ∃ content source, tree.read path = .ok content ∧ String.fromUTF8? content = some source ∧
      compile options source = .ok form := by
  unfold compileFile at h
  split at h
  · cases h
  · rename_i source hsource
    dsimp only at h
    rw [result_compileReporting] at h
    have hcompile : compile options source = .ok form := by
      cases hresult : compile options source with
      | error e =>
        rw [hresult] at h
        cases h
      | ok form' =>
        rw [hresult] at h
        cases h
        rfl
    unfold templateText at hsource
    split at hsource
    · cases hsource
    · cases hsource
    · rename_i content hread
      split at hsource
      · cases hsource
      · rename_i htext
        cases hsource
        exact ⟨content, source, hread, htext, hcompile⟩

/-- What is said about a text that does not compile is the error behind the path, and the events
before it are that the compilation starts and what is reported of the text. -/
theorem compileFile_of_source {tree : FileTree} {path source : String} {content : ByteArray}
    (hread : tree.read path = .ok content) (hsource : String.fromUTF8? content = some source)
    (options : Options) :
    (compileFile path options (tree.read path)).result =
        ((compile options source).mapError fun e => path ++ ": " ++ e.message) ∧
      compileLog tree path options =
        .compiling path source.utf8ByteSize :: (compileReporting options source).log := by
  unfold compileLog compileFile templateText
  rw [hread]
  dsimp only
  rw [hsource]
  dsimp only
  rw [result_compileReporting]
  exact ⟨rfl, rfl⟩

/-! ## Building -/

/-- What the path for the form of a template leads to: from the directory of the template to the
name of the template with the extension of the forms. -/
structure IsBeside (tree : FileTree) (path : String) (directory : List String)
    (name output : String) : Prop where
  /-- the path for the form is named after the path of the template -/
  derived : Path.besideWith "json" path = some output
  /-- the template has a name in a directory -/
  place : tree.place? path = some (directory ++ [name])
  /-- the path for the form leads to a name in the same directory -/
  place_output : tree.place? output = some (directory ++ [besideName "json" name])

/-- What building does. Either it fails and changes nothing, or it writes the form of the template
to the file beside it, if the system lets it. -/
theorem run_build (tree : FileTree) (path : String) (options : Options) (pretty : Bool) :
    let built := (Command.build path options pretty).plan.run tree
    let log := compileLog tree path options
    (∃ message, (compileFile path options (tree.read path)).result = .error message ∧
      built = (⟨1, "", log, message ++ "\n"⟩, tree)) ∨
    (∃ content source form directory name output, tree.read path = .ok content ∧
      String.fromUTF8? content = some source ∧ compile options source = .ok form ∧
      (compileFile path options (tree.read path)).result = .ok form ∧
      IsBeside tree path directory name output ∧
      ((∃ tree', tree.write output (formText pretty form).toUTF8 = .ok tree' ∧
          built = (⟨0, "", log, "Built: " ++ output ++ "\n"⟩, tree')) ∨
        ∃ fault, tree.write output (formText pretty form).toUTF8 = .error fault ∧
          built = (⟨1, "", log,
            "Error writing " ++ output ++ ": " ++ fault.message ++ "\n"⟩, tree))) := by
  intro built log
  cases hcompile : (compileFile path options (tree.read path)).result with
  | error message => exact .inl ⟨message, rfl, run_compileThen_of_error hcompile _⟩
  | ok form =>
    obtain ⟨content, source, hread, hsource, hform⟩ := exists_source_of_compileFile hcompile
    obtain ⟨directory, name, output, hplace, -, houtput, hbeside⟩ :=
      exists_place_beside isExtension_json hread
    refine .inr ⟨content, source, form, directory, name, output, hread, hsource, hform, rfl,
      ⟨houtput, hplace, hbeside⟩, ?_⟩
    rcases run_writeForm houtput pretty form with ⟨tree', hwrite, hrun⟩ | ⟨fault, hwrite, hrun⟩
    · exact .inl ⟨tree', hwrite, run_compileThen_of_ok hcompile hrun⟩
    · exact .inr ⟨fault, hwrite, run_compileThen_of_ok hcompile hrun⟩

/-- After the form was written beside the template, its names lead to it and all others to what they
led to before. -/
theorem entry?_of_write_beside {tree tree' : FileTree} {path name output : String}
    {directory : List String} {content : ByteArray}
    (hbeside : IsBeside tree path directory name output)
    (hwrite : tree.write output content = .ok tree') (names : List String) :
    tree'.entry? names = if names = directory ++ [besideName "json" name] then
      some (.file content) else tree.entry? names := by
  obtain ⟨names', hplace, -, -, hentry⟩ := entry?_of_write hwrite
  rw [hbeside.place_output] at hplace
  cases hplace
  exact hentry names

/-- The file beside a template is the template itself if and only if its name has the extension of
the forms already, with something before it. -/
theorem besideName_eq_self_iff (name : String) :
    besideName "json" name = name ↔ ∃ before, before ≠ "" ∧ name = before ++ ".json" := by
  have hlist : besideName "json" name = name ↔ Path.nameWith "json" name.toList = name.toList := by
    rw [besideName, ← String.toList_inj, String.toList_ofList]
  have hextension : ".json".toList = '.' :: "json".toList := by decide
  rw [hlist, Path.nameWith_eq_self_iff isExtension_json]
  constructor
  · rintro ⟨before, hne, hname⟩
    have hlist' : (String.ofList before ++ ".json").toList = name.toList := by
      rw [String.toList_append, String.toList_ofList, hextension, hname]
    refine ⟨String.ofList before, fun hempty => hne ?_, String.toList_inj.mp hlist'.symm⟩
    rw [← String.toList_ofList (l := before), hempty]
    rfl
  · rintro ⟨before, hne, rfl⟩
    refine ⟨before.toList, fun hnil => hne ?_, ?_⟩
    · rw [← String.toList_inj, hnil]
      rfl
    · rw [String.toList_append, hextension]

/-- Building changes no file but the one beside the template, and that one only if it succeeds.
So the template stays as it is, unless it has the extension of the forms already: then it is the
file beside itself, and after it is built its form stands in its place. This holds whether the
path of the template is absolute or not and whether it leads up on the way, and whatever the
system refuses. -/
theorem build_keeps_all_but_beside (tree : FileTree) (path : String) (options : Options)
    (pretty : Bool) :
    let built := (Command.build path options pretty).plan.run tree
    (built.1.exitCode = 1 ∧ built.2 = tree ∨
      built.1.exitCode = 0 ∧ ∃ content, tree.read path = .ok content) ∧
    ∀ content, tree.read path = .ok content → ∃ (directory : List String) (name : String),
      tree.place? path = some (directory ++ [name]) ∧
      (∀ names, names ≠ directory ++ [besideName "json" name] →
        entry? built.2 names = tree.entry? names) ∧
      (built.1.exitCode = 1 ∨ (¬∃ before, before ≠ "" ∧ name = before ++ ".json") →
        built.2.read path = .ok content) ∧
      (built.1.exitCode = 0 ∧ (∃ before, before ≠ "" ∧ name = before ++ ".json") →
        ∃ source form, String.fromUTF8? content = some source ∧
          compile options source = .ok form ∧
          built.2.read path = .ok (formText pretty form).toUTF8) := by
  intro built
  rcases run_build tree path options pretty with ⟨message, -, hbuilt⟩ |
    ⟨content, source, form, directory, name, output, hread, hsource, hform, -, hbeside,
      ⟨tree', hwrite, hbuilt⟩ | ⟨fault, -, hbuilt⟩⟩
  · rw [show built = _ from hbuilt]
    refine ⟨.inl ⟨rfl, rfl⟩, fun content hread => ?_⟩
    obtain ⟨directory, name, output, hplace, -, -, -⟩ := exists_place_beside isExtension_json hread
    exact ⟨directory, name, hplace, fun _ _ => rfl, fun _ => hread,
      fun ⟨hexit, _⟩ => absurd hexit Nat.one_ne_zero⟩
  · rw [show built = _ from hbuilt]
    refine ⟨.inr ⟨rfl, content, hread⟩, fun content' hread' => ?_⟩
    obtain rfl : content' = content := Except.ok.inj (hread'.symm.trans hread)
    have hplaces : tree.place? path = tree.place? output ↔ besideName "json" name = name := by
      rw [hbeside.place, hbeside.place_output]
      simp [eq_comm]
    rw [besideName_eq_self_iff] at hplaces
    refine ⟨directory, name, hbeside.place, fun names hne => ?_, fun hkept => ?_, fun hlost => ?_⟩
    · rw [entry?_of_write_beside hbeside hwrite, if_neg hne]
    · rw [read_of_write hwrite hread, if_neg (mt hplaces.mp _)]
      exact hkept.resolve_left Nat.zero_ne_one
    · refine ⟨source, form, hsource, hform, ?_⟩
      rw [read_of_write hwrite hread, if_pos (hplaces.mpr hlost.2)]
  · rw [show built = _ from hbuilt]
    exact ⟨.inl ⟨rfl, rfl⟩, fun _ hread' => ⟨directory, name, hbeside.place, fun _ _ => rfl,
      fun _ => hread', fun ⟨hexit, _⟩ => absurd hexit Nat.one_ne_zero⟩⟩

/-- A template in a directory beside the working directory stays as it is. The path leads up first,
so it is the place of the file that counts, and the name in it has another extension. -/
theorem build_keeps_listed :
    let tree : FileTree :=
      ⟨[(["home"], .directory), (["a", "b.html"], .file "x".toUTF8)], ["home"], fun _ => none,
        fun _ _ => none⟩
    tree.read "../a/b.html" = .ok "x".toUTF8 ∧
      ((Command.build "../a/b.html" ⟨false, false⟩ true).plan.run tree).2.read "../a/b.html" =
        .ok "x".toUTF8 := by
  intro tree
  have hread : tree.read "../a/b.html" = .ok "x".toUTF8 := rfl
  obtain ⟨directory, name, hplace, -, hkept, -⟩ :=
    (build_keeps_all_but_beside tree "../a/b.html" ⟨false, false⟩ true).2 _ hread
  have hplace' : tree.place? "../a/b.html" = some (["a"] ++ ["b.html"]) := rfl
  rw [hplace'] at hplace
  obtain rfl := List.singleton_inj.mp (List.append_inj' (Option.some.inj hplace) rfl).2
  refine ⟨hread, hkept (.inr fun hjson => ?_)⟩
  rw [← besideName_eq_self_iff] at hjson
  exact absurd hjson (by decide)

/-- A template that has the extension of the forms is written over: after the build the form stands
where the template was, and the report says nothing of it. -/
theorem json_template_overwritten :
    let tree : FileTree :=
      ⟨[(["a.json"], .file "x".toUTF8)], [], fun _ => none, fun _ _ => none⟩
    let built := (Command.build "a.json" ⟨false, false⟩ false).plan.run tree
    tree.read "a.json" = .ok "x".toUTF8 ∧
      built.1.exitCode = 0 ∧ built.1.messages = "Built: a.json\n" ∧
      built.2.read "a.json" = .ok "\"x\"".toUTF8 ∧ "\"x\"".toUTF8 ≠ "x".toUTF8 := by
  intro tree built
  have hread : tree.read "a.json" = .ok "x".toUTF8 := rfl
  have hform : compile ⟨false, false⟩ "x" = .ok (.string "x") := by with_unfolding_all rfl
  have hsource : String.fromUTF8? "x".toUTF8 = some "x" := rfl
  have hcompile : (compileFile "a.json" ⟨false, false⟩ (tree.read "a.json")).result =
      .ok (.string "x") := by
    rw [(compileFile_of_source hread hsource _).1, hform]
    rfl
  have hbuilt : built = _ := run_compileThen_of_ok hcompile (by rfl)
  rw [hbuilt]
  exact ⟨hread, rfl, rfl, rfl, by decide⟩

/-! ## Checking -/

/-- What checking does: it says whether the template compiles, and changes nothing. -/
theorem run_check (tree : FileTree) (path : String) (options : Options) :
    (Command.check path options).plan.run tree =
      match (compileFile path options (tree.read path)).result with
      | .error message => (⟨1, "", compileLog tree path options, message ++ "\n"⟩, tree)
      | .ok _ => (⟨0, "", compileLog tree path options, "OK: " ++ path ++ "\n"⟩, tree) := by
  cases h : (compileFile path options (tree.read path)).result with
  | error message => exact run_compileThen_of_error h _
  | ok form => exact run_compileThen_of_ok h rfl

/-- Checking changes no file and says whether building gets as far as writing. If checking fails,
then building fails with the same report, so that the same text stands on the standard error
whatever the logger writes of the events, and changes nothing. If not, then the template has a form,
and building either writes it to the file beside the template, and nothing else, or fails because
the system does not let that file be written, and changes nothing. A template that does not compile
is reported by both with its path and the error, behind the events of its compilation. -/
theorem check_predicts_build (tree : FileTree) (path : String) (options : Options)
    (pretty : Bool) :
    let checked := (Command.check path options).plan.run tree
    let built := (Command.build path options pretty).plan.run tree
    checked.2 = tree ∧ built.1.log = checked.1.log ∧
    (checked.1.exitCode = 1 ∧ built = checked ∨
      checked.1.exitCode = 0 ∧ ∃ content source form directory name output,
        tree.read path = .ok content ∧ String.fromUTF8? content = some source ∧
        compile options source = .ok form ∧ IsBeside tree path directory name output ∧
        (built.1.exitCode = 0 ∧
            (∀ names, entry? built.2 names = if names = directory ++ [besideName "json" name] then
              some (.file (formText pretty form).toUTF8) else tree.entry? names) ∨
          built.1.exitCode = 1 ∧ built.2 = tree ∧
            ∃ fault, tree.write output (formText pretty form).toUTF8 = .error fault ∧
              built.1.messages =
                "Error writing " ++ output ++ ": " ++ fault.message ++ "\n")) ∧
    ∀ content source e, tree.read path = .ok content → String.fromUTF8? content = some source →
      compile options source = .error e →
      checked.1.exitCode = 1 ∧ built.1.exitCode = 1 ∧
      ∀ written : Nat → Event → String,
        let events := .compiling path source.utf8ByteSize :: (compileReporting options source).log
        let text := String.join (events.mapIdx written) ++ (path ++ ": " ++ e.message ++ "\n")
        checked.1.errorText written = text ∧ built.1.errorText written = text := by
  intro checked built
  have hchecked : checked = _ := run_check tree path options
  have hfault : ∀ content source e, tree.read path = .ok content →
      String.fromUTF8? content = some source → compile options source = .error e →
      (compileFile path options (tree.read path)).result = .error (path ++ ": " ++ e.message) ∧
      compileLog tree path options =
        .compiling path source.utf8ByteSize :: (compileReporting options source).log := by
    intro content source e hread hsource hcompile
    obtain ⟨hresult, hlog⟩ := compileFile_of_source hread hsource options
    rw [hcompile] at hresult
    exact ⟨hresult, hlog⟩
  rcases run_build tree path options pretty with ⟨message, hcompile, hbuilt⟩ |
    ⟨content, source, form, directory, name, output, hread, hsource, hform, hcompile, hbeside, hend⟩
  · rw [hcompile] at hchecked hfault
    rw [hchecked, show built = _ from hbuilt]
    refine ⟨rfl, rfl, .inl ⟨rfl, rfl⟩, fun content source e hread hsource hform => ?_⟩
    obtain ⟨hmessage, hlog⟩ := hfault content source e hread hsource hform
    rw [Except.error.inj hmessage, hlog]
    exact ⟨rfl, rfl, fun written => ⟨rfl, rfl⟩⟩
  · rw [hcompile] at hchecked hfault
    rw [hchecked]
    have hcompiles : ∀ content source e, tree.read path = .ok content →
        String.fromUTF8? content = some source → compile options source ≠ .error e :=
      fun content source e hread hsource hform =>
        nomatch (hfault content source e hread hsource hform).1
    rcases hend with ⟨tree', hwrite, hbuilt⟩ | ⟨fault, hwrite, hbuilt⟩
    · rw [show built = _ from hbuilt]
      exact ⟨rfl, rfl, .inr ⟨rfl, content, source, form, directory, name, output, hread, hsource,
        hform, hbeside, .inl ⟨rfl, entry?_of_write_beside hbeside hwrite⟩⟩,
        fun content source e hread hsource hform =>
          absurd hform (hcompiles content source e hread hsource)⟩
    · rw [show built = _ from hbuilt]
      exact ⟨rfl, rfl, .inr ⟨rfl, content, source, form, directory, name, output, hread, hsource,
        hform, hbeside, .inr ⟨rfl, rfl, fault, hwrite, rfl⟩⟩,
        fun content source e hread hsource hform =>
          absurd hform (hcompiles content source e hread hsource)⟩

/-- A section that is closed by another name, and behind it a directive without occasion. -/
def mismatched : String :=
  "\x7b\x7b#a\x7d\x7d\x7b\x7b/b\x7d\x7d<p on-=x>"

/-- Both commands write the warning about the section and then the error. The template is named by
an absolute path. -/
theorem check_predicts_build_mismatched :
    let tree : FileTree :=
      ⟨[(["a.html"], .file mismatched.toUTF8)], ["home"], fun _ => none, fun _ _ => none⟩
    let text :=
      "WARN stache.parser: section \x7b\x7b#a\x7d\x7d closed by \x7b\x7b/b\x7d\x7d at line 1\n" ++
        "/a.html: Parse error at line 1, column 13: Illegal directive\n"
    ((Command.check "/a.html" ⟨false, false⟩).plan.run tree).1.errorText
        (fun _ => Event.warning) = text ∧
      ((Command.build "/a.html" ⟨false, false⟩ true).plan.run tree).1.errorText
        (fun _ => Event.warning) = text := by
  intro tree text
  have hread : tree.read "/a.html" = .ok mismatched.toUTF8 := rfl
  have hsource : String.fromUTF8? mismatched.toUTF8 = some mismatched := rfl
  have hlog : (compileReporting ⟨false, false⟩ mismatched).log =
      [.scanned 3, .sectionMismatch "a" "b" 1] := by decide +kernel
  have herror : (match compile ⟨false, false⟩ mismatched with
      | .error e => some e
      | .ok _ => none) = some (.build ⟨.illegalDirective, 1, 13⟩) := by decide +kernel
  cases hform : compile ⟨false, false⟩ mismatched with
  | ok form =>
    rw [hform] at herror
    cases herror
  | error e =>
    rw [hform] at herror
    obtain rfl := Option.some.inj herror
    obtain ⟨-, -, hreports⟩ := (check_predicts_build tree "/a.html" ⟨false, false⟩ true).2.2.2 _ _ _
      hread hsource hform
    obtain ⟨hchecked, hbuilt⟩ := hreports fun _ => Event.warning
    rw [hlog] at hchecked hbuilt
    have htext : String.join ([Event.compiling "/a.html" mismatched.utf8ByteSize, .scanned 3,
        .sectionMismatch "a" "b" 1].mapIdx fun _ => Event.warning) ++ ("/a.html" ++ ": " ++
          (CompileError.build ⟨.illegalDirective, 1, 13⟩).message ++ "\n") = text := by
      decide +kernel
    exact ⟨hchecked.trans htext, hbuilt.trans htext⟩

/-- A template that compiles is not built where the system refuses to write. -/
example :
    let tree : FileTree := ⟨[(["a.html"], .file "x".toUTF8)], [], fun _ => none,
      fun _ _ => some "Permission denied (os error 13)"⟩
    ((Command.build "a.html" ⟨false, false⟩ false).plan.run tree).1.messages =
      "Error writing a.json: Permission denied (os error 13)\n" := by decide +kernel

end Command

end MustacheMarkup
