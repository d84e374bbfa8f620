import MustacheMarkup.Compile
import MustacheMarkup.Proofs.Attribute.Spelling
import MustacheMarkup.Proofs.Item.Trim
import MustacheMarkup.Proofs.Output.Outline
import MustacheMarkup.Proofs.Output.ReadTag
import MustacheMarkup.Proofs.Template.Values

/-!
# An element with one attribute

`loneAttribute name` is the source text of an element that has one attribute and nothing else. It is
read as one tag (`exists_tokenize_loneAttribute`), and what it compiles to shows the role of the
name and whether the attribute is kept. So it tells any two names apart that are not
interchangeable (`interchangeable_of_compile_eq`).
-/

set_option autoImplicit false

namespace MustacheMarkup

open Building Journal Output

/-! ## Places -/

/-- In a line only the column moves on. -/
theorem Position.after_of_line (p : Position) {s : List Char} (h : ∀ c ∈ s, c ≠ '\n') :
    p.after s = ⟨p.offset + s.length, p.line, p.column + s.length⟩ := by
  induction s generalizing p with
  | nil => rfl
  | cons c s ih =>
    obtain ⟨hc, hs⟩ := List.forall_mem_cons.mp h
    have hafter : p.after (c :: s) = (p.next c).after s := rfl
    rw [hafter, ih _ hs, Position.next, if_neg hc]
    simp only [List.length_cons, Nat.add_assoc, Nat.add_comm 1]

/-- To go on by some characters leaves what stands behind them. -/
theorem Source.advance_append (p : Position) (s rest : List Char) :
    Source.advance s.length ⟨p, s ++ rest⟩ = ⟨p.after s, rest⟩ := by
  induction s generalizing p with
  | nil => rfl
  | cons c s ih => exact ih (p.next c)

/-! ## Reading -/

/-- An element with one attribute, whose value is `v`. -/
def loneAttribute (name : String) : String :=
  "<x " ++ name ++ "=v>"

/-- The tag of such an element. -/
def loneTag (name : String) (valueSpan : Span) : Tag :=
  ⟨"x", [⟨name, some [⟨.text "v", valueSpan⟩]⟩], false, false, false⟩

/-- There is no line feed in a name that can be read, so what stands behind it is on the
same line. -/
theorem ReadableName.ne_lineFeed {name : String} (h : ReadableName name) :
    ∀ c ∈ name.toList, c ≠ '\n' := by
  have hmark : ∀ mark : Char, mark ≠ '\n' → ∀ c ∈ [mark], c ≠ '\n' :=
    fun mark hne => List.forall_mem_singleton.mpr hne
  obtain ⟨-, hchars⟩ | rfl | rfl | rfl := h
  · rintro c hc rfl
    exact absurd (hchars '\n' hc) (by decide)
  · exact hmark '=' (by decide)
  · exact hmark '"' (by decide)
  · exact hmark '\'' (by decide)

/-- Where the attribute's value and its tag's end are found depends on the length of the name
alone. -/
theorem exists_scanAttribute_lone (p : Position) (n : Nat) :
    ∃ valueSpan, ∃ later : Source, later.rest = ['>'] ∧ ∀ name : String, ReadableName name →
      name.toList.length = n → scanAttribute ⟨p, name.toList ++ ['=', 'v', '>']⟩ =
        .ok (⟨name, some [⟨.text "v", valueSpan⟩]⟩, later) := by
  let behind : Position := ⟨p.offset + n, p.line, p.column + n⟩
  let value : Source := ⟨behind.next '=', ['v', '>']⟩
  obtain ⟨valueSpan, hvalue⟩ : ∃ span, scanValue value.position ['v'] =
      .ok [⟨.text (String.ofList ['v']), span⟩] :=
    scanValue_braceless (by simp) (by decide)
  have hlength : unquotedLength (['v'] ++ ['>']) = .ok ['v'].length :=
    unquotedLength_append (List.forall_mem_singleton.mpr (by decide)) (by decide) (by decide)
  refine ⟨valueSpan, value.advance 1, rfl, fun name hname hlen => ?_⟩
  have hadvance : Source.advance name.toList.length ⟨p, name.toList ++ ['=', 'v', '>']⟩ =
      ⟨behind, ['=', 'v', '>']⟩ := by
    rw [Source.advance_append, Position.after_of_line p hname.ne_lineFeed, hlen]
  have hread : scanAttributeValue value =
      .ok ([⟨.text "v", valueSpan⟩], value.advance 1) := by
    show scanUnquoted value = _
    have hrest : value.rest = ['v'] ++ ['>'] := rfl
    exact scanUnquoted_of_rest hrest hlength hvalue
  have hstart : Source.advance 1 ⟨behind, ['=', 'v', '>']⟩ = value := rfl
  rw [scanAttribute_of_equals rfl hname (by decide), hadvance, hstart, hread]
  rfl

/-- Such an element is read as one tag. Where it stands and where its value stands depends on the
length of the name only, so two names of one length give the same places. -/
theorem exists_tokenize_loneAttribute (n : Nat) :
    ∃ valueSpan span, ∀ name : String, ReadableName name → name.toList.length = n →
      tokenize (loneAttribute name) = .ok [⟨.tag (loneTag name valueSpan), span⟩] := by
  obtain ⟨valueSpan, later, hlater, hscan⟩ := exists_scanAttribute_lone ⟨3, 1, 4⟩ n
  refine ⟨valueSpan, ⟨0, (later.advance 1).position.offset, 1, 1⟩, fun name hname hlen => ?_⟩
  obtain ⟨c, s, hcs, hblank, hslash, hbracket, -⟩ := hname.exists_cons
  have hsource : (loneAttribute name).toList =
      '<' :: 'x' :: ' ' :: (name.toList ++ ['=', 'v', '>']) := by
    rw [loneAttribute, String.toList_append, String.toList_append]
    rfl
  have hskip : (⟨⟨2, 1, 3⟩, ' ' :: (name.toList ++ ['=', 'v', '>'])⟩ : Source).skipBlanks =
      ⟨⟨3, 1, 4⟩, name.toList ++ ['=', 'v', '>']⟩ := by
    have hspace : Text.isBlank ' ' = true := by decide
    unfold Source.skipBlanks
    rw [List.takeWhile_cons_of_pos hspace, hcs, List.cons_append,
      List.takeWhile_cons_of_neg (by simp [hblank])]
    rfl
  have hend : later.skipBlanks = later := skipBlanks_of_rest hlater (by decide)
  have hbehind : ((Source.ofString (loneAttribute name)).advance 1).advance "x".toList.length =
      ⟨⟨2, 1, 3⟩, ' ' :: (name.toList ++ ['=', 'v', '>'])⟩ := by
    rw [Source.ofString, hsource]
    rfl
  have hnext : scanNext (Source.ofString (loneAttribute name)) =
      .ok (.tag (loneTag name valueSpan), later.advance 1) := by
    have hstart := congrArg Source.rest hskip
    rw [hcs, List.cons_append] at hstart
    have hread := hscan name hname hlen
    rw [← hskip] at hread
    refine scanNext_of_scanAttributes hsource ?_ ?_ ?_
    · exact ⟨List.forall_mem_singleton.mpr (by decide), 'x', [], rfl, by decide⟩
    · rfl
    · rw [hbehind, scanAttributes_of_attribute (by rw [hcs]; exact hstart) hbracket hslash hread,
        scanAttributes_of_bracket (by rw [hend]; exact hlater), hend]
      rfl
  have hdone : (later.advance 1).rest = [] := by
    rw [Source.rest_advance, hlater]
    rfl
  have hne : (Source.ofString (loneAttribute name)).rest ≠ [] := by
    rw [Source.ofString, hsource]
    exact List.cons_ne_nil _ _
  rw [tokenize, Source.tokens, scanAll_of_scan hne hnext, scanAll_of_rest_eq_nil hdone]
  rfl

/-! ## Building -/

/-- The tag is all that the template has. -/
theorem nesting_loneTag (name : String) (valueSpan span : Span) :
    Nesting.ofTokens [⟨.tag (loneTag name valueSpan), span⟩] =
      [.element (loneTag name valueSpan) span (some [])] := by
  have hvoid : Vocabulary.isVoid (Text.lower "x") = false := by decide
  have halone : (loneTag name valueSpan).isAlone = false := by
    rw [Tag.isAlone, loneTag, hvoid, Bool.false_or]
  have hclosing : (loneTag name valueSpan).closing = false := rfl
  have hjoined : Nesting.joinTexts [⟨.tag (loneTag name valueSpan), span⟩] =
      [⟨.tag (loneTag name valueSpan), span⟩] := rfl
  rw [Nesting.ofTokens, Nesting.run, hjoined, List.foldl_cons, List.foldl_nil, Nesting.step]
  dsimp only
  rw [hclosing, if_neg Bool.false_ne_true, Nesting.openTag, halone]
  rfl

/-- The tag with one attribute holds no tags in its value. -/
theorem readable_loneTag (name : String) (valueSpan : Span) :
    (loneTag name valueSpan).Readable := by
  intro a ha tokens htokens t ht
  rw [List.mem_singleton.mp ha] at htokens
  cases htokens
  rw [List.mem_singleton.mp ht]
  rfl

/-- The directive that the attribute stands for under a name. -/
def loneDirective (name : String) : Directive :=
  ⟨name, .fixed "v", none, none⟩

/-- Whether the element keeps the attribute as one of the markup. -/
def keepsLone (options : Options) (name : String) : Bool :=
  Role.ofName name = .plain && options.keeps ⟨name, none⟩

/-- What the element is if it is no error to build it. -/
def loneDetails (options : Options) (name : String) : HtmlDetails where
  tag := "x"
  attributes := if keepsLone options name then [⟨htmlAttributeName name, some [.text "v"]⟩] else []
  proxies := (RawAttribute.proxy? ⟨name, none⟩).toList.map (loneDirective ·.name)
  intro := if RawAttribute.fillsIntro ⟨name, none⟩ then some (loneDirective name) else none
  outro := if RawAttribute.fillsOutro ⟨name, none⟩ then some (loneDirective name) else none
  decorator := if RawAttribute.isDecorator ⟨name, none⟩ then some "v" else none

/-- What is kept of one attribute is what the details say. -/
theorem builtAttributes_loneTag (options : Options) (name : String) (valueSpan : Span) :
    (loneTag name valueSpan).builtAttributes options = (loneDetails options name).attributes := by
  have hkeeps : options.keeps ⟨name, some [⟨.text "v", valueSpan⟩]⟩ = options.keeps ⟨name, none⟩ :=
    rfl
  have hbuilt : (⟨name, some [⟨.text "v", valueSpan⟩]⟩ : RawAttribute).built =
      ⟨htmlAttributeName name, some [.text "v"]⟩ := by
    rw [RawAttribute.built, Option.map_some, valueItems_text]
  unfold loneDetails keepsLone Tag.builtAttributes Tag.plainAttributes loneTag
  by_cases hrole : Role.ofName name = .plain
  · by_cases hkept : options.keeps ⟨name, none⟩ = true
    · simp [hrole, hkeeps, hkept, hbuilt]
    · simp [hrole, hkeeps, hkept]
  · simp [hrole]

/-- A directive with a plain text has that text as its name, and no arguments. -/
theorem ofRaw_lone (fragment : FragmentBuilder) {name : String} (hname : name ≠ "")
    (valueSpan span : Span) :
    Directive.ofRaw fragment span ⟨name, some [⟨.text "v", valueSpan⟩]⟩ =
      pure (loneDirective name) := by
  have hempty : name.isEmpty = false := by
    rw [← Bool.not_eq_true, String.isEmpty_iff]
    exact hname
  unfold Directive.ofRaw
  simp only [hempty]
  rfl

/-- What the element has besides the attribute: nothing, or one directive or decorator. A proxy
without an occasion is left out, since it is refused. -/
theorem behaviourOf_lone (fragment : FragmentBuilder) {name : String} (hname : name ≠ "")
    (hproxy : Role.ofName name ≠ .proxy "") (options : Options) (valueSpan span : Span) :
    behaviourOf fragment "x" span
        (SortedAttributes.empty.put ⟨name, some [⟨.text "v", valueSpan⟩]⟩) =
      pure { loneDetails options name with attributes := [] } := by
  have hproxies : each (Directive.ofRaw fragment span)
      (RawAttribute.proxy? ⟨name, some [⟨.text "v", valueSpan⟩]⟩).toList =
        pure (loneDetails options name).proxies := by
    unfold loneDetails RawAttribute.proxy?
    dsimp only
    split
    · rename_i occasion hrole
      have hoccasion : occasion ≠ "" := by
        rintro rfl
        exact hproxy hrole
      rw [Option.toList_some, each, ofRaw_lone fragment hoccasion]
      rfl
    · rfl
  have hslot : ∀ b : Bool, whenSome (Directive.ofRaw fragment span)
      (if b then some ⟨name, some [⟨.text "v", valueSpan⟩]⟩ else none) =
        pure (if b then some (loneDirective name) else none) := by
    intro b
    cases b with
    | false => rfl
    | true =>
      rw [if_pos rfl, if_pos rfl, whenSome, ofRaw_lone fragment hname]
      rfl
  have hdecorator : ∀ b : Bool, whenSome (decoratorName span)
      (if b then some ⟨name, some [⟨.text "v", valueSpan⟩]⟩ else none) =
        pure (if b then some (some "v") else none) := by
    intro b
    cases b <;> rfl
  unfold behaviourOf SortedAttributes.put SortedAttributes.empty
  dsimp only
  rw [List.nil_append, hproxies, hslot, hslot, hdecorator]
  have hjoin : ∀ b : Bool, (if b then some (some "v") else none).join =
      if b then some "v" else none := by
    intro b
    cases b <;> rfl
  simp only [pure_bind, hjoin]
  rfl

/-- Without an occasion a proxy is an error. -/
theorem behaviourOf_lone_of_proxy (fragment : FragmentBuilder) {name : String}
    (hproxy : Role.ofName name = .proxy "") (valueSpan span : Span) :
    behaviourOf fragment "x" span
        (SortedAttributes.empty.put ⟨name, some [⟨.text "v", valueSpan⟩]⟩) =
      fail (ParseFault.illegalDirective.at span) := by
  unfold behaviourOf SortedAttributes.put SortedAttributes.empty RawAttribute.proxy?
  dsimp only
  rw [hproxy]
  rfl

/-- What the tag says, given what it says but for the attribute that is kept. The two are apart, as
only the one depends on how the template is sanitized. -/
theorem yields_elementKind_lone {settings : Settings} {name : String} {valueSpan span : Span}
    {r : Except ParseError HtmlDetails}
    (h : ∀ index, Yields (· = index) (behaviourOf (fragmentItems settings) "x" span
      (SortedAttributes.empty.put ⟨name, some [⟨.text "v", valueSpan⟩]⟩)) r) (index : Nat) :
    Yields (· = index) (elementKind settings.options (fragmentItems settings)
        (Text.lower (loneTag name valueSpan).name) (loneTag name valueSpan) span)
      (r.map fun details => .html
        { details with attributes := (loneDetails settings.options name).attributes }) := by
  have hwritten : writtenName (Text.lower (loneTag name valueSpan).name) = "x" := by
    show writtenName (Text.lower "x") = "x"
    decide +kernel
  have hcomponent : isComponent (Text.lower (loneTag name valueSpan).name) = false := by
    show isComponent (Text.lower "x") = false
    decide
  have hbehaviour := h index
  rw [← hwritten] at hbehaviour
  have hdetails := (readable_loneTag name valueSpan).yields_htmlDetails
    (SortedAttributes.ofList_singleton _) hbehaviour
  unfold elementKind
  rw [hcomponent, if_neg Bool.false_ne_true]
  rw [builtAttributes_loneTag] at hdetails
  have hkind := hdetails.map ElementKind.html
  cases r with
  | error e => exact hkind
  | ok details => exact hkind

/-- The tree of the template, given what the tag says: one element, of a name that is in none of the
tables, without content. -/
theorem parse_loneAttribute {options : Options} {name : String} {valueSpan span : Span}
    (htokens : tokenize (loneAttribute name) = .ok [⟨.tag (loneTag name valueSpan), span⟩])
    {r : Except ParseError ElementKind}
    (h : ∀ index, Yields (· = index) (elementKind options (fragmentItems ⟨options, 0⟩)
        (Text.lower (loneTag name valueSpan).name) (loneTag name valueSpan) span) r) :
    Template.parse options (loneAttribute name) =
      r.map fun kind =>
        [.element ⟨⟨0, 0⟩, "x", "x", kind, false, false, false, none, some []⟩] := by
  have hlower : Text.lower "x" = "x" := by decide
  have hvoid : Vocabulary.isVoid "x" = false := by decide
  have hclosers : Vocabulary.closers? "x" = none := by decide
  have hempty : trimBoundary [] = [] := by simp [trimBoundary, trimFirst, trimLast]
  have hsingle : ∀ e : Element, trimBoundary [.element e] = [.element e] := by
    intro e
    rw [trimBoundary, trimFirst_of_ne (by simp), trimLast_of_ne (by simp)]
  have hheader := result_elementHeader ⟨options, 0⟩ (loneTag name valueSpan) span 0
  have hkind := (h 1).result rfl
  rw [hkind] at hheader
  rw [Template.parse, Template.ofSource, htokens]
  dsimp only
  rw [Template.ofTokens_result, nesting_loneTag, buildAll, Nested.build, buildAll, buildAll,
    bind_apply, bind_apply]
  rcases hstart : elementHeader ⟨options, 0⟩ (loneTag name valueSpan) span 0 with
    ⟨_ | header, index, log⟩
  · rw [hstart] at hheader
    cases r with
    | error e =>
      cases hheader
      rfl
    | ok kind => cases hheader
  · rw [hstart] at hheader
    cases r with
    | error e => cases hheader
    | ok kind =>
      cases hheader
      simp only [pure_bind, pure_apply, Except.map, hempty, hsingle, ite_self, Tag.element, hlower,
        hvoid, hclosers, loneTag]

/-! ## Compiling -/

/-- The parts of the element's form. -/
def loneParts (options : Options) (name : String) : ElementParts where
  code := .element
  tag := "x"
  doctype := false
  attributes := if keepsLone options name then [(htmlAttributeName name, .string "v")] else []
  content := none
  proxies := (RawAttribute.proxy? ⟨name, none⟩).toList.map fun a => (a.name, .string "v")
  intro := if RawAttribute.fillsIntro ⟨name, none⟩ then some (.string "v") else none
  outro := if RawAttribute.fillsOutro ⟨name, none⟩ then some (.string "v") else none
  decorator := if RawAttribute.isDecorator ⟨name, none⟩ then some "v" else none

/-- The structured form of an element with one attribute, by the parts that can be told apart
in it. -/
theorem structured_lone (options : Options) (name : String) :
    itemsStructured true
        [.element ⟨⟨0, 0⟩, "x", "x", .html (loneDetails options name), false, false, false, none,
          some []⟩] =
      .ok (.array [(loneParts options name).form]) := by
  have hplain : Vocabulary.isPlain "x" = false := by decide
  have hmarkup : itemsMarkup? [.element ⟨⟨0, 0⟩, "x", "x", .html (loneDetails options name), false,
      false, false, none, some []⟩] = none := by
    rw [itemsMarkup?, Item.markup?, loneDetails, Element.markup, hplain]
    rfl
  rw [itemsStructured, itemsForm, if_pos rfl, hmarkup]
  dsimp only
  rw [listStructured, listStructured, Item.structured, loneDetails, Element.structured]
  have hattributes : attributesStructured true [] (loneDetails options name).attributes =
      .ok (loneParts options name).attributes := by
    unfold loneDetails loneParts
    dsimp only
    split
    · rfl
    · rfl
  have hproxies : ∃ members, proxiesStructured (loneDetails options name).proxies = .ok members ∧
      Json.ofPairs members = (loneParts options name).proxies := by
    unfold loneDetails loneParts
    dsimp only
    cases RawAttribute.proxy? ⟨name, none⟩ with
    | none => exact ⟨[], rfl, rfl⟩
    | some a => exact ⟨[(a.name, .string "v")], rfl, rfl⟩
  have htransition : ∀ b : Bool,
      transitionStructured (if b then some (loneDirective name) else none) =
        .ok (if b then some (.string "v") else none) := by
    intro b
    cases b <;> rfl
  obtain ⟨members, hmembers, hpairs⟩ := hproxies
  unfold loneDetails at hattributes hmembers
  dsimp only at hattributes hmembers
  rw [hattributes, hmembers, htransition, htransition]
  show Except.ok (Json.array [ElementParts.form ⟨.element, "x", false,
    (loneParts options name).attributes, none, Json.ofPairs members, _, _, _⟩]) = _
  rw [hpairs]
  rfl

/-- What the template compiles to, if its attribute stands for no proxy without an occasion. -/
theorem compile_loneAttribute {options : Options} {name : String} (hname : ReadableName name)
    (hproxy : Role.ofName name ≠ .proxy "") :
    compile options (loneAttribute name) = .ok (.array [(loneParts options name).form]) := by
  obtain ⟨valueSpan, span, htokens⟩ := exists_tokenize_loneAttribute name.toList.length
  have hbehaviour : ∀ index, Yields (· = index) (behaviourOf (fragmentItems ⟨options, 0⟩) "x" span
      (SortedAttributes.empty.put ⟨name, some [⟨.text "v", valueSpan⟩]⟩))
      (.ok { loneDetails options name with attributes := [] }) := by
    intro index
    rw [behaviourOf_lone _ hname.ne_empty hproxy options]
    exact yields_pure _
  rw [compile, parse_loneAttribute (htokens name hname rfl) (yields_elementKind_lone hbehaviour)]
  exact congrArg (Except.mapError CompileError.write) (structured_lone options name)

/-- A proxy without an occasion does not compile. -/
theorem compile_loneAttribute_of_proxy (options : Options) {name : String}
    (hname : ReadableName name) (hproxy : Role.ofName name = .proxy "") :
    ∃ e, compile options (loneAttribute name) = .error e := by
  obtain ⟨valueSpan, span, htokens⟩ := exists_tokenize_loneAttribute name.toList.length
  have hbehaviour : ∀ index, Yields (· = index) (behaviourOf (fragmentItems ⟨options, 0⟩) "x" span
      (SortedAttributes.empty.put ⟨name, some [⟨.text "v", valueSpan⟩]⟩))
      (.error (ParseFault.illegalDirective.at span)) := by
    intro index
    rw [behaviourOf_lone_of_proxy _ hproxy]
    exact yields_fail _
  rw [compile, parse_loneAttribute (htokens name hname rfl) (yields_elementKind_lone hbehaviour)]
  exact ⟨_, rfl⟩

/-- Whether a value that may be missing is there can be told from it. -/
theorem eq_of_slot_eq {α : Type} {x : α} {b b' : Bool}
    (h : (if b' then some x else none) = (if b then some x else none)) : b' = b := by
  cases b <;> cases b' <;> simp at h ⊢

/-- The form shows the role of the name, and whether the attribute is kept, since it has members of
its own for what each role gives. -/
theorem role_of_loneParts {options : Options} {name name' : String}
    (h : (loneParts options name').form = (loneParts options name).form) :
    Role.ofName name' = Role.ofName name ∧ keepsLone options name' = keepsLone options name := by
  have houtline := congrArg Json.outline h
  rw [ElementParts.outline_form _ (.inl rfl), ElementParts.outline_form _ (.inl rfl),
    Outline.element.injEq, ElementOutline.mk.injEq] at houtline
  obtain ⟨-, -, -, hattributes, -, hproxies, hintro, houtro, hdecorator⟩ := houtline
  dsimp only [loneParts] at hattributes hproxies hintro houtro hdecorator
  rw [Option.map_if, Option.map_if] at hintro houtro
  have hproxy : (RawAttribute.proxy? ⟨name', none⟩).map (·.name) =
      (RawAttribute.proxy? ⟨name, none⟩).map (·.name) := by
    have hfirst := congrArg (fun members => (members.map Prod.fst).head?) hproxies
    simpa only [List.map_map, Function.comp_def, List.head?_map, Option.head?_toList] using hfirst
  refine ⟨Role.ofName_eq_of_marks hproxy (eq_of_slot_eq hintro) (eq_of_slot_eq houtro)
    (eq_of_slot_eq hdecorator), ?_⟩
  have hlength := congrArg List.length hattributes
  cases hkept : keepsLone options name <;> cases hkept' : keepsLone options name' <;>
    simp [hkept, hkept', valuesOutline] at hlength
  · rfl
  · rfl

/-- Names under which an element with one attribute compiles to the same are interchangeable. So if
two names are not, this element is a template that tells them apart. -/
theorem interchangeable_of_compile_eq {options : Options} {name name' : String}
    (hname : ReadableName name) (hname' : ReadableName name')
    (h : compile options (loneAttribute name') = compile options (loneAttribute name)) :
    Interchangeable options name name' := by
  have hnever : ∀ {other : String}, Role.ofName other ≠ .plain →
      Vocabulary.isEventHandler other = false := fun {other} hother => by
    rw [← Bool.not_eq_true]
    exact fun hevent => hother (Role.ofName_of_isEventHandler hevent)
  by_cases hproxy : Role.ofName name = .proxy ""
  · obtain ⟨e, he⟩ := compile_loneAttribute_of_proxy options hname hproxy
    by_cases hproxy' : Role.ofName name' = .proxy ""
    · refine ⟨hproxy'.trans hproxy.symm, fun _ => ?_⟩
      rw [hnever (by rw [hproxy']; simp), hnever (by rw [hproxy]; simp)]
    · rw [he, compile_loneAttribute hname' hproxy'] at h
      cases h
  · rw [compile_loneAttribute hname hproxy] at h
    by_cases hproxy' : Role.ofName name' = .proxy ""
    · obtain ⟨e, he⟩ := compile_loneAttribute_of_proxy options hname' hproxy'
      rw [he] at h
      cases h
    · rw [compile_loneAttribute hname' hproxy', Except.ok.injEq, Json.array.injEq,
        List.cons_eq_cons] at h
      obtain ⟨hrole, hkept⟩ := role_of_loneParts h.1
      refine ⟨hrole, fun hsanitizing => ?_⟩
      by_cases hplain : Role.ofName name = .plain
      · simpa [keepsLone, hrole, hplain, Options.keeps, hsanitizing] using hkept
      · rw [hnever (by rw [hrole]; exact hplain), hnever hplain]

end MustacheMarkup
