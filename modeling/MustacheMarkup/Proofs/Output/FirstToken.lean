import MustacheMarkup.Proofs.Item.Inside
import MustacheMarkup.Proofs.Journal.Success
import MustacheMarkup.Proofs.Output.Memory
import MustacheMarkup.Proofs.Output.ReadBack
import MustacheMarkup.Proofs.Token.Layout

/-!
# The first token of an element's markup

The markup of an element starts with its opening tag, and reading that gives a tag with the same
name and attributes. This needs nothing about the content, which may be read as anything. Of the
attributes it needs that their names are made of characters of names, and that no mustache starts in
their values; whether a value has quotes, slashes or brackets in it makes no difference.

What a serializer writes depends on what it remembers. So the texts that an element is written from
are taken from the serializer itself, in the order in which it writes them: first the content, then
the attributes. Where identities tell the elements apart, they are the texts of the items.
-/

set_option autoImplicit false

namespace MustacheMarkup

open Output

/-! ## What an element is written from -/

/-- What a serializer writes an element from: the text of its content, and then those of its
attributes. -/
structure Element.WrittenFrom (e : Element) (memo : Memo) (content : String)
    (texts : List (String × Option String)) : Prop where
  content : (Serializer.contentMarkup e.children memo).result = .ok (some content)
  texts : (Serializer.attributesMarkup e.attributes
    (Serializer.contentMarkup e.children memo).state).result = .ok (.ok texts)

/-- An attribute is written with its name, and with the text of its value if it has one. -/
def Attribute.WrittenAs (a : Attribute) (w : String × Option String) : Prop :=
  w.1 = a.name ∧ ∃ memo, (Serializer.valueMarkup a.value memo).result = .ok (some w.2)

namespace Serializer

/-- An element that is not remembered is written now. -/
theorem exists_of_recallMarkup {memo : Memo} {id : NodeId} {lowerName m : String}
    {write : Serializing (Except Refusal String)} (hnew : memo.markups[id]? = none)
    (h : (recallMarkup id lowerName write memo).result = .ok (some m)) :
    (write memo).result = .ok (.ok m) := by
  unfold recallMarkup at h
  rw [Journal.bind_apply] at h
  simp only [Journal.get, hnew] at h
  obtain ⟨markup, hwrite, h⟩ := Journal.result_bind_eq_ok h
  cases markup with
  | error refusal =>
    obtain ⟨_, -, h⟩ := Journal.result_bind_eq_ok h
    obtain ⟨_, -, h⟩ := Journal.result_bind_eq_ok h
    cases Journal.result_pure_eq_ok h
  | ok markup =>
    obtain ⟨_, -, h⟩ := Journal.result_bind_eq_ok h
    cases Journal.result_pure_eq_ok h
    exact hwrite

/-- What the markup of an element that is not remembered is put together from. The memory may still
hold what is inside, so the texts of the attributes are those that it gives. -/
theorem exists_of_elementMarkup {e : Element} {details : HtmlDetails} {memo : Memo} {m : String}
    (hkind : e.kind = .html details) (hnew : memo.markups[e.id]? = none)
    (h : (elementMarkup e memo).result = .ok (some m)) :
    ∃ content texts, e.WrittenFrom memo content texts ∧
      m = elementText details.tag texts e.isVoid e.selfClosing content := by
  obtain ⟨id, rawName, lowerName, kind, doctype, selfClosing, isVoid, closers, children⟩ := e
  obtain ⟨tag, attributes, proxies, intro, outro, decorator⟩ := details
  obtain rfl : kind = _ := hkind
  rw [elementMarkup] at h
  have hwrite := exists_of_recallMarkup hnew h
  split at hwrite
  · cases hwrite
  · split at hwrite
    · cases hwrite
    · obtain ⟨content?, hcontent, hwrite⟩ := Journal.result_bind_eq_ok hwrite
      cases content? with
      | none => cases hwrite
      | some content =>
        obtain ⟨texts?, htexts, hwrite⟩ := Journal.result_bind_eq_ok hwrite
        cases texts? with
        | error refusal => cases hwrite
        | ok texts =>
          cases hwrite
          exact ⟨content, texts, ⟨hcontent, htexts⟩, rfl⟩

/-- The names and texts that attributes are written with, in the order of the attributes. An
attribute without a value is written without one. -/
theorem forall₂_of_attributesMarkup {attributes : List Attribute} {memo : Memo}
    {texts : List (String × Option String)}
    (h : (attributesMarkup attributes memo).result = .ok (.ok texts)) :
    List.Forall₂ Attribute.WrittenAs attributes texts := by
  induction attributes generalizing memo texts with
  | nil =>
    cases h
    exact .nil
  | cons a rest ih =>
    obtain ⟨name, value⟩ := a
    rw [attributesMarkup] at h
    split at h
    · cases h
    · obtain ⟨text?, htext, h⟩ := Journal.result_bind_eq_ok h
      cases text? with
      | none => cases h
      | some text =>
        obtain ⟨texts?, htexts, h⟩ := Journal.result_bind_eq_ok h
        cases texts? with
        | error refusal => cases h
        | ok texts =>
          cases h
          exact .cons ⟨rfl, memo, htext⟩ (ih htexts)

end Serializer

/-- Where identities tell the elements apart, an element is written from the texts of its items. -/
theorem Element.WrittenFrom.of_sound {e : Element} {nodes : Set Element} {memo : Memo}
    {content : String} {texts : List (String × Option String)}
    (h : e.WrittenFrom memo content texts) (hid : Set.InjOn Element.id nodes)
    (hmemo : memo.Sound nodes) (hmem : ∀ e' ∈ e.elements, e' ∈ nodes) :
    contentMarkup? e.children = some content ∧ attributesMarkup e.attributes = .ok texts := by
  have hchildren := Serializer.yields_contentMarkup hid e.children fun e' he' =>
    hmem e' (e.sublist_content.subset he')
  have hattributes := Serializer.yields_attributesMarkup hid e.attributes fun e' he' =>
    hmem e' ((e.sublist_attributes.trans e.sublist_kind).subset he')
  have hcontent := h.content
  rw [hchildren.result hmemo] at hcontent
  have htexts := h.texts
  rw [hattributes.result (hchildren.state hmemo)] at htexts
  exact ⟨Except.ok.inj hcontent, Except.ok.inj htexts⟩

/-! ## What is read of its opening tag -/

/-- A text in which every double quote is written as `&quot;`. -/
def quotesWritten (text : String) : String :=
  String.ofList (text.toList.flatMap fun c => if c = '"' then "&quot;".toList else [c])

/-- An attribute that is read is one that was written: it has the name, and no value if none or an
empty one was written, and else one text, which is the one that was written but for its double
quotes. -/
def RawAttribute.ReadsBack (raw : RawAttribute) (w : String × Option String) : Prop :=
  raw.name = w.1 ∧
    (raw.value = none ∧ (w.2 = none ∨ w.2 = some "") ∨
      ∃ text span, w.2 = some text ∧ text ≠ "" ∧
        raw.value = some [⟨.text (quotesWritten text), span⟩])

/-- What is read of an attribute, as a form has it, is what was written. -/
theorem readsBack_of_reads {raw : RawAttribute} {w : String × Option String}
    (h : raw.Reads (w.1, w.2.getD "")) : raw.ReadsBack w := by
  obtain ⟨name, text | text⟩ := w
  · exact ⟨h.1, .inl ⟨h.2, .inl rfl⟩⟩
  · obtain ⟨hname, hvalue⟩ := h
    refine ⟨hname, ?_⟩
    simp only [Option.getD_some] at hvalue
    split at hvalue
    · rename_i hempty
      exact .inl ⟨hvalue, .inr (congrArg some (String.isEmpty_iff.mp hempty))⟩
    · rename_i hempty
      obtain ⟨span, hspan⟩ := hvalue
      exact .inr ⟨text, span, rfl, fun h => hempty (String.isEmpty_iff.mpr h), hspan⟩

/-- A name that is made of characters of names. -/
def PlainName (name : String) : Prop :=
  name ≠ "" ∧ ∀ c ∈ name.toList, isAttributeNameChar c = true

/-- A name of attributes is not `=`, as that is no character of names. -/
theorem PlainName.ne_equals {name : String} (h : PlainName name) : name ≠ "=" := by
  rintro rfl
  exact absurd (h.2 '=' (by decide)) (by decide)

/-- A text without two braces side by side, in which no mustache starts. -/
def Braceless (text : String) : Prop :=
  ¬['{', '{'] <:+: text.toList

/-- No mustache starts in characters without two braces side by side. -/
theorem braceless_iff {s : List Char} : braceless s = true ↔ ¬['{', '{'] <:+: s := by
  induction s with
  | nil => simp [braceless]
  | cons c s ih =>
    rw [braceless, Bool.and_eq_true, ih, Bool.not_eq_true', List.infix_cons_iff, not_or,
      ← Bool.not_eq_true, startsMustache, List.isPrefixOf_iff_prefix]

/-- Attributes none of which is named `=` do not run into each other. -/
theorem attributesApart_of_ne {attributes : List (String × String)}
    (h : ∀ a ∈ attributes, a.1 ≠ "=") : attributesApart attributes = true := by
  induction attributes with
  | nil => rfl
  | cons a rest ih =>
    cases rest with
    | nil => rfl
    | cons b rest =>
      obtain ⟨-, hrest⟩ := List.forall_mem_cons.mp h
      have hb : (b.1 == "=") = false := beq_eq_false_iff_ne.mpr (hrest b List.mem_cons_self)
      rw [attributesApart, ih hrest, hb, Bool.and_false]
      rfl

/-- The names that are written are those of the attributes. -/
theorem plainName_of_writtenAs {attributes : List Attribute}
    {texts : List (String × Option String)} (h : List.Forall₂ Attribute.WrittenAs attributes texts)
    (hnames : ∀ a ∈ attributes, PlainName a.name) : ∀ w ∈ texts, PlainName w.1 := by
  induction h with
  | nil => exact List.forall_mem_nil _
  | cons hfirst _ ih =>
    obtain ⟨hname, hrest⟩ := List.forall_mem_cons.mp hnames
    exact List.forall_mem_cons.mpr ⟨hfirst.1 ▸ hname, ih hrest⟩

/-- The opening tag that starts what is written of an element reads back, and behind it stands the
content with the closing tag, if the element has both. -/
theorem scanNext_elementText {tag : String} {texts : List (String × Option String)}
    {void selfClosing : Bool} {content : String} {src : Source}
    (hsrc : src.rest = (elementText tag texts void selfClosing content).toList)
    (hplain : Vocabulary.isPlain tag = true) (hnames : ∀ w ∈ texts, PlainName w.1)
    (htexts : ∀ w ∈ texts, ∀ text, w.2 = some text → Braceless text) :
    ∃ raws later,
      scanNext src = .ok (.tag ⟨tag, raws, false, selfClosing && !void, false⟩, later) ∧
      later.rest = (if void || selfClosing then []
        else (content ++ "</" ++ tag ++ ">").toList) ∧
      List.Forall₂ RawAttribute.ReadsBack raws texts := by
  have hopening : src.rest =
      (openingTag tag (written (texts.map fun w => (w.1, w.2.getD ""))) void selfClosing).toList ++
        (if void || selfClosing then "" else content ++ "</" ++ tag ++ ">").toList := by
    rw [hsrc, openingTag_written, ← String.toList_append]
    rfl
  have hreadable : ∀ a ∈ texts.map fun w => (w.1, w.2.getD ""),
      ReadableName a.1 ∧ braceless a.2.toList = true := by
    refine List.forall_mem_map.mpr fun w hw => ⟨.inl (hnames w hw), ?_⟩
    cases htext : w.2 with
    | none => rfl
    | some text => exact braceless_iff.mpr (htexts w hw text htext)
  have happart : attributesApart (texts.map fun w => (w.1, w.2.getD "")) = true :=
    attributesApart_of_ne (List.forall_mem_map.mpr fun w hw => (hnames w hw).ne_equals)
  obtain ⟨raws, later, hscan, hlater, hreads⟩ :=
    scanNext_openingTag hopening (readableTagName_of_isPlain hplain) hreadable happart
  rw [Bool.and_comm] at hscan
  refine ⟨raws, later, hscan, ?_, ?_⟩
  · rw [hlater]
    split <;> rfl
  · exact (List.forall₂_map_right_iff.mp hreads).imp fun _ _ => readsBack_of_reads

/-- The text of an element has a first character, so there is something to read. -/
theorem elementText_ne_nil (tag : String) (texts : List (String × Option String))
    (void selfClosing : Bool) (content : String) :
    (elementText tag texts void selfClosing content).toList ≠ [] := by
  simp [elementText, openingTag]

/-- The first token that is read of a text is the first of all its tokens, if the rest of the text
can be read too, and it stands in front of what is left. -/
theorem head?_of_scanNext {m : String} {lexeme : Lexeme} {later : Source} (hne : m.toList ≠ [])
    (h : scanNext (Source.ofString m) = .ok (lexeme, later)) :
    (∀ tokens, tokenize m = .ok tokens →
        tokens.head? = some ⟨lexeme, (Source.ofString m).spanTo later⟩) ∧
      m.toList.drop later.position.offset = later.rest := by
  constructor
  · intro tokens htokens
    obtain ⟨lexeme', later', rest, hscan, -, rfl⟩ := exists_of_scanAll hne htokens
    rw [h] at hscan
    cases hscan
    rfl
  · have hstart := readsIn_ofString m
    exact ((stands_of_scanNext hstart h).1.readsIn hstart).drop_eq

/-- The markup that a serializer gives for an element it does not remember starts with a tag that
reads back: it has the element's name and its attributes in their order, each with the text that was
written of its value, and closes itself if the element does and is not void. It stands in front of
the content and the closing tag, or at the end where there are none. Where identities tell the
elements apart, the texts are those of the items, and every serializer answers with this markup,
whatever it remembers. -/
theorem openingTag_readsBack (e : Element) (details : HtmlDetails) (memo : Memo) (m : String)
    (hkind : e.kind = .html details) (hplain : Vocabulary.isPlain details.tag = true)
    (hnames : ∀ a ∈ details.attributes, PlainName a.name)
    (htexts : ∀ content texts, e.WrittenFrom memo content texts →
      ∀ w ∈ texts, ∀ text, w.2 = some text → Braceless text)
    (hnew : memo.markups[e.id]? = none)
    (hm : (Serializer.elementMarkup e memo).result = .ok (some m)) :
    ∃ content texts raws later,
      let lexeme := Lexeme.tag ⟨details.tag, raws, false, e.selfClosing && !e.isVoid, false⟩
      e.WrittenFrom memo content texts ∧
      List.Forall₂ Attribute.WrittenAs details.attributes texts ∧
      scanNext (Source.ofString m) = .ok (lexeme, later) ∧
      (∀ tokens, tokenize m = .ok tokens →
        tokens.head? = some ⟨lexeme, (Source.ofString m).spanTo later⟩) ∧
      List.Forall₂ RawAttribute.ReadsBack raws texts ∧
      m.toList.drop later.position.offset =
        (if e.isVoid || e.selfClosing then [] else (content ++ "</" ++ details.tag ++ ">").toList) ∧
      ∀ nodes : Set Element, Set.InjOn Element.id nodes → memo.Sound nodes →
        (∀ e' ∈ e.elements, e' ∈ nodes) →
        contentMarkup? e.children = some content ∧
        attributesMarkup details.attributes = .ok texts ∧
        ∀ memo' : Memo, memo'.Sound nodes →
          (Serializer.elementMarkup e memo').result = .ok (some m) := by
  obtain ⟨content, texts, hwritten, rfl⟩ := Serializer.exists_of_elementMarkup hkind hnew hm
  have hattributes : e.attributes = details.attributes := by
    unfold Element.attributes
    rw [hkind]
  have hboth := Serializer.forall₂_of_attributesMarkup hwritten.texts
  rw [hattributes] at hboth
  have hsrc : (Source.ofString (elementText details.tag texts e.isVoid e.selfClosing
      content)).rest = (elementText details.tag texts e.isVoid e.selfClosing content).toList := rfl
  obtain ⟨raws, later, hscan, hlater, hreads⟩ := scanNext_elementText hsrc hplain
    (plainName_of_writtenAs hboth hnames) (htexts content texts hwritten)
  have hne : (elementText details.tag texts e.isVoid e.selfClosing content).toList ≠ [] :=
    elementText_ne_nil _ _ _ _ _
  obtain ⟨hhead, hdrop⟩ := head?_of_scanNext hne hscan
  refine ⟨content, texts, raws, later, hwritten, hboth, hscan, hhead, hreads,
    hdrop.trans hlater, fun nodes hid hmemo hmem => ?_⟩
  obtain ⟨hcontent, htexts⟩ := hwritten.of_sound hid hmemo hmem
  rw [hattributes] at htexts
  refine ⟨hcontent, htexts, fun memo' hmemo' => ?_⟩
  have hanswer := Serializer.yields_elementMarkup hid e hmem
  rw [hanswer.result hmemo', ← hanswer.result hmemo]
  exact hm

/-- An element that closes itself, with a value that needs quotes and has some in it, an attribute
without a value, an empty value, and a last value without quotes. -/
def selfClosed : Element :=
  ⟨⟨0, 0⟩, "P", "p", .html ⟨"p", [⟨"b", some [.text "a\n\"/>\"", .comment "c"]⟩, ⟨"c", none⟩,
    ⟨"d", some []⟩, ⟨"e", some [.text "x/"]⟩], [], none, none, none⟩, false, true, false,
    some Vocabulary.paragraphClosers, none⟩

/-- The theorem at an element with all kinds of values: its first token is the opening tag, the
quotes in its values come back as they were written, and the space before the slash keeps that out
of the last value. -/
theorem selfClosed_readsBack :
    let m := "<p b=\"a\n&quot;/>&quot;<!--c-->\" c d e=x/ />"
    let details : HtmlDetails := ⟨"p", selfClosed.attributes, [], none, none, none⟩
    selfClosed.kind = .html details ∧ selfClosed.selfClosing = true ∧ selfClosed.isVoid = false ∧
      (∀ a ∈ details.attributes, PlainName a.name) ∧
      (Serializer.elementMarkup selfClosed Memo.empty).result = .ok (some m) ∧
      ∃ content texts raws later,
        let lexeme := Lexeme.tag
          ⟨details.tag, raws, false, selfClosed.selfClosing && !selfClosed.isVoid, false⟩
        selfClosed.WrittenFrom Memo.empty content texts ∧
        List.Forall₂ Attribute.WrittenAs details.attributes texts ∧
        scanNext (Source.ofString m) = .ok (lexeme, later) ∧
        (∀ tokens, tokenize m = .ok tokens →
          tokens.head? = some ⟨lexeme, (Source.ofString m).spanTo later⟩) ∧
        List.Forall₂ RawAttribute.ReadsBack raws texts ∧
        m.toList.drop later.position.offset =
          (if selfClosed.isVoid || selfClosed.selfClosing then []
            else (content ++ "</" ++ details.tag ++ ">").toList) ∧
        ∀ nodes : Set Element, Set.InjOn Element.id nodes → Memo.empty.Sound nodes →
          (∀ e' ∈ selfClosed.elements, e' ∈ nodes) →
          contentMarkup? selfClosed.children = some content ∧
          attributesMarkup details.attributes = .ok texts ∧
          ∀ memo' : Memo, memo'.Sound nodes →
            (Serializer.elementMarkup selfClosed memo').result = .ok (some m) := by
  intro m details
  have hself : ∀ e ∈ selfClosed.elements, e ∈ ({selfClosed} : Set Element) := by
    simp [selfClosed, Element.elements, ElementKind.elements, attributesElements, Item.elements,
      directivesElements, transitionElements, fragmentElements, itemsElements]
  have hid : Set.InjOn Element.id {selfClosed} := Set.injOn_singleton _ _
  have hm : (Serializer.elementMarkup selfClosed Memo.empty).result = .ok (some m) := by
    rw [(Serializer.yields_elementMarkup hid selfClosed hself).result (Memo.sound_empty _)]
    have hwritten : selfClosed.markup.toOption = some m := by decide +kernel
    rw [hwritten]
  have hnames : ∀ a ∈ details.attributes, PlainName a.name := by
    simp only [details, selfClosed, Element.attributes, List.forall_mem_cons]
    -- by members: to decide it for all characters would go through every one there is
    have hchars : ∀ name : String, name.toList.all isAttributeNameChar = true →
        ∀ c ∈ name.toList, isAttributeNameChar c = true := fun name => List.all_eq_true.mp
    exact ⟨⟨by decide, hchars "b" (by decide +kernel)⟩, ⟨by decide, hchars "c" (by decide +kernel)⟩,
      ⟨by decide, hchars "d" (by decide +kernel)⟩, ⟨by decide, hchars "e" (by decide +kernel)⟩,
      List.forall_mem_nil _⟩
  have htexts : ∀ content texts, selfClosed.WrittenFrom Memo.empty content texts →
      ∀ w ∈ texts, ∀ text, w.2 = some text → Braceless text := by
    intro content texts hwritten w hw text htext
    have hpure := (hwritten.of_sound hid (Memo.sound_empty _) hself).2
    have hall : (attributesMarkup selfClosed.attributes).toOption.all
        (fun texts => texts.all fun w => w.2.all fun text => braceless text.toList) = true := by
      decide +kernel
    rw [hpure] at hall
    have hone := List.all_eq_true.mp hall w hw
    rw [htext] at hone
    exact braceless_iff.mp hone
  exact ⟨rfl, rfl, by decide, hnames, hm, openingTag_readsBack selfClosed details Memo.empty m rfl
    (by decide) hnames htexts (by simp [Memo.empty]) hm⟩

end MustacheMarkup
