import MustacheMarkup.Item.Blank
import MustacheMarkup.Template.Cursor
import MustacheMarkup.Template.Options

/-!
# Building the tree of a template

Items are collected one after another until the list they belong to ends. What ends a list depends
on what it is the content of:

* a template or a fragment ends with its tokens;
* a section ends with a closing mustache, whatever its reference, which is used up;
* an element ends with its own closing tag, which is used up, and before any other closing tag,
  before the opening tag of a sibling that closes it, and before a closing mustache.

Tokens that run out end every list, so no nesting is wrong. A closing tag or mustache that nothing
claims is passed over.

Every step uses at least one token, and a fragment has fewer tokens than the tag it stands in. So
the number of tokens, those in the values of attributes included, bounds the steps that are
needed, and that bound is what `items`, `nextItem` and `fragmentItems` allow.
-/

set_option autoImplicit false

namespace MustacheMarkup

/-- What a list of items is the content of. -/
inductive Container where
  /-- a template or a fragment -/
  | whole
  /-- a section, with its reference -/
  | block (reference : String)
  /-- an element, with its name in lower case and the elements whose opening tag closes it -/
  | element (name : String) (closers : Option (List String))
deriving Repr, DecidableEq

/-- What a run of building is about: the options, and the number that its node ids carry. -/
structure Settings where
  options : Options
  run : Nat

namespace Building

/-- Whether an element's content ends before a token or with it. -/
def elementEnds (name : String) (closers : Option (List String)) (t : Token) : Building Bool :=
  match t.lexeme with
  | .mustache .closing _ => do
    Journal.note (.closedBySectionEnd name t.span.line)
    return true
  | .tag tag =>
    if tag.closing then
      if Text.lower tag.name = name then do
        advance
        Journal.note (.closed name)
        return true
      else do
        Journal.note (.closedByTag name tag.name t.span.line)
        return true
    else if Vocabulary.isAmong closers (Text.lower tag.name) then do
      Journal.note (.closedBySibling name tag.name t.span.line)
      return true
    else return false
  | _ => return false

/-- Whether a section's content ends with a token. -/
def blockEnds (reference : String) (t : Token) : Building Bool :=
  match t.lexeme with
  | .mustache .closing closing => do
    if closing ≠ "" ∧ closing ≠ reference then
      Journal.note (.sectionMismatch reference closing t.span.line)
    advance
    return true
  | _ => return false

/-- Whether the content of a container ends here. What belongs to its end is used. -/
def ends (container : Container) : Building Bool := do
  match ← peek with
  | none => return true
  | some t =>
    match container with
    | .whole => return false
    | .block reference => blockEnds reference t
    | .element name closers => elementEnds name closers t

/-! ## Opening tags -/

/-- A name with hyphens as one word: a hyphen and the ASCII letter behind it become a capital
letter. -/
def camelCase : List Char → List Char
  | [] => []
  | ['-'] => ['-']
  | '-' :: c :: rest =>
    if c.isAlpha then c.toUpper :: camelCase rest else '-' :: camelCase (c :: rest)
  | c :: rest => c :: camelCase rest

/-- Whether a name in lower case is that of a component. -/
def isComponent (lowerName : String) : Bool :=
  Vocabulary.componentMark.toList.isPrefixOf lowerName.toList

/-- The name of a component whose tag has this name. -/
def componentName (rawName : String) : String :=
  String.ofList (camelCase (rawName.toList.drop Vocabulary.componentMark.toList.length))

/-- The attributes that are kept, of those that are plain. -/
def sanitize (tag : String) : List RawAttribute → Numbered (List RawAttribute)
  | [] => return []
  | a :: rest =>
    if Vocabulary.isEventHandler a.name then do
      Journal.note (.sanitized a.name tag)
      sanitize tag rest
    else do
      let kept ← sanitize tag rest
      return a :: kept

/-- What an element of the markup has besides its content, from the attributes of its tag. -/
def htmlDetails (options : Options) (fragment : FragmentBuilder) (lowerName : String)
    (attributes : List RawAttribute) (span : Span) : Numbered HtmlDetails := do
  let tag := (Vocabulary.svgElement? lowerName).getD lowerName
  let sorted ← Journal.ofExcept ((SortedAttributes.ofList attributes).mapError (·.at span))
  let plain ← if options.sanitizeEventAttributes then sanitize tag sorted.plain
    else pure sorted.plain
  let attributes ← Journal.each (Attribute.ofHtml fragment) plain
  let proxies ← Journal.each (Directive.ofRaw fragment span) sorted.proxies
  let intro ← Journal.whenSome (Directive.ofRaw fragment span) sorted.intro
  let outro ← Journal.whenSome (Directive.ofRaw fragment span) sorted.outro
  let decorator ← Journal.whenSome (decoratorName span) sorted.decorator
  return ⟨tag, attributes, proxies, intro, outro, decorator.join⟩

/-- What the element of a tag is. -/
def elementKind (options : Options) (fragment : FragmentBuilder) (lowerName : String) (tag : Tag)
    (span : Span) : Numbered ElementKind :=
  if isComponent lowerName then do
    let attributes ← Journal.each (Attribute.ofComponent fragment) tag.attributes
    return .component (componentName tag.name) attributes
  else
    .html <$> htmlDetails options fragment lowerName tag.attributes span

/-! ## Items -/

/-- Build the element whose opening tag comes next, where `collect` builds content. -/
def elementWith (settings : Settings) (collect : Container → Bool → Building (List Item))
    (keepBlanks : Bool) (tag : Tag) (span : Span) : Building Element := do
  let lowerName := Text.lower tag.name
  advance
  let index ← takeIndex
  let kind ← numbered
    (elementKind settings.options (fragment (collect .whole true)) lowerName tag span)
  let id : NodeId := ⟨settings.run, index⟩
  let isVoid := Vocabulary.isVoid lowerName
  let closers := Vocabulary.closers? lowerName
  if tag.selfClosing || isVoid then do
    Journal.note (.built lowerName)
    return ⟨id, tag.name, lowerName, kind, tag.doctype, tag.selfClosing, isVoid, closers, none⟩
  else do
    Journal.note (.opened lowerName)
    let keepBlanks := keepBlanks || lowerName == Vocabulary.verbatimElement
    let children ← collect (.element lowerName closers) keepBlanks
    let children := if keepBlanks then children else trimBoundary children
    return ⟨id, tag.name, lowerName, kind, tag.doctype, tag.selfClosing, isVoid, closers,
      some children⟩

/-- Build the item that starts with a mustache, which has been used. Closing mustaches and remarks
leave nothing. -/
def mustacheWith (collect : Container → Bool → Building (List Item)) (keepBlanks : Bool)
    (kind : MustacheKind) (reference : String) (line : Nat) : Building (Option Item) :=
  match kind with
  | .interpolation => return some (.mustache .interpolation reference)
  | .unescaped => return some (.mustache .unescaped reference)
  | .opening => do
    let items ← collect (.block reference) keepBlanks
    return some (.block reference false items)
  | .inverted => do
    let items ← collect (.block reference) keepBlanks
    return some (.block reference true items)
  | .inclusion => return some (.inclusion reference)
  | .remark => return none
  | .closing => do
    Journal.note (.straySectionEnd reference line)
    return none

/-- Build the item that comes next, where `collect` builds content. Some tokens leave nothing. -/
def nextItemWith (settings : Settings) (collect : Container → Bool → Building (List Item))
    (keepBlanks : Bool) : Building (Option Item) := do
  match ← peek with
  | none => return none
  | some ⟨.text _, _⟩ => do
    let content ← takeText
    return some (.text (if keepBlanks then content else Text.collapse content))
  | some ⟨.comment content, _⟩ => do
    advance
    return some (.comment content)
  | some ⟨.mustache kind reference, span⟩ => do
    advance
    mustacheWith collect keepBlanks kind reference span.line
  | some ⟨.tag tag, span⟩ =>
    if tag.closing then do
      Journal.note (.strayClosingTag tag.name span.line)
      advance
      return none
    else
      (fun e => some (.element e)) <$> elementWith settings collect keepBlanks tag span

/-- Build the content of a container in at most so many steps. -/
def collect (settings : Settings) : Nat → Container → Bool → Building (List Item)
  | 0, _, _ => return []
  | n + 1, container, keepBlanks => do
    if ← ends container then return []
    else
      let item ← nextItemWith settings (collect settings n) keepBlanks
      let items ← collect settings n container keepBlanks
      return item.toList ++ items

/-- Build the content of a container. -/
def items (settings : Settings) (container : Container) (keepBlanks : Bool) :
    Building (List Item) :=
  fun c => collect settings (Token.totalWeight c.tokens) container keepBlanks c

/-- Build the item that comes next. Some tokens leave nothing. -/
def nextItem (settings : Settings) (keepBlanks : Bool) : Building (Option Item) :=
  fun c => nextItemWith settings (collect settings (Token.totalWeight c.tokens)) keepBlanks c

/-- Build a fragment: all items of tokens of its own, with their blanks. -/
def fragmentItems (settings : Settings) : FragmentBuilder :=
  fragment (items settings .whole true)

/-- Build all items that are left, and trim them unless blanks are kept. -/
def template (settings : Settings) : Building (List Item) := do
  let built ← items settings .whole settings.options.preserveWhitespace
  return if settings.options.preserveWhitespace then built else trimBoundary built

end Building

/-! ## Templates -/

namespace Template

/-- Build a template from tokens. -/
def ofTokens (settings : Settings) (tokens : List Token) : Outcome Cursor ParseError (List Item) :=
  Building.template settings ⟨tokens, 0⟩

/-- Build a template from a source text. -/
def ofSource (settings : Settings) (source : String) : Outcome Unit ParseError (List Item) :=
  match tokenize source with
  | .error e => ⟨.error (ParseError.ofScanError e), (), []⟩
  | .ok tokens =>
    let o := ofTokens settings tokens
    ⟨o.result, (), .scanned tokens.length :: o.log⟩

/-- The items of a source text. -/
def parse (options : Options) (source : String) : Except ParseError (List Item) :=
  (ofSource ⟨options, 0⟩ source).result

end Template

end MustacheMarkup
