/-!
# The vocabulary of the markup

Which elements have no content, which may be inserted as markup, which names have capital letters
in SVG, and which elements an opening tag closes. All names are looked up in lower case; no
function here changes the case of what it is given, but the lookups for SVG disregard it.
-/

set_option autoImplicit false

namespace MustacheMarkup.Vocabulary

/-- The start of a component's tag name. -/
def componentMark : String := "rv-"

/-- The element whose content keeps its blanks. -/
def verbatimElement : String := "pre"

/-- Elements that never have content or a closing tag. A doctype is one of them, so that it does
not swallow the rest of the document. -/
def voidElements : List String :=
  ["area", "base", "br", "col", "command", "doctype", "embed", "hr", "img", "input", "keygen",
   "link", "meta", "param", "source", "track", "wbr"]

/-- Elements that may be inserted as markup. Any other element keeps its structured form. -/
def plainElements : List String :=
  ["a", "abbr", "acronym", "address", "applet", "area", "b", "base", "basefont", "bdo", "big",
   "blockquote", "body", "br", "button", "caption", "center", "cite", "code", "col", "colgroup",
   "dd", "del", "dfn", "dir", "div", "dl", "dt", "em", "fieldset", "font", "form", "frame",
   "frameset", "h1", "h2", "h3", "h4", "h5", "h6", "head", "hr", "html", "i", "iframe", "img",
   "input", "ins", "isindex", "kbd", "label", "legend", "li", "link", "map", "menu", "meta",
   "noframes", "noscript", "object", "ol", "p", "param", "pre", "q", "s", "samp", "script",
   "select", "small", "span", "strike", "strong", "style", "sub", "sup", "textarea", "title",
   "tt", "u", "ul", "var", "article", "aside", "audio", "bdi", "canvas", "command", "data",
   "datagrid", "datalist", "details", "embed", "eventsource", "figcaption", "figure", "footer",
   "header", "hgroup", "keygen", "mark", "meter", "nav", "output", "progress", "ruby", "rp", "rt",
   "section", "source", "summary", "time", "track", "video", "wbr"]

/-- Elements of SVG with capital letters in their names. -/
def svgElements : List String :=
  ["altGlyph", "altGlyphDef", "altGlyphItem", "animateColor", "animateMotion", "animateTransform",
   "clipPath", "feBlend", "feColorMatrix", "feComponentTransfer", "feComposite",
   "feConvolveMatrix", "feDiffuseLighting", "feDisplacementMap", "feDistantLight", "feFlood",
   "feFuncA", "feFuncB", "feFuncG", "feFuncR", "feGaussianBlur", "feImage", "feMerge",
   "feMergeNode", "feMorphology", "feOffset", "fePointLight", "feSpecularLighting", "feSpotLight",
   "feTile", "feTurbulence", "foreignObject", "glyphRef", "linearGradient", "radialGradient",
   "textPath", "vkern"]

/-- Attributes of SVG with capital letters in their names. -/
def svgAttributes : List String :=
  ["attributeName", "attributeType", "baseFrequency", "baseProfile", "calcMode", "clipPathUnits",
   "contentScriptType", "contentStyleType", "diffuseConstant", "edgeMode",
   "externalResourcesRequired", "filterRes", "filterUnits", "glyphRef", "gradientTransform",
   "gradientUnits", "kernelMatrix", "kernelUnitLength", "keyPoints", "keySplines", "keyTimes",
   "lengthAdjust", "limitingConeAngle", "markerHeight", "markerUnits", "markerWidth",
   "maskContentUnits", "maskUnits", "numOctaves", "pathLength", "patternContentUnits",
   "patternTransform", "patternUnits", "pointsAtX", "pointsAtY", "pointsAtZ", "preserveAlpha",
   "preserveAspectRatio", "primitiveUnits", "refX", "refY", "repeatCount", "repeatDur",
   "requiredExtensions", "requiredFeatures", "specularConstant", "specularExponent",
   "spreadMethod", "startOffset", "stdDeviation", "stitchTiles", "surfaceScale", "systemLanguage",
   "tableValues", "targetX", "targetY", "textLength", "viewBox", "viewTarget", "xChannelSelector",
   "yChannelSelector", "zoomAndPan"]

/-- Elements whose opening tag ends a paragraph. -/
def paragraphClosers : List String :=
  ["address", "article", "aside", "blockquote", "dir", "div", "dl", "fieldset", "footer", "form",
   "h1", "h2", "h3", "h4", "h5", "h6", "header", "hgroup", "hr", "menu", "nav", "ol", "p", "pre",
   "section", "table", "ul"]

/-- Whether an element never has content. -/
def isVoid (name : String) : Bool :=
  voidElements.contains name

/-- Whether an element may be inserted as markup. -/
def isPlain (name : String) : Bool :=
  plainElements.contains name

/-- Whether two names differ at most in the case of their ASCII letters. -/
def sameAscii (a b : String) : Bool :=
  a.toList.map Char.toLower == b.toList.map Char.toLower

/-- The name of an SVG element with its capital letters, if it has any. -/
def svgElement? (name : String) : Option String :=
  svgElements.find? (sameAscii name)

/-- The name of an SVG attribute with its capital letters, if it has any. -/
def svgAttribute? (name : String) : Option String :=
  svgAttributes.find? (sameAscii name)

/-- The elements whose opening tag closes an open element of this name, if there are any. -/
def closers? : String → Option (List String)
  | "li" => some ["li"]
  | "dt" | "dd" => some ["dt", "dd"]
  | "p" => some paragraphClosers
  | "rt" => some ["rt", "rp"]
  | "rp" => some ["rp", "rt"]
  | "optgroup" => some ["optgroup"]
  | "option" => some ["option", "optgroup"]
  | "thead" | "tbody" => some ["tbody", "tfoot"]
  | "tr" => some ["tr"]
  | "td" | "th" => some ["td", "th"]
  | _ => none

/-- Whether the opening tag of an element is among those that close an open one. -/
def isAmong (closers : Option (List String)) (opening : String) : Bool :=
  (closers.getD []).contains opening

/-- Whether the opening tag of one element closes an open element of another name. -/
def closes (opening name : String) : Bool :=
  isAmong (closers? name) opening

/-- Whether a name is `on` and an ASCII letter, and perhaps more: the name of an event handler. -/
def isEventHandler (name : String) : Bool :=
  match name.toList with
  | 'o' :: 'n' :: c :: _ => c.isAlpha
  | _ => false

end MustacheMarkup.Vocabulary
