import Mathlib.Data.Set.Function
import MustacheMarkup.Output.Serializer
import MustacheMarkup.Proofs.Item.Elements
import MustacheMarkup.Proofs.Journal.Yields

/-!
# A serializer's memory does not show

A serializer with a memory answers like `Item.markup?` and `Item.structured` do, which have none.
What carries this is `Memo.Sound`: whatever the memory holds for an element is what that element
comes to without a memory. A memory knows elements by their identity alone, so all of it is said
for a set of elements in which the identity determines the element.

`Call` names what a serializer can be asked for, and `Call.answers` asks one serializer for several
things in turn, after failures too. The main statement, `answers_eq_answers_of_fresh`, is that
every answer is the one that a serializer without any memory gives.
-/

set_option autoImplicit false

namespace MustacheMarkup

/-- What a memory holds for the elements of a set is what they come to without it. -/
structure Memo.Sound (nodes : Set Element) (memo : Memo) : Prop where
  markups : ∀ e ∈ nodes, ∀ markup, memo.markups[e.id]? = some markup → markup = e.markup.toOption
  forms : ∀ e ∈ nodes, ∀ inline form, memo.forms[(e.id, inline)]? = some form →
    e.structured inline = .ok form

/-- A memory that holds nothing is sound. -/
theorem Memo.sound_empty (nodes : Set Element) : Memo.empty.Sound nodes :=
  ⟨fun e _ markup h => by simp [Memo.empty] at h, fun e _ inline form h => by
    simp [Memo.empty] at h⟩

/-- A memory stays sound when an element's markup is put into it. -/
theorem Memo.Sound.insertMarkup {nodes : Set Element} {memo : Memo} (hmemo : memo.Sound nodes)
    (hid : Set.InjOn Element.id nodes) {e : Element} (he : e ∈ nodes) :
    Memo.Sound nodes { memo with markups := memo.markups.insert e.id e.markup.toOption } := by
  refine ⟨fun e' he' markup h => ?_, hmemo.forms⟩
  rw [Std.HashMap.getElem?_insert] at h
  split at h
  · rename_i hsame
    rw [← Option.some.inj h, hid he he' (eq_of_beq hsame)]
  · exact hmemo.markups e' he' markup h

/-- A memory stays sound when an element's form is put into it. -/
theorem Memo.Sound.insertForm {nodes : Set Element} {memo : Memo} (hmemo : memo.Sound nodes)
    (hid : Set.InjOn Element.id nodes) {e : Element} (he : e ∈ nodes) {inline : Bool} {form : Json}
    (hform : e.structured inline = .ok form) :
    Memo.Sound nodes { memo with forms := memo.forms.insert (e.id, inline) form } := by
  refine ⟨hmemo.markups, fun e' he' inline' form' h => ?_⟩
  rw [Std.HashMap.getElem?_insert] at h
  split at h
  · rename_i hkey
    obtain ⟨hsame, hinline⟩ := Prod.mk.inj (eq_of_beq hkey)
    rw [← Option.some.inj h, ← hid he he' hsame, ← hinline]
    exact hform
  · exact hmemo.forms e' he' inline' form' h

namespace Serializer

open Journal Output

variable {nodes : Set Element}

/-- An element's markup from memory is its markup, if that is what is written when the memory has
none. -/
theorem yields_recallMarkup (hid : Set.InjOn Element.id nodes) {e : Element} (he : e ∈ nodes)
    {write : Serializing (Except Refusal String)}
    (hwrite : Yields (Memo.Sound nodes) write (.ok e.markup)) :
    Yields (Memo.Sound nodes) (recallMarkup e.id e.lowerName write) (.ok e.markup.toOption) := by
  intro memo hmemo
  unfold recallMarkup
  rw [bind_apply]
  simp only [Journal.get]
  cases hfound : memo.markups[e.id]? with
  | some markup => exact ⟨congrArg _ (hmemo.markups e he markup hfound), hmemo⟩
  | none =>
    refine Yields.bind_ok (I := Memo.Sound nodes) hwrite ?_ memo hmemo
    have hstore : Yields (Memo.Sound nodes) (do
        Journal.modify fun memo =>
          { memo with markups := memo.markups.insert e.id e.markup.toOption }
        return e.markup.toOption : Serializing (Option String)) (.ok e.markup.toOption) :=
      Yields.bind_ok (yields_modify fun _ hmemo => hmemo.insertMarkup hid he) (yields_pure _)
    cases hmarkup : e.markup with
    | error refusal =>
      rw [hmarkup] at hstore
      exact Yields.bind_ok (yields_note _) hstore
    | ok markup =>
      rw [hmarkup] at hstore
      exact hstore

/-- An element's form from memory is its form, if that is what is written when the memory has
none. A failure leaves the memory as it was. -/
theorem yields_recallForm (hid : Set.InjOn Element.id nodes) {e : Element} (he : e ∈ nodes)
    (inline : Bool) {write : Serializing Json}
    (hwrite : Yields (Memo.Sound nodes) write (e.structured inline)) :
    Yields (Memo.Sound nodes) (recallForm e.id inline write) (e.structured inline) := by
  intro memo hmemo
  unfold recallForm
  rw [bind_apply]
  simp only [Journal.get]
  cases hfound : memo.forms[(e.id, inline)]? with
  | some form => exact ⟨(hmemo.forms e he inline form hfound).symm, hmemo⟩
  | none =>
    have hstore : ∀ form, e.structured inline = .ok form →
        Yields (Memo.Sound nodes) (do
          Journal.modify fun memo =>
            { memo with forms := memo.forms.insert (e.id, inline) form }
          return form : Serializing Json) (.ok form) := fun form hform =>
      Yields.bind_ok (yields_modify fun _ hmemo => hmemo.insertForm hid he hform) (yields_pure _)
    have hall := Yields.bind hwrite hstore
    have hr : (e.structured inline >>= Except.ok) = e.structured inline := bind_pure _
    rw [hr] at hall
    exact hall memo hmemo

/-! ## Markup -/

mutual

/-- With a sound memory, the serializer writes an item as the plain function does, and leaves the
memory sound. The induction is over all that is written, one case for each function. -/
theorem yields_itemMarkup (hid : Set.InjOn Element.id nodes) :
    (item : Item) → (∀ e ∈ item.elements, e ∈ nodes) →
      Yields (Memo.Sound nodes) (itemMarkup item) (.ok item.markup?)
  | .text _, _ => yields_pure _
  | .comment _, _ => yields_pure _
  | .mustache _ _, _ => yields_pure _
  | .block _ _ _, _ => yields_pure _
  | .inclusion _, _ => yields_pure _
  | .element e, h => by
    rw [itemMarkup, Item.markup?]
    exact yields_elementMarkup hid e h

/-- The same for an element. What is looked up in the memory was written for this element, since
identities tell elements apart. -/
theorem yields_elementMarkup (hid : Set.InjOn Element.id nodes) :
    (e : Element) → (∀ e' ∈ e.elements, e' ∈ nodes) →
      Yields (Memo.Sound nodes) (elementMarkup e) (.ok e.markup.toOption)
  | ⟨id, rawName, lowerName, .component name attributes, doctype, selfClosing, isVoid, closers,
      children⟩, h => by
    rw [elementMarkup]
    have he := h _ (Element.mem_elements_self _)
    refine yields_recallMarkup hid he ?_
    rw [Element.markup]
    exact yields_pure _
  | ⟨id, rawName, lowerName, .html ⟨tag, attributes, proxies, intro, outro, decorator⟩, doctype,
      selfClosing, isVoid, closers, children⟩, h => by
    rw [elementMarkup]
    have he := h _ (Element.mem_elements_self _)
    refine yields_recallMarkup hid he ?_
    simp only [Element.elements, ElementKind.elements, List.mem_cons, List.mem_append] at h
    rw [Element.markup]
    split
    · exact yields_pure _
    · split
      · exact yields_pure _
      · refine Yields.bind_ok (yields_contentMarkup hid children fun e' he' => h e' (by tauto)) ?_
        cases contentMarkup? children with
        | none => exact yields_pure _
        | some content =>
          refine Yields.bind_ok
            (yields_attributesMarkup hid attributes fun e' he' => h e' (by tauto)) ?_
          cases MustacheMarkup.attributesMarkup attributes with
          | error refusal => exact yields_pure _
          | ok written => exact yields_pure _

/-- The same for content. -/
theorem yields_contentMarkup (hid : Set.InjOn Element.id nodes) :
    (children : Option (List Item)) → (∀ e ∈ fragmentElements children, e ∈ nodes) →
      Yields (Memo.Sound nodes) (contentMarkup children) (.ok (contentMarkup? children))
  | none, _ => yields_pure _
  | some items, h => by
    rw [contentMarkup, contentMarkup?]
    exact yields_itemsMarkup hid items h

/-- The same for attributes. -/
theorem yields_attributesMarkup (hid : Set.InjOn Element.id nodes) :
    (attributes : List Attribute) → (∀ e ∈ attributesElements attributes, e ∈ nodes) →
      Yields (Memo.Sound nodes) (attributesMarkup attributes)
        (.ok (MustacheMarkup.attributesMarkup attributes))
  | [], _ => yields_pure _
  | ⟨name, value⟩ :: rest, h => by
    rw [attributesMarkup, MustacheMarkup.attributesMarkup]
    simp only [attributesElements, List.mem_append] at h
    split
    · exact yields_pure _
    · refine Yields.bind_ok (yields_valueMarkup hid value fun e he => h e (.inl he)) ?_
      cases valueMarkup? value with
      | none => exact yields_pure _
      | some text =>
        refine Yields.bind_ok (yields_attributesMarkup hid rest fun e he => h e (.inr he)) ?_
        cases MustacheMarkup.attributesMarkup rest with
        | error refusal => exact yields_pure _
        | ok written => exact yields_pure _

/-- The same for the value of an attribute. -/
theorem yields_valueMarkup (hid : Set.InjOn Element.id nodes) :
    (value : Option (List Item)) → (∀ e ∈ fragmentElements value, e ∈ nodes) →
      Yields (Memo.Sound nodes) (valueMarkup value) (.ok (valueMarkup? value))
  | none, _ => yields_pure _
  | some items, h => by
    rw [valueMarkup, valueMarkup?]
    exact Yields.bind_ok (yields_itemsMarkup hid items h) (yields_pure _)

/-- The same for lists of items. -/
theorem yields_itemsMarkup (hid : Set.InjOn Element.id nodes) :
    (items : List Item) → (∀ e ∈ itemsElements items, e ∈ nodes) →
      Yields (Memo.Sound nodes) (itemsMarkup items) (.ok (itemsMarkup? items))
  | [], _ => yields_pure _
  | item :: rest, h => by
    rw [itemsMarkup, itemsMarkup?]
    simp only [itemsElements, List.mem_append] at h
    refine Yields.bind_ok (yields_itemMarkup hid item fun e he => h e (.inl he)) ?_
    cases item.markup? with
    | none => exact yields_pure _
    | some first =>
      exact Yields.bind_ok (yields_itemsMarkup hid rest fun e he => h e (.inr he)) (yields_pure _)

end

/-! ## Structured form -/

/-- A list in structured form: its markup or, if that is not asked for or not to be had, what is
given for the list. -/
theorem yields_itemsFormWith (hid : Set.InjOn Element.id nodes) (inline : Bool)
    (items : List Item) (h : ∀ e ∈ itemsElements items, e ∈ nodes)
    {write : Serializing (List Json)} {list : Unit → Except StructureError (List Json)}
    (hlist : Yields (Memo.Sound nodes) write (list ())) :
    Yields (Memo.Sound nodes) (itemsFormWith inline items write)
      (Output.itemsForm inline items list) := by
  unfold itemsFormWith Output.itemsForm
  cases inline with
  | false => exact hlist.map Json.array
  | true =>
    refine Yields.bind_ok (yields_itemsMarkup hid items h) ?_
    simp only [if_true]
    cases itemsMarkup? items with
    | some markup => exact yields_pure _
    | none => exact hlist.map Json.array

/-- Content is inserted as markup or written as a list, and the serializer decides it as the plain
function does. How the list is written is left open here. -/
theorem yields_contentFormWith (hid : Set.InjOn Element.id nodes) (inline : Bool)
    (items : List Item) (h : ∀ e ∈ itemsElements items, e ∈ nodes)
    {write : Serializing (List Json)} {list : Unit → Except StructureError (List Json)}
    (hlist : Yields (Memo.Sound nodes) write (list ())) :
    Yields (Memo.Sound nodes) (contentFormWith inline items write)
      (contentForm inline items list) := by
  unfold contentFormWith contentForm
  split
  · exact yields_pure _
  · exact (yields_itemsFormWith hid inline items h hlist).map some

mutual

/-- With a sound memory, the serializer gives the structured form of an item. Again there is one
case for each function. -/
theorem yields_itemForm (hid : Set.InjOn Element.id nodes) (inline : Bool) :
    (item : Item) → (∀ e ∈ item.elements, e ∈ nodes) →
      Yields (Memo.Sound nodes) (itemForm inline item) (item.structured inline)
  | .text _, _ => yields_pure _
  | .mustache _ _, _ => yields_pure _
  | .block reference inverted items, h => by
    rw [itemForm, Item.structured]
    exact Yields.bind
      (yields_contentFormWith hid inline items h (yields_listForm hid inline items h))
      fun _ _ => yields_pure _
  | .inclusion _, _ => yields_pure _
  | .comment _, _ => yields_pure _
  | .element e, h => by
    rw [itemForm, Item.structured]
    exact yields_elementForm hid inline e h

/-- The same for an element, whose form may be in the memory already. The memory is sound, so what
is found there is the form that would be written. -/
theorem yields_elementForm (hid : Set.InjOn Element.id nodes) (inline : Bool) :
    (e : Element) → (∀ e' ∈ e.elements, e' ∈ nodes) →
      Yields (Memo.Sound nodes) (elementForm inline e) (e.structured inline)
  | ⟨id, rawName, lowerName, .component name attributes, doctype, selfClosing, isVoid, closers,
      children⟩, h => by
    rw [elementForm]
    have he := h _ (Element.mem_elements_self _)
    refine yields_recallForm hid he inline ?_
    simp only [Element.elements, ElementKind.elements, List.mem_cons, List.mem_append] at h
    rw [Element.structured]
    refine Yields.bind
      (yields_attributesForm hid inline [] attributes fun e' he' => h e' (by tauto)) fun _ _ => ?_
    exact Yields.bind (yields_childrenForm hid inline children fun e' he' => h e' (by tauto))
      fun _ _ => yields_pure _
  | ⟨id, rawName, lowerName, .html ⟨tag, attributes, proxies, intro, outro, decorator⟩, doctype,
      selfClosing, isVoid, closers, children⟩, h => by
    rw [elementForm]
    have he := h _ (Element.mem_elements_self _)
    refine yields_recallForm hid he inline ?_
    simp only [Element.elements, ElementKind.elements, List.mem_cons, List.mem_append] at h
    rw [Element.structured]
    refine Yields.bind
      (yields_attributesForm hid inline [] attributes fun e' he' => h e' (by tauto)) fun _ _ => ?_
    refine Yields.bind (yields_childrenForm hid inline children fun e' he' => h e' (by tauto))
      fun _ _ => ?_
    refine Yields.bind (yields_proxiesForm hid proxies fun e' he' => h e' (by tauto)) fun _ _ => ?_
    refine Yields.bind (yields_transitionForm hid intro fun e' he' => h e' (by tauto)) fun _ _ => ?_
    exact Yields.bind (yields_transitionForm hid outro fun e' he' => h e' (by tauto))
      fun _ _ => yields_pure _

/-- The same for attributes, whatever names were seen before. An attribute that is refused leaves
the memory sound, with what was written until then. -/
theorem yields_attributesForm (hid : Set.InjOn Element.id nodes) (inline : Bool)
    (seen : List String) :
    (attributes : List Attribute) → (∀ e ∈ attributesElements attributes, e ∈ nodes) →
      Yields (Memo.Sound nodes) (attributesForm inline seen attributes)
        (attributesStructured inline seen attributes)
  | [], _ => yields_pure _
  | ⟨name, value⟩ :: rest, h => by
    rw [attributesForm, attributesStructured]
    simp only [attributesElements, List.mem_append] at h
    split
    · exact yields_fail _
    · refine Yields.bind (yields_valueForm hid inline value fun e he => h e (.inl he)) fun _ _ => ?_
      exact Yields.bind
        (yields_attributesForm hid inline (name :: seen) rest fun e he => h e (.inr he))
        fun _ _ => yields_pure _

/-- The same for the value of an attribute. -/
theorem yields_valueForm (hid : Set.InjOn Element.id nodes) (inline : Bool) :
    (value : Option (List Item)) → (∀ e ∈ fragmentElements value, e ∈ nodes) →
      Yields (Memo.Sound nodes) (valueForm inline value) (valueStructured inline value)
  | none, _ => yields_pure _
  | some items, h => by
    rw [valueForm, valueStructured]
    exact yields_itemsFormWith hid inline items h (yields_listForm hid inline items h)

/-- The same for content. -/
theorem yields_childrenForm (hid : Set.InjOn Element.id nodes) (inline : Bool) :
    (children : Option (List Item)) → (∀ e ∈ fragmentElements children, e ∈ nodes) →
      Yields (Memo.Sound nodes) (childrenForm inline children) (childrenStructured inline children)
  | none, _ => yields_pure _
  | some items, h => by
    rw [childrenForm, childrenStructured]
    exact yields_contentFormWith hid inline items h (yields_listForm hid inline items h)

/-- The same for the events that are passed on. -/
theorem yields_proxiesForm (hid : Set.InjOn Element.id nodes) :
    (proxies : List Directive) → (∀ e ∈ directivesElements proxies, e ∈ nodes) →
      Yields (Memo.Sound nodes) (proxiesForm proxies) (proxiesStructured proxies)
  | [], _ => yields_pure _
  | d :: rest, h => by
    rw [proxiesForm, proxiesStructured]
    simp only [directivesElements, List.mem_append] at h
    refine Yields.bind (yields_directiveForm hid d fun e he => h e (.inl he)) fun _ _ => ?_
    exact Yields.bind (yields_proxiesForm hid rest fun e he => h e (.inr he))
      fun _ _ => yields_pure _

/-- The same for a transition. -/
theorem yields_transitionForm (hid : Set.InjOn Element.id nodes) :
    (transition : Option Directive) → (∀ e ∈ transitionElements transition, e ∈ nodes) →
      Yields (Memo.Sound nodes) (transitionForm transition) (transitionStructured transition)
  | none, _ => yields_pure _
  | some d, h => by
    rw [transitionForm, transitionStructured]
    exact Yields.bind (yields_directiveForm hid d h) fun _ _ => yields_pure _

/-- The same for a directive. -/
theorem yields_directiveForm (hid : Set.InjOn Element.id nodes) :
    (d : Directive) → (∀ e ∈ d.elements, e ∈ nodes) →
      Yields (Memo.Sound nodes) (directiveForm d) d.structured
  | ⟨_, .fixed name, arguments, dynamicArguments⟩, h => by
    rw [directiveForm, Directive.structured]
    exact Yields.bind (yields_argumentsForm hid arguments dynamicArguments h)
      fun _ _ => yields_pure _
  | ⟨_, .dynamic items, arguments, dynamicArguments⟩, h => by
    rw [directiveForm, Directive.structured]
    simp only [Directive.elements, List.mem_append] at h
    have hitems : ∀ e ∈ itemsElements items, e ∈ nodes := fun e he => h e (.inl he)
    refine Yields.bind (yields_itemsFormWith hid true items hitems (yields_listForm hid true items
      hitems)) fun _ _ => ?_
    exact Yields.bind
      (yields_argumentsForm hid arguments dynamicArguments fun e he => h e (.inr he))
      fun _ _ => yields_pure _

/-- The same for the arguments of a directive, of which only those that depend on values are looked
up item by item. -/
theorem yields_argumentsForm (hid : Set.InjOn Element.id nodes) (arguments : Option Json) :
    (dynamicArguments : Option (List Item)) →
      (∀ e ∈ fragmentElements dynamicArguments, e ∈ nodes) →
      Yields (Memo.Sound nodes) (argumentsForm arguments dynamicArguments)
        (argumentsStructured arguments dynamicArguments)
  | none, _ => yields_pure _
  | some items, h => by
    rw [argumentsForm, argumentsStructured]
    split
    · exact yields_pure _
    · exact Yields.bind (yields_itemsFormWith hid true items h (yields_listForm hid true items h))
        fun _ _ => yields_pure _

/-- The same for lists of items. -/
theorem yields_listForm (hid : Set.InjOn Element.id nodes) (inline : Bool) :
    (items : List Item) → (∀ e ∈ itemsElements items, e ∈ nodes) →
      Yields (Memo.Sound nodes) (listForm inline items) (listStructured inline items)
  | [], _ => yields_pure _
  | item :: rest, h => by
    rw [listForm, listStructured]
    simp only [itemsElements, List.mem_append] at h
    refine Yields.bind (yields_itemForm hid inline item fun e he => h e (.inl he)) fun _ _ => ?_
    exact Yields.bind (yields_listForm hid inline rest fun e he => h e (.inr he))
      fun _ _ => yields_pure _

end

/-! ## One serializer asked again and again -/

/-- What a serializer can be asked for. -/
inductive Call where
  | elementForm (inline : Bool) (e : Element)
  | itemForm (inline : Bool) (item : Item)
  | itemsForm (inline : Bool) (items : List Item)
  | directiveForm (d : Directive)
  | elementMarkup (e : Element)
  | itemMarkup (item : Item)
  | itemsMarkup (items : List Item)

/-- What a serializer answers. -/
inductive Answer where
  | form (form : Json)
  | markup (markup : Option String)

namespace Call

/-- The elements that a call is about. -/
def elements : Call → List Element
  | elementForm _ e => e.elements
  | itemForm _ item => item.elements
  | itemsForm _ items => itemsElements items
  | directiveForm d => d.elements
  | elementMarkup e => e.elements
  | itemMarkup item => item.elements
  | itemsMarkup items => itemsElements items

/-- Do what a call asks for, with a memory. -/
def perform : Call → Serializing Answer
  | elementForm inline e => .form <$> Serializer.elementForm inline e
  | itemForm inline item => .form <$> Serializer.itemForm inline item
  | itemsForm inline items => .form <$> Serializer.itemsForm inline items
  | directiveForm d => .form <$> Serializer.directiveForm d
  | elementMarkup e => .markup <$> Serializer.elementMarkup e
  | itemMarkup item => .markup <$> Serializer.itemMarkup item
  | itemsMarkup items => .markup <$> Serializer.itemsMarkup items

/-- What a call comes to without any memory. -/
def answer : Call → Except StructureError Answer
  | elementForm inline e => (e.structured inline).map .form
  | itemForm inline item => (item.structured inline).map .form
  | itemsForm inline items => (itemsStructured inline items).map .form
  | directiveForm d => d.structured.map .form
  | elementMarkup e => .ok (.markup e.markup.toOption)
  | itemMarkup item => .ok (.markup item.markup?)
  | itemsMarkup items => .ok (.markup (itemsMarkup? items))

/-- With a sound memory, every call is answered as the plain functions answer it, and leaves the
memory sound whether it fails or not. -/
theorem yields_perform (hid : Set.InjOn Element.id nodes) (call : Call)
    (h : ∀ e ∈ call.elements, e ∈ nodes) :
    Yields (Memo.Sound nodes) call.perform call.answer := by
  cases call with
  | elementForm inline e => exact (yields_elementForm hid inline e h).map _
  | itemForm inline item => exact (yields_itemForm hid inline item h).map _
  | itemsForm inline items =>
    exact (yields_itemsFormWith hid inline items h (yields_listForm hid inline items h)).map _
  | directiveForm d => exact (yields_directiveForm hid d h).map _
  | elementMarkup e => exact (yields_elementMarkup hid e h).map _
  | itemMarkup item => exact (yields_itemMarkup hid item h).map _
  | itemsMarkup items => exact (yields_itemsMarkup hid items h).map _

/-- What one serializer answers to calls in turn. A call that fails does not end the turn, and what
it left in the memory stays there. -/
def answers : List Call → Memo → List (Except StructureError Answer)
  | [], _ => []
  | call :: rest, memo => (call.perform memo).result :: answers rest (call.perform memo).state

/-- So are all calls in turn. The induction is over the calls, and what carries it is that the
memory stays sound. -/
theorem answers_of_sound (hid : Set.InjOn Element.id nodes) (calls : List Call)
    (hcalls : ∀ call ∈ calls, ∀ e ∈ call.elements, e ∈ nodes) {memo : Memo}
    (hmemo : memo.Sound nodes) : answers calls memo = calls.map answer := by
  induction calls generalizing memo with
  | nil => rfl
  | cons call rest ih =>
    have hcall := yields_perform hid call (hcalls call List.mem_cons_self)
    have hrest := ih (fun call h => hcalls call (List.mem_cons_of_mem _ h)) (hcall.state hmemo)
    rw [answers, hcall.result hmemo, hrest, List.map_cons]

/-- Whatever one serializer was asked before, it answers as one that was asked nothing: the memory
does not show. The identity has to tell the elements apart that the calls are about. -/
theorem answers_eq_answers_of_fresh (nodes : Set Element) (hid : Set.InjOn Element.id nodes)
    (calls : List Call) (hcalls : ∀ call ∈ calls, ∀ e ∈ call.elements, e ∈ nodes) :
    answers calls Memo.empty = calls.map fun call => (call.perform Memo.empty).result := by
  rw [answers_of_sound hid calls hcalls (Memo.sound_empty nodes)]
  refine List.map_congr_left fun call hcall => ?_
  have hfresh := yields_perform hid call (hcalls call hcall)
  exact (hfresh.result (Memo.sound_empty nodes)).symm

/-- Elements of two runs, one inside the other: writing the outer one fails for an attribute that it
has twice, and the serializer is asked on. -/
theorem answers_after_failure :
    let inner : Element :=
      ⟨⟨0, 0⟩, "b", "b", .html ⟨"b", [], [], none, none, none⟩, false, false, false, none,
        some [.text "x"]⟩
    let outer : Element :=
      ⟨⟨1, 0⟩, "P", "p", .html ⟨"p", [⟨"a", none⟩, ⟨"a", none⟩], [], none, none, none⟩, false,
        false, false, some Vocabulary.paragraphClosers, some [.element inner]⟩
    let calls := [elementForm false outer, itemsMarkup [.element inner, .element outer],
      elementForm true inner, elementForm false outer]
    Set.InjOn Element.id {inner, outer} ∧
      answers calls Memo.empty = calls.map fun call => (call.perform Memo.empty).result := by
  intro inner outer calls
  have hne : outer.id ≠ inner.id := by decide
  have hid : Set.InjOn Element.id {inner, outer} := by
    rintro a (rfl | rfl) b (rfl | rfl) hab
    · rfl
    · exact absurd hab.symm hne
    · exact absurd hab hne
    · rfl
  refine ⟨hid, answers_eq_answers_of_fresh _ hid calls ?_⟩
  have hinner : ∀ e ∈ inner.elements, e ∈ ({inner, outer} : Set Element) := by
    simp [inner, Element.elements, ElementKind.elements, attributesElements, directivesElements,
      transitionElements, fragmentElements, itemsElements, Item.elements]
  have houter : ∀ e ∈ outer.elements, e ∈ ({inner, outer} : Set Element) := by
    intro e he
    have hmem : e = outer ∨ e ∈ inner.elements := by
      simpa [outer, Element.elements, ElementKind.elements, attributesElements, directivesElements,
        transitionElements, fragmentElements, itemsElements, Item.elements] using he
    rcases hmem with rfl | hmem
    · exact Set.mem_insert_of_mem _ rfl
    · exact hinner e hmem
  intro call hcall
  simp only [calls, List.mem_cons, List.not_mem_nil, or_false] at hcall
  rcases hcall with rfl | rfl | rfl | rfl
  · exact houter
  · intro e he
    simp only [Call.elements, itemsElements, Item.elements, List.append_nil, List.mem_append] at he
    exact he.elim (hinner e) (houter e)
  · exact hinner
  · exact houter

end Call

end Serializer

end MustacheMarkup
